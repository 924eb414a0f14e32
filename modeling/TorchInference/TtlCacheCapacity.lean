import TorchInference.TtlCache
import TorchInference.TransitionRuns
import Mathlib.Data.Finset.Card
import Mathlib.Data.Finset.Dedup

/-!
# The capacity of the response cache under concurrent writes

A write checks the size of the map, chooses an entry to evict if the map is
full and the key is new, removes that entry, and inserts its own.  Writes of
other callers may come in between.  The JSON entries and the byte entries are
kept in two maps of which the same holds, so the kind of entry is left open.
What counts is how many keys the map has together with the keys that are about
to be inserted.
-/

namespace TorchInference

open TransitionRuns

inductive SetPhase where
  | evicting
  | chosen (victim : String)
  | ready
  deriving DecidableEq

/-- A write in progress. -/
structure PendingSet where
  key : String
  phase : SetPhase
  deriving DecidableEq

/-- A map of the cache and the writes in progress. -/
structure CacheWrites (Entry : Type) where
  data : AList fun _ : String => Entry
  maxSize : Nat
  pending : List PendingSet

inductive CacheWriteAction (Entry : Type) where
  | check (key : String)
  | choose (index : Nat) (victim : Option String)
  | evict (index : Nat)
  | insert (index : Nat) (entry : Entry)

namespace CacheWrites

variable {Entry : Type}

def start (maxSize : Nat) : CacheWrites Entry :=
  ⟨∅, maxSize, []⟩

def size (writes : CacheWrites Entry) : Nat :=
  writes.data.keys.length

/-- A full map without the key makes a write evict first. -/
def phaseOfCheck (writes : CacheWrites Entry) (key : String) : SetPhase :=
  if writes.maxSize ≤ writes.size ∧ key ∉ writes.data then .evicting
  else .ready

/-- The walk of an eviction meets keys of the map; one that others have
overtaken may meet none. -/
def step (writes : CacheWrites Entry) :
    CacheWriteAction Entry → Option (CacheWrites Entry)
  | .check key => some { writes with
      pending := writes.pending ++ [⟨key, writes.phaseOfCheck key⟩] }
  | .choose index none =>
      match writes.pending[index]? with
      | some ⟨key, .evicting⟩ => some { writes with
          pending := writes.pending.set index ⟨key, .ready⟩ }
      | _ => none
  | .choose index (some victim) =>
      match writes.pending[index]? with
      | some ⟨key, .evicting⟩ =>
          if victim ∈ writes.data then
            some { writes with
              pending := writes.pending.set index ⟨key, .chosen victim⟩ }
          else none
      | _ => none
  | .evict index =>
      match writes.pending[index]? with
      | some ⟨key, .chosen victim⟩ => some { writes with
          data := writes.data.erase victim
          pending := writes.pending.set index ⟨key, .ready⟩ }
      | _ => none
  | .insert index entry =>
      match writes.pending[index]? with
      | some ⟨key, .ready⟩ => some { writes with
          data := writes.data.insert key entry
          pending := writes.pending.eraseIdx index }
      | _ => none

/-- When no write is in progress the map is within its bound. -/
def WithinCapacity (writes : CacheWrites Entry) : Prop :=
  writes.pending = [] → writes.size ≤ writes.maxSize

/-- The keys that writes are about to insert. -/
def readyKeys (writes : CacheWrites Entry) : List String :=
  (writes.pending.filter (·.phase = .ready)).map (·.key)

/-- There is room for one more key beside those of a map and those about to be
inserted. -/
def HasRoom (writes : CacheWrites Entry) (keys : List String) (key : String) :
    Prop :=
  (keys ++ writes.readyKeys ++ [key]).toFinset.card ≤ writes.maxSize

instance (writes : CacheWrites Entry) (keys : List String) (key : String) :
    Decidable (writes.HasRoom keys key) :=
  inferInstanceAs (Decidable (_ ≤ _))

/-- A write that gets ready to insert finds room for its key. -/
def RoomWhenReady (writes : CacheWrites Entry) : Option PendingSet → Prop
  | some ⟨key, .evicting⟩ => writes.HasRoom writes.data.keys key
  | some ⟨key, .chosen victim⟩ =>
      writes.HasRoom (writes.data.erase victim).keys key
  | some ⟨_, .ready⟩ | none => True

instance (writes : CacheWrites Entry) :
    ∀ pending, Decidable (writes.RoomWhenReady pending)
  | some ⟨key, .evicting⟩ =>
      inferInstanceAs (Decidable (writes.HasRoom writes.data.keys key))
  | some ⟨key, .chosen victim⟩ => inferInstanceAs
      (Decidable (writes.HasRoom (writes.data.erase victim).keys key))
  | some ⟨_, .ready⟩ | none => inferInstanceAs (Decidable True)

/-- Every write reserves its place before it inserts. -/
def Reserves (writes : CacheWrites Entry) : CacheWriteAction Entry → Prop
  | .check key =>
      writes.phaseOfCheck key = .ready →
        writes.HasRoom writes.data.keys key
  | .choose index none | .evict index =>
      writes.RoomWhenReady writes.pending[index]?
  | .choose _ (some _) | .insert _ _ => True

instance (writes : CacheWrites Entry) :
    ∀ action, Decidable (writes.Reserves action)
  | .check key => inferInstanceAs (Decidable
      (writes.phaseOfCheck key = .ready →
        writes.HasRoom writes.data.keys key))
  | .choose index none | .evict index => inferInstanceAs
      (Decidable (writes.RoomWhenReady writes.pending[index]?))
  | .choose _ (some _) | .insert _ _ => inferInstanceAs (Decidable True)

/-- The map has room for the keys about to be inserted. -/
structure Inv (maxSize : Nat) (writes : CacheWrites Entry) : Prop where
  limited : writes.maxSize = maxSize
  reserved : (writes.data.keys ++ writes.readyKeys).toFinset.card ≤ maxSize

variable {maxSize : Nat} {writes next : CacheWrites Entry}

theorem inv_start (maxSize : Nat) :
    (start maxSize : CacheWrites Entry).Inv maxSize where
  limited := rfl
  reserved := Nat.zero_le _

theorem mem_readyKeys {key : String} :
    key ∈ writes.readyKeys ↔
      ∃ write ∈ writes.pending, write.phase = .ready ∧ write.key = key := by
  simp [readyKeys, and_assoc]

/-- The invariant carries over when no key is added to those that the map has
or is about to get. -/
theorem Inv.of_subset (inv : writes.Inv maxSize)
    (limited : next.maxSize = writes.maxSize)
    (fewer : ∀ key ∈ next.data.keys ++ next.readyKeys,
      key ∈ writes.data.keys ++ writes.readyKeys) : next.Inv maxSize := by
  refine ⟨limited.trans inv.limited, le_trans (Finset.card_le_card ?_)
    inv.reserved⟩
  intro key member
  exact List.mem_toFinset.mpr (fewer key (List.mem_toFinset.mp member))

/-- So it does when a key is added for which there is room. -/
theorem Inv.of_room (inv : writes.Inv maxSize) {keys : List String}
    {key : String} (room : writes.HasRoom keys key)
    (limited : next.maxSize = writes.maxSize) (sameKeys : next.data.keys = keys)
    (ready : ∀ other ∈ next.readyKeys,
      other ∈ writes.readyKeys ∨ other = key) : next.Inv maxSize := by
  have room' : (keys ++ writes.readyKeys ++ [key]).toFinset.card ≤ maxSize :=
    inv.limited ▸ room
  refine ⟨limited.trans inv.limited, le_trans (Finset.card_le_card ?_) room'⟩
  intro other member
  rw [List.mem_toFinset, List.mem_append, sameKeys] at member
  rw [List.mem_toFinset, List.mem_append, List.mem_append, List.mem_singleton]
  rcases member with isKey | isReady
  · exact Or.inl (Or.inl isKey)
  · rcases ready other isReady with before | new
    · exact Or.inl (Or.inr before)
    · exact Or.inr new

/-- One write of the list becomes ready. -/
theorem readyKeys_set {index : Nat} {key : String}
    {data : AList fun _ : String => Entry} {other : String}
    (member : other ∈ readyKeys { writes with
      data := data
      pending := writes.pending.set index ⟨key, .ready⟩ }) :
    other ∈ writes.readyKeys ∨ other = key := by
  obtain ⟨write, isWrite, ready, rfl⟩ := mem_readyKeys.mp member
  rcases List.mem_or_eq_of_mem_set isWrite with before | rfl
  · exact Or.inl (mem_readyKeys.mpr ⟨write, before, ready, rfl⟩)
  · exact Or.inr rfl

theorem Inv.step (inv : writes.Inv maxSize)
    {action : CacheWriteAction Entry} (reserves : writes.Reserves action)
    (stepTo : writes.step action = some next) : next.Inv maxSize := by
  cases action with
  | check key =>
      cases stepTo
      by_cases ready : writes.phaseOfCheck key = .ready
      · refine inv.of_room (reserves ready) rfl rfl ?_
        intro other member
        obtain ⟨write, isWrite, isReady, rfl⟩ := mem_readyKeys.mp member
        rcases List.mem_append.mp isWrite with before | last
        · exact Or.inl (mem_readyKeys.mpr ⟨write, before, isReady, rfl⟩)
        · rw [List.mem_singleton.mp last]
          exact Or.inr rfl
      · refine inv.of_subset rfl fun other member => ?_
        rcases List.mem_append.mp member with isKey | isReadyKey
        · exact List.mem_append_left _ isKey
        · obtain ⟨write, isWrite, isReady, rfl⟩ := mem_readyKeys.mp isReadyKey
          rcases List.mem_append.mp isWrite with before | last
          · exact List.mem_append_right _
              (mem_readyKeys.mpr ⟨write, before, isReady, rfl⟩)
          · rw [List.mem_singleton.mp last] at isReady
            exact absurd isReady ready
  | choose index victim =>
      cases victim with
      | none =>
          simp only [CacheWrites.step] at stepTo
          split at stepTo
          case h_1 key found =>
            cases stepTo
            simp only [Reserves, found] at reserves
            exact inv.of_room reserves rfl rfl fun _ => readyKeys_set
          case h_2 => cases stepTo
      | some victim =>
          simp only [CacheWrites.step] at stepTo
          split at stepTo
          case h_1 key found =>
            split at stepTo
            case isTrue =>
              cases stepTo
              refine inv.of_subset rfl fun other member => ?_
              rcases List.mem_append.mp member with isKey | isReadyKey
              · exact List.mem_append_left _ isKey
              · obtain ⟨write, isWrite, isReady, rfl⟩ :=
                  mem_readyKeys.mp isReadyKey
                rcases List.mem_or_eq_of_mem_set isWrite with before | rfl
                · exact List.mem_append_right _
                    (mem_readyKeys.mpr ⟨write, before, isReady, rfl⟩)
                · cases isReady
            case isFalse => cases stepTo
          case h_2 => cases stepTo
  | evict index =>
      simp only [CacheWrites.step] at stepTo
      split at stepTo
      case h_1 key victim found =>
        cases stepTo
        simp only [Reserves, found] at reserves
        exact inv.of_room reserves rfl rfl fun _ => readyKeys_set
      case h_2 => cases stepTo
  | insert index entry =>
      simp only [CacheWrites.step] at stepTo
      split at stepTo
      case h_1 key found =>
        cases stepTo
        have isReady : key ∈ writes.readyKeys :=
          mem_readyKeys.mpr ⟨_, List.mem_of_getElem? found, rfl, rfl⟩
        refine inv.of_subset rfl fun other member => ?_
        rcases List.mem_append.mp member with isKey | isReadyKey
        · rcases (AList.mem_insert _).mp (AList.mem_keys.mpr isKey) with
            rfl | before
          · exact List.mem_append_right _ isReady
          · exact List.mem_append_left _ (AList.mem_keys.mp before)
        · obtain ⟨write, isWrite, ready, rfl⟩ := mem_readyKeys.mp isReadyKey
          exact List.mem_append_right _ (mem_readyKeys.mpr
            ⟨write, List.mem_of_mem_eraseIdx isWrite, ready, rfl⟩)
      case h_2 => cases stepTo

theorem Inv.withinCapacity (inv : writes.Inv maxSize) :
    writes.WithinCapacity := by
  intro _
  calc writes.size
      = writes.data.keys.toFinset.card :=
        (List.toFinset_card_of_nodup writes.data.keys_nodup).symm
    _ ≤ (writes.data.keys ++ writes.readyKeys).toFinset.card :=
        Finset.card_le_card fun key member => List.mem_toFinset.mpr
          (List.mem_append_left _ (List.mem_toFinset.mp member))
    _ ≤ maxSize := inv.reserved
    _ = writes.maxSize := inv.limited.symm

/-- Writes that reserve their places keep the map within its bound. -/
theorem withinCapacity_of_reserves {maxSize : Nat}
    {actions : List (CacheWriteAction Entry)}
    (reserves : Meets step Reserves (start maxSize : CacheWrites Entry)
      actions) :
    ∀ reached ∈ visited step (start maxSize : CacheWrites Entry) actions,
      reached.WithinCapacity := by
  intro reached isReached
  have inv : reached.Inv maxSize :=
    invariant_of_meets (fun _ _ _ inv meets stepTo => inv.step meets stepTo)
      (inv_start maxSize) reserves reached isReached
  exact inv.withinCapacity

theorem hasRoom_of_length {Entry : Type} {writes : CacheWrites Entry}
    {keys : List String} {key : String} (noneReady : writes.readyKeys = [])
    (room : keys.length + 1 ≤ writes.maxSize) : writes.HasRoom keys key := by
  unfold HasRoom
  rw [noneReady, List.append_nil]
  calc (keys ++ [key]).toFinset.card
      ≤ (keys ++ [key]).length := List.toFinset_card_le _
    _ = keys.length + 1 := by rw [List.length_append, List.length_singleton]
    _ ≤ writes.maxSize := room

/-- A write that runs alone has the effect of `Cache.set`, and reserves its
place if the map is within its bound. -/
theorem exists_run_set {Value : Type} (cache : Cache Value) (key : String)
    (value : Value) (ttl now : UInt64) {choice : EvictionChoice}
    (possible : cache.Possible choice) :
    ∃ actions,
      run step ⟨cache.data, cache.maxSize, []⟩ actions =
          some ⟨(cache.set key value ttl choice now).data, cache.maxSize, []⟩ ∧
        (1 ≤ cache.maxSize → cache.size ≤ cache.maxSize →
          Meets step Reserves ⟨cache.data, cache.maxSize, []⟩ actions) := by
  let entry : CacheEntry Value :=
    ⟨value, now, ttl, now, 0, (cache.makeRoom key choice).insertionCounter⟩
  by_cases full : cache.maxSize ≤ cache.size ∧ key ∉ cache.data
  · have evicts : phaseOfCheck ⟨cache.data, cache.maxSize, []⟩ key =
        .evicting :=
      if_pos full
    have room : cache.makeRoom key choice = cache.evictLru choice :=
      if_pos full
    rcases Cache.evictLru_data possible with
      ⟨victim, isVictim, erased⟩ | ⟨empty, same⟩
    · refine ⟨[.check key, .choose 0 (some victim), .evict 0,
        .insert 0 entry], ?_, ?_⟩
      · simp [run, step, evicts, isVictim, Cache.set, room, erased, entry]
      · intro positive bounded
        have fewer : (cache.data.erase victim).keys.length + 1 ≤
            cache.maxSize := by
          have member := AList.mem_keys.mp isVictim
          have some := List.length_pos_of_mem member
          rw [AList.keys_erase, List.length_erase_of_mem member]
          unfold Cache.size at bounded
          omega
        simp only [Meets, Reserves, step, evicts, isVictim, if_true,
          List.nil_append, List.getElem?_cons_zero, List.set_cons_zero,
          RoomWhenReady, reduceCtorEq, false_implies, true_and, and_true]
        exact hasRoom_of_length (by simp [readyKeys]) fewer
    · refine ⟨[.check key, .choose 0 none, .insert 0 entry], ?_, ?_⟩
      · simp [run, step, evicts, Cache.set, room, same, entry]
      · intro positive bounded
        have sizeZero : cache.size = 0 := by
          unfold Cache.size
          rw [empty, List.length_nil]
        have := full.1
        omega
  · have isReady : phaseOfCheck ⟨cache.data, cache.maxSize, []⟩ key =
        .ready :=
      if_neg full
    have room : cache.makeRoom key choice = cache := if_neg full
    refine ⟨[.check key, .insert 0 entry], ?_, ?_⟩
    · simp [run, step, isReady, Cache.set, room, entry]
    · intro positive bounded
      simp only [Meets, Reserves, step, isReady, List.nil_append,
        List.getElem?_cons_zero, true_implies, and_true]
      by_cases member : key ∈ cache.data
      · refine le_trans (Finset.card_le_card fun other isOther => ?_)
          (le_trans (List.toFinset_card_le cache.data.keys) bounded)
        rw [List.mem_toFinset, List.mem_append] at isOther
        rw [List.mem_toFinset]
        rcases isOther with isKey | last
        · simpa [readyKeys] using isKey
        · rw [List.mem_singleton.mp last]
          exact AList.mem_keys.mp member
      · refine hasRoom_of_length (by simp [readyKeys]) ?_
        have small : ¬ cache.maxSize ≤ cache.size :=
          fun large => full ⟨large, member⟩
        unfold Cache.size at small
        exact Nat.not_le.mp small

/-- Two overlapping writes, and one that evicts. -/
def reservedWrites : List (CacheWriteAction Unit) :=
  [.check "a", .check "b", .insert 0 (), .insert 0 (), .check "c",
    .choose 0 (some "a"), .evict 0, .insert 0 ()]

theorem reservedWrites_withinCapacity :
    (run step (start 2 : CacheWrites Unit) reservedWrites).isSome ∧
      ∀ reached ∈ visited step (start 2 : CacheWrites Unit) reservedWrites,
        reached.WithinCapacity :=
  ⟨rfl, withinCapacity_of_reserves (by decide)⟩

/-- Two writes find the same last place free; two writes evict the same
entry; a write overwrites an entry that is evicted in between. -/
def racingWrites : List (CacheWriteAction Unit) :=
  [.check "a", .check "b", .insert 0 (), .insert 0 ()]

def sameVictim : List (CacheWriteAction Unit) :=
  [.check "a", .insert 0 (), .check "b", .check "c", .choose 0 (some "a"),
    .choose 1 (some "a"), .evict 0, .evict 1, .insert 0 (), .insert 0 ()]

def evictedOverwrite : List (CacheWriteAction Unit) :=
  [.check "a", .insert 0 (), .check "a", .check "b", .choose 1 (some "a"),
    .evict 1, .insert 1 (), .insert 0 ()]

/-- The writes leave two entries in a cache for one. -/
def Exceed (actions : List (CacheWriteAction Unit)) : Prop :=
  ∃ last, run step (start 1 : CacheWrites Unit) actions = some last ∧
    last.pending = [] ∧ last.size = 2 ∧ ¬ last.WithinCapacity

theorem exceed_of_run {actions : List (CacheWriteAction Unit)}
    {last : CacheWrites Unit}
    (reaches : run step (start 1 : CacheWrites Unit) actions = some last)
    (idle : last.pending = []) (two : last.size = 2) (one : last.maxSize = 1) :
    Exceed actions := by
  refine ⟨last, reaches, idle, two, fun within => ?_⟩
  have bound := within idle
  omega

theorem racingWrites_exceed :
    Exceed racingWrites ∧ Exceed sameVictim ∧ Exceed evictedOverwrite :=
  ⟨exceed_of_run rfl rfl rfl rfl, exceed_of_run rfl rfl rfl rfl,
    exceed_of_run rfl rfl rfl rfl⟩

end CacheWrites

end TorchInference
