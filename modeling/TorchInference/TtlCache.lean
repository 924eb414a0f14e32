import Mathlib.Data.List.AList
import Mathlib.Data.List.MinMax
import Mathlib.Data.Prod.Lex
import Mathlib.Data.UInt

/-!
# The response cache

The cache keeps JSON values for a time to live, in seconds of a coarse clock.
A full cache makes room for a new key by evicting an entry: among a sample of
entries that are not expired, those that were never fetched go first, then the
one that was not accessed for the longest time.  The order in which the map is
walked and the shuffle of the sample are not determined; they are part of an
eviction.
-/

namespace TorchInference

structure CacheEntry (Value : Type) where
  data : Value
  timestamp : UInt64
  ttl : UInt64
  lastAccess : UInt64
  accessCount : UInt64
  insertionOrder : UInt64
  deriving DecidableEq

namespace CacheEntry

variable {Value : Type}

def isExpiredAt (entry : CacheEntry Value) (now : UInt64) : Bool :=
  decide (entry.ttl < now - entry.timestamp)

end CacheEntry

abbrev CacheMap (Value : Type) :=
  AList fun _ : String => CacheEntry Value

structure Cache (Value : Type) where
  data : CacheMap Value
  maxSize : Nat
  hits : UInt64
  misses : UInt64
  evictions : UInt64
  insertionCounter : UInt64
  evictionSamples : UInt64

structure EvictCandidate where
  key : String
  lastAccess : UInt64
  accessCount : UInt64
  insertionOrder : UInt64
  deriving DecidableEq

/-- What an eviction does not determine itself: its clock reading, the sample
size, which depends on the hit rate, two walks of the map, and the shuffled
candidates. -/
structure EvictionChoice where
  now : UInt64
  sampleSize : Nat
  order : List String
  shuffled : List EvictCandidate
  fallbackOrder : List String

namespace EvictCandidate

/-- Candidates are ranked by their last access, then by insertion. -/
def rank (candidate : EvictCandidate) : Nat ×ₗ Nat :=
  toLex (candidate.lastAccess.toNat, candidate.insertionOrder.toNat)

/-- Candidates that were never fetched go first. -/
def victim (candidates : List EvictCandidate) : Option EvictCandidate :=
  ((candidates.filter (·.accessCount = 0)).argmin rank).or
    (candidates.argmin rank)

end EvictCandidate

namespace Cache

variable {Value : Type}

def new (maxSize : Nat) : Cache Value :=
  ⟨∅, maxSize, 0, 0, 0, 0, 0⟩

def size (cache : Cache Value) : Nat :=
  cache.data.keys.length

def get (cache : Cache Value) (key : String) (now : UInt64) :
    Option Value × Cache Value :=
  match cache.data.lookup key with
  | some entry =>
      if entry.isExpiredAt now then
        (none, { cache with
          data := cache.data.erase key
          misses := cache.misses + 1 })
      else
        (some entry.data, { cache with
          data := cache.data.insert key { entry with
            lastAccess := now
            accessCount := entry.accessCount + 1 }
          hits := cache.hits + 1 })
  | none => (none, { cache with misses := cache.misses + 1 })

/-- The entries of the map in the order of a walk. -/
def walk (cache : Cache Value) (order : List String) :
    List (String × CacheEntry Value) :=
  order.filterMap fun key => (cache.data.lookup key).map fun entry =>
    (key, entry)

def candidates (cache : Cache Value) (choice : EvictionChoice) :
    List EvictCandidate :=
  (((cache.walk choice.order).filter
      fun found => !found.2.isExpiredAt choice.now).take
    (choice.sampleSize * 2)).map fun found =>
      ⟨found.1, found.2.lastAccess, found.2.accessCount,
        found.2.insertionOrder⟩

/-- The choice is one the eviction can make in this state. -/
def Possible (cache : Cache Value) (choice : EvictionChoice) : Prop :=
  20 ≤ choice.sampleSize ∧ choice.sampleSize ≤ 100 ∧
    choice.order.Perm cache.data.keys ∧
    choice.shuffled.Perm (cache.candidates choice) ∧
    choice.fallbackOrder.Perm cache.data.keys

instance (cache : Cache Value) (choice : EvictionChoice) :
    Decidable (cache.Possible choice) :=
  inferInstanceAs (Decidable (_ ∧ _ ∧ _ ∧ _ ∧ _))

def evict (cache : Cache Value) (key : String) : Cache Value :=
  { cache with
    data := cache.data.erase key
    evictions := cache.evictions + 1 }

/-- The key of the entry inserted first. -/
def oldest (cache : Cache Value) (order : List String) : Option String :=
  ((cache.walk order).argmin fun found =>
    found.2.insertionOrder.toNat).map Prod.fst

def evictLru (cache : Cache Value) (choice : EvictionChoice) : Cache Value :=
  let sampled := { cache with
    evictionSamples :=
      cache.evictionSamples + UInt64.ofNat choice.shuffled.length }
  if choice.shuffled = [] then
    match cache.oldest choice.fallbackOrder with
    | some key => sampled.evict key
    | none => sampled
  else
    match EvictCandidate.victim choice.shuffled with
    | some candidate => sampled.evict candidate.key
    | none => sampled

def makeRoom (cache : Cache Value) (key : String) (choice : EvictionChoice) :
    Cache Value :=
  if cache.maxSize ≤ cache.size ∧ key ∉ cache.data then cache.evictLru choice
  else cache

def set (cache : Cache Value) (key : String) (value : Value) (ttl : UInt64)
    (choice : EvictionChoice) (now : UInt64) : Cache Value :=
  let room := cache.makeRoom key choice
  { room with
    data := room.data.insert key
      ⟨value, now, ttl, now, 0, room.insertionCounter⟩
    insertionCounter := room.insertionCounter + 1 }

def remove (cache : Cache Value) (key : String) : Cache Value :=
  { cache with data := cache.data.erase key }

def clear (cache : Cache Value) : Cache Value :=
  { cache with data := ∅ }

/-- The keys of a walk whose entries are expired. -/
def expired (cache : Cache Value) (order : List String) (now : UInt64) :
    List String :=
  ((cache.walk order).filter fun found => found.2.isExpiredAt now).map Prod.fst

def cleanupExpired (cache : Cache Value) (order : List String)
    (now : UInt64) : Cache Value :=
  let keys := cache.expired order now
  { cache with data := keys.foldl (fun data key => data.erase key) cache.data }

/-- An eviction can always be made. -/
theorem exists_possible (cache : Cache Value) (now : UInt64) :
    ∃ choice : EvictionChoice, choice.now = now ∧ cache.Possible choice := by
  let walked : EvictionChoice :=
    ⟨now, 20, cache.data.keys, [], cache.data.keys⟩
  refine ⟨{ walked with shuffled := cache.candidates walked }, rfl, ?_⟩
  exact ⟨le_refl 20, (by decide : 20 ≤ 100), List.Perm.refl _,
    List.Perm.refl _, List.Perm.refl _⟩

theorem mem_walk {cache : Cache Value} {order : List String}
    {found : String × CacheEntry Value} (member : found ∈ cache.walk order) :
    found.1 ∈ order ∧ cache.data.lookup found.1 = some found.2 := by
  obtain ⟨key, isKey, looked⟩ := List.mem_filterMap.mp member
  obtain ⟨entry, isEntry, rfl⟩ := Option.map_eq_some_iff.mp looked
  exact ⟨isKey, isEntry⟩

theorem mem_walk_of_lookup {cache : Cache Value} {order : List String}
    {key : String} {entry : CacheEntry Value} (isKey : key ∈ order)
    (isEntry : cache.data.lookup key = some entry) :
    (key, entry) ∈ cache.walk order :=
  List.mem_filterMap.mpr ⟨key, isKey, by rw [isEntry]; rfl⟩

theorem mem_of_lookup {data : CacheMap Value} {key : String}
    {entry : CacheEntry Value} (isEntry : data.lookup key = some entry) :
    key ∈ data :=
  AList.lookup_isSome.mp (by rw [isEntry]; rfl)

theorem key_mem_of_candidate {cache : Cache Value} {choice : EvictionChoice}
    {candidate : EvictCandidate}
    (isCandidate : candidate ∈ cache.candidates choice) :
    candidate.key ∈ cache.data := by
  obtain ⟨found, member, rfl⟩ := List.mem_map.mp isCandidate
  have walked := (List.mem_filter.mp (List.mem_of_mem_take member)).1
  exact mem_of_lookup (mem_walk walked).2

theorem victim_mem {shuffled : List EvictCandidate}
    {candidate : EvictCandidate}
    (isVictim : EvictCandidate.victim shuffled = some candidate) :
    candidate ∈ shuffled := by
  unfold EvictCandidate.victim at isVictim
  rcases Option.or_eq_some_iff.mp isVictim with first | ⟨-, second⟩
  · exact (List.mem_filter.mp (List.argmin_mem first)).1
  · exact List.argmin_mem second

theorem victim_ne_none {shuffled : List EvictCandidate}
    (some : shuffled ≠ []) : EvictCandidate.victim shuffled ≠ none := by
  intro isNone
  unfold EvictCandidate.victim at isNone
  exact some (List.argmin_eq_none.mp (Option.or_eq_none_iff.mp isNone).2)

/-- An eviction removes exactly one entry, unless there is none. -/
theorem evictLru_data {cache : Cache Value} {choice : EvictionChoice}
    (possible : cache.Possible choice) :
    (∃ victim ∈ cache.data,
        (cache.evictLru choice).data = cache.data.erase victim) ∨
      cache.data.keys = [] ∧ (cache.evictLru choice).data = cache.data := by
  obtain ⟨-, -, -, shuffledPerm, fallbackPerm⟩ := possible
  unfold evictLru
  by_cases noSample : choice.shuffled = []
  · simp only [noSample, if_true]
    cases isOldest : cache.oldest choice.fallbackOrder with
    | some key =>
        obtain ⟨found, least, rfl⟩ := Option.map_eq_some_iff.mp isOldest
        exact Or.inl ⟨found.1,
          mem_of_lookup (mem_walk (List.argmin_mem least)).2, rfl⟩
    | none =>
        refine Or.inr ⟨List.eq_nil_iff_forall_not_mem.mpr fun key isKey => ?_,
          rfl⟩
        have walkEmpty : cache.walk choice.fallbackOrder = [] :=
          List.argmin_eq_none.mp (Option.map_eq_none_iff.mp isOldest)
        obtain ⟨entry, isEntry⟩ := Option.isSome_iff_exists.mp
          (AList.lookup_isSome.mpr (AList.mem_keys.mpr isKey))
        have walked := mem_walk_of_lookup (fallbackPerm.mem_iff.mpr isKey)
          isEntry
        rw [walkEmpty] at walked
        cases walked
  · simp only [noSample, if_false]
    cases isVictim : EvictCandidate.victim choice.shuffled with
    | some candidate =>
        exact Or.inl ⟨candidate.key,
          key_mem_of_candidate (shuffledPerm.mem_iff.mp (victim_mem isVictim)),
          rfl⟩
    | none => exact absurd isVictim (victim_ne_none noSample)

end Cache

end TorchInference
