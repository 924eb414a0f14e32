import TorchInference.CacheStates
import TorchInference.JsonValue

/-!
# The victims of the response cache

When the sample of an eviction holds every entry that is not expired, the
victim is the one of least rank among those that were never fetched, or among
all if each was fetched.  Insertion orders make it unique until their counter
wraps around.  Expired entries are no candidates: they are evicted only when
there is no other entry.
-/

namespace TorchInference

open TransitionRuns

/-- Entries are ranked by their last access, then by insertion. -/
def CacheEntry.rank {Value : Type} (entry : CacheEntry Value) : Nat ×ₗ Nat :=
  toLex (entry.lastAccess.toNat, entry.insertionOrder.toNat)

namespace Cache

variable {Value : Type} {cache : Cache Value} {choice : EvictionChoice}
  {now : UInt64} {key : String} {entry : CacheEntry Value}

/-- The key has an entry that is not expired. -/
def Unexpired (cache : Cache Value) (now : UInt64) (key : String)
    (entry : CacheEntry Value) : Prop :=
  cache.data.lookup key = some entry ∧ entry.isExpiredAt now = false

def unexpired (cache : Cache Value) (now : UInt64) : List String :=
  cache.data.keys.filter fun key =>
    (cache.data.lookup key).any fun entry => !entry.isExpiredAt now

theorem mem_unexpired :
    key ∈ cache.unexpired now ↔ ∃ entry, cache.Unexpired now key entry := by
  rw [unexpired, List.mem_filter, ← AList.mem_keys, Option.any_eq_true]
  constructor
  · rintro ⟨-, entry, isEntry, isUnexpired⟩
    exact ⟨entry, isEntry, by simpa using isUnexpired⟩
  · rintro ⟨entry, isEntry, isUnexpired⟩
    exact ⟨mem_of_lookup isEntry, entry, isEntry, by simpa using isUnexpired⟩

/-- The entry an SLRU eviction takes: it has the least rank among the entries
never fetched, or among all when each was fetched; expired entries do not
count. -/
def GoesFirst (cache : Cache Value) (now : UInt64) (key : String) : Prop :=
  ∃ entry, cache.Unexpired now key entry ∧
    (entry.accessCount = 0 ∧
        (∀ other found, cache.Unexpired now other found →
          found.accessCount = 0 → entry.rank ≤ found.rank) ∨
      (∀ other found, cache.Unexpired now other found →
          found.accessCount ≠ 0) ∧
        ∀ other found, cache.Unexpired now other found →
          entry.rank ≤ found.rank)

/-! ## The candidates -/

/-- What an eviction notes of an entry. -/
def candidate (key : String) (entry : CacheEntry Value) : EvictCandidate :=
  ⟨key, entry.lastAccess, entry.accessCount, entry.insertionOrder⟩

theorem walk_unexpired (cache : Cache Value) (order : List String)
    (now : UInt64) :
    ((cache.walk order).filter fun found => !found.2.isExpiredAt now).map
        Prod.fst =
      order.filter fun key =>
        (cache.data.lookup key).any fun entry => !entry.isExpiredAt now := by
  induction order with
  | nil => rfl
  | cons key order ih =>
      unfold walk at ih ⊢
      cases looked : cache.data.lookup key with
      | none =>
          rw [List.filterMap_cons_none (by rw [looked]; rfl), ih,
            List.filter_cons_of_neg (by simp [looked])]
      | some entry =>
          rw [List.filterMap_cons_some (by rw [looked]; rfl)]
          by_cases isExpired : entry.isExpiredAt now = true
          · rw [List.filter_cons_of_neg (by simp [isExpired]), ih,
              List.filter_cons_of_neg (by simp [looked, isExpired])]
          · rw [List.filter_cons_of_pos (by simp [isExpired]), List.map_cons, ih,
              List.filter_cons_of_pos (by simp [looked, isExpired])]

/-- No unexpired entry is left out when the sample has room for all. -/
theorem mem_candidates (ordered : choice.order.Perm cache.data.keys)
    (fits : (cache.unexpired choice.now).length ≤ choice.sampleSize * 2)
    {found : EvictCandidate} :
    found ∈ cache.candidates choice ↔
      ∃ key entry, cache.Unexpired choice.now key entry ∧
        found = candidate key entry := by
  have size : ((cache.walk choice.order).filter
      fun found => !found.2.isExpiredAt choice.now).length ≤
        choice.sampleSize * 2 := by
    have walked := congrArg List.length
      (walk_unexpired cache choice.order choice.now)
    rw [List.length_map] at walked
    rw [walked, (ordered.filter _).length_eq]
    exact fits
  rw [candidates, List.take_of_length_le size, List.mem_map]
  constructor
  · rintro ⟨walked, mem, rfl⟩
    obtain ⟨mem, isUnexpired⟩ := List.mem_filter.mp mem
    exact ⟨walked.1, walked.2, ⟨(mem_walk mem).2, by simpa using isUnexpired⟩,
      rfl⟩
  · rintro ⟨key, entry, ⟨isEntry, isUnexpired⟩, rfl⟩
    have isKey := ordered.mem_iff.mpr
      (AList.mem_keys.mpr (mem_of_lookup isEntry))
    exact ⟨(key, entry), List.mem_filter.mpr
      ⟨mem_walk_of_lookup isKey isEntry, by simp [isUnexpired]⟩, rfl⟩

/-- The victim among some candidates. -/
theorem victim_spec {shuffled : List EvictCandidate} {found : EvictCandidate}
    (isVictim : EvictCandidate.victim shuffled = some found) :
    found.accessCount = 0 ∧
        (∀ other ∈ shuffled, other.accessCount = 0 →
          found.rank ≤ other.rank) ∨
      (∀ other ∈ shuffled, other.accessCount ≠ 0) ∧
        ∀ other ∈ shuffled, found.rank ≤ other.rank := by
  unfold EvictCandidate.victim at isVictim
  rcases Option.or_eq_some_iff.mp isVictim with first | ⟨none, second⟩
  · refine Or.inl ⟨?_, fun other mem never => ?_⟩
    · simpa using (List.mem_filter.mp (List.argmin_mem first)).2
    · exact List.le_of_mem_argmin
        (List.mem_filter.mpr ⟨mem, by simpa using never⟩) first
  · refine Or.inr ⟨fun other mem never => ?_, fun other mem =>
      List.le_of_mem_argmin mem second⟩
    have absent := List.argmin_eq_none.mp none
    have present : other ∈ shuffled.filter (·.accessCount = 0) :=
      List.mem_filter.mpr ⟨mem, by simpa using never⟩
    rw [absent] at present
    cases present

/-- An eviction takes such an entry out of the map. -/
theorem evictLru_goesFirst (possible : cache.Possible choice)
    (live : cache.unexpired choice.now ≠ [])
    (fits : (cache.unexpired choice.now).length ≤ choice.sampleSize * 2) :
    ∃ key, cache.GoesFirst choice.now key ∧
      (cache.evictLru choice).data = cache.data.erase key := by
  obtain ⟨-, -, ordered, shuffled, -⟩ := possible
  have sampled : ∀ {found : EvictCandidate}, found ∈ choice.shuffled ↔
      ∃ key entry, cache.Unexpired choice.now key entry ∧
        found = candidate key entry :=
    fun {found} => shuffled.mem_iff.trans (mem_candidates ordered fits)
  have inSample : ∀ other found, cache.Unexpired choice.now other found →
      candidate other found ∈ choice.shuffled :=
    fun other found isUnexpired => sampled.mpr ⟨other, found, isUnexpired, rfl⟩
  obtain ⟨some, mem⟩ := List.exists_mem_of_ne_nil _ live
  obtain ⟨someEntry, isUnexpired⟩ := mem_unexpired.mp mem
  have nonempty : choice.shuffled ≠ [] :=
    List.ne_nil_of_mem (inSample some someEntry isUnexpired)
  cases isVictim : EvictCandidate.victim choice.shuffled with
  | none => exact absurd isVictim (victim_ne_none nonempty)
  | some found =>
      obtain ⟨key, entry, isUnexpired, rfl⟩ := sampled.mp (victim_mem isVictim)
      refine ⟨key, ⟨entry, isUnexpired, ?_⟩, ?_⟩
      · refine (victim_spec isVictim).imp ?_ ?_
        · rintro ⟨never, least⟩
          exact ⟨never, fun other found isUnexpired =>
            least _ (inSample other found isUnexpired)⟩
        · rintro ⟨fetched, least⟩
          exact ⟨fun other found isUnexpired =>
              fetched _ (inSample other found isUnexpired),
            fun other found isUnexpired =>
              least _ (inSample other found isUnexpired)⟩
      · simp only [evictLru, if_neg nonempty, isVictim]
        rfl

/-- Only one entry goes first when no two have one insertion order. -/
theorem GoesFirst.unique {sets : Nat} {orders : List UInt64} {other : String}
    (apart : Reached.OrdersApart sets orders cache)
    (first : cache.GoesFirst now key) (second : cache.GoesFirst now other) :
    key = other := by
  obtain ⟨entry, isUnexpired, least⟩ := first
  obtain ⟨found, isUnexpired', least'⟩ := second
  have sameRank : entry.rank = found.rank := by
    rcases least with ⟨never, least⟩ | ⟨fetched, least⟩
    · rcases least' with ⟨never', least'⟩ | ⟨fetched', -⟩
      · exact le_antisymm (least other found isUnexpired' never')
          (least' key entry isUnexpired never)
      · exact absurd never (fetched' key entry isUnexpired)
    · rcases least' with ⟨never', -⟩ | ⟨-, least'⟩
      · exact absurd never' (fetched other found isUnexpired')
      · exact le_antisymm (least other found isUnexpired')
          (least' key entry isUnexpired)
  have sameOrder : entry.insertionOrder = found.insertionOrder :=
    UInt64.toNat_inj.mp (congrArg (fun rank => (ofLex rank).2) sameRank)
  refine apart.unique key other entry.insertionOrder ?_ ?_
  · rw [Reached.orderOf, isUnexpired.1]
    rfl
  · rw [Reached.orderOf, isUnexpired'.1, sameOrder]
    rfl

/-- In every state that calls can reach, overlapping or not, an eviction whose
sample has room for the unexpired entries removes the entry that goes first. -/
theorem evictLru_removesFirst {maxSize sets : Nat} {orders : List UInt64}
    {cache : Cache Value} {choice : EvictionChoice}
    (reached : Reached maxSize sets orders cache)
    (possible : cache.Possible choice)
    (live : cache.unexpired choice.now ≠ [])
    (fits : (cache.unexpired choice.now).length ≤ choice.sampleSize * 2) :
    ∃ key, cache.GoesFirst choice.now key ∧
      (cache.evictLru choice).data = cache.data.erase key ∧
      (sets ≤ 2 ^ 64 →
        ∀ other, cache.GoesFirst choice.now other → other = key) := by
  obtain ⟨key, first, erased⟩ := evictLru_goesFirst possible live fits
  exact ⟨key, first, erased, fun few other second =>
    GoesFirst.unique (reached.ordersApart few) second first⟩

/-- An entry that was fetched and one that was not. -/
def protectedAndProbationary : Cache JsonValue :=
  let unused : EvictionChoice := ⟨0, 20, [], [], []⟩
  let one := (Cache.new 2).set "prot" (.number (.posInt 1)) 3600 unused 0
  (one.get "prot" 0).2.set "prob" (.number (.posInt 2)) 3600 unused 0

def probationaryVictim : EvictionChoice :=
  ⟨0, 20, ["prot", "prob"], [⟨"prob", 0, 0, 1⟩, ⟨"prot", 0, 1, 0⟩],
    ["prot", "prob"]⟩

theorem protectedAndProbationary_removesFirst :
    ∃ key, protectedAndProbationary.GoesFirst probationaryVictim.now key ∧
      (protectedAndProbationary.evictLru probationaryVictim).data =
        protectedAndProbationary.data.erase key ∧
      (2 ≤ 2 ^ 64 →
        ∀ other, protectedAndProbationary.GoesFirst probationaryVictim.now other →
          other = key) := by
  have reached : Reached 2 2 [] protectedAndProbationary :=
    ((Reached.new.set _ _ _ _ _).get _ _).set _ _ _ _ _
  have possible : protectedAndProbationary.Possible probationaryVictim := by
    decide +kernel
  exact evictLru_removesFirst reached possible (by decide +kernel)
    (by decide +kernel)

end Cache

/-! ## Ties -/

namespace CacheHistory

/-- A write into a map that is not full, at the time of the last call. -/
theorem exists_run_set {Value : Type} {maxSize : Nat}
    {actions : List (CacheAction Value)} {history : CacheHistory Value}
    (runs : run step (start maxSize) actions = some history)
    (room : history.cache.size < history.cache.maxSize) (key : String)
    (value : Value) (ttl : UInt64) :
    ∃ actions next, run step (start maxSize) actions = some next ∧
      next.clock = history.clock ∧
      next.cache = { history.cache with
        data := history.cache.data.insert key
          ⟨value, history.clock, ttl, history.clock, 0,
            history.cache.insertionCounter⟩
        insertionCounter := history.cache.insertionCounter + 1 } := by
  obtain ⟨choice, time, possible⟩ := history.cache.exists_possible history.clock
  have notFull : ¬(history.cache.maxSize ≤ history.cache.size ∧
      key ∉ history.cache.data) := fun full => by omega
  have steps : ∃ next,
      history.step (.set key value ttl choice history.clock) = some next ∧
        next.clock = history.clock ∧
        next.cache = history.cache.set key value ttl choice history.clock := by
    simp only [step, time, possible]
    exact ⟨_, if_pos ⟨UInt64.le_refl _, UInt64.le_refl _, trivial⟩, rfl, rfl⟩
  obtain ⟨next, steps, clock, same⟩ := steps
  refine ⟨actions ++ [.set key value ttl choice history.clock], next, ?_, clock,
    ?_⟩
  · rw [run_append runs, run_cons_of_step steps, run_nil]
  · rw [same, Cache.set, Cache.makeRoom, if_neg notFull]

/-- An entry of time 0 that was never fetched. -/
def plainEntry (insertionOrder : UInt64) : CacheEntry JsonValue :=
  ⟨.null, 0, 100, 0, 0, insertionOrder⟩

/-- The cache after `a` is set once and `b` again and again. -/
def afterSets (count : Nat) : Cache JsonValue :=
  { (Cache.new 10 : Cache JsonValue) with
    data := ((∅ : CacheMap JsonValue).insert "a" (plainEntry 0)).insert "b"
      (plainEntry (UInt64.ofNat (count + 1)))
    insertionCounter := UInt64.ofNat (count + 2) }

theorem size_afterSets (count : Nat) : (afterSets count).size = 2 :=
  rfl

theorem exists_run_afterSets (count : Nat) :
    ∃ actions history, run step (start 10) actions = some history ∧
      history.clock = 0 ∧ history.cache = afterSets count := by
  induction count with
  | zero =>
      have fresh : run step (start 10 : CacheHistory JsonValue) [] =
          some (start 10) := rfl
      obtain ⟨_, first, runs, clock, same⟩ :=
        exists_run_set fresh (by decide) "a" .null 100
      obtain ⟨actions, second, runs, clock', same'⟩ :=
        exists_run_set runs (by rw [same]; decide) "b" .null 100
      refine ⟨actions, second, runs, clock'.trans clock, ?_⟩
      rw [same', same, clock]
      rfl
  | succ count ih =>
      obtain ⟨_, history, runs, clock, same⟩ := ih
      have room : history.cache.size < history.cache.maxSize := by
        rw [same, size_afterSets]
        exact (by decide : 2 < 10)
      obtain ⟨actions, next, runs, clock', same'⟩ :=
        exists_run_set runs room "b" .null 100
      refine ⟨actions, next, runs, clock'.trans clock, ?_⟩
      have counter : UInt64.ofNat (count + 2) + 1 = UInt64.ofNat (count + 3) :=
        (UInt64.ofNat_add (count + 2) 1).symm
      rw [same', same, clock]
      simp only [afterSets, AList.insert_insert, plainEntry, counter]

/-- Three entries of one time; the last one was written when the counter had
come around. -/
def wrapped : Cache JsonValue :=
  { (Cache.new 10 : Cache JsonValue) with
    data := (((∅ : CacheMap JsonValue).insert "a" (plainEntry 0)).insert "b"
      (plainEntry 0xFFFFFFFFFFFFFFFF)).insert "c" (plainEntry 0)
    insertionCounter := 1 }

/-- An eviction from it with the given shuffle. -/
def shuffledAs (shuffled : List EvictCandidate) : EvictionChoice :=
  ⟨0, 20, ["a", "b", "c"], shuffled, ["a", "b", "c"]⟩

def firstShuffle : EvictionChoice :=
  shuffledAs [⟨"a", 0, 0, 0⟩, ⟨"b", 0, 0, 0xFFFFFFFFFFFFFFFF⟩, ⟨"c", 0, 0, 0⟩]

def secondShuffle : EvictionChoice :=
  shuffledAs [⟨"c", 0, 0, 0⟩, ⟨"b", 0, 0, 0xFFFFFFFFFFFFFFFF⟩, ⟨"a", 0, 0, 0⟩]

theorem wrapped_ties :
    (∃ actions history, run step (start 10) actions = some history ∧
        history.cache = wrapped) ∧
      wrapped.Possible firstShuffle ∧ wrapped.Possible secondShuffle ∧
      wrapped.unexpired 0 = ["c", "b", "a"] ∧
      (wrapped.evictLru firstShuffle).data.keys = ["c", "b"] ∧
      (wrapped.evictLru secondShuffle).data.keys = ["b", "a"] := by
  refine ⟨?_, by decide +kernel, by decide +kernel, by decide +kernel,
    by decide +kernel, by decide +kernel⟩
  obtain ⟨_, history, runs, clock, same⟩ := exists_run_afterSets (2 ^ 64 - 2)
  have room : history.cache.size < history.cache.maxSize := by
    rw [same, size_afterSets]
    exact (by decide : 2 < 10)
  obtain ⟨actions, next, runs, -, same'⟩ :=
    exists_run_set runs room "c" .null 100
  refine ⟨actions, next, runs, ?_⟩
  rw [same', same, clock]
  rfl

end CacheHistory

end TorchInference
