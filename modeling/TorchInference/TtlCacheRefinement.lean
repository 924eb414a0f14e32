import TorchInference.TtlCache
import TorchInference.TransitionRuns

/-!
# The response cache as a bounded map of values that expire

A ledger records what was written last under each key and not removed since.
In every sequence of calls the cache answers from the ledger: what it returns
was written last and is not expired, and what it has lost before its time was
evicted for a new key while the cache was full.
-/

namespace TorchInference

open TransitionRuns

/-- What was written last under a key, and whether it has been evicted. -/
structure WrittenValue (Value : Type) where
  value : Value
  time : UInt64
  ttl : UInt64
  evicted : Bool

/-- The time to live is not over. -/
def WrittenValue.Fresh {Value : Type} (written : WrittenValue Value)
    (now : UInt64) : Prop :=
  now.toNat - written.time.toNat ≤ written.ttl.toNat

theorem WrittenValue.Fresh.earlier {Value : Type}
    {written : WrittenValue Value} {clock now : UInt64}
    (fresh : written.Fresh now) (notLater : clock ≤ now) :
    written.Fresh clock := by
  unfold WrittenValue.Fresh at fresh ⊢
  rw [UInt64.le_iff_toNat_le] at notLater
  omega

/-- A cache with the last clock reading, the number of `get` calls, and the
ledger. -/
structure CacheHistory (Value : Type) where
  cache : Cache Value
  clock : UInt64
  gets : Nat
  ledger : String → Option (WrittenValue Value)

inductive CacheAction (Value : Type) where
  | set (key : String) (value : Value) (ttl : UInt64)
      (choice : EvictionChoice) (now : UInt64)
  | get (key : String) (now : UInt64)
  | remove (key : String)
  | clear
  | cleanupExpired (order : List String) (now : UInt64)

namespace CacheHistory

variable {Value : Type}

def start (maxSize : Nat) : CacheHistory Value :=
  ⟨.new maxSize, 0, 0, fun _ => none⟩

/-- The key is in the first map and not in the second. -/
def Lost (before after : CacheMap Value) (key : String) : Prop :=
  key ∈ before ∧ key ∉ after

instance (before after : CacheMap Value) (key : String) :
    Decidable (Lost before after key) :=
  inferInstanceAs (Decidable (_ ∧ _))

/-- The ledger after a value is written; what the cache loses is marked. -/
def written (history : CacheHistory Value) (after : CacheMap Value)
    (key : String) (value : WrittenValue Value) :
    String → Option (WrittenValue Value) :=
  fun other =>
    if other = key then some value
    else if Lost history.cache.data after other then
      (history.ledger other).map fun old => { old with evicted := true }
    else history.ledger other

/-- The clock readings of a run do not decrease. -/
def step (history : CacheHistory Value) :
    CacheAction Value → Option (CacheHistory Value)
  | .set key value ttl choice now =>
      if history.clock ≤ choice.now ∧ choice.now ≤ now ∧
          history.cache.Possible choice then
        let after := history.cache.set key value ttl choice now
        some { history with
          cache := after
          clock := now
          ledger := history.written after.data key ⟨value, now, ttl, false⟩ }
      else none
  | .get key now =>
      if history.clock ≤ now then
        some { history with
          cache := (history.cache.get key now).2
          clock := now
          gets := history.gets + 1 }
      else none
  | .remove key => some { history with
      cache := history.cache.remove key
      ledger := Function.update history.ledger key none }
  | .clear => some { history with
      cache := history.cache.clear
      ledger := fun _ => none }
  | .cleanupExpired order now =>
      if history.clock ≤ now ∧ order.Perm history.cache.data.keys then
        some { history with
          cache := history.cache.cleanupExpired order now
          clock := now }
      else none

/-- What a call may answer and what it may lose. -/
def Sound (history : CacheHistory Value) : CacheAction Value → Prop
  | .get key now => history.clock ≤ now →
      (∀ value, (history.cache.get key now).1 = some value →
        ∃ written, history.ledger key = some written ∧
          written.value = value ∧ written.time ≤ now ∧ written.Fresh now) ∧
      ((history.cache.get key now).1 = none →
        ∀ written, history.ledger key = some written → written.Fresh now →
          written.evicted = true)
  | .set key value ttl choice now => history.cache.Possible choice →
      let after := (history.cache.set key value ttl choice now).data
      key ∈ after ∧
        (∀ lost, Lost history.cache.data after lost →
          key ∉ history.cache.data ∧
            history.cache.maxSize ≤ history.cache.size) ∧
        ∀ first second, Lost history.cache.data after first →
          Lost history.cache.data after second → first = second
  | _ => True

/-- The bound on the size and the count of the calls, as a number of 64 bits
and, as long as these do not wrap around, exactly. -/
structure Bounded (maxSize : Nat) (history : CacheHistory Value) : Prop where
  size : history.cache.size ≤ max maxSize 1
  total : history.cache.hits + history.cache.misses =
    UInt64.ofNat history.gets
  counted : history.gets < 2 ^ 64 →
    history.cache.hits.toNat + history.cache.misses.toNat = history.gets

structure Inv (maxSize : Nat) (history : CacheHistory Value) : Prop where
  limited : history.cache.maxSize = maxSize
  size : history.cache.size ≤ max maxSize 1
  calls : history.cache.hits.toNat + history.cache.misses.toNat ≤
    history.gets
  congruent : (history.cache.hits.toNat + history.cache.misses.toNat) %
    2 ^ 64 = history.gets % 2 ^ 64
  stored : ∀ key entry, history.cache.data.lookup key = some entry →
    ∃ written, history.ledger key = some written ∧
      written.value = entry.data ∧ written.time = entry.timestamp ∧
      written.ttl = entry.ttl
  past : ∀ key written, history.ledger key = some written →
    written.time ≤ history.clock
  lost : ∀ key written, history.ledger key = some written →
    key ∉ history.cache.data →
      written.evicted = true ∨ ¬ written.Fresh history.clock

end CacheHistory

namespace Cache

variable {Value : Type} {cache : Cache Value} {data : CacheMap Value}

theorem length_erase {key : String} (member : key ∈ data) :
    (data.erase key).keys.length + 1 = data.keys.length := by
  rw [AList.keys_erase,
    List.length_erase_of_mem (AList.mem_keys.mp member)]
  have positive := List.length_pos_of_mem (AList.mem_keys.mp member)
  omega

theorem length_erase_le (data : CacheMap Value) (key : String) :
    (data.erase key).keys.length ≤ data.keys.length := by
  rw [AList.keys_erase]
  exact List.length_erase_le

theorem length_insert_of_mem {key : String} (member : key ∈ data)
    (entry : CacheEntry Value) :
    (data.insert key entry).keys.length = data.keys.length := by
  rw [AList.keys_insert, List.length_cons,
    List.length_erase_of_mem (AList.mem_keys.mp member)]
  have positive := List.length_pos_of_mem (AList.mem_keys.mp member)
  omega

theorem length_insert_of_not_mem {key : String} (absent : key ∉ data)
    (entry : CacheEntry Value) :
    (data.insert key entry).keys.length = data.keys.length + 1 := by
  rw [AList.keys_insert, List.length_cons, List.erase_of_not_mem]
  exact fun member => absent (AList.mem_keys.mpr member)

theorem isExpiredAt_iff {entry : CacheEntry Value} {now : UInt64}
    (notLater : entry.timestamp ≤ now) :
    entry.isExpiredAt now = true ↔
      entry.ttl.toNat < now.toNat - entry.timestamp.toNat := by
  rw [CacheEntry.isExpiredAt, decide_eq_true_eq, UInt64.lt_iff_toNat_lt,
    UInt64.toNat_sub_of_le _ _ notLater]

theorem mem_expired {order : List String} {now : UInt64} {key : String} :
    key ∈ cache.expired order now ↔
      key ∈ order ∧ ∃ entry, cache.data.lookup key = some entry ∧
        entry.isExpiredAt now = true := by
  constructor
  · intro member
    obtain ⟨found, isFound, rfl⟩ := List.mem_map.mp member
    obtain ⟨walked, isExpired⟩ := List.mem_filter.mp isFound
    obtain ⟨isKey, isEntry⟩ := mem_walk walked
    exact ⟨isKey, found.2, isEntry, isExpired⟩
  · rintro ⟨isKey, entry, isEntry, isExpired⟩
    exact List.mem_map.mpr ⟨(key, entry), List.mem_filter.mpr
      ⟨mem_walk_of_lookup isKey isEntry, isExpired⟩, rfl⟩

theorem lookup_eraseAll (keys : List String) (data : CacheMap Value)
    (key : String) :
    (keys.foldl (fun data key => data.erase key) data).lookup key =
      if key ∈ keys then none else data.lookup key := by
  induction keys generalizing data with
  | nil => simp
  | cons first keys ih =>
      rw [List.foldl_cons, ih]
      by_cases later : key ∈ keys
      · simp [later]
      · by_cases same : key = first
        · subst same
          simp [later]
        · simp [later, same, AList.lookup_erase_ne same]

theorem length_eraseAll_le (keys : List String) (data : CacheMap Value) :
    (keys.foldl (fun data key => data.erase key) data).keys.length ≤
      data.keys.length := by
  induction keys generalizing data with
  | nil => exact le_refl _
  | cons first keys ih =>
      exact le_trans (ih _) (length_erase_le data first)

/-- A new key finds room, and at most one other key is lost for it. -/
theorem makeRoom_data (key : String) {choice : EvictionChoice}
    (possible : cache.Possible choice) :
    (cache.makeRoom key choice).data = cache.data ∧
        (key ∈ cache.data ∨ cache.size < max cache.maxSize 1) ∨
      key ∉ cache.data ∧ cache.maxSize ≤ cache.size ∧
        ∃ victim ∈ cache.data,
          (cache.makeRoom key choice).data = cache.data.erase victim := by
  unfold makeRoom
  by_cases full : cache.maxSize ≤ cache.size ∧ key ∉ cache.data
  · rw [if_pos full]
    rcases evictLru_data possible with evicted | ⟨empty, same⟩
    · exact Or.inr ⟨full.2, full.1, evicted⟩
    · refine Or.inl ⟨same, Or.inr ?_⟩
      have sizeZero : cache.size = 0 := by
        unfold size
        rw [empty, List.length_nil]
      omega
  · rw [if_neg full]
    refine Or.inl ⟨rfl, ?_⟩
    by_cases member : key ∈ cache.data
    · exact Or.inl member
    · refine Or.inr ?_
      by_contra large
      exact full ⟨by omega, member⟩

@[simp]
theorem evictLru_hits (cache : Cache Value) (choice : EvictionChoice) :
    (cache.evictLru choice).hits = cache.hits := by
  unfold evictLru
  simp only
  split <;> split <;> rfl

@[simp]
theorem evictLru_misses (cache : Cache Value) (choice : EvictionChoice) :
    (cache.evictLru choice).misses = cache.misses := by
  unfold evictLru
  simp only
  split <;> split <;> rfl

@[simp]
theorem evictLru_maxSize (cache : Cache Value) (choice : EvictionChoice) :
    (cache.evictLru choice).maxSize = cache.maxSize := by
  unfold evictLru
  simp only
  split <;> split <;> rfl

theorem makeRoom_counters (cache : Cache Value) (key : String)
    (choice : EvictionChoice) :
    (cache.makeRoom key choice).hits = cache.hits ∧
      (cache.makeRoom key choice).misses = cache.misses ∧
      (cache.makeRoom key choice).maxSize = cache.maxSize := by
  unfold makeRoom
  split <;> simp

/-- What is lost when a value is written was evicted for it. -/
theorem lost_set {key lost : String} {value : Value} {ttl now : UInt64}
    {choice : EvictionChoice} (possible : cache.Possible choice)
    (isLost : CacheHistory.Lost cache.data
      (cache.set key value ttl choice now).data lost) :
    key ∉ cache.data ∧ cache.maxSize ≤ cache.size ∧
      (cache.makeRoom key choice).data = cache.data.erase lost := by
  obtain ⟨before, notAfter⟩ := isLost
  have notRoom : lost ∉ (cache.makeRoom key choice).data :=
    fun member => notAfter ((AList.mem_insert _).mpr (Or.inr member))
  rcases makeRoom_data key possible with
    ⟨same, -⟩ | ⟨absent, full, victim, -, erased⟩
  · rw [same] at notRoom
    exact absurd before notRoom
  · refine ⟨absent, full, ?_⟩
    have isVictim : lost = victim := by
      by_contra different
      rw [erased] at notRoom
      exact notRoom (AList.mem_erase.mpr ⟨different, before⟩)
    rw [isVictim]
    exact erased

/-- The size after a value is written. -/
theorem size_set_le {key : String} {value : Value} {ttl now : UInt64}
    {choice : EvictionChoice} (possible : cache.Possible choice)
    (bounded : cache.size ≤ max cache.maxSize 1) :
    (cache.set key value ttl choice now).size ≤ max cache.maxSize 1 := by
  rcases makeRoom_data key possible with
    ⟨same, member | room⟩ | ⟨absent, -, victim, isVictim, erased⟩
  · have length := length_insert_of_mem member
      ⟨value, now, ttl, now, 0, (cache.makeRoom key choice).insertionCounter⟩
    simp only [size, set, same] at bounded ⊢
    rw [length]
    exact bounded
  · simp only [size, set, same] at room bounded ⊢
    by_cases member : key ∈ cache.data
    · rw [length_insert_of_mem member]
      exact bounded
    · rw [length_insert_of_not_mem member]
      exact room
  · have notErased : key ∉ cache.data.erase victim :=
      fun member => absent (AList.mem_erase.mp member).2
    have length := length_erase isVictim
    simp only [size, set, erased] at bounded ⊢
    rw [length_insert_of_not_mem notErased, length]
    exact bounded

end Cache

namespace CacheHistory

variable {Value : Type} {maxSize : Nat} {history next : CacheHistory Value}

theorem inv_start (maxSize : Nat) :
    Inv maxSize (start maxSize : CacheHistory Value) where
  limited := rfl
  size := Nat.zero_le _
  calls := le_refl _
  congruent := rfl
  stored key entry isEntry := by
    simp [start, Cache.new] at isEntry
  past key written isWritten := by cases isWritten
  lost key written isWritten := by cases isWritten

/-- An entry is expired when what was written is not fresh. -/
theorem Inv.isExpiredAt_iff (inv : history.Inv maxSize) {key : String}
    {entry : CacheEntry Value} {now : UInt64} (notLater : history.clock ≤ now)
    (isEntry : history.cache.data.lookup key = some entry) :
    ∃ written, history.ledger key = some written ∧
      written.value = entry.data ∧ written.time ≤ now ∧
      (entry.isExpiredAt now = true ↔ ¬ written.Fresh now) := by
  obtain ⟨written, isWritten, value, time, ttl⟩ :=
    inv.stored key entry isEntry
  have past : written.time ≤ now :=
    UInt64.le_trans (inv.past key written isWritten) notLater
  refine ⟨written, isWritten, value, past, ?_⟩
  rw [Cache.isExpiredAt_iff (time ▸ past), WrittenValue.Fresh, time, ttl]
  omega

theorem Inv.sound_get (inv : history.Inv maxSize) (key : String)
    (now : UInt64) : history.Sound (.get key now) := by
  intro notLater
  unfold Cache.get
  cases isEntry : history.cache.data.lookup key with
  | none =>
      refine ⟨fun value same => (by cases same), fun _ written isWritten fresh =>
        ?_⟩
      rcases inv.lost key written isWritten
        (AList.lookup_eq_none.mp isEntry) with evicted | notFresh
      · exact evicted
      · exact absurd (fresh.earlier notLater) notFresh
  | some entry =>
      obtain ⟨written, isWritten, value, past, expired⟩ :=
        inv.isExpiredAt_iff notLater isEntry
      simp only
      by_cases isExpired : entry.isExpiredAt now = true
      · rw [if_pos isExpired]
        refine ⟨fun value same => (by cases same), ?_⟩
        intro _ other isOther fresh
        rw [isWritten] at isOther
        cases isOther
        exact absurd fresh (expired.mp isExpired)
      · rw [if_neg isExpired]
        refine ⟨?_, fun same => by cases same⟩
        rintro answer same
        cases same
        exact ⟨written, isWritten, value, past,
          not_not.mp (fun notFresh => isExpired (expired.mpr notFresh))⟩

theorem sound_set {key : String} {value : Value}
    {ttl now : UInt64} {choice : EvictionChoice} :
    history.Sound (.set key value ttl choice now) := by
  intro possible
  refine ⟨(AList.mem_insert _).mpr (Or.inl rfl), ?_, ?_⟩
  · intro lost isLost
    obtain ⟨absent, full, -⟩ := Cache.lost_set possible isLost
    exact ⟨absent, full⟩
  · intro first second firstLost secondLost
    obtain ⟨-, -, firstErased⟩ := Cache.lost_set possible firstLost
    obtain ⟨-, -, secondErased⟩ := Cache.lost_set possible secondLost
    by_contra different
    have kept : second ∈ history.cache.data.erase first :=
      AList.mem_erase.mpr ⟨Ne.symm different, secondLost.1⟩
    rw [← firstErased, secondErased] at kept
    exact (AList.mem_erase.mp kept).1 rfl

theorem toNat_add_one_cases (count : UInt64) :
    (count + 1).toNat ≤ count.toNat + 1 ∧
      (count + 1).toNat % 2 ^ 64 = (count.toNat + 1) % 2 ^ 64 := by
  rw [UInt64.toNat_add, UInt64.toNat_one]
  exact ⟨Nat.mod_le _ _, Nat.mod_mod _ _⟩

/-- Every `get` call is counted once. -/
theorem counted_get (cache : Cache Value) (key : String) (now : UInt64) :
    let after := (cache.get key now).2
    after.hits.toNat + after.misses.toNat ≤
        cache.hits.toNat + cache.misses.toNat + 1 ∧
      (after.hits.toNat + after.misses.toNat) % 2 ^ 64 =
        (cache.hits.toNat + cache.misses.toNat + 1) % 2 ^ 64 := by
  obtain ⟨hitLe, hitMod⟩ := toNat_add_one_cases cache.hits
  obtain ⟨missLe, missMod⟩ := toNat_add_one_cases cache.misses
  unfold Cache.get
  cases cache.data.lookup key with
  | none =>
      simp only
      omega
  | some entry =>
      simp only
      split
      · simp only
        omega
      · simp only
        omega

theorem maxSize_get (cache : Cache Value) (key : String) (now : UInt64) :
    (cache.get key now).2.maxSize = cache.maxSize := by
  unfold Cache.get
  cases cache.data.lookup key with
  | none => rfl
  | some entry =>
      simp only
      split <;> rfl

/-- A `get` call only changes when and how often its entry was accessed, or
removes the entry. -/
theorem lookup_get {cache : Cache Value} {key other : String} {now : UInt64}
    {entry : CacheEntry Value}
    (isEntry : (cache.get key now).2.data.lookup other = some entry) :
    ∃ before, cache.data.lookup other = some before ∧
      before.data = entry.data ∧ before.timestamp = entry.timestamp ∧
      before.ttl = entry.ttl := by
  unfold Cache.get at isEntry
  cases looked : cache.data.lookup key with
  | none =>
      rw [looked] at isEntry
      exact ⟨entry, isEntry, rfl, rfl, rfl⟩
  | some found =>
      rw [looked] at isEntry
      simp only at isEntry
      by_cases same : other = key
      · subst same
        split at isEntry
        case isTrue => simp [AList.lookup_erase] at isEntry
        case isFalse =>
          simp only [AList.lookup_insert, Option.some.injEq] at isEntry
          subst isEntry
          exact ⟨found, looked, rfl, rfl, rfl⟩
      · split at isEntry
        case isTrue =>
          simp only [AList.lookup_erase_ne same] at isEntry
          exact ⟨entry, isEntry, rfl, rfl, rfl⟩
        case isFalse =>
          simp only [AList.lookup_insert_ne same] at isEntry
          exact ⟨entry, isEntry, rfl, rfl, rfl⟩

theorem size_get_le (cache : Cache Value) (key : String) (now : UInt64) :
    (cache.get key now).2.size ≤ cache.size := by
  unfold Cache.get Cache.size
  cases looked : cache.data.lookup key with
  | none => exact le_refl _
  | some entry =>
      simp only
      split
      · exact Cache.length_erase_le _ _
      · simp only
        rw [Cache.length_insert_of_mem (Cache.mem_of_lookup looked)]

theorem Inv.get (inv : history.Inv maxSize) {key : String} {now : UInt64}
    (notLater : history.clock ≤ now) :
    Inv maxSize { history with
      cache := (history.cache.get key now).2
      clock := now
      gets := history.gets + 1 } := by
  obtain ⟨countLe, countMod⟩ := counted_get history.cache key now
  have calls := inv.calls
  have congruent := inv.congruent
  refine ⟨?_, ?_, ?_, ?_, ?_, ?_, ?_⟩
  · exact (maxSize_get _ _ _).trans inv.limited
  · exact le_trans (size_get_le _ _ _) inv.size
  · simp only
    omega
  · simp only
    omega
  · intro other entry isEntry
    obtain ⟨before, isBefore, value, time, ttl⟩ := lookup_get isEntry
    obtain ⟨written, isWritten, writtenValue, writtenTime, writtenTtl⟩ :=
      inv.stored other before isBefore
    exact ⟨written, isWritten, writtenValue.trans value,
      writtenTime.trans time, writtenTtl.trans ttl⟩
  · intro other written isWritten
    exact UInt64.le_trans (inv.past other written isWritten) notLater
  · intro other written isWritten absent
    by_cases before : other ∈ history.cache.data
    · -- The entry was there, so the call has found it expired.
      refine Or.inr fun fresh => ?_
      obtain ⟨entry, isEntry⟩ := Option.isSome_iff_exists.mp
        (AList.lookup_isSome.mpr before)
      obtain ⟨same, isSame, -, -, expired⟩ :=
        inv.isExpiredAt_iff notLater isEntry
      rw [isWritten] at isSame
      cases isSame
      have notExpired : entry.isExpiredAt now ≠ true :=
        fun isExpired => expired.mp isExpired fresh
      refine absent ?_
      unfold Cache.get
      cases looked : history.cache.data.lookup key with
      | none => exact before
      | some found =>
          simp only
          by_cases sameKey : other = key
          · subst sameKey
            rw [isEntry] at looked
            cases looked
            rw [if_neg notExpired]
            exact (AList.mem_insert _).mpr (Or.inl rfl)
          · split
            · exact AList.mem_erase.mpr ⟨sameKey, before⟩
            · exact (AList.mem_insert _).mpr (Or.inr before)
    · rcases inv.lost other written isWritten before with evicted | notFresh
      · exact Or.inl evicted
      · exact Or.inr fun fresh => notFresh (fresh.earlier notLater)

theorem Inv.set (inv : history.Inv maxSize) {key : String} {value : Value}
    {ttl now : UInt64} {choice : EvictionChoice}
    (notLater : history.clock ≤ now)
    (possible : history.cache.Possible choice) :
    Inv maxSize { history with
      cache := history.cache.set key value ttl choice now
      clock := now
      ledger := history.written
        (history.cache.set key value ttl choice now).data key
        ⟨value, now, ttl, false⟩ } := by
  obtain ⟨hits, misses, limit⟩ :=
    Cache.makeRoom_counters history.cache key choice
  refine ⟨limit.trans inv.limited, ?_, ?_, ?_, ?_, ?_, ?_⟩
  · have bounded : history.cache.size ≤ max history.cache.maxSize 1 := by
      rw [inv.limited]
      exact inv.size
    rw [← inv.limited]
    exact Cache.size_set_le possible bounded
  · simp only [Cache.set, hits, misses]
    exact inv.calls
  · simp only [Cache.set, hits, misses]
    exact inv.congruent
  · intro other entry isEntry
    have present := Cache.mem_of_lookup isEntry
    simp only [written]
    by_cases same : other = key
    · subst same
      simp only [Cache.set, AList.lookup_insert, Option.some.injEq] at isEntry
      subst isEntry
      exact ⟨_, if_pos rfl, rfl, rfl, rfl⟩
    · have notLost : ¬ Lost history.cache.data
          (history.cache.set key value ttl choice now).data other :=
        fun lost => lost.2 present
      rw [if_neg same, if_neg notLost]
      simp only [Cache.set, AList.lookup_insert_ne same] at isEntry
      refine inv.stored other entry ?_
      rcases Cache.makeRoom_data key possible with
        ⟨unchanged, -⟩ | ⟨-, -, victim, -, erased⟩
      · rw [← unchanged]
        exact isEntry
      · rw [erased] at isEntry
        have notVictim : other ≠ victim := by
          rintro rfl
          rw [AList.lookup_erase] at isEntry
          cases isEntry
        rwa [AList.lookup_erase_ne notVictim] at isEntry
  · intro other record isWritten
    simp only [written] at isWritten
    split at isWritten
    case isTrue =>
      cases isWritten
      exact UInt64.le_refl now
    case isFalse =>
      split at isWritten
      case isTrue =>
        obtain ⟨before, isBefore, rfl⟩ := Option.map_eq_some_iff.mp isWritten
        exact UInt64.le_trans (inv.past other before isBefore) notLater
      case isFalse =>
        exact UInt64.le_trans (inv.past other record isWritten) notLater
  · intro other record isWritten absent
    have notKey : other ≠ key := by
      rintro rfl
      exact absent ((AList.mem_insert _).mpr (Or.inl rfl))
    simp only [written, if_neg notKey] at isWritten
    split at isWritten
    case isTrue =>
      obtain ⟨before, -, rfl⟩ := Option.map_eq_some_iff.mp isWritten
      exact Or.inl rfl
    case isFalse notLost =>
      have notBefore : other ∉ history.cache.data :=
        fun before => notLost ⟨before, absent⟩
      rcases inv.lost other record isWritten notBefore with evicted | notFresh
      · exact Or.inl evicted
      · exact Or.inr fun fresh => notFresh (fresh.earlier notLater)

theorem Inv.remove (inv : history.Inv maxSize) (key : String) :
    Inv maxSize { history with
      cache := history.cache.remove key
      ledger := Function.update history.ledger key none } := by
  refine ⟨inv.limited, le_trans (Cache.length_erase_le _ _) inv.size,
    inv.calls, inv.congruent, ?_, ?_, ?_⟩
  · intro other entry isEntry
    by_cases same : other = key
    · subst same
      simp [Cache.remove, AList.lookup_erase] at isEntry
    · simp only [Cache.remove, AList.lookup_erase_ne same] at isEntry
      simp only [Function.update_of_ne same]
      exact inv.stored other entry isEntry
  · intro other written isWritten
    by_cases same : other = key
    · subst same
      simp at isWritten
    · simp only [Function.update_of_ne same] at isWritten
      exact inv.past other written isWritten
  · intro other written isWritten absent
    by_cases same : other = key
    · subst same
      simp at isWritten
    · simp only [Function.update_of_ne same] at isWritten
      exact inv.lost other written isWritten
        fun before => absent (AList.mem_erase.mpr ⟨same, before⟩)

theorem Inv.cleanupExpired (inv : history.Inv maxSize) {order : List String}
    {now : UInt64} (notLater : history.clock ≤ now) :
    Inv maxSize { history with
      cache := history.cache.cleanupExpired order now
      clock := now } := by
  refine ⟨inv.limited, le_trans (Cache.length_eraseAll_le _ _) inv.size,
    inv.calls, inv.congruent, ?_, ?_, ?_⟩
  · intro other entry isEntry
    simp only [Cache.cleanupExpired, Cache.lookup_eraseAll] at isEntry
    split at isEntry
    case isTrue => cases isEntry
    case isFalse => exact inv.stored other entry isEntry
  · intro other written isWritten
    exact UInt64.le_trans (inv.past other written isWritten) notLater
  · intro other written isWritten absent
    have gone := AList.lookup_eq_none.mpr absent
    simp only [Cache.cleanupExpired, Cache.lookup_eraseAll] at gone
    split at gone
    case isTrue isExpired =>
      obtain ⟨-, entry, isEntry, expiredEntry⟩ := Cache.mem_expired.mp isExpired
      obtain ⟨same, isSame, -, -, expired⟩ :=
        inv.isExpiredAt_iff notLater isEntry
      rw [isWritten] at isSame
      cases isSame
      exact Or.inr (expired.mp expiredEntry)
    case isFalse =>
      rcases inv.lost other written isWritten
        (AList.lookup_eq_none.mp gone) with evicted | notFresh
      · exact Or.inl evicted
      · exact Or.inr fun fresh => notFresh (fresh.earlier notLater)

theorem Inv.step (inv : history.Inv maxSize) {action : CacheAction Value}
    (stepTo : history.step action = some next) : next.Inv maxSize := by
  cases action with
  | set key value ttl choice now =>
      simp only [CacheHistory.step] at stepTo
      split at stepTo
      case isTrue possible =>
        cases stepTo
        exact inv.set (UInt64.le_trans possible.1 possible.2.1) possible.2.2
      case isFalse => cases stepTo
  | get key now =>
      simp only [CacheHistory.step] at stepTo
      split at stepTo
      case isTrue notLater =>
        cases stepTo
        exact inv.get notLater
      case isFalse => cases stepTo
  | remove key =>
      cases stepTo
      exact inv.remove key
  | clear =>
      cases stepTo
      refine ⟨inv.limited, Nat.zero_le _, inv.calls, inv.congruent, ?_, ?_,
        ?_⟩
      · intro other entry isEntry
        simp [Cache.clear] at isEntry
      · intro other written isWritten
        cases isWritten
      · intro other written isWritten
        cases isWritten
  | cleanupExpired order now =>
      simp only [CacheHistory.step] at stepTo
      split at stepTo
      case isTrue possible =>
        cases stepTo
        exact inv.cleanupExpired possible.1
      case isFalse => cases stepTo

theorem Inv.bounded (inv : history.Inv maxSize) : history.Bounded maxSize where
  size := inv.size
  total := by
    rw [← UInt64.toNat_inj, UInt64.toNat_add, UInt64.toNat_ofNat']
    exact inv.congruent
  counted small := by
    have calls := inv.calls
    have congruent := inv.congruent
    rw [Nat.mod_eq_of_lt small, Nat.mod_eq_of_lt (by omega)] at congruent
    exact congruent

theorem Inv.sound (inv : history.Inv maxSize) (action : CacheAction Value) :
    history.Sound action := by
  cases action with
  | set key value ttl choice now => exact sound_set
  | get key now => exact inv.sound_get key now
  | remove key => trivial
  | clear => trivial
  | cleanupExpired order now => trivial

/-- In every sequence of calls, for every order of the map and every shuffle,
the cache answers from what was written last and is not expired, stays within
its bound, and loses a fresh value only for a new key while it is full. -/
theorem run_sound (maxSize : Nat) (actions : List (CacheAction Value)) :
    Meets step Sound (start maxSize : CacheHistory Value) actions ∧
      ∀ reached ∈ visited step (start maxSize : CacheHistory Value) actions,
        reached.Bounded maxSize := by
  have preserves : ∀ (history : CacheHistory Value) action next,
      history.Inv maxSize → True → history.step action = some next →
        next.Inv maxSize :=
    fun _ _ _ inv _ stepTo => inv.step stepTo
  have unrestricted : Meets step (fun _ _ => True)
      (start maxSize : CacheHistory Value) actions :=
    meets_of_forall (fun _ _ => trivial) _ _
  refine ⟨?_, ?_⟩
  · exact meets_of_invariant preserves (fun _ action inv _ => inv.sound action)
      (inv_start maxSize) unrestricted
  · intro reached isReached
    have inv : reached.Inv maxSize :=
      invariant_of_meets preserves (inv_start maxSize) unrestricted reached
        isReached
    exact inv.bounded

end CacheHistory

end TorchInference
