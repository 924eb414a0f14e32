import TorchInference.TtlCache
import TorchInference.TransitionRuns

/-!
# Fresh entries of the response cache under concurrent calls

A `get` reads the clock, looks its entry up, and removes an expired entry after
it has let go of it; a cleanup collects expired keys before it removes them; a
`set` reads the clock before it inserts.  Calls of one cache below its capacity
interleave at these points.  The JSON entries and the byte entries are kept in
two maps that work alike.
-/

namespace TorchInference

open TransitionRuns

/-- An entry of one of the two maps. -/
class ExpiringEntry (Entry : Type) (Value : outParam Type) where
  make (value : Value) (now ttl order : UInt64) : Entry
  touch (entry : Entry) (now : UInt64) : Entry
  value : Entry → Value
  timestamp : Entry → UInt64
  ttl : Entry → UInt64
  timestamp_make (value : Value) (now ttl order : UInt64) :
    timestamp (make value now ttl order) = now
  timestamp_touch (entry : Entry) (now : UInt64) :
    timestamp (touch entry now) = timestamp entry
  ttl_touch (entry : Entry) (now : UInt64) : ttl (touch entry now) = ttl entry

instance (Value : Type) : ExpiringEntry (CacheEntry Value) Value where
  make value now ttl order := ⟨value, now, ttl, now, 0, order⟩
  touch entry now := { entry with
    lastAccess := now
    accessCount := entry.accessCount + 1 }
  value := CacheEntry.data
  timestamp := CacheEntry.timestamp
  ttl := CacheEntry.ttl
  timestamp_make _ _ _ _ := rfl
  timestamp_touch _ _ := rfl
  ttl_touch _ _ := rfl

structure BytesCacheEntry where
  data : List UInt8
  timestamp : UInt64
  ttl : UInt64
  deriving DecidableEq

instance : ExpiringEntry BytesCacheEntry (List UInt8) where
  make value now ttl _ := ⟨value, now, ttl⟩
  touch entry _ := entry
  value := BytesCacheEntry.data
  timestamp := BytesCacheEntry.timestamp
  ttl := BytesCacheEntry.ttl
  timestamp_make _ _ _ _ := rfl
  timestamp_touch _ _ := rfl
  ttl_touch _ _ := rfl

namespace ExpiringEntry

variable {Entry Value : Type} [ExpiringEntry Entry Value]

/-- The test of the code, in 64 bits. -/
def isExpiredAt (entry : Entry) (now : UInt64) : Bool :=
  decide (ttl entry < now - timestamp entry)

/-- The age of the entry does not exceed its time to live. -/
def Fresh (entry : Entry) (now : UInt64) : Prop :=
  now.toNat - (timestamp entry).toNat ≤ (ttl entry).toNat

instance (entry : Entry) (now : UInt64) : Decidable (Fresh entry now) :=
  inferInstanceAs (Decidable (_ ≤ _))

theorem isExpiredAt_cacheEntry {Value : Type} (entry : CacheEntry Value)
    (now : UInt64) : isExpiredAt entry now = entry.isExpiredAt now :=
  rfl

theorem isExpiredAt_iff {entry : Entry} {now : UInt64}
    (notLater : timestamp entry ≤ now) :
    isExpiredAt entry now = true ↔ ¬ Fresh entry now := by
  rw [isExpiredAt, decide_eq_true_eq, UInt64.lt_iff_toNat_lt,
    UInt64.toNat_sub_of_le _ _ notLater, Fresh]
  omega

theorem Fresh.earlier {entry : Entry} {clock now : UInt64}
    (fresh : Fresh entry now) (notLater : clock ≤ now) :
    Fresh entry clock := by
  unfold Fresh at fresh ⊢
  rw [UInt64.le_iff_toNat_le] at notLater
  omega

end ExpiringEntry

open ExpiringEntry

/-- A `set` that has read the clock. -/
structure PendingWrite (Value : Type) where
  key : String
  value : Value
  now : UInt64
  ttl : UInt64
  order : UInt64

/-- A map of the cache with the calls in progress: `get` calls that have read
the clock, `set` calls that have read it, cleanups with the keys collected so
far, and the keys that calls are going to remove. -/
structure CacheCalls (Entry Value : Type) where
  clock : UInt64
  data : AList fun _ : String => Entry
  insertionCounter : UInt64
  readers : List (String × UInt64)
  writers : List (PendingWrite Value)
  collectors : List (UInt64 × List String)
  removers : List (List String)
  answers : List (String × Option Value)

inductive CacheCallAction (Value : Type) where
  | tick (now : UInt64)
  | get (key : String)
  | lookup (index : Nat)
  | set (key : String) (value : Value) (ttl : UInt64)
  | insert (index : Nat)
  | cleanup
  | visit (index : Nat) (key : String)
  | collected (index : Nat)
  | remove (index : Nat)

namespace CacheCalls

variable {Entry Value : Type} [ExpiringEntry Entry Value]

def start : CacheCalls Entry Value :=
  ⟨0, ∅, 0, [], [], [], [], []⟩

/-- The lookup of a `get`; one that finds its entry expired answers `None`
after it has removed the key. -/
def lookup (calls : CacheCalls Entry Value) (index : Nat) (key : String)
    (now : UInt64) : CacheCalls Entry Value :=
  match calls.data.lookup key with
  | none => { calls with
      readers := calls.readers.eraseIdx index
      answers := calls.answers ++ [(key, none)] }
  | some entry =>
      if isExpiredAt entry now then
        { calls with
          readers := calls.readers.eraseIdx index
          removers := calls.removers ++ [[key]]
          answers := calls.answers ++ [(key, none)] }
      else
        { calls with
          data := calls.data.insert key (touch entry now)
          readers := calls.readers.eraseIdx index
          answers := calls.answers ++ [(key, some (value entry))] }

/-- A cleanup looks at one entry of its walk. -/
def collects (calls : CacheCalls Entry Value) (now : UInt64) (key : String) :
    Bool :=
  match calls.data.lookup key with
  | none => false
  | some entry => isExpiredAt entry now

def step (calls : CacheCalls Entry Value) :
    CacheCallAction Value → Option (CacheCalls Entry Value)
  | .tick now =>
      if calls.clock ≤ now then some { calls with clock := now } else none
  | .get key => some { calls with
      readers := calls.readers ++ [(key, calls.clock)] }
  | .lookup index =>
      match calls.readers[index]? with
      | none => none
      | some (key, now) => some (calls.lookup index key now)
  | .set key value ttl => some { calls with
      insertionCounter := calls.insertionCounter + 1
      writers := calls.writers ++
        [⟨key, value, calls.clock, ttl, calls.insertionCounter⟩] }
  | .insert index =>
      match calls.writers[index]? with
      | none => none
      | some write => some { calls with
          data := calls.data.insert write.key
            (make write.value write.now write.ttl write.order)
          writers := calls.writers.eraseIdx index }
  | .cleanup => some { calls with
      collectors := calls.collectors ++ [(calls.clock, [])] }
  | .visit index key =>
      match calls.collectors[index]? with
      | none => none
      | some (now, keys) =>
          if calls.collects now key then
            some { calls with
              collectors := calls.collectors.set index (now, keys ++ [key]) }
          else some calls
  | .collected index =>
      match calls.collectors[index]? with
      | none => none
      | some (_, keys) => some { calls with
          collectors := calls.collectors.eraseIdx index
          removers := calls.removers ++ [keys] }
  | .remove index =>
      match calls.removers[index]? with
      | none => none
      | some [] => some { calls with
          removers := calls.removers.eraseIdx index }
      | some (key :: rest) => some { calls with
          data := calls.data.erase key
          removers := calls.removers.set index rest }

/-- No entry is tested against a clock reading before its timestamp, a `get`
returns the fresh entry it finds, and no fresh entry is removed. -/
def KeepsFresh (calls : CacheCalls Entry Value) :
    CacheCallAction Value → Prop
  | .lookup index => ∀ key now entry,
      calls.readers[index]? = some (key, now) →
        calls.data.lookup key = some entry →
          timestamp entry ≤ now ∧ (Fresh entry calls.clock →
            (calls.lookup index key now).answers =
              calls.answers ++ [(key, some (value entry))])
  | .visit index key => ∀ now keys entry,
      calls.collectors[index]? = some (now, keys) →
        calls.data.lookup key = some entry →
          timestamp entry ≤ now ∧
            (Fresh entry calls.clock → calls.collects now key = false)
  | .remove index => ∀ key rest entry,
      calls.removers[index]? = some (key :: rest) →
        calls.data.lookup key = some entry → ¬ Fresh entry calls.clock
  | _ => True

/-- The entry, if there is one, is not from after the clock reading. -/
def NotAfter (entry : Option Entry) (now : UInt64) : Prop :=
  ∀ found ∈ entry, timestamp found ≤ now

instance (entry : Option Entry) (now : UInt64) :
    Decidable (NotAfter entry now) :=
  Option.decidableForallMem _

/-- No call is going to remove the key. -/
def Undoomed (calls : CacheCalls Entry Value) (key : String) : Prop :=
  (∀ keys ∈ calls.removers, key ∉ keys) ∧
    ∀ collector ∈ calls.collectors, key ∉ collector.2

instance (calls : CacheCalls Entry Value) (key : String) :
    Decidable (calls.Undoomed key) :=
  have : Decidable (∀ keys ∈ calls.removers, key ∉ keys) :=
    List.decidableBAll _ _
  have : Decidable (∀ collector ∈ calls.collectors, key ∉ collector.2) :=
    List.decidableBAll _ _
  inferInstanceAs (Decidable (_ ∧ _))

/-- A call tests only entries from before its clock reading, and no key is
written again that a call has found expired and not yet removed. -/
def Undisturbed (calls : CacheCalls Entry Value) :
    CacheCallAction Value → Prop
  | .lookup index => ∀ reader ∈ calls.readers[index]?,
      NotAfter (calls.data.lookup reader.1) reader.2
  | .visit index key => ∀ collector ∈ calls.collectors[index]?,
      NotAfter (calls.data.lookup key) collector.1
  | .insert index => ∀ write ∈ calls.writers[index]?,
      calls.Undoomed write.key
  | .tick _ | .get _ | .set _ _ _ | .cleanup | .collected _ | .remove _ => True

instance (calls : CacheCalls Entry Value) :
    ∀ action, Decidable (calls.Undisturbed action)
  | .lookup index =>
      have : Decidable (∀ reader ∈ calls.readers[index]?,
          NotAfter (calls.data.lookup reader.1) reader.2) :=
        Option.decidableForallMem _
      inferInstanceAs (Decidable (∀ reader ∈ calls.readers[index]?,
        NotAfter (calls.data.lookup reader.1) reader.2))
  | .visit index key =>
      have : Decidable (∀ collector ∈ calls.collectors[index]?,
          NotAfter (calls.data.lookup key) collector.1) :=
        Option.decidableForallMem _
      inferInstanceAs (Decidable (∀ collector ∈ calls.collectors[index]?,
        NotAfter (calls.data.lookup key) collector.1))
  | .insert index =>
      have : Decidable (∀ write ∈ calls.writers[index]?,
          calls.Undoomed write.key) :=
        Option.decidableForallMem _
      inferInstanceAs (Decidable (∀ write ∈ calls.writers[index]?,
        calls.Undoomed write.key))
  | .tick _ | .get _ | .set _ _ _ | .cleanup | .collected _ | .remove _ =>
      inferInstanceAs (Decidable True)

/-- The key has no fresh entry. -/
def Expired (calls : CacheCalls Entry Value) (key : String) : Prop :=
  ∀ entry, calls.data.lookup key = some entry → ¬ Fresh entry calls.clock

structure Inv (calls : CacheCalls Entry Value) : Prop where
  readings : ∀ reader ∈ calls.readers, reader.2 ≤ calls.clock
  collecting : ∀ collector ∈ calls.collectors, collector.1 ≤ calls.clock
  collected : ∀ collector ∈ calls.collectors, ∀ key ∈ collector.2,
    calls.Expired key
  removing : ∀ keys ∈ calls.removers, ∀ key ∈ keys, calls.Expired key

variable {calls next : CacheCalls Entry Value}

theorem inv_start : (start : CacheCalls Entry Value).Inv where
  readings _ member := by cases member
  collecting _ member := by cases member
  collected _ member := by cases member
  removing _ member := by cases member

/-- A later clock makes nothing fresh, and a map whose entries are those from
before, or touched, has no new ones. -/
theorem Expired.later {key : String} (expired : calls.Expired key)
    (notEarlier : calls.clock ≤ next.clock)
    (older : ∀ entry, next.data.lookup key = some entry →
      ∃ before, calls.data.lookup key = some before ∧
        (Fresh entry next.clock → Fresh before next.clock)) :
    next.Expired key := by
  intro entry isEntry fresh
  obtain ⟨before, isBefore, wasFresh⟩ := older entry isEntry
  exact expired before isBefore ((wasFresh fresh).earlier notEarlier)

theorem fresh_touch {entry : Entry} {reading now : UInt64}
    (fresh : Fresh (touch entry reading) now) : Fresh entry now := by
  unfold Fresh at fresh ⊢
  rwa [timestamp_touch, ttl_touch] at fresh

theorem inv_of_sameData (calls : CacheCalls Entry Value)
    {after : CacheCalls Entry Value}
    (sameData : after.data = calls.data)
    (notEarlier : calls.clock ≤ after.clock)
    (readings : ∀ reader ∈ after.readers, reader.2 ≤ after.clock)
    (collecting : ∀ collector ∈ after.collectors, collector.1 ≤ after.clock)
    (collected : ∀ collector ∈ after.collectors, ∀ key ∈ collector.2,
      calls.Expired key)
    (removing : ∀ keys ∈ after.removers, ∀ key ∈ keys, calls.Expired key) :
    after.Inv := by
  have later : ∀ key, calls.Expired key → after.Expired key := by
    intro key expired
    refine expired.later notEarlier fun entry isEntry => ?_
    rw [sameData] at isEntry
    exact ⟨entry, isEntry, fun fresh => fresh⟩
  exact ⟨readings, collecting,
    fun collector member key isKey =>
      later key (collected collector member key isKey),
    fun keys member key isKey => later key (removing keys member key isKey)⟩

/-- What a call finds expired by its clock reading is expired. -/
theorem expired_of_isExpiredAt {key : String} {entry : Entry} {now : UInt64}
    (isEntry : calls.data.lookup key = some entry)
    (isExpired : isExpiredAt entry now = true)
    (notAfter : timestamp entry ≤ now) (reading : now ≤ calls.clock) :
    calls.Expired key := by
  intro found isFound fresh
  rw [isEntry] at isFound
  cases isFound
  exact (isExpiredAt_iff notAfter).mp isExpired (fresh.earlier reading)

theorem Inv.lookup (inv : calls.Inv) {index : Nat} {key : String}
    {now : UInt64} (found : calls.readers[index]? = some (key, now))
    (notAfter : NotAfter (calls.data.lookup key) now) :
    (calls.lookup index key now).Inv := by
  have reading : now ≤ calls.clock :=
    inv.readings (key, now) (List.mem_of_getElem? found)
  have readings : ∀ reader ∈ calls.readers.eraseIdx index,
      reader.2 ≤ calls.clock :=
    fun reader member => inv.readings reader (List.mem_of_mem_eraseIdx member)
  unfold CacheCalls.lookup
  cases isEntry : calls.data.lookup key with
  | none =>
      exact inv_of_sameData calls rfl (UInt64.le_refl _) readings inv.collecting
        inv.collected inv.removing
  | some entry =>
      have past : timestamp entry ≤ now := notAfter entry isEntry
      simp only
      split
      case isTrue isExpired =>
        refine inv_of_sameData calls rfl (UInt64.le_refl _) readings
          inv.collecting inv.collected ?_
        intro keys member other isOther
        rcases List.mem_append.mp member with before | last
        · exact inv.removing keys before other isOther
        · rw [List.mem_singleton.mp last, List.mem_singleton] at isOther
          rw [isOther]
          exact expired_of_isExpiredAt isEntry isExpired past reading
      case isFalse =>
        have later : ∀ other, calls.Expired other → Expired { calls with
            data := calls.data.insert key (touch entry now)
            readers := calls.readers.eraseIdx index
            answers := calls.answers ++ [(key, some (value entry))] }
            other := by
          intro other expired
          refine expired.later (UInt64.le_refl _) fun found isFound => ?_
          by_cases same : other = key
          · subst same
            simp only [AList.lookup_insert, Option.some.injEq] at isFound
            subst isFound
            exact ⟨entry, isEntry, fresh_touch⟩
          · simp only [AList.lookup_insert_ne same] at isFound
            exact ⟨found, isFound, fun fresh => fresh⟩
        exact ⟨readings, inv.collecting,
          fun collector member other isOther =>
            later other (inv.collected collector member other isOther),
          fun keys member other isOther =>
            later other (inv.removing keys member other isOther)⟩

theorem Inv.insert (inv : calls.Inv) {write : PendingWrite Value}
    (undoomed : calls.Undoomed write.key) (writers : List (PendingWrite Value)) :
    Inv { calls with
      data := calls.data.insert write.key
        (make write.value write.now write.ttl write.order)
      writers := writers } := by
  have later : ∀ key, key ≠ write.key → calls.Expired key →
      Expired { calls with
        data := calls.data.insert write.key
          (make write.value write.now write.ttl write.order)
        writers := writers } key := by
    intro key different expired
    refine expired.later (UInt64.le_refl _) fun entry isEntry => ?_
    simp only [AList.lookup_insert_ne different] at isEntry
    exact ⟨entry, isEntry, fun fresh => fresh⟩
  refine ⟨inv.readings, inv.collecting, ?_, ?_⟩
  · intro collector member key isKey
    have different : key ≠ write.key := by
      rintro rfl
      exact undoomed.2 collector member isKey
    exact later key different (inv.collected collector member key isKey)
  · intro keys member key isKey
    have different : key ≠ write.key := by
      rintro rfl
      exact undoomed.1 keys member isKey
    exact later key different (inv.removing keys member key isKey)

theorem Inv.remove (inv : calls.Inv) {index : Nat} {key : String}
    {rest : List String}
    (found : calls.removers[index]? = some (key :: rest)) :
    Inv { calls with
      data := calls.data.erase key
      removers := calls.removers.set index rest } := by
  have later : ∀ other, calls.Expired other → Expired { calls with
      data := calls.data.erase key
      removers := calls.removers.set index rest } other := by
    intro other expired
    refine expired.later (UInt64.le_refl _) fun entry isEntry => ?_
    by_cases same : other = key
    · subst same
      simp [AList.lookup_erase] at isEntry
    · simp only [AList.lookup_erase_ne same] at isEntry
      exact ⟨entry, isEntry, fun fresh => fresh⟩
  refine ⟨inv.readings, inv.collecting, ?_, ?_⟩
  · intro collector member other isOther
    exact later other (inv.collected collector member other isOther)
  · intro keys member other isOther
    rcases List.mem_or_eq_of_mem_set member with before | rfl
    · exact later other (inv.removing keys before other isOther)
    · exact later other (inv.removing (key :: keys)
        (List.mem_of_getElem? found) other (List.mem_cons_of_mem _ isOther))

theorem collects_eq_true {key : String} {now : UInt64}
    (collects : calls.collects now key = true) :
    ∃ entry, calls.data.lookup key = some entry ∧
      isExpiredAt entry now = true := by
  unfold CacheCalls.collects at collects
  cases isEntry : calls.data.lookup key with
  | none => simp [isEntry] at collects
  | some entry =>
      rw [isEntry] at collects
      exact ⟨entry, rfl, collects⟩

/-- A cleanup collects an entry that it finds expired. -/
theorem Inv.visit (inv : calls.Inv) {index : Nat} {now : UInt64}
    {keys : List String} {key : String}
    (found : calls.collectors[index]? = some (now, keys))
    (collects : calls.collects now key = true)
    (notAfter : NotAfter (calls.data.lookup key) now) :
    Inv { calls with
      collectors := calls.collectors.set index (now, keys ++ [key]) } := by
  have isCollector := List.mem_of_getElem? found
  obtain ⟨entry, isEntry, isExpired⟩ := collects_eq_true collects
  refine inv_of_sameData calls rfl (UInt64.le_refl _) inv.readings ?_ ?_
    inv.removing
  · intro collector member
    rcases List.mem_or_eq_of_mem_set member with before | rfl
    · exact inv.collecting collector before
    · exact inv.collecting (now, keys) isCollector
  · intro collector member other isOther
    rcases List.mem_or_eq_of_mem_set member with before | rfl
    · exact inv.collected collector before other isOther
    · rcases List.mem_append.mp isOther with old | new
      · exact inv.collected (now, keys) isCollector other old
      · rw [List.mem_singleton.mp new]
        exact expired_of_isExpiredAt isEntry isExpired
          (notAfter entry isEntry) (inv.collecting (now, keys) isCollector)

theorem Inv.step (inv : calls.Inv) {action : CacheCallAction Value}
    (undisturbed : calls.Undisturbed action)
    (stepTo : calls.step action = some next) : next.Inv := by
  cases action with
  | tick now =>
      simp only [CacheCalls.step] at stepTo
      split at stepTo
      case isTrue notLater =>
        cases stepTo
        exact inv_of_sameData calls rfl notLater
          (fun reader member =>
            UInt64.le_trans (inv.readings reader member) notLater)
          (fun collector member =>
            UInt64.le_trans (inv.collecting collector member) notLater)
          inv.collected inv.removing
      case isFalse => cases stepTo
  | get key =>
      cases stepTo
      refine inv_of_sameData calls rfl (UInt64.le_refl _) ?_ inv.collecting
        inv.collected inv.removing
      intro reader member
      rcases List.mem_append.mp member with before | last
      · exact inv.readings reader before
      · rw [List.mem_singleton.mp last]
        exact UInt64.le_refl _
  | lookup index =>
      simp only [CacheCalls.step] at stepTo
      split at stepTo
      case h_1 => cases stepTo
      case h_2 key now found =>
        cases stepTo
        exact inv.lookup found (undisturbed (key, now) found)
  | set key value ttl =>
      cases stepTo
      exact inv_of_sameData calls rfl (UInt64.le_refl _) inv.readings
        inv.collecting inv.collected inv.removing
  | insert index =>
      simp only [CacheCalls.step] at stepTo
      split at stepTo
      case h_1 => cases stepTo
      case h_2 write found =>
        cases stepTo
        exact inv.insert (undisturbed write found) _
  | cleanup =>
      cases stepTo
      refine inv_of_sameData calls rfl (UInt64.le_refl _) inv.readings ?_ ?_
        inv.removing
      · intro collector member
        rcases List.mem_append.mp member with before | last
        · exact inv.collecting collector before
        · rw [List.mem_singleton.mp last]
          exact UInt64.le_refl _
      · intro collector member key isKey
        rcases List.mem_append.mp member with before | last
        · exact inv.collected collector before key isKey
        · rw [List.mem_singleton.mp last] at isKey
          cases isKey
  | visit index key =>
      simp only [CacheCalls.step] at stepTo
      split at stepTo
      case h_1 => cases stepTo
      case h_2 now keys found =>
        split at stepTo
        case isTrue collects =>
          cases stepTo
          exact inv.visit found collects (undisturbed (now, keys) found)
        case isFalse =>
          cases stepTo
          exact inv
  | collected index =>
      simp only [CacheCalls.step] at stepTo
      split at stepTo
      case h_1 => cases stepTo
      case h_2 now keys found =>
        cases stepTo
        refine inv_of_sameData calls rfl (UInt64.le_refl _) inv.readings ?_ ?_ ?_
        · intro collector member
          exact inv.collecting collector (List.mem_of_mem_eraseIdx member)
        · intro collector member
          exact inv.collected collector (List.mem_of_mem_eraseIdx member)
        · intro other member key isKey
          rcases List.mem_append.mp member with before | last
          · exact inv.removing other before key isKey
          · rw [List.mem_singleton.mp last] at isKey
            exact inv.collected (now, keys) (List.mem_of_getElem? found) key
              isKey
  | remove index =>
      simp only [CacheCalls.step] at stepTo
      split at stepTo
      case h_1 => cases stepTo
      case h_2 =>
        cases stepTo
        exact inv_of_sameData calls rfl (UInt64.le_refl _) inv.readings
          inv.collecting inv.collected
          (fun keys member =>
            inv.removing keys (List.mem_of_mem_eraseIdx member))
      case h_3 key rest found =>
        cases stepTo
        exact inv.remove found

theorem Inv.keepsFresh (inv : calls.Inv) {action : CacheCallAction Value}
    (undisturbed : calls.Undisturbed action) : calls.KeepsFresh action := by
  cases action with
  | lookup index =>
      intro key now entry found isEntry
      have reading : now ≤ calls.clock :=
        inv.readings (key, now) (List.mem_of_getElem? found)
      have notAfter := undisturbed (key, now) found entry isEntry
      refine ⟨notAfter, fun fresh => ?_⟩
      have notExpired : ¬ isExpiredAt entry now = true :=
        fun isExpired =>
          (isExpiredAt_iff notAfter).mp isExpired (fresh.earlier reading)
      simp [CacheCalls.lookup, isEntry, notExpired]
  | visit index key =>
      intro now keys entry found isEntry
      have reading : now ≤ calls.clock :=
        inv.collecting (now, keys) (List.mem_of_getElem? found)
      have notAfter := undisturbed (now, keys) found entry isEntry
      refine ⟨notAfter, fun fresh => ?_⟩
      cases collects : calls.collects now key with
      | false => rfl
      | true =>
          obtain ⟨same, isSame, isExpired⟩ := collects_eq_true collects
          rw [isEntry] at isSame
          cases isSame
          exact absurd (fresh.earlier reading)
            ((isExpiredAt_iff notAfter).mp isExpired)
  | remove index =>
      intro key rest entry found isEntry
      exact inv.removing (key :: rest) (List.mem_of_getElem? found) key
        (List.mem_cons_self ..) entry isEntry
  | tick now => trivial
  | get key => trivial
  | set key value ttl => trivial
  | insert index => trivial
  | cleanup => trivial
  | collected index => trivial

/-- In every run without a write between an expiry test and its removal, or
between a clock reading and its test, fresh entries are kept and returned. -/
theorem keepsFresh_of_undisturbed {actions : List (CacheCallAction Value)}
    (undisturbed : Meets step Undisturbed (start : CacheCalls Entry Value)
      actions) :
    Meets step KeepsFresh (start : CacheCalls Entry Value) actions :=
  meets_of_invariant (fun _ _ _ inv meets stepTo => inv.step meets stepTo)
    (fun _ _ inv meets => inv.keepsFresh meets) inv_start undisturbed

/-- A value is read, expires, is removed, and is written again. -/
def expiryRun : List (CacheCallAction Nat) :=
  [.set "k" 1 5, .insert 0, .tick 3, .get "k", .lookup 0, .tick 6, .get "k",
    .lookup 0, .remove 0, .remove 0, .set "k" 2 5, .insert 0, .cleanup,
    .visit 0 "k", .collected 0]

theorem expiryRun_keepsFresh :
    Meets step KeepsFresh (start : CacheCalls (CacheEntry Nat) Nat)
      expiryRun :=
  keepsFresh_of_undisturbed (by decide)

/-- A `get` finds an expired entry, and a `set` writes the key again before the
`get` removes it. -/
def refreshedInBetween : List (CacheCallAction Nat) :=
  [.set "k" 1 5, .insert 0, .tick 6, .get "k", .lookup 0, .set "k" 2 5,
    .insert 0]

/-- A `get` reads the clock before a `set` does and looks up what it has
written. -/
def readBeforeWrite : List (CacheCallAction Nat) :=
  [.tick 6, .get "k", .tick 7, .set "k" 2 5, .insert 0]

theorem freshEntry_dropped :
    (∃ before, run step (start : CacheCalls (CacheEntry Nat) Nat)
          refreshedInBetween = some before ∧
        ¬ before.KeepsFresh (.remove 0)) ∧
      ∃ before after, run step (start : CacheCalls (CacheEntry Nat) Nat)
          readBeforeWrite = some before ∧
        before.step (.lookup 0) = some after ∧
        after.answers = [("k", none)] ∧ after.removers = [["k"]] ∧
        ¬ before.KeepsFresh (.lookup 0) := by
  constructor
  · refine ⟨_, rfl, fun keeps => ?_⟩
    exact keeps "k" [] ⟨2, 6, 5, 6, 0, 1⟩ rfl rfl (by decide)
  · refine ⟨_, _, rfl, rfl, rfl, rfl, fun keeps => ?_⟩
    exact absurd (keeps "k" 6 ⟨2, 7, 5, 7, 0, 0⟩ rfl rfl).1 (by decide)

end CacheCalls

end TorchInference
