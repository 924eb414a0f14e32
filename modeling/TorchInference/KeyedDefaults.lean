import Mathlib.Algebra.BigOperators.Group.List.Basic
import Mathlib.Data.List.AList

/-!
# Documents over defaults

The keys of a record come in groups.  A document gives some keys of some of
the groups; a key it leaves out takes one default when its group is there and
another when the whole group is missing, or none at all.  Reading a document
over such defaults is to be compared with overriding one record by it.
-/

namespace KeyedDefaults

variable {Group : Type*} {Key : Group → Type*}
  {Value : ∀ group, Key group → Type*}

abbrev Record (Value : ∀ group, Key group → Type*) :=
  ∀ group key, Value group key

abbrev Document (Value : ∀ group, Key group → Type*) :=
  ∀ group, Option (∀ key, Option (Value group key))

/-- What a document says about a key. -/
def given (document : Document Value) (group : Group) (key : Key group) :
    Option (Value group key) :=
  (document group).bind fun table => table key

/-- A record with the keys of a document replaced. -/
def override (base : Record Value) (document : Document Value) :
    Record Value :=
  fun group key => (given document group key).getD (base group key)

theorem override_of_given {base : Record Value} {document : Document Value}
    {group : Group} {key : Key group} {value : Value group key}
    (isGiven : given document group key = some value) :
    override base document group key = value := by
  rw [override, isGiven, Option.getD_some]

theorem override_of_not_given {base : Record Value}
    {document : Document Value} {group : Group} {key : Key group}
    (leftOut : given document group key = none) :
    override base document group key = base group key := by
  rw [override, leftOut, Option.getD_none]

/-- A document overrides two records alike when they agree on every key it
leaves out. -/
theorem override_eq_iff {base other : Record Value}
    {document : Document Value} :
    override base document = override other document ↔
      ∀ group key, given document group key = none →
        base group key = other group key := by
  constructor
  · intro same group key leftOut
    have equal := congrFun (congrFun same group) key
    rwa [override_of_not_given leftOut, override_of_not_given leftOut]
      at equal
  · intro agree
    funext group key
    cases isGiven : given document group key with
    | some value => rw [override_of_given isGiven, override_of_given isGiven]
    | none =>
        rw [override_of_not_given isGiven, override_of_not_given isGiven]
        exact agree group key isGiven

/-- The defaults of a reader. -/
structure Defaults (Value : ∀ group, Key group → Type*) where
  /-- The values of a group that is missing. -/
  absent : Record Value
  /-- The value of a key that is missing from its group. -/
  missing : ∀ group key, Option (Value group key)
  /-- The keys without such a value, in the order they are looked for. -/
  required : List (Sigma Key)
  mem_required : ∀ group key, missing group key = none →
    ⟨group, key⟩ ∈ required

namespace Defaults

variable (defaults : Defaults Value) (document : Document Value)

/-- What a reader finds for a key. -/
def entry (group : Group) (key : Key group) : Option (Value group key) :=
  match document group with
  | none => some (defaults.absent group key)
  | some table => (table key).or (defaults.missing group key)

/-- The first required key that the document leaves out of a group it has. -/
def missingKey : Option (Sigma Key) :=
  defaults.required.find? fun key =>
    (defaults.entry document key.1 key.2).isNone

theorem isSome_entry (complete : defaults.missingKey document = none)
    (group : Group) (key : Key group) :
    (defaults.entry document group key).isSome = true := by
  by_contra isMissing
  have noEntry : defaults.entry document group key = none := by
    simpa using isMissing
  have noDefault : defaults.missing group key = none := by
    unfold entry at noEntry
    split at noEntry
    · cases noEntry
    · exact (Option.or_eq_none_iff.mp noEntry).2
  have found := List.find?_eq_none.mp complete ⟨group, key⟩
    (defaults.mem_required group key noDefault)
  rw [noEntry] at found
  exact found rfl

/-- The record a document is read as, or the key whose value is missing. -/
def read : Except (Sigma Key) (Record Value) :=
  match complete : defaults.missingKey document with
  | some key => .error key
  | none => .ok fun group key =>
      (defaults.entry document group key).get
        (defaults.isSome_entry document complete group key)

variable {defaults document}

/-- A document is read as a record exactly when that has every entry. -/
theorem read_eq_ok {record : Record Value} :
    defaults.read document = .ok record ↔
      ∀ group key,
        defaults.entry document group key = some (record group key) := by
  unfold read
  split
  case h_1 key isMissing =>
    refine iff_of_false (by simp) fun entries => ?_
    have noEntry := List.find?_some isMissing
    rw [entries key.1 key.2] at noEntry
    cases noEntry
  case h_2 complete =>
    rw [Except.ok.injEq]
    constructor
    · rintro rfl group key
      rw [Option.some_get]
    · intro entries
      funext group key
      simp only [entries group key, Option.get_some]

/-- When the two kinds of defaults are the same, reading overrides the record
of them. -/
theorem entry_eq_override {group : Group} {key : Key group}
    (same : defaults.missing group key = some (defaults.absent group key)) :
    defaults.entry document group key =
      some (override defaults.absent document group key) := by
  unfold entry
  cases present : document group with
  | none => simp [override, given, present]
  | some table =>
      cases found : table key with
      | none => simp [override, given, present, found, same]
      | some value => simp [override, given, present, found]

end Defaults

end KeyedDefaults

/-!
# Totals over a table

What the entries of a finite table amount to together.  The total of a table
with one entry replaced differs from the old one by that entry alone.
-/

namespace KeyedTotals

variable {Key Value Amount : Type*} [DecidableEq Key] [AddCommMonoid Amount]
  (amount : Value → Amount)

def total (table : AList fun _ : Key => Value) : Amount :=
  (table.entries.map fun entry => amount entry.2).sum

theorem total_insert (table : AList fun _ : Key => Value) (key : Key)
    (value : Value) :
    total amount (table.insert key value) =
      amount value + total amount (table.erase key) := by
  rw [total, AList.entries_insert, List.map_cons, List.sum_cons]
  rfl

/-- The entry of a key and the other entries. -/
theorem total_eq_of_lookup {table : AList fun _ : Key => Value} {key : Key}
    {value : Value} (found : table.lookup key = some value) :
    total amount table = amount value + total amount (table.erase key) := by
  have present : key ∈ table.entries.keys :=
    AList.mem_keys.mp (AList.lookup_isSome.mp (by rw [found]; rfl))
  obtain ⟨stored, front, back, notBefore, entries, erased⟩ :=
    List.exists_of_kerase present
  have same : stored = value := by
    have isStored : table.lookup key = some stored := by
      refine AList.mem_lookup_iff.mpr ?_
      rw [entries]
      exact List.mem_append_right front List.mem_cons_self
    exact Option.some.inj (isStored.symm.trans found)
  subst same
  change (table.entries.map _).sum =
    amount stored + ((List.kerase key table.entries).map _).sum
  rw [erased, entries]
  simp only [List.map_append, List.map_cons, List.sum_append, List.sum_cons]
  exact add_left_comm _ _ _

theorem total_eq_of_not_found {table : AList fun _ : Key => Value} {key : Key}
    (missing : table.lookup key = none) :
    total amount (table.erase key) = total amount table := by
  have absent : key ∉ table.entries.keys := fun present =>
    AList.lookup_eq_none.mp missing (AList.mem_keys.mpr present)
  change ((List.kerase key table.entries).map _).sum = _
  rw [List.kerase_of_notMem_keys absent]
  rfl

end KeyedTotals
