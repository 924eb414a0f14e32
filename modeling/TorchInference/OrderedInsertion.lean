import Mathlib.Algebra.Ring.Nat
import Mathlib.Data.List.Basic
import Mathlib.Data.List.Nodup
import Mathlib.Data.List.Pairwise
import Mathlib.Order.Basic
import Mathlib.Order.Lattice

/-!
# Insertion into an ordered map

A map lists its entries in the order of their keys, and an insertion replaces
the value of a key that is there.  Of many insertions the last one of each key
survives.
-/

namespace OrderedInsertion

variable {Key Value : Type*} [LinearOrder Key]

def insert (key : Key) (value : Value) :
    List (Key × Value) → List (Key × Value)
  | [] => [(key, value)]
  | entry :: entries =>
      if key < entry.1 then (key, value) :: entry :: entries
      else if key = entry.1 then (key, value) :: entries
      else entry :: insert key value entries

/-- The keys are listed in ascending order, each once. -/
def Ordered (entries : List (Key × Value)) : Prop :=
  entries.Pairwise fun entry other => entry.1 < other.1

theorem mem_insert {key : Key} {value : Value} {entries : List (Key × Value)}
    (ordered : Ordered entries) (found : Key × Value) :
    found ∈ insert key value entries ↔
      found = (key, value) ∨ found.1 ≠ key ∧ found ∈ entries := by
  induction entries with
  | nil => simp [insert]
  | cons entry entries ih =>
      obtain ⟨first, later⟩ := List.pairwise_cons.mp ordered
      unfold insert
      split_ifs with before same
      · have others : ∀ other ∈ entry :: entries, other.1 ≠ key := by
          intro other mem
          rcases List.mem_cons.mp mem with rfl | mem
          · exact before.ne'
          · exact (before.trans (first other mem)).ne'
        rw [List.mem_cons]
        exact or_congr_right
          ⟨fun mem => ⟨others found mem, mem⟩, And.right⟩
      · have others : ∀ other ∈ entries, other.1 ≠ key := by
          intro other mem
          rw [same]
          exact (first other mem).ne'
        rw [List.mem_cons, List.mem_cons]
        refine or_congr_right ⟨fun mem => ⟨others found mem, Or.inr mem⟩, ?_⟩
        rintro ⟨other, rfl | mem⟩
        · exact absurd same.symm other
        · exact mem
      · rw [List.mem_cons, ih later, List.mem_cons]
        constructor
        · rintro (rfl | rfl | ⟨other, mem⟩)
          · exact Or.inr ⟨Ne.symm same, Or.inl rfl⟩
          · exact Or.inl rfl
          · exact Or.inr ⟨other, Or.inr mem⟩
        · rintro (rfl | ⟨other, rfl | mem⟩)
          · exact Or.inr (Or.inl rfl)
          · exact Or.inl rfl
          · exact Or.inr (Or.inr ⟨other, mem⟩)

theorem Ordered.insert {key : Key} {value : Value}
    {entries : List (Key × Value)} (ordered : Ordered entries) :
    Ordered (insert key value entries) := by
  induction entries with
  | nil => exact List.pairwise_singleton _ _
  | cons entry entries ih =>
      obtain ⟨first, later⟩ := List.pairwise_cons.mp ordered
      unfold OrderedInsertion.insert
      split_ifs with before same
      · refine List.pairwise_cons.mpr ⟨fun other mem => ?_, ordered⟩
        rcases List.mem_cons.mp mem with rfl | mem
        · exact before
        · exact before.trans (first other mem)
      · refine List.pairwise_cons.mpr ⟨fun other mem => ?_, later⟩
        rw [same]
        exact first other mem
      · refine List.pairwise_cons.mpr ⟨fun other mem => ?_, ih later⟩
        rcases (mem_insert later other).mp mem with rfl | ⟨-, mem⟩
        · exact lt_of_le_of_ne (not_lt.mp before) (Ne.symm same)
        · exact first other mem

/-- An inserted value is found under its key. -/
theorem lookup_insert_self [BEq Key] [LawfulBEq Key] (key : Key)
    (value : Value) (entries : List (Key × Value)) :
    (insert key value entries).lookup key = some value := by
  induction entries with
  | nil => exact List.lookup_cons_self
  | cons entry entries ih =>
      unfold insert
      split_ifs with before same
      · exact List.lookup_cons_self
      · exact List.lookup_cons_self
      · rw [List.lookup_cons, beq_eq_false_iff_ne.mpr same]
        exact ih

/-- Insert some entries one after another. -/
def insertAll : List (Key × Value) → List (Key × Value) → List (Key × Value)
  | [], map => map
  | entry :: entries, map => insertAll entries (insert entry.1 entry.2 map)

theorem insertAll_append (entries more map : List (Key × Value)) :
    insertAll (entries ++ more) map = insertAll more (insertAll entries map) := by
  induction entries generalizing map with
  | nil => rfl
  | cons entry entries ih => exact ih _

/-- The entries whose keys do not come again. -/
def survivors : List (Key × Value) → List (Key × Value)
  | [] => []
  | entry :: entries =>
      if entry.1 ∈ entries.map Prod.fst then survivors entries
      else entry :: survivors entries

theorem mem_insertAll {entries map : List (Key × Value)} (ordered : Ordered map)
    (found : Key × Value) :
    found ∈ insertAll entries map ↔
      found ∈ survivors entries ∨
        found.1 ∉ entries.map Prod.fst ∧ found ∈ map := by
  induction entries generalizing map with
  | nil => simp [insertAll, survivors]
  | cons entry entries ih =>
      rw [insertAll, ih ordered.insert, mem_insert ordered, survivors,
        List.map_cons, List.mem_cons, not_or]
      split_ifs with again
      · constructor
        · rintro (survives | ⟨fresh, rfl | ⟨other, mem⟩⟩)
          · exact Or.inl survives
          · exact absurd again fresh
          · exact Or.inr ⟨⟨other, fresh⟩, mem⟩
        · rintro (survives | ⟨⟨other, fresh⟩, mem⟩)
          · exact Or.inl survives
          · exact Or.inr ⟨fresh, Or.inr ⟨other, mem⟩⟩
      · rw [List.mem_cons]
        constructor
        · rintro (survives | ⟨fresh, rfl | ⟨other, mem⟩⟩)
          · exact Or.inl (Or.inr survives)
          · exact Or.inl (Or.inl rfl)
          · exact Or.inr ⟨⟨other, fresh⟩, mem⟩
        · rintro ((rfl | survives) | ⟨⟨other, fresh⟩, mem⟩)
          · exact Or.inr ⟨again, Or.inl rfl⟩
          · exact Or.inl survives
          · exact Or.inr ⟨fresh, Or.inr ⟨other, mem⟩⟩

/-- A map made by insertions has the surviving entries. -/
theorem mem_insertAll_nil {entries : List (Key × Value)}
    (found : Key × Value) :
    found ∈ insertAll entries [] ↔ found ∈ survivors entries := by
  rw [mem_insertAll List.Pairwise.nil]
  simp

/-- An entry matters unless its key comes again. -/
theorem forall_survivors_cons {entry : Key × Value}
    {entries : List (Key × Value)} {holds : Key × Value → Prop} :
    (∀ found ∈ survivors (entry :: entries), holds found) ↔
      (entry.1 ∈ entries.map Prod.fst ∨ holds entry) ∧
        ∀ found ∈ survivors entries, holds found := by
  rw [survivors]
  split_ifs with again
  · exact ⟨fun later => ⟨Or.inl again, later⟩, And.right⟩
  · rw [List.forall_mem_cons, or_iff_right again]

theorem ordered_insertAll {entries map : List (Key × Value)}
    (ordered : Ordered map) : Ordered (insertAll entries map) := by
  induction entries generalizing map with
  | nil => exact ordered
  | cons entry entries ih => exact ih ordered.insert

/-- In an ordered map no key is listed twice. -/
theorem Ordered.nodup_keys {entries : List (Key × Value)}
    (ordered : Ordered entries) : (entries.map Prod.fst).Nodup :=
  List.pairwise_map.mpr (ordered.imp ne_of_lt)

/-- The last entry of an ordered map has the greatest key. -/
theorem Ordered.getLast?_eq_some_iff {entries : List (Key × Value)}
    (ordered : Ordered entries) {entry : Key × Value} :
    entries.getLast? = some entry ↔
      entry ∈ entries ∧ ∀ other ∈ entries, other.1 ≤ entry.1 := by
  rcases List.eq_nil_or_concat' entries with rfl | ⟨front, last, rfl⟩
  · simp
  · rw [List.getLast?_concat, Option.some.injEq]
    obtain ⟨-, -, before⟩ := List.pairwise_append.mp ordered
    have above : ∀ other ∈ front, other.1 < last.1 := fun other mem =>
      before other mem last (List.mem_singleton.mpr rfl)
    constructor
    · rintro rfl
      refine ⟨by simp, List.forall_mem_append.mpr ⟨fun other mem =>
        (above other mem).le, List.forall_mem_singleton.mpr le_rfl⟩⟩
    · rintro ⟨mem, atMost⟩
      rcases List.mem_append.mp mem with early | isLast
      · have below := atMost last (by simp)
        exact absurd (above entry early) below.not_gt
      · exact (List.mem_singleton.mp isLast).symm

theorem survivors_sublist (entries : List (Key × Value)) :
    (survivors entries).Sublist entries := by
  induction entries with
  | nil => exact .slnil
  | cons entry entries ih =>
      rw [survivors]
      split_ifs
      · exact ih.cons entry
      · exact ih.cons_cons entry

theorem nodup_keys_survivors (entries : List (Key × Value)) :
    ((survivors entries).map Prod.fst).Nodup := by
  induction entries with
  | nil => exact List.nodup_nil
  | cons entry entries ih =>
      rw [survivors]
      split_ifs with again
      · exact ih
      · rw [List.map_cons, List.nodup_cons]
        have fewer := (survivors_sublist entries).map Prod.fst
        exact ⟨fun mem => again (fewer.subset mem), ih⟩

theorem survivors_eq_self {entries : List (Key × Value)}
    (distinct : (entries.map Prod.fst).Nodup) : survivors entries = entries := by
  induction entries with
  | nil => rfl
  | cons entry entries ih =>
      obtain ⟨fresh, rest⟩ := List.nodup_cons.mp distinct
      rw [survivors, if_neg fresh, ih rest]

theorem insertAll_perm_survivors (entries : List (Key × Value)) :
    (insertAll entries []).Perm (survivors entries) := by
  have ordered : Ordered (insertAll entries []) :=
    ordered_insertAll List.Pairwise.nil
  have listed := List.Nodup.of_map Prod.fst ordered.nodup_keys
  have survive := List.Nodup.of_map Prod.fst (nodup_keys_survivors entries)
  exact (List.perm_ext_iff_of_nodup listed survive).mpr mem_insertAll_nil

/-- The entries whose keys come again. -/
def replaced : List (Key × Value) → List (Key × Value)
  | [] => []
  | entry :: entries =>
      if entry.1 ∈ entries.map Prod.fst then entry :: replaced entries
      else replaced entries

/-- Insertions of different keys keep all entries. -/
theorem insertAll_perm {entries : List (Key × Value)}
    (distinct : (entries.map Prod.fst).Nodup) :
    (insertAll entries []).Perm entries := by
  have perm := insertAll_perm_survivors entries
  rwa [survivors_eq_self distinct] at perm

/-- Insertions make as many entries as they are only if the keys differ. -/
theorem length_insertAll_eq_iff {entries : List (Key × Value)} :
    (insertAll entries []).length = entries.length ↔
      (entries.map Prod.fst).Nodup := by
  constructor
  · intro same
    have all : survivors entries = entries :=
      (survivors_sublist entries).eq_of_length
        ((insertAll_perm_survivors entries).length_eq.symm.trans same)
    rw [← all]
    exact nodup_keys_survivors entries
  · exact fun distinct => (insertAll_perm distinct).length_eq

end OrderedInsertion
