import Mathlib.Data.List.Basic
import Mathlib.Data.List.Infix

/-!
# Blocks between separators

Blocks that are joined by a separator, of which some may be empty.  The filled
blocks stand with one separator between them, up to separators at the two ends,
exactly if no empty block stands between two of them.
-/

namespace SeparatedBlocks

variable {α σ : Type*} {s : σ}

def filled (blocks : List (List σ)) : List (List σ) :=
  blocks.filter fun block => !block.isEmpty

theorem ne_nil_of_mem_filled {blocks : List (List σ)} {block : List σ}
    (mem : block ∈ filled blocks) : block ≠ [] := by
  have nonempty := (List.mem_filter.mp mem).2
  simpa using nonempty

theorem eq_replicate_of_filled_eq_nil {blocks : List (List σ)}
    (none : filled blocks = []) : blocks = List.replicate blocks.length [] := by
  refine List.eq_replicate_of_mem fun block mem => ?_
  have empty := List.filter_eq_nil_iff.mp none block mem
  simpa using empty

/-! ## Joined blocks -/

theorem intercalate_cons (block : List σ) (blocks : List (List σ)) :
    [s].intercalate (block :: blocks) =
      block ++ blocks.flatMap (s :: ·) := by
  induction blocks generalizing block with
  | nil => simp
  | cons next blocks ih =>
      rw [List.intercalate_cons_cons, ih next]
      simp

theorem flatMap_replicate (count : Nat) :
    (List.replicate count []).flatMap (s :: ·) = List.replicate count s := by
  induction count with
  | zero => rfl
  | succ count ih => simp [List.replicate_succ, ih]

theorem intercalate_replicate (count : Nat) :
    [s].intercalate (List.replicate count []) = List.replicate (count - 1) s := by
  cases count with
  | zero => rfl
  | succ count =>
      rw [List.replicate_succ, intercalate_cons, flatMap_replicate]
      rfl

theorem intercalate_replicate_append (count : Nat) {blocks : List (List σ)}
    (some : blocks ≠ []) :
    [s].intercalate (List.replicate count [] ++ blocks) =
      List.replicate count s ++ [s].intercalate blocks := by
  induction count with
  | zero => rfl
  | succ count ih =>
      have more : List.replicate count [] ++ blocks ≠ [] :=
        List.append_ne_nil_of_right_ne_nil _ some
      rw [List.replicate_succ, List.cons_append,
        List.intercalate_cons_of_ne_nil more, ih]
      rfl

theorem intercalate_append_replicate (count : Nat) {blocks : List (List σ)}
    (some : blocks ≠ []) :
    [s].intercalate (blocks ++ List.replicate count []) =
      [s].intercalate blocks ++ List.replicate count s := by
  obtain ⟨block, blocks, rfl⟩ := List.exists_cons_of_ne_nil some
  rw [List.cons_append, intercalate_cons, intercalate_cons, List.flatMap_append,
    flatMap_replicate, List.append_assoc]

theorem intercalate_padded (before after : Nat) {blocks : List (List σ)}
    (some : blocks ≠ []) :
    [s].intercalate
        (List.replicate before [] ++ blocks ++ List.replicate after []) =
      List.replicate before s ++ [s].intercalate blocks ++
        List.replicate after s := by
  rw [intercalate_append_replicate after
      (List.append_ne_nil_of_right_ne_nil _ some),
    intercalate_replicate_append before some]

/-- Blocks without the separator are read back. -/
theorem intercalate_inj [DecidableEq σ] {blocks others : List (List σ)}
    (some : blocks ≠ []) (someOthers : others ≠ [])
    (free : ∀ block ∈ blocks, s ∉ block) (freeOthers : ∀ block ∈ others, s ∉ block)
    (same : [s].intercalate blocks = [s].intercalate others) :
    blocks = others := by
  rw [← List.splitOn_intercalate s free some, same,
    List.splitOn_intercalate s freeOthers someOthers]

/-! ## Filled blocks that stand together -/

/-- What a filter keeps is all that passes it when it stands together. -/
theorem filter_eq_nil_of_split {p : α → Bool} {before kept after list : List α}
    (split : before ++ kept ++ after = list) (passes : list.filter p = kept) :
    before.filter p = [] ∧ after.filter p = [] := by
  have all : kept.filter p = kept := by
    rw [← passes, List.filter_filter]
    simp
  rw [← split, List.filter_append, List.filter_append, all] at passes
  have lengths := congrArg List.length passes
  simp only [List.length_append] at lengths
  exact ⟨List.length_eq_zero_iff.mp (by omega), List.length_eq_zero_iff.mp (by omega)⟩

theorem intercalate_of_isInfix {blocks : List (List σ)}
    (together : filled blocks <:+: blocks) :
    ∃ before after, [s].intercalate blocks =
      List.replicate before s ++ [s].intercalate (filled blocks) ++
        List.replicate after s := by
  obtain ⟨before, after, split⟩ := together
  obtain ⟨front, back⟩ := filter_eq_nil_of_split split rfl
  rw [eq_replicate_of_filled_eq_nil front, eq_replicate_of_filled_eq_nil back]
    at split
  by_cases none : filled blocks = []
  · rw [none, eq_replicate_of_filled_eq_nil none, intercalate_replicate]
    exact ⟨blocks.length - 1, 0, by simp⟩
  · refine ⟨before.length, after.length, ?_⟩
    rw [← intercalate_padded _ _ none, split]

theorem isInfix_of_intercalate [DecidableEq σ] {blocks : List (List σ)}
    (some : blocks ≠ []) (free : ∀ block ∈ blocks, s ∉ block) {before after : Nat}
    (same : [s].intercalate blocks =
      List.replicate before s ++ [s].intercalate (filled blocks) ++
        List.replicate after s) :
    filled blocks <:+: blocks := by
  by_cases none : filled blocks = []
  · rw [none]
    exact List.nil_infix
  rw [← intercalate_padded _ _ none] at same
  refine ⟨List.replicate before [], List.replicate after [], ?_⟩
  refine (intercalate_inj some (by simp [none]) free ?_ same).symm
  intro block mem
  simp only [List.mem_append, List.mem_replicate] at mem
  obtain (⟨-, rfl⟩ | inFilled) | ⟨-, rfl⟩ := mem
  · exact List.not_mem_nil
  · exact free block (List.mem_filter.mp inFilled).1
  · exact List.not_mem_nil

theorem intercalate_iff_isInfix [DecidableEq σ] {blocks : List (List σ)}
    (some : blocks ≠ []) (free : ∀ block ∈ blocks, s ∉ block) :
    (∃ before after, [s].intercalate blocks =
      List.replicate before s ++ [s].intercalate (filled blocks) ++
        List.replicate after s) ↔
      filled blocks <:+: blocks :=
  ⟨fun ⟨_, _, same⟩ => isInfix_of_intercalate some free same,
    intercalate_of_isInfix⟩

/-- An empty block at the front separates nothing. -/
theorem filled_isInfix_cons_nil {blocks : List (List σ)} :
    filled blocks <:+: [] :: blocks ↔ filled blocks <:+: blocks := by
  constructor
  · intro together
    obtain front | later := List.infix_cons_iff.mp together
    · cases kept : filled blocks with
      | nil => exact List.nil_infix
      | cons block rest =>
          rw [kept] at front
          obtain ⟨rfl, -⟩ := List.cons_prefix_cons.mp front
          have mem : [] ∈ filled blocks := by
            rw [kept]
            exact List.mem_cons_self
          exact absurd rfl (ne_nil_of_mem_filled mem)
    · exact later
  · intro together
    exact List.infix_cons together

/-- The blocks of some items stand together exactly if the items do. -/
theorem filled_map_isInfix {f : α → List σ} {keep : α → Bool} {items : List α}
    (isKept : ∀ item ∈ items, keep item = !(f item).isEmpty) :
    filled (items.map f) <:+: items.map f ↔ items.filter keep <:+: items := by
  have whole : filled (items.map f) = (items.filter keep).map f := by
    rw [filled, List.filter_map]
    exact congrArg (List.map f)
      (List.filter_congr fun item mem => (isKept item mem).symm)
  rw [whole]
  constructor
  · rintro ⟨before, after, split⟩
    obtain ⟨front, rest, rfl, inFront, inBack⟩ :=
      List.map_eq_append_iff.mp split.symm
    obtain ⟨first, middle, rfl, rfl, inMiddle⟩ := List.map_eq_append_iff.mp inFront
    have passes : ∀ item ∈ middle, keep item = true := by
      intro item mem
      rw [isKept item (by simp [mem])]
      have inKept : f item ∈ filled ((first ++ middle ++ rest).map f) := by
        rw [whole, ← inMiddle]
        exact List.mem_map_of_mem mem
      simpa using ne_nil_of_mem_filled inKept
    have all : middle.filter keep = middle := List.filter_eq_self.mpr passes
    have lengths := congrArg List.length inMiddle
    simp only [List.length_map, List.filter_append, List.length_append, all]
      at lengths
    have noFirst : first.filter keep = [] :=
      List.length_eq_zero_iff.mp (by omega)
    have noRest : rest.filter keep = [] := List.length_eq_zero_iff.mp (by omega)
    refine ⟨first, rest, ?_⟩
    rw [List.filter_append, List.filter_append, noFirst, noRest, all]
    simp
  · rintro ⟨before, after, split⟩
    exact ⟨before.map f, after.map f, by rw [← List.map_append, ← List.map_append, split]⟩

end SeparatedBlocks
