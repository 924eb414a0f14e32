import Mathlib.Data.List.Basic
import Mathlib.Data.List.DropRight
import Mathlib.Tactic.SplitIfs

/-!
# Pieces that cover a list

A list is cut into pieces, in their order, so that what lies before, between
and after them consists of separators only.
-/

namespace PieceCover

variable {Item : Type*} {separator : Item → Bool}

/-- The pieces follow one another in the list, and only separators lie beside
them. -/
inductive Covers (separator : Item → Bool) : List (List Item) → List Item → Prop
  | none {gap : List Item} (apart : ∀ item ∈ gap, separator item = true) :
      Covers separator [] gap
  | piece {gap rest : List Item} {pieces : List (List Item)}
      (apart : ∀ item ∈ gap, separator item = true) (first : List Item)
      (later : Covers separator pieces rest) :
      Covers separator (first :: pieces) (gap ++ first ++ rest)

namespace Covers

/-- Separators may be put in front. -/
theorem prepend {pieces : List (List Item)} {text gap : List Item}
    (covers : Covers separator pieces text)
    (apart : ∀ item ∈ gap, separator item = true) :
    Covers separator pieces (gap ++ text) := by
  cases covers with
  | none others =>
      refine .none fun item mem => ?_
      rcases List.mem_append.mp mem with mem | mem
      · exact apart item mem
      · exact others item mem
  | @piece between rest pieces others first later =>
      rw [← List.append_assoc, ← List.append_assoc]
      refine .piece (fun item mem => ?_) first later
      rcases List.mem_append.mp mem with mem | mem
      · exact apart item mem
      · exact others item mem

theorem append {pieces others : List (List Item)} {text rest : List Item}
    (covers : Covers separator pieces text)
    (coversRest : Covers separator others rest) :
    Covers separator (pieces ++ others) (text ++ rest) := by
  induction covers with
  | none apart => exact coversRest.prepend apart
  | piece apart first _ ih =>
      rw [List.append_assoc]
      exact .piece apart first ih

/-- One piece, with separators on both of its sides. -/
theorem single {before after : List Item} (piece : List Item)
    (beforeApart : ∀ item ∈ before, separator item = true)
    (afterApart : ∀ item ∈ after, separator item = true) :
    Covers separator [piece] (before ++ piece ++ after) :=
  .piece beforeApart piece (.none afterApart)

/-- What is not a separator is in the pieces, in the same order. -/
theorem filter_flatten {pieces : List (List Item)} {text : List Item}
    (covers : Covers separator pieces text) :
    pieces.flatten.filter (fun item => !separator item) =
      text.filter fun item => !separator item := by
  have nothing : ∀ gap : List Item, (∀ item ∈ gap, separator item = true) →
      (gap.filter fun item => !separator item) = [] := by
    intro gap apart
    rw [List.filter_eq_nil_iff]
    intro item mem
    simp [apart item mem]
  induction covers with
  | none apart => rw [nothing _ apart, List.flatten_nil, List.filter_nil]
  | piece apart first _ ih =>
      rw [List.flatten_cons, List.filter_append, List.filter_append,
        List.filter_append, nothing _ apart, ih, List.nil_append]

end Covers

/-! ## Stripping separators -/

/-- A piece that has something in it and neither begins nor ends with a
separator. -/
structure Stripped (separator : Item → Bool) (piece : List Item) : Prop where
  nonempty : piece ≠ []
  first : ∀ item, piece.head? = some item → separator item = false
  last : ∀ item, piece.getLast? = some item → separator item = false

variable (separator)

/-- A list without the separators at its ends. -/
def strip (text : List Item) : List Item :=
  (text.dropWhile separator).rdropWhile separator

theorem append_strip_append (text : List Item) :
    ∃ before after, (∀ item ∈ before, separator item = true) ∧
      (∀ item ∈ after, separator item = true) ∧
      text = before ++ strip separator text ++ after := by
  refine ⟨text.takeWhile separator,
    (text.dropWhile separator).rtakeWhile separator, ?_, ?_, ?_⟩
  · exact fun item mem => List.mem_takeWhile_imp mem
  · exact fun item mem => List.mem_rtakeWhile_imp mem
  · rw [strip, List.append_assoc, List.rdropWhile_append_rtakeWhile,
      List.takeWhile_append_dropWhile]

theorem stripped_strip {text : List Item} (nonempty : strip separator text ≠ []) :
    Stripped separator (strip separator text) where
  nonempty := nonempty
  first := by
    intro item isFirst
    obtain ⟨after, start⟩ := List.rdropWhile_prefix separator
      (text.dropWhile separator)
    have head : (text.dropWhile separator).head? = some item := by
      rw [← start, List.head?_append]
      exact Option.or_eq_some_iff.mpr (Or.inl isFirst)
    have notSeparator := List.head?_dropWhile_not separator text
    rw [head] at notSeparator
    exact notSeparator
  last := by
    intro item isLast
    have notSeparator :
        ¬separator ((strip separator text).getLast nonempty) = true :=
      List.rdropWhile_last_not separator (text.dropWhile separator) nonempty
    rw [List.getLast?_eq_some_getLast nonempty] at isLast
    rw [Option.some.inj isLast] at notSeparator
    exact Bool.eq_false_iff.mpr notSeparator

/-- A stripped list is a piece, unless nothing is left of it. -/
theorem covers_strip (text : List Item) :
    Covers separator
      (if strip separator text = [] then [] else [strip separator text])
      text := by
  obtain ⟨before, after, beforeApart, afterApart, split⟩ :=
    append_strip_append separator text
  have whole := Covers.single (strip separator text) beforeApart afterApart
  split_ifs with nothing
  · rw [nothing, List.append_nil] at split
    rw [split]
    refine .none fun item mem => ?_
    rcases List.mem_append.mp mem with mem | mem
    · exact beforeApart item mem
    · exact afterApart item mem
  · rwa [← split] at whole

end PieceCover
