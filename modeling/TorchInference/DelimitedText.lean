import Mathlib.Data.List.Basic

/-!
# Texts with a separator

A text is cut after each of its separators.  What comes before the last one is
final; the rest waits for more text.
-/

namespace DelimitedText

variable {σ : Type*} [DecidableEq σ]

/-- The pieces of a text that a separator ends, and what is behind the last
separator. -/
def cutAt (separator : σ) : List σ → List (List σ) × List σ
  | [] => ([], [])
  | symbol :: text =>
      if symbol = separator then
        ([] :: (cutAt separator text).1, (cutAt separator text).2)
      else
        match (cutAt separator text).1 with
        | [] => ([], symbol :: (cutAt separator text).2)
        | piece :: pieces =>
            ((symbol :: piece) :: pieces, (cutAt separator text).2)

variable {separator : σ}

theorem cutAt_separator (text : List σ) :
    cutAt separator (separator :: text) =
      ([] :: (cutAt separator text).1, (cutAt separator text).2) := by
  rw [cutAt, if_pos rfl]

theorem cutAt_cons_of_nil {symbol : σ} {text : List σ}
    (other : symbol ≠ separator) (none : (cutAt separator text).1 = []) :
    cutAt separator (symbol :: text) =
      ([], symbol :: (cutAt separator text).2) := by
  rw [cutAt, if_neg other, none]

theorem cutAt_cons_of_cons {symbol : σ} {text piece : List σ}
    {pieces : List (List σ)} (other : symbol ≠ separator)
    (some : (cutAt separator text).1 = piece :: pieces) :
    cutAt separator (symbol :: text) =
      ((symbol :: piece) :: pieces, (cutAt separator text).2) := by
  rw [cutAt, if_neg other, some]

/-- A text is cut in the same way when it comes in two parts: what is left of
the first is cut with the second. -/
theorem cutAt_append (front back : List σ) :
    cutAt separator (front ++ back) =
      ((cutAt separator front).1 ++
          (cutAt separator ((cutAt separator front).2 ++ back)).1,
        (cutAt separator ((cutAt separator front).2 ++ back)).2) := by
  induction front with
  | nil => rfl
  | cons symbol front ih =>
      rw [List.cons_append]
      by_cases same : symbol = separator
      · subst same
        rw [cutAt_separator, cutAt_separator, ih]
        rfl
      cases begins : (cutAt separator front).1 with
      | nil =>
          rw [cutAt_cons_of_nil same begins, List.nil_append,
            List.cons_append]
          rw [begins, List.nil_append] at ih
          cases later : (cutAt separator
              ((cutAt separator front).2 ++ back)).1 with
          | nil =>
              rw [cutAt_cons_of_nil same later, cutAt_cons_of_nil same
                ((congrArg Prod.fst ih).trans later), ih]
          | cons piece pieces =>
              rw [cutAt_cons_of_cons same later, cutAt_cons_of_cons same
                ((congrArg Prod.fst ih).trans later), ih]
      | cons piece pieces =>
          rw [cutAt_cons_of_cons same begins]
          rw [begins, List.cons_append] at ih
          rw [cutAt_cons_of_cons same (congrArg Prod.fst ih), ih]
          rfl

/-- Nothing ends in what is left. -/
theorem cutAt_rest (text : List σ) :
    cutAt separator (cutAt separator text).2 =
      ([], (cutAt separator text).2) := by
  induction text with
  | nil => rfl
  | cons symbol text ih =>
      by_cases same : symbol = separator
      · subst same
        rw [cutAt_separator]
        exact ih
      cases begins : (cutAt separator text).1 with
      | nil =>
          rw [cutAt_cons_of_nil same begins,
            cutAt_cons_of_nil same (congrArg Prod.fst ih), ih]
      | cons piece pieces =>
          rw [cutAt_cons_of_cons same begins]
          exact ih

/-- A piece ends at its separator. -/
theorem cutAt_piece {piece : List σ} (free : separator ∉ piece)
    (text : List σ) :
    cutAt separator (piece ++ separator :: text) =
      (piece :: (cutAt separator text).1, (cutAt separator text).2) := by
  induction piece with
  | nil => exact cutAt_separator text
  | cons symbol piece ih =>
      have other : symbol ≠ separator := fun same =>
        free (same ▸ List.mem_cons_self)
      have later := ih fun mem => free (List.mem_cons_of_mem symbol mem)
      rw [List.cons_append,
        cutAt_cons_of_cons other (congrArg Prod.fst later), later]

/-- A text shows where its first piece ends. -/
theorem append_separator_inj {first second rest otherRest : List σ}
    (firstFree : separator ∉ first) (secondFree : separator ∉ second)
    (same : first ++ separator :: rest = second ++ separator :: otherRest) :
    first = second ∧ rest = otherRest := by
  have cut := congrArg (fun text => (cutAt separator text).1.head?) same
  simp only [cutAt_piece firstFree, cutAt_piece secondFree,
    List.head?_cons, Option.some.injEq] at cut
  subst cut
  have behind := List.append_cancel_left same
  exact ⟨rfl, List.tail_eq_of_cons_eq behind⟩

theorem count_pieces (first second third : List σ) :
    (first ++ separator :: (second ++ separator :: third)).count separator =
      first.count separator + second.count separator +
        third.count separator + 2 := by
  simp only [List.count_append, List.count_cons_self]
  omega

/-- Three pieces without the separator, joined by it, are read back whatever
pieces the text is taken for. -/
theorem pieces_inj {first second third otherFirst otherSecond otherThird : List σ}
    (firstFree : separator ∉ first) (secondFree : separator ∉ second)
    (thirdFree : separator ∉ third)
    (same : otherFirst ++ separator :: (otherSecond ++ separator :: otherThird) =
      first ++ separator :: (second ++ separator :: third)) :
    otherFirst = first ∧ otherSecond = second ∧ otherThird = third := by
  have counts := congrArg (List.count separator) same
  rw [count_pieces, count_pieces, List.count_eq_zero.mpr firstFree,
    List.count_eq_zero.mpr secondFree, List.count_eq_zero.mpr thirdFree]
    at counts
  have freeFirst : separator ∉ otherFirst :=
    List.count_eq_zero.mp (by omega)
  have freeSecond : separator ∉ otherSecond :=
    List.count_eq_zero.mp (by omega)
  obtain ⟨sameFirst, rest⟩ := append_separator_inj freeFirst firstFree same
  exact ⟨sameFirst, append_separator_inj freeSecond secondFree rest⟩

end DelimitedText
