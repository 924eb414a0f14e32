import Mathlib.Algebra.GroupWithZero.Nat
import Mathlib.Data.List.Basic

/-!
# Charges to fixed windows

Every charge is made at some time and belongs to a window that starts no later
than it and is not over.  When the starts of different windows are further
apart than a window is long, an interval of that length meets two windows at
most.
-/

namespace FixedWindows

structure Charge where
  now : Nat
  start : Nat
  deriving DecidableEq

variable {width cap : Nat} {charges : List Charge}

/-- Every charge belongs to one window of the given width, and different
windows do not overlap. -/
structure InWindows (width : Nat) (charges : List Charge) : Prop where
  started : ∀ charge ∈ charges, charge.start ≤ charge.now
  recent : ∀ charge ∈ charges, charge.now ≤ charge.start + width
  apart : ∀ charge ∈ charges, ∀ other ∈ charges,
    charge.start = other.start ∨ charge.start + width < other.start ∨
      other.start + width < charge.start

/-- The charges to the window that starts at some time. -/
def chargesTo (charges : List Charge) (start : Nat) : Nat :=
  charges.countP fun charge => charge.start == start

/-- The charges made in an interval. -/
def chargesIn (charges : List Charge) (first last : Nat) : Nat :=
  charges.countP fun charge => first ≤ charge.now && charge.now ≤ last

theorem countP_le_of_same_start {p : Charge → Bool}
    (capped : ∀ start, chargesTo charges start ≤ cap)
    (same : ∀ charge ∈ charges, p charge = true → ∀ other ∈ charges,
      p other = true → charge.start = other.start) :
    charges.countP p ≤ cap := by
  by_cases empty : ∃ charge ∈ charges, p charge = true
  · obtain ⟨charge, member, holds⟩ := empty
    calc
      charges.countP p ≤ chargesTo charges charge.start := by
        apply List.countP_mono_left
        intro other otherMember otherHolds
        exact beq_iff_eq.mpr
          (same other otherMember otherHolds charge member holds)
      _ ≤ cap := capped charge.start
  · have none : charges.countP p = 0 := by
      rw [List.countP_eq_zero]
      intro charge member holds
      exact empty ⟨charge, member, holds⟩
    rw [none]
    exact Nat.zero_le cap

/-- An interval as long as a window meets the charges of two windows. -/
theorem chargesIn_le (inWindows : InWindows width charges)
    (capped : ∀ start, chargesTo charges start ≤ cap) (first : Nat) :
    chargesIn charges first (first + width) ≤ 2 * cap := by
  let inside (charge : Charge) : Bool :=
    first ≤ charge.now && charge.now ≤ first + width
  have early : charges.countP
      (fun charge => inside charge && charge.start < first) ≤ cap := by
    apply countP_le_of_same_start capped
    intro charge member holds other otherMember otherHolds
    have recent := inWindows.recent charge member
    have otherRecent := inWindows.recent other otherMember
    simp only [inside, Bool.and_eq_true, decide_eq_true_eq] at holds otherHolds
    rcases inWindows.apart charge member other otherMember with
      same | before | after
    · exact same
    · omega
    · omega
  have late : charges.countP
      (fun charge => inside charge && !(decide (charge.start < first))) ≤
        cap := by
    apply countP_le_of_same_start capped
    intro charge member holds other otherMember otherHolds
    have started := inWindows.started charge member
    have otherStarted := inWindows.started other otherMember
    simp only [inside, Bool.and_eq_true, Bool.not_eq_true', decide_eq_true_eq,
      decide_eq_false_iff_not] at holds otherHolds
    rcases inWindows.apart charge member other otherMember with
      same | before | after
    · exact same
    · omega
    · omega
  have split : chargesIn charges first (first + width) =
      charges.countP (fun charge => inside charge && charge.start < first) +
        charges.countP (fun charge =>
          inside charge && !(decide (charge.start < first))) := by
    rw [chargesIn, List.countP_eq_countP_filter_add charges _
      (fun charge => decide (charge.start < first)), List.countP_filter,
      List.countP_filter]
  omega

/-- A charge to the latest window, or to a new one that starts after it. -/
theorem InWindows.append (inWindows : InWindows width charges)
    {charge : Charge} (started : charge.start ≤ charge.now)
    (recent : charge.now ≤ charge.start + width)
    (apart : ∀ other ∈ charges, other.start = charge.start ∨
      other.start + width < charge.start) :
    InWindows width (charges ++ [charge]) := by
  have members : ∀ other ∈ charges ++ [charge],
      other ∈ charges ∨ other = charge := by
    intro other member
    simpa using member
  constructor
  · intro other member
    rcases members other member with before | rfl
    · exact inWindows.started other before
    · exact started
  · intro other member
    rcases members other member with before | rfl
    · exact inWindows.recent other before
    · exact recent
  · intro first firstMember second secondMember
    rcases members first firstMember with before | rfl
    · rcases members second secondMember with alsoBefore | rfl
      · exact inWindows.apart first before second alsoBefore
      · rcases apart first before with same | earlier
        · exact Or.inl same
        · exact Or.inr (Or.inl earlier)
    · rcases members second secondMember with before | rfl
      · rcases apart second before with same | earlier
        · exact Or.inl same.symm
        · exact Or.inr (Or.inr earlier)
      · exact Or.inl rfl

end FixedWindows
