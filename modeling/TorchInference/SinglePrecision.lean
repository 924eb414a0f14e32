import Mathlib

/-!
# Numbers of single precision

A difference to zero is exact.  Numbers compare like their ranks, so that the
comparison is a linear preorder on all but `NaN`.
-/

namespace SinglePrecision

open Float.Model (Format UnpackedFloat)
open Float.Model.UnpackedFloat

/-! ## Differences to zero -/

theorem sub_positive_zero (spec : Format) (x : UnpackedFloat) :
    sub spec x (.zero .positive) = x := by
  cases x with
  | infinity sign => rfl
  | notANumber => rfl
  | zero sign => cases sign <;> rfl
  | finite sign m e positive => rfl

/-- A difference to zero is exact, and keeps the sign of a zero. -/
theorem sub_zero (x : Float32) {zero : Float32}
    (isZero : zero.toModel.unpack = .zero .positive) : x - zero = x := by
  have packed : (x - zero).toBits.toBitVec =
      pack .binary32 (sub .binary32 x.toModel.unpack zero.toModel.unpack) := rfl
  rw [isZero, sub_positive_zero] at packed
  exact Float32.toBits_inj.mp (UInt32.toBitVec_inj.mp
    (packed.trans (pack_unpack_of_valid x.toModel.valid)))

/-! ## Comparing -/

/-- Where a number stands among the others. -/
def rank : UnpackedFloat → ℤ ×ₗ ℤ ×ₗ ℤ
  | .infinity .negative => toLex (-2, toLex (0, 0))
  | .finite .negative m e _ => toLex (-1, toLex (-e, -(m : ℤ)))
  | .zero _ => toLex (0, toLex (0, 0))
  | .finite .positive m e _ => toLex (1, toLex (e, (m : ℤ)))
  | .infinity .positive => toLex (2, toLex (0, 0))
  | .notANumber => toLex (0, toLex (0, 0))

theorem compare_neg (x y : ℤ) : compare (-x) (-y) = (compare x y).swap := by
  simp only [compare, compareOfLessAndEq]
  split_ifs <;> first | rfl | omega

/-- Numbers compare like their ranks. -/
theorem compare_eq_rank {x y : UnpackedFloat} (xNumber : x.isNaN = false)
    (yNumber : y.isNaN = false) :
    x.compare y = some (compare (rank x) (rank y)) := by
  have tuple (a b c a' b' c' : ℤ) :
      compare (toLex (a, toLex (b, c))) (toLex (a', toLex (b', c'))) =
        (compare a a').then ((compare b b').then (compare c c')) := rfl
  have same (a : ℤ) : compare a a = .eq := compare_eq_iff_eq.mpr rfl
  have cast (m n : ℕ) : compare (m : ℤ) (n : ℤ) = compare m n := by
    simp only [compare, compareOfLessAndEq, Int.ofNat_lt, Int.natCast_inj]
  cases x with
  | notANumber => cases xNumber
  | infinity sign =>
      cases y with
      | notANumber => cases yNumber
      | infinity other => cases sign <;> cases other <;> rfl
      | zero other => cases sign <;> rfl
      | finite other m e positive => cases sign <;> cases other <;> rfl
  | zero sign =>
      cases y with
      | notANumber => cases yNumber
      | infinity other => cases other <;> rfl
      | zero other => rfl
      | finite other m e positive => cases other <;> rfl
  | finite sign m e positive =>
      cases y with
      | notANumber => cases yNumber
      | infinity other => cases sign <;> cases other <;> rfl
      | zero other => cases sign <;> rfl
      | finite other m' e' positive' =>
          cases sign <;> cases other
          · rw [rank, rank, tuple, same, compare_neg, compare_neg, cast]
            exact congrArg some (Ordering.swap_then _ _)
          · rfl
          · rfl
          · rw [rank, rank, tuple, same, cast]
            rfl

/-- `partial_cmp`: the order of two numbers, if both are numbers. -/
def partialCmp (x y : Float32) : Option Ordering :=
  x.toModel.compare y.toModel

theorem le_iff_partialCmp {x y : Float32} :
    x ≤ y ↔ (partialCmp x y).any (·.isLE) = true :=
  decide_eq_true_iff

theorem partialCmp_eq_rank {x y : Float32} (xNumber : x.isNaN = false)
    (yNumber : y.isNaN = false) :
    partialCmp x y =
      some (compare (rank x.toModel.unpack) (rank y.toModel.unpack)) :=
  compare_eq_rank xNumber yNumber

/-- Numbers are ordered like their ranks. -/
theorem le_iff_rank {x y : Float32} (xNumber : x.isNaN = false)
    (yNumber : y.isNaN = false) :
    x ≤ y ↔ rank x.toModel.unpack ≤ rank y.toModel.unpack := by
  rw [le_iff_partialCmp, partialCmp_eq_rank xNumber yNumber, ← compare_le_iff_le]
  exact Ordering.isLE_iff_ne_gt

end SinglePrecision
