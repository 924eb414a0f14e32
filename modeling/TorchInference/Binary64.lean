import TorchInference.FloatGrid
import Mathlib.Data.UInt

/-!
# Doubles

The values of the binary interchange format of 64 bits with the operations that
round their exact result, and rounding to integers.  Patterns of magnitudes are
those of `FloatGrid` with 52 bits behind the exponent.
-/

namespace Binary64

open FloatGrid

/-- The first pattern that is not finite. -/
def infinityPattern : Nat := 2047 * 2 ^ 52

inductive Double where
  | finite (negative : Bool) (pattern : Fin infinityPattern)
  | infinite (negative : Bool)
  | nan
  deriving DecidableEq

/-- How many units of the smallest magnitude make one. -/
def scale : ℚ := 2 ^ 1074

/-- The magnitude of a pattern. -/
def magnitude (pattern : Nat) : ℚ :=
  units 52 pattern / scale

/-- The pattern nearest to a magnitude. -/
def near (value : ℚ) : Nat :=
  nearest 52 (value * scale)

/-- The double of this sign that is nearest to a magnitude. -/
def rounded (negative : Bool) (value : ℚ) : Double :=
  if small : near value < infinityPattern then
    .finite negative ⟨near value, small⟩
  else .infinite negative

namespace Double

def mul : Double → Double → Double
  | finite negative x, finite negative' y =>
      rounded (negative ^^ negative') (magnitude x * magnitude y)
  | finite negative x, infinite negative' =>
      if x.val = 0 then nan else infinite (negative ^^ negative')
  | infinite negative, finite negative' y =>
      if y.val = 0 then nan else infinite (negative ^^ negative')
  | infinite negative, infinite negative' => infinite (negative ^^ negative')
  | _, _ => nan

def div : Double → Double → Double
  | finite negative x, finite negative' y =>
      if y.val = 0 then
        if x.val = 0 then nan else infinite (negative ^^ negative')
      else rounded (negative ^^ negative') (magnitude x / magnitude y)
  | finite negative _, infinite negative' => rounded (negative ^^ negative') 0
  | infinite negative, finite negative' _ => infinite (negative ^^ negative')
  | _, _ => nan

/-- The nearest integer, with halves away from zero. -/
def round : Double → Double
  | finite negative x => rounded negative ⌊magnitude x + 1 / 2⌋₊
  | value => value

/-- The double of these bits. -/
def ofBits (bits : UInt64) : Double :=
  if small : bits.toNat % 2 ^ 63 < infinityPattern then
    finite (decide (2 ^ 63 ≤ bits.toNat)) ⟨bits.toNat % 2 ^ 63, small⟩
  else if bits.toNat % 2 ^ 63 = infinityPattern then
    infinite (decide (2 ^ 63 ≤ bits.toNat))
  else nan

/-- The bits of a double of this sign and pattern. -/
def bitsOf (negative : Bool) (pattern : Nat) : UInt64 :=
  UInt64.ofNat ((if negative then 2 ^ 63 else 0) + pattern)

end Double

/-! ## Bits -/

theorem toNat_bitsOf (negative : Bool) {pattern : Nat}
    (small : pattern < infinityPattern) :
    (Double.bitsOf negative pattern).toNat =
      (if negative then 2 ^ 63 else 0) + pattern := by
  rw [infinityPattern] at small
  rw [Double.bitsOf, UInt64.toNat_ofNat_of_lt']
  cases negative <;> simp only [Bool.false_eq_true, if_true, if_false] <;>
    change _ < 2 ^ 64 <;> omega

@[simp]
theorem ofBits_bitsOf (negative : Bool) (pattern : Fin infinityPattern) :
    Double.ofBits (Double.bitsOf negative pattern) =
      .finite negative pattern := by
  have small := pattern.isLt
  have bound : pattern.val < 2047 * 2 ^ 52 := small
  have modulus : (Double.bitsOf negative pattern).toNat % 2 ^ 63 =
      pattern := by
    rw [toNat_bitsOf negative small]
    cases negative <;> simp only [Bool.false_eq_true, if_true, if_false] <;>
      omega
  have sign : decide (2 ^ 63 ≤ (Double.bitsOf negative pattern).toNat) =
      negative := by
    rw [toNat_bitsOf negative small]
    cases negative <;> simp only [Bool.false_eq_true, if_true, if_false,
      decide_eq_true_eq, decide_eq_false_iff_not] <;> omega
  simp only [Double.ofBits, modulus, sign, small, dif_pos]

/-- The bits of a finite double are given back. -/
theorem bitsOf_eq {bits : UInt64} {negative : Bool}
    {pattern : Fin infinityPattern}
    (isFinite : Double.ofBits bits = .finite negative pattern) :
    Double.bitsOf negative pattern = bits := by
  have bound : bits.toNat < 2 ^ 64 := bits.toNat_lt
  rw [Double.ofBits] at isFinite
  split at isFinite
  · rename_i small
    cases isFinite
    rw [← UInt64.toNat_inj, toNat_bitsOf _ small]
    by_cases high : 2 ^ 63 ≤ bits.toNat
    · rw [decide_eq_true high, if_pos rfl]
      omega
    · rw [decide_eq_false high, if_neg Bool.false_ne_true]
      omega
  · split at isFinite <;> cases isFinite

/-! ## Magnitudes -/

theorem scale_pos : 0 < scale :=
  pow_pos two_pos 1074

theorem magnitude_mul_scale (pattern : Nat) :
    magnitude pattern * scale = units 52 pattern :=
  div_mul_cancel₀ _ scale_pos.ne'

theorem magnitude_nonneg (pattern : Nat) : 0 ≤ magnitude pattern :=
  div_nonneg (Nat.cast_nonneg _) scale_pos.le

theorem magnitude_injective {x y : Nat} (same : magnitude x = magnitude y) :
    x = y := by
  have scaled := congrArg (· * scale) same
  simp only [magnitude_mul_scale, Nat.cast_inj] at scaled
  exact (units_strictMono 52).injective scaled

theorem near_magnitude (pattern : Nat) : near (magnitude pattern) = pattern := by
  rw [near, magnitude_mul_scale, nearest_units (by decide)]

theorem near_mono {x y : ℚ} (nonneg : 0 ≤ x) (le : x ≤ y) :
    near x ≤ near y :=
  nearest_mono (by decide) (mul_nonneg nonneg scale_pos.le)
    (mul_le_mul_of_nonneg_right le scale_pos.le)

theorem magnitude_mono {x y : Nat} (le : x ≤ y) : magnitude x ≤ magnitude y :=
  div_le_div_of_nonneg_right
    (Nat.cast_le.mpr ((units_strictMono 52).monotone le)) scale_pos.le

/-- Integers and fractions with few bits are magnitudes. -/
theorem exists_magnitude_eq {k : Nat} (few : k ≤ 2 ^ 53) (e : Nat) :
    ∃ pattern, magnitude pattern = k * 2 ^ e := by
  obtain ⟨pattern, isUnits⟩ := exists_units_eq 52 (e + 1074) few
  refine ⟨pattern, ?_⟩
  rw [magnitude, isUnits, div_eq_iff scale_pos.ne', scale, Nat.cast_mul,
    Nat.cast_pow, Nat.cast_ofNat, pow_add, mul_assoc]

/-- No magnitude is nearer than the one rounded to. -/
theorem abs_sub_near_le {value : ℚ} (nonneg : 0 ≤ value) (pattern : Nat) :
    |value - magnitude (near value)| ≤ |value - magnitude pattern| := by
  have cell := nearest_inCell (p := 52) (by decide)
    (mul_nonneg nonneg scale_pos.le)
  have distance (k : Nat) : |value - magnitude k| * scale =
      |value * scale - units 52 k| := by
    rw [← magnitude_mul_scale, ← sub_mul, abs_mul, abs_of_pos scale_pos]
  refine le_of_mul_le_mul_right ?_ scale_pos
  rw [distance, distance]
  exact cell.abs_sub_le pattern

/-- The relative error of rounding. -/
theorem near_error {value : ℚ} (normal : 2 ^ 52 ≤ value * scale) :
    |value - magnitude (near value)| * 2 ^ 53 < value ∧
      |value - magnitude (near value)| * 2 ^ 53 ≤ magnitude (near value) := by
  have nonneg : 0 ≤ value * scale := le_trans (by positivity) normal
  obtain ⟨error, error'⟩ :=
    (nearest_inCell (p := 52) (by decide) nonneg).error_lt normal
  have distance : |value - magnitude (near value)| * scale =
      |value * scale - units 52 (nearest 52 (value * scale))| := by
    rw [near, ← magnitude_mul_scale, ← sub_mul, abs_mul, abs_of_pos scale_pos]
  rw [← distance, mul_right_comm] at error error'
  rw [← magnitude_mul_scale] at error'
  exact ⟨lt_of_mul_lt_mul_right error scale_pos.le,
    le_of_mul_le_mul_right error' scale_pos⟩

end Binary64
