import TorchInference.Binary64

/-!
# Rounding doubles to decimals

A double is multiplied by a factor, rounded to an integer and divided by the
factor again.  The product and the quotient are rounded, too.  Small results
are the same when they are rounded once more, as the errors stay below half of
a unit; large ones, as the product is an integer already.  In between the
product has room for halves but not for quarters, and the result may go up with
every rounding.
-/

namespace Binary64

open FloatGrid

/-- The pattern of the nearest integer. -/
def whole (x : Nat) : Nat :=
  near ⌊magnitude x + 1 / 2⌋₊

/-- The pattern that a pattern is rounded to with the factor `c`. -/
def settle (c : ℚ) (x : Nat) : Nat :=
  near (magnitude (whole (near (magnitude x * c))) / c)

@[simp]
theorem magnitude_zero : magnitude 0 = 0 := by
  rw [magnitude, units_zero, Nat.cast_zero, zero_div]

@[simp]
theorem near_zero : near 0 = 0 := by
  rw [← magnitude_zero, near_magnitude]

/-! ## Integers -/

theorem scale_eq {e rest : Nat} (exponents : e + rest = 1074) :
    scale = 2 ^ e * 2 ^ rest := by
  rw [← pow_add, exponents, scale]

/-- Large magnitudes are integers. -/
theorem exists_integer {x : Nat} (large : 2 ^ 52 ≤ magnitude x) :
    ∃ k : Nat, magnitude x = k := by
  obtain ⟨e, k, rfl, normal, small⟩ := exists_eq_add 52 x
  rw [magnitude, units_add normal small, Nat.cast_mul, Nat.cast_pow,
    Nat.cast_ofNat] at large ⊢
  have power : (0 : ℚ) < 2 ^ e := by positivity
  rcases Nat.le_total 1074 e with high | low
  · obtain ⟨rest, rfl⟩ := Nat.exists_eq_add_of_le high
    refine ⟨k * 2 ^ rest, ?_⟩
    rw [pow_add, div_eq_iff scale_pos.ne', Nat.cast_mul, Nat.cast_pow,
      Nat.cast_ofNat, mul_assoc, mul_comm (2 ^ rest) scale, scale]
  · obtain ⟨rest, exponents⟩ := Nat.exists_eq_add_of_le low
    rw [scale_eq exponents.symm, mul_comm (2 ^ e) (2 ^ rest),
      mul_div_mul_right _ _ power.ne'] at large ⊢
    cases rest with
    | zero => exact ⟨k, by rw [pow_zero, div_one]⟩
    | succ rest =>
        -- so many bits do not fit in front of the point
        have few : (k : ℚ) < 2 ^ 53 := by exact_mod_cast small
        have grows : (1 : ℚ) ≤ 2 ^ rest := one_le_pow₀ one_le_two
        rw [le_div_iff₀ (by positivity), pow_succ 2 rest] at large
        linarith

theorem exists_magnitude_two_pow (e : Nat) :
    ∃ pattern, magnitude pattern = 2 ^ e := by
  obtain ⟨pattern, isPower⟩ := exists_magnitude_eq (k := 1) (by norm_num) e
  exact ⟨pattern, by rw [isPower, Nat.cast_one, one_mul]⟩

theorem floor_half (k : Nat) : ⌊(k : ℚ) + 1 / 2⌋₊ = k := by
  rw [Nat.floor_eq_iff (by positivity)]
  constructor <;> linarith

/-- Rounding to an integer is exact. -/
theorem magnitude_whole (x : Nat) :
    magnitude (whole x) = ⌊magnitude x + 1 / 2⌋₊ := by
  have ofMagnitude {value : ℚ} (isMagnitude : ∃ y, magnitude y = value) :
      magnitude (near value) = value := by
    obtain ⟨y, rfl⟩ := isMagnitude
    rw [near_magnitude]
  refine ofMagnitude ?_
  rcases le_or_gt (2 ^ 52) (magnitude x) with large | small
  · obtain ⟨k, isInteger⟩ := exists_integer large
    exact ⟨x, by rw [isInteger, floor_half]⟩
  · have few : ⌊magnitude x + 1 / 2⌋₊ ≤ 2 ^ 53 := by
      refine Nat.floor_le_of_le ?_
      push_cast
      linarith
    obtain ⟨y, isMagnitude⟩ := exists_magnitude_eq few 0
    exact ⟨y, by rw [isMagnitude, pow_zero, mul_one]⟩

theorem whole_of_large {x : Nat} (large : 2 ^ 52 ≤ magnitude x) :
    whole x = x := by
  obtain ⟨k, isInteger⟩ := exists_integer large
  rw [whole, isInteger, floor_half, ← isInteger, near_magnitude]

/-- What is nearer than a half to an integer is rounded to it. -/
theorem whole_of_near {x k : Nat} (close : |(k : ℚ) - magnitude x| < 1 / 2) :
    whole x = near k := by
  obtain ⟨above, below⟩ := abs_lt.mp close
  have isFloor : ⌊magnitude x + 1 / 2⌋₊ = k := by
    rw [Nat.floor_eq_iff (by linarith [magnitude_nonneg x])]
    constructor <;> linarith
  rw [whole, isFloor]

/-! ## Rounding again -/

/-- A factor with few bits that leaves quotients of integers normal. -/
structure IsFactor (c : ℚ) : Prop where
  bits : ∃ m e : Nat, m ≤ 2 ^ 53 ∧ c = m * 2 ^ e
  one_le : 1 ≤ c
  normal : 2 ^ 52 * c ≤ scale

section Factor

variable {c : ℚ} {x : Nat}

theorem IsFactor.pos (factor : IsFactor c) : 0 < c :=
  zero_lt_one.trans_le factor.one_le

theorem IsFactor.quotient_normal (factor : IsFactor c) {value : ℚ}
    (atLeast : 1 ≤ value) : 2 ^ 52 ≤ value / c * scale := by
  rw [div_mul_eq_mul_div, le_div_iff₀ factor.pos]
  exact factor.normal.trans (le_mul_of_one_le_left scale_pos.le atLeast)

theorem magnitude_near_le {value : ℚ} (nonneg : 0 ≤ value) {pattern : Nat}
    (le : value ≤ magnitude pattern) :
    magnitude (near value) ≤ magnitude pattern := by
  have monotone := near_mono nonneg le
  rw [near_magnitude] at monotone
  exact magnitude_mono monotone

theorem le_magnitude_near {value : ℚ} {pattern : Nat}
    (le : magnitude pattern ≤ value) :
    magnitude pattern ≤ magnitude (near value) := by
  have monotone := near_mono (magnitude_nonneg pattern) le
  rw [near_magnitude] at monotone
  exact magnitude_mono monotone

/-- A quotient of an integer with few bits is multiplied back to it. -/
theorem whole_near_mul (factor : IsFactor c) {k : Nat} (few : k ≤ 2 ^ 51) :
    whole (near (magnitude (near (k / c)) * c)) = near k := by
  rcases Nat.eq_zero_or_pos k with rfl | positive
  · rw [Nat.cast_zero, zero_div, near_zero, magnitude_zero, zero_mul, near_zero]
    rw [whole_of_near (k := 0) (by rw [magnitude_zero]; norm_num),
      Nat.cast_zero, near_zero]
  · have atLeast : (1 : ℚ) ≤ k := Nat.one_le_cast.mpr positive
    have error := (near_error (factor.quotient_normal atLeast)).1
    set y := near ((k : ℚ) / c) with yDef
    have back : (k : ℚ) / c * c = k := div_mul_cancel₀ _ factor.pos.ne'
    have product : |(k : ℚ) - magnitude y * c| * 2 ^ 53 < k := by
      have scaled := mul_lt_mul_of_pos_right error factor.pos
      rw [back, mul_right_comm, ← abs_of_pos factor.pos, ← abs_mul,
        abs_of_pos factor.pos, sub_mul, back] at scaled
      exact scaled
    have bound : (k : ℚ) ≤ 2 ^ 51 := by exact_mod_cast few
    have quarter : |(k : ℚ) - magnitude y * c| < 1 / 4 := by
      rw [← mul_lt_mul_iff_of_pos_right (show (0 : ℚ) < 2 ^ 53 by positivity)]
      refine product.trans_le (bound.trans ?_)
      norm_num
    obtain ⟨pattern, isInteger⟩ :=
      exists_magnitude_eq (few.trans (by norm_num)) 0
    rw [pow_zero, mul_one] at isInteger
    have nearer := abs_sub_near_le
      (mul_nonneg (magnitude_nonneg y) factor.pos.le) pattern
    rw [isInteger, abs_sub_comm _ (k : ℚ)] at nearer
    refine whole_of_near ?_
    calc |(k : ℚ) - magnitude (near (magnitude y * c))|
        ≤ |(k : ℚ) - magnitude y * c| +
            |magnitude y * c - magnitude (near (magnitude y * c))| :=
          abs_sub_le _ _ _
      _ < 1 / 2 := by linarith

/-- Small magnitudes are rounded once. -/
theorem settle_settle_of_small (factor : IsFactor c)
    (small : magnitude x * c ≤ 2 ^ 51) :
    settle c (settle c x) = settle c x := by
  obtain ⟨limit, isLimit⟩ := exists_magnitude_two_pow 51
  have product : magnitude (near (magnitude x * c)) ≤ 2 ^ 51 := by
    rw [← isLimit] at small ⊢
    exact magnitude_near_le (mul_nonneg (magnitude_nonneg x) factor.pos.le) small
  have few : ⌊magnitude (near (magnitude x * c)) + 1 / 2⌋₊ ≤ 2 ^ 51 := by
    rw [← Nat.lt_add_one_iff, Nat.floor_lt (by
      linarith [magnitude_nonneg (near (magnitude x * c))])]
    push_cast
    linarith
  have again := whole_near_mul factor few
  rw [← magnitude_whole] at again
  rw [settle, settle, again, near_magnitude]

/-- At the first pattern of an exponent the product with a factor is exact. -/
theorem exists_product (factor : IsFactor c) {y : Nat}
    (first : y % 2 ^ 52 = 0) :
    ∃ b, (units 52 b : ℚ) = units 52 y * c := by
  obtain ⟨m, d, few, rfl⟩ := factor.bits
  obtain ⟨e, k, rfl, normal, small⟩ := exists_eq_add 52 y
  rw [units_add normal small]
  have isMultiple : k = 0 ∨ k = 2 ^ 52 := by
    rw [Nat.mul_add_mod_self_right] at first
    omega
  rcases isMultiple with rfl | rfl
  · exact ⟨0, by rw [units_zero, Nat.zero_mul, Nat.cast_zero, zero_mul]⟩
  · obtain ⟨b, isUnits⟩ := exists_units_eq 52 (52 + e + d) few
    refine ⟨b, ?_⟩
    rw [isUnits]
    push_cast
    ring

/-- Large magnitudes are rounded once, unless the product with the result is
infinite. -/
theorem settle_settle_of_large (factor : IsFactor c)
    (large : 2 ^ 52 + 1 ≤ magnitude x * c) :
    settle c (settle c x) = settle c x := by
  obtain ⟨limit, isLimit⟩ := exists_magnitude_eq
    (k := 2 ^ 52 + 1) (by norm_num) 0
  rw [pow_zero, mul_one, Nat.cast_add, Nat.cast_pow, Nat.cast_ofNat,
    Nat.cast_one] at isLimit
  set a := near (magnitude x * c) with aDef
  have product : 2 ^ 52 + 1 ≤ magnitude a := by
    rw [← isLimit] at large ⊢
    exact le_magnitude_near large
  have isWhole : whole a = a := whole_of_large (by linarith)
  have settled : settle c x = near (magnitude a / c) := by
    rw [settle, ← aDef, isWhole]
  set y := near (magnitude a / c) with yDef
  have error := (near_error (factor.quotient_normal
    (show 1 ≤ magnitude a by linarith))).1
  rw [← yDef] at error
  have back : magnitude a / c * c = magnitude a :=
    div_mul_cancel₀ _ factor.pos.ne'
  have stays : 2 ^ 52 ≤ magnitude y * c := by
    have scaled := mul_lt_mul_of_pos_right error factor.pos
    rw [back, mul_right_comm, ← abs_of_pos factor.pos, ← abs_mul,
      abs_of_pos factor.pos, sub_mul, back] at scaled
    have distance := le_abs_self (magnitude a - magnitude y * c)
    norm_num at product scaled ⊢
    linarith
  obtain ⟨power, isPower⟩ := exists_magnitude_two_pow 52
  have isWhole' : whole (near (magnitude y * c)) = near (magnitude y * c) :=
    whole_of_large (by
      rw [← isPower] at stays ⊢
      exact le_magnitude_near stays)
  have quotient (b : Nat) :
      near (magnitude b / c) = nearest 52 (units 52 b / c) := by
    rw [near, div_mul_eq_mul_div, magnitude_mul_scale]
  have multiple (b : Nat) :
      near (magnitude b * c) = nearest 52 (units 52 b * c) := by
    rw [near, mul_right_comm, magnitude_mul_scale]
  have steady := nearest_div_nearest_mul (p := 52) (by decide) factor.pos a
  rw [← quotient a, ← yDef, ← multiple y, ← quotient] at steady
  rw [settled, settle, isWhole']
  refine steady ?_
  by_cases first : y % 2 ^ 52 = 0
  · exact Or.inl (exists_product factor first)
  · exact Or.inr first

/-! ## The distance -/

theorem abs_whole_div_sub_le (factor : IsFactor c) {x : Nat}
    (normal : 2 ^ 52 ≤ magnitude x * c * scale) :
    |(⌊magnitude (near (magnitude x * c)) + 1 / 2⌋₊ : ℚ) / c - magnitude x| ≤
      1 / 2 / c + magnitude x / 2 ^ 53 := by
  have positive := factor.pos
  have back : magnitude x * c / c = magnitude x :=
    mul_div_cancel_right₀ _ positive.ne'
  set a := near (magnitude x * c) with aDef
  set k := ⌊magnitude a + 1 / 2⌋₊ with kDef
  have floor : (k : ℚ) ≤ magnitude a + 1 / 2 :=
    Nat.floor_le (by linarith [magnitude_nonneg a])
  have next : magnitude a + 1 / 2 < k + 1 := Nat.lt_floor_add_one _
  have error : |magnitude x * c - magnitude a| ≤ magnitude x * c / 2 ^ 53 := by
    rw [le_div_iff₀ (by positivity)]
    exact (near_error normal).1.le
  obtain ⟨low, high⟩ := abs_le.mp error
  rw [← back, ← sub_div, abs_div, abs_of_pos positive, div_right_comm _ c,
    ← add_div]
  refine div_le_div_of_nonneg_right ?_ positive.le
  rw [abs_le]
  constructor <;> linarith

theorem abs_quotient_sub_le (factor : IsFactor c) (k : Nat) :
    |(k : ℚ) / c - magnitude (near (k / c))| ≤ magnitude (near (k / c)) / 2 ^ 53 := by
  rcases Nat.eq_zero_or_pos k with none | some
  · rw [none]
    simp
  · rw [le_div_iff₀ (by positivity)]
    exact (near_error (factor.quotient_normal (Nat.one_le_cast.mpr some))).2

/-- A product that is too small for a normal double is rounded to zero. -/
theorem floor_near_of_tiny {product : ℚ} (nonneg : 0 ≤ product)
    (tiny : product * scale < 2 ^ 52) :
    product < 1 / 2 ∧ ⌊magnitude (near product) + 1 / 2⌋₊ = 0 := by
  obtain ⟨least, isLeast⟩ := exists_units_eq 52 0 (two_pow_lt 52).le
  have scaled : magnitude least * scale = 2 ^ 52 := by
    rw [magnitude_mul_scale, isLeast, pow_zero, mul_one, Nat.cast_pow,
      Nat.cast_ofNat]
  have atMost : product ≤ magnitude least := by
    rw [← scaled] at tiny
    exact (lt_of_mul_lt_mul_right tiny scale_pos.le).le
  have small : magnitude least < 1 / 2 := by
    have grows : (1 : ℚ) ≤ 2 ^ 1020 := one_le_pow₀ one_le_two
    refine lt_of_mul_lt_mul_right ?_ scale_pos.le
    rw [scaled, scale_eq (show 54 + 1020 = 1074 from rfl)]
    generalize (2 : ℚ) ^ 1020 = rest at grows ⊢
    linarith
  refine ⟨by linarith, ?_⟩
  rw [Nat.floor_eq_zero]
  linarith [magnitude_near_le nonneg atMost]

/-- Rounding to decimals goes at most half a unit of the last decimal away, and
as much again as rounding to a double may go. -/
theorem abs_settle_sub_le (factor : IsFactor c) (x : Nat) :
    |magnitude (settle c x) - magnitude x| ≤
      1 / 2 / c + max (magnitude (settle c x)) (magnitude x) / 2 ^ 52 := by
  have positive := factor.pos
  have atLeast := le_max_left (magnitude (settle c x)) (magnitude x)
  have atLeast' := le_max_right (magnitude (settle c x)) (magnitude x)
  rw [settle, magnitude_whole] at atLeast atLeast' ⊢
  by_cases normal : 2 ^ 52 ≤ magnitude x * c * scale
  · obtain ⟨low, high⟩ := abs_le.mp (abs_quotient_sub_le factor
      ⌊magnitude (near (magnitude x * c)) + 1 / 2⌋₊)
    obtain ⟨low', high'⟩ := abs_le.mp (abs_whole_div_sub_le factor normal)
    rw [abs_le]
    constructor <;> linarith
  · obtain ⟨small, none⟩ := floor_near_of_tiny
      (mul_nonneg (magnitude_nonneg x) positive.le) (not_le.mp normal)
    rw [none, Nat.cast_zero, zero_div, near_zero, magnitude_zero, zero_sub,
      abs_neg, abs_of_nonneg (magnitude_nonneg x)]
    have half : magnitude x ≤ 1 / 2 / c := by
      rw [le_div_iff₀ positive]
      exact small.le
    have more : 0 ≤ max 0 (magnitude x) / 2 ^ 52 := by positivity
    linarith

end Factor

end Binary64
