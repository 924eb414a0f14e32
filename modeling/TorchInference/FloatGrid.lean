import Mathlib.Algebra.Order.Field.Basic
import Mathlib.Algebra.Order.Floor.Semifield
import Mathlib.Data.Rat.Floor
import Mathlib.Tactic.Linarith
import Mathlib.Tactic.Ring

/-!
# The magnitudes of a binary floating-point format

The patterns of an exponent and `p` further bits count the magnitudes of a
format in increasing order.  A magnitude is given in units of the smallest one
that is not zero, so it is a natural number.  A number is rounded to the
pattern in whose cell it lies; a number between two cells goes to the even
pattern.
-/

namespace FloatGrid

/-- The distance from a pattern to the next. -/
def gap (p n : Nat) : Nat :=
  2 ^ (n / 2 ^ p - 1)

/-- The magnitude of a pattern. -/
def units (p n : Nat) : Nat :=
  if n < 2 ^ p then n else (2 ^ p + n % 2 ^ p) * gap p n

/-- Rounding to a natural number, with ties to even. -/
def roundHalfEven (x : ℚ) : Nat :=
  if x - ⌊x⌋₊ < 1 / 2 then ⌊x⌋₊
  else if 1 / 2 < x - ⌊x⌋₊ then ⌊x⌋₊ + 1
  else if ⌊x⌋₊ % 2 = 0 then ⌊x⌋₊ else ⌊x⌋₊ + 1

/-- The exponent of the gaps around a number. -/
def gapExponent (p : Nat) (x : ℚ) : Nat :=
  Nat.log2 ⌊x⌋₊ - p

/-- The pattern that a number is rounded to. -/
def nearest (p : Nat) (x : ℚ) : Nat :=
  gapExponent p x * 2 ^ p + roundHalfEven (x / 2 ^ gapExponent p x)

/-- The number in the middle between a pattern and the next. -/
def middle (p n : Nat) : ℚ :=
  units p n + gap p n / 2

/-- The number lies in the cell of the pattern. -/
structure InCell (p : Nat) (x : ℚ) (n : Nat) : Prop where
  below : x < middle p n ∨ x = middle p n ∧ n % 2 = 0
  above : ∀ m, n = m + 1 → middle p m < x ∨ middle p m = x ∧ n % 2 = 0

variable {p n m : Nat} {x : ℚ}

/-! ## Patterns -/

theorem gap_pos (p n : Nat) : 0 < gap p n :=
  Nat.two_pow_pos _

theorem gap_mono (le : n ≤ m) : gap p n ≤ gap p m :=
  Nat.pow_le_pow_right Nat.two_pos
    (Nat.sub_le_sub_right (Nat.div_le_div_right le) 1)

theorem two_pow_lt (p : Nat) : 2 ^ p < 2 ^ (p + 1) :=
  Nat.pow_lt_pow_right Nat.one_lt_two (Nat.lt_succ_self p)

/-- A pattern whose gap has the exponent `e`. -/
theorem gap_add {e k : Nat} (normal : e = 0 ∨ 2 ^ p ≤ k)
    (small : k < 2 ^ (p + 1)) : gap p (e * 2 ^ p + k) = 2 ^ e := by
  have positive := Nat.two_pow_pos p
  rw [Nat.pow_succ] at small
  rw [gap, Nat.add_comm, Nat.add_mul_div_right _ _ positive]
  by_cases low : k < 2 ^ p
  · rw [Nat.div_eq_of_lt low, normal.resolve_right (Nat.not_le.mpr low)]
  · have quotient : k / 2 ^ p = 1 :=
      Nat.div_eq_of_lt_le (by omega) (by omega)
    rw [quotient, Nat.add_sub_cancel_left]

theorem units_add {e k : Nat} (normal : e = 0 ∨ 2 ^ p ≤ k)
    (small : k < 2 ^ (p + 1)) : units p (e * 2 ^ p + k) = k * 2 ^ e := by
  rw [units, gap_add normal small]
  rw [Nat.pow_succ] at small
  by_cases low : k < 2 ^ p
  · rw [normal.resolve_right (Nat.not_le.mpr low), Nat.zero_mul, Nat.zero_add,
      if_pos low, Nat.pow_zero, Nat.mul_one]
  · have modulus : (e * 2 ^ p + k) % 2 ^ p = k - 2 ^ p := by
      rw [Nat.add_comm, Nat.add_mul_mod_self_right,
        Nat.mod_eq_sub_mod (Nat.not_lt.mp low), Nat.mod_eq_of_lt (by omega)]
    have high : ¬ e * 2 ^ p + k < 2 ^ p := by
      have := Nat.le_add_left k (e * 2 ^ p)
      omega
    rw [if_neg high, modulus]
    congr 1
    omega

/-- Every pattern has this form. -/
theorem exists_eq_add (p n : Nat) : ∃ e k, n = e * 2 ^ p + k ∧
    (e = 0 ∨ 2 ^ p ≤ k) ∧ k < 2 ^ (p + 1) := by
  have positive := Nat.two_pow_pos p
  have rest := Nat.mod_lt n positive
  have parts := Nat.div_add_mod n (2 ^ p)
  rw [Nat.mul_comm] at parts
  rw [Nat.pow_succ]
  cases quotient : n / 2 ^ p with
  | zero =>
      rw [quotient] at parts
      exact ⟨0, n % 2 ^ p, by omega, Or.inl rfl, by omega⟩
  | succ e =>
      rw [quotient, Nat.succ_mul] at parts
      exact ⟨e, 2 ^ p + n % 2 ^ p, by omega, Or.inr (by omega), by omega⟩

theorem units_succ (p n : Nat) : units p (n + 1) = units p n + gap p n := by
  obtain ⟨e, k, rfl, normal, small⟩ := exists_eq_add p n
  rw [units_add normal small, gap_add normal small]
  by_cases last : k + 1 = 2 ^ (p + 1)
  · -- the next pattern is the first of the next exponent
    have next : e * 2 ^ p + k + 1 = (e + 1) * 2 ^ p + 2 ^ p := by
      rw [Nat.pow_succ] at last
      rw [Nat.succ_mul]
      omega
    rw [next, units_add (Or.inr le_rfl) (two_pow_lt p), ← Nat.succ_mul,
      Nat.succ_eq_add_one, last]
    ring
  · rw [Nat.add_assoc, units_add (normal.imp_right (by omega)) (by omega)]
    ring

theorem units_strictMono (p : Nat) : StrictMono (units p) :=
  strictMono_nat_of_lt_succ fun n => by
    rw [units_succ]
    exact Nat.lt_add_of_pos_right (gap_pos p n)

theorem units_zero (p : Nat) : units p 0 = 0 :=
  if_pos (Nat.two_pow_pos p)

/-- A gap is small against the magnitudes of normal patterns. -/
theorem gap_mul_le_units (normal : 2 ^ p ≤ n) :
    gap p n * 2 ^ p ≤ units p n := by
  rw [units, if_neg (Nat.not_lt.mpr normal), Nat.mul_comm]
  exact Nat.mul_le_mul_right _ (Nat.le_add_right ..)

/-- A number with few bits is a magnitude. -/
theorem exists_units_eq (p e : Nat) {k : Nat} (few : k ≤ 2 ^ (p + 1)) :
    ∃ n, units p n = k * 2 ^ e := by
  induction e generalizing k with
  | zero =>
      rcases Nat.lt_or_eq_of_le few with small | rfl
      · have whole := units_add (Or.inl rfl) small
        rw [Nat.zero_mul, Nat.zero_add] at whole
        exact ⟨k, whole⟩
      · refine ⟨1 * 2 ^ p + 2 ^ p, ?_⟩
        rw [units_add (Or.inr le_rfl) (two_pow_lt p)]
        ring
  | succ e ih =>
      by_cases low : k ≤ 2 ^ p
      · obtain ⟨n, isUnits⟩ := ih (k := 2 * k) (by rw [Nat.pow_succ]; omega)
        exact ⟨n, by rw [isUnits]; ring⟩
      · rcases Nat.lt_or_eq_of_le few with small | rfl
        · exact ⟨_, units_add (Or.inr (by omega)) small⟩
        · refine ⟨(e + 2) * 2 ^ p + 2 ^ p, ?_⟩
          rw [units_add (Or.inr le_rfl) (two_pow_lt p)]
          ring

/-! ## Cells -/

theorem units_lt_middle (p n : Nat) : (units p n : ℚ) < middle p n := by
  have positive : (0 : ℚ) < gap p n := Nat.cast_pos.mpr (gap_pos p n)
  rw [middle]
  linarith

theorem middle_add (p n : Nat) :
    middle p n + gap p n / 2 = (units p (n + 1) : Nat) := by
  rw [middle, units_succ, Nat.cast_add]
  ring

theorem middle_lt_units_succ (p n : Nat) :
    middle p n < (units p (n + 1) : Nat) := by
  have positive : (0 : ℚ) < gap p n := Nat.cast_pos.mpr (gap_pos p n)
  rw [← middle_add]
  linarith

theorem middle_strictMono (p : Nat) : StrictMono (middle p) :=
  strictMono_nat_of_lt_succ fun n =>
    (middle_lt_units_succ p n).trans (units_lt_middle p (n + 1))

/-- Larger numbers lie in the cells of larger patterns. -/
theorem InCell.le {y : ℚ} (cell : InCell p x n) (cell' : InCell p y m)
    (le : x ≤ y) : n ≤ m := by
  by_contra! larger
  obtain ⟨k, rfl⟩ := Nat.exists_eq_add_of_lt larger
  have order : middle p m ≤ middle p (m + k) :=
    (middle_strictMono p).monotone (Nat.le_add_right m k)
  rcases cell.above (m + k) rfl with beyond | ⟨tie, even⟩
  · rcases cell'.below with before | ⟨tie', -⟩ <;> linarith
  · rcases cell'.below with before | ⟨tie', even'⟩
    · linarith
    · -- both lie between two patterns, which cannot both be even
      have same : m = m + k := (middle_strictMono p).injective (by linarith)
      omega

theorem InCell.eq (cell : InCell p x n) (cell' : InCell p x m) : n = m :=
  Nat.le_antisymm (cell.le cell' le_rfl) (cell'.le cell le_rfl)

theorem inCell_units (p n : Nat) : InCell p (units p n : Nat) n where
  below := Or.inl (units_lt_middle p n)
  above := by
    rintro m rfl
    exact Or.inl (middle_lt_units_succ p m)

/-! ## Rounding -/

theorem roundHalfEven_spec (x : ℚ) :
    roundHalfEven x = ⌊x⌋₊ ∧
        (x < ⌊x⌋₊ + 1 / 2 ∨ x = ⌊x⌋₊ + 1 / 2 ∧ ⌊x⌋₊ % 2 = 0) ∨
      roundHalfEven x = ⌊x⌋₊ + 1 ∧
        (⌊x⌋₊ + 1 / 2 < x ∨ ⌊x⌋₊ + 1 / 2 = x ∧ (⌊x⌋₊ + 1) % 2 = 0) := by
  rw [roundHalfEven]
  split
  · rename_i low
    exact Or.inl ⟨rfl, Or.inl (by linarith)⟩
  · rename_i notLow
    split
    · rename_i high
      exact Or.inr ⟨rfl, Or.inl (by linarith)⟩
    · rename_i notHigh
      have tie : x = ⌊x⌋₊ + 1 / 2 := by linarith
      split
      · rename_i even
        exact Or.inl ⟨rfl, Or.inr ⟨tie, even⟩⟩
      · rename_i odd
        exact Or.inr ⟨rfl, Or.inr ⟨tie.symm, by omega⟩⟩

/-- The integral part of a number in units of the gaps around it. -/
theorem floor_spec (p : Nat) (x : ℚ) :
    (gapExponent p x = 0 ∨ 2 ^ p ≤ ⌊x / 2 ^ gapExponent p x⌋₊) ∧
      ⌊x / 2 ^ gapExponent p x⌋₊ < 2 ^ (p + 1) := by
  have floors : ⌊x / 2 ^ gapExponent p x⌋₊ =
      ⌊x⌋₊ / 2 ^ gapExponent p x := by
    have := Nat.floor_div_natCast x (2 ^ gapExponent p x)
    push_cast at this
    exact this
  rw [floors, Nat.div_lt_iff_lt_mul (Nat.two_pow_pos _), ← Nat.pow_add]
  have bound : ⌊x⌋₊ < 2 ^ (Nat.log2 ⌊x⌋₊ + 1) := Nat.lt_log2_self
  constructor
  · rw [or_iff_not_imp_left]
    intro positive
    have exponents : p + gapExponent p x = Nat.log2 ⌊x⌋₊ := by
      rw [gapExponent] at positive ⊢
      omega
    have notZero : ⌊x⌋₊ ≠ 0 := by
      intro isZero
      rw [gapExponent, isZero, Nat.log2_zero] at positive
      omega
    rw [Nat.le_div_iff_mul_le (Nat.two_pow_pos _), ← Nat.pow_add, exponents]
    exact Nat.log2_self_le notZero
  · refine bound.trans_le (Nat.pow_le_pow_right Nat.two_pos ?_)
    rw [gapExponent]
    omega

/-- A number is rounded to the pattern in whose cell it lies. -/
theorem nearest_inCell (fine : 0 < p) (nonneg : 0 ≤ x) :
    InCell p x (nearest p x) := by
  obtain ⟨normal, small⟩ := floor_spec p x
  set e := gapExponent p x with eDef
  set k := ⌊x / 2 ^ e⌋₊ with kDef
  have scale : (0 : ℚ) < 2 ^ e := by positivity
  have units_eq := units_add normal small
  have gap_eq := gap_add normal small
  have middle_eq : middle p (e * 2 ^ p + k) = (k + 1 / 2) * 2 ^ e := by
    rw [middle, units_eq, gap_eq]
    push_cast
    ring
  have even : (e * 2 ^ p) % 2 = 0 := by
    obtain ⟨q, rfl⟩ := Nat.exists_eq_add_of_lt fine
    rw [Nat.zero_add, Nat.pow_succ, ← Nat.mul_assoc]
    exact Nat.mul_mod_left ..
  have whole : (k : ℚ) * 2 ^ e ≤ x :=
    (le_div_iff₀ scale).mp (Nat.floor_le (div_nonneg nonneg scale.le))
  have next : x < (k + 1) * 2 ^ e :=
    (div_lt_iff₀ scale).mp (Nat.lt_floor_add_one _)
  rw [nearest, ← eDef]
  rcases roundHalfEven_spec (x / 2 ^ e) with
    ⟨isFloor, half⟩ | ⟨isNext, half⟩
  · rw [isFloor, ← kDef]
    rw [div_lt_iff₀ scale, div_eq_iff scale.ne', ← kDef, ← middle_eq] at half
    refine ⟨half.imp_right (And.imp_right fun _ => by omega), ?_⟩
    intro m isSucc
    have before := middle_lt_units_succ p m
    rw [← isSucc, units_eq] at before
    push_cast at before
    exact Or.inl (before.trans_le whole)
  · rw [isNext, ← kDef, ← Nat.add_assoc]
    rw [lt_div_iff₀ scale, eq_div_iff scale.ne', ← kDef, ← middle_eq] at half
    refine ⟨Or.inl ?_, ?_⟩
    · have after := units_lt_middle p (e * 2 ^ p + k + 1)
      rw [units_succ, units_eq, gap_eq] at after
      push_cast at after
      linarith
    · intro m isSucc
      rw [← Nat.succ.inj isSucc]
      exact half.imp_right (And.imp_right fun _ => by omega)

theorem nearest_eq (fine : 0 < p) (nonneg : 0 ≤ x) (cell : InCell p x n) :
    nearest p x = n :=
  (nearest_inCell fine nonneg).eq cell

theorem nearest_mono (fine : 0 < p) {y : ℚ} (nonneg : 0 ≤ x) (le : x ≤ y) :
    nearest p x ≤ nearest p y :=
  (nearest_inCell fine nonneg).le (nearest_inCell fine (nonneg.trans le)) le

@[simp]
theorem nearest_units (fine : 0 < p) (n : Nat) :
    nearest p (units p n : Nat) = n :=
  nearest_eq fine (Nat.cast_nonneg _) (inCell_units p n)

/-- A magnitude is not passed by rounding. -/
theorem units_le_units_nearest (fine : 0 < p) {k : Nat}
    (le : (units p k : ℚ) ≤ x) : units p k ≤ units p (nearest p x) := by
  have monotone := nearest_mono fine (Nat.cast_nonneg _) le
  rw [nearest_units fine] at monotone
  exact (units_strictMono p).monotone monotone

theorem units_nearest_le (fine : 0 < p) {k : Nat} (nonneg : 0 ≤ x)
    (le : x ≤ (units p k : ℚ)) : units p (nearest p x) ≤ units p k := by
  have monotone := nearest_mono fine nonneg le
  rw [nearest_units fine] at monotone
  exact (units_strictMono p).monotone monotone

/-! ## Distances -/

/-- No pattern is nearer to a number than the one in whose cell it lies. -/
theorem InCell.abs_sub_le (cell : InCell p x n) (k : Nat) :
    |x - units p n| ≤ |x - units p k| := by
  rcases Nat.lt_trichotomy k n with less | rfl | greater
  · obtain ⟨m, rfl⟩ := Nat.exists_eq_add_of_lt less
    have above : middle p (k + m) ≤ x :=
      (cell.above (k + m) rfl).elim le_of_lt fun tie => tie.1.le
    have next := middle_add p (k + m)
    have order : (units p k : ℚ) ≤ units p (k + m) :=
      Nat.cast_le.mpr ((units_strictMono p).monotone (Nat.le_add_right k m))
    rw [middle] at above next
    rw [abs_le, le_abs]
    have positive : (0 : ℚ) ≤ gap p (k + m) := Nat.cast_nonneg _
    constructor
    · linarith [le_abs_self (x - units p k)]
    · exact Or.inl (by linarith)
  · exact le_rfl
  · have below : x ≤ middle p n :=
      cell.below.elim le_of_lt fun tie => tie.1.le
    have next := middle_add p n
    have order : (units p (n + 1) : ℚ) ≤ units p k :=
      Nat.cast_le.mpr ((units_strictMono p).monotone greater)
    rw [middle] at below next
    have positive : (0 : ℚ) ≤ gap p n := Nat.cast_nonneg _
    have far := neg_abs_le (x - units p k)
    rw [abs_le]
    constructor <;> linarith

/-- The relative error of rounding. -/
theorem InCell.error_lt (cell : InCell p x n) (normal : (2 : ℚ) ^ p ≤ x) :
    |x - units p n| * 2 ^ (p + 1) < x ∧
      |x - units p n| * 2 ^ (p + 1) ≤ units p n := by
  have positive : (0 : ℚ) < 2 ^ p := by positivity
  have least : (units p (2 ^ p) : ℚ) = 2 ^ p := by
    have whole := units_add (e := 0) (Or.inl rfl) (two_pow_lt p)
    rw [Nat.zero_mul, Nat.zero_add, Nat.pow_zero, Nat.mul_one] at whole
    rw [whole]
    push_cast
    rfl
  have isNormal : 2 ^ p ≤ n :=
    (inCell_units p (2 ^ p)).le cell (by rw [least]; exact normal)
  rw [pow_succ]
  rcases le_or_gt (units p n : ℚ) x with le | greater
  · have below : x ≤ middle p n :=
      cell.below.elim le_of_lt fun tie => tie.1.le
    have small : (gap p n : ℚ) * 2 ^ p ≤ units p n := by
      exact_mod_cast gap_mul_le_units isNormal
    rw [middle] at below
    rw [abs_of_nonneg (sub_nonneg.mpr le)]
    have bound : (x - units p n) * (2 ^ p * 2) ≤ units p n := by
      nlinarith
    refine ⟨?_, bound⟩
    rcases le.lt_or_eq with less | same
    · exact bound.trans_lt less
    · rw [same, sub_self, zero_mul]
      exact positive.trans_le normal
  · obtain ⟨m, rfl⟩ : ∃ m, n = m + 1 :=
      Nat.exists_eq_succ_of_ne_zero (by
        have := Nat.two_pow_pos p
        omega)
    have isNormal' : 2 ^ p ≤ m := by
      by_contra! low
      have first : m + 1 = 2 ^ p := by omega
      rw [first, least] at greater
      exact absurd normal (not_le.mpr greater)
    have above : middle p m ≤ x :=
      (cell.above m rfl).elim le_of_lt fun tie => tie.1.le
    have small : (gap p m : ℚ) * 2 ^ p ≤ units p m := by
      exact_mod_cast gap_mul_le_units isNormal'
    have beyond := units_lt_middle p m
    have next := middle_add p m
    rw [abs_of_neg (sub_neg.mpr greater)]
    have bound : -(x - units p (m + 1)) * (2 ^ p * 2) < x := by
      nlinarith
    exact ⟨bound, (bound.trans greater).le⟩

/-! ## Division and multiplication -/

/-- Gaps change only before the first pattern of an exponent. -/
theorem gap_succ (inner : (n + 1) % 2 ^ p ≠ 0) : gap p (n + 1) = gap p n := by
  rw [gap, gap, Nat.succ_div_of_not_dvd]
  exact fun divides => inner (Nat.mod_eq_zero_of_dvd divides)

/-- As far above a pattern as a number of its cell lies below it, the cell
goes on. -/
theorem InCell.reflect_above (cell : InCell p x n) (nonneg : 0 ≤ x) {y : ℚ}
    (le : (units p n : ℚ) ≤ y) (near : y - units p n ≤ units p n - x) :
    InCell p y n := by
  cases n with
  | zero =>
      rw [units_zero, Nat.cast_zero] at near le
      have same : y = (units p 0 : Nat) := by
        rw [units_zero, Nat.cast_zero]
        linarith
      rw [same]
      exact inCell_units p 0
  | succ m =>
      have next := middle_add p m
      have gaps : (gap p m : ℚ) ≤ gap p (m + 1) :=
        Nat.cast_le.mpr (gap_mono (Nat.le_succ m))
      refine ⟨?_, fun k isSucc => Or.inl ?_⟩
      · rw [middle]
        rcases cell.above m rfl with beyond | ⟨tie, even⟩
        · exact Or.inl (by linarith)
        · rcases lt_or_eq_of_le (show y ≤ units p (m + 1) + gap p (m + 1) / 2 by
            linarith) with less | same
          · exact Or.inl less
          · exact Or.inr ⟨same, even⟩
      · rw [← Nat.succ.inj isSucc]
        exact (middle_lt_units_succ p m).trans_le le

/-- As far below, if the gaps on both sides are the same. -/
theorem InCell.reflect_below (cell : InCell p x n) {y : ℚ}
    (inner : n % 2 ^ p ≠ 0) (le : y ≤ units p n)
    (near : units p n - y ≤ x - units p n) : InCell p y n := by
  refine ⟨Or.inl (le.trans_lt (units_lt_middle p n)), ?_⟩
  rintro m rfl
  have next := middle_add p m
  have gaps : (gap p (m + 1) : ℚ) = gap p m := by rw [gap_succ inner]
  rcases cell.below with before | ⟨tie, even⟩
  · rw [middle] at before
    exact Or.inl (by linarith)
  · rw [middle] at tie
    rcases lt_or_eq_of_le (show middle p m ≤ y by linarith) with less | same
    · exact Or.inl less
    · exact Or.inr ⟨same, even⟩

/-- Distances keep their order when everything is divided by a number. -/
theorem abs_sub_div_le {c y a b : ℚ} (positive : 0 < c)
    (near : |y * c - b| ≤ |y * c - a|) : |y - b / c| ≤ |y - a / c| := by
  have back : y * c / c = y := mul_div_cancel_right₀ _ positive.ne'
  have scaled := div_le_div_of_nonneg_right near positive.le
  rwa [← abs_of_pos positive, ← abs_div, ← abs_div, abs_of_pos positive,
    sub_div, sub_div, back] at scaled

theorem nearest_eq_of_between (fine : 0 < p) {low x high : ℚ} {y : Nat}
    (nonneg : 0 ≤ low) (isLow : nearest p low = y) (isHigh : nearest p high = y)
    (above : low ≤ x) (below : x ≤ high) : nearest p x = y := by
  have fromLow := nearest_mono fine nonneg above
  have toHigh := nearest_mono fine (nonneg.trans above) below
  omega

/-- A quotient that is multiplied and divided again is what it was, where the
product is exact or the gaps around the quotient are the same. -/
theorem nearest_div_nearest_mul (fine : 0 < p) {c : ℚ} (positive : 0 < c)
    (a : Nat)
    (steady : (∃ b, (units p b : ℚ) = units p (nearest p (units p a / c)) * c) ∨
      nearest p (units p a / c) % 2 ^ p ≠ 0) :
    nearest p (units p (nearest p
      (units p (nearest p (units p a / c)) * c)) / c) =
        nearest p (units p a / c) := by
  have nonneg : (0 : ℚ) ≤ units p a / c :=
    div_nonneg (Nat.cast_nonneg _) positive.le
  have cell := nearest_inCell fine nonneg
  set y := nearest p (units p a / c) with yDef
  have back : (units p y : ℚ) * c / c = units p y :=
    mul_div_cancel_right₀ _ positive.ne'
  have productNonneg : (0 : ℚ) ≤ units p y * c :=
    mul_nonneg (Nat.cast_nonneg _) positive.le
  have near := abs_sub_div_le positive
    ((nearest_inCell fine productNonneg).abs_sub_le a)
  set b := nearest p (units p y * c) with bDef
  have nonneg' : (0 : ℚ) ≤ units p b / c :=
    div_nonneg (Nat.cast_nonneg _) positive.le
  have whole : nearest p (units p y : Nat) = y := nearest_units fine y
  rcases le_total (units p a / c : ℚ) (units p y) with le | le <;>
    rcases le_total (units p b / c : ℚ) (units p y) with le' | le'
  · rw [abs_of_nonneg (sub_nonneg.mpr le), abs_of_nonneg (sub_nonneg.mpr le')]
      at near
    exact nearest_eq_of_between fine nonneg yDef.symm whole (by linarith) le'
  · rw [abs_of_nonneg (sub_nonneg.mpr le), abs_of_nonpos (sub_nonpos.mpr le')]
      at near
    exact nearest_eq fine nonneg'
      (cell.reflect_above nonneg le' (by linarith))
  · rw [abs_of_nonpos (sub_nonpos.mpr le), abs_of_nonneg (sub_nonneg.mpr le')]
      at near
    rcases steady with ⟨exact, isProduct⟩ | inner
    · rw [bDef, ← isProduct, nearest_units fine, isProduct, back]
      exact whole
    · exact nearest_eq fine nonneg' (cell.reflect_below inner le' (by linarith))
  · rw [abs_of_nonpos (sub_nonpos.mpr le), abs_of_nonpos (sub_nonpos.mpr le')]
      at near
    exact nearest_eq_of_between fine (Nat.cast_nonneg _) whole yDef.symm le'
      (by linarith)

end FloatGrid
