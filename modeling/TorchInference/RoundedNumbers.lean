import TorchInference.SanitizedOutput

/-!
# The numbers of a sanitized output

A double that is not too near to the end of its digits is rounded to decimals
once and for all, by at most half a unit of the last decimal.  Every integer
whose rounded value is finite is replaced by a double.
-/

namespace TorchInference

open Binary64

namespace OutputSanitizer

/-! ## Rounding a double -/

section Rounding

variable {c : ℚ} {negative : Bool} {x power : Fin infinityPattern}

theorem lt_infinityPattern {x : Nat} (small : magnitude x ≤ 2 ^ 74) :
    x < infinityPattern := by
  by_contra! beyond
  have pattern : infinityPattern = 2046 * 2 ^ 52 + 2 ^ 52 := by decide
  have infinite : FloatGrid.units 52 infinityPattern = 2 ^ 52 * 2 ^ 2046 := by
    rw [pattern, FloatGrid.units_add (Or.inr le_rfl) (FloatGrid.two_pow_lt 52)]
  have scaled := mul_le_mul_of_nonneg_right
    ((magnitude_mono beyond).trans small) scale_pos.le
  rw [magnitude_mul_scale, infinite, scale, Nat.cast_mul, Nat.cast_pow,
    Nat.cast_pow, Nat.cast_ofNat, ← pow_add, ← pow_add] at scaled
  exact absurd scaled (not_le.mpr (pow_lt_pow_right₀ one_lt_two (by norm_num)))

theorem whole_lt_infinityPattern {x : Nat} (small : x < infinityPattern) :
    whole x < infinityPattern := by
  rcases le_or_gt (2 ^ 52) (magnitude x) with large | low
  · rwa [whole_of_large large]
  · apply lt_infinityPattern
    have floor := Nat.floor_le
      (show 0 ≤ magnitude x + 1 / 2 by linarith [magnitude_nonneg x])
    rw [magnitude_whole]
    linarith

theorem settle_lt_infinityPattern (factor : IsFactor c) {x : Nat}
    (small : near (magnitude x * c) < infinityPattern) :
    settle c x < infinityPattern := by
  refine lt_of_le_of_lt ?_ (whole_lt_infinityPattern small)
  have quotient := div_le_self
    (magnitude_nonneg (whole (near (magnitude x * c)))) factor.one_le
  have monotone := near_mono
    (div_nonneg (magnitude_nonneg _) factor.pos.le) quotient
  rwa [near_magnitude] at monotone

theorem rounded_eq {value : ℚ} (negative : Bool) {x : Nat}
    (isNear : near value = x) (small : x < infinityPattern) :
    rounded negative value = .finite negative ⟨x, small⟩ := by
  subst isNear
  exact dif_pos small

theorem mul_eq (isFactor : magnitude power = c) {product : Nat}
    (isNear : near (magnitude x * c) = product)
    (small : product < infinityPattern) :
    (Double.finite negative x).mul (.finite false power) =
      .finite negative ⟨product, small⟩ := by
  rw [Double.mul, Bool.xor_false, isFactor]
  exact rounded_eq negative isNear small

theorem round_eq (negative : Bool) (x : Fin infinityPattern) :
    (Double.finite negative x).round =
      .finite negative ⟨whole x, whole_lt_infinityPattern x.isLt⟩ :=
  rounded_eq negative rfl _

theorem div_eq (factor : IsFactor c) (isFactor : magnitude power = c)
    {quotient : Nat} (isNear : near (magnitude x / c) = quotient)
    (small : quotient < infinityPattern) :
    (Double.finite negative x).div (.finite false power) =
      .finite negative ⟨quotient, small⟩ := by
  have notZero : power.val ≠ 0 := by
    intro isZero
    rw [isZero, magnitude_zero] at isFactor
    exact factor.pos.ne isFactor
  rw [Double.div, if_neg notZero, Bool.xor_false, isFactor]
  exact rounded_eq negative isNear small

/-- A number with a finite double is rounded, unless its product with the factor is
infinite. -/
theorem roundWith_eq (factor : IsFactor c)
    (isFactor : magnitude power = c) {n : JsonNumber}
    (isFinite : n.asF64 = .finite negative x) :
    n.roundWith (.finite false power) =
      if near (magnitude x * c) < infinityPattern then
        some (.float (Double.bitsOf negative (settle c x)))
      else none := by
  rw [JsonNumber.roundWith, isFinite]
  by_cases small : near (magnitude x * c) < infinityPattern
  · have quotient : near (magnitude (whole (near (magnitude x * c))) / c) =
        settle c x :=
      rfl
    rw [if_pos small, mul_eq isFactor rfl small, round_eq,
      div_eq (x := ⟨_, whole_lt_infinityPattern small⟩) factor isFactor quotient
        (settle_lt_infinityPattern factor small)]
    rfl
  · have infinite : (Double.finite negative x).mul (.finite false power) =
        .infinite negative := by
      rw [Double.mul, Bool.xor_false, isFactor]
      exact dif_neg small
    rw [if_neg small, infinite]
    rfl

/-- What is not finite is not rounded. -/
theorem roundWith_of_not_finite {factor : Double} {n : JsonNumber}
    (notFinite : ∀ negative x, n.asF64 ≠ .finite negative x)
    (isFinite : factor = .finite false power) : n.roundWith factor = none := by
  subst isFinite
  rw [JsonNumber.roundWith]
  cases double : n.asF64 with
  | finite negative x => exact absurd double (notFinite negative x)
  | infinite negative =>
      rw [Double.mul]
      split <;> rfl
  | nan => rfl

end Rounding

/-! ## Powers of ten -/

/-- The powers of ten that are doubles are computed exactly. -/
def ExactPowers (tenPow : Int32 → Double) : Prop :=
  ∀ decimals ≤ 22, tenPow (Int32.ofNat decimals) = rounded false (10 ^ decimals)

theorem isFactor_tenPow {decimals : Nat} (few : decimals ≤ 22) :
    IsFactor (10 ^ decimals) where
  bits := by
    refine ⟨5 ^ decimals, decimals, ?_, ?_⟩
    · exact (Nat.pow_le_pow_right (by decide) few).trans (by norm_num)
    · rw [Nat.cast_pow, ← mul_pow]
      norm_num
  one_le := one_le_pow₀ (by norm_num)
  normal := by
    have power : (10 : ℚ) ^ decimals ≤ 10 ^ 22 :=
      pow_le_pow_right₀ (by norm_num) few
    have grows : (1 : ℚ) ≤ 2 ^ 948 := one_le_pow₀ one_le_two
    rw [scale_eq (show 126 + 948 = 1074 from rfl)]
    generalize (2 : ℚ) ^ 948 = rest at grows ⊢
    linarith

theorem exists_power {decimals : Nat} (few : decimals ≤ 22) :
    ∃ power : Fin infinityPattern,
      rounded false (10 ^ decimals) = .finite false power ∧
        magnitude power = 10 ^ decimals := by
  obtain ⟨m, e, bits, isProduct⟩ := (isFactor_tenPow few).bits
  obtain ⟨x, isMagnitude⟩ := exists_magnitude_eq bits e
  rw [← isProduct] at isMagnitude
  have bound : (10 : ℚ) ^ decimals ≤ 10 ^ 22 :=
    pow_le_pow_right₀ (by norm_num) few
  have small : x < infinityPattern := by
    apply lt_infinityPattern
    rw [isMagnitude]
    linarith
  refine ⟨⟨x, small⟩, rounded_eq false ?_ small, isMagnitude⟩
  rw [← isMagnitude, near_magnitude]

/-! ## Numbers -/

/-- A double has room for the decimals: its product with the factor has bits for
quarters, or it is an integer already. -/
def HasRoom (decimals : Nat) : JsonNumber → Prop
  | .float bits => decimals ≤ 22 ∧
      (|realValue bits| * 10 ^ decimals ≤ 2 ^ 51 ∨
        2 ^ 52 + 1 ≤ |realValue bits| * 10 ^ decimals)
  | _ => False

section Numbers

variable {tenPow : Int32 → Double} {config : SanitizerOutputConfig}

/-- Numbers are not rounded, this one cannot be rounded to a finite double, or
it has room for the decimals. -/
def RoundsSafely (tenPow : Int32 → Double) (config : SanitizerOutputConfig)
    (n : JsonNumber) : Prop :=
  config.roundProbabilities = false ∨
    n.roundWith (factor tenPow config) = none ∨
    HasRoom config.probabilityDecimals.toNat n

/-- Integers are not rounded, or not to a finite double. -/
def LeavesInteger (tenPow : Int32 → Double) (config : SanitizerOutputConfig) :
    JsonNumber → Prop
  | .float _ => True
  | n => config.roundProbabilities = false ∨
      n.roundWith (factor tenPow config) = none

/-- A number as it should be after sanitizing. -/
def NumberStays (tenPow : Int32 → Double) (config : SanitizerOutputConfig)
    (n : JsonNumber) : Prop :=
  NumberKept config.probabilityDecimals.toNat n
      (sanitizeNumber tenPow config n) ∧
    sanitizeNumber tenPow config (sanitizeNumber tenPow config n) =
      sanitizeNumber tenPow config n

theorem numberKept_refl (decimals : Nat) (n : JsonNumber) :
    NumberKept decimals n n := by
  cases n with
  | posInt value | negInt value => rfl
  | float bits =>
      rw [NumberKept, sub_self, abs_zero]
      positivity

theorem numberStays_of_eq {n : JsonNumber}
    (same : sanitizeNumber tenPow config n = n) :
    NumberStays tenPow config n := by
  rw [NumberStays, same]
  exact ⟨numberKept_refl _ n, same⟩

theorem sanitizeNumber_of_none {n : JsonNumber}
    (refused : n.roundWith (factor tenPow config) = none) :
    sanitizeNumber tenPow config n = n := by
  rw [sanitizeNumber, refused, Option.getD_none, ite_self]

theorem abs_realValue {bits : UInt64} {negative : Bool}
    {x : Fin infinityPattern}
    (isFinite : Double.ofBits bits = .finite negative x) :
    |realValue bits| = magnitude x := by
  rw [realValue, isFinite]
  cases negative with
  | true => exact (abs_neg _).trans (abs_of_nonneg (magnitude_nonneg x))
  | false => exact abs_of_nonneg (magnitude_nonneg x)

theorem abs_realValue_sub {bits out : UInt64} {negative : Bool}
    {x y : Fin infinityPattern}
    (isFinite : Double.ofBits bits = .finite negative x)
    (isFinite' : Double.ofBits out = .finite negative y) :
    |realValue out - realValue bits| = |magnitude y - magnitude x| := by
  rw [realValue, realValue, isFinite, isFinite']
  cases negative with
  | true => exact (congrArg abs (neg_sub_neg _ _)).trans (abs_sub_comm _ _)
  | false => rfl

/-- A double is replaced by its rounding, unless that is infinite. -/
theorem sanitizeNumber_finite (exact : ExactPowers tenPow)
    (rounds : config.roundProbabilities = true)
    (few : config.probabilityDecimals.toNat ≤ 22) {bits : UInt64}
    {negative : Bool} {x : Fin infinityPattern}
    (isFinite : Double.ofBits bits = .finite negative x) :
    sanitizeNumber tenPow config (.float bits) =
      if near (magnitude x * 10 ^ config.probabilityDecimals.toNat) <
          infinityPattern then
        .float (Double.bitsOf negative
          (settle (10 ^ config.probabilityDecimals.toNat) x))
      else .float bits := by
  obtain ⟨power, isPower, isFactor⟩ := exists_power few
  have factor_eq : factor tenPow config = .finite false power :=
    (exact _ few).trans isPower
  rw [sanitizeNumber, rounds, if_pos rfl, factor_eq,
    roundWith_eq (isFactor_tenPow few) isFactor (n := .float bits) isFinite]
  split <;> rfl

theorem sanitizeNumber_not_finite (exact : ExactPowers tenPow)
    (few : config.probabilityDecimals.toNat ≤ 22) {bits : UInt64}
    (notFinite : ∀ negative x, Double.ofBits bits ≠ .finite negative x) :
    sanitizeNumber tenPow config (.float bits) = .float bits := by
  obtain ⟨power, isPower, -⟩ := exists_power few
  have factor_eq : factor tenPow config = .finite false power :=
    (exact _ few).trans isPower
  exact sanitizeNumber_of_none (roundWith_of_not_finite notFinite factor_eq)

/-- A double whose rounding is rounded to itself stays. -/
theorem numberStays_of_settles (exact : ExactPowers tenPow)
    (rounds : config.roundProbabilities = true)
    (few : config.probabilityDecimals.toNat ≤ 22) {bits : UInt64}
    {negative : Bool} {x : Fin infinityPattern}
    (isFinite : Double.ofBits bits = .finite negative x)
    (settles : settle (10 ^ config.probabilityDecimals.toNat)
        (settle (10 ^ config.probabilityDecimals.toNat) x) =
      settle (10 ^ config.probabilityDecimals.toNat) x) :
    NumberStays tenPow config (.float bits) := by
  have first := sanitizeNumber_finite exact rounds few isFinite
  by_cases small : near (magnitude x *
      10 ^ config.probabilityDecimals.toNat) < infinityPattern
  · have close := abs_settle_sub_le (isFactor_tenPow few) x
    have bound := settle_lt_infinityPattern (isFactor_tenPow few) small
    rw [if_pos small] at first
    set y := settle (10 ^ config.probabilityDecimals.toNat) x
    have out := ofBits_bitsOf negative ⟨y, bound⟩
    have again := sanitizeNumber_finite exact rounds few out
    refine ⟨?_, ?_⟩
    · rw [first, NumberKept, abs_realValue_sub isFinite out,
        abs_realValue isFinite, abs_realValue out]
      exact close
    · rw [first, again]
      split
      · rw [settles]
      · rfl
  · rw [if_neg small] at first
    exact numberStays_of_eq first

/-- A double with room for the decimals stays. -/
theorem numberStays_of_hasRoom (exact : ExactPowers tenPow)
    (rounds : config.roundProbabilities = true) {n : JsonNumber}
    (room : HasRoom config.probabilityDecimals.toNat n) :
    NumberStays tenPow config n := by
  cases n with
  | posInt value | negInt value => exact room.elim
  | float bits =>
      obtain ⟨few, room⟩ := room
      cases double : Double.ofBits bits with
      | infinite negative | nan =>
          refine numberStays_of_eq (sanitizeNumber_not_finite exact few ?_)
          intro negative x isFinite
          cases double.symm.trans isFinite
      | finite negative x =>
          rw [abs_realValue double] at room
          exact numberStays_of_settles exact rounds few double
            (room.elim (settle_settle_of_small (isFactor_tenPow few))
              (settle_settle_of_large (isFactor_tenPow few)))

theorem numberStays_of_roundsSafely (exact : ExactPowers tenPow)
    {n : JsonNumber} (safe : RoundsSafely tenPow config n) :
    NumberStays tenPow config n := by
  cases rounds : config.roundProbabilities with
  | false =>
      apply numberStays_of_eq
      rw [sanitizeNumber, rounds, if_neg Bool.false_ne_true]
  | true =>
      rcases safe with off | refused | room
      · rw [rounds] at off
        cases off
      · exact numberStays_of_eq (sanitizeNumber_of_none refused)
      · exact numberStays_of_hasRoom exact rounds room

/-- A number that is rounded is a double. -/
theorem exists_float_of_roundWith {factor : Double} {n m : JsonNumber}
    (isRounded : n.roundWith factor = some m) : ∃ bits, m = .float bits := by
  rw [JsonNumber.roundWith, JsonNumber.fromF64.eq_def] at isRounded
  split at isRounded
  · cases isRounded
    exact ⟨_, rfl⟩
  · cases isRounded

theorem leavesInteger_of_numberStays {n : JsonNumber}
    (stays : NumberStays tenPow config n) : LeavesInteger tenPow config n := by
  have left (isInteger : sanitizeNumber tenPow config n = n)
      (notFloat : ∀ bits, n ≠ .float bits) :
      config.roundProbabilities = false ∨
        n.roundWith (factor tenPow config) = none := by
    rw [sanitizeNumber] at isInteger
    cases rounds : config.roundProbabilities with
    | false => exact Or.inl rfl
    | true =>
        rw [rounds, if_pos rfl] at isInteger
        cases outcome : n.roundWith (factor tenPow config) with
        | none => exact Or.inr rfl
        | some m =>
            obtain ⟨bits, rfl⟩ := exists_float_of_roundWith outcome
            rw [outcome] at isInteger
            exact absurd isInteger.symm (notFloat bits)
  cases n with
  | posInt value | negInt value => exact left stays.1 (by simp)
  | float bits => trivial

end Numbers

/-- Answers whose numbers are rounded safely are kept, and in every answer that
is kept the integers are left. -/
theorem answerKept_of_roundsSafely {tenPow : Int32 → Double}
    (exact : ExactPowers tenPow) (config : SanitizerOutputConfig)
    (output : JsonValue) :
    (AllNumbers config (RoundsSafely tenPow config) output →
      AnswerKept tenPow config output) ∧
    (AnswerKept tenPow config output →
      AllNumbers config (LeavesInteger tenPow config) output) := by
  rw [answerKept_iff]
  exact ⟨AllNumbers.imp fun _ => numberStays_of_roundsSafely exact,
    AllNumbers.imp fun _ => leavesInteger_of_numberStays⟩

/-- The double nearest to a power of ten. -/
def nearestPower (exponent : Int32) : Double :=
  rounded false (10 ^ exponent.toInt)

theorem exactPowers_nearestPower : ExactPowers nearestPower := by
  intro decimals few
  rw [nearestPower, Int32.toInt_ofNat_of_lt (by omega), zpow_natCast]

/-- The default settings. -/
def SanitizerOutputConfig.default : SanitizerOutputConfig := ⟨true, 4, true⟩

/-- A score of one half, beside what is to be dropped. -/
def halfScore : JsonValue :=
  .object [("score", .number (.float 0x3FE0000000000000)),
    ("_seed", .number (.posInt 7)), ("note", .null)]

theorem abs_realValue_half : |realValue 0x3FE0000000000000| = 1 / 2 := by
  have double : Double.ofBits 0x3FE0000000000000 =
      .finite false ⟨1021 * 2 ^ 52 + 2 ^ 52, by decide⟩ := by
    decide
  have positive : (0 : ℚ) < 2 ^ 1021 := by positivity
  rw [abs_realValue double, magnitude, FloatGrid.units_add (Or.inr le_rfl)
    (FloatGrid.two_pow_lt 52), scale_eq (show 1021 + 53 = 1074 from rfl),
    Nat.cast_mul, Nat.cast_pow, Nat.cast_pow, Nat.cast_ofNat,
    mul_comm ((2 : ℚ) ^ 1021), mul_div_mul_right _ _ positive.ne']
  norm_num

theorem halfScore_kept :
    AnswerKept nearestPower SanitizerOutputConfig.default halfScore := by
  refine (answerKept_of_roundsSafely exactPowers_nearestPower _ _).1 ?_
  simp only [halfScore, AllNumbers, AllNumbersBelow]
  refine ⟨Or.inr (Or.inr (Or.inr ⟨by decide, Or.inl ?_⟩)),
    Or.inl (by decide), Or.inl (removes_iff.mp (by decide)), trivial⟩
  rw [abs_realValue_half]
  change 1 / 2 * 10 ^ 4 ≤ _
  norm_num

/-- The integer one becomes a double. -/
theorem integer_not_kept :
    ¬ ∀ tenPow, ExactPowers tenPow → ∀ config output,
      AnswerKept tenPow config output := by
  intro always
  have stays := (answerKept_iff (.number (.posInt 1))).mp
    (always nearestPower exactPowers_nearestPower
      SanitizerOutputConfig.default _)
  obtain ⟨one, isOne, isUnit⟩ := exists_power (Nat.zero_le 22)
  obtain ⟨power, isPower, isFactor⟩ := exists_power (show 4 ≤ 22 by decide)
  have double : (JsonNumber.posInt 1).asF64 = .finite false one := by
    rw [← isOne, pow_zero]
    rfl
  have isRounded := roundWith_eq (isFactor_tenPow (by decide)) isFactor double
  rw [isUnit, pow_zero, one_mul, ← isFactor, near_magnitude,
    if_pos power.isLt, ← isPower,
    ← exactPowers_nearestPower 4 (by decide)] at isRounded
  rcases leavesInteger_of_numberStays stays with off | refused
  · cases off
  · cases refused.symm.trans isRounded

end OutputSanitizer

end TorchInference
