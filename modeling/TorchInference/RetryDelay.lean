import Mathlib.Algebra.Order.Field.Power
import Mathlib.Data.Rat.Floor
import Mathlib.Tactic.Linarith

/-!
# The delay before a retry

The delay grows with the attempt up to the greatest delay, and is spread by a
random part of up to fifteen percent after that, so it can come out above the
greatest delay.  The exponent is an `i32`: it goes up to the attempt `2 ^ 31`
and then starts again from the lowest one.  The numbers are exact rationals,
and the overflow of the subtraction is that of an optimised build.
-/

namespace TorchInference

/-- `std::time::Duration`. -/
structure Duration where
  secs : UInt64
  nanos : Nat
  nanos_lt : nanos < 10 ^ 9

namespace Duration

def toNanos (duration : Duration) : Nat :=
  duration.secs.toNat * 10 ^ 9 + duration.nanos

instance : LE Duration :=
  ⟨fun first second => first.toNanos ≤ second.toNanos⟩

instance : DecidableLE Duration :=
  fun first second => Nat.decLe first.toNanos second.toNanos

def asMillis (duration : Duration) : Nat :=
  duration.secs.toNat * 1000 + duration.nanos / 10 ^ 6

def fromMillis (millis : UInt64) : Duration where
  secs := millis / 1000
  nanos := millis.toNat % 1000 * 10 ^ 6
  nanos_lt := by omega

theorem le_iff (first second : Duration) :
    first ≤ second ↔ first.toNanos ≤ second.toNanos :=
  Iff.rfl

theorem toNanos_fromMillis (millis : UInt64) :
    (fromMillis millis).toNanos = millis.toNat * 10 ^ 6 := by
  have secs : (millis / 1000).toNat = millis.toNat / 1000 :=
    UInt64.toNat_div millis 1000
  change (millis / 1000).toNat * 10 ^ 9 + millis.toNat % 1000 * 10 ^ 6 = _
  rw [secs]
  omega

theorem fromMillis_le_iff (millis : UInt64) (duration : Duration) :
    fromMillis millis ≤ duration ↔ millis.toNat ≤ duration.asMillis := by
  have nanos := duration.nanos_lt
  rw [le_iff, toNanos_fromMillis, toNanos, asMillis]
  omega

theorem fromMillis_le_fromMillis_iff (first second : UInt64) :
    fromMillis first ≤ fromMillis second ↔ first.toNat ≤ second.toNat := by
  rw [le_iff, toNanos_fromMillis, toNanos_fromMillis]
  omega

end Duration

structure RetryPolicy where
  maxRetries : UInt64
  baseDelay : Duration
  maxDelay : Duration
  multiplier : ℚ
  jitter : Bool

/-- `value as u64`, which rounds down and saturates. -/
def asU64 (value : ℚ) : UInt64 :=
  UInt64.ofNat (min ⌊value⌋₊ (2 ^ 64 - 1))

/-- `attempt as i32 - 1`. -/
def retryExponent (attempt : UInt64) : Int32 :=
  Int32.ofNat attempt.toNat - 1

namespace RetryPolicy

def baseMs (policy : RetryPolicy) : Nat :=
  policy.baseDelay.asMillis

def maxMs (policy : RetryPolicy) : Nat :=
  policy.maxDelay.asMillis

def delayMs (policy : RetryPolicy) (exponent : Int) : ℚ :=
  policy.baseMs * policy.multiplier ^ exponent

def cappedMs (policy : RetryPolicy) (exponent : Int) : ℚ :=
  min (policy.delayMs exponent) policy.maxMs

/-- `calculate_delay`, when `draw` is what is drawn for the jitter. -/
def calculateDelay (policy : RetryPolicy) (attempt : UInt64) (draw : ℚ) :
    Duration :=
  let capped := policy.cappedMs (retryExponent attempt).toInt
  .fromMillis (asU64
    (if policy.jitter then max (capped * (1 + draw)) 0 else capped))

/-- The policy has a jitter of fifteen percent, and this is drawn. -/
def Draws (draw : ℚ) : Prop :=
  -(15 / 100) ≤ draw ∧ draw ≤ 15 / 100

/-- When the jitter leaves the delay within the limit: it is too small to show
in milliseconds at the greatest delay, the delay is not there yet, or the limit
is as large as the type. -/
def StaysBelow (policy : RetryPolicy) (attempt : UInt64) (draw : ℚ) : Prop :=
  policy.jitter = false ∨ 2 ^ 64 - 1 ≤ policy.maxMs ∨
    policy.maxMs * draw < 1 ∨
    policy.delayMs (retryExponent attempt).toInt * (1 + draw) < policy.maxMs + 1

/-- The delays before the attempts up to `last` do not decrease. -/
def NonDecreasing (policy : RetryPolicy) (last : UInt64) : Prop :=
  ∀ first second : UInt64, 1 ≤ first → first ≤ second → second ≤ last →
    ∀ draw draw', Draws draw → Draws draw' →
      policy.calculateDelay first draw ≤ policy.calculateDelay second draw'

/-- The delay does not depend on the attempt. -/
def Flat (policy : RetryPolicy) : Prop :=
  policy.baseMs = 0 ∨ policy.multiplier = 1 ∨
    (min policy.maxMs (2 ^ 64 - 1) : Nat) ≤ policy.delayMs (-2 ^ 31)

end RetryPolicy

theorem toNat_asU64 (value : ℚ) :
    (asU64 value).toNat = min ⌊value⌋₊ (2 ^ 64 - 1) := by
  rw [asU64, UInt64.toNat_ofNat_of_lt']
  exact lt_of_le_of_lt (min_le_right _ _) (by decide)

theorem toInt_retryExponent (attempt : UInt64) :
    (retryExponent attempt).toInt =
      ((attempt.toNat : Int) - 1).bmod (2 ^ 32) := by
  rw [retryExponent, Int32.toInt_sub, Int32.toInt_ofNat']
  exact Int.bmod_sub_bmod

/-- Up to the attempt `2 ^ 31` the exponent is the number of attempts made
before. -/
theorem toInt_retryExponent_of_le {attempt : UInt64}
    (low : attempt.toNat ≤ 2 ^ 31) :
    (retryExponent attempt).toInt = attempt.toNat - 1 := by
  rw [toInt_retryExponent, Int.bmod_eq_of_le (by omega) (by omega)]

namespace RetryPolicy

section Limit

variable {policy : RetryPolicy}

theorem delayMs_nonneg (positive : 0 < policy.multiplier) (exponent : Int) :
    0 ≤ policy.delayMs exponent :=
  mul_nonneg (Nat.cast_nonneg _) (zpow_pos positive exponent).le

theorem cappedMs_nonneg (positive : 0 < policy.multiplier) (exponent : Int) :
    0 ≤ policy.cappedMs exponent :=
  le_min (delayMs_nonneg positive exponent) (Nat.cast_nonneg _)

/-- The conversion keeps within a limit exactly when the value is below the
next number or the limit is as large as the type. -/
theorem asU64_le_iff {value : ℚ} (nonneg : 0 ≤ value) (limit : Nat) :
    (asU64 value).toNat ≤ limit ↔
      2 ^ 64 - 1 ≤ limit ∨ value < limit + 1 := by
  rw [toNat_asU64, min_le_iff, ← Nat.lt_succ_iff, Nat.floor_lt nonneg,
    Nat.cast_succ]
  exact Or.comm

/-- A delay stays below the limit exactly when the jitter keeps it there. -/
theorem calculateDelay_le_iff (positive : 0 < policy.multiplier)
    (attempt : UInt64) {draw : ℚ} (draws : Draws draw) :
    policy.calculateDelay attempt draw ≤ policy.maxDelay ↔
      policy.StaysBelow attempt draw := by
  have nonneg := cappedMs_nonneg positive (retryExponent attempt).toInt
  rw [calculateDelay, Duration.fromMillis_le_iff, StaysBelow]
  cases jitters : policy.jitter with
  | false =>
      have below : policy.cappedMs (retryExponent attempt).toInt <
          policy.maxMs + 1 :=
        lt_of_le_of_lt (min_le_right _ _) (lt_add_one _)
      simp only [Bool.false_eq_true, if_false, true_or, iff_true]
      exact (asU64_le_iff nonneg _).mpr (Or.inr below)
  | true =>
      have factor : 0 < 1 + draw := by linarith [draws.1]
      have spread : 0 ≤ policy.cappedMs (retryExponent attempt).toInt *
          (1 + draw) :=
        mul_nonneg nonneg factor.le
      have atLimit : policy.maxMs * (1 + draw) < policy.maxMs + 1 ↔
          policy.maxMs * draw < 1 := by
        constructor <;> intro less <;> linarith
      rw [if_pos rfl, max_eq_left spread]
      simp only [Bool.true_eq_false, false_or]
      refine (asU64_le_iff spread policy.maxMs).trans (or_congr_right ?_)
      rw [cappedMs, min_mul_of_nonneg _ _ factor.le, min_lt_iff, atLimit]
      exact Or.comm

end Limit

section Growth

variable {policy : RetryPolicy}

/-- The milliseconds of a delay without jitter. -/
def plainMs (policy : RetryPolicy) (exponent : Int) : Nat :=
  (asU64 (policy.cappedMs exponent)).toNat

theorem plainMs_eq (policy : RetryPolicy) (exponent : Int) :
    policy.plainMs exponent =
      min (min ⌊policy.delayMs exponent⌋₊ policy.maxMs) (2 ^ 64 - 1) := by
  rw [plainMs, toNat_asU64, cappedMs, Nat.floor_mono.map_min, Nat.floor_natCast]

theorem calculateDelay_le_calculateDelay_iff (plain : policy.jitter = false)
    (first second : UInt64) (draw draw' : ℚ) :
    policy.calculateDelay first draw ≤ policy.calculateDelay second draw' ↔
      policy.plainMs (retryExponent first).toInt ≤
        policy.plainMs (retryExponent second).toInt := by
  rw [calculateDelay, calculateDelay, Duration.fromMillis_le_fromMillis_iff,
    plain]
  rfl

theorem delayMs_mono (grows : 1 ≤ policy.multiplier) {low high : Int}
    (le : low ≤ high) : policy.delayMs low ≤ policy.delayMs high := by
  rw [delayMs, delayMs]
  gcongr

theorem plainMs_mono (grows : 1 ≤ policy.multiplier) {low high : Int}
    (le : low ≤ high) : policy.plainMs low ≤ policy.plainMs high := by
  rw [plainMs_eq, plainMs_eq]
  have floors := Nat.floor_mono (delayMs_mono grows le)
  omega

/-- The delays of a flat policy are all the same. -/
theorem Flat.plainMs_eq (flat : policy.Flat) (grows : 1 ≤ policy.multiplier)
    {exponent : Int} (low : -2 ^ 31 ≤ exponent) :
    policy.plainMs exponent = policy.plainMs (-2 ^ 31) := by
  rcases flat with noBase | one | reached
  · rw [RetryPolicy.plainMs_eq, RetryPolicy.plainMs_eq, delayMs, delayMs, noBase]
    simp
  · rw [RetryPolicy.plainMs_eq, RetryPolicy.plainMs_eq, delayMs, delayMs, one,
      one_zpow, one_zpow]
  · have reaches := Nat.le_floor reached
    have floors := Nat.floor_mono (delayMs_mono grows low)
    rw [RetryPolicy.plainMs_eq, RetryPolicy.plainMs_eq]
    omega

/-- Between the ends of the exponents the delay of other policies grows. -/
theorem plainMs_lt_of_not_flat (notFlat : ¬ policy.Flat)
    (grows : 1 ≤ policy.multiplier) :
    policy.plainMs (-2 ^ 31) < policy.plainMs (2 ^ 31 - 1) := by
  obtain ⟨base, notOne, notReached⟩ :
      policy.baseMs ≠ 0 ∧ policy.multiplier ≠ 1 ∧
        policy.delayMs (-2 ^ 31) < (min policy.maxMs (2 ^ 64 - 1) : Nat) := by
    simpa [Flat, not_or] using notFlat
  have positive : 0 < policy.multiplier := one_pos.trans_le grows
  have basePos : (0 : ℚ) < policy.baseMs := Nat.cast_pos.mpr
    (Nat.pos_of_ne_zero base)
  have strict : 1 < policy.multiplier := lt_of_le_of_ne grows (Ne.symm notOne)
  have small : policy.delayMs (-2 ^ 31) < policy.baseMs :=
    mul_lt_of_lt_one_right basePos (zpow_lt_one_of_neg₀ strict (by decide))
  have large : (policy.baseMs : ℚ) ≤ policy.delayMs (2 ^ 31 - 1) :=
    le_mul_of_one_le_right basePos.le (one_le_zpow₀ grows (by decide))
  have nonneg := delayMs_nonneg positive (-2 ^ 31)
  have low := (Nat.floor_lt nonneg).mpr small
  have high := Nat.le_floor large
  have limit := (Nat.floor_lt nonneg).mpr notReached
  rw [plainMs_eq, plainMs_eq]
  omega

/-- Delays without jitter do not decrease up to the attempt where the exponent
overflows, and further on only if they are all the same. -/
theorem nonDecreasing_iff (plain : policy.jitter = false)
    (grows : 1 ≤ policy.multiplier) (last : UInt64) :
    policy.NonDecreasing last ↔ last.toNat ≤ 2 ^ 31 ∨ policy.Flat := by
  constructor
  · intro rises
    by_contra! neither
    obtain ⟨beyond, notFlat⟩ := neither
    have none : Draws 0 := by norm_num [Draws]
    have highest : (retryExponent (2 ^ 31)).toInt = 2 ^ 31 - 1 := by decide
    have lowest : (retryExponent (2 ^ 31 + 1)).toInt = -2 ^ 31 := by decide
    have atMost : (2 ^ 31 + 1 : UInt64) ≤ last := by
      rw [UInt64.le_iff_toNat_le]
      exact beyond
    have falls := rises (2 ^ 31) (2 ^ 31 + 1) (by decide) (by decide) atMost
      0 0 none none
    rw [calculateDelay_le_calculateDelay_iff plain, highest, lowest] at falls
    exact absurd falls (not_le.mpr (plainMs_lt_of_not_flat notFlat grows))
  · intro holds first second one le atMost draw draw' _ _
    rw [calculateDelay_le_calculateDelay_iff plain]
    rw [UInt64.le_iff_toNat_le] at le atMost
    rcases holds with low | flat
    · rw [toInt_retryExponent_of_le (by omega),
        toInt_retryExponent_of_le (by omega)]
      exact plainMs_mono grows (by omega)
    · rw [flat.plainMs_eq grows (retryExponent first).le_toInt,
        flat.plainMs_eq grows (retryExponent second).le_toInt]

end Growth

/-- The delay of an attempt stays below the greatest delay exactly when the
jitter keeps it there, and delays without jitter do not decrease exactly as
long as the exponent does not overflow, or if they are all the same. -/
theorem delays_asConfigured_iff {policy : RetryPolicy}
    (positive : 0 < policy.multiplier) :
    (∀ attempt draw, Draws draw →
      (policy.calculateDelay attempt draw ≤ policy.maxDelay ↔
        policy.StaysBelow attempt draw)) ∧
    (policy.jitter = false → 1 ≤ policy.multiplier → ∀ last,
      (policy.NonDecreasing last ↔ last.toNat ≤ 2 ^ 31 ∨ policy.Flat)) :=
  ⟨fun attempt _ draws => calculateDelay_le_iff positive attempt draws,
    nonDecreasing_iff⟩

/-- A second that doubles up to five seconds. -/
def doubling (jitter : Bool) : RetryPolicy where
  maxRetries := 10
  baseDelay := ⟨1, 0, by decide⟩
  maxDelay := ⟨5, 0, by decide⟩
  multiplier := 2
  jitter := jitter

theorem doubling_asConfigured_iff :
    (∀ attempt draw, Draws draw →
      ((doubling true).calculateDelay attempt draw ≤ (doubling true).maxDelay ↔
        (doubling true).StaysBelow attempt draw)) ∧
    ((doubling true).jitter = false → 1 ≤ (doubling true).multiplier → ∀ last,
      ((doubling true).NonDecreasing last ↔
        last.toNat ≤ 2 ^ 31 ∨ (doubling true).Flat)) :=
  delays_asConfigured_iff (by decide)

/-- A delay of five seconds is spread beyond them, and behind the attempt
`2 ^ 31` the delays begin again at nothing. -/
theorem doubling_not_asConfigured :
    (¬ ∀ (policy : RetryPolicy) (attempt : UInt64) (draw : ℚ),
      0 < policy.multiplier → 1 ≤ attempt → Draws draw →
        policy.calculateDelay attempt draw ≤ policy.maxDelay) ∧
    ¬ ∀ policy : RetryPolicy, policy.jitter = false →
      1 ≤ policy.multiplier → ∀ last, policy.NonDecreasing last := by
  constructor
  · intro always
    have draws : Draws (15 / 100) := by norm_num [Draws]
    have below := always (doubling true) 10 (15 / 100) (by decide) (by decide)
      draws
    have exponent : (retryExponent 10).toInt = 9 := by decide
    have base : (doubling true).baseMs = 1000 := by decide
    have limit : (doubling true).maxMs = 5000 := by decide
    rw [calculateDelay_le_iff (by decide) 10 draws, StaysBelow, delayMs,
      exponent, base, limit] at below
    norm_num [doubling] at below
  · intro always
    have rises := always (doubling false) rfl (by decide) (2 ^ 31 + 1)
    rw [nonDecreasing_iff rfl (by decide)] at rises
    rcases rises with low | noBase | one | reached
    · exact absurd low (by decide)
    · exact absurd noBase (by decide)
    · exact absurd one (by decide)
    · have base : (doubling false).baseMs = 1000 := by decide
      have limit : min (doubling false).maxMs (2 ^ 64 - 1) = 5000 := by decide
      have small : (1000 : ℚ) * 2 ^ (-2 ^ 31 : Int) < 1000 :=
        mul_lt_of_lt_one_right (by norm_num)
          (zpow_lt_one_of_neg₀ one_lt_two (by decide))
      rw [limit, delayMs, base] at reached
      exact absurd (reached.trans_lt small) (by norm_num)

end RetryPolicy

end TorchInference
