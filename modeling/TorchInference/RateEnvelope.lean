import Mathlib.Algebra.BigOperators.Group.List.Basic
import Mathlib.Algebra.Order.Field.Basic
import Mathlib.Data.List.Chain
import Mathlib.Tactic.Linarith
import Mathlib.Tactic.Ring

/-!
# Spending against a level that refills

A meter is read now and then: each reading has a time, the amount spent at it
and the level that is left.  Between two readings the level grows at most at a
given rate.  When a level is never negative and never above the burst, what is
spent within any interval stays below the burst and what the interval refills.
-/

namespace RateEnvelope

variable {K : Type*} [Field K] [LinearOrder K]

/-- A time, what was spent at it, and the level afterwards. -/
structure Reading (K : Type*) where
  time : K
  spent : K
  level : K

/-- The second reading is not earlier, and its level is paid for by the first
one and the time between them. -/
def Follows (rate : K) (first second : Reading K) : Prop :=
  first.time ≤ second.time ∧
    second.level + second.spent ≤
      first.level + rate * (second.time - first.time)

/-- A reading of a meter with the given burst. -/
structure Within (burst : K) (reading : Reading K) : Prop where
  spent_nonneg : 0 ≤ reading.spent
  level_nonneg : 0 ≤ reading.level
  le_burst : reading.level + reading.spent ≤ burst

/-- What was spent from one time to another. -/
def spentBetween (earliest latest : K) (readings : List (Reading K)) : K :=
  ((readings.filter fun reading =>
    earliest ≤ reading.time ∧ reading.time ≤ latest).map Reading.spent).sum

theorem spentBetween_cons (earliest latest : K) (reading : Reading K)
    (readings : List (Reading K)) :
    spentBetween earliest latest (reading :: readings) =
      (if earliest ≤ reading.time ∧ reading.time ≤ latest
        then reading.spent else 0) +
      spentBetween earliest latest readings := by
  simp only [spentBetween, List.filter_cons, decide_eq_true_eq]
  split_ifs with inside
  · rw [List.map_cons, List.sum_cons]
  · rw [zero_add]

variable {rate burst : K}

/-- Nothing is spent before the first reading. -/
theorem spentBetween_of_later {earliest latest : K} {first : Reading K}
    {readings : List (Reading K)}
    (chain : List.IsChain (Follows rate) (first :: readings))
    (later : latest < first.time) :
    spentBetween earliest latest (first :: readings) = 0 := by
  induction readings generalizing first with
  | nil =>
      rw [spentBetween_cons, if_neg fun inside => not_le.mpr later inside.2]
      exact add_zero 0
  | cons second readings ih =>
      rw [List.isChain_cons_cons] at chain
      rw [spentBetween_cons, if_neg fun inside => not_le.mpr later inside.2,
        zero_add]
      exact ih chain.2 (lt_of_lt_of_le later chain.1.1)

variable [IsStrictOrderedRing K]

/-- After a reading, no more is spent than its level and what is refilled. -/
theorem spentBetween_le_level (earliest : K) {latest : K}
    {first : Reading K} {readings : List (Reading K)}
    (chain : List.IsChain (Follows rate) (first :: readings))
    (within : ∀ reading ∈ first :: readings, Within burst reading)
    (positive : 0 ≤ rate) (before : first.time ≤ latest) :
    spentBetween earliest latest readings ≤
      first.level + rate * (latest - first.time) := by
  induction readings generalizing first with
  | nil =>
      have refilled : 0 ≤ rate * (latest - first.time) :=
        mul_nonneg positive (sub_nonneg.mpr before)
      have level := (within first List.mem_cons_self).level_nonneg
      change (0 : K) ≤ _
      exact add_nonneg level refilled
  | cons second readings ih =>
      have follows := (List.isChain_cons_cons.mp chain).1
      have tail := (List.isChain_cons_cons.mp chain).2
      have withinTail : ∀ reading ∈ second :: readings,
          Within burst reading :=
        fun reading member => within reading (List.mem_cons_of_mem _ member)
      by_cases inTime : second.time ≤ latest
      · have rest := ih tail withinTail inTime
        have spent := (withinTail second List.mem_cons_self).spent_nonneg
        have here : (if earliest ≤ second.time ∧ second.time ≤ latest
            then second.spent else 0) ≤ second.spent := by
          split_ifs
          · exact le_refl _
          · exact spent
        have paid := follows.2
        rw [spentBetween_cons]
        calc
          _ ≤ second.spent +
              (second.level + rate * (latest - second.time)) :=
            add_le_add here rest
          _ ≤ first.level + rate * (second.time - first.time) +
              rate * (latest - second.time) := by linarith
          _ = first.level + rate * (latest - first.time) := by ring
      · rw [spentBetween_of_later tail (not_le.mp inTime)]
        have refilled : 0 ≤ rate * (latest - first.time) :=
          mul_nonneg positive (sub_nonneg.mpr before)
        have level := (within first List.mem_cons_self).level_nonneg
        exact add_nonneg level refilled

/-- What is spent within an interval is at most the burst and what the
interval refills. -/
theorem spentBetween_le {earliest latest : K} {readings : List (Reading K)}
    (chain : List.IsChain (Follows rate) readings)
    (within : ∀ reading ∈ readings, Within burst reading)
    (positive : 0 ≤ rate) (ordered : earliest ≤ latest)
    (nonneg : 0 ≤ burst) :
    spentBetween earliest latest readings ≤
      burst + rate * (latest - earliest) := by
  have refilled : 0 ≤ rate * (latest - earliest) :=
    mul_nonneg positive (sub_nonneg.mpr ordered)
  induction readings with
  | nil => exact add_nonneg nonneg refilled
  | cons first readings ih =>
      have tail : ∀ reading ∈ readings, Within burst reading :=
        fun reading member => within reading (List.mem_cons_of_mem _ member)
      rw [spentBetween_cons]
      by_cases inside : earliest ≤ first.time ∧ first.time ≤ latest
      · rw [if_pos inside]
        have rest := spentBetween_le_level earliest chain within positive
          inside.2
        have bound := (within first List.mem_cons_self).le_burst
        have shorter : rate * (latest - first.time) ≤
            rate * (latest - earliest) :=
          mul_le_mul_of_nonneg_left (by linarith [inside.1]) positive
        linarith
      · rw [if_neg inside, zero_add]
        exact ih chain.tail tail

/-! ## Refilling -/

/-- The level after a time in which nothing is spent. -/
def refill (rate burst level elapsed : K) : K :=
  min (level + rate * elapsed) burst

/-- Refilling in two parts is refilling at once. -/
theorem refill_refill (positive : 0 ≤ rate) (level first : K) {second : K}
    (nonneg : 0 ≤ second) :
    refill rate burst (refill rate burst level first) second =
      refill rate burst level (first + second) := by
  have grows : burst ≤ burst + rate * second :=
    le_add_of_nonneg_right (mul_nonneg positive nonneg)
  simp only [refill]
  rw [← min_add_add_right, min_assoc, min_eq_right grows, mul_add, add_assoc]

omit [IsStrictOrderedRing K] in
/-- What the refill is enough for is there unless it is more than the burst. -/
theorem le_refill_iff {level elapsed amount : K}
    (enough : amount ≤ level + rate * elapsed) :
    amount ≤ refill rate burst level elapsed ↔ amount ≤ burst := by
  rw [refill, le_min_iff, and_iff_right enough]

end RateEnvelope
