import Mathlib.Algebra.Order.Field.Basic
import Mathlib.Algebra.Order.Field.Rat
import Mathlib.Data.List.Count
import Mathlib.Logic.Function.Iterate
import TorchInference.TokenSampling

/-!
# The repetition penalty as a rule

The rule of the penalty looks at the tokens that occurred, not at how often
they did.  The loop goes over the history instead and penalises a token once
for each of its occurrences.  Arithmetic is exact here.
-/

namespace TorchInference

namespace Sampling

section Arithmetic

variable {α : Type*} [Mul α] [Div α] [LT α] [LE α] [DecidableLT α]
  [DecidableLE α]

/-- What becomes of the logit of a token that occurred. -/
def penalise (zero penalty logit : α) : α :=
  if zero < logit then logit / penalty else logit * penalty

/-- `apply_repetition_penalty` in a given arithmetic. -/
def applyRepetitionPenaltyIn (zero one : α) (logits : List α)
    (history : List Nat) (penalty : α) : List α :=
  if penalty ≤ one then logits
  else
    history.foldl
      (fun logits id => logits.modify id (penalise zero penalty)) logits

end Arithmetic

theorem applyRepetitionPenalty_eq (logits : List Float32)
    (history : List Nat) (penalty : Float32) :
    applyRepetitionPenalty logits history penalty =
      applyRepetitionPenaltyIn 0.0 1.0 logits history penalty :=
  rfl

/-- `id as usize`. -/
def usizeIndex (id : Int64) : Nat :=
  id.toUInt64.toNat

/-- Only the id of the same value is read as an index that a slice can have;
negative ids are read as larger numbers. -/
theorem usizeIndex_eq_iff {id : Int64} {i : Nat} (small : i < 2 ^ 63) :
    usizeIndex id = i ↔ id.toInt = i := by
  have value : id.toInt =
      if 2 * usizeIndex id < 2 ^ 64 then (usizeIndex id : Int)
      else usizeIndex id - 2 ^ 64 :=
    BitVec.toInt_eq_toNat_cond id.toBitVec
  have bound : usizeIndex id < 2 ^ 64 := id.toUInt64.toNat_lt
  rw [value]
  split <;> omega

section Exact

variable {K : Type*} [Field K] [LinearOrder K]

/-- The penalty with exact arithmetic. -/
def exactPenalty (logits : List K) (history : List Int64) (penalty : K) :
    List K :=
  applyRepetitionPenaltyIn 0 1 logits (history.map usizeIndex) penalty

/-- The rule: the logits of the tokens that occurred are penalised once. -/
def penaltyRule (logits : List K) (history : List Int64) (penalty : K) :
    List K :=
  logits.mapIdx fun i logit =>
    if i ∈ history.map usizeIndex then penalise 0 penalty logit else logit

/-- No token with a logit other than zero occurs twice. -/
def NoRepeats (logits : List K) (history : List Int64) : Prop :=
  ∀ i logit, logits[i]? = some logit → logit ≠ 0 →
    (history.map usizeIndex).count i ≤ 1

variable {logits : List K} {penalty : K}

/-- The rule depends on the set of ids only. -/
theorem penaltyRule_congr {first second : List Int64}
    (sameIds : ∀ id, id ∈ first ↔ id ∈ second) :
    penaltyRule logits first penalty = penaltyRule logits second penalty := by
  simp only [penaltyRule, List.mem_map, sameIds]

/-! ## Penalties upon penalties -/

theorem iterate_penalise_zero (n : Nat) :
    (penalise 0 penalty)^[n] (0 : K) = 0 := by
  induction n with
  | zero => rfl
  | succ n ih =>
      rw [Function.iterate_succ_apply]
      simpa [penalise] using ih

variable [IsStrictOrderedRing K]

theorem penalise_lt (strict : 1 < penalty) {logit : K} (nonzero : logit ≠ 0) :
    penalise 0 penalty logit < logit ∧ penalise 0 penalty logit ≠ 0 := by
  have positive : 0 < penalty := zero_lt_one.trans strict
  unfold penalise
  by_cases above : 0 < logit
  · rw [if_pos above]
    exact ⟨div_lt_self above strict, (div_pos above positive).ne'⟩
  · have below : logit < 0 := lt_of_le_of_ne (not_lt.mp above) nonzero
    rw [if_neg above]
    exact ⟨mul_lt_of_one_lt_right below strict,
      (mul_neg_of_neg_of_pos below positive).ne⟩

theorem iterate_penalise_lt (strict : 1 < penalty) {logit : K}
    (nonzero : logit ≠ 0) (n : Nat) :
    (penalise 0 penalty)^[n + 1] logit < logit := by
  induction n generalizing logit with
  | zero => exact (penalise_lt strict nonzero).1
  | succ n ih =>
      rw [Function.iterate_succ_apply]
      obtain ⟨less, nonzero'⟩ := penalise_lt strict nonzero
      exact (ih nonzero').trans less

/-- Penalising a number of times is penalising once only for a zero logit, or
when it happens at most once. -/
theorem iterate_penalise_eq_iff (strict : 1 < penalty) (logit : K) (n : Nat) :
    (penalise 0 penalty)^[n] logit =
        (if 0 < n then penalise 0 penalty logit else logit) ↔
      (logit ≠ 0 → n ≤ 1) := by
  match n with
  | 0 => simp
  | 1 => simp
  | n + 2 =>
      by_cases isZero : logit = 0
      · subst isZero
        rw [iterate_penalise_zero]
        simp [penalise]
      · obtain ⟨-, nonzero⟩ := penalise_lt strict isZero
        rw [Function.iterate_succ_apply]
        refine iff_of_false ?_ ?_
        · simpa using (iterate_penalise_lt strict nonzero n).ne
        · intro few
          exact absurd (few isZero) (by omega)

/-! ## The loop and the rule -/

/-- Each occurrence of an id penalises its logit once more. -/
theorem getElem?_foldl_modify {α : Type*} (change : α → α)
    (history : List Nat) (entries : List α) (i : Nat) :
    (history.foldl (fun entries id => entries.modify id change)
        entries)[i]? =
      entries[i]?.map change^[history.count i] := by
  induction history generalizing entries with
  | nil => simp
  | cons id history ih =>
      rw [List.foldl_cons, ih, List.getElem?_modify, List.count_cons]
      by_cases same : id = i
      · subst same
        simp [Function.iterate_succ]
      · simp [same]

theorem exactPenalty_eq_rule_iff (strict : 1 < penalty)
    (history : List Int64) :
    exactPenalty logits history penalty =
        penaltyRule logits history penalty ↔
      NoRepeats logits history := by
  have loops : exactPenalty logits history penalty =
      (history.map usizeIndex).foldl
        (fun logits id => logits.modify id (penalise 0 penalty)) logits :=
    if_neg (not_le.mpr strict)
  rw [loops, List.ext_getElem?_iff]
  refine forall_congr' fun i => ?_
  rw [getElem?_foldl_modify, penaltyRule, List.getElem?_mapIdx]
  cases found : logits[i]? with
  | none => simp
  | some logit =>
      simp only [Option.map_some, Option.some.injEq, forall_eq']
      rw [← iterate_penalise_eq_iff strict]
      simp only [List.count_pos_iff]

/-- Two histories of the same ids give the logits of the rule exactly when no
token with a logit other than zero occurs twice in either of them. -/
theorem exactPenalty_dependsOnIds_iff (strict : 1 < penalty)
    {first second : List Int64}
    (sameIds : ∀ id, id ∈ first ↔ id ∈ second) :
    (exactPenalty logits first penalty = exactPenalty logits second penalty ∧
        exactPenalty logits first penalty =
          penaltyRule logits first penalty) ↔
      NoRepeats logits first ∧ NoRepeats logits second := by
  rw [← exactPenalty_eq_rule_iff strict, ← exactPenalty_eq_rule_iff strict,
    ← penaltyRule_congr sameIds]
  constructor
  · rintro ⟨same, isRule⟩
    exact ⟨isRule, same.symm.trans isRule⟩
  · rintro ⟨isRule, isRule'⟩
    exact ⟨isRule.trans isRule'.symm, isRule⟩

end Exact

/-- Two orders of the same two tokens. -/
theorem twoOrders_dependOnIds :
    (1 : Rat) < 2 ∧
      ((exactPenalty ([3, -1] : List Rat) [0, 1] 2 =
            exactPenalty ([3, -1] : List Rat) [1, 0] 2 ∧
          exactPenalty ([3, -1] : List Rat) [0, 1] 2 =
            penaltyRule ([3, -1] : List Rat) [0, 1] 2) ↔
        NoRepeats ([3, -1] : List Rat) [0, 1] ∧
          NoRepeats ([3, -1] : List Rat) [1, 0]) :=
  ⟨by decide, exactPenalty_dependsOnIds_iff (by decide) (by
    intro id
    simp [or_comm])⟩

/-- The token that occurs twice is penalised twice. -/
theorem repeatedToken_penalised_twice :
    (∀ id : Int64, id ∈ [0] ↔ id ∈ [0, 0]) ∧
      exactPenalty ([4] : List Rat) [0] 2 = [2] ∧
      exactPenalty ([4] : List Rat) [0, 0] 2 = [1] ∧
      penaltyRule ([4] : List Rat) [0, 0] 2 = [2] :=
  ⟨by simp, by decide +kernel, by decide +kernel, by decide +kernel⟩

end Sampling

end TorchInference
