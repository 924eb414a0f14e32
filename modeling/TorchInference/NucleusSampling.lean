import Mathlib.Algebra.BigOperators.Group.List.Basic
import Mathlib.Algebra.BigOperators.Ring.List
import Mathlib.Algebra.Order.BigOperators.Group.List
import Mathlib.Algebra.Order.Field.Basic
import Mathlib.Algebra.Order.Field.Rat
import Mathlib.Data.List.Nodup
import Mathlib.Data.Nat.Cast.Order.Ring
import Mathlib.Tactic.Linarith
import TorchInference.TokenSampling

/-!
# The tokens that can be drawn

The list of tokens is cut to the largest ones and once more to the shortest
beginning whose probabilities come to `topP`, and one of those that are left
is drawn.  Where rounding keeps the last running sum below the draw, the code
takes the last token of the longer list instead, which the second cut may have
taken away.
-/

namespace TorchInference

namespace Sampling

/-! ## Sampling in a given arithmetic -/

/-- Constants, the exponential, and what becomes of the running sums of the
two loops at each step. -/
structure Arithmetic (α : Type*) where
  zero : α
  lowest : α
  highest : α
  exp : α → α
  roundCum : Nat → α → α
  roundAcc : Nat → α → α

section Loops

variable {α : Type*} [Add α] [Sub α] [Div α] [LT α] [LE α] [DecidableLT α]
  [DecidableLE α]

/-- The values that a running sum takes. -/
def runningSums (round : Nat → α → α) : Nat → α → List α → List α
  | _, _, [] => []
  | i, sum, p :: probs =>
      round i (sum + p) :: runningSums round (i + 1) (round i (sum + p)) probs

def keepLengthIn (round : Nat → α → α) (topP : α) :
    Nat → α → List α → Nat
  | _, _, [] => 0
  | i, cum, p :: probs =>
      if topP ≤ round i (cum + p) then 1
      else keepLengthIn round topP (i + 1) (round i (cum + p)) probs + 1

def chooseIn (round : Nat → α → α) (r : α) :
    Nat → α → List (Nat × α) → Option Nat
  | _, _, [] => none
  | i, acc, (token, p) :: rest =>
      if r ≤ round i (acc + p) then some token
      else chooseIn round r (i + 1) (round i (acc + p)) rest

def clampIn (arithmetic : Arithmetic α) (temperature : α) : α :=
  if temperature < arithmetic.lowest then arithmetic.lowest
  else if arithmetic.highest < temperature then arithmetic.highest
  else temperature

/-- The choice among the tokens that are left by the first cut. -/
def drawToken (arithmetic : Arithmetic α) (draw topP largest : α)
    (sorted : List (Nat × α)) : Option Nat :=
  let weights := sorted.map fun entry => arithmetic.exp (entry.2 - largest)
  let sum := weights.foldl (· + ·) arithmetic.zero
  let probs := weights.map (· / sum)
  let kept := probs.take
    (keepLengthIn arithmetic.roundCum topP 0 arithmetic.zero probs)
  let renorm := kept.foldl (· + ·) arithmetic.zero
  match chooseIn arithmetic.roundAcc draw 0 arithmetic.zero
      ((sorted.map Prod.fst).zip (kept.map (· / renorm))) with
  | some token => some token
  | none => (sorted.map Prod.fst).getLast?

/-- `sample` for a temperature above zero. -/
def sampleIn (arithmetic : Arithmetic α) (draw : α) (logits : List α)
    (temperature : α) (topK : Nat) (topP : α) : Option Nat :=
  let t := clampIn arithmetic temperature
  let indexed := logits.zipIdx.map fun entry => (entry.2, entry.1 / t)
  let sorted := (indexed.mergeSort fun a b => !decide (a.2 < b.2)).take
    (max topK 1)
  match sorted with
  | [] => none
  | (_, largest) :: _ => drawToken arithmetic draw topP largest sorted

end Loops

/-- The arithmetic of the machine, where every sum is rounded as it is
made. -/
def machineArithmetic : Arithmetic Float32 where
  zero := 0.0
  lowest := 0.01
  highest := 2.0
  exp := Float32.exp
  roundCum := fun _ sum => sum
  roundAcc := fun _ sum => sum

theorem keepLength_eq (topP cum : Float32) (probs : List Float32) (i : Nat) :
    keepLength topP cum probs =
      keepLengthIn (fun _ sum => sum) topP i cum probs := by
  induction probs generalizing cum i with
  | nil => rfl
  | cons p probs ih => rw [keepLength, keepLengthIn, ih]

theorem choose_eq (r acc : Float32) (entries : List (Nat × Float32))
    (i : Nat) :
    choose r acc entries = chooseIn (fun _ sum => sum) r i acc entries := by
  induction entries generalizing acc i with
  | nil => rfl
  | cons entry entries ih => rw [choose, chooseIn, ih]

theorem sample_eq_sampleIn {temperature : Float32}
    (warm : ¬ temperature ≤ 0.0) (draw : Float32) (logits : List Float32)
    (topK : Nat) (topP : Float32) :
    sample draw logits temperature topK topP =
      sampleIn machineArithmetic draw logits temperature topK topP := by
  have clamped : clampIn machineArithmetic temperature =
      clampTemperature temperature :=
    rfl
  unfold sample sampleIn
  rw [if_neg warm, clamped]
  dsimp only
  generalize List.take (max topK 1) (List.mergeSort _ _) = sorted
  cases sorted with
  | nil => rfl
  | cons first rest =>
      dsimp only
      rw [keepLength_eq topP _ _ 0, choose_eq draw _ _ 0]
      rfl

/-- Without rounding the running sums are the sums of the beginnings. -/
theorem getElem?_runningSums_of_exact {α : Type*} [AddMonoid α]
    {round : Nat → α → α}
    (exact : ∀ i sum, round i sum = sum) (i : Nat) (sum : α)
    (probs : List α) {n : Nat} (inside : n < probs.length) :
    (runningSums round i sum probs)[n]? =
      some (sum + (probs.take (n + 1)).sum) := by
  induction probs generalizing i sum n with
  | nil => exact absurd inside (Nat.not_lt_zero n)
  | cons p probs ih =>
      rw [runningSums, exact]
      cases n with
      | zero => simp
      | succ n =>
          rw [List.length_cons, Nat.add_lt_add_iff_right] at inside
          rw [List.getElem?_cons_succ, ih _ _ inside, List.take_succ_cons,
            List.sum_cons, add_assoc]

/-- Numbering the logits and then scaling them. -/
theorem zipIdx_map_eq {K : Type*} [Field K] (logits : List K) (t : K) :
    (logits.zipIdx.map fun entry => (entry.2, entry.1 / t)) =
      (List.range logits.length).map fun i => (i, logits.getD i 0 / t) := by
  apply List.ext_getElem
  · simp
  · intro n left right
    have inside : n < logits.length := by simpa using left
    simp [List.getD_eq_getElem?_getD, inside]

section Exact

variable {K : Type*} [Field K] [LinearOrder K]

/-- Exact arithmetic, except for the two running sums. -/
def exactArithmetic (exp : K → K) (roundCum roundAcc : Nat → K → K) :
    Arithmetic K where
  zero := 0
  lowest := 1 / 100
  highest := 2
  exp := exp
  roundCum := roundCum
  roundAcc := roundAcc

/-- The tokens from the largest logit to the smallest; with equal logits there
is no such order. -/
def Descends (logits : List K) (order : List Nat) : Prop :=
  order.Perm (List.range logits.length) ∧
    order.Pairwise fun i j => logits.getD j 0 < logits.getD i 0

instance decidableDescends (logits : List K) (order : List Nat) :
    Decidable (Descends logits order) :=
  inferInstanceAs (Decidable (_ ∧ _))

/-- The probabilities of some tokens, the first of which has the largest
logit. -/
def probabilities (exp : K → K) (t : K) (logits : List K)
    (tokens : List Nat) : List K :=
  let weights := tokens.map fun i =>
    exp (logits.getD i 0 / t - logits.getD (tokens.headD 0) 0 / t)
  weights.map (· / weights.sum)

/-- The place belongs to the shortest beginning that comes to `topP`: no
shorter one that has a token does. -/
def InNucleus (topP : K) (probs : List K) (n : Nat) : Prop :=
  n < probs.length ∧ ∀ j < n, (probs.take (j + 1)).sum < topP

/-- A call of `sample`: how its running sums are rounded, what is drawn, and
its arguments other than the logits. -/
structure SampleCall (K : Type*) where
  exp : K → K
  roundCum : Nat → K → K
  roundAcc : Nat → K → K
  draw : K
  temperature : K
  topK : Nat
  topP : K

namespace SampleCall

variable (call : SampleCall K)

def arithmetic : Arithmetic K :=
  exactArithmetic call.exp call.roundCum call.roundAcc

def sample (logits : List K) : Option Nat :=
  sampleIn call.arithmetic call.draw logits call.temperature call.topK
    call.topP

/-- The probabilities of the `topK` tokens. -/
def topProbabilities (logits : List K) (order : List Nat) : List K :=
  probabilities call.exp (clampIn call.arithmetic call.temperature) logits
    (order.take (max call.topK 1))

/-- The probabilities that the draw is compared with. -/
def renormalised (probs : List K) : List K :=
  let kept := probs.take (keepLengthIn call.roundCum call.topP 0 0 probs)
  kept.map (· / kept.sum)

/-- The running sums that are compared with the draw. -/
def drawnSums (probs : List K) : List K :=
  runningSums call.roundAcc 0 0 (call.renormalised probs)

/-- The token drawn is one of the `topK` largest, and of the shortest
beginning of these that comes to `topP`. -/
def DrawsFromNucleus (logits : List K) (order : List Nat) : Prop :=
  ∃ n token, call.sample logits = some token ∧ order[n]? = some token ∧
    n < max call.topK 1 ∧
    InNucleus call.topP (call.topProbabilities logits order) n

/-- A running sum reaches the draw within the nucleus. -/
def ReachesDraw (probs : List K) : Prop :=
  ∃ n sum, InNucleus call.topP probs n ∧
    (call.drawnSums probs)[n]? = some sum ∧ call.draw ≤ sum

end SampleCall

/-! ## The loops -/

theorem lt_keepLengthIn_iff (round : Nat → K → K) (topP : K) (i : Nat)
    (cum : K) (probs : List K) (n : Nat) :
    n < keepLengthIn round topP i cum probs ↔
      n < probs.length ∧ ∀ j < n, ∀ sum,
        (runningSums round i cum probs)[j]? = some sum → sum < topP := by
  induction probs generalizing i cum n with
  | nil => simp [keepLengthIn]
  | cons p probs ih =>
      rw [keepLengthIn, runningSums]
      by_cases reached : topP ≤ round i (cum + p)
      · rw [if_pos reached]
        constructor
        · intro isFirst
          refine ⟨by rw [List.length_cons]; omega, fun j earlier => ?_⟩
          omega
        · rintro ⟨-, below⟩
          by_contra later
          exact absurd (below 0 (by omega) _ rfl) (not_lt.mpr reached)
      · rw [if_neg reached]
        cases n with
        | zero => simp
        | succ n =>
            rw [Nat.add_lt_add_iff_right, ih, List.length_cons,
              Nat.add_lt_add_iff_right]
            refine and_congr_right fun _ => ⟨fun below j earlier sum found => ?_,
              fun below j earlier sum found => ?_⟩
            · cases j with
              | zero =>
                  obtain rfl := Option.some.inj found
                  exact not_le.mp reached
              | succ j => exact below j (by omega) sum found
            · exact below (j + 1) (by omega) sum found

/-- The first running sum that the draw does not exceed chooses the token. -/
theorem chooseIn_zip (round : Nat → K → K) (r : K) (i : Nat) (acc : K)
    {tokens : List Nat} {probs : List K}
    (enough : probs.length ≤ tokens.length) :
    match chooseIn round r i acc (tokens.zip probs) with
    | some token => ∃ (n : Nat) (sum : K), tokens[n]? = some token ∧
        (runningSums round i acc probs)[n]? = some sum ∧ r ≤ sum ∧
        ∀ j < n, ∀ sum, (runningSums round i acc probs)[j]? = some sum →
          sum < r
    | none => ∀ (n : Nat) sum,
        (runningSums round i acc probs)[n]? = some sum →
        sum < r := by
  induction probs generalizing i acc tokens with
  | nil => simp [chooseIn, runningSums]
  | cons p probs ih =>
      cases tokens with
      | nil => simp at enough
      | cons token tokens =>
          rw [List.zip_cons_cons, chooseIn, runningSums]
          by_cases reached : r ≤ round i (acc + p)
          · rw [if_pos reached]
            exact ⟨0, _, rfl, rfl, reached, fun j earlier => by omega⟩
          · rw [if_neg reached]
            have later := ih (i + 1) (round i (acc + p))
              (Nat.le_of_succ_le_succ enough)
            cases chosen : chooseIn round r (i + 1) (round i (acc + p))
                (tokens.zip probs) with
            | none =>
                rw [chosen] at later
                intro n sum found
                cases n with
                | zero =>
                    obtain rfl := Option.some.inj found
                    exact not_le.mp reached
                | succ n => exact later n sum found
            | some chosenToken =>
                rw [chosen] at later
                obtain ⟨n, sum, isToken, found, fits, below⟩ := later
                refine ⟨n + 1, sum, isToken, found, fits, ?_⟩
                intro j earlier sum found
                cases j with
                | zero =>
                    obtain rfl := Option.some.inj found
                    exact not_le.mp reached
                | succ j => exact below j (by omega) sum found

/-! ## Sorting and cutting -/

theorem InNucleus.earlier {topP : K} {probs : List K} {m n : Nat}
    (inside : InNucleus topP probs n) (earlier : m ≤ n) :
    InNucleus topP probs m :=
  ⟨earlier.trans_lt inside.1, fun j before =>
    inside.2 j (before.trans_le earlier)⟩

theorem SampleCall.length_topProbabilities (call : SampleCall K)
    (logits : List K) (order : List Nat) :
    (call.topProbabilities logits order).length =
      (order.take (max call.topK 1)).length := by
  simp [topProbabilities, probabilities]

variable [IsStrictOrderedRing K] {logits : List K} {order : List Nat}

/-- Sorting brings the tokens into the descending order. -/
theorem mergeSort_eq_of_descends (descends : Descends logits order) {t : K}
    (positive : 0 < t) :
    ((logits.zipIdx.map fun entry => (entry.2, entry.1 / t)).mergeSort
        fun a b => !decide (a.2 < b.2)) =
      order.map fun i => (i, logits.getD i 0 / t) := by
  obtain ⟨isPerm, sorted⟩ := descends
  have scaled : (order.map fun i => (i, logits.getD i 0 / t)).Pairwise
      fun a b => b.2 < a.2 :=
    List.pairwise_map.mpr (sorted.imp fun less =>
      (div_lt_div_iff_of_pos_right positive).mpr less)
  have permuted : ((logits.zipIdx.map fun entry =>
      (entry.2, entry.1 / t)).mergeSort
        fun a b => !decide (a.2 < b.2)).Perm
      (order.map fun i => (i, logits.getD i 0 / t)) := by
    refine (List.mergeSort_perm _ _).trans ?_
    rw [zipIdx_map_eq]
    exact (isPerm.map _).symm
  have descending := @List.pairwise_mergeSort _
    (fun a b : Nat × K => !decide (a.2 < b.2))
    (fun a b c => by simpa using fun ab bc => bc.trans ab)
    (fun a b => by simpa using le_total b.2 a.2)
    (logits.zipIdx.map fun entry => (entry.2, entry.1 / t))
  have apart : ((order.map fun i => (i, logits.getD i 0 / t)).map
      Prod.snd).Nodup :=
    List.pairwise_map.mpr (scaled.imp fun less => less.ne')
  refine List.Perm.eq_of_pairwise ?_ descending
    (scaled.imp fun less => by simpa using less.le) permuted
  intro a b memberA memberB ab ba
  exact List.inj_on_of_nodup_map apart (permuted.mem_iff.mp memberA) memberB
    (le_antisymm (by simpa using ba) (by simpa using ab))

namespace SampleCall

variable (call : SampleCall K)

theorem clampIn_pos (temperature : K) :
    0 < clampIn call.arithmetic temperature := by
  have lowest : (0 : K) < 1 / 100 := one_div_pos.mpr Nat.ofNat_pos
  unfold clampIn
  split_ifs with low high
  · exact lowest
  · exact zero_lt_two
  · exact lowest.trans_le (not_lt.mp low)

/-- The second cut and the draw, on the tokens in their order. -/
theorem sample_eq (nonempty : order ≠ []) (descends : Descends logits order) :
    call.sample logits =
      match chooseIn call.roundAcc call.draw 0 0
          ((order.take (max call.topK 1)).zip
            (call.renormalised (call.topProbabilities logits order))) with
      | some token => some token
      | none => (order.take (max call.topK 1)).getLast? := by
  have firsts : ∀ tokens : List Nat, (tokens.map fun i =>
      (i, logits.getD i 0 / clampIn call.arithmetic call.temperature)).map
        Prod.fst = tokens := by
    intro tokens
    rw [List.map_map]
    exact List.map_id tokens
  rw [sample, sampleIn, mergeSort_eq_of_descends descends
    (call.clampIn_pos call.temperature), ← List.map_take]
  cases top : order.take (max call.topK 1) with
  | nil =>
      rcases List.take_eq_nil_iff.mp top with isZero | isNil
      · omega
      · exact absurd isNil nonempty
  | cons first rest =>
      change drawToken _ call.draw call.topP (logits.getD first 0 / _)
        ((first :: rest).map _) = _
      rw [drawToken]
      simp only [firsts, List.map_map, topProbabilities, top, probabilities,
        renormalised, List.sum_eq_foldl]
      rfl

/-- A token is drawn where a running sum first reaches the draw, or else it is
the last of those that the first cut leaves. -/
theorem sample_cases (nonempty : order ≠ [])
    (descends : Descends logits order) :
    ∃ (n : Nat) (token : Nat), call.sample logits = some token ∧
      (order.take (max call.topK 1))[n]? = some token ∧
      ((∃ sum, (call.drawnSums
            (call.topProbabilities logits order))[n]? = some sum ∧
          call.draw ≤ sum ∧
          ∀ j < n, ∀ sum, (call.drawnSums
            (call.topProbabilities logits order))[j]? = some sum →
              sum < call.draw) ∨
        (n + 1 = (call.topProbabilities logits order).length ∧
          ∀ (j : Nat) sum, (call.drawnSums
            (call.topProbabilities logits order))[j]? = some sum →
              sum < call.draw)) := by
  have length := call.length_topProbabilities logits order
  have enough : (call.renormalised
        (call.topProbabilities logits order)).length ≤
      (order.take (max call.topK 1)).length := by
    rw [← length]
    simp [renormalised]
  have chosen := chooseIn_zip call.roundAcc call.draw 0 0 enough
  rw [call.sample_eq nonempty descends]
  cases choice : chooseIn call.roundAcc call.draw 0 0
      ((order.take (max call.topK 1)).zip
        (call.renormalised (call.topProbabilities logits order))) with
  | some token =>
      rw [choice] at chosen
      obtain ⟨n, sum, isToken, found, fits, below⟩ := chosen
      exact ⟨n, token, rfl, isToken, Or.inl ⟨sum, found, fits, below⟩⟩
  | none =>
      rw [choice] at chosen
      have positive : 0 < (order.take (max call.topK 1)).length := by
        rw [List.length_take]
        have := List.length_pos_iff.mpr nonempty
        omega
      have last : (order.take (max call.topK 1))[(order.take
            (max call.topK 1)).length - 1]? =
          some ((order.take (max call.topK 1))[(order.take
            (max call.topK 1)).length - 1]) :=
        List.getElem?_eq_getElem (by omega)
      refine ⟨_, _, ?_, last, Or.inr ⟨by omega, chosen⟩⟩
      rw [List.getLast?_eq_getElem?, last]

/-- The token drawn is always one of the `topK` largest.  It is one of the
nucleus exactly when a running sum reaches the draw within the nucleus, or the
nucleus is all of these tokens. -/
theorem drawsFromNucleus_iff (nonempty : logits ≠ [])
    (descends : Descends logits order) :
    ((∃ n token, call.sample logits = some token ∧
        order[n]? = some token ∧ n < max call.topK 1) ∧
      (call.DrawsFromNucleus logits order ↔
        call.ReachesDraw (call.topProbabilities logits order) ∨
          InNucleus call.topP (call.topProbabilities logits order)
            ((call.topProbabilities logits order).length - 1))) := by
  have someToken : order ≠ [] := by
    rintro rfl
    have same := descends.1.length_eq
    rw [List.length_range] at same
    exact nonempty (List.length_eq_zero_iff.mp same.symm)
  obtain ⟨n, token, sampled, isToken, place⟩ :=
    call.sample_cases someToken descends
  have length := call.length_topProbabilities logits order
  have inTop : n < (order.take (max call.topK 1)).length :=
    (List.getElem?_eq_some_iff.mp isToken).1
  have few : n < max call.topK 1 :=
    inTop.trans_le (List.length_take_le _ _)
  rw [List.getElem?_take_of_lt few] at isToken
  refine ⟨⟨n, token, sampled, isToken, few⟩, ?_, ?_⟩
  · rintro ⟨m, token', sampled', isToken', -, inside⟩
    obtain rfl := Option.some.inj (sampled.symm.trans sampled')
    have samePlace : m = n := by
      have distinct : order.Nodup :=
        descends.1.nodup_iff.mpr List.nodup_range
      obtain ⟨inside, isEntry⟩ := List.getElem?_eq_some_iff.mp isToken
      obtain ⟨inside', isEntry'⟩ := List.getElem?_eq_some_iff.mp isToken'
      exact (List.Nodup.getElem_inj_iff distinct).mp
        (isEntry'.trans isEntry.symm)
    subst samePlace
    rcases place with ⟨sum, found, fits, -⟩ | ⟨isLast, -⟩
    · exact Or.inl ⟨m, sum, inside, found, fits⟩
    · right
      rwa [← isLast]
  · intro condition
    refine ⟨n, token, sampled, isToken, few, ?_⟩
    rcases condition with ⟨m, sum, inside, found, fits⟩ | all
    · refine inside.earlier ?_
      by_contra later
      rcases place with ⟨-, -, -, below⟩ | ⟨-, below⟩
      · exact absurd fits (not_le.mpr (below m (by omega) sum found))
      · exact absurd fits (not_le.mpr (below m sum found))
    · exact all.earlier (by omega)

theorem topProbabilities_pos (positive : ∀ x, 0 < call.exp x)
    {p : K} (member : p ∈ call.topProbabilities logits order) : 0 < p := by
  simp only [topProbabilities, probabilities, List.mem_map] at member
  obtain ⟨weight, ⟨i, isToken, rfl⟩, rfl⟩ := member
  refine div_pos (positive _) (List.sum_pos _ (fun weight member => ?_) ?_)
  · obtain ⟨j, -, rfl⟩ := List.mem_map.mp member
    exact positive _
  · rw [Ne, List.map_eq_nil_iff]
    exact List.ne_nil_of_mem isToken

/-- Without rounding the draw is always from the nucleus. -/
theorem reachesDraw_of_exact (positive : ∀ x, 0 < call.exp x)
    (exactCum : ∀ i sum, call.roundCum i sum = sum)
    (exactAcc : ∀ i sum, call.roundAcc i sum = sum)
    (drawn : call.draw ≤ 1) (nonempty : order ≠ []) :
    call.ReachesDraw (call.topProbabilities logits order) := by
  have positives : ∀ p ∈ call.topProbabilities logits order, 0 < p :=
    fun p => call.topProbabilities_pos positive
  have someProb : 0 < (call.topProbabilities logits order).length := by
    rw [call.length_topProbabilities, List.length_take]
    have := List.length_pos_iff.mpr nonempty
    omega
  generalize call.topProbabilities logits order = probs at positives someProb
  obtain ⟨n, isLast⟩ : ∃ n,
      keepLengthIn call.roundCum call.topP 0 0 probs = n + 1 := by
    have keepsOne : 0 < keepLengthIn call.roundCum call.topP 0 0 probs :=
      (lt_keepLengthIn_iff _ _ _ _ _ _).mpr
        ⟨someProb, fun j earlier => absurd earlier (Nat.not_lt_zero j)⟩
    exact ⟨_, (Nat.succ_pred_eq_of_pos keepsOne).symm⟩
  obtain ⟨inside, below⟩ := (lt_keepLengthIn_iff call.roundCum call.topP 0 0
    probs n).mp (by omega)
  have total : 0 < (probs.take (n + 1)).sum := by
    refine List.sum_pos _ (fun p member => positives p
      (List.mem_of_mem_take member)) ?_
    rw [Ne, List.take_eq_nil_iff, not_or]
    exact ⟨by omega, List.length_pos_iff.mp someProb⟩
  have renormalised_eq : call.renormalised probs =
      (probs.take (n + 1)).map (· / (probs.take (n + 1)).sum) := by
    rw [renormalised, isLast]
  refine ⟨n, 1, ⟨inside, fun j earlier => ?_⟩, ?_, drawn⟩
  · have found := getElem?_runningSums_of_exact exactCum 0 0 probs
      (earlier.trans inside)
    rw [zero_add] at found
    exact below j earlier _ found
  · have length : (call.renormalised probs).length = n + 1 := by
      rw [renormalised_eq, List.length_map, List.length_take]
      omega
    rw [drawnSums, getElem?_runningSums_of_exact exactAcc 0 0 _ (by omega),
      zero_add, List.take_of_length_le length.le, renormalised_eq]
    simp only [div_eq_mul_inv]
    rw [List.sum_map_mul_right, List.map_id', mul_inv_cancel₀ total.ne']

end SampleCall

end Exact

/-! ## A running sum that stays below one -/

/-- A positive increasing function of the rationals. -/
def reciprocalExp (x : Rat) : Rat :=
  if x ≤ 0 then 1 / (1 - x) else 1 + x

/-- The second sum of the draw is rounded to the next number below one. -/
def roundedCall : SampleCall Rat where
  exp := reciprocalExp
  roundCum := fun _ sum => sum
  roundAcc := fun i sum => if i = 1 then sum - 1 / 8388608 else sum
  draw := 1 - 1 / 16777216
  temperature := 1
  topK := 3
  topP := 3 / 4

theorem reciprocalExp_pos (x : Rat) : 0 < reciprocalExp x := by
  unfold reciprocalExp
  split_ifs with below
  · exact one_div_pos.mpr (by linarith)
  · linarith [not_le.mp below]

theorem reciprocalExp_strictMono : StrictMono reciprocalExp := by
  intro x y less
  unfold reciprocalExp
  split_ifs with belowX belowY belowY
  · exact one_div_lt_one_div_of_lt (by linarith) (by linarith)
  · have atMostOne : 1 / (1 - x) ≤ 1 :=
      (div_le_one (by linarith)).mpr (by linarith)
    linarith [not_le.mp belowY]
  · exact absurd (less.le.trans belowY) belowX
  · linarith

theorem roundedCall_drawsFromNucleus_iff :
    ([3, 2, 1] : List Rat) ≠ [] ∧ Descends ([3, 2, 1] : List Rat) [0, 1, 2] ∧
      (roundedCall.DrawsFromNucleus [3, 2, 1] [0, 1, 2] ↔
        roundedCall.ReachesDraw
            (roundedCall.topProbabilities [3, 2, 1] [0, 1, 2]) ∨
          InNucleus roundedCall.topP
            (roundedCall.topProbabilities [3, 2, 1] [0, 1, 2])
            ((roundedCall.topProbabilities [3, 2, 1] [0, 1, 2]).length - 1)) :=
  have nonempty : ([3, 2, 1] : List Rat) ≠ [] := by decide
  have descends : Descends ([3, 2, 1] : List Rat) [0, 1, 2] := by
    decide +kernel
  ⟨nonempty, descends,
    (roundedCall.drawsFromNucleus_iff nonempty descends).2⟩

/-- The nucleus has the first two tokens, and the third one is drawn. -/
theorem roundedCall_not_drawsFromNucleus :
    StrictMono roundedCall.exp ∧ (∀ x, 0 < roundedCall.exp x) ∧
      (∀ i sum, roundedCall.roundCum i sum ≤ sum ∧
        roundedCall.roundAcc i sum ≤ sum) ∧
      0 ≤ roundedCall.draw ∧ roundedCall.draw < 1 ∧
      Descends ([3, 2, 1] : List Rat) [0, 1, 2] ∧
      roundedCall.sample [3, 2, 1] = some 2 ∧
      ¬ roundedCall.DrawsFromNucleus [3, 2, 1] [0, 1, 2] := by
  have descends : Descends ([3, 2, 1] : List Rat) [0, 1, 2] := by
    decide +kernel
  have drawn : roundedCall.sample [3, 2, 1] = some 2 := by
    rw [roundedCall.sample_eq (by decide) descends]
    decide +kernel
  refine ⟨reciprocalExp_strictMono, reciprocalExp_pos, ?_, by decide +kernel,
    by decide +kernel, descends, drawn, ?_⟩
  · intro i sum
    refine ⟨le_rfl, ?_⟩
    unfold roundedCall
    dsimp only
    split_ifs <;> linarith
  · rintro ⟨n, token, sampled, isToken, -, inside⟩
    obtain rfl := Option.some.inj (drawn.symm.trans sampled)
    have isThird : n = 2 := by
      match n, isToken with
      | 2, _ => rfl
    subst isThird
    exact absurd (inside.2 1 (by decide)) (by decide +kernel)

end Sampling

end TorchInference
