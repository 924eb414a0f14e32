import Mathlib.Algebra.BigOperators.Group.List.Basic
import Mathlib.Algebra.GroupWithZero.Nat

/-!
# Requests paid from a budget

A budget of `limit` units is charged one unit at a time, and a charge is
refused when nothing is left.  A request makes some number of charges and is
granted when all of them are; a refused request keeps what it was charged.
-/

namespace SpendingBudget

/-- One charge: whether it is granted, and the units used afterwards. -/
def charge (limit used : Nat) : Bool × Nat :=
  if used < limit then (true, used + 1) else (false, used)

/-- The charges of one request, up to the first refused one. -/
def spend (limit used : Nat) : Nat → Bool × Nat
  | 0 => (true, used)
  | cost + 1 =>
      match charge limit used with
      | (false, after) => (false, after)
      | (true, after) => spend limit after cost

/-- The answers to requests with the given costs. -/
def answers (limit used : Nat) : List Nat → List Bool
  | [] => []
  | cost :: costs =>
      (spend limit used cost).1 :: answers limit (spend limit used cost).2 costs

theorem charge_of_granted {limit used : Nat}
    (granted : (charge limit used).1 = true) :
    (charge limit used).2 = used + 1 := by
  unfold charge at granted ⊢
  split_ifs at granted ⊢
  rfl

theorem spend_of_refused {limit used : Nat}
    (refused : (charge limit used).1 = false) (cost : Nat) :
    spend limit used (cost + 1) = (false, (charge limit used).2) := by
  rw [spend]
  split <;> rename_i answer <;> rw [answer] at refused ⊢
  cases refused

theorem spend_of_granted {limit used : Nat}
    (granted : (charge limit used).1 = true) (cost : Nat) :
    spend limit used (cost + 1) = spend limit (charge limit used).2 cost := by
  rw [spend]
  split <;> rename_i answer <;> rw [answer] at granted ⊢
  cases granted

theorem spend_eq {limit used : Nat} (within : used ≤ limit) (cost : Nat) :
    spend limit used cost =
      (decide (used + cost ≤ limit), min limit (used + cost)) := by
  induction cost generalizing used with
  | zero => simp [spend, within]
  | succ cost ih =>
      by_cases room : used < limit
      · have after := ih (Nat.succ_le_of_lt room)
        simp only [spend, charge, if_pos room, after, Nat.succ_add_eq_add_succ]
      · obtain rfl : used = limit := by omega
        simp only [spend, charge, Nat.lt_irrefl, if_false, Prod.mk.injEq]
        constructor
        · symm
          rw [decide_eq_false_iff_not]
          omega
        · omega

/-- Nothing is granted from an empty budget. -/
theorem answers_of_full (limit : Nat) {costs : List Nat}
    (positive : ∀ cost ∈ costs, 0 < cost) :
    ∀ granted ∈ answers limit limit costs, granted = false := by
  induction costs with
  | nil =>
      intro granted member
      cases member
  | cons cost costs ih =>
      have pays := positive cost List.mem_cons_self
      have spent := spend_eq (Nat.le_refl limit) cost
      have later := ih fun other member =>
        positive other (List.mem_cons_of_mem _ member)
      intro granted member
      simp only [answers, spent, List.mem_cons] at member
      rcases member with rfl | after
      · rw [decide_eq_false_iff_not]
        omega
      · rw [Nat.min_eq_left (Nat.le_add_right limit cost)] at after
        exact later granted after

/-- Exactly the first `quota` requests are granted. -/
def FirstGranted (quota : Nat) (answers : List Bool) : Prop :=
  ∀ index granted, answers[index]? = some granted →
    (granted = true ↔ index < quota)

theorem firstGranted_cons (quota : Nat) (granted : Bool)
    (answers : List Bool) :
    FirstGranted quota (granted :: answers) ↔
      (granted = true ↔ 0 < quota) ∧ FirstGranted (quota - 1) answers := by
  constructor
  · intro first
    refine ⟨first 0 granted rfl, fun index other atIndex => ?_⟩
    have shifted := first (index + 1) other atIndex
    rw [shifted]
    omega
  · rintro ⟨here, later⟩ index other atIndex
    cases index with
    | zero =>
        cases atIndex
        exact here
    | succ index =>
        have shifted := later index other atIndex
        rw [shifted]
        omega

/-- Exactly the first `quota` requests are granted when their costs fit into
what is left of the budget. -/
theorem firstGranted_iff {limit used quota : Nat} (within : used ≤ limit)
    (enough : limit - used ≤ quota) {costs : List Nat}
    (positive : ∀ cost ∈ costs, 0 < cost) :
    FirstGranted quota (answers limit used costs) ↔
      (costs.take quota).sum ≤ limit - used := by
  induction costs generalizing used quota with
  | nil => simp [answers, FirstGranted]
  | cons cost costs ih =>
      have pays := positive cost List.mem_cons_self
      have laterPositive : ∀ other ∈ costs, 0 < other :=
        fun other member => positive other (List.mem_cons_of_mem _ member)
      have spent := spend_eq within cost
      rw [answers, firstGranted_cons, spent]
      simp only [decide_eq_true_eq]
      cases quota with
      | zero =>
          have full : used = limit := by omega
          subst full
          have refused := answers_of_full used laterPositive
          simp only [Nat.lt_irrefl, iff_false, Nat.zero_sub, List.take_zero,
            List.sum_nil, Nat.zero_le, iff_true]
          refine ⟨by omega, fun index granted atIndex => ?_⟩
          rw [Nat.min_eq_left (Nat.le_add_right used cost)] at atIndex
          have notGranted := refused granted (List.mem_of_getElem? atIndex)
          simp [notGranted]
      | succ quota =>
          simp only [Nat.succ_pos, iff_true, Nat.add_sub_cancel,
            List.take_succ_cons, List.sum_cons]
          by_cases fits : used + cost ≤ limit
          · rw [Nat.min_eq_right fits,
              ih fits (by omega) laterPositive]
            omega
          · constructor
            · intro both
              exact absurd both.1 fits
            · intro small
              omega

end SpendingBudget
