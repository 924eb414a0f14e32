import Mathlib.Data.List.Basic

/-!
# Runs of a labelled transition function

A concurrent component is modelled by a partial function
`step : State → Action → Option State`: the action names which party moves and
carries every choice of its environment, and `none` says that the party cannot
make that move.  A run is a list of actions all of which are possible.

The rules below turn a one-step fact into a fact about whole runs.  A run may
be restricted by a condition on the state before each step and the action
taken there; when every step that breaks the condition also breaks the
property, the condition is exact.
-/

namespace TransitionRuns

variable {State Action : Type*}

/-- The state after a list of actions, if each of them is possible. -/
def run (step : State → Action → Option State) :
    State → List Action → Option State
  | state, [] => some state
  | state, action :: actions =>
      match step state action with
      | none => none
      | some next => run step next actions

/-- The states a run goes through, its first and last ones included. -/
def visited (step : State → Action → Option State) :
    State → List Action → List State
  | state, [] => [state]
  | state, action :: actions =>
      state ::
        match step state action with
        | none => []
        | some next => visited step next actions

/-- Every step of the run meets `condition` in the state before it. -/
def Meets (step : State → Action → Option State)
    (condition : State → Action → Prop) : State → List Action → Prop
  | _, [] => True
  | state, action :: actions =>
      condition state action ∧
        match step state action with
        | none => True
        | some next => Meets step condition next actions

/-- A decidable condition can be checked along a concrete run. -/
instance decidableMeets (step : State → Action → Option State)
    (condition : State → Action → Prop)
    [∀ state action, Decidable (condition state action)] :
    ∀ (state : State) (actions : List Action),
      Decidable (Meets step condition state actions)
  | _, [] => inferInstanceAs (Decidable True)
  | state, action :: actions =>
      have : Decidable (match step state action with
          | none => True
          | some next => Meets step condition next actions) :=
        match step state action with
        | none => inferInstanceAs (Decidable True)
        | some next => decidableMeets step condition next actions
      inferInstanceAs (Decidable (_ ∧ _))

variable {step : State → Action → Option State}

@[simp]
theorem run_nil (state : State) : run step state [] = some state :=
  rfl

theorem run_cons_of_step {state next : State} {action : Action}
    (stepTo : step state action = some next) (actions : List Action) :
    run step state (action :: actions) = run step next actions := by
  simp [run, stepTo]

/-- A run that starts with an action consists of that step and a shorter run. -/
theorem run_cons_eq_some {state last : State} {action : Action}
    {actions : List Action}
    (reaches : run step state (action :: actions) = some last) :
    ∃ next, step state action = some next ∧
      run step next actions = some last := by
  cases stepTo : step state action with
  | none => simp [run, stepTo] at reaches
  | some next =>
      rw [run_cons_of_step stepTo] at reaches
      exact ⟨next, rfl, reaches⟩

/-- A run goes on from where a first part of it ends. -/
theorem run_append {state middle : State} {first : List Action}
    (reaches : run step state first = some middle) (second : List Action) :
    run step state (first ++ second) = run step middle second := by
  induction first generalizing state with
  | nil =>
      obtain rfl := Option.some.inj reaches
      rfl
  | cons action actions ih =>
      obtain ⟨next, stepTo, rest⟩ := run_cons_eq_some reaches
      rw [List.cons_append, run_cons_of_step stepTo]
      exact ih rest

theorem visited_cons_of_step {state next : State} {action : Action}
    (stepTo : step state action = some next) (actions : List Action) :
    visited step state (action :: actions) =
      state :: visited step next actions := by
  simp [visited, stepTo]

theorem meets_cons_of_step {condition : State → Action → Prop}
    {state next : State} {action : Action}
    (stepTo : step state action = some next) (actions : List Action) :
    Meets step condition state (action :: actions) ↔
      condition state action ∧ Meets step condition next actions := by
  simp [Meets, stepTo]

@[simp]
theorem mem_visited_head (state : State) (actions : List Action) :
    state ∈ visited step state actions := by
  cases actions <;> simp [visited]

/-- The last state of a run is one of the visited states. -/
theorem last_mem_visited {state last : State} {actions : List Action}
    (reaches : run step state actions = some last) :
    last ∈ visited step state actions := by
  induction actions generalizing state with
  | nil =>
      simp only [run_nil, Option.some.injEq] at reaches
      simp [visited, reaches]
  | cons action actions ih =>
      obtain ⟨next, stepTo, rest⟩ := run_cons_eq_some reaches
      rw [visited_cons_of_step stepTo]
      exact List.mem_cons_of_mem _ (ih rest)

/-- A condition that always holds is met by every run. -/
theorem meets_of_forall {condition : State → Action → Prop}
    (always : ∀ state action, condition state action)
    (state : State) (actions : List Action) :
    Meets step condition state actions := by
  induction actions generalizing state with
  | nil => trivial
  | cons action actions ih =>
      refine ⟨always state action, ?_⟩
      cases step state action with
      | none => trivial
      | some next => exact ih next

/-- Conditions that agree as long as they are met are met by the same runs. -/
theorem meets_congr_of_invariant (Inv : State → Prop)
    {condition other : State → Action → Prop}
    (agree : ∀ state action, Inv state →
      (condition state action ↔ other state action))
    (preserves : ∀ state action next, Inv state → condition state action →
      step state action = some next → Inv next)
    {state : State} (start : Inv state) (actions : List Action) :
    Meets step condition state actions ↔ Meets step other state actions := by
  induction actions generalizing state with
  | nil => exact Iff.rfl
  | cons action actions ih =>
      have same := agree state action start
      cases stepTo : step state action with
      | none => simpa only [Meets, stepTo] using and_congr_left' same
      | some next =>
          rw [meets_cons_of_step stepTo, meets_cons_of_step stepTo, ← same]
          exact and_congr_right fun met =>
            ih (preserves state action next start met stepTo)

/-- Conditions that agree at every step are met by the same runs. -/
theorem meets_congr {condition other : State → Action → Prop}
    (agree : ∀ state action, condition state action ↔ other state action)
    (state : State) (actions : List Action) :
    Meets step condition state actions ↔ Meets step other state actions :=
  meets_congr_of_invariant (fun _ => True)
    (fun state action _ => agree state action)
    (fun _ _ _ _ _ _ => trivial) trivial actions

/-- A run meets two conditions together when it meets each of them. -/
theorem meets_and {condition other : State → Action → Prop}
    {state : State} {actions : List Action}
    (meets : Meets step condition state actions)
    (meetsOther : Meets step other state actions) :
    Meets step (fun state action =>
      condition state action ∧ other state action) state actions := by
  induction actions generalizing state with
  | nil => trivial
  | cons action actions ih =>
      refine ⟨⟨meets.1, meetsOther.1⟩, ?_⟩
      cases stepTo : step state action with
      | none => trivial
      | some next =>
          rw [meets_cons_of_step stepTo] at meets meetsOther
          exact ih meets.2 meetsOther.2

/-- The last step of a run meets the condition in the state before it. -/
theorem condition_of_meets {condition : State → Action → Prop}
    {state last : State} {actions : List Action} {action : Action}
    (reaches : run step state actions = some last)
    (meets : Meets step condition state (actions ++ [action])) :
    condition last action := by
  induction actions generalizing state with
  | nil =>
      simp only [run_nil, Option.some.injEq] at reaches
      subst reaches
      exact meets.1
  | cons first actions ih =>
      obtain ⟨next, stepTo, rest⟩ := run_cons_eq_some reaches
      rw [List.cons_append, meets_cons_of_step stepTo] at meets
      exact ih rest meets.2

section Invariants

variable {Inv : State → Prop} {condition : State → Action → Prop}

/-- An invariant kept by every step that meets the condition holds in every
state visited by a run all of whose steps meet it. -/
theorem invariant_of_meets
    (preserves : ∀ state action next, Inv state → condition state action →
      step state action = some next → Inv next)
    {state : State} {actions : List Action} (start : Inv state)
    (meets : Meets step condition state actions) :
    ∀ reached ∈ visited step state actions, Inv reached := by
  induction actions generalizing state with
  | nil => simpa [visited] using start
  | cons action actions ih =>
      cases stepTo : step state action with
      | none => simpa [visited, stepTo] using start
      | some next =>
          rw [meets_cons_of_step stepTo] at meets
          rw [visited_cons_of_step stepTo]
          intro reached member
          rcases List.mem_cons.mp member with rfl | later
          · exact start
          · exact ih (preserves state action next start meets.1 stepTo)
              meets.2 reached later

/-- A run all of whose steps meet a condition meets every other condition that
follows from it under the invariant. -/
theorem meets_of_invariant {other : State → Action → Prop}
    (preserves : ∀ state action next, Inv state → condition state action →
      step state action = some next → Inv next)
    (gives : ∀ state action, Inv state → condition state action →
      other state action)
    {state : State} {actions : List Action} (start : Inv state)
    (meets : Meets step condition state actions) :
    Meets step other state actions := by
  induction actions generalizing state with
  | nil => trivial
  | cons action actions ih =>
      refine ⟨gives state action start meets.1, ?_⟩
      cases stepTo : step state action with
      | none => trivial
      | some next =>
          rw [meets_cons_of_step stepTo] at meets
          exact ih (preserves state action next start meets.1 stepTo) meets.2

/-- An invariant kept by every step holds in every visited state. -/
theorem invariant_of_run
    (preserves : ∀ state action next, Inv state →
      step state action = some next → Inv next)
    {state : State} (start : Inv state) (actions : List Action) :
    ∀ reached ∈ visited step state actions, Inv reached := by
  have meets : Meets step (fun _ _ => True) state actions :=
    meets_of_forall (fun _ _ => trivial) state actions
  exact invariant_of_meets
    (fun state action next inv _ => preserves state action next inv)
    start meets

/-- The same for the last state of a run. -/
theorem invariant_of_run_eq_some
    (preserves : ∀ state action next, Inv state →
      step state action = some next → Inv next)
    {state last : State} {actions : List Action} (start : Inv state)
    (reaches : run step state actions = some last) : Inv last :=
  invariant_of_run preserves start actions last (last_mem_visited reaches)

/-- When the invariant gives the property, and a step that breaks the
condition breaks the property, the property holds throughout a run exactly
when all of its steps meet the condition. -/
theorem forall_visited_iff_meets {Property : State → Prop}
    (holds : ∀ state, Inv state → Property state)
    (preserves : ∀ state action next, Inv state → condition state action →
      step state action = some next → Inv next)
    (breaks : ∀ state action next, Inv state → ¬ condition state action →
      step state action = some next → ¬ Property next)
    {state last : State} {actions : List Action} (start : Inv state)
    (reaches : run step state actions = some last) :
    (∀ reached ∈ visited step state actions, Property reached) ↔
      Meets step condition state actions := by
  constructor
  · intro throughout
    induction actions generalizing state with
    | nil => trivial
    | cons action actions ih =>
        obtain ⟨next, stepTo, rest⟩ := run_cons_eq_some reaches
        rw [visited_cons_of_step stepTo] at throughout
        rw [meets_cons_of_step stepTo]
        have afterwards : ∀ reached ∈ visited step next actions,
            Property reached :=
          fun reached member =>
            throughout reached (List.mem_cons_of_mem _ member)
        have met : condition state action := by
          by_contra unmet
          exact breaks state action next start unmet stepTo
            (afterwards next (mem_visited_head next actions))
        exact ⟨met, ih (preserves state action next start met stepTo)
          rest afterwards⟩
  · intro meets reached member
    exact holds reached (invariant_of_meets preserves start meets
      reached member)

end Invariants

section Termination

variable {Inv : State → Prop} {Final : State → Prop}

/-- When every step decreases a measure and every state that is not final has
a step, some run ends in a final state. -/
theorem exists_run_to_final (measure : State → Nat)
    (preserves : ∀ state action next, Inv state →
      step state action = some next → Inv next)
    (decreases : ∀ state action next, Inv state →
      step state action = some next → measure next < measure state)
    (progress : ∀ state, Inv state → ¬ Final state →
      ∃ action next, step state action = some next)
    (state : State) (start : Inv state) :
    ∃ actions last, run step state actions = some last ∧ Final last := by
  induction bound : measure state using Nat.strongRecOn
    generalizing state with
  | ind size ih =>
      by_cases final : Final state
      · exact ⟨[], state, rfl, final⟩
      · obtain ⟨action, next, stepTo⟩ := progress state start final
        have smaller := decreases state action next start stepTo
        obtain ⟨actions, last, reaches, finished⟩ :=
          ih (measure next) (bound ▸ smaller) next
            (preserves state action next start stepTo) rfl
        exact ⟨action :: actions, last,
          by rw [run_cons_of_step stepTo]; exact reaches, finished⟩

/-- A run is never longer than the measure of the state it starts from. -/
theorem length_le_measure (measure : State → Nat)
    (preserves : ∀ state action next, Inv state →
      step state action = some next → Inv next)
    (decreases : ∀ state action next, Inv state →
      step state action = some next → measure next < measure state)
    {state last : State} {actions : List Action} (start : Inv state)
    (reaches : run step state actions = some last) :
    actions.length ≤ measure state := by
  induction actions generalizing state with
  | nil => simp
  | cons action actions ih =>
      obtain ⟨next, stepTo, rest⟩ := run_cons_eq_some reaches
      have shorter := ih (preserves state action next start stepTo) rest
      have smaller := decreases state action next start stepTo
      simp only [List.length_cons]
      omega

end Termination

end TransitionRuns
