import TorchInference.ExecutedSteps

/-!
# The budget for the results

The values of the steps that succeed are counted, and a run whose total is over
the budget calls no further tool.  The messages of the steps that fail are kept
beside these values and are not counted, and a value that is replaced stays in
the total.
-/

namespace TorchInference

namespace AgentExecutor

open PlannerDsl OrderedInsertion

/-! ## Sizes -/

section Sizes

variable (environment : Environment)

/-- The bytes that are kept of a step and not counted. -/
def uncounted : Except String JsonValue → Nat
  | .ok _ => 0
  | .error message => serializedLength environment (kept (.error message))

end Sizes

/-! ## Runs -/

variable {environment : Environment} {opts : ExecOptions} {userMsg : String}
  {inputs : List (String × Input)}

/-- A run that has executed some steps comes to call the tool of a further
one. -/
inductive CallsNext (environment : Environment) (opts : ExecOptions)
    (userMsg : String) (inputs : List (String × Input))
    (done : List (Step × Except String JsonValue)) (state : RunState) : Prop
  | mk {steps rest : List Step} {retries j : Nat} {step : Step}
      {args : JsonValue}
      (planned : makePlan environment opts userMsg inputs = .ok (steps, retries))
      (executes : Executes environment opts inputs 0 steps .initial done j
        (step :: rest) state)
      (ready : Ready environment opts j)
      (resolves : resolveStepArgs inputs state.results step = .ok args)

/-- The loop goes on only with a total that is within the budget. -/
theorem GoesOn.within {i : Nat} {step : Step} {state : RunState}
    (goesOn : GoesOn environment opts inputs i step state)
    (within : state.resultsBytes ≤ opts.perRunBytes) :
    (stateAfter environment opts inputs i step state).resultsBytes ≤
      opts.perRunBytes := by
  cases goesOn with
  | unresolved ready resolves =>
      rw [stateAfter_of_unresolved resolves]
      exact within
  | called ready resolves notFinal small => exact small

theorem Executes.within {i j : Nat} {steps rest : List Step}
    {state last : RunState} {done : List (Step × Except String JsonValue)}
    (executes : Executes environment opts inputs i steps state done j rest last)
    (within : state.resultsBytes ≤ opts.perRunBytes) :
    last.resultsBytes ≤ opts.perRunBytes := by
  induction executes with
  | none => exact within
  | step goesOn later ih => exact ih (goesOn.within within)

namespace CallsNext

variable {done : List (Step × Except String JsonValue)} {state : RunState}

theorem within
    (calls : CallsNext environment opts userMsg inputs done state) :
    state.resultsBytes ≤ opts.perRunBytes := by
  obtain ⟨planned, executes, ready, resolves⟩ := calls
  exact executes.within (Nat.zero_le _)

end CallsNext

end AgentExecutor

end TorchInference
