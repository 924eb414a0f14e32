import TorchInference.FinalDelivery

/-!
# The steps that a run executes

A run executes the steps of its plan one after another.  It keeps what comes of
each of them under the name of the step, reports it, and goes on, unless a
`final` step, a limit or the receiver ends it.
-/

namespace TorchInference

namespace AgentExecutor

open PlannerDsl OrderedInsertion

/-! ## What comes of a step -/

/-- The value that is kept of what comes of a step. -/
def kept : Except String JsonValue → JsonValue
  | .ok value => value
  | .error message => .object [("error", .string message)]

/-- The value that is reported with the result of a step. -/
def AgentEvent.stepValue? : AgentEvent → Option (Option JsonValue)
  | .stepResult _ _ _ value _ _ => some value
  | _ => none

variable (environment : Environment) (opts : ExecOptions)
  (inputs : List (String × Input))

/-- The length of a value when it is serialized. -/
def serializedLength (value : JsonValue) : Nat :=
  byteLength (CanonicalJson.writeCanonicalJson environment.floats value)

/-- The bytes that are counted for what comes of a step. -/
def counted : Except String JsonValue → Nat
  | .ok value => serializedLength environment value
  | .error _ => 0

/-- The value of the step at a position, or the message of its failure. -/
def outcome (i : Nat) (step : Step) (state : RunState) :
    Except String JsonValue :=
  match resolveStepArgs inputs state.results step with
  | .error e => .error ("ref_unresolved: " ++ e)
  | .ok args =>
      match called environment opts i step args with
      | .ok value => .ok (trimLargeFields opts.fieldTrimAbove value)
      | .error e => .error e.text

/-- The state after a step. -/
def RunState.after (state : RunState) (step : Step)
    (result : Except String JsonValue) : RunState where
  results := insert step.id (kept result) state.results
  resultsBytes := state.resultsBytes + counted environment result
  stepsExecuted := state.stepsExecuted + 1

/-- The state after the step at a position. -/
def stateAfter (i : Nat) (step : Step) (state : RunState) : RunState :=
  state.after environment step (outcome environment opts inputs i step state)

/-- The loop executes the step at a position, and does not end with it. -/
inductive GoesOn (i : Nat) (step : Step) (state : RunState) : Prop
  | unresolved {e : String} (ready : Ready environment opts i)
      (resolves : resolveStepArgs inputs state.results step = .error e)
  | called {args : JsonValue} (ready : Ready environment opts i)
      (resolves : resolveStepArgs inputs state.results step = .ok args)
      (notFinal : step.tool ≠ "final")
      (small : (stateAfter environment opts inputs i step state).resultsBytes ≤
        opts.perRunBytes)

/-- From a position on, the loop executes some steps with what comes of them,
and comes to another position. -/
inductive Executes : Nat → List Step → RunState →
    List (Step × Except String JsonValue) → Nat → List Step → RunState → Prop
  | none {i : Nat} {steps : List Step} {state : RunState} :
      Executes i steps state [] i steps state
  | step {i j : Nat} {step : Step} {steps rest : List Step}
      {state last : RunState} {done : List (Step × Except String JsonValue)}
      (goesOn : GoesOn environment opts inputs i step state)
      (later : Executes (i + 1) steps
        (stateAfter environment opts inputs i step state) done j rest last) :
      Executes i (step :: steps) state
        ((step, outcome environment opts inputs i step state) :: done) j rest
        last

/-- The loop ends without a `final` step, having executed some steps: there is
no further step, or a limit on the steps, the time or the results is
reached. -/
inductive RunsOut (i : Nat) (steps : List Step) (state : RunState) :
    List (Step × Except String JsonValue) → RunState → Prop
  | stopped {j : Nat} {rest : List Step} {last : RunState}
      {done : List (Step × Except String JsonValue)}
      (executes : Executes environment opts inputs i steps state done j rest
        last)
      (stops : rest = [] ∨ opts.maxSteps ≤ j ∨
        deadline environment opts ≤ environment.checkedAt j) :
      RunsOut i steps state done last
  | overBudget {j : Nat} {step : Step} {args : JsonValue} {rest : List Step}
      {last : RunState} {done : List (Step × Except String JsonValue)}
      (executes : Executes environment opts inputs i steps state done j
        (step :: rest) last)
      (ready : Ready environment opts j)
      (resolves : resolveStepArgs inputs last.results step = .ok args)
      (notFinal : step.tool ≠ "final")
      (large : opts.perRunBytes <
        (stateAfter environment opts inputs j step last).resultsBytes) :
      RunsOut i steps state
        (done ++ [(step, outcome environment opts inputs j step last)])
        (stateAfter environment opts inputs j step last)

/-! ## One step -/

variable {environment opts inputs}

@[simp]
theorem resultsBytes_stateAfter (i : Nat) (step : Step) (state : RunState) :
    (stateAfter environment opts inputs i step state).resultsBytes =
      state.resultsBytes +
        counted environment (outcome environment opts inputs i step state) :=
  rfl

@[simp]
theorem stepsExecuted_stateAfter (i : Nat) (step : Step) (state : RunState) :
    (stateAfter environment opts inputs i step state).stepsExecuted =
      state.stepsExecuted + 1 :=
  rfl

theorem stateAfter_of_unresolved {i : Nat} {step : Step} {state : RunState}
    {e : String}
    (resolves : resolveStepArgs inputs state.results step = .error e) :
    stateAfter environment opts inputs i step state =
      unresolved step e state := by
  unfold stateAfter outcome
  rw [resolves]
  rfl

/-- A step that is called is settled with what comes of it. -/
theorem settle_of_resolved {i : Nat} {step : Step} {state : RunState}
    {args : JsonValue}
    (resolves : resolveStepArgs inputs state.results step = .ok args) :
    (settle environment opts i step state
        (called environment opts i step args)).1 =
      stateAfter environment opts inputs i step state := by
  unfold stateAfter outcome
  rw [resolves]
  dsimp only
  cases called environment opts i step args <;> rfl

theorem stepValue_settle {i : Nat} {step : Step} {state : RunState}
    {args : JsonValue}
    (resolves : resolveStepArgs inputs state.results step = .ok args) :
    (settle environment opts i step state
        (called environment opts i step args)).2.stepValue? =
      some (outcome environment opts inputs i step state).toOption := by
  unfold outcome
  rw [resolves]
  dsimp only
  cases called environment opts i step args <;> rfl

theorem isFinal_settle (i : Nat) (step : Step) (state : RunState)
    (result : Except ToolError JsonValue) :
    (settle environment opts i step state result).2.isFinal = false := by
  cases result <;> rfl

/-- A step that the loop goes on after is reported. -/
theorem executeSteps_of_goesOn {i : Nat} {step : Step} {state : RunState}
    (goesOn : GoesOn environment opts inputs i step state)
    (steps : List Step) :
    ∃ block, executeSteps environment opts inputs i (step :: steps) state =
        block ++ executeSteps environment opts inputs (i + 1) steps
          (stateAfter environment opts inputs i step state) ∧
      block.filterMap AgentEvent.stepValue? =
        [(outcome environment opts inputs i step state).toOption] ∧
      ∀ event ∈ block, event.isFinal = false := by
  cases goesOn with
  | @unresolved e ready resolves =>
      refine ⟨[.stepResult (i + 1) step.id false none
        (some ("ref_unresolved: " ++ e)) 0], ?_, ?_,
        List.forall_mem_singleton.mpr rfl⟩
      · rw [executeSteps_of_unresolved steps ready resolves,
          stateAfter_of_unresolved resolves]
        rfl
      · unfold outcome
        rw [resolves]
        rfl
  | @called args ready resolves notFinal small =>
      refine ⟨[.stepStart (i + 1) step.id step.tool (redactForSse args),
        (settle environment opts i step state
          (AgentExecutor.called environment opts i step args)).2], ?_, ?_, ?_⟩
      · rw [executeSteps_of_resolved steps ready resolves]
        dsimp only
        rw [if_neg notFinal, settle_of_resolved resolves,
          if_neg (not_lt.mpr small)]
        rfl
      · rw [List.filterMap_cons_none rfl,
          List.filterMap_cons_some (stepValue_settle resolves),
          List.filterMap_nil]
      · exact List.forall_mem_cons.mpr
          ⟨rfl, List.forall_mem_singleton.mpr (isFinal_settle _ _ _ _)⟩

/-! ## Some steps -/

/-- What comes of some steps, under their names. -/
def entries (done : List (Step × Except String JsonValue)) :
    List (String × JsonValue) :=
  done.map fun executed => (executed.1.id, kept executed.2)

@[simp]
theorem entries_nil : entries [] = [] :=
  rfl

theorem entries_append (done more : List (Step × Except String JsonValue)) :
    entries (done ++ more) = entries done ++ entries more :=
  List.map_append

@[simp]
theorem length_entries (done : List (Step × Except String JsonValue)) :
    (entries done).length = done.length :=
  List.length_map _

/-- The names of some steps that are executed. -/
def executedNames (done : List (Step × Except String JsonValue)) :
    List String :=
  done.map fun executed => executed.1.id

theorem keys_entries (done : List (Step × Except String JsonValue)) :
    (entries done).map Prod.fst = executedNames done :=
  List.map_map

section Executes

variable {i j : Nat} {steps rest : List Step} {state last : RunState}
  {done : List (Step × Except String JsonValue)}

theorem Executes.results
    (executes : Executes environment opts inputs i steps state done j rest
      last) :
    last.results = insertAll (entries done) state.results := by
  induction executes with
  | none => rfl
  | step goesOn later ih => exact ih

theorem Executes.stepsExecuted
    (executes : Executes environment opts inputs i steps state done j rest
      last) :
    last.stepsExecuted = state.stepsExecuted + done.length := by
  induction executes with
  | none => rfl
  | step goesOn later ih =>
      rw [ih, List.length_cons, stepsExecuted_stateAfter]
      omega

theorem Executes.resultsBytes
    (executes : Executes environment opts inputs i steps state done j rest
      last) :
    last.resultsBytes = state.resultsBytes +
      (done.map fun executed => counted environment executed.2).sum := by
  induction executes with
  | none => rfl
  | step goesOn later ih =>
      rw [ih, List.map_cons, List.sum_cons, resultsBytes_stateAfter,
        Nat.add_assoc]

/-- The steps that are executed are the first ones. -/
theorem Executes.steps_eq
    (executes : Executes environment opts inputs i steps state done j rest
      last) :
    steps = done.map Prod.fst ++ rest := by
  induction executes with
  | none => rfl
  | step goesOn later ih => rw [ih]; rfl

/-- The steps that are executed are reported, and nothing ends the run. -/
theorem Executes.events
    (executes : Executes environment opts inputs i steps state done j rest
      last) :
    ∃ blocks, executeSteps environment opts inputs i steps state =
        blocks ++ executeSteps environment opts inputs j rest last ∧
      blocks.filterMap AgentEvent.stepValue? =
        done.map (fun executed => executed.2.toOption) ∧
      ∀ event ∈ blocks, event.isFinal = false := by
  induction executes with
  | none => exact ⟨[], rfl, rfl, by simp⟩
  | @step i j step steps rest state last done goesOn later ih =>
      obtain ⟨block, whole, reported, goes⟩ :=
        executeSteps_of_goesOn goesOn steps
      obtain ⟨blocks, further, others, go⟩ := ih
      refine ⟨block ++ blocks, ?_, ?_, List.forall_mem_append.mpr ⟨goes, go⟩⟩
      · rw [whole, further, List.append_assoc]
      · rw [List.filterMap_append, reported, others]
        rfl

end Executes

/-! ## The end of the loop -/

section Ends

variable {i : Nat} {steps : List Step} {state last : RunState}
  {done : List (Step × Except String JsonValue)}

theorem RunsOut.results
    (runsOut : RunsOut environment opts inputs i steps state done last) :
    last.results = insertAll (entries done) state.results := by
  cases runsOut with
  | stopped executes stops => exact executes.results
  | overBudget executes ready resolves notFinal large =>
      rw [entries_append, insertAll_append, ← executes.results]
      rfl

/-- The steps that are executed before the loop runs out are the first
ones. -/
theorem RunsOut.first_steps
    (runsOut : RunsOut environment opts inputs i steps state done last) :
    done.map Prod.fst <+: steps := by
  cases runsOut with
  | stopped executes stops => exact ⟨_, executes.steps_eq.symm⟩
  | @overBudget j step args rest before done executes ready resolves
      notFinal large =>
      refine ⟨rest, ?_⟩
      rw [executes.steps_eq, List.map_append, List.append_assoc]
      rfl

/-- A loop that runs out reports the steps that it has executed, and ends with
an event that is made up. -/
theorem RunsOut.events
    (runsOut : RunsOut environment opts inputs i steps state done last) :
    ∃ blocks, executeSteps environment opts inputs i steps state =
        blocks ++ [synthesizedFinal environment last] ∧
      blocks.filterMap AgentEvent.stepValue? =
        done.map (fun executed => executed.2.toOption) ∧
      ∀ event ∈ blocks, event.isFinal = false := by
  cases runsOut with
  | @stopped j rest last done executes stops =>
      obtain ⟨blocks, whole, reported, goes⟩ := executes.events
      rw [whole]
      cases rest with
      | nil => exact ⟨blocks, rfl, reported, goes⟩
      | cons step rest =>
          have limit := stops.resolve_left (List.cons_ne_nil step rest)
          obtain ⟨errors, ending, which⟩ :=
            executeSteps_of_stops inputs limit step rest last
          rw [ending]
          rcases which with rfl | ⟨kind, message, rfl⟩
          · exact ⟨blocks, rfl, reported, goes⟩
          · refine ⟨blocks ++ [.error kind message], by simp, ?_,
              List.forall_mem_append.mpr
                ⟨goes, List.forall_mem_singleton.mpr rfl⟩⟩
            rw [List.filterMap_append, reported]
            exact List.append_nil _
  | @overBudget j step args rest before done executes ready resolves
      notFinal large =>
      obtain ⟨blocks, whole, reported, goes⟩ := executes.events
      rw [whole, executeSteps_of_resolved rest ready resolves]
      dsimp only
      rw [if_neg notFinal, settle_of_resolved resolves, if_pos large]
      refine ⟨blocks ++
        [.stepStart (j + 1) step.id step.tool (redactForSse args),
          (settle environment opts j step before
            (called environment opts j step args)).2,
          .error "result_budget_exceeded"
            (budgetMessage opts
              (stateAfter environment opts inputs j step before))],
        by simp, ?_,
        List.forall_mem_append.mpr ⟨goes, ?_⟩⟩
      · rw [List.filterMap_append, reported, List.filterMap_cons_none rfl,
          List.filterMap_cons_some (stepValue_settle resolves), List.map_append]
        rfl
      · exact List.forall_mem_cons.mpr ⟨rfl, List.forall_mem_cons.mpr
          ⟨isFinal_settle _ _ _ _, List.forall_mem_singleton.mpr rfl⟩⟩

/-- The loop executes steps until there is none that it goes on after. -/
theorem exists_executes (steps : List Step) (i : Nat) (state : RunState) :
    ∃ done j rest last,
      Executes environment opts inputs i steps state done j rest last ∧
        ∀ step more, rest = step :: more →
          ¬ GoesOn environment opts inputs j step last := by
  induction steps generalizing i state with
  | nil => exact ⟨[], i, [], state, .none, by simp⟩
  | cons step steps ih =>
      by_cases goesOn : GoesOn environment opts inputs i step state
      · obtain ⟨done, j, rest, last, later, ends⟩ :=
          ih (i + 1) (stateAfter environment opts inputs i step state)
        exact ⟨_ :: done, j, rest, last, .step goesOn later, ends⟩
      · refine ⟨[], i, step :: steps, state, .none, ?_⟩
        rintro first more same
        obtain ⟨rfl, rfl⟩ := List.cons.inj same
        exact goesOn

/-- The loop runs out of steps, or is completed by a `final` step, or the
receiver is gone. -/
theorem executeSteps_ends (steps : List Step) (i : Nat) (state : RunState) :
    (∃ done last, RunsOut environment opts inputs i steps state done last) ∨
    (∃ blocks answer totalMs,
      executeSteps environment opts inputs i steps state = blocks ++
        [.final answer (state.stepsExecuted +
          (blocks.filterMap AgentEvent.stepValue?).length) totalMs true] ∧
      ∀ event ∈ blocks, event.isFinal = false) ∨
    ∀ event ∈ executeSteps environment opts inputs i steps state,
      event.isFinal = false := by
  obtain ⟨done, j, rest, last, executes, ends⟩ :=
    @exists_executes environment opts inputs steps i state
  cases rest with
  | nil => exact Or.inl ⟨done, last, .stopped executes (Or.inl rfl)⟩
  | cons step rest =>
      have ends := ends step rest rfl
      obtain ⟨blocks, whole, reported, goes⟩ := executes.events
      rcases ready_cases environment opts inputs j with stops | gone | ready
      · exact Or.inl ⟨done, last, .stopped executes (Or.inr stops)⟩
      · rw [whole, gone, List.append_nil]
        exact Or.inr (Or.inr goes)
      cases resolves : resolveStepArgs inputs last.results step with
      | error e => exact absurd (.unresolved ready resolves) ends
      | ok args =>
          by_cases isFinal : step.tool = "final"
          · refine Or.inr (Or.inl ?_)
            rw [whole, executeSteps_of_resolved rest ready resolves]
            dsimp only
            rw [if_pos isFinal, finalEvent_settle]
            refine ⟨blocks ++
              [.stepStart (j + 1) step.id step.tool (redactForSse args),
                (settle environment opts j step last
                  (called environment opts j step args)).2],
              answerOf opts (called environment opts j step args),
              elapsedMs environment.startedAt environment.finishedAt, ?_,
              List.forall_mem_append.mpr ⟨goes, ?_⟩⟩
            · rw [List.append_assoc, List.filterMap_append, reported,
                executes.stepsExecuted, List.filterMap_cons_none rfl,
                List.filterMap_cons_some (stepValue_settle resolves)]
              simp [Nat.add_assoc]
            · exact List.forall_mem_cons.mpr
                ⟨rfl, List.forall_mem_singleton.mpr (isFinal_settle _ _ _ _)⟩
          · by_cases large : opts.perRunBytes <
                (stateAfter environment opts inputs j step last).resultsBytes
            · exact Or.inl ⟨_, _,
                .overBudget executes ready resolves isFinal large⟩
            · exact absurd (.called ready resolves isFinal (not_lt.mp large))
                ends

end Ends

/-! ## Whole runs -/

/-- A run ends without a `final` step and with the receiver there: there is no
plan, or the loop runs out. -/
inductive Unfinished (environment : Environment) (opts : ExecOptions)
    (userMsg : String) (inputs : List (String × Input)) :
    List (Step × Except String JsonValue) → RunState → Prop
  | noPlan {event : AgentEvent}
      (failed : makePlan environment opts userMsg inputs = .error event) :
      Unfinished environment opts userMsg inputs [] .initial
  | ranOut {steps : List Step} {retries : Nat} {last : RunState}
      {done : List (Step × Except String JsonValue)}
      (planned : makePlan environment opts userMsg inputs = .ok (steps, retries))
      (runsOut : RunsOut environment opts inputs 0 steps .initial done last) :
      Unfinished environment opts userMsg inputs done last

section Runs

variable {userMsg : String} {last : RunState}
  {done : List (Step × Except String JsonValue)}

theorem Unfinished.results
    (unfinished : Unfinished environment opts userMsg inputs done last) :
    last.results = insertAll (entries done) [] := by
  cases unfinished with
  | noPlan failed => rfl
  | ranOut planned runsOut => exact runsOut.results

theorem Unfinished.events
    (unfinished : Unfinished environment opts userMsg inputs done last) :
    ∃ blocks, run environment opts userMsg inputs =
        blocks ++ [synthesizedFinal environment last] ∧
      blocks.filterMap AgentEvent.stepValue? =
        done.map (fun executed => executed.2.toOption) ∧
      ∀ event ∈ blocks, event.isFinal = false := by
  unfold run
  cases unfinished with
  | @noPlan event failed =>
      obtain ⟨kind, message, rfl⟩ :=
        makePlan_error environment opts inputs failed
      rw [failed]
      exact ⟨[_, .error kind message], rfl, rfl, List.forall_mem_cons.mpr
        ⟨rfl, List.forall_mem_singleton.mpr rfl⟩⟩
  | @ranOut steps retries last done planned runsOut =>
      obtain ⟨blocks, whole, reported, goes⟩ := runsOut.events
      rw [planned]
      refine ⟨_ :: _ :: blocks, congrArg (_ :: _ :: ·) whole, reported,
        List.forall_mem_cons.mpr ⟨rfl, List.forall_mem_cons.mpr ⟨rfl, goes⟩⟩⟩

/-- A run is unfinished, or it is completed by a `final` step, or the receiver
is gone before its end. -/
theorem run_ends (environment : Environment) (opts : ExecOptions)
    (userMsg : String) (inputs : List (String × Input)) :
    (∃ done last, Unfinished environment opts userMsg inputs done last) ∨
    (∃ blocks answer totalMs, run environment opts userMsg inputs = blocks ++
        [.final answer (blocks.filterMap AgentEvent.stepValue?).length totalMs
          true] ∧
      ∀ event ∈ blocks, event.isFinal = false) ∨
    ∀ event ∈ run environment opts userMsg inputs, event.isFinal = false := by
  cases planned : makePlan environment opts userMsg inputs with
  | error event => exact Or.inl ⟨[], .initial, .noPlan planned⟩
  | ok plan =>
      obtain ⟨steps, retries⟩ := plan
      unfold run
      rw [planned]
      rcases executeSteps_ends steps 0 .initial with
        ⟨done, last, runsOut⟩ | ⟨blocks, answer, totalMs, whole, goes⟩ | gone
      · exact Or.inl ⟨done, last, .ranOut planned runsOut⟩
      · refine Or.inr (Or.inl ⟨_ :: _ :: blocks, answer, totalMs,
          congrArg (_ :: _ :: ·) ?_,
          List.forall_mem_cons.mpr ⟨rfl, List.forall_mem_cons.mpr ⟨rfl, goes⟩⟩⟩)
        exact whole.trans (by rw [RunState.initial, Nat.zero_add]; rfl)
      · exact Or.inr (Or.inr (List.forall_mem_cons.mpr
          ⟨rfl, List.forall_mem_cons.mpr ⟨rfl, gone⟩⟩))

/-- Only the last event of a run is final. -/
theorem append_final_inj {blocks before after : List AgentEvent}
    {last event : AgentEvent} (goes : ∀ other ∈ blocks, other.isFinal = false)
    (isFinal : event.isFinal = true)
    (same : blocks ++ [last] = before ++ event :: after) :
    blocks = before ∧ last = event ∧ after = [] := by
  have fresh : event ∉ blocks := fun mem => by
    rw [goes event mem] at isFinal
    cases isFinal
  obtain ⟨rfl, rfl, rfl⟩ :=
    (List.append_cons_inj_of_notMem fresh List.not_mem_nil).mp same
  exact ⟨rfl, rfl, rfl⟩

end Runs

end AgentExecutor

end TorchInference
