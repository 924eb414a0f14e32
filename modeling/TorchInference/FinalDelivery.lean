import TorchInference.AgentEvents

/-!
# The answer of a completed run

A run that comes to a `final` step whose arguments can be resolved calls the
tool of that name, reports its result, and ends with an event that says that
the run is completed.  The answer of that event is looked up in the result.
-/

namespace TorchInference

/-- The tool `final`: its value repeats the answer among the arguments. -/
def finalTool (args : JsonValue) : Except ToolError JsonValue :=
  match (args.field "answer").bind JsonValue.asStr with
  | none => .error (.badArg "final requires `answer` (string)")
  | some answer => .ok (.object [("answer", .string answer)])

namespace AgentExecutor

open PlannerDsl OrderedInsertion

/-! ## What a completed run promises -/

/-- Every event that says that the run is completed carries the answer of a
`final` step that was started and succeeded. -/
def Delivered (events : List AgentEvent) : Prop :=
  ∀ answer stepsExecuted totalMs,
    .final answer stepsExecuted totalMs true ∈ events →
      ∃ idx id args value durationMs,
        .stepStart idx id "final" args ∈ events ∧
          .stepResult idx id true (some value) none durationMs ∈ events ∧
          (value.field "answer").bind JsonValue.asStr = some answer

variable (environment : Environment) (opts : ExecOptions)
  (inputs : List (String × Input))

/-- The state before the first step. -/
def RunState.initial : RunState where
  results := []
  resultsBytes := 0
  stepsExecuted := 0

/-- What is kept of a step with an argument that cannot be resolved. -/
def unresolved (step : Step) (e : String) (state : RunState) : RunState where
  results := insert step.id
    (.object [("error", .string ("ref_unresolved: " ++ e))]) state.results
  resultsBytes := state.resultsBytes
  stepsExecuted := state.stepsExecuted + 1

/-- The loop goes on at a position: neither the number of steps, nor the
deadline, nor a receiver that is gone ends it. -/
structure Ready (i : Nat) : Prop where
  within : i < opts.maxSteps
  early : environment.checkedAt i < deadline environment opts
  connected : environment.closed i = false

/-- The call of the tool of the step at a position. -/
def called (i : Nat) (step : Step) (args : JsonValue) :
    Except ToolError JsonValue :=
  dispatch environment i step.tool args (min (deadline environment opts)
    (environment.dispatchedAt i + opts.perToolMs * 1000000))

/-- The loop, from a position on, comes to call the tool of a step. -/
inductive Dispatches : Nat → List Step → RunState → Nat → Step → JsonValue →
    Prop
  | here {i : Nat} {step : Step} {steps : List Step} {state : RunState}
      {args : JsonValue} (ready : Ready environment opts i)
      (resolves : resolveStepArgs inputs state.results step = .ok args) :
      Dispatches i (step :: steps) state i step args
  | afterUnresolved {i j : Nat} {step last : Step} {steps : List Step}
      {state : RunState} {e : String} {args : JsonValue}
      (ready : Ready environment opts i)
      (resolves : resolveStepArgs inputs state.results step = .error e)
      (later : Dispatches (i + 1) steps (unresolved step e state) j last args) :
      Dispatches i (step :: steps) state j last args
  | afterCall {i j : Nat} {step last : Step} {steps : List Step}
      {state : RunState} {resolved args : JsonValue}
      (ready : Ready environment opts i)
      (resolves : resolveStepArgs inputs state.results step = .ok resolved)
      (notFinal : step.tool ≠ "final")
      (small : (settle environment opts i step state
        (called environment opts i step resolved)).1.resultsBytes ≤
          opts.perRunBytes)
      (later : Dispatches (i + 1) steps (settle environment opts i step state
        (called environment opts i step resolved)).1 j last args) :
      Dispatches i (step :: steps) state j last args

/-- Every `final` step whose tool the run comes to call returns a value with a
text as its answer. -/
def FinalAnswers (userMsg : String) : Prop :=
  ∀ steps retries,
    makePlan environment opts userMsg inputs = .ok (steps, retries) →
      ∀ i step args,
        Dispatches environment opts inputs 0 steps .initial i step args →
          step.tool = "final" →
            ∃ value answer, called environment opts i step args = .ok value ∧
              value.field "answer" = some (.string answer)

/-! ## The texts of a result -/

/-- A change of the texts of an object changes the text under a key. -/
theorem field_mapTextFields (change : String → String) (key : String)
    (value : JsonValue) :
    ((mapTextFields change value).field key).bind JsonValue.asStr =
      ((value.field key).bind JsonValue.asStr).map change := by
  cases value with
  | object entries =>
      simp only [mapTextFields, JsonValue.field]
      induction entries with
      | nil => rfl
      | cons entry entries ih =>
          obtain ⟨name, member⟩ := entry
          rw [List.map_cons, List.lookup_cons]
          cases same : key == name with
          | true =>
              cases member <;> simp [List.lookup_cons, same, JsonValue.asStr]
          | false =>
              cases member <;> simpa [List.lookup_cons, same] using ih
  | null | bool | number | string | array => rfl

theorem asStr_eq_some {value : Option JsonValue} {text : String} :
    value.bind JsonValue.asStr = some text ↔ value = some (.string text) := by
  constructor
  · intro isText
    obtain ⟨member, rfl, reads⟩ := Option.bind_eq_some_iff.mp isText
    cases member with
    | string found =>
        obtain rfl := Option.some.inj reads
        rfl
    | null | bool | number | array | object => cases reads
  · rintro rfl
    rfl

/-! ## The end of a run that calls the final tool -/

/-- What the final event of a run takes from the result of the last call. -/
def answerOf : Except ToolError JsonValue → String
  | .ok value =>
      (((trimLargeFields opts.fieldTrimAbove value).field "answer").bind
        JsonValue.asStr).getD ""
  | .error _ => ""

/-- The result that is looked up is the one that was just stored. -/
theorem finalEvent_settle (i : Nat) (step : Step) (state : RunState)
    (result : Except ToolError JsonValue) :
    finalEvent environment step
        (settle environment opts i step state result).1 =
      .final (answerOf opts result) (state.stepsExecuted + 1)
        (elapsedMs environment.startedAt environment.finishedAt) true := by
  cases result with
  | ok value =>
      unfold finalEvent settle
      rw [lookup_insert_self]
      rfl
  | error e =>
      unfold finalEvent settle
      rw [lookup_insert_self]
      rfl

/-- An event of the steps before a position: it starts no `final` step and
ends no run. -/
def AgentEvent.Before (j : Nat) : AgentEvent → Prop
  | .stepStart idx _ tool _ => idx ≤ j ∧ tool ≠ "final"
  | .stepResult idx _ _ _ _ _ => idx ≤ j
  | .final .. => False
  | _ => True

theorem before_settle {i j : Nat} (earlier : i < j) (step : Step)
    (state : RunState) (result : Except ToolError JsonValue) :
    (settle environment opts i step state result).2.Before j := by
  cases result with
  | ok value => exact earlier
  | error e => exact earlier

variable {environment opts inputs}

/-- Before each step the loop stops at a limit, or finds that the receiver is
gone, or goes on. -/
theorem ready_cases (environment : Environment) (opts : ExecOptions)
    (inputs : List (String × Input)) (i : Nat) :
    (opts.maxSteps ≤ i ∨
      deadline environment opts ≤ environment.checkedAt i) ∨
    (∀ step steps state,
      executeSteps environment opts inputs i (step :: steps) state = []) ∨
    Ready environment opts i := by
  by_cases atMost : opts.maxSteps ≤ i
  · exact Or.inl (Or.inl atMost)
  by_cases late : deadline environment opts ≤ environment.checkedAt i
  · exact Or.inl (Or.inr late)
  cases gone : environment.closed i with
  | true =>
      refine Or.inr (Or.inl fun step steps state => ?_)
      rw [executeSteps, if_neg atMost, if_neg late, if_pos gone]
  | false =>
      exact Or.inr (Or.inr ⟨not_le.mp atMost, not_le.mp late, gone⟩)

/-- At a limit the loop ends with an event that is made up, perhaps after an
error. -/
theorem executeSteps_of_stops (inputs : List (String × Input)) {i : Nat}
    (stops : opts.maxSteps ≤ i ∨
      deadline environment opts ≤ environment.checkedAt i)
    (step : Step) (steps : List Step) (state : RunState) :
    ∃ errors,
      executeSteps environment opts inputs i (step :: steps) state =
        errors ++ [synthesizedFinal environment state] ∧
      (errors = [] ∨ ∃ kind message, errors = [.error kind message]) := by
  rw [executeSteps]
  by_cases atMost : opts.maxSteps ≤ i
  · rw [if_pos atMost]
    exact ⟨[], rfl, Or.inl rfl⟩
  · rw [if_neg atMost, if_pos (stops.resolve_left atMost)]
    exact ⟨[_], rfl, Or.inr ⟨_, _, rfl⟩⟩

/-- A step with an argument that cannot be resolved has failed. -/
theorem executeSteps_of_unresolved {i : Nat} {step : Step} {state : RunState}
    {e : String} (steps : List Step) (ready : Ready environment opts i)
    (resolves : resolveStepArgs inputs state.results step = .error e) :
    executeSteps environment opts inputs i (step :: steps) state =
      .stepResult (i + 1) step.id false none
          (some ("ref_unresolved: " ++ e)) 0 ::
        executeSteps environment opts inputs (i + 1) steps
          (unresolved step e state) := by
  rw [executeSteps, if_neg (not_le.mpr ready.within),
    if_neg (not_le.mpr ready.early), if_neg (by simp [ready.connected]),
    resolves]
  rfl

/-- A step whose arguments are resolved is started, called and settled. -/
theorem executeSteps_of_resolved {i : Nat} {step : Step} {state : RunState}
    {args : JsonValue} (steps : List Step) (ready : Ready environment opts i)
    (resolves : resolveStepArgs inputs state.results step = .ok args) :
    executeSteps environment opts inputs i (step :: steps) state =
      let settled := settle environment opts i step state
        (called environment opts i step args)
      .stepStart (i + 1) step.id step.tool (redactForSse args) ::
        settled.2 ::
        if step.tool = "final" then [finalEvent environment step settled.1]
        else if opts.perRunBytes < settled.1.resultsBytes then
          [.error "result_budget_exceeded" (budgetMessage opts settled.1),
            synthesizedFinal environment settled.1]
        else executeSteps environment opts inputs (i + 1) steps settled.1 := by
  rw [executeSteps, if_neg (not_le.mpr ready.within),
    if_neg (not_le.mpr ready.early), if_neg (by simp [ready.connected]),
    resolves]
  rfl

/-- A run that comes to call the tool of a `final` step starts the step,
reports its result and is completed. -/
theorem executeSteps_of_dispatches {i j : Nat} {steps : List Step}
    {state : RunState} {step : Step} {args : JsonValue}
    (comes : Dispatches environment opts inputs i steps state j step args)
    (isFinal : step.tool = "final") :
    i ≤ j ∧ ∃ before reached,
      executeSteps environment opts inputs i steps state =
        before ++ [.stepStart (j + 1) step.id "final" (redactForSse args),
          (settle environment opts j step reached
            (called environment opts j step args)).2,
          .final (answerOf opts (called environment opts j step args))
            (reached.stepsExecuted + 1)
            (elapsedMs environment.startedAt environment.finishedAt) true] ∧
        ∀ event ∈ before, event.Before j := by
  induction comes with
  | @here i step steps state args ready resolves =>
      refine ⟨Nat.le_refl i, [], state, ?_, by simp⟩
      rw [executeSteps_of_resolved steps ready resolves]
      dsimp only
      rw [if_pos isFinal, isFinal, finalEvent_settle]
      rfl
  | @afterUnresolved i j step last steps state e args ready resolves later ih =>
      obtain ⟨beyond, before, reached, whole, earlier⟩ := ih isFinal
      refine ⟨Nat.le_of_succ_le beyond,
        .stepResult (i + 1) step.id false none
          (some ("ref_unresolved: " ++ e)) 0 :: before, reached, ?_,
        List.forall_mem_cons.mpr ⟨beyond, earlier⟩⟩
      rw [executeSteps_of_unresolved steps ready resolves, whole]
      rfl
  | @afterCall i j step last steps state resolved args ready resolves notFinal
      small later ih =>
      obtain ⟨beyond, before, reached, whole, earlier⟩ := ih isFinal
      refine ⟨Nat.le_of_succ_le beyond,
        .stepStart (i + 1) step.id step.tool (redactForSse resolved) ::
          (settle environment opts i step state
            (called environment opts i step resolved)).2 :: before, reached, ?_,
        List.forall_mem_cons.mpr ⟨⟨beyond, notFinal⟩, List.forall_mem_cons.mpr
          ⟨before_settle environment opts beyond step state _, earlier⟩⟩⟩
      rw [executeSteps_of_resolved steps ready resolves]
      dsimp only
      rw [if_neg notFinal, if_neg (not_lt.mpr small), whole]
      rfl

/-- A run that is completed has called the tool of a `final` step. -/
theorem dispatches_of_completed {answer : String} {stepsExecuted totalMs : Nat}
    (steps : List Step) (i : Nat) (state : RunState)
    (completed : .final answer stepsExecuted totalMs true ∈
      executeSteps environment opts inputs i steps state) :
    ∃ j step args,
      Dispatches environment opts inputs i steps state j step args ∧
        step.tool = "final" := by
  induction steps generalizing i state with
  | nil => simp [executeSteps, synthesizedFinal] at completed
  | cons step steps ih =>
      rcases ready_cases environment opts inputs i with stops | gone | ready
      · obtain ⟨errors, whole, which⟩ :=
          executeSteps_of_stops inputs stops step steps state
        rw [whole] at completed
        rcases which with rfl | ⟨kind, message, rfl⟩
        · simp [synthesizedFinal] at completed
        · simp [synthesizedFinal] at completed
      · rw [gone] at completed
        cases completed
      cases resolves : resolveStepArgs inputs state.results step with
      | error e =>
          rw [executeSteps_of_unresolved steps ready resolves] at completed
          have later := (List.mem_cons.mp completed).resolve_left nofun
          obtain ⟨j, last, args, comes, isFinal⟩ := ih _ _ later
          exact ⟨j, last, args, .afterUnresolved ready resolves comes, isFinal⟩
      | ok resolved =>
          rw [executeSteps_of_resolved steps ready resolves] at completed
          dsimp only at completed
          by_cases isFinal : step.tool = "final"
          · exact ⟨i, step, resolved, .here ready resolves, isFinal⟩
          rw [if_neg isFinal] at completed
          have notSettled : AgentEvent.final answer stepsExecuted totalMs true ≠
              (settle environment opts i step state
                (called environment opts i step resolved)).2 := by
            cases called environment opts i step resolved <;> nofun
          have later := (List.mem_cons.mp ((List.mem_cons.mp
            completed).resolve_left nofun)).resolve_left notSettled
          split_ifs at later with large
          · simp [synthesizedFinal] at later
          obtain ⟨j, last, args, comes, isLast⟩ := ih _ _ later
          exact ⟨j, last, args,
            .afterCall ready resolves isFinal (not_lt.mp large) comes, isLast⟩

/-! ## When the answer is delivered -/

/-- A step that delivers has called its tool, and got a string. -/
theorem answers_of_delivered {steps : List Step} {state : RunState}
    (delivered : Delivered
      (executeSteps environment opts inputs 0 steps state))
    {i : Nat} {step : Step} {args : JsonValue}
    (comes : Dispatches environment opts inputs 0 steps state i step args)
    (isFinal : step.tool = "final") :
    ∃ value answer, called environment opts i step args = .ok value ∧
      value.field "answer" = some (.string answer) := by
  obtain ⟨-, before, reached, whole, earlier⟩ :=
    executeSteps_of_dispatches comes isFinal
  rw [whole] at delivered
  obtain ⟨idx, id, args', value, durationMs, starts, succeeds, answers⟩ :=
    delivered _ _ _ (List.mem_append_right before
      (.tail _ (.tail _ (.head _))))
  -- The step that was started is the last one, as is its result.
  have last : idx = i + 1 := by
    rcases List.mem_append.mp starts with early | late
    · exact absurd rfl (earlier _ early).2
    · cases result : called environment opts i step args <;>
        simp [settle, result] at late <;> exact late.1
  subst last
  have settles : .stepResult (i + 1) id true (some value) none durationMs =
      (settle environment opts i step reached
        (called environment opts i step args)).2 := by
    rcases List.mem_append.mp succeeds with early | late
    · exact absurd (earlier _ early) (Nat.not_succ_le_self i)
    · simpa using late
  cases result : called environment opts i step args with
  | error e => simp [settle, result] at settles
  | ok found =>
      simp only [settle, result, AgentEvent.stepResult.injEq,
        Option.some.injEq] at settles
      obtain ⟨-, -, -, rfl, -, -⟩ := settles
      rw [trimLargeFields, field_mapTextFields, Option.map_eq_some_iff]
        at answers
      obtain ⟨answer, reads, -⟩ := answers
      exact ⟨found, answer, rfl, asStr_eq_some.mp reads⟩

/-- The run delivers the string that the `final` step it ends with has got. -/
theorem delivered_of_answers {steps : List Step} {state : RunState}
    (condition : ∀ i step args,
      Dispatches environment opts inputs 0 steps state i step args →
        step.tool = "final" →
          ∃ value answer, called environment opts i step args = .ok value ∧
            value.field "answer" = some (.string answer)) :
    Delivered (executeSteps environment opts inputs 0 steps state) := by
  intro answer stepsExecuted totalMs completed
  obtain ⟨i, step, args, comes, isFinal⟩ :=
    dispatches_of_completed steps 0 state completed
  obtain ⟨value, text, result, reads⟩ := condition i step args comes isFinal
  obtain ⟨-, before, reached, whole, earlier⟩ :=
    executeSteps_of_dispatches comes isFinal
  rw [whole] at completed ⊢
  rw [result] at completed ⊢
  refine ⟨i + 1, step.id, redactForSse args,
    trimLargeFields opts.fieldTrimAbove value, _,
    List.mem_append_right before (.head _),
    List.mem_append_right before (.tail _ (.head _)), ?_⟩
  have carried : answer = answerOf opts (.ok value) := by
    rcases List.mem_append.mp completed with early | late
    · exact absurd (earlier _ early) id
    · simp [settle] at late
      exact late.1
  rw [carried, answerOf, trimLargeFields, field_mapTextFields,
    asStr_eq_some.mpr reads]
  rfl

/-- The loop delivers the answer when the tool of each `final` step that it
comes to call returns one. -/
theorem executeSteps_delivered_iff {steps : List Step} {state : RunState} :
    Delivered (executeSteps environment opts inputs 0 steps state) ↔
      ∀ i step args,
        Dispatches environment opts inputs 0 steps state i step args →
          step.tool = "final" →
            ∃ value answer, called environment opts i step args = .ok value ∧
              value.field "answer" = some (.string answer) :=
  ⟨fun delivered _ _ _ comes isFinal =>
    answers_of_delivered delivered comes isFinal, delivered_of_answers⟩

/-- Events that are about no step and end no run do not matter. -/
theorem delivered_cons {event : AgentEvent} {events : List AgentEvent}
    (other : event.mark = .other) (goesOn : event.isFinal = false) :
    Delivered (event :: events) ↔ Delivered events := by
  have notFinal {answer stepsExecuted totalMs completed} :
      .final answer stepsExecuted totalMs completed ∈ event :: events ↔
        .final answer stepsExecuted totalMs completed ∈ events := by
    rw [List.mem_cons, or_iff_right (by rintro rfl; cases goesOn)]
  have notStart {idx id tool args} :
      .stepStart idx id tool args ∈ event :: events ↔
        .stepStart idx id tool args ∈ events := by
    rw [List.mem_cons, or_iff_right (by rintro rfl; cases other)]
  have notResult {idx id ok value error durationMs} :
      .stepResult idx id ok value error durationMs ∈ event :: events ↔
        .stepResult idx id ok value error durationMs ∈ events := by
    rw [List.mem_cons, or_iff_right (by rintro rfl; cases other)]
  simp only [Delivered, notFinal, notStart, notResult]

/-- A run delivers the answer that it reports, whatever the planner, the tools
and the budgets are, exactly when the tool of the `final` step that it comes to
call returns a text as its answer. -/
theorem run_delivered_iff (environment : Environment) (opts : ExecOptions)
    (userMsg : String) (inputs : List (String × Input)) :
    Delivered (run environment opts userMsg inputs) ↔
      FinalAnswers environment opts inputs userMsg := by
  unfold run FinalAnswers
  rw [delivered_cons rfl rfl]
  cases made : makePlan environment opts userMsg inputs with
  | error event =>
      obtain ⟨kind, message, rfl⟩ := makePlan_error environment opts inputs made
      constructor
      · intro _ steps retries planned
        cases planned
      · intro _ answer stepsExecuted totalMs completed
        simp [synthesizedFinal] at completed
  | ok plan =>
      obtain ⟨steps, retries⟩ := plan
      rw [delivered_cons rfl rfl, executeSteps_delivered_iff]
      constructor
      · rintro condition _ _ ⟨⟩
        exact condition
      · intro condition
        exact condition steps retries rfl

/-! ## The registered tool -/

/-- The tool answers exactly when its argument is a text. -/
theorem finalTool_answers_iff (args : JsonValue) :
    (∃ value answer, finalTool args = .ok value ∧
      value.field "answer" = some (.string answer)) ↔
      ∃ answer, args.field "answer" = some (.string answer) := by
  unfold finalTool
  cases reads : (args.field "answer").bind JsonValue.asStr with
  | none =>
      refine ⟨fun ⟨_, _, failed, _⟩ => (nomatch failed), fun ⟨answer, found⟩ => ?_⟩
      rw [found] at reads
      cases reads
  | some answer =>
      exact ⟨fun _ => ⟨answer, asStr_eq_some.mp reads⟩,
        fun _ => ⟨_, answer, rfl, rfl⟩⟩

/-- With the tool of this program under the name `final`, the `answer` of each
`final` step that the run comes to call has to be a text. -/
theorem finalAnswers_iff_of_registered (environment : Environment)
    (opts : ExecOptions) (userMsg : String) (inputs : List (String × Input))
    (registered : environment.tools "final" =
      some fun _ args _ => finalTool args) :
    FinalAnswers environment opts inputs userMsg ↔
      ∀ steps retries,
        makePlan environment opts userMsg inputs = .ok (steps, retries) →
          ∀ i step args,
            Dispatches environment opts inputs 0 steps .initial i step args →
              step.tool = "final" →
                ∃ answer, args.field "answer" = some (.string answer) := by
  refine forall₂_congr fun steps retries => forall_congr' fun _ =>
    forall₃_congr fun i step args => forall₂_congr fun _ isFinal => ?_
  rw [called, dispatch, isFinal, registered]
  exact finalTool_answers_iff args

/-! ## A final step with a number -/

/-- A planner whose plan ends with a number instead of a text. -/
def numberAnswer : Environment where
  libraries := asciiLibraries
  floats := RequestDeduplicator.bitsText
  runId := "run"
  propose := fun _ _ _ _ => .ok "step1. final(answer=42)"
  tools := fun name =>
    if name = "final" then some fun _ args _ => finalTool args else none
  startedAt := 0
  checkedAt := fun i => i
  dispatchedAt := fun i => i
  stepStartedAt := fun i => i
  stepFinishedAt := fun i => i + 1
  finishedAt := 10
  closed := fun _ => false

theorem makePlan_numberAnswer :
    makePlan numberAnswer eightSteps "Q" [] = .ok ([⟨"step1", "final",
      [("answer", .literal (.number (.posInt 42)))]⟩], 0) :=
  rfl

/-- The run comes to call the tool with the number. -/
theorem numberAnswer_dispatches :
    Dispatches numberAnswer eightSteps [] 0
      [⟨"step1", "final", [("answer", .literal (.number (.posInt 42)))]⟩]
      .initial 0
      ⟨"step1", "final", [("answer", .literal (.number (.posInt 42)))]⟩
      (.object [("answer", .number (.posInt 42))]) :=
  .here ⟨by decide, by decide, rfl⟩ rfl

/-- The tool refuses the number, and the run is reported as completed with an
empty answer. -/
theorem numberAnswer_not_delivered :
    .final "" 1 0 true ∈ run numberAnswer eightSteps "Q" [] ∧
      ¬ Delivered (run numberAnswer eightSteps "Q" []) := by
  rw [run, makePlan_numberAnswer]
  dsimp only
  constructor
  · rw [executeSteps_of_resolved [] ⟨by decide, by decide, rfl⟩ rfl]
    dsimp only
    rw [if_pos rfl, finalEvent_settle]
    exact .tail _ (.tail _ (.tail _ (.tail _ (.head _))))
  · rw [delivered_cons rfl rfl, delivered_cons rfl rfl]
    intro delivered
    obtain ⟨value, answer, result, -⟩ :=
      executeSteps_delivered_iff.mp delivered 0 _ _ numberAnswer_dispatches rfl
    cases result

end AgentExecutor

end TorchInference
