import TorchInference.AgentRequests
import TorchInference.FinalDelivery
import TorchInference.TransitionRuns

/-!
# Runs and the permits of their responses

A request that is admitted spawns a task that nothing ever cancels.  The permit
belongs to the response, which returns it when the stream has ended or the
client is gone; the task looks for a closed channel only before each step.
-/

namespace TorchInference

open AgentExecutor hiding run
open PlannerDsl CallTable

/-! ## The steps of a task -/

/-- Where a task is: about to start, waiting for the planner or for a tool,
before a step, or finished. -/
inductive RunPhase where
  | starting
  | planning
  | repairing (raw1 : String) (e1 : ParseError)
  | beforeStep (i : Nat) (steps : List Step) (state : RunState)
  | calling (i : Nat) (step : Step) (args : JsonValue) (steps : List Step)
      (state : RunState)
  | finished

namespace RunPhase

def isFinished : RunPhase → Bool
  | .finished => true
  | _ => false

variable (environment : Environment) (job : AgentJob)

/-- The events of a plan that cannot be had. -/
def giveUp (event : AgentEvent) : List AgentEvent × RunPhase :=
  ([event, synthesizedFinal environment .initial], .finished)

/-- The event of a plan, which is then executed. -/
def startPlan (steps : List Step) (retries : Nat) :
    List AgentEvent × RunPhase :=
  ([.plan (steps.map fun step => ⟨step.id, step.tool, step.argsAsJson⟩)
    retries], .beforeStep 0 steps .initial)

/-- What a task sends until it waits again, and where it waits then; `closed`
says whether the receiver is gone.  A task that has finished stays so. -/
def next (closed : Bool) : RunPhase → List AgentEvent × RunPhase
  | .starting =>
      ([.runStart environment.runId "hrm-text-1b" job.opts.maxRunMs
        job.opts.maxSteps], .planning)
  | .planning =>
      match environment.propose 0
          (buildPlannerPrompt job.userMsg (inputSummary job.inputs))
          job.opts.plannerMaxTokens job.opts.plannerTemperature with
      | .error e => giveUp environment (.error "planner_failed" e)
      | .ok raw1 =>
          match parse environment.libraries raw1 with
          | .ok steps => startPlan steps 0
          | .error e1 => ([], .repairing raw1 e1)
  | .repairing raw1 e1 =>
      match environment.propose 1 (buildRepairPrompt raw1 e1.text)
          job.opts.plannerMaxTokens job.opts.plannerTemperature with
      | .error e => giveUp environment (.error "planner_failed" e)
      | .ok raw2 =>
          match parse environment.libraries raw2 with
          | .ok steps => startPlan steps 1
          | .error e2 => giveUp environment (.error "plan_unparseable"
              ("first parse: " ++ e1.text ++ "; second parse: " ++ e2.text))
  | .beforeStep _ [] state => ([synthesizedFinal environment state], .finished)
  | .beforeStep i (step :: steps) state =>
      if job.opts.maxSteps ≤ i then
        ([synthesizedFinal environment state], .finished)
      else if deadline environment job.opts ≤ environment.checkedAt i then
        ([.error "deadline_exceeded" s!"hit {job.opts.maxRunMs}ms cap",
          synthesizedFinal environment state], .finished)
      else if closed then ([], .finished)
      else
        match resolveStepArgs job.inputs state.results step with
        | .error e =>
            ([.stepResult (i + 1) step.id false none
                (some ("ref_unresolved: " ++ e)) 0],
              .beforeStep (i + 1) steps (unresolved step e state))
        | .ok args =>
            ([.stepStart (i + 1) step.id step.tool (redactForSse args)],
              .calling i step args steps state)
  | .calling i step args steps state =>
      let settled := settle environment job.opts i step state
        (called environment job.opts i step args)
      if step.tool = "final" then
        ([settled.2, finalEvent environment step settled.1], .finished)
      else if job.opts.perRunBytes < settled.1.resultsBytes then
        ([settled.2, .error "result_budget_exceeded"
            (budgetMessage job.opts settled.1),
          synthesizedFinal environment settled.1], .finished)
      else ([settled.2], .beforeStep (i + 1) steps settled.1)
  | .finished => ([], .finished)

/-! ## The tasks send what a run sends -/

/-- The events that follow a plan or a failure to make one. -/
def afterPlan : Except AgentEvent (List Step × Nat) → List AgentEvent
  | .error event => [event, synthesizedFinal environment .initial]
  | .ok (steps, retries) =>
      .plan (steps.map fun step => ⟨step.id, step.tool, step.argsAsJson⟩)
          retries ::
        executeSteps environment job.opts job.inputs 0 steps .initial

/-- The second attempt at a plan. -/
def repairPlan (raw1 : String) (e1 : ParseError) :
    Except AgentEvent (List Step × Nat) :=
  match environment.propose 1 (buildRepairPrompt raw1 e1.text)
      job.opts.plannerMaxTokens job.opts.plannerTemperature with
  | .error e => .error (.error "planner_failed" e)
  | .ok raw2 =>
      match parse environment.libraries raw2 with
      | .ok steps => .ok (steps, 1)
      | .error e2 => .error (.error "plan_unparseable"
          ("first parse: " ++ e1.text ++ "; second parse: " ++ e2.text))

/-- The events that a task has still to send, by the definition of a run. -/
def remaining : RunPhase → List AgentEvent
  | .starting =>
      AgentExecutor.run environment job.opts job.userMsg job.inputs
  | .planning =>
      afterPlan environment job
        (makePlan environment job.opts job.userMsg job.inputs)
  | .repairing raw1 e1 =>
      afterPlan environment job (repairPlan environment job raw1 e1)
  | .beforeStep i steps state =>
      executeSteps environment job.opts job.inputs i steps state
  | .calling i step args steps state =>
      let settled := settle environment job.opts i step state
        (called environment job.opts i step args)
      settled.2 ::
        if step.tool = "final" then [finalEvent environment step settled.1]
        else if job.opts.perRunBytes < settled.1.resultsBytes then
          [.error "result_budget_exceeded" (budgetMessage job.opts settled.1),
            synthesizedFinal environment settled.1]
        else
          executeSteps environment job.opts job.inputs (i + 1) steps settled.1
  | .finished => []

/-- Whether the receiver is gone when a task looks. -/
def closedAt : RunPhase → Bool
  | .beforeStep i _ _ => environment.closed i
  | _ => false

/-- Each step sends the next of the events of a run. -/
theorem remaining_next (phase : RunPhase) :
    remaining environment job phase =
      (next environment job (closedAt environment phase) phase).1 ++
        remaining environment job
          (next environment job (closedAt environment phase) phase).2 := by
  cases phase with
  | starting => rfl
  | planning =>
      unfold remaining next makePlan
      dsimp only
      cases environment.propose 0 _ _ _ with
      | error e => rfl
      | ok raw1 =>
          dsimp only
          cases parse environment.libraries raw1 with
          | ok steps => rfl
          | error e1 => rfl
  | repairing raw1 e1 =>
      unfold remaining next repairPlan
      dsimp only
      cases environment.propose 1 _ _ _ with
      | error e => rfl
      | ok raw2 =>
          dsimp only
          cases parse environment.libraries raw2 with
          | ok steps => rfl
          | error e2 => rfl
  | beforeStep i steps state =>
      cases steps with
      | nil => rfl
      | cons step steps =>
          change executeSteps environment job.opts job.inputs i (step :: steps)
            state = _
          by_cases atMost : job.opts.maxSteps ≤ i
          · simp [executeSteps, next, atMost, remaining]
          by_cases late : deadline environment job.opts ≤
              environment.checkedAt i
          · simp [executeSteps, next, atMost, late, remaining]
          cases closed : environment.closed i with
          | true =>
              simp [executeSteps, next, atMost, late, closedAt, closed,
                remaining]
          | false =>
              have ready : Ready environment job.opts i :=
                ⟨not_le.mp atMost, not_le.mp late, closed⟩
              cases resolves : resolveStepArgs job.inputs state.results step with
              | error e =>
                  rw [executeSteps_of_unresolved steps ready resolves]
                  simp [next, atMost, late, closedAt, closed, resolves,
                    remaining]
              | ok args =>
                  rw [executeSteps_of_resolved steps ready resolves]
                  simp [next, atMost, late, closedAt, closed, resolves,
                    remaining]
  | calling i step args steps state =>
      unfold remaining next
      dsimp only
      split_ifs with isFinal large
      · rfl
      · rfl
      · rfl
  | finished => rfl

/-- What a task sends in a number of steps, and where it is then. -/
def after : Nat → RunPhase → List AgentEvent × RunPhase
  | 0, phase => ([], phase)
  | n + 1, phase =>
      let first := next environment job (closedAt environment phase) phase
      let later := after n first.2
      (first.1 ++ later.1, later.2)

theorem remaining_after (n : Nat) (phase : RunPhase) :
    remaining environment job phase =
      (after environment job n phase).1 ++
        remaining environment job (after environment job n phase).2 := by
  induction n generalizing phase with
  | zero => rfl
  | succ n ih =>
      rw [remaining_next, ih (next environment job _ phase).2, after,
        List.append_assoc]

/-- A task comes to its end from a phase. -/
def Finishes (phase : RunPhase) : Prop :=
  ∃ n, (after environment job n phase).2 = .finished

variable {environment job}

theorem finishes_of_next {phase later : RunPhase}
    (goesTo : (next environment job (closedAt environment phase) phase).2 =
      later) (finishes : Finishes environment job later) :
    Finishes environment job phase := by
  obtain ⟨n, ended⟩ := finishes
  refine ⟨n + 1, ?_⟩
  rw [after, goesTo]
  exact ended

theorem finished_finishes : Finishes environment job .finished :=
  ⟨0, rfl⟩

/-- From before a step, a task ends the run, leaves the step out or calls its
tool. -/
theorem next_beforeStep (closed : Bool) (i : Nat) (step : Step)
    (steps : List Step) (state : RunState) :
    (next environment job closed (.beforeStep i (step :: steps) state)).2 =
        .finished ∨
      (∃ later, (next environment job closed
        (.beforeStep i (step :: steps) state)).2 =
          .beforeStep (i + 1) steps later) ∨
      ∃ args, (next environment job closed
        (.beforeStep i (step :: steps) state)).2 =
          .calling i step args steps state := by
  unfold next
  dsimp only
  split_ifs with atMost late isClosed
  · exact .inl rfl
  · exact .inl rfl
  · exact .inl rfl
  cases resolveStepArgs job.inputs state.results step with
  | error e => exact .inr (.inl ⟨_, rfl⟩)
  | ok args => exact .inr (.inr ⟨args, rfl⟩)

/-- From the call of a tool, a task ends the run or goes on with the next
step. -/
theorem next_calling (closed : Bool) (i : Nat) (step : Step)
    (args : JsonValue) (steps : List Step) (state : RunState) :
    (next environment job closed (.calling i step args steps state)).2 =
        .finished ∨
      ∃ later, (next environment job closed
        (.calling i step args steps state)).2 =
          .beforeStep (i + 1) steps later := by
  unfold next
  dsimp only
  split_ifs with isFinal large
  · exact .inl rfl
  · exact .inl rfl
  · exact .inr ⟨_, rfl⟩

/-- A plan is executed to its end. -/
theorem beforeStep_finishes (steps : List Step) (i : Nat) (state : RunState) :
    Finishes environment job (.beforeStep i steps state) := by
  induction steps generalizing i state with
  | nil => exact finishes_of_next rfl finished_finishes
  | cons step steps ih =>
      rcases @next_beforeStep environment job (environment.closed i) i step
        steps state with
          ended | ⟨later, leaves⟩ | ⟨args, calls⟩
      · exact finishes_of_next ended finished_finishes
      · exact finishes_of_next leaves (ih (i + 1) later)
      · refine finishes_of_next calls ?_
        rcases @next_calling environment job false i step args steps
          state with ended | ⟨later, goesOn⟩
        · exact finishes_of_next ended finished_finishes
        · exact finishes_of_next goesOn (ih (i + 1) later)

theorem repairing_finishes (raw1 : String) (e1 : ParseError) :
    Finishes environment job (.repairing raw1 e1) := by
  refine finishes_of_next rfl ?_
  unfold next
  dsimp only
  cases environment.propose 1 _ _ _ with
  | error e => exact finished_finishes
  | ok raw2 =>
      dsimp only
      cases parse environment.libraries raw2 with
      | ok steps => exact beforeStep_finishes steps 0 .initial
      | error e2 => exact finished_finishes

theorem planning_finishes : Finishes environment job .planning := by
  refine finishes_of_next rfl ?_
  unfold next
  dsimp only
  cases environment.propose 0 _ _ _ with
  | error e => exact finished_finishes
  | ok raw1 =>
      dsimp only
      cases parse environment.libraries raw1 with
      | ok steps => exact beforeStep_finishes steps 0 .initial
      | error e1 => exact repairing_finishes raw1 e1

/-- A task finishes, and what it has sent until then is what a run sends. -/
theorem task_sends_run (environment : Environment) (job : AgentJob) :
    ∃ n, after environment job n .starting =
      (AgentExecutor.run environment job.opts job.userMsg job.inputs,
        .finished) := by
  obtain ⟨n, ended⟩ : RunPhase.Finishes environment job .starting :=
    finishes_of_next rfl planning_finishes
  refine ⟨n, Prod.ext ?_ ended⟩
  have sends := remaining_after environment job n .starting
  rw [ended, remaining, remaining, List.append_nil] at sends
  exact sends.symm

end RunPhase

/-! ## The server -/

/-- A task that has been spawned, and whether its response still exists. -/
structure AgentRun where
  environment : Environment
  job : AgentJob
  phase : RunPhase
  connected : Bool

namespace AgentRun

/-- The task has not finished. -/
def unfinished (run : AgentRun) : Nat :=
  if run.phase.isFinished then 0 else 1

/-- The response holds a permit. -/
def permits (run : AgentRun) : Nat :=
  if run.connected then 1 else 0

/-- The task goes on without its response. -/
def detached (run : AgentRun) : Nat :=
  if run.connected then 0 else run.unfinished

/-- The response is still there although the task has finished. -/
def idle (run : AgentRun) : Nat :=
  if run.connected then 1 - run.unfinished else 0

/-- The next step of the task; it looks whether the response is gone. -/
def advance (run : AgentRun) : AgentRun :=
  { run with
    phase := (run.phase.next run.environment run.job (!run.connected)).2 }

end AgentRun

structure AgentServer where
  layer : AgentLayer
  runs : List AgentRun

inductive AgentAction where
  | request (rss : UInt64) (environment : Environment) (req : AgentRunRequest)
  | advance (index : Nat)
  | disconnect (index : Nat)
  | endStream (index : Nat)

namespace AgentServer

def new (layer : AgentLayer) : AgentServer where
  layer := layer
  runs := []

/-- The stream of a response is dropped, and its permit with it. -/
def dropResponse (server : AgentServer) (index : Nat) (run : AgentRun) :
    AgentServer where
  layer := { server.layer with sem := server.layer.sem.release }
  runs := server.runs.set index { run with connected := false }

def step (server : AgentServer) : AgentAction → Option AgentServer
  | .request rss environment req =>
      match server.layer.run rss req with
      | (layer, .error _) => some { server with layer := layer }
      | (layer, .ok job) => some {
          layer := layer
          runs := server.runs ++ [⟨environment, job, .starting, true⟩] }
  | .advance index =>
      match server.runs[index]? with
      | none => none
      | some run =>
          if run.phase.isFinished then none
          else some { server with runs := server.runs.set index run.advance }
  | .disconnect index =>
      match server.runs[index]? with
      | none => none
      | some run =>
          if run.connected then some (server.dropResponse index run) else none
  | .endStream index =>
      -- The channel ends when the task has finished.
      match server.runs[index]? with
      | none => none
      | some run =>
          if run.connected && run.phase.isFinished then
            some (server.dropResponse index run)
          else none

/-- The tasks that have been spawned and have not finished. -/
def unfinished (server : AgentServer) : Nat :=
  total AgentRun.unfinished server.runs

/-- A request is admitted only while the unfinished tasks whose responses are
gone are fewer than the permits that are free or belong to responses whose
tasks have finished. -/
def AdmitsInTime (server : AgentServer) : AgentAction → Prop
  | .request rss _ req =>
      (server.layer.run rss req).2.isOk = true →
        total AgentRun.detached server.runs <
          server.layer.sem.available + total AgentRun.idle server.runs
  | _ => True

/-- All permits are there, and the tasks are not too many. -/
structure Bounded (m : Nat) (server : AgentServer) : Prop where
  permits : server.layer.sem.available + total AgentRun.permits server.runs = m
  unfinished_le : server.unfinished ≤ m

/-- A task is unfinished with its response or without it, and a response
belongs to an unfinished task or to a finished one. -/
theorem total_unfinished_add_idle (runs : List AgentRun) :
    total AgentRun.unfinished runs + total AgentRun.idle runs =
      total AgentRun.permits runs + total AgentRun.detached runs := by
  induction runs with
  | nil => rfl
  | cons run runs ih =>
      have one : run.unfinished + run.idle = run.permits + run.detached := by
        unfold AgentRun.idle AgentRun.permits AgentRun.detached
          AgentRun.unfinished
        split_ifs <;> rfl
      simp only [total, List.map_cons, List.sum_cons] at ih ⊢
      omega

/-- A task that goes on has at most been unfinished. -/
theorem unfinished_advance_le (run : AgentRun) (goesOn : run.unfinished = 1) :
    run.advance.unfinished ≤ run.unfinished := by
  rw [goesOn, AgentRun.unfinished]
  split_ifs
  · exact Nat.zero_le 1
  · exact Nat.le_refl 1

variable {m : Nat} {server next : AgentServer}

theorem Bounded.dropResponse (bounded : Bounded m server) {index : Nat}
    {run : AgentRun} (atIndex : server.runs[index]? = some run)
    (connected : run.connected = true) :
    Bounded m (server.dropResponse index run) := by
  obtain ⟨front, back, split⟩ := split_of_getElem? atIndex
  obtain ⟨permits, few⟩ := bounded
  constructor
  · rw [split.total_eq] at permits
    simp only [AgentServer.dropResponse, CountingSemaphore.release_available,
      split.total_set]
    simp only [AgentRun.permits, connected, if_true, Bool.false_eq_true,
      if_false] at permits ⊢
    omega
  · rw [unfinished, split.total_eq] at few
    rw [unfinished, AgentServer.dropResponse]
    dsimp only
    rw [split.total_set]
    exact few

theorem Bounded.advance {index : Nat} {run : AgentRun}
    (bounded : Bounded m server) (atIndex : server.runs[index]? = some run)
    (goesOn : ¬ run.phase.isFinished = true) :
    Bounded m { server with runs := server.runs.set index run.advance } := by
  obtain ⟨front, back, split⟩ := split_of_getElem? atIndex
  have before : run.unfinished = 1 := if_neg goesOn
  have fewer := unfinished_advance_le run before
  obtain ⟨permits, few⟩ := bounded
  constructor
  · rw [split.total_eq] at permits
    rw [split.total_set]
    exact permits
  · rw [unfinished, split.total_eq] at few
    rw [unfinished]
    dsimp only
    rw [split.total_set]
    omega

/-- A response goes with its client, or with the end of its stream. -/
theorem dropped_of_step {index : Nat} {action : AgentAction}
    (drops : action = .disconnect index ∨ action = .endStream index)
    (stepTo : server.step action = some next) :
    ∃ run, server.runs[index]? = some run ∧ run.connected = true ∧
      next = server.dropResponse index run := by
  cases atIndex : server.runs[index]? with
  | none => rcases drops with rfl | rfl <;> simp [step, atIndex] at stepTo
  | some run =>
      refine ⟨run, rfl, ?_⟩
      rcases drops with rfl | rfl
      · simp only [step, atIndex] at stepTo
        split_ifs at stepTo with connected
        exact ⟨connected, (Option.some.inj stepTo).symm⟩
      · simp only [step, atIndex] at stepTo
        split_ifs at stepTo with ended
        rw [Bool.and_eq_true] at ended
        exact ⟨ended.1, (Option.some.inj stepTo).symm⟩

/-- A step that meets the condition keeps the bound. -/
theorem Bounded.step (bounded : Bounded m server) {action : AgentAction}
    (inTime : AdmitsInTime server action)
    (stepTo : server.step action = some next) : Bounded m next := by
  cases action with
  | request rss environment req =>
      rcases server.layer.run_cases rss req with
        ⟨sem, gate, job, acquired, admitted⟩ | ⟨gate, refusal, refused⟩
      · simp only [AgentServer.step, admitted, Option.some.injEq] at stepTo
        subst stepTo
        have free := CountingSemaphore.tryAcquire_eq_some.mp acquired
        have room := inTime (by rw [admitted]; rfl)
        have balance := total_unfinished_add_idle server.runs
        obtain ⟨permits, few⟩ := bounded
        constructor
        · simp only [total_concat, AgentRun.permits, if_true]
          omega
        · simp only [unfinished, total_concat, AgentRun.unfinished,
            RunPhase.isFinished, Bool.false_eq_true, if_false] at few ⊢
          omega
      · simp only [AgentServer.step, refused, Option.some.injEq] at stepTo
        subst stepTo
        exact ⟨bounded.permits, bounded.unfinished_le⟩
  | advance index =>
      cases atIndex : server.runs[index]? with
      | none => simp [AgentServer.step, atIndex] at stepTo
      | some run =>
          simp only [AgentServer.step, atIndex] at stepTo
          split_ifs at stepTo with finished
          obtain rfl := Option.some.inj stepTo
          exact bounded.advance atIndex finished
  | disconnect index =>
      obtain ⟨run, atIndex, connected, rfl⟩ :=
        dropped_of_step (.inl rfl) stepTo
      exact bounded.dropResponse atIndex connected
  | endStream index =>
      obtain ⟨run, atIndex, connected, rfl⟩ :=
        dropped_of_step (.inr rfl) stepTo
      exact bounded.dropResponse atIndex connected

/-- A step that does not meet the condition leads to too many tasks. -/
theorem not_unfinished_le_of_step (bounded : Bounded m server)
    {action : AgentAction} (late : ¬ AdmitsInTime server action)
    (stepTo : server.step action = some next) : ¬ next.unfinished ≤ m := by
  cases action with
  | request rss environment req =>
      simp only [AdmitsInTime, Classical.not_imp, not_lt] at late
      obtain ⟨isOk, crowded⟩ := late
      rcases server.layer.run_cases rss req with
        ⟨sem, gate, job, acquired, admitted⟩ | ⟨gate, refusal, refused⟩
      · simp only [AgentServer.step, admitted, Option.some.injEq] at stepTo
        subst stepTo
        have balance := total_unfinished_add_idle server.runs
        obtain ⟨permits, -⟩ := bounded
        simp only [unfinished, total_concat, AgentRun.unfinished,
          RunPhase.isFinished, Bool.false_eq_true, if_false]
        omega
      · rw [refused] at isOk
        cases isOk
  | advance _ | disconnect _ | endStream _ => exact absurd trivial late

/-- Whatever the order of the requests, of the steps of the tasks and of the
disconnects is, the unfinished tasks stay within the configured number of runs
exactly as long as each request is admitted in time. -/
theorem unfinished_le_iff_admitsInTime (config : AgentConfig)
    (gate : MemoryGate) (limits : AgentLimits)
    (positive : 1 ≤ config.maxConcurrentRuns) (actions : List AgentAction)
    {last : AgentServer}
    (reaches : TransitionRuns.run step
      (new (AgentLayer.new config gate limits)) actions = some last) :
    (∀ reached ∈ TransitionRuns.visited step
        (new (AgentLayer.new config gate limits)) actions,
      reached.unfinished ≤ config.maxConcurrentRuns) ↔
      TransitionRuns.Meets step AdmitsInTime
        (new (AgentLayer.new config gate limits)) actions := by
  have start : Bounded config.maxConcurrentRuns
      (new (AgentLayer.new config gate limits)) :=
    ⟨Nat.max_eq_left positive, Nat.zero_le _⟩
  exact TransitionRuns.forall_visited_iff_meets
    (fun _ bounded => bounded.unfinished_le)
    (fun _ _ _ bounded inTime stepTo => bounded.step inTime stepTo)
    (fun _ _ _ bounded late stepTo =>
      not_unfinished_le_of_step bounded late stepTo)
    start reaches

/-! ## One run at a time -/

def oneAtATime : AgentLayer :=
  .new
    { enabled := true, maxSteps := 8, maxRunMs := 5000, perToolMs := 2000
      maxConcurrentRuns := 1, plannerTemperature := 0 }
    { highWaterBytes := 100, lowWaterBytes := 50, aboveWater := false }
    { maxImageBytes := 1024, maxMessages := 4, sseEventBuffer := 16
      fieldTrimAbove := 8192, perRunBytes := 65536 }

def question : AgentAction :=
  .request 10 failingTool
    { messages := [⟨"user", "Q"⟩], input := none, config := none }

/-- A client asks and is gone while the planner works; the next request is
admitted, and two tasks work although one is the limit. -/
theorem unfinished_after_disconnect :
    oneAtATime.config.maxConcurrentRuns = 1 ∧
      (TransitionRuns.run step (new oneAtATime)
        [question, .advance 0, .disconnect 0, question, .advance 1]).map
          unfinished = some 2 :=
  ⟨rfl, rfl⟩

/-- A second request that comes while the first client is there is refused. -/
theorem unfinished_of_refused :
    (TransitionRuns.run step (new oneAtATime)
        [question, .advance 0, question]).map unfinished = some 1 ∧
      ∀ reached ∈ TransitionRuns.visited step (new oneAtATime)
        [question, .advance 0, question], reached.unfinished ≤ 1 :=
  ⟨rfl, (unfinished_le_iff_admitsInTime oneAtATime.config oneAtATime.gate
    oneAtATime.limits (by decide) [question, .advance 0, question] rfl).mpr
      ⟨fun _ => by decide, trivial, nofun, trivial⟩⟩

end AgentServer

end TorchInference
