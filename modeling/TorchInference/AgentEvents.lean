import TorchInference.AgentExecutor
import TorchInference.TracedSteps
import TorchInference.PlannerDslRoundTrip
import TorchInference.RequestDeduplicator

/-!
# The events of a run

A run reports its start, at most one plan, the results of the steps in order,
and its end.  Each step that is started has its result before another step is
started.
-/

namespace TorchInference

namespace AgentExecutor

open PlannerDsl OrderedInsertion AnsweredTraces

/-! ## The protocol -/

namespace AgentEvent

def isRunStart : AgentEvent → Bool
  | .runStart .. => true
  | _ => false

def isPlan : AgentEvent → Bool
  | .plan .. => true
  | _ => false

def isFinal : AgentEvent → Bool
  | .final .. => true
  | _ => false

/-- What an event says about the step with an index and a name. -/
def mark : AgentEvent → Mark (Nat × String)
  | .stepStart idx id .. => .opens (idx, id)
  | .stepResult idx id .. => .closes (idx, id)
  | _ => .other

/-- The names of the planned steps. -/
def planned : AgentEvent → List String
  | .plan steps _ => steps.map PlanStep.id
  | _ => []

end AgentEvent

/-- The indices and names of some steps, the first of which is at a position. -/
def stepKeys (i : Nat) (ids : List String) : List (Nat × String) :=
  (ids.zipIdx (i + 1)).map Prod.swap

/-- The protocol of the events of a run. -/
structure FollowsProtocol (maxSteps : Nat) (events : List AgentEvent) :
    Prop where
  begins : ∃ first rest, events = first :: rest ∧ first.isRunStart = true ∧
    ∀ event ∈ rest, event.isRunStart = false
  onePlan : events.countP AgentEvent.isPlan ≤ 1
  planFirst : ∀ before event after, events = before ++ event :: after →
    event.mark ≠ .other → ∃ plan ∈ before, plan.isPlan = true
  results : ∃ k ≤ maxSteps, k ≤ (events.flatMap AgentEvent.planned).length ∧
    events.filterMap (fun event => event.mark.closed?) =
      stepKeys 0 ((events.flatMap AgentEvent.planned).take k)
  answered : ∀ before event after key, events = before ++ event :: after →
    event.mark = .opens key → ∃ between answer later,
      after = between ++ answer :: later ∧ answer.mark = .closes key ∧
        ∀ other ∈ between, ∀ otherKey, other.mark ≠ .opens otherKey
  ends : ∃ before last, events = before ++ [last] ∧ last.isFinal = true ∧
    ∀ event ∈ before, event.isFinal = false

/-! ## The shape of a run -/

/-- The end of a run: perhaps an error, and the final event. -/
inductive Ending : List AgentEvent → Prop
  | final (answer : String) (stepsExecuted totalMs : Nat) (completed : Bool) :
      Ending [.final answer stepsExecuted totalMs completed]
  | error (kind message answer : String) (stepsExecuted totalMs : Nat)
      (completed : Bool) :
      Ending [.error kind message,
        .final answer stepsExecuted totalMs completed]

variable (environment : Environment) (opts : ExecOptions)
  (inputs : List (String × Input))

theorem mark_settle (i : Nat) (step : Step) (state : RunState)
    (result : Except ToolError JsonValue) :
    (settle environment opts i step state result).2.mark =
      .closes (i + 1, step.id) := by
  cases result <;> rfl

/-- The loop answers for some of the steps in order, and ends. -/
theorem executeSteps_shape (connected : ∀ i, environment.closed i = false)
    (i : Nat) (steps : List Step) (state : RunState) :
    ∃ k blocks ending, k ≤ steps.length ∧ k ≤ opts.maxSteps - i ∧
      executeSteps environment opts inputs i steps state = blocks ++ ending ∧
      Answered AgentEvent.mark (stepKeys i ((steps.map Step.id).take k))
        blocks ∧
      Ending ending := by
  induction steps generalizing i state with
  | nil =>
      exact ⟨0, [], _, Nat.le_refl 0, Nat.zero_le _, rfl, .nil, .final _ _ _ _⟩
  | cons step steps ih =>
      unfold executeSteps
      by_cases atMost : opts.maxSteps ≤ i
      · rw [if_pos atMost]
        exact ⟨0, [], _, Nat.zero_le _, Nat.zero_le _, rfl, .nil,
          .final _ _ _ _⟩
      by_cases late : deadline environment opts ≤ environment.checkedAt i
      · rw [if_neg atMost, if_pos late]
        exact ⟨0, [], _, Nat.zero_le _, Nat.zero_le _, rfl, .nil,
          .error _ _ _ _ _ _⟩
      rw [if_neg atMost, if_neg late, if_neg (by simp [connected i]),
        List.map_cons]
      have one : 0 + 1 ≤ (step :: steps).length ∧ 0 + 1 ≤ opts.maxSteps - i := by
        rw [List.length_cons]
        omega
      cases resolveStepArgs inputs state.results step with
      | error e =>
          dsimp only
          obtain ⟨k, blocks, ending, inside, within, whole, answered, ends⟩ :=
            ih (i + 1) _
          rw [whole]
          exact ⟨k + 1, _ :: blocks, ending, Nat.succ_le_succ inside, by omega,
            rfl, .alone rfl answered, ends⟩
      | ok resolved =>
          dsimp only
          have settles := mark_settle environment opts i step state (dispatch environment i step.tool resolved
              (min (deadline environment opts)
                (environment.dispatchedAt i + opts.perToolMs * 1000000)))
          generalize settle environment opts i step state _ = settled
            at settles ⊢
          split_ifs with isFinal large
          · exact ⟨1, [_, _], _, one.1, one.2, rfl, .pair rfl settles .nil,
              .final _ _ _ _⟩
          · exact ⟨1, [_, _], _, one.1, one.2, rfl, .pair rfl settles .nil,
              .error _ _ _ _ _ _⟩
          · obtain ⟨k, blocks, ending, inside, within, whole, answered, ends⟩ :=
              ih (i + 1) settled.1
            rw [whole]
            exact ⟨k + 1, _ :: _ :: blocks, ending, Nat.succ_le_succ inside,
              by omega, rfl, .pair rfl settles answered, ends⟩

/-! ## The parts of a run -/

/-- An event about a step is none of the others. -/
theorem AgentEvent.about_step {event : AgentEvent}
    (aboutStep : event.mark ≠ .other) :
    event.isRunStart = false ∧ event.isPlan = false ∧ event.isFinal = false ∧
      event.planned = [] := by
  cases event with
  | stepStart idx id tool args => exact ⟨rfl, rfl, rfl, rfl⟩
  | stepResult idx id ok value error durationMs => exact ⟨rfl, rfl, rfl, rfl⟩
  | runStart _ _ _ _ | plan _ _ | error _ _ | final _ _ _ _ =>
      exact absurd rfl aboutStep

theorem Ending.other {ending : List AgentEvent} (ends : Ending ending) :
    ∀ event ∈ ending, event.mark = .other ∧ event.isRunStart = false ∧
      event.isPlan = false ∧ event.planned = [] := by
  cases ends with
  | final _ _ _ _ =>
      rintro event (_ | ⟨_, ⟨⟩⟩)
      exact ⟨rfl, rfl, rfl, rfl⟩
  | error _ _ _ _ _ _ =>
      rintro event (_ | ⟨_, _ | ⟨_, ⟨⟩⟩⟩)
      · exact ⟨rfl, rfl, rfl, rfl⟩
      · exact ⟨rfl, rfl, rfl, rfl⟩

/-- The final event is the last one of an ending, and the only one. -/
theorem Ending.concat {ending : List AgentEvent} (ends : Ending ending) :
    ∃ errors last, ending = errors ++ [last] ∧ last.isFinal = true ∧
      ∀ event ∈ errors, event.isFinal = false := by
  cases ends with
  | final answer stepsExecuted totalMs completed =>
      exact ⟨[], _, rfl, rfl, by simp⟩
  | error kind message answer stepsExecuted totalMs completed =>
      exact ⟨[.error kind message], _, rfl, rfl, by simp [AgentEvent.isFinal]⟩

/-- Nothing is said about steps where every event is another one. -/
theorem filterMap_closed_eq_nil {events : List AgentEvent}
    (other : ∀ event ∈ events, event.mark = .other) :
    events.filterMap (fun event => event.mark.closed?) = [] := by
  rw [List.filterMap_eq_nil_iff]
  intro event mem
  rw [other event mem]
  rfl

theorem flatMap_planned_eq_nil {events : List AgentEvent}
    (unplanned : ∀ event ∈ events, event.planned = []) :
    events.flatMap AgentEvent.planned = [] :=
  List.flatMap_eq_nil_iff.mpr unplanned

theorem countP_isPlan_eq_zero {events : List AgentEvent}
    (noPlan : ∀ event ∈ events, event.isPlan = false) :
    events.countP AgentEvent.isPlan = 0 := by
  rw [List.countP_eq_zero]
  intro event mem
  simp [noPlan event mem]

section Shapes

variable {maxSteps deadlineMs steps retries : Nat} {runId model : String}
  {payload : List PlanStep} {blocks ending : List AgentEvent}

/-- A run that ends without a plan follows the protocol. -/
theorem followsProtocol_without_plan (ends : Ending ending) :
    FollowsProtocol maxSteps
      (.runStart runId model deadlineMs steps :: ending) := by
  obtain ⟨errors, last, whole, isLast, noFinal⟩ := ends.concat
  have other : ∀ event ∈ AgentEvent.runStart runId model deadlineMs steps ::
      ending, event.mark = .other :=
    List.forall_mem_cons.mpr ⟨rfl, fun event mem => (ends.other event mem).1⟩
  have noPlan : ∀ event ∈ AgentEvent.runStart runId model deadlineMs steps ::
      ending, event.isPlan = false :=
    List.forall_mem_cons.mpr
      ⟨rfl, fun event mem => (ends.other event mem).2.2.1⟩
  refine ⟨⟨_, ending, rfl, rfl, fun event mem => (ends.other event mem).2.1⟩,
    ?_, ?_, ⟨0, Nat.zero_le _, Nat.zero_le _, ?_⟩, ?_, ?_⟩
  · rw [countP_isPlan_eq_zero noPlan]
    exact Nat.zero_le 1
  · intro before event after split about
    exact absurd (other event (by rw [split]; simp)) about
  · rw [filterMap_closed_eq_nil other]
    rfl
  · intro before event after key split opens
    rw [other event (by rw [split]; simp)] at opens
    cases opens
  · exact ⟨_ :: errors, last, by rw [whole]; rfl, isLast,
      List.forall_mem_cons.mpr ⟨rfl, noFinal⟩⟩

/-- An event about a step comes after the start and the plan, and among the
blocks. -/
theorem split_of_about (ends : Ending ending) {before after : List AgentEvent}
    {event : AgentEvent}
    (split : AgentEvent.runStart runId model deadlineMs steps ::
      .plan payload retries :: (blocks ++ ending) = before ++ event :: after)
    (about : event.mark ≠ .other) :
    ∃ inner, before = .runStart runId model deadlineMs steps ::
        .plan payload retries :: inner ∧
      blocks ++ ending = inner ++ event :: after ∧
      inner.length < blocks.length := by
  match before, split with
  | [], split =>
      obtain ⟨rfl, -⟩ := List.cons.inj split
      exact absurd rfl about
  | [_], split =>
      obtain ⟨-, split⟩ := List.cons.inj split
      obtain ⟨rfl, -⟩ := List.cons.inj split
      exact absurd rfl about
  | first :: second :: inner, split =>
      simp only [List.cons_append, List.cons.injEq] at split
      obtain ⟨rfl, rfl, split⟩ := split
      refine ⟨inner, rfl, split, ?_⟩
      by_contra beyond
      have late : event ∈ ending := by
        have dropped := congrArg (List.drop blocks.length) split
        rw [List.drop_left, List.drop_append_of_le_length (not_lt.mp beyond)]
          at dropped
        rw [dropped]
        simp
      exact about (ends.other event late).1

/-- A run with a plan, answers for some of its steps in order, and an ending
follows the protocol. -/
theorem followsProtocol_with_plan {k : Nat} (within : k ≤ maxSteps)
    (inside : k ≤ payload.length)
    (answered : Answered AgentEvent.mark
      (stepKeys 0 ((payload.map PlanStep.id).take k)) blocks)
    (ends : Ending ending) :
    FollowsProtocol maxSteps (.runStart runId model deadlineMs steps ::
      .plan payload retries :: (blocks ++ ending)) := by
  have aboutSteps (event : AgentEvent) (mem : event ∈ blocks) :=
    AgentEvent.about_step (answered.not_other event mem)
  obtain ⟨errors, last, whole, isLast, noFinal⟩ := ends.concat
  have planned : (AgentEvent.runStart runId model deadlineMs steps ::
      .plan payload retries :: (blocks ++ ending)).flatMap AgentEvent.planned =
        payload.map PlanStep.id := by
    have inBlocks := flatMap_planned_eq_nil fun event mem =>
      (aboutSteps event mem).2.2.2
    have inEnding := flatMap_planned_eq_nil fun event mem =>
      (ends.other event mem).2.2.2
    simp [AgentEvent.planned, inBlocks, inEnding]
  refine ⟨⟨_, _, rfl, rfl, ?_⟩, ?_, ?_, ⟨k, within, ?_, ?_⟩, ?_, ?_⟩
  · refine List.forall_mem_cons.mpr ⟨rfl, List.forall_mem_append.mpr
      ⟨fun event mem => (aboutSteps event mem).1,
        fun event mem => (ends.other event mem).2.1⟩⟩
  · have inBlocks := countP_isPlan_eq_zero fun event mem =>
      (aboutSteps event mem).2.1
    have inEnding := countP_isPlan_eq_zero fun event mem =>
      (ends.other event mem).2.2.1
    simp [List.countP_cons, AgentEvent.isPlan, inBlocks, inEnding]
  · intro before event after split about
    obtain ⟨inner, rfl, -, -⟩ := split_of_about ends split about
    exact ⟨.plan payload retries, by simp, rfl⟩
  · rw [planned, List.length_map]
    exact inside
  · have inEnding := filterMap_closed_eq_nil fun event mem =>
      (ends.other event mem).1
    rw [planned, List.filterMap_cons_none rfl, List.filterMap_cons_none rfl,
      List.filterMap_append, answered.filterMap_closed, inEnding,
      List.append_nil]
  · intro before event after key split opens
    obtain ⟨inner, -, split, inRange⟩ :=
      split_of_about ends split (by rw [opens]; nofun)
    obtain ⟨answer, later, rfl, closes⟩ :=
      answered.closes_next split inRange opens
    exact ⟨[], answer, later, rfl, closes, by simp⟩
  · refine ⟨.runStart runId model deadlineMs steps ::
      .plan payload retries :: (blocks ++ errors), last, by rw [whole]; simp,
      isLast, ?_⟩
    exact List.forall_mem_cons.mpr ⟨rfl, List.forall_mem_cons.mpr ⟨rfl,
      List.forall_mem_append.mpr
        ⟨fun event mem => (aboutSteps event mem).2.2.1, noFinal⟩⟩⟩

end Shapes

/-! ## Every run -/

theorem makePlan_error {userMsg : String} {event : AgentEvent}
    (failed : makePlan environment opts userMsg inputs = .error event) :
    ∃ kind message, event = .error kind message := by
  unfold makePlan at failed
  dsimp only at failed
  split at failed
  · exact ⟨_, _, (Except.error.inj failed).symm⟩
  · split at failed
    · cases failed
    · split at failed
      · exact ⟨_, _, (Except.error.inj failed).symm⟩
      · split at failed
        · cases failed
        · exact ⟨_, _, (Except.error.inj failed).symm⟩

/-- Whatever the planner, the tools and the clock do, the events of a run
follow the protocol as long as the receiver is there. -/
theorem run_followsProtocol (environment : Environment) (opts : ExecOptions)
    (userMsg : String) (inputs : List (String × Input))
    (connected : ∀ i, environment.closed i = false) :
    FollowsProtocol opts.maxSteps (run environment opts userMsg inputs) := by
  unfold run
  cases made : makePlan environment opts userMsg inputs with
  | error event =>
      obtain ⟨kind, message, rfl⟩ := makePlan_error environment opts inputs made
      exact followsProtocol_without_plan (.error _ _ _ _ _ _)
  | ok plan =>
      obtain ⟨steps, retries⟩ := plan
      obtain ⟨k, blocks, ending, inside, within, whole, answered, ends⟩ :=
        executeSteps_shape environment opts inputs connected 0 steps
          { results := [], resultsBytes := 0, stepsExecuted := 0 }
      dsimp only
      rw [whole]
      refine followsProtocol_with_plan within ?_ ?_ ends
      · rw [List.length_map]
        exact inside
      · rw [List.map_map]
        exact answered

/-- A planner with a plan of two steps, a tool that fails, and the tool for the
final answer. -/
def failingTool : Environment where
  libraries := asciiLibraries
  floats := RequestDeduplicator.bitsText
  runId := "run"
  propose := fun _ _ _ _ => .ok <|
    "step1. classify(image=\"AA\")\n" ++
      "step2. final(answer=\x7b\x7bstep1.error\x7d\x7d)"
  tools := fun name =>
    if name = "classify" then
      some fun _ _ _ => .error (.upstream "forced failure")
    else if name = "final" then
      some fun _ args _ => .ok (.object
        [("answer", (args.field "answer").getD .null)])
    else none
  startedAt := 0
  checkedAt := fun i => i
  dispatchedAt := fun i => i
  stepStartedAt := fun i => i
  stepFinishedAt := fun i => i + 1
  finishedAt := 10
  closed := fun _ => false

def eightSteps : ExecOptions where
  maxSteps := 8
  maxRunMs := 5000
  perToolMs := 2000
  plannerTemperature := 0
  plannerMaxTokens := 128
  fieldTrimAbove := 8192
  perRunBytes := 65536

theorem failingTool_followsProtocol :
    (run failingTool eightSteps "Q" []).map AgentEvent.mark =
        [.other, .other, .opens (1, "step1"), .closes (1, "step1"),
          .opens (2, "step2"), .closes (2, "step2"), .other] ∧
      FollowsProtocol 8 (run failingTool eightSteps "Q" []) :=
  ⟨rfl, run_followsProtocol failingTool eightSteps "Q" [] fun _ => rfl⟩

end AgentExecutor

end TorchInference
