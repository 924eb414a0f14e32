import TorchInference.ExecutedSteps

/-!
# The number of executed steps

A `final` step ends a run with the number of steps that were executed.  A run
without one ends with the number of names under which results are kept, so
that steps of one name count once.
-/

namespace TorchInference

namespace AgentExecutor

open PlannerDsl OrderedInsertion

def AgentEvent.isStepResult (event : AgentEvent) : Bool :=
  event.stepValue?.isSome

/-- Every final event carries the number of step results before it. -/
def CountsResults (events : List AgentEvent) : Prop :=
  ∀ before answer stepsExecuted totalMs completed after,
    events = before ++ .final answer stepsExecuted totalMs completed :: after →
      stepsExecuted = before.countP AgentEvent.isStepResult

theorem countP_isStepResult (events : List AgentEvent) :
    events.countP AgentEvent.isStepResult =
      (events.filterMap AgentEvent.stepValue?).length :=
  List.length_filterMap_eq_countP.symm

theorem countsResults_concat {blocks : List AgentEvent} {answer : String}
    {stepsExecuted totalMs : Nat} {completed : Bool}
    (goes : ∀ event ∈ blocks, event.isFinal = false) :
    CountsResults
        (blocks ++ [.final answer stepsExecuted totalMs completed]) ↔
      stepsExecuted = (blocks.filterMap AgentEvent.stepValue?).length := by
  rw [← countP_isStepResult]
  constructor
  · exact fun counts => counts blocks _ _ _ _ [] rfl
  · rintro counted before answer stepsExecuted totalMs completed after whole
    obtain ⟨rfl, same, rfl⟩ := append_final_inj goes rfl whole
    injection same with _ same
    exact same.symm.trans counted

/-- Without a final event there is nothing to count. -/
theorem countsResults_of_gone {events : List AgentEvent}
    (gone : ∀ event ∈ events, event.isFinal = false) : CountsResults events := by
  rintro before answer stepsExecuted totalMs completed after rfl
  cases gone _ (List.mem_append_right before (.head after))

variable {environment : Environment} {opts : ExecOptions} {userMsg : String}
  {inputs : List (String × Input)}

/-- A run without a `final` step counts its steps when no two of them have one
name. -/
theorem Unfinished.countsResults_iff
    {done : List (Step × Except String JsonValue)} {last : RunState}
    (unfinished : Unfinished environment opts userMsg inputs done last) :
    CountsResults (run environment opts userMsg inputs) ↔
      (executedNames done).Nodup := by
  obtain ⟨blocks, whole, reported, goes⟩ := unfinished.events
  rw [whole, synthesizedFinal, countsResults_concat goes, reported,
    List.length_map, unfinished.results, ← length_entries done,
    length_insertAll_eq_iff, keys_entries]

/-- A run reports the number of step results, whatever the planner, the tools
and the budgets are, exactly when no two of the steps that it has executed have
one name where it ends without a `final` step. -/
theorem run_countsResults_iff (environment : Environment) (opts : ExecOptions)
    (userMsg : String) (inputs : List (String × Input)) :
    CountsResults (run environment opts userMsg inputs) ↔
      ∀ done last, Unfinished environment opts userMsg inputs done last →
        (executedNames done).Nodup := by
  constructor
  · exact fun counts done last unfinished =>
      unfinished.countsResults_iff.mp counts
  · intro condition
    rcases run_ends environment opts userMsg inputs with
      ⟨done, last, unfinished⟩ | ⟨blocks, answer, totalMs, whole, goes⟩ | gone
    · exact unfinished.countsResults_iff.mpr (condition done last unfinished)
    · rw [whole, countsResults_concat goes]
    · exact countsResults_of_gone gone

/-- A planner that gives two steps one name, and no `final` step. -/
def repeatedName : Environment :=
  { failingTool with
    propose := fun _ _ _ _ => .ok <|
      "step1. classify(image=\"AA\")\n" ++ "step1. classify(image=\"BB\")" }

theorem makePlan_repeatedName :
    makePlan repeatedName eightSteps "Q" [] = .ok ([
      ⟨"step1", "classify", [("image", .literal (.string "AA"))]⟩,
      ⟨"step1", "classify", [("image", .literal (.string "BB"))]⟩], 0) :=
  rfl

theorem repeatedName_unfinished :
    Unfinished repeatedName eightSteps "Q" [] [
      (⟨"step1", "classify", [("image", .literal (.string "AA"))]⟩,
        .error "upstream error: forced failure"),
      (⟨"step1", "classify", [("image", .literal (.string "BB"))]⟩,
        .error "upstream error: forced failure")]
      { results := [("step1",
          .object [("error", .string "upstream error: forced failure")])]
        resultsBytes := 0
        stepsExecuted := 2 } :=
  .ranOut makePlan_repeatedName (.stopped
    (.step (.called ⟨by decide, by decide, rfl⟩ rfl (by decide) (by decide))
      (.step (.called ⟨by decide, by decide, rfl⟩ rfl (by decide) (by decide))
        .none))
    (Or.inl rfl))

/-- Two results are reported, and one step is counted. -/
theorem repeatedName_miscounted :
    (∃ before, run repeatedName eightSteps "Q" [] = before ++
        [.final "I ran into trouble completing this. (No final step.)" 1 0
          false] ∧
      before.countP AgentEvent.isStepResult = 2) ∧
      ¬ CountsResults (run repeatedName eightSteps "Q" []) := by
  obtain ⟨before, whole, reported, goes⟩ := repeatedName_unfinished.events
  have twice : before.countP AgentEvent.isStepResult = 2 := by
    rw [countP_isStepResult, reported]
    rfl
  refine ⟨⟨before, whole, twice⟩, fun counts => ?_⟩
  have counted := counts before _ _ _ _ [] whole
  rw [twice] at counted
  cases counted

end AgentExecutor

end TorchInference
