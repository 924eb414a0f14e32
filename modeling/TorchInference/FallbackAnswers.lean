import Mathlib.Data.List.MinMax
import TorchInference.ExecutedSteps

/-!
# The answer of a run without a final step

A run that ends without a `final` step answers with a text from the result
whose name is the greatest one.  The names are compared as texts, so that it
need not be the result of the step that was executed last.
-/

namespace TorchInference

namespace AgentExecutor

open PlannerDsl OrderedInsertion

/-! ## Texts of results -/

/-- The text that a value has for an answer. -/
def replyText (value : JsonValue) : Option String :=
  match (value.field "output").bind JsonValue.asStr with
  | some output => some output
  | none => (value.field "answer").bind JsonValue.asStr

/-- What the fallback answer makes of a value. -/
def fallbackText (value : JsonValue) : String :=
  (replyText value).getD "I ran into trouble completing this. (No final step.)"

/-- A final event that is made up answers with the text of the value that was
reported last, if it has one. -/
def AnswersFromLast (events : List AgentEvent) : Prop :=
  ∀ before answer stepsExecuted totalMs after value text,
    events = before ++ .final answer stepsExecuted totalMs false :: after →
      (before.filterMap AgentEvent.stepValue?).getLast? = some (some value) →
        replyText value = some text → answer = text

theorem fallbackAnswer_of_getLast {results : List (String × JsonValue)}
    {id : String} {value : JsonValue}
    (isLast : results.getLast? = some (id, value)) :
    fallbackAnswer results = fallbackText value := by
  rw [fallbackAnswer, isLast, fallbackText, replyText]
  dsimp only
  cases (value.field "output").bind JsonValue.asStr with
  | some output => rfl
  | none => cases (value.field "answer").bind JsonValue.asStr <;> rfl

/-- The answer comes from the step with the greatest name. -/
theorem fallbackAnswer_of_greatest
    {done : List (Step × Except String JsonValue)}
    (distinct : (executedNames done).Nodup)
    {greatest : Step × Except String JsonValue} (mem : greatest ∈ done)
    (atMost : ∀ other ∈ done, other.1.id ≤ greatest.1.id) :
    fallbackAnswer (insertAll (entries done) []) =
      fallbackText (kept greatest.2) := by
  rw [← keys_entries] at distinct
  have ordered : Ordered (insertAll (entries done) []) :=
    ordered_insertAll List.Pairwise.nil
  have same {entry : String × JsonValue} :
      entry ∈ insertAll (entries done) [] ↔ entry ∈ entries done :=
    (insertAll_perm distinct).mem_iff
  have isLast : (insertAll (entries done) []).getLast? =
      some (greatest.1.id, kept greatest.2) := by
    rw [ordered.getLast?_eq_some_iff, same]
    refine ⟨List.mem_map.mpr ⟨greatest, mem, rfl⟩, fun other isOther => ?_⟩
    obtain ⟨executed, wasDone, rfl⟩ := List.mem_map.mp (same.mp isOther)
    exact atMost executed wasDone
  exact fallbackAnswer_of_getLast isLast

theorem exists_greatest_name {done : List (Step × Except String JsonValue)}
    (some_done : done ≠ []) :
    ∃ greatest ∈ done, ∀ other ∈ done, other.1.id ≤ greatest.1.id := by
  cases largest : done.argmax fun executed => executed.1.id with
  | none => exact absurd (List.argmax_eq_none.mp largest) some_done
  | some greatest =>
      refine ⟨greatest, List.argmax_mem largest, fun other mem => ?_⟩
      have atMost := List.le_of_mem_argmax mem largest
      exact atMost

/-! ## The last of some steps -/

section Last

variable {done : List (Step × Except String JsonValue)} {step : Step}
  {value : JsonValue} {text : String}

/-- The answer is the text of the last step when its name is greater than those
of the others, or when the text of the greatest name happens to be the same. -/
theorem fallbackAnswer_eq_iff
    (distinct : (executedNames (done ++ [(step, .ok value)])).Nodup)
    (replies : replyText value = some text) :
    fallbackAnswer (insertAll (entries (done ++ [(step, .ok value)])) []) =
        text ↔
      (∀ earlier ∈ done, earlier.1.id < step.id) ∨
        ∃ greatest ∈ done, step.id < greatest.1.id ∧
          (∀ other ∈ done, other.1.id ≤ greatest.1.id) ∧
          fallbackText (kept greatest.2) = text := by
  have others : ∀ earlier ∈ done, earlier.1.id ≠ step.id := by
    rw [executedNames, List.map_append, List.nodup_append] at distinct
    exact fun earlier mem => distinct.2.2 _ (List.mem_map_of_mem mem) _
      (List.mem_singleton.mpr rfl)
  have spoken : fallbackText (kept (.ok value)) = text := by
    rw [kept, fallbackText, replies, Option.getD_some]
  constructor
  · intro answers
    obtain ⟨greatest, mem, atMost⟩ :=
      exists_greatest_name (List.append_ne_nil_of_right_ne_nil done
        (List.cons_ne_nil (step, .ok value) []))
    rw [fallbackAnswer_of_greatest distinct mem atMost] at answers
    rw [List.forall_mem_append, List.forall_mem_singleton] at atMost
    rcases List.mem_append.mp mem with early | isLast
    · exact Or.inr ⟨greatest, early,
        lt_of_le_of_ne atMost.2 (others greatest early).symm, atMost.1,
        answers⟩
    · obtain rfl := List.mem_singleton.mp isLast
      exact Or.inl fun earlier mem =>
        lt_of_le_of_ne (atMost.1 earlier mem) (others earlier mem)
  · rintro (below | ⟨greatest, mem, above, atMost, same⟩)
    · have isLast : ∀ other ∈ done ++ [(step, .ok value)],
          other.1.id ≤ step.id := by
        rw [List.forall_mem_append, List.forall_mem_singleton]
        exact ⟨fun earlier mem => (below earlier mem).le, le_rfl⟩
      exact (fallbackAnswer_of_greatest distinct
        (List.mem_append_right done (.head _)) isLast).trans spoken
    · have isGreatest : ∀ other ∈ done ++ [(step, .ok value)],
          other.1.id ≤ greatest.1.id := by
        rw [List.forall_mem_append, List.forall_mem_singleton]
        exact ⟨atMost, above.le⟩
      exact (fallbackAnswer_of_greatest distinct
        (List.mem_append_left _ mem) isGreatest).trans same

end Last

/-! ## Runs -/

theorem answersFromLast_concat {blocks : List AgentEvent} {answer : String}
    {stepsExecuted totalMs : Nat}
    (goes : ∀ event ∈ blocks, event.isFinal = false) :
    AnswersFromLast (blocks ++ [.final answer stepsExecuted totalMs false]) ↔
      ∀ value text, (blocks.filterMap AgentEvent.stepValue?).getLast? =
          some (some value) → replyText value = some text → answer = text := by
  constructor
  · exact fun answers value text =>
      answers blocks _ _ _ [] value text rfl
  · intro answers before answer stepsExecuted totalMs after value text whole
    obtain ⟨rfl, same, rfl⟩ := append_final_inj goes rfl whole
    injection same with same
    exact same ▸ answers value text

/-- Only a final event that is made up has to answer. -/
theorem answersFromLast_of_completed {blocks : List AgentEvent}
    {answer : String} {stepsExecuted totalMs : Nat}
    (goes : ∀ event ∈ blocks, event.isFinal = false) :
    AnswersFromLast
      (blocks ++ [.final answer stepsExecuted totalMs true]) := by
  intro before answer stepsExecuted totalMs after value text whole
  obtain ⟨-, same, -⟩ := append_final_inj goes rfl whole
  injection same with _ _ _ same
  cases same

theorem answersFromLast_of_gone {events : List AgentEvent}
    (gone : ∀ event ∈ events, event.isFinal = false) :
    AnswersFromLast events := by
  rintro before answer stepsExecuted totalMs after value text rfl
  cases gone _ (List.mem_append_right before (.head after))

section Runs

variable {environment : Environment} {opts : ExecOptions} {userMsg : String}
  {inputs : List (String × Input)}

theorem Unfinished.distinct
    {done : List (Step × Except String JsonValue)} {last : RunState}
    (distinct : ∀ steps retries,
      makePlan environment opts userMsg inputs = .ok (steps, retries) →
        (steps.map Step.id).Nodup)
    (unfinished : Unfinished environment opts userMsg inputs done last) :
    (executedNames done).Nodup := by
  cases unfinished with
  | noPlan failed => exact List.nodup_nil
  | ranOut planned runsOut =>
      have first := (runsOut.first_steps.map Step.id).sublist
      rw [List.map_map] at first
      exact first.nodup (distinct _ _ planned)

theorem Unfinished.answersFromLast_iff
    {done : List (Step × Except String JsonValue)} {last : RunState}
    (unfinished : Unfinished environment opts userMsg inputs done last) :
    AnswersFromLast (run environment opts userMsg inputs) ↔
      ∀ earlier step value text, done = earlier ++ [(step, .ok value)] →
        replyText value = some text →
          fallbackAnswer (insertAll (entries done) []) = text := by
  obtain ⟨blocks, whole, reported, goes⟩ := unfinished.events
  rw [whole, synthesizedFinal, answersFromLast_concat goes, reported,
    unfinished.results, List.getLast?_map]
  constructor
  · rintro answers earlier step value text rfl
    exact answers value text (by rw [List.getLast?_concat]; rfl)
  · intro answers value text reads
    obtain ⟨⟨step, result⟩, isLast, succeeds⟩ := Option.map_eq_some_iff.mp reads
    obtain ⟨earlier, same⟩ := List.getLast?_eq_some_iff.mp isLast
    cases result with
    | error message => cases succeeds
    | ok found =>
        obtain rfl := Option.some.inj succeeds
        exact answers earlier step found text same

end Runs

/-- Where the planned steps have different names, a run answers with the text of
the step that it has executed last exactly when the name of that step is greater
than those of the others, or else the text of the greatest name is the same. -/
theorem run_answersFromLast_iff (environment : Environment)
    (opts : ExecOptions) (userMsg : String) (inputs : List (String × Input))
    (distinct : ∀ steps retries,
      makePlan environment opts userMsg inputs = .ok (steps, retries) →
        (steps.map Step.id).Nodup) :
    AnswersFromLast (run environment opts userMsg inputs) ↔
      ∀ done step value last text,
        Unfinished environment opts userMsg inputs
          (done ++ [(step, .ok value)]) last → replyText value = some text →
            (∀ earlier ∈ done, earlier.1.id < step.id) ∨
              ∃ greatest ∈ done, step.id < greatest.1.id ∧
                (∀ other ∈ done, other.1.id ≤ greatest.1.id) ∧
                fallbackText (kept greatest.2) = text := by
  constructor
  · intro answers done step value last text unfinished replies
    rw [← fallbackAnswer_eq_iff (unfinished.distinct distinct) replies]
    exact unfinished.answersFromLast_iff.mp answers done step value text rfl
      replies
  · intro condition
    rcases run_ends environment opts userMsg inputs with
      ⟨done, last, unfinished⟩ | ⟨blocks, answer, totalMs, whole, goes⟩ | gone
    · rw [unfinished.answersFromLast_iff]
      rintro earlier step value text rfl replies
      rw [fallbackAnswer_eq_iff (unfinished.distinct distinct) replies]
      exact condition earlier step value last text unfinished replies
    · rw [whole]
      exact answersFromLast_of_completed goes
    · exact answersFromLast_of_gone gone

/-- A planner with a plan, and a tool that returns its prompt. -/
def echoing (plan : String) : Environment :=
  { failingTool with
    propose := fun _ _ _ _ => .ok plan
    tools := fun name =>
      if name = "reflect" then
        some fun _ args _ => .ok (.object
          [("output", (args.field "prompt").getD .null)])
      else none }

theorem makePlan_firstAndSecond :
    makePlan (echoing <| "step1. reflect(prompt=\"A\")\n" ++
        "step2. reflect(prompt=\"B\")") eightSteps "Q" [] =
      .ok ([⟨"step1", "reflect", [("prompt", .literal (.string "A"))]⟩,
        ⟨"step2", "reflect", [("prompt", .literal (.string "B"))]⟩], 0) :=
  rfl

theorem firstAndSecond_answersFromLast_iff :
    AnswersFromLast (run (echoing <| "step1. reflect(prompt=\"A\")\n" ++
        "step2. reflect(prompt=\"B\")") eightSteps "Q" []) ↔
      ∀ done step value last text,
        Unfinished (echoing <| "step1. reflect(prompt=\"A\")\n" ++
          "step2. reflect(prompt=\"B\")") eightSteps "Q" []
            (done ++ [(step, .ok value)]) last → replyText value = some text →
          (∀ earlier ∈ done, earlier.1.id < step.id) ∨
            ∃ greatest ∈ done, step.id < greatest.1.id ∧
              (∀ other ∈ done, other.1.id ≤ greatest.1.id) ∧
              fallbackText (kept greatest.2) = text := by
  refine run_answersFromLast_iff _ eightSteps "Q" []
    fun steps retries planned => ?_
  rw [makePlan_firstAndSecond] at planned
  cases planned
  decide

theorem makePlan_ninthAndTenth :
    makePlan (echoing <| "step9. reflect(prompt=\"A\")\n" ++
        "step10. reflect(prompt=\"B\")") eightSteps "Q" [] =
      .ok ([⟨"step9", "reflect", [("prompt", .literal (.string "A"))]⟩,
        ⟨"step10", "reflect", [("prompt", .literal (.string "B"))]⟩], 0) :=
  rfl

theorem ninthAndTenth_unfinished :
    Unfinished (echoing <| "step9. reflect(prompt=\"A\")\n" ++
        "step10. reflect(prompt=\"B\")") eightSteps "Q" [] [
      (⟨"step9", "reflect", [("prompt", .literal (.string "A"))]⟩,
        .ok (.object [("output", .string "A")])),
      (⟨"step10", "reflect", [("prompt", .literal (.string "B"))]⟩,
        .ok (.object [("output", .string "B")]))]
      { results := [("step10", .object [("output", .string "B")]),
          ("step9", .object [("output", .string "A")])]
        resultsBytes := 28
        stepsExecuted := 2 } :=
  .ranOut makePlan_ninthAndTenth (.stopped
    (.step (.called ⟨by decide, by decide, rfl⟩ rfl (by decide) (by decide))
      (.step (.called ⟨by decide, by decide, rfl⟩ rfl (by decide) (by decide))
        .none))
    (Or.inl rfl))

/-- The tenth step is executed after the ninth, and the run answers with the
text of the ninth. -/
theorem ninthAndTenth_not_answersFromLast :
    (∀ steps retries,
      makePlan (echoing <| "step9. reflect(prompt=\"A\")\n" ++
          "step10. reflect(prompt=\"B\")") eightSteps "Q" [] =
        .ok (steps, retries) → (steps.map Step.id).Nodup) ∧
      ¬ AnswersFromLast (run (echoing <| "step9. reflect(prompt=\"A\")\n" ++
        "step10. reflect(prompt=\"B\")") eightSteps "Q" []) := by
  constructor
  · intro steps retries planned
    rw [makePlan_ninthAndTenth] at planned
    cases planned
    decide
  · rw [ninthAndTenth_unfinished.answersFromLast_iff]
    intro answers
    have answer := answers [_] _ _ "B" rfl rfl
    exact absurd answer (by decide)

end AgentExecutor

end TorchInference
