import TorchInference.AgentTools
import TorchInference.PlannerDsl

/-!
# Running a plan

The executor asks the planner for a plan, once more if the first answer cannot
be read, and runs its steps in order.  It reports each of them to a channel and
ends with a final event.  The planner, the tools and the clock are part of the
environment.
-/

namespace TorchInference

def ToolError.text : ToolError → String
  | .badArg message => "argument error: " ++ message
  | .denied message => "denied: " ++ message
  | .timeout ms => s!"timeout after {ms} ms"
  | .upstream message => "upstream error: " ++ message
  | .unknown name => "unknown tool: " ++ name

namespace AgentExecutor

open PlannerDsl OrderedInsertion

/-! ## Prompts -/

def plannerSystem : String :=
  "You are the PLANNER half of an HRM-Text agent. Your job: emit a numbered list
of tool calls in this exact format:

  step1. tool_name(arg=value, arg=value)
  step2. tool_name(...)
  step3. final(answer=\"…\")

Rules:
- One step per line. Lowercase tool names. No prose, no markdown, no code fences.
- The LAST step MUST be final(answer=\"...\") with the user-facing reply.
- Reference earlier results with \x7b\x7bstepN.field\x7d\x7d — never invent fields.
- Max 8 steps. Prefer 1–3.
- If the user asks something you can answer from text alone, emit only:
    step1. final(answer=\"…\")

Available tools (name → return fields):
  classify(image, top_k)                       → label, confidence, all
  detect(image, model_version, model_size)     → count, labels, raw
  vision(image)                                → description
  reflect(prompt, max_tokens)                  → output
  tts(text, voice)                             → audio_url, duration_ms
  stt(audio)                                   → transcript
  http_fetch(url, max_bytes)                   → status, body
  final(answer)                                → terminates the run
"

def buildPlannerPrompt (userMsg inputSummary : String) : String :=
  plannerSystem ++ "\nUser request:\n" ++ userMsg ++
    (if inputSummary.isEmpty then "" else "\n" ++ inputSummary) ++
    "\n\nPlan:\n"

def buildRepairPrompt (prevOutput parseErr : String) : String :=
  "You produced output that does not parse as a plan. The parser said:\n" ++
    parseErr ++ "\n\nYour previous output was:\n" ++ prevOutput ++
    "\n\nRe-emit the SAME plan in the exact line-oriented format described " ++
    "earlier. No\nprose, no markdown, no code fences. The last step MUST be " ++
    "final(answer=\"...\").\n\nPlan:\n"

/-! ## Events and the environment -/

inductive Input where
  | image (b64 mime : String)
  | audio (b64 mime : String)
  | text (value : String)

structure PlanStep where
  id : String
  tool : String
  args : JsonValue

inductive AgentEvent where
  | runStart (runId model : String) (deadlineMs maxSteps : Nat)
  | plan (steps : List PlanStep) (retries : Nat)
  | stepStart (idx : Nat) (id tool : String) (args : JsonValue)
  | stepResult (idx : Nat) (id : String) (ok : Bool)
      (value : Option JsonValue) (error : Option String) (durationMs : Nat)
  | error (kind message : String)
  | final (answer : String) (stepsExecuted totalMs : Nat) (completed : Bool)

structure ExecOptions where
  maxSteps : Nat
  maxRunMs : Nat
  perToolMs : Nat
  plannerTemperature : Float32
  plannerMaxTokens : UInt32
  fieldTrimAbove : Nat
  perRunBytes : Nat

/-- What a run does not decide for itself.  Calls are numbered, and a tool
returns a value or an error.  The readings of the clock are in nanoseconds;
those of a step are given by its position. -/
structure Environment where
  libraries : TextLibraries
  floats : FloatText
  runId : String
  propose : Nat → String → UInt32 → Float32 → Except String String
  tools : String → Option (Nat → JsonValue → Nat → Except ToolError JsonValue)
  startedAt : Nat
  checkedAt : Nat → Nat
  dispatchedAt : Nat → Nat
  stepStartedAt : Nat → Nat
  stepFinishedAt : Nat → Nat
  finishedAt : Nat
  /-- Whether the receiver is found to be gone before a step. -/
  closed : Nat → Bool

/-- `as_millis() as u64` of the time between two readings. -/
def elapsedMs (since now : Nat) : Nat :=
  (now - since) / 1000000 % 2 ^ 64

/-- What a run has gathered so far. -/
structure RunState where
  results : List (String × JsonValue)
  resultsBytes : Nat
  stepsExecuted : Nat

/-! ## Arguments and results -/

def inputSummary (inputs : List (String × Input)) : String :=
  match inputs.lookup "input" with
  | some (.image ..) => "Image attached."
  | some (.audio ..) => "Audio attached."
  | some (.text ..) => "Extra text input attached."
  | none => ""

def resolveArg (inputs : List (String × Input))
    (results : List (String × JsonValue)) :
    ArgValue → Except String JsonValue
  | .literal (.string "input") =>
      match inputs.lookup "input" with
      | some (.image b64 mime) =>
          .ok (.string ("data:" ++ mime ++ ";base64," ++ b64))
      | some (.audio b64 mime) =>
          .ok (.string ("data:" ++ mime ++ ";base64," ++ b64))
      | some (.text value) => .ok (.string value)
      | none => .error "`input` referenced but no input staged"
  | .literal value => .ok value
  | .ref stepId field =>
      match results.lookup stepId with
      | none => .error ("step `" ++ stepId ++ "` has not run")
      | some stepResult =>
          if field = "error" then
            .ok (.string
              (((stepResult.field "error").bind JsonValue.asStr).getD ""))
          else
            match stepResult.field field with
            | some value => .ok value
            | none => .error
                ("step `" ++ stepId ++ "` has no field `" ++ field ++ "`")

/-- The loop of `resolve_step_args` over the arguments. -/
def resolveArgs (inputs : List (String × Input))
    (results : List (String × JsonValue)) :
    List (String × ArgValue) → List (String × JsonValue) →
      Except String (List (String × JsonValue))
  | [], m => .ok m
  | (key, value) :: args, m => do
      let resolved ← resolveArg inputs results value
      resolveArgs inputs results args (insert key resolved m)

def resolveStepArgs (inputs : List (String × Input))
    (results : List (String × JsonValue)) (step : Step) :
    Except String JsonValue :=
  (resolveArgs inputs results step.args []).map JsonValue.object

/-- The longest beginning of a text that has no more bytes and ends where a
character does; bytes are dropped until that is so. -/
def cutBytes : Nat → List Char → List Char
  | _, [] => []
  | threshold, c :: rest =>
      if c.utf8Size ≤ threshold then
        c :: cutBytes (threshold - c.utf8Size) rest
      else []

/-- Change the texts among the fields of an object. -/
def mapTextFields (change : String → String) : JsonValue → JsonValue
  | .object entries => .object (entries.map fun entry =>
      match entry with
      | (key, .string text) => (key, .string (change text))
      | other => other)
  | value => value

def trimLargeFields (threshold : Nat) : JsonValue → JsonValue :=
  mapTextFields fun text =>
    let originalLen := byteLength text.toList
    if threshold < originalLen then
      String.ofList (cutBytes threshold text.toList) ++
        s!"...<truncated, original {originalLen}B>"
    else text

def redactForSse : JsonValue → JsonValue :=
  mapTextFields fun text =>
    let len := byteLength text.toList
    if "data:".toList.isPrefixOf text.toList && 64 < len then
      s!"<{len}B data uri>"
    else text

def fallbackAnswer (results : List (String × JsonValue)) : String :=
  match results.getLast? with
  | none => "I couldn't form a plan for this request."
  | some (_, last) =>
      match (last.field "output").bind JsonValue.asStr with
      | some output => output
      | none =>
          match (last.field "answer").bind JsonValue.asStr with
          | some answer => answer
          | none => "I ran into trouble completing this. (No final step.)"

/-! ## The run -/

variable (environment : Environment) (opts : ExecOptions)

def synthesizedFinal (state : RunState) : AgentEvent :=
  .final (fallbackAnswer state.results) state.results.length
    (elapsedMs environment.startedAt environment.finishedAt) false

/-- The deadline of the run. -/
def deadline : Nat :=
  environment.startedAt + opts.maxRunMs * 1000000

/-- `ToolRegistry::dispatch` for the step at a position. -/
def dispatch (i : Nat) (name : String) (args : JsonValue)
    (toolDeadline : Nat) : Except ToolError JsonValue :=
  match environment.tools name with
  | none => .error (.unknown name)
  | some tool => tool i args toolDeadline

/-- What is kept of the result of a step, and its event. -/
def settle (i : Nat) (step : Step) (state : RunState) :
    Except ToolError JsonValue → RunState × AgentEvent
  | .ok value =>
      let trimmed := trimLargeFields opts.fieldTrimAbove value
      let text := CanonicalJson.writeCanonicalJson environment.floats trimmed
      ({ results := insert step.id trimmed state.results
         resultsBytes := state.resultsBytes + byteLength text
         stepsExecuted := state.stepsExecuted + 1 },
        .stepResult (i + 1) step.id true (some trimmed) none
          (elapsedMs (environment.stepStartedAt i)
            (environment.stepFinishedAt i)))
  | .error e =>
      ({ results := insert step.id (.object [("error", .string e.text)])
           state.results
         resultsBytes := state.resultsBytes
         stepsExecuted := state.stepsExecuted + 1 },
        .stepResult (i + 1) step.id false none (some e.text)
          (elapsedMs (environment.stepStartedAt i)
            (environment.stepFinishedAt i)))

/-- The event of a `final` step. -/
def finalEvent (step : Step) (state : RunState) : AgentEvent :=
  .final ((((state.results.lookup step.id).bind
      (JsonValue.field "answer")).bind JsonValue.asStr).getD "")
    state.stepsExecuted
    (elapsedMs environment.startedAt environment.finishedAt) true

def budgetMessage (state : RunState) : String :=
  s!"accumulated result size {state.resultsBytes}B exceeds budget " ++
    s!"{opts.perRunBytes}B — stopping run"

/-- The loop over the steps from a position on. -/
def executeSteps (inputs : List (String × Input)) :
    Nat → List Step → RunState → List AgentEvent
  | _, [], state => [synthesizedFinal environment state]
  | i, step :: steps, state =>
      if opts.maxSteps ≤ i then [synthesizedFinal environment state]
      else if deadline environment opts ≤ environment.checkedAt i then
        [.error "deadline_exceeded" s!"hit {opts.maxRunMs}ms cap",
          synthesizedFinal environment state]
      else if environment.closed i then []
      else
        match resolveStepArgs inputs state.results step with
        | .error e =>
            let message := "ref_unresolved: " ++ e
            .stepResult (i + 1) step.id false none (some message) 0 ::
              executeSteps inputs (i + 1) steps
                { results := insert step.id
                    (.object [("error", .string message)]) state.results
                  resultsBytes := state.resultsBytes
                  stepsExecuted := state.stepsExecuted + 1 }
        | .ok resolved =>
            let toolDeadline := min (deadline environment opts)
              (environment.dispatchedAt i + opts.perToolMs * 1000000)
            let settled := settle environment opts i step state
              (dispatch environment i step.tool resolved toolDeadline)
            .stepStart (i + 1) step.id step.tool (redactForSse resolved) ::
              settled.2 ::
              if step.tool = "final" then [finalEvent environment step settled.1]
              else if opts.perRunBytes < settled.1.resultsBytes then
                [.error "result_budget_exceeded"
                    (budgetMessage opts settled.1),
                  synthesizedFinal environment settled.1]
              else executeSteps inputs (i + 1) steps settled.1

/-- The plan and the number of retries, or the event that reports a failure. -/
def makePlan (userMsg : String) (inputs : List (String × Input)) :
    Except AgentEvent (List Step × Nat) :=
  let prompt := buildPlannerPrompt userMsg (inputSummary inputs)
  match environment.propose 0 prompt opts.plannerMaxTokens
      opts.plannerTemperature with
  | .error e => .error (.error "planner_failed" e)
  | .ok raw1 =>
      match parse environment.libraries raw1 with
      | .ok steps => .ok (steps, 0)
      | .error e1 =>
          match environment.propose 1 (buildRepairPrompt raw1 e1.text)
              opts.plannerMaxTokens opts.plannerTemperature with
          | .error e => .error (.error "planner_failed" e)
          | .ok raw2 =>
              match parse environment.libraries raw2 with
              | .ok steps => .ok (steps, 1)
              | .error e2 => .error (.error "plan_unparseable"
                  ("first parse: " ++ e1.text ++ "; second parse: " ++
                    e2.text))

/-- `run_inner`, as the events that it sends. -/
def run (userMsg : String) (inputs : List (String × Input)) :
    List AgentEvent :=
  let state : RunState :=
    { results := [], resultsBytes := 0, stepsExecuted := 0 }
  .runStart environment.runId "hrm-text-1b" opts.maxRunMs opts.maxSteps ::
    match makePlan environment opts userMsg inputs with
    | .error event => [event, synthesizedFinal environment state]
    | .ok (steps, retries) =>
        .plan (steps.map fun step => ⟨step.id, step.tool, step.argsAsJson⟩)
            retries ::
          executeSteps environment opts inputs 0 steps state

end AgentExecutor

end TorchInference
