import TorchInference.AgentExecutor
import TorchInference.CountingSemaphore
import TorchInference.MemoryGate

/-!
# The handler of `POST /v1/agent/run`

A request is checked, its input is staged, and its budget is clamped to that
of the server.  The permit is taken before most of the checks, and a request
that is refused later gives it back.
-/

namespace TorchInference

open AgentExecutor (Input ExecOptions)

structure ChatMsg where
  role : String
  content : String

structure AgentInput where
  image : Option String
  audio : Option String

structure AgentConfigOverride where
  maxSteps : Option Nat
  maxRunMs : Option Nat
  perToolMs : Option Nat
  temperature : Option Float32

structure AgentRunRequest where
  messages : List ChatMsg
  input : Option AgentInput
  config : Option AgentConfigOverride

structure AgentConfig where
  enabled : Bool
  maxSteps : Nat
  maxRunMs : Nat
  perToolMs : Nat
  maxConcurrentRuns : Nat
  plannerTemperature : Float32

/-- The limits that the agent reads. -/
structure AgentLimits where
  maxImageBytes : Nat
  maxMessages : Nat
  sseEventBuffer : Nat
  fieldTrimAbove : Nat
  perRunBytes : Nat

/-- An answer other than a stream of events. -/
structure AgentRefusal where
  status : Nat
  headers : List (String × String)
  error : String
  deriving DecidableEq

/-- What a run is started with: its options, the capacity of its channel, its
message and its input. -/
structure AgentJob where
  opts : ExecOptions
  sseEventBuffer : Nat
  userMsg : String
  inputs : List (String × Input)

structure AgentLayer where
  config : AgentConfig
  sem : CountingSemaphore
  gate : MemoryGate
  limits : AgentLimits

namespace AgentLayer

def new (config : AgentConfig) (gate : MemoryGate) (limits : AgentLimits) :
    AgentLayer where
  config := config
  sem := ⟨max config.maxConcurrentRuns 1⟩
  gate := gate
  limits := limits

/-! ## Input and budget -/

/-- The type and the data of a data URI; anything else is data. -/
def splitDataUriOrBare (s defaultMime : String) : String × String :=
  match s.toList.dropWhile (· != ',') with
  | [] => (defaultMime, s)
  | _ :: body =>
      let head := s.toList.takeWhile (· != ',')
      if "data:".toList.isPrefixOf head then
        (String.ofList ((head.drop 5).takeWhile (· != ';')), String.ofList body)
      else (defaultMime, s)

/-- A staged text unless it is too large; base64 takes four characters for
three bytes. -/
def stageOne (kind s defaultMime : String) (maxImageBytes : Nat)
    (toInput : String → String → Input) :
    Except String (List (String × Input)) :=
  let (mime, b64) := splitDataUriOrBare s defaultMime
  let approxBytes := b64.utf8ByteSize * 3 / 4
  if maxImageBytes < approxBytes then
    .error s!"{kind} exceeds {maxImageBytes} bytes (~{approxBytes} actual)"
  else .ok [("input", toInput b64 mime)]

/-- An image takes precedence over audio. -/
def stageInputs (input : Option AgentInput) (maxImageBytes : Nat) :
    Except String (List (String × Input)) :=
  match input with
  | none => .ok []
  | some i =>
      match i.image with
      | some image =>
          stageOne "image" image "image/jpeg" maxImageBytes .image
      | none =>
          match i.audio with
          | some audio =>
              stageOne "audio" audio "audio/wav" maxImageBytes .audio
          | none => .ok []

/-- A request may tighten a part of the budget of the server. -/
def tighten (requested : Option Nat) (server : Nat) : Nat :=
  match requested with
  | some value => min value server
  | none => server

def resolveExecOptions (override : Option AgentConfigOverride)
    (server : AgentConfig) (limits : AgentLimits) : ExecOptions where
  maxSteps := tighten (override.bind (·.maxSteps)) server.maxSteps
  maxRunMs := tighten (override.bind (·.maxRunMs)) server.maxRunMs
  perToolMs := tighten (override.bind (·.perToolMs)) server.perToolMs
  plannerTemperature :=
    (override.bind (·.temperature)).getD server.plannerTemperature
  plannerMaxTokens := 256
  fieldTrimAbove := limits.fieldTrimAbove
  perRunBytes := limits.perRunBytes

/-- The budget of a run never exceeds that of the server. -/
theorem resolveExecOptions_le (override : Option AgentConfigOverride)
    (server : AgentConfig) (limits : AgentLimits) :
    (resolveExecOptions override server limits).maxSteps ≤ server.maxSteps ∧
      (resolveExecOptions override server limits).maxRunMs ≤ server.maxRunMs ∧
      (resolveExecOptions override server limits).perToolMs ≤
        server.perToolMs := by
  have tighten_le (requested : Option Nat) (limit : Nat) :
      tighten requested limit ≤ limit := by
    cases requested with
    | none => exact Nat.le_refl limit
    | some value => exact Nat.min_le_right value limit
  exact ⟨tighten_le _ _, tighten_le _ _, tighten_le _ _⟩

/-! ## The checks -/

/-- The last message of the user. -/
def lastUserMessage (messages : List ChatMsg) : String :=
  ((messages.reverse.find? fun message => message.role == "user").map
    ChatMsg.content).getD ""

/-- The checks made with the permit in hand. -/
def prepare (layer : AgentLayer) (req : AgentRunRequest) :
    Except AgentRefusal AgentJob :=
  let limits := layer.limits
  if limits.maxMessages < req.messages.length then
    .error ⟨400, [],
      s!"messages exceeds max ({req.messages.length} > {limits.maxMessages})"⟩
  else if (lastUserMessage req.messages).isEmpty then
    .error ⟨400, [], "messages must contain a user message"⟩
  else
    match stageInputs req.input limits.maxImageBytes with
    | .error e => .error ⟨413, [], e⟩
    | .ok inputs =>
        .ok ⟨resolveExecOptions req.config layer.config limits,
          max limits.sseEventBuffer 1, lastUserMessage req.messages, inputs⟩

/-- `run` up to the spawn of the run, for the resident memory that the gate
reads.  The permit of a request that is refused is dropped. -/
def run (layer : AgentLayer) (rss : UInt64) (req : AgentRunRequest) :
    AgentLayer × Except AgentRefusal AgentJob :=
  if layer.config.enabled then
    match layer.gate.tryAdmit rss with
    | (.error refusal, gate) =>
        ({ layer with gate := gate },
          .error ⟨503, [("Retry-After", "1")], refusal.toText⟩)
    | (.ok _, gate) =>
        match layer.sem.tryAcquire with
        | none =>
            ({ layer with gate := gate },
              .error ⟨429, [], "max_concurrent_runs reached"⟩)
        | some sem =>
            match layer.prepare req with
            | .error refusal =>
                ({ layer with gate := gate, sem := sem.release },
                  .error refusal)
            | .ok job => ({ layer with gate := gate, sem := sem }, .ok job)
  else (layer, .error ⟨404, [], "agent disabled"⟩)

/-- A run is started with a permit taken, and a request that is refused leaves
the permits as they are. -/
theorem run_cases (layer : AgentLayer) (rss : UInt64) (req : AgentRunRequest) :
    (∃ sem gate job, layer.sem.tryAcquire = some sem ∧
        layer.run rss req = ({ layer with gate := gate, sem := sem }, .ok job)) ∨
      ∃ gate refusal,
        layer.run rss req = ({ layer with gate := gate }, .error refusal) := by
  unfold run
  by_cases enabled : layer.config.enabled = true
  · rw [if_pos enabled]
    rcases layer.gate.tryAdmit rss with ⟨refusal | _, gate⟩
    · exact .inr ⟨gate, _, rfl⟩
    cases acquired : layer.sem.tryAcquire with
    | none => exact .inr ⟨gate, _, rfl⟩
    | some sem =>
        have returned : sem.release = layer.sem := by
          have one := CountingSemaphore.tryAcquire_eq_some.mp acquired
          rw [CountingSemaphore.release, ← one]
        cases layer.prepare req with
        | error refusal =>
            refine .inr ⟨gate, refusal, ?_⟩
            simp only [returned]
        | ok job => exact .inl ⟨sem, gate, job, rfl, rfl⟩
  · rw [if_neg enabled]
    exact .inr ⟨layer.gate, _, rfl⟩

end AgentLayer

end TorchInference
