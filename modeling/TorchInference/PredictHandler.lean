import TorchInference.CircuitBreaker
import TorchInference.InferenceEngine

/-!
# The handler of `POST /predict`

`predict` asks the rate limiter, the deduplication cache and the circuit
breaker before the engine, and reports the outcome of the engine to the
breaker.  What the limiter and the cache answer is part of the request here;
instants are nanoseconds since `CB_EPOCH`, and the processing time is in
milliseconds.
-/

namespace TorchInference

structure InferenceResponse where
  success : Bool
  result : Option JsonValue
  error : Option String
  processingTime : Option Nat
  modelInfo : Option JsonValue

inductive HttpResponse where
  | text (status : Nat) (body : String)
  | json (status : Nat) (body : InferenceResponse)

/-- A request of `/predict` and what it meets on its way to the engine. -/
structure PredictRequest where
  modelName : String
  inputs : JsonValue
  /-- The message of the rate limiter when it refuses the request. -/
  limited : Option String
  /-- The cached result of an equal request. -/
  cached : Option JsonValue
  admittedAt : Nat
  reportedAt : Nat

/-- What the handler reports to the breaker. -/
inductive BreakerReport where
  | recordSuccess
  | recordFailure
  deriving DecidableEq

/-- A backend failure counts against the breaker. -/
def isBackendFailure : InferenceError → Bool
  | .timeout => true
  | .gpuError _ => true
  | .inferenceFailed _ => true
  | _ => false

/-- The report for an outcome of the engine. -/
def reportOf : Except InferenceError JsonValue → BreakerReport
  | .ok _ => .recordSuccess
  | .error e =>
      if isBackendFailure e then .recordFailure else .recordSuccess

def CircuitBreaker.record (breaker : CircuitBreaker) (report : BreakerReport)
    (now : Nat) : CircuitBreaker :=
  match report with
  | .recordSuccess => breaker.recordSuccess
  | .recordFailure => breaker.recordFailure now

def errorStatus : InferenceError → Nat
  | .invalidInput _ => 400
  | .modelNotFound _ => 404
  | .authenticationFailed _ => 401
  | .timeout => 504
  | .gpuError _ => 503
  | _ => 500

/-- The answer to an admitted request. -/
def outcomeResponse (latencyMs : Nat) :
    Except InferenceError JsonValue → HttpResponse
  | .ok result => .json 200 ⟨true, some result, none, some latencyMs, none⟩
  | .error e =>
      .json (errorStatus e)
        ⟨false, none, some e.toText, some latencyMs, none⟩

/-- What `predict` answers, reports and leaves of the breaker. -/
structure Predicted where
  response : HttpResponse
  report : Option BreakerReport
  breaker : CircuitBreaker

/-- `predict`, given what the engine answers if it is asked. -/
def predict (breaker : CircuitBreaker) (request : PredictRequest)
    (outcome : Except InferenceError JsonValue) : Predicted :=
  match request.limited with
  | some message => ⟨.text 429 message, none, breaker⟩
  | none =>
      match request.cached with
      | some cachedResult =>
          let modelInfo :=
            JsonValue.object [("source", .string "deduplication_cache")]
          ⟨.json 200 ⟨true, some cachedResult, none, some 0, some modelInfo⟩,
            none, breaker⟩
      | none =>
          match breaker.tryAcquire request.admittedAt with
          | .error msg =>
              ⟨.json 503 ⟨false, none, some msg, some 0, none⟩, none, breaker⟩
          | .ok admitted =>
              let latencyMs :=
                (request.reportedAt - request.admittedAt) / 1000000
              let report := reportOf outcome
              ⟨outcomeResponse latencyMs outcome, some report,
                admitted.record report request.reportedAt⟩

/-- The breaker and the models behind `/predict`. -/
structure PredictServer (PyTorchModel OnnxModel : Type*) where
  breaker : CircuitBreaker
  manager : ModelManager PyTorchModel OnnxModel

namespace PredictServer

variable {PyTorchModel OnnxModel : Type*}

/-- A request is handled; the engine is asked only if the request is
admitted. -/
def handle (backend : InferenceBackend PyTorchModel)
    (server : PredictServer PyTorchModel OnnxModel) (request : PredictRequest) :
    Predicted × PredictServer PyTorchModel OnnxModel :=
  let (outcome, manager) :=
    engineInfer backend server.manager request.modelName request.inputs
  let predicted := predict server.breaker request outcome
  (predicted,
    { breaker := predicted.breaker
      manager := if predicted.report.isSome then manager else server.manager })

/-- Requests handled one after the other. -/
def step (backend : InferenceBackend PyTorchModel)
    (server : PredictServer PyTorchModel OnnxModel) (request : PredictRequest) :
    Option (PredictServer PyTorchModel OnnxModel) :=
  some (server.handle backend request).2

end PredictServer

end TorchInference
