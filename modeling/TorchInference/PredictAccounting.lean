import TorchInference.PredictHandler
import TorchInference.TransitionRuns

/-!
# How `/predict` accounts for failing backends

The error of a loader is rewritten by the model manager into a load error, and
the handler counts only timeouts, GPU errors and failed inferences.  A request
whose loader fails is therefore reported as a success, and no number of such
requests opens a closed breaker.
-/

namespace TorchInference

open TransitionRuns

/-! ## The way of an error through the layers -/

namespace ModelManager

variable {PyTorchModel OnnxModel : Type*}

/-- The call of a loader for a loaded model, if a replica is there. -/
def replicaCall {Model : Type*} (loaded : String → Option (List Model))
    (replicaIdx : UInt64)
    (infer : Model → JsonValue → ModelMetadata → Except String JsonValue)
    (metadata : ModelMetadata) (modelId : String) (input : JsonValue) :
    Option (Except String JsonValue) :=
  match loaded modelId with
  | none => none
  | some models =>
      if nonempty : models ≠ [] then
        some (infer (selectReplica models replicaIdx nonempty) input metadata)
      else none

/-- The call of `PyTorchModelLoader::infer` or `OnnxModelLoader::infer` that a
request for a registered model comes to, with its answer. -/
def loaderCall (backend : InferenceBackend PyTorchModel)
    (manager : ModelManager PyTorchModel OnnxModel) (modelId : String)
    (input : JsonValue) : Option (Except String JsonValue) :=
  match manager.registry modelId with
  | none => none
  | some metadata =>
      match metadata.format with
      | .pyTorch =>
          if backend.torch then
            replicaCall manager.loadedPytorchModels manager.pytorchReplicaIdx
              backend.pytorchInfer metadata modelId input
          else none
      | .onnx =>
          replicaCall manager.loadedOnnxModels manager.onnxReplicaIdx onnxInfer
            metadata modelId input
      | _ => none

variable {backend : InferenceBackend PyTorchModel}
  {manager : ModelManager PyTorchModel OnnxModel} {modelId text : String}
  {input : JsonValue}

theorem registryGetModel_of_some {metadata : ModelMetadata}
    (registered : manager.registry modelId = some metadata) :
    manager.registryGetModel modelId = .ok metadata := by
  simp only [registryGetModel, registered]

/-- The manager turns the error of a loader into a load error. -/
theorem inferReplica_of_call_error {Model : Type*}
    {loaded : String → Option (List Model)} {replicaIdx : UInt64}
    {infer : Model → JsonValue → ModelMetadata → Except String JsonValue}
    {metadata : ModelMetadata}
    (registered : manager.registry modelId = some metadata)
    (fails : replicaCall loaded replicaIdx infer metadata modelId input =
      some (.error text)) :
    (manager.inferReplica loaded replicaIdx infer modelId input).1 =
      .error (.modelLoadError text) := by
  unfold replicaCall at fails
  split at fails
  · cases fails
  · next models present =>
      split_ifs at fails with nonempty
      have answer := Option.some.inj fails
      simp only [inferReplica, registryGetModel_of_some registered,
        asModelLoadError, present, dif_pos nonempty, answer]

theorem inferRegistered_of_loaderCall_error
    (fails : loaderCall backend manager modelId input = some (.error text)) :
    (manager.inferRegistered backend modelId input).1 =
      .error (.modelLoadError text) := by
  cases registered : manager.registry modelId with
  | none =>
      simp only [loaderCall, registered] at fails
      cases fails
  | some metadata =>
      simp only [loaderCall, registered] at fails
      simp only [inferRegistered, registryGetModel_of_some registered,
        asModelLoadError]
      cases format : metadata.format with
      | pyTorch =>
          simp only [format] at fails ⊢
          split_ifs at fails with torch
          simp only [torch, if_true, inferPytorch]
          exact inferReplica_of_call_error registered fails
      | onnx =>
          simp only [format] at fails ⊢
          exact inferReplica_of_call_error registered fails
      | candle =>
          simp only [format] at fails
          cases fails
      | safeTensors =>
          simp only [format] at fails
          cases fails

/-- The engine hands the rewritten error to the handler. -/
theorem engineInfer_of_loaderCall_error {inputs : JsonValue}
    (sanitized : backend.sanitizeInput inputs = .ok input)
    (fails : loaderCall backend manager modelId input = some (.error text)) :
    (engineInfer backend manager modelId inputs).1 =
      .error (.modelLoadError text) := by
  have answer := inferRegistered_of_loaderCall_error fails
  have registered : ∃ metadata, manager.registry modelId = some metadata := by
    unfold loaderCall at fails
    split at fails
    · cases fails
    · next metadata present => exact ⟨metadata, present⟩
  obtain ⟨metadata, present⟩ := registered
  simp only [engineInfer, sanitized, getModelMetadata,
    registryGetModel_of_some present, asModelLoadError, answer, Except.map]

/-- Every call of the ONNX loader fails. -/
theorem loaderCall_of_onnx {metadata : ModelMetadata} {models : List OnnxModel}
    (registered : manager.registry modelId = some metadata)
    (isOnnx : metadata.format = .onnx)
    (present : manager.loadedOnnxModels modelId = some models)
    (nonempty : models ≠ []) :
    ∃ text, loaderCall backend manager modelId input = some (.error text) := by
  simp only [loaderCall, registered, isOnnx, replicaCall, present,
    dif_pos nonempty]
  exact ⟨_, rfl⟩

end ModelManager

/-! ## What the breaker is told -/

theorem CircuitBreaker.tryAcquire_of_closed {breaker : CircuitBreaker}
    (closed : breaker.state = .closed) (now : Nat) :
    breaker.tryAcquire now = .ok breaker := by
  simp [tryAcquire, closed]

theorem CircuitBreaker.onSuccess_of_closed {breaker : CircuitBreaker}
    (closed : breaker.state = .closed) :
    breaker.onSuccess = { breaker with failureCount := 0 } := by
  simp [onSuccess, closed]

/-- A request that passes the limiter, the cache and the breaker is answered
and reported by the outcome of the engine. -/
theorem predict_of_admitted {breaker admitted : CircuitBreaker}
    {request : PredictRequest} (notLimited : request.limited = none)
    (notCached : request.cached = none)
    (acquired : breaker.tryAcquire request.admittedAt = .ok admitted)
    (outcome : Except InferenceError JsonValue) :
    predict breaker request outcome =
      ⟨outcomeResponse ((request.reportedAt - request.admittedAt) / 1000000)
          outcome,
        some (reportOf outcome),
        admitted.record (reportOf outcome) request.reportedAt⟩ := by
  simp only [predict, notLimited, notCached, acquired]

namespace PredictServer

variable {PyTorchModel OnnxModel : Type*}
  {backend : InferenceBackend PyTorchModel}
  {server next : PredictServer PyTorchModel OnnxModel}
  {request : PredictRequest}

/-- The breaker admits the request, and the loader of its registered model
returns an error. -/
structure LoaderFails (backend : InferenceBackend PyTorchModel)
    (server : PredictServer PyTorchModel OnnxModel) (request : PredictRequest) :
    Prop where
  notLimited : request.limited = none
  notCached : request.cached = none
  admitted : ∃ admitted,
    server.breaker.tryAcquire request.admittedAt = .ok admitted
  fails : ∃ sanitized text,
    backend.sanitizeInput request.inputs = .ok sanitized ∧
      server.manager.loaderCall backend request.modelName sanitized =
        some (.error text)

/-- A failing loader is reported as a success. -/
theorem handle_of_loaderFails (failing : LoaderFails backend server request) :
    ∃ admitted, server.breaker.tryAcquire request.admittedAt = .ok admitted ∧
      (server.handle backend request).1.report = some .recordSuccess ∧
      (server.handle backend request).2.breaker = admitted.onSuccess := by
  obtain ⟨admitted, acquired⟩ := failing.admitted
  obtain ⟨sanitized, text, passes, fails⟩ := failing.fails
  have outcome :=
    ModelManager.engineInfer_of_loaderCall_error passes fails
  have predicted := predict_of_admitted failing.notLimited failing.notCached
    acquired (.error (.modelLoadError text))
  refine ⟨admitted, acquired, ?_, ?_⟩
  · simp only [handle, outcome, predicted]
    rfl
  · simp only [handle, outcome, predicted]
    rfl

theorem closed_of_loaderFails (closed : server.breaker.state = .closed)
    (failing : LoaderFails backend server request)
    (stepTo : server.step backend request = some next) :
    next.breaker.state = .closed := by
  obtain ⟨admitted, acquired, _, breaker⟩ := handle_of_loaderFails failing
  rw [CircuitBreaker.tryAcquire_of_closed closed, Except.ok.injEq] at acquired
  cases stepTo
  rw [breaker, ← acquired, CircuitBreaker.onSuccess_of_closed closed]
  exact closed

/-- What the breaker is told in a run. -/
def reports (backend : InferenceBackend PyTorchModel) :
    PredictServer PyTorchModel OnnxModel → List PredictRequest →
      List (Option BreakerReport)
  | _, [] => []
  | server, request :: requests =>
      let (predicted, next) := server.handle backend request
      predicted.report :: reports backend next requests

theorem reports_of_loaderFails {requests : List PredictRequest}
    (failing : Meets (step backend) (LoaderFails backend) server requests) :
    ∀ report ∈ reports backend server requests,
      report = some .recordSuccess := by
  induction requests generalizing server with
  | nil =>
      intro report member
      cases member
  | cons request requests ih =>
      obtain ⟨fails, later⟩ := failing
      obtain ⟨_, _, reported, _⟩ := handle_of_loaderFails fails
      intro report member
      rcases List.mem_cons.mp member with rfl | after
      · exact reported
      · exact ih later report after

/-- Whatever the models, the error texts and the state of the breaker, no
admitted request with a failing loader is counted as a failure, and any number
of them leaves a closed breaker closed. -/
theorem loaderFailures_never_counted (backend : InferenceBackend PyTorchModel)
    (server : PredictServer PyTorchModel OnnxModel)
    (requests : List PredictRequest)
    (failing : Meets (step backend) (LoaderFails backend) server requests) :
    (∀ report ∈ reports backend server requests,
        report ≠ some .recordFailure) ∧
      (server.breaker.state = .closed →
        ∀ reached ∈ visited (step backend) server requests,
          reached.breaker.state = .closed) := by
  constructor
  · intro report member
    rw [reports_of_loaderFails failing report member]
    decide
  · intro closed
    exact invariant_of_meets
      (fun _ _ _ closed failing stepTo =>
        closed_of_loaderFails closed failing stepTo)
      closed failing

/-- A build without `torch` whose sanitizer changes nothing. -/
def plainBackend : InferenceBackend Unit where
  torch := false
  sanitizeInput := .ok
  sanitizeOutput := id
  pytorchInfer := fun _ _ _ => .error "PyTorch support not enabled"

/-- A server with one registered and loaded ONNX model. -/
def onnxServer : PredictServer Unit Unit where
  breaker := CircuitBreaker.new CircuitBreakerConfig.default
  manager :=
    { models := fun _ => none
      registry := fun _ => some ⟨"m", .onnx⟩
      loadedPytorchModels := fun _ => none
      loadedOnnxModels := fun _ => some [()]
      pytorchReplicaIdx := 0
      onnxReplicaIdx := 0 }

def onnxRequest : PredictRequest :=
  ⟨"m", .null, none, none, 1, 2⟩

theorem onnxRequest_never_counted :
    (∀ report ∈ reports plainBackend onnxServer [onnxRequest],
        report ≠ some .recordFailure) ∧
      (onnxServer.breaker.state = .closed →
        ∀ reached ∈ visited (step plainBackend) onnxServer [onnxRequest],
          reached.breaker.state = .closed) :=
  loaderFailures_never_counted plainBackend onnxServer [onnxRequest]
    ⟨⟨rfl, rfl, ⟨_, rfl⟩, _, _, rfl, rfl⟩, trivial⟩

/-- Five failures in a row leave the breaker of the default configuration
closed. -/
theorem onnxServer_stays_closed :
    ¬ ∀ (server : PredictServer Unit Unit) (requests : List PredictRequest)
      (last : PredictServer Unit Unit),
      server.breaker.state = .closed →
        requests.length = server.breaker.config.failureThreshold.toNat →
          Meets (step plainBackend) (LoaderFails plainBackend) server
            requests →
            run (step plainBackend) server requests = some last →
              last.breaker.state = .open_ := by
  intro opens
  have opened := opens onnxServer (List.replicate 5 onnxRequest) _ rfl rfl
    (by
      refine ⟨?_, ?_, ?_, ?_, ?_, trivial⟩
      all_goals exact ⟨rfl, rfl, ⟨_, rfl⟩, _, _, rfl, rfl⟩) rfl
  cases opened

end PredictServer

end TorchInference
