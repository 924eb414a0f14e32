import TorchInference.JsonValue

/-!
# From the engine to the loaders

`InferenceEngine::infer` sanitizes the input and asks the model manager, which
picks a replica of a registered model and calls the loader of its format.  Each
layer may rewrite the error of the one below.  The sanitizer and the PyTorch
loader are parameters; the ONNX loader refuses every input.
-/

namespace TorchInference

/-- The errors of inference; the payload of a wrapped library error is its
message. -/
inductive InferenceError where
  | modelNotFound (message : String)
  | modelLoadError (message : String)
  | inferenceFailed (message : String)
  | invalidInput (message : String)
  | configError (message : String)
  | authenticationFailed (message : String)
  | ioError (message : String)
  | serializationError (message : String)
  | internalError (message : String)
  | gpuError (message : String)
  | timeout
  deriving DecidableEq

/-- The `Display` text of an error. -/
def InferenceError.toText : InferenceError → String
  | .modelNotFound message => "Model not found: " ++ message
  | .modelLoadError message => "Model load failed: " ++ message
  | .inferenceFailed message => "Inference failed: " ++ message
  | .invalidInput message => "Invalid input: " ++ message
  | .configError message => "Configuration error: " ++ message
  | .authenticationFailed message => "Authentication failed: " ++ message
  | .ioError message => "IO error: " ++ message
  | .serializationError message => "Serialization error: " ++ message
  | .internalError message => "Internal error: " ++ message
  | .gpuError message => "GPU error: " ++ message
  | .timeout => "Timeout"

inductive ModelFormat where
  | pyTorch
  | onnx
  | candle
  | safeTensors
  deriving DecidableEq

/-- The `Debug` text of a format. -/
def ModelFormat.debug : ModelFormat → String
  | .pyTorch => "PyTorch"
  | .onnx => "ONNX"
  | .candle => "Candle"
  | .safeTensors => "SafeTensors"

structure ModelMetadata where
  name : String
  format : ModelFormat

/-- A model of the legacy interface. -/
structure BaseModel where
  name : String
  isLoaded : Bool

/-- The legacy model echoes its input. -/
def BaseModel.forward (model : BaseModel) (inputs : JsonValue) :
    Except InferenceError JsonValue :=
  if !model.isLoaded then .error (.modelLoadError "Model not loaded")
  else .ok inputs

/-- What the build and the libraries provide. -/
structure InferenceBackend (PyTorchModel : Type*) where
  /-- The build has the `torch` feature. -/
  torch : Bool
  sanitizeInput : JsonValue → Except String JsonValue
  sanitizeOutput : JsonValue → JsonValue
  /-- `PyTorchModelLoader::infer`, with the text of its error. -/
  pytorchInfer : PyTorchModel → JsonValue → ModelMetadata →
    Except String JsonValue

/-- `OnnxModelLoader::infer`: generic ONNX inference is not implemented. -/
def onnxInfer {OnnxModel : Type*} (_model : OnnxModel) (_input : JsonValue)
    (metadata : ModelMetadata) : Except String JsonValue :=
  .error ("Generic ONNX inference for model '" ++ metadata.name ++
    "' is not implemented: input tensor conversion from arbitrary JSON " ++
    "schemas is not yet wired up. Use the dedicated /classify, /detect, " ++
    "/tts, or /stt endpoints instead.")

structure ModelManager (PyTorchModel OnnxModel : Type*) where
  models : String → Option BaseModel
  registry : String → Option ModelMetadata
  loadedPytorchModels : String → Option (List PyTorchModel)
  loadedOnnxModels : String → Option (List OnnxModel)
  pytorchReplicaIdx : UInt64
  onnxReplicaIdx : UInt64

namespace ModelManager

variable {PyTorchModel OnnxModel : Type*}

/-- `ModelRegistry::get_model`. -/
def registryGetModel (manager : ModelManager PyTorchModel OnnxModel)
    (modelId : String) : Except InferenceError ModelMetadata :=
  match manager.registry modelId with
  | some metadata => .ok metadata
  | none => .error (.modelNotFound modelId)

/-- `ModelRegistry::mark_used`; the time of use is not kept. -/
def markUsed (manager : ModelManager PyTorchModel OnnxModel)
    (modelId : String) : Except InferenceError Unit :=
  (manager.registryGetModel modelId).map fun _ => ()

/-- A registry error becomes a load error with its text. -/
def asModelLoadError {Result : Type*} :
    Except InferenceError Result → Except InferenceError Result
  | .ok result => .ok result
  | .error e => .error (.modelLoadError e.toText)

def getModelMetadata (manager : ModelManager PyTorchModel OnnxModel)
    (modelId : String) : Except InferenceError ModelMetadata :=
  asModelLoadError (manager.registryGetModel modelId)

def getModel (manager : ModelManager PyTorchModel OnnxModel) (name : String) :
    Except InferenceError BaseModel :=
  match manager.models name with
  | some model => .ok model
  | none => .error (.modelNotFound name)

/-- The replica that serves a call, chosen in turn. -/
def selectReplica {Model : Type*} (models : List Model) (replicaIdx : UInt64)
    (nonempty : models ≠ []) : Model :=
  models.get ⟨replicaIdx.toNat % models.length,
    Nat.mod_lt _ (List.length_pos_iff.mpr nonempty)⟩

/-- What `infer_pytorch` and `infer_onnx` share: the replicas loaded for the
model, the replica counter and the loader are given.  The flag tells whether
the counter has advanced. -/
def inferReplica {Model : Type*}
    (manager : ModelManager PyTorchModel OnnxModel)
    (loaded : String → Option (List Model)) (replicaIdx : UInt64)
    (infer : Model → JsonValue → ModelMetadata → Except String JsonValue)
    (modelId : String) (input : JsonValue) :
    Except InferenceError JsonValue × Bool :=
  match asModelLoadError (manager.registryGetModel modelId) with
  | .error e => (.error e, false)
  | .ok metadata =>
      match loaded modelId with
      | none =>
          (.error (.modelNotFound ("Model " ++ modelId ++ " not loaded")),
            false)
      | some models =>
          if nonempty : models ≠ [] then
            match infer (selectReplica models replicaIdx nonempty) input
              metadata with
            | .error text => (.error (.modelLoadError text), true)
            | .ok result =>
                match asModelLoadError (manager.markUsed modelId) with
                | .error e => (.error e, true)
                | .ok _ => (.ok result, true)
          else (.error (.modelLoadError "No model instances loaded"), false)

/-- `infer_pytorch` of a build with or without the `torch` feature. -/
def inferPytorch (backend : InferenceBackend PyTorchModel)
    (manager : ModelManager PyTorchModel OnnxModel) (modelId : String)
    (input : JsonValue) :
    Except InferenceError JsonValue × ModelManager PyTorchModel OnnxModel :=
  if backend.torch then
    let (result, called) := manager.inferReplica manager.loadedPytorchModels
      manager.pytorchReplicaIdx backend.pytorchInfer modelId input
    (result,
      if called then
        { manager with pytorchReplicaIdx := manager.pytorchReplicaIdx + 1 }
      else manager)
  else
    (.error (.modelLoadError
      "PyTorch support not enabled. Compile with --features torch"), manager)

def inferOnnx (manager : ModelManager PyTorchModel OnnxModel)
    (modelId : String) (input : JsonValue) :
    Except InferenceError JsonValue × ModelManager PyTorchModel OnnxModel :=
  let (result, called) := manager.inferReplica manager.loadedOnnxModels
    manager.onnxReplicaIdx onnxInfer modelId input
  (result,
    if called then { manager with onnxReplicaIdx := manager.onnxReplicaIdx + 1 }
    else manager)

def inferRegistered (backend : InferenceBackend PyTorchModel)
    (manager : ModelManager PyTorchModel OnnxModel) (modelId : String)
    (input : JsonValue) :
    Except InferenceError JsonValue × ModelManager PyTorchModel OnnxModel :=
  match asModelLoadError (manager.registryGetModel modelId) with
  | .error e => (.error e, manager)
  | .ok metadata =>
      match metadata.format with
      | .pyTorch =>
          if backend.torch then inferPytorch backend manager modelId input
          else (.error (.modelLoadError "PyTorch support disabled"), manager)
      | .onnx => manager.inferOnnx modelId input
      | other =>
          (.error (.modelLoadError ("Unsupported format: " ++ other.debug)),
            manager)

end ModelManager

/-- `InferenceEngine::infer`. -/
def engineInfer {PyTorchModel OnnxModel : Type*}
    (backend : InferenceBackend PyTorchModel)
    (manager : ModelManager PyTorchModel OnnxModel) (modelName : String)
    (inputs : JsonValue) :
    Except InferenceError JsonValue × ModelManager PyTorchModel OnnxModel :=
  match backend.sanitizeInput inputs with
  | .error message => (.error (.invalidInput message), manager)
  | .ok sanitizedInputs =>
      let (result, after) :=
        match manager.getModelMetadata modelName with
        | .ok _ =>
            manager.inferRegistered backend modelName sanitizedInputs
        | .error _ =>
            (match manager.getModel modelName with
              | .error e => .error e
              | .ok model => model.forward sanitizedInputs, manager)
      (result.map backend.sanitizeOutput, after)

end TorchInference
