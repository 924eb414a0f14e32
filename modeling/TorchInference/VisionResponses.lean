import TorchInference.DownloadRequests
import TorchInference.ExceptSteps

/-!
# Answers of the classification and detection endpoints

Both endpoints check the request, hand the images to a backend, post-process
what it finds and answer with an envelope: the data beside the figures about
the request.  The backends are part of the environment, and so is the text of
floating-point numbers, which is given by what a client reads back.
-/

namespace TorchInference

/-- How floating-point numbers are written, and what a client reads. -/
structure FloatFormat where
  display : Float32 → String
  read32 : Float32 → JsonValue
  read64 : Float → JsonValue

/-- `f32::max`, which prefers a number to a NaN. -/
def f32Max (first second : Float32) : Float32 :=
  if first.isNaN then second
  else if second.isNaN then first
  else if first < second then second
  else first

def f32Clamp (value low high : Float32) : Float32 :=
  let raised := if value < low then low else value
  if high < raised then high else raised

def roundTo4 (value : Float32) : Float32 :=
  (value * 10000.0).round / 10000.0

/-- `f32::EPSILON`. -/
def f32Epsilon : Float32 :=
  Float32.ofBits 0x34000000

/-- `f32::NEG_INFINITY`. -/
def f32NegInfinity : Float32 :=
  Float32.ofBits 0xFF800000

def mebibytes (limit : Nat) : Nat :=
  min (limit * (1024 * 1024)) (2 ^ 64 - 1)

/-! ## Envelopes -/

structure ResponseMeta where
  latencyMs : Float
  modelId : String
  postprocessingApplied : Bool
  postprocessSteps : List String
  warnings : List String
  version : String
  requestId : String

structure Envelope (Data : Type*) where
  data : Data
  info : ResponseMeta

/-- What the server knows about a request besides its data. -/
structure RequestInfo where
  latencyMs : Float
  version : String
  requestId : String

def Envelope.fromInference {Data : Type*} (data : Data) (info : RequestInfo)
    (modelId : String) (skipPostprocess : Bool)
    (postprocessSteps warnings : List String) : Envelope Data where
  data := data
  info := {
    latencyMs := info.latencyMs
    modelId := modelId
    postprocessingApplied := !skipPostprocess && !postprocessSteps.isEmpty
    postprocessSteps := postprocessSteps
    warnings := warnings
    version := info.version
    requestId := info.requestId }

def jsonStrings (texts : List String) : JsonValue :=
  .array (texts.map .string)

def jsonUsize (value : Nat) : JsonValue :=
  .number (.posInt (UInt64.ofNat value))

def ResponseMeta.toJson (format : FloatFormat) (info : ResponseMeta) :
    JsonValue :=
  .object [
    ("latency_ms", format.read64 info.latencyMs),
    ("model_id", .string info.modelId),
    ("postprocessing_applied", .bool info.postprocessingApplied),
    ("postprocess_steps", jsonStrings info.postprocessSteps),
    ("warnings", jsonStrings info.warnings),
    ("version", .string info.version),
    ("request_id", .string info.requestId)]

def Envelope.toJson {Data : Type*} (format : FloatFormat)
    (dataToJson : Data → JsonValue) (envelope : Envelope Data) : JsonValue :=
  .object [
    ("data", dataToJson envelope.data),
    ("meta", envelope.info.toJson format)]

/-! ## Classification -/

structure Prediction where
  label : String
  confidence : Float32
  classId : Nat

structure ClassifyPostprocessConfig where
  enabled : Bool
  temperature : Float32
  minConfidence : Float32

structure ClassifyPostprocessResult where
  predictions : List (List Prediction)
  steps : List String
  warnings : List String

def applyTemperature (predictions : List Prediction)
    (temperature : Float32) : List Prediction :=
  let logits := predictions.map fun p =>
    (p.confidence + 1e-10).log / temperature
  let maxLogit := logits.foldl f32Max f32NegInfinity
  let exps := logits.map fun l => (l - maxLogit).exp
  let sum := exps.foldl (· + ·) 0.0
  predictions.zipWith
    (fun p e => { p with confidence := if 0.0 < sum then e / sum else 0.0 })
    exps

/-- Temperature scaling, rounding and the drop below the least confidence. -/
def classifyProcess (format : FloatFormat)
    (predictions : List (List Prediction))
    (config : ClassifyPostprocessConfig) : ClassifyPostprocessResult :=
  if !config.enabled then
    { predictions := predictions, steps := [], warnings := [] }
  else
    let scales := decide (f32Epsilon < (config.temperature - 1.0).abs)
    let rounded := predictions.map fun batch =>
      (if scales then applyTemperature batch config.temperature
        else batch).map fun p => { p with confidence := roundTo4 p.confidence }
    let filtered := rounded.map fun batch =>
      batch.filter fun p => decide (config.minConfidence ≤ p.confidence)
    let dropped := (List.zipWith (fun before after =>
      before.length - after.length) rounded filtered).sum
    { predictions := filtered
      steps :=
        (if scales then ["temperature_scaled:" ++
          format.display config.temperature] else []) ++
          ["rounded", "filtered:min=" ++ format.display config.minConfidence]
      warnings :=
        if 0 < dropped then ["predictions_filtered:" ++ toString dropped]
        else [] }

structure BatchClassifyRequest where
  images : List String
  topK : Nat
  modelWidth : Nat
  modelHeight : Nat
  skipPostprocess : Bool

structure BatchClassifyResponse where
  results : List (List Prediction)
  batchSize : Nat

/-- The configuration and the environment of the endpoint.  The outer error of
the backend is a task that did not finish. -/
structure ClassifyServer where
  imageLimitMb : Nat
  postprocess : ClassifyPostprocessConfig
  decodeBase64 : String → Except String (List UInt8)
  classify : List (List UInt8) → BatchClassifyRequest →
    Except String (Except String (List (List Prediction)))
  info : RequestInfo

def BatchClassifyRequest.check (request : BatchClassifyRequest) :
    Except ApiError Unit :=
  if request.images.isEmpty then
    .error (.badRequest "images array must not be empty")
  else if 128 < request.images.length then
    .error (.badRequest "batch too large (max 128 images)")
  else if request.topK = 0 then
    .error (.badRequest "top_k must be >= 1")
  else if 1000 < request.topK then
    .error (.badRequest "top_k must be <= 1000")
  else if request.modelWidth = 0 ∨ request.modelHeight = 0 then
    .error (.badRequest "model_width and model_height must be >= 1")
  else if 4096 < request.modelWidth ∨ 4096 < request.modelHeight then
    .error (.badRequest "model_width and model_height must be <= 4096")
  else .ok ()

namespace ClassifyServer

variable (server : ClassifyServer)

/-- The first image whose text is too long is reported. -/
def checkSizes (images : List String) : Except ApiError Unit :=
  match images.findIdx? fun b64 =>
    mebibytes server.imageLimitMb < b64.utf8ByteSize with
  | none => .ok ()
  | some i => .error (.payloadTooLarge
      s!"image[{i}] base64 exceeds {server.imageLimitMb} MiB limit")

def decodeImages (images : List String) :
    Except ApiError (List (List UInt8)) :=
  images.zipIdx.mapM fun (b64, i) =>
    (server.decodeBase64 b64).mapError fun e =>
      .badRequest s!"image[{i}]: {e}"

/-- The answer to what the backend has found. -/
def envelope (format : FloatFormat) (request : BatchClassifyRequest)
    (results : List (List Prediction)) : Envelope BatchClassifyResponse :=
  let pp := if request.skipPostprocess then
      { predictions := results, steps := [], warnings := [] }
    else classifyProcess format results server.postprocess
  .fromInference
    { results := pp.predictions, batchSize := pp.predictions.length }
    server.info "classification-backend" request.skipPostprocess pp.steps
    pp.warnings

def batchClassify (format : FloatFormat) (request : BatchClassifyRequest) :
    Except ApiError (Envelope BatchClassifyResponse) := do
  request.check
  server.checkSizes request.images
  let rawImages ← server.decodeImages request.images
  let outcome ← (server.classify rawImages request).mapError fun e =>
    .internalError ("task join: " ++ e)
  let results ← outcome.mapError fun e =>
    .badRequest ("classify failed: " ++ e)
  return server.envelope format request results

end ClassifyServer

def Prediction.toJson (format : FloatFormat) (prediction : Prediction) :
    JsonValue :=
  .object [
    ("label", .string prediction.label),
    ("confidence", format.read32 prediction.confidence),
    ("class_id", jsonUsize prediction.classId)]

def BatchClassifyResponse.toJson (format : FloatFormat)
    (response : BatchClassifyResponse) : JsonValue :=
  .object [
    ("results", .array (response.results.map fun batch =>
      .array (batch.map (Prediction.toJson format)))),
    ("batch_size", jsonUsize response.batchSize)]

/-! ## Detection -/

/-- Only ASCII letters have a lower case among the letters compared here. -/
def lowercase (text : String) : String :=
  String.ofList (text.toList.map Char.toLower)

inductive YoloVersion where
  | v5
  | v8
  | v10
  | v11
  | v12
  deriving DecidableEq

namespace YoloVersion

def fromStr (text : String) : Option YoloVersion :=
  let text := lowercase text
  if text = "v5" ∨ text = "yolov5" then some .v5
  else if text = "v8" ∨ text = "yolov8" then some .v8
  else if text = "v10" ∨ text = "yolov10" then some .v10
  else if text = "v11" ∨ text = "yolov11" ∨ text = "yolo11" then some .v11
  else if text = "v12" ∨ text = "yolov12" ∨ text = "yolo12" then some .v12
  else none

def asStr : YoloVersion → String
  | .v5 => "YOLOv5"
  | .v8 => "YOLOv8"
  | .v10 => "YOLOv10"
  | .v11 => "YOLOv11"
  | .v12 => "YOLOv12"

end YoloVersion

inductive YoloSize where
  | nano
  | small
  | medium
  | large
  | xLarge
  deriving DecidableEq

namespace YoloSize

def suffix : YoloSize → String
  | .nano => "n"
  | .small => "s"
  | .medium => "m"
  | .large => "l"
  | .xLarge => "x"

def fromSuffix (text : String) : Option YoloSize :=
  [nano, small, medium, large, xLarge].find? fun size =>
    size.suffix == text

end YoloSize

structure BoundingBox where
  x1 : Float32
  y1 : Float32
  x2 : Float32
  y2 : Float32

structure Detection where
  classId : Nat
  className : String
  confidence : Float32
  bbox : BoundingBox

structure YoloTimes where
  inferenceTimeMs : Float
  preprocessingTimeMs : Float
  postprocessingTimeMs : Float
  totalTimeMs : Float

structure YoloResults where
  detections : List Detection
  times : YoloTimes

structure EnrichedDetection where
  classId : Nat
  className : String
  confidence : Float32
  bbox : BoundingBox
  bboxRel : BoundingBox
  area : Float32
  confidenceBucket : String

structure EnrichedYoloResults where
  detections : List EnrichedDetection
  times : YoloTimes

structure YoloPostprocessConfig where
  enabled : Bool
  highConfidenceThreshold : Float32
  mediumConfidenceThreshold : Float32

structure YoloPostprocessResult where
  results : EnrichedYoloResults
  steps : List String
  warnings : List String

def enrich (d : Detection) (imgW imgH : Nat)
    (config : YoloPostprocessConfig) : EnrichedDetection :=
  let w := f32Max (Float32.ofNat imgW) 1.0
  let h := f32Max (Float32.ofNat imgH) 1.0
  let confidence := roundTo4 d.confidence
  { classId := d.classId
    className := d.className
    confidence := confidence
    bbox := d.bbox
    bboxRel := {
      x1 := f32Clamp (d.bbox.x1 / w) 0.0 1.0
      y1 := f32Clamp (d.bbox.y1 / h) 0.0 1.0
      x2 := f32Clamp (d.bbox.x2 / w) 0.0 1.0
      y2 := f32Clamp (d.bbox.y2 / h) 0.0 1.0 }
    area := f32Max (d.bbox.x2 - d.bbox.x1) 0.0 *
      f32Max (d.bbox.y2 - d.bbox.y1) 0.0
    confidenceBucket :=
      if config.highConfidenceThreshold ≤ confidence then "high"
      else if config.mediumConfidenceThreshold ≤ confidence then "medium"
      else "low" }

/-- Enrichment always runs; only its steps depend on the configuration. -/
def yoloProcess (results : YoloResults) (imgW imgH : Nat)
    (config : YoloPostprocessConfig) : YoloPostprocessResult where
  results := {
    detections := results.detections.map fun d => enrich d imgW imgH config
    times := results.times }
  steps :=
    if config.enabled then ["bbox_rel", "bbox_enriched", "confidence_bucketed"]
    else []
  warnings := []

structure YoloDetectRequest where
  modelVersion : String
  modelSize : String
  confThreshold : Option Float32
  iouThreshold : Option Float32
  skipPostprocess : Bool

structure EnrichedYoloDetectResponse where
  success : Bool
  results : Option EnrichedYoloResults
  error : Option String

/-- The configuration and the environment of the endpoint, in the build that
runs an ONNX model.  The outer error of the detector is a task that did not
finish. -/
structure DetectServer where
  imageLimitMb : Nat
  confThreshold : Float32
  iouThreshold : Float32
  postprocess : YoloPostprocessConfig
  /-- The path of the model in the text of an error. -/
  ortModelPath : String
  ortModelExists : Bool
  loadDetector : Except String Unit
  imageDimensions : List UInt8 → Except String (Nat × Nat)
  detectBytes : List UInt8 → Float32 → Float32 →
    Except String (Except String YoloResults)
  info : RequestInfo

namespace DetectServer

variable (server : DetectServer)

/-- The chunks of the uploaded fields, gathered up to the limit. -/
def gather (image : List UInt8) :
    List (Except String (List UInt8)) → Except ApiError (List UInt8)
  | [] => .ok image
  | .error e :: _ => .error (.internalError e)
  | .ok data :: chunks =>
      if mebibytes server.imageLimitMb < image.length + data.length then
        .error (.payloadTooLarge
          s!"image upload exceeds {server.imageLimitMb} MiB limit")
      else gather (image ++ data) chunks

/-- The answer to what the detector has found. -/
def envelope (request : YoloDetectRequest) (modelName : String)
    (rawResults : YoloResults) (imgW imgH : Nat) :
    Envelope EnrichedYoloDetectResponse :=
  let pp := yoloProcess rawResults imgW imgH server.postprocess
  .fromInference
    { success := true, results := some pp.results, error := none }
    server.info ("yolov8n-ort/" ++ modelName) request.skipPostprocess
    (if request.skipPostprocess then [] else pp.steps)
    (if request.skipPostprocess then [] else pp.warnings)

def detectObjects (request : YoloDetectRequest)
    (upload : List (Except String (List UInt8))) :
    Except ApiError (Envelope EnrichedYoloDetectResponse) := do
  let confThreshold := request.confThreshold.getD server.confThreshold
  let iouThreshold := request.iouThreshold.getD server.iouThreshold
  let version ← (YoloVersion.fromStr request.modelVersion).elim
    (.error (.badRequest ("Invalid YOLO version: " ++ request.modelVersion)))
    .ok
  let size ← (YoloSize.fromSuffix request.modelSize).elim
    (.error (.badRequest ("Invalid model size: " ++ request.modelSize))) .ok
  let image ← server.gather [] upload
  let modelName :=
    "yolo" ++ (lowercase version.asStr).replace "yolo" "" ++ size.suffix
  (if server.ortModelExists then .ok () else .error (.notFound
    ("YOLO ORT model not found at " ++ server.ortModelPath)) :
    Except ApiError Unit)
  server.loadDetector.mapError fun e => .internalError ("YOLO init: " ++ e)
  let (imgW, imgH) ← (server.imageDimensions image).mapError fun e =>
    .badRequest ("could not read image dimensions: " ++ e)
  (if imgW = 0 ∨ imgH = 0 then
    .error (.badRequest s!"image has zero dimension: {imgW}x{imgH}")
    else .ok () : Except ApiError Unit)
  let outcome ← (server.detectBytes image confThreshold
    iouThreshold).mapError fun e => .internalError ("task join: " ++ e)
  let rawResults ← outcome.mapError fun e =>
    .internalError ("YOLO detect: " ++ e)
  return server.envelope request modelName rawResults imgW imgH

end DetectServer

def BoundingBox.toJson (format : FloatFormat) (bbox : BoundingBox) :
    JsonValue :=
  .object [
    ("x1", format.read32 bbox.x1),
    ("y1", format.read32 bbox.y1),
    ("x2", format.read32 bbox.x2),
    ("y2", format.read32 bbox.y2)]

def EnrichedDetection.toJson (format : FloatFormat)
    (detection : EnrichedDetection) : JsonValue :=
  .object [
    ("class_id", jsonUsize detection.classId),
    ("class_name", .string detection.className),
    ("confidence", format.read32 detection.confidence),
    ("bbox", detection.bbox.toJson format),
    ("bbox_rel", detection.bboxRel.toJson format),
    ("area", format.read32 detection.area),
    ("confidence_bucket", .string detection.confidenceBucket)]

def EnrichedYoloResults.toJson (format : FloatFormat)
    (results : EnrichedYoloResults) : JsonValue :=
  .object [
    ("detections",
      .array (results.detections.map (EnrichedDetection.toJson format))),
    ("inference_time_ms", format.read64 results.times.inferenceTimeMs),
    ("preprocessing_time_ms",
      format.read64 results.times.preprocessingTimeMs),
    ("postprocessing_time_ms",
      format.read64 results.times.postprocessingTimeMs),
    ("total_time_ms", format.read64 results.times.totalTimeMs)]

def EnrichedYoloDetectResponse.toJson (format : FloatFormat)
    (response : EnrichedYoloDetectResponse) : JsonValue :=
  .object [
    ("success", .bool response.success),
    ("results",
      (response.results.map (EnrichedYoloResults.toJson format)).getD .null),
    ("error", (response.error.map .string).getD .null)]

/-! ## What the answers hold -/

/-- Enrichment keeps the names of the classes, in order. -/
theorem yoloProcess_classNames (results : YoloResults) (imgW imgH : Nat)
    (config : YoloPostprocessConfig) :
    (yoloProcess results imgW imgH config).results.detections.map
        EnrichedDetection.className =
      results.detections.map Detection.className := by
  simp [yoloProcess, enrich]

/-- A successful answer holds the results of the detector. -/
theorem detectObjects_results {server : DetectServer}
    {request : YoloDetectRequest}
    {upload : List (Except String (List UInt8))}
    {answer : Envelope EnrichedYoloDetectResponse}
    (answered : server.detectObjects request upload = .ok answer) :
    ∃ rawResults imgW imgH, answer.data.results =
      some (yoloProcess rawResults imgW imgH server.postprocess).results := by
  unfold DetectServer.detectObjects at answered
  obtain ⟨version, -, answered⟩ := ExceptSteps.bind_eq_ok answered
  obtain ⟨size, -, answered⟩ := ExceptSteps.bind_eq_ok answered
  obtain ⟨image, -, answered⟩ := ExceptSteps.bind_eq_ok answered
  obtain ⟨_, -, answered⟩ := ExceptSteps.bind_eq_ok answered
  obtain ⟨_, -, answered⟩ := ExceptSteps.bind_eq_ok answered
  obtain ⟨⟨imgW, imgH⟩, -, answered⟩ := ExceptSteps.bind_eq_ok answered
  obtain ⟨_, -, answered⟩ := ExceptSteps.bind_eq_ok answered
  obtain ⟨outcome, -, answered⟩ := ExceptSteps.bind_eq_ok answered
  obtain ⟨rawResults, -, answered⟩ := ExceptSteps.bind_eq_ok answered
  cases answered
  exact ⟨rawResults, imgW, imgH, rfl⟩

end TorchInference
