import TorchInference.VisionResponses

/-!
# Agent tools and the server they call

The agent's tools post an image to an endpoint of the server and read the
answer as JSON.  The tools and the endpoints are written apart and agree on
nothing but that JSON.
-/

namespace TorchInference

open ExceptSteps

namespace JsonValue

def asArray : JsonValue → Option (List JsonValue)
  | .array values => some values
  | _ => none

def asI64 : JsonValue → Option Int
  | .number (.posInt value) =>
      if value.toNat < 2 ^ 63 then some value.toNat else none
  | .number (.negInt value) => some value.toInt
  | _ => none

/-- The bits of a number read as a binary64 float. -/
def asF64 : JsonValue → Option UInt64
  | .number (.posInt value) => some value.toFloat.toBits
  | .number (.negInt value) => some value.toFloat.toBits
  | .number (.float bits) => some bits
  | _ => none

end JsonValue

inductive ToolError where
  | badArg (message : String)
  | denied (message : String)
  | timeout (ms : Nat)
  | upstream (message : String)
  | unknown (name : String)
  deriving DecidableEq

structure HttpStatus where
  code : Nat
  /-- The code and its reason phrase. -/
  text : String

def HttpStatus.isSuccess (status : HttpStatus) : Bool :=
  200 ≤ status.code && status.code < 300

/-- What comes of a request: the body is given as text and as the JSON that is
read from it. -/
inductive PostReply where
  | timedOut
  | failed (error : String)
  | answered (status : HttpStatus) (body : String)
      (json : Except String JsonValue)

/-- `post_json`, with the nanoseconds that remain before the deadline. -/
def postJson (url : String) (remaining : Nat) (reply : PostReply) :
    Except ToolError JsonValue :=
  if remaining = 0 then .error (.timeout 0)
  else
    match reply with
    | .timedOut => .error (.timeout (remaining / 1000000))
    | .failed e => .error (.upstream (url ++ ": " ++ e))
    | .answered status body json =>
        if status.isSuccess then
          json.mapError fun e => .upstream ("decode " ++ url ++ ": " ++ e)
        else .error (.upstream
          (url ++ " returned " ++ status.text ++ ": " ++ body))

/-- The text after the first marker. -/
def afterMarker (marker : List Char) : List Char → Option (List Char)
  | [] => none
  | c :: rest =>
      if marker.isPrefixOf (c :: rest) then
        some ((c :: rest).drop marker.length)
      else afterMarker marker rest

def encodeImage (value : JsonValue) : Except ToolError String :=
  match value.asStr with
  | none => .error (.badArg "image must be a string")
  | some text =>
      match afterMarker "base64,".toList text.toList with
      | some rest => .ok (String.ofList rest)
      | none => .ok text

/-- `ClassifyTool::invoke`. -/
def classifyTool (url : String) (args : JsonValue) (remaining : Nat)
    (send : JsonValue → PostReply) : Except ToolError JsonValue := do
  let image ← (args.field "image").elim
    (.error (.badArg "classify requires `image`")) .ok
  let topK := max (((args.field "top_k").bind JsonValue.asI64).getD 1) 1
  let b64 ← encodeImage image
  let body := .object [
    ("images", .array [.string b64]), ("top_k", jsonUsize topK.toNat)]
  let response ← postJson url remaining (send body)
  let predictions ← ((((response.field "results").bind
      JsonValue.asArray).bind List.head?).bind JsonValue.asArray).elim
    (.error (.upstream "classify: missing results")) .ok
  let top ← predictions.head?.elim
    (.error (.upstream "classify: empty predictions")) .ok
  let label ← ((top.field "label").bind JsonValue.asStr).elim
    (.error (.upstream "classify: missing label")) .ok
  let confidence := ((top.field "confidence").bind JsonValue.asF64).getD 0
  return .object [
    ("label", .string label),
    ("confidence", .number (.float confidence)),
    ("all", .array predictions)]

/-- The detections a response is read to hold. -/
def readDetections (raw : JsonValue) : List JsonValue :=
  (((raw.field "results").bind (JsonValue.field "detections")).bind
    JsonValue.asArray).getD []

/-- `DetectTool::invoke`; the request is sent to its URL with the bytes of the
image. -/
def detectTool (url : String) (decodeBase64 : String → Except String
      (List UInt8)) (args : JsonValue) (remaining : Nat)
    (send : String → List UInt8 → PostReply) :
    Except ToolError JsonValue := do
  let image ← (args.field "image").elim
    (.error (.badArg "detect requires `image`")) .ok
  let version := ((args.field "model_version").bind JsonValue.asStr).getD "v8"
  let size := ((args.field "model_size").bind JsonValue.asStr).getD "n"
  let b64 ← encodeImage image
  let bytes ← (decodeBase64 b64).mapError fun e =>
    .badArg ("invalid base64 image: " ++ e)
  (if remaining = 0 then .error (.timeout 0) else .ok () :
    Except ToolError Unit)
  let url := url ++ "?model_version=" ++ version ++ "&model_size=" ++ size
  let raw ← (match send url bytes with
    | .timedOut => .error (.timeout (remaining / 1000000))
    | .failed e => .error (.upstream (url ++ ": " ++ e))
    | .answered status body json =>
        if status.isSuccess then
          json.mapError fun e => .upstream ("decode detect: " ++ e)
        else .error (.upstream
          ("detect returned " ++ status.text ++ ": " ++ body)) :
    Except ToolError JsonValue)
  let detections := readDetections raw
  let labels := detections.filterMap fun d =>
    (d.field "label").bind JsonValue.asStr
  return .object [
    ("count", jsonUsize detections.length),
    ("labels", jsonStrings labels),
    ("raw", raw)]

/-! ## Exchanges -/

/-- A call of the classification tool that is answered by the endpoint, and in
time; its first image has predictions. -/
structure ClassifyExchange (format : FloatFormat) where
  server : ClassifyServer
  request : BatchClassifyRequest
  answer : Envelope BatchClassifyResponse
  answered : server.batchClassify format request = .ok answer
  top : Prediction
  others : List Prediction
  rest : List (List Prediction)
  results : answer.data.results = (top :: others) :: rest
  url : String
  args : JsonValue
  image : String
  hasImage : args.field "image" = some (.string image)
  remaining : Nat
  inTime : 0 < remaining
  body : String

namespace ClassifyExchange

variable {format : FloatFormat} (exchange : ClassifyExchange format)

def response : JsonValue :=
  exchange.answer.toJson format (BatchClassifyResponse.toJson format)

def invoke : Except ToolError JsonValue :=
  classifyTool exchange.url exchange.args exchange.remaining fun _ =>
    .answered ⟨200, "200 OK"⟩ exchange.body (.ok exchange.response)

/-- The tool returns the first prediction, and the whole list. -/
def Understood : Prop :=
  ∃ out, exchange.invoke = .ok out ∧
    out.field "label" = some (.string exchange.top.label) ∧
    out.field "confidence" =
      some (format.read32 exchange.top.confidence) ∧
    out.field "all" = some (.array
      ((exchange.top :: exchange.others).map (Prediction.toJson format)))

end ClassifyExchange

/-- A call of the detection tool that is answered by the endpoint, and in
time. -/
structure DetectExchange (format : FloatFormat) where
  server : DetectServer
  request : YoloDetectRequest
  upload : List (Except String (List UInt8))
  answer : Envelope EnrichedYoloDetectResponse
  answered : server.detectObjects request upload = .ok answer
  results : EnrichedYoloResults
  hasResults : answer.data.results = some results
  url : String
  decodeBase64 : String → Except String (List UInt8)
  args : JsonValue
  image : String
  hasImage : args.field "image" = some (.string image)
  b64 : String
  encoded : encodeImage (.string image) = .ok b64
  bytes : List UInt8
  decoded : decodeBase64 b64 = .ok bytes
  remaining : Nat
  inTime : 0 < remaining
  body : String

namespace DetectExchange

variable {format : FloatFormat} (exchange : DetectExchange format)

def response : JsonValue :=
  exchange.answer.toJson format (EnrichedYoloDetectResponse.toJson format)

def invoke : Except ToolError JsonValue :=
  detectTool exchange.url exchange.decodeBase64 exchange.args
    exchange.remaining fun _ _ =>
      .answered ⟨200, "200 OK"⟩ exchange.body (.ok exchange.response)

/-- The tool returns the number of detections and the names of their
classes. -/
def Understood : Prop :=
  ∃ out, exchange.invoke = .ok out ∧
    out.field "count" =
      some (jsonUsize exchange.results.detections.length) ∧
    out.field "labels" = some (jsonStrings
      (exchange.results.detections.map EnrichedDetection.className))

end DetectExchange

inductive ToolExchange (format : FloatFormat) where
  | classify (exchange : ClassifyExchange format)
  | detect (exchange : DetectExchange format)

namespace ToolExchange

variable {format : FloatFormat}

def Understood : ToolExchange format → Prop
  | .classify exchange => exchange.Understood
  | .detect exchange => exchange.Understood

/-- The server has detected nothing; what it has classified does not count. -/
def NothingDetected : ToolExchange format → Prop
  | .classify _ => False
  | .detect exchange => exchange.results.detections = []

end ToolExchange

/-! ## What the tools read -/

section Envelopes

variable {format : FloatFormat} {Data : Type*}

/-- The data of an envelope are not at its top. -/
theorem field_results_toJson (dataToJson : Data → JsonValue)
    (envelope : Envelope Data) :
    (envelope.toJson format dataToJson).field "results" = none := by
  simp [Envelope.toJson, JsonValue.field, List.lookup_cons]

theorem readDetections_toJson (dataToJson : Data → JsonValue)
    (envelope : Envelope Data) :
    readDetections (envelope.toJson format dataToJson) = [] := by
  simp [readDetections, field_results_toJson]

end Envelopes

/-- The classification tool misses the results. -/
theorem ClassifyExchange.invoke_eq {format : FloatFormat}
    (exchange : ClassifyExchange format) :
    exchange.invoke = .error (.upstream "classify: missing results") := by
  have inTime : exchange.remaining ≠ 0 := by
    have positive := exchange.inTime
    omega
  have encoded : ∃ b64, encodeImage (.string exchange.image) = .ok b64 := by
    unfold encodeImage
    simp only [JsonValue.asStr]
    split <;> exact ⟨_, rfl⟩
  obtain ⟨b64, isEncoded⟩ := encoded
  have missing : exchange.response.field "results" = none :=
    field_results_toJson _ _
  unfold invoke classifyTool
  simp [exchange.hasImage, isEncoded, postJson, inTime, HttpStatus.isSuccess,
    missing, bind, Except.bind, Except.mapError]

/-- The detection tool reads a response without detections. -/
theorem DetectExchange.invoke_eq {format : FloatFormat}
    (exchange : DetectExchange format) :
    exchange.invoke = .ok (.object [
      ("count", jsonUsize 0), ("labels", jsonStrings []),
      ("raw", exchange.response)]) := by
  have inTime : exchange.remaining ≠ 0 := by
    have positive := exchange.inTime
    omega
  have nothing : readDetections exchange.response = [] :=
    readDetections_toJson _ _
  unfold invoke detectTool
  simp [exchange.hasImage, exchange.encoded, exchange.decoded, inTime,
    HttpStatus.isSuccess, nothing, bind, Except.bind, Except.mapError, pure,
    Except.pure]

/-- A tool understands an answer of the server exactly when it is one of the
detection endpoint and holds nothing. -/
theorem understood_iff_nothingDetected {format : FloatFormat}
    (exchange : ToolExchange format) :
    exchange.Understood ↔ exchange.NothingDetected := by
  cases exchange with
  | classify exchange =>
      constructor
      · rintro ⟨out, returned, -⟩
        rw [exchange.invoke_eq] at returned
        cases returned
      · exact False.elim
  | detect exchange =>
      constructor
      · rintro ⟨out, returned, -, labels⟩
        rw [exchange.invoke_eq] at returned
        cases returned
        have same : jsonStrings [] = jsonStrings
            (exchange.results.detections.map EnrichedDetection.className) := by
          simpa [JsonValue.field, List.lookup_cons] using labels
        simpa [jsonStrings, ToolExchange.NothingDetected] using same
      · intro nothing
        have empty : exchange.results.detections = [] := nothing
        refine ⟨_, exchange.invoke_eq, ?_, ?_⟩
        · simp [JsonValue.field, empty]
        · simp [JsonValue.field, List.lookup_cons, empty]

section Example

def widenedFormat : FloatFormat where
  display := toString
  read32 := fun value => .number (.float value.toFloat.toBits)
  read64 := fun value => .number (.float value.toBits)

def exampleInfo : RequestInfo where
  latencyMs := 12.5
  version := "1.0.0"
  requestId := "request"

def catServer : ClassifyServer where
  imageLimitMb := 20
  postprocess := { enabled := true, temperature := 1.0, minConfidence := 0.0 }
  decodeBase64 := fun _ => .ok [0xFF, 0xD8]
  classify := fun _ _ =>
    .ok (.ok [[{ label := "cat", confidence := 0.5, classId := 281 }]])
  info := exampleInfo

def catRequest : BatchClassifyRequest where
  images := ["/9g="]
  topK := 1
  modelWidth := 224
  modelHeight := 224
  skipPostprocess := true

def imageArgs : JsonValue :=
  .object [("image", .string "/9g=")]

/-- A cat is classified. -/
def catExchange : ClassifyExchange widenedFormat where
  server := catServer
  request := catRequest
  answer := catServer.envelope widenedFormat catRequest
    [[{ label := "cat", confidence := 0.5, classId := 281 }]]
  answered := rfl
  top := { label := "cat", confidence := 0.5, classId := 281 }
  others := []
  rest := []
  results := rfl
  url := "http://localhost:8000/classify/batch"
  args := imageArgs
  image := "/9g="
  hasImage := rfl
  remaining := 2000000000
  inTime := by decide
  body := ""

def personResults : YoloResults where
  detections := [{
    classId := 0
    className := "person"
    confidence := 0.5
    bbox := { x1 := 1.0, y1 := 1.0, x2 := 2.0, y2 := 2.0 } }]
  times := {
    inferenceTimeMs := 10.0
    preprocessingTimeMs := 2.0
    postprocessingTimeMs := 1.0
    totalTimeMs := 13.0 }

def personServer : DetectServer where
  imageLimitMb := 20
  confThreshold := 0.25
  iouThreshold := 0.45
  postprocess := {
    enabled := true
    highConfidenceThreshold := 0.75
    mediumConfidenceThreshold := 0.5 }
  ortModelPath := "\"models/yolo/yolov8n-int8.onnx\""
  ortModelExists := true
  loadDetector := .ok ()
  imageDimensions := fun _ => .ok (4, 4)
  detectBytes := fun _ _ _ => .ok (.ok personResults)
  info := exampleInfo

def personRequest : YoloDetectRequest where
  modelVersion := "v8"
  modelSize := "n"
  confThreshold := none
  iouThreshold := none
  skipPostprocess := false

def personModelName : String :=
  "yolo" ++ (lowercase YoloVersion.v8.asStr).replace "yolo" "" ++
    YoloSize.nano.suffix

theorem personServer_answers :
    personServer.detectObjects personRequest [.ok [0xFF, 0xD8]] =
      .ok (personServer.envelope personRequest personModelName personResults
        4 4) := by
  have version : YoloVersion.fromStr "v8" = some .v8 := by decide
  have size : YoloSize.fromSuffix "n" = some .nano := by decide
  have gathered : personServer.gather [] [.ok [0xFF, 0xD8]] =
      .ok [0xFF, 0xD8] := by
    simp [DetectServer.gather, mebibytes, personServer]
  unfold DetectServer.detectObjects
  rw [gathered]
  simp only [personRequest, version, size]
  rfl

/-- A person is detected. -/
def personExchange : DetectExchange widenedFormat where
  server := personServer
  request := personRequest
  upload := [.ok [0xFF, 0xD8]]
  answer := personServer.envelope personRequest personModelName personResults
    4 4
  answered := personServer_answers
  results := (yoloProcess personResults 4 4 personServer.postprocess).results
  hasResults := rfl
  url := "http://localhost:8000/yolo/detect"
  decodeBase64 := fun _ => .ok [0xFF, 0xD8]
  args := imageArgs
  image := "/9g="
  hasImage := rfl
  b64 := "/9g="
  encoded := rfl
  bytes := [0xFF, 0xD8]
  decoded := rfl
  remaining := 2000000000
  inTime := by decide
  body := ""

/-- Neither tool understands an answer that holds something. -/
theorem tools_misunderstand :
    ¬ catExchange.Understood ∧ ¬ personExchange.Understood := by
  constructor
  · rintro ⟨out, returned, -⟩
    rw [catExchange.invoke_eq] at returned
    cases returned
  · rintro ⟨out, returned, -, labels⟩
    rw [personExchange.invoke_eq] at returned
    cases returned
    simp [JsonValue.field, List.lookup_cons, jsonStrings, personExchange,
      yoloProcess, personResults] at labels

end Example

end TorchInference
