import TorchInference.VisionResponses
import Mathlib.Data.Prod.Lex

/-!
# Live detection over a WebSocket

A connection to `/ws/detect` takes configuration messages as texts and frames
as binary messages.  Each frame is run through the model that ranks best among
the files of the model directory at that time; the detector is kept until
another file ranks best.  Thresholds are kept as the bits of an `f32`; the
session only hands them on.
-/

namespace TorchInference

/-- What a configuration message contains of the detection parameters. -/
structure ConfigFields where
  version : Option String
  size : Option String
  conf : Option UInt32
  iou : Option UInt32

/-- 0.5 -/
def defaultConf : UInt32 :=
  0x3F000000

/-- 0.45 -/
def defaultIou : UInt32 :=
  0x3EE66666

/-- `ClientMsg::Config`, with the defaults filled in for what is missing. -/
structure ConfigMsg where
  version : Option String
  size : Option String
  conf : UInt32
  iou : UInt32

def ConfigFields.deserialize (fields : ConfigFields) : ConfigMsg where
  version := fields.version
  size := fields.size
  conf := fields.conf.getD defaultConf
  iou := fields.iou.getD defaultIou

structure DetectCfg where
  version : String
  size : String
  conf : UInt32
  iou : UInt32

namespace DetectCfg

def default : DetectCfg :=
  ⟨"v8", "n", defaultConf, defaultIou⟩

/-- What the session makes of a configuration message. -/
def configure (cfg : DetectCfg) (msg : ConfigMsg) : DetectCfg where
  version := msg.version.getD cfg.version
  size := msg.size.getD cfg.size
  conf := msg.conf
  iou := msg.iou

end DetectCfg

/-! ## The model -/

/-- `Iterator::max_by_key`, which prefers the later one of two maxima. -/
def maxByKey {Item Key : Type*} [LinearOrder Key] (key : Item → Key) :
    List Item → Option Item
  | [] => none
  | item :: items =>
      match maxByKey key items with
      | none => some item
      | some best => if key best < key item then some item else some best

/-- Higher versions first. -/
def verScore (name : String) : Nat :=
  let contains (part : String) : Bool :=
    decide (part.toList <:+: (lowercase name).toList)
  if contains "yolo12" || contains "yolov12" then 120
  else if contains "yolo11" || contains "yolov11" then 110
  else if contains "yolov10" || contains "yolo10" then 100
  else if contains "yolov8" || contains "yolo8" then 80
  else if contains "yolov5" || contains "yolo5" then 50
  else 10

/-- Smaller models first. -/
def sizeScore (name : String) : Nat :=
  let endsWith (part : String) : Bool :=
    decide (part.toList <:+ (lowercase name).toList)
  if endsWith "n.onnx" then 5
  else if endsWith "s.onnx" then 4
  else if endsWith "m.onnx" then 3
  else if endsWith "l.onnx" then 2
  else 1

/-- The files that are considered.  A name that is nothing but a dot and
letters has no extension. -/
def isYoloOnnx (name : String) : Bool :=
  let lower := (lowercase name).toList
  decide (".onnx".toList <:+ name.toList) && name != ".onnx" &&
    decide ("yolo".toList <:+: lower) && !decide ("tiny".toList <+: lower)

def modelRank (name : String) : Nat ×ₗ Nat :=
  toLex (verScore name, sizeScore name)

/-- `find_best_yolo_onnx`, given the names in `models/yolo` if it is a
directory that can be read. -/
def findBestYoloOnnx (files : Option (List String)) : Option String :=
  files.bind fun names => maxByKey modelRank (names.filter isYoloOnnx)

/-- A loaded detector, and which model its file holds. -/
structure OrtYoloDetector where
  version : YoloVersion
  size : YoloSize
  detectBytes : List UInt8 → UInt32 → UInt32 → Except String YoloResults

structure DetectionResult where
  label : String
  conf : Float32
  bbox : BoundingBox

/-- A call of `detect_bytes`. -/
structure DetectCall where
  detector : OrtYoloDetector
  bytes : List UInt8
  conf : UInt32
  iou : UInt32

def DetectCall.run (call : DetectCall) : Except String (List DetectionResult) :=
  (call.detector.detectBytes call.bytes call.conf call.iou).map fun raw =>
    raw.detections.map fun d => ⟨d.className, d.confidence, d.bbox⟩

/-! ## The session -/

/-- A frame with what the server finds when it comes: the names in the model
directory, what loading the chosen file gives, and the time it takes. -/
structure DetectFrame where
  data : List UInt8
  files : Option (List String)
  load : Except String OrtYoloDetector
  ms : Float

/-- The cached detector with the file it was loaded from. -/
abbrev CachedDetector :=
  Option (String × OrtYoloDetector)

/-- The file and the detector for a frame. -/
def DetectFrame.detector (frame : DetectFrame) (cached : CachedDetector) :
    Except String (String × OrtYoloDetector) :=
  match findBestYoloOnnx frame.files with
  | none => .error
      "No YOLO ONNX model found in models/yolo/ — download one first"
  | some path =>
      match cached.filter (·.1 = path) with
      | some found => .ok found
      | none => frame.load.map (path, ·)

/-- What processing a frame leads to. -/
structure DetectOutcome where
  result : Except String (List DetectionResult)
  cached : CachedDetector
  call : Option DetectCall

def processDetectFrame (frame : DetectFrame) (cfg : DetectCfg)
    (cached : CachedDetector) : DetectOutcome :=
  match frame.detector cached with
  | .error message => ⟨.error message, cached, none⟩
  | .ok found =>
      let call : DetectCall := ⟨found.2, frame.data, cfg.conf, cfg.iou⟩
      ⟨call.run, some found, some call⟩

namespace DetectSession

/-- What the session sends. -/
inductive ServerMsg where
  | ready (task : String) (frame : UInt64)
  | detect (frame : UInt64) (ms : Float) (count : Nat)
      (detections : List DetectionResult)
  | error (frame : UInt64) (msg : String)

end DetectSession

structure DetectSession where
  cfg : DetectCfg
  frameId : UInt64
  cached : CachedDetector
  sent : List DetectSession.ServerMsg
  closed : Bool

/-- What the session waits for.  `delivered` says whether its own message still
reaches the client. -/
inductive DetectEvent where
  | heartbeat (delivered : Bool)
  | text (txt : String)
  | binary (frame : DetectFrame) (delivered : Bool)
  | ping (delivered : Bool)
  | close
  | other

namespace DetectSession

/-- The session after its `ready` message. -/
def start (delivered : Bool) : DetectSession where
  cfg := .default
  frameId := 0
  cached := none
  sent := if delivered then [.ready "detect" 0] else []
  closed := !delivered

def answer (frameId : UInt64) (ms : Float) :
    Except String (List DetectionResult) → ServerMsg
  | .ok dets => .detect frameId ms dets.length dets
  | .error message => .error frameId message

/-- One round of the loop.  `fromStr` is what `serde_json` reads of a text, if
it is a configuration message. -/
def step (fromStr : String → Option ConfigFields) (session : DetectSession)
    (event : DetectEvent) : Option DetectSession :=
  if session.closed then none
  else
    match event with
    | .heartbeat delivered | .ping delivered =>
        some { session with closed := !delivered }
    | .text txt =>
        match fromStr txt with
        | none => some session
        | some fields =>
            some { session with cfg := session.cfg.configure fields.deserialize }
    | .binary frame delivered =>
        let frameId := session.frameId + 1
        let outcome := processDetectFrame frame session.cfg session.cached
        let msg := answer frameId frame.ms outcome.result
        some { session with
          frameId := frameId
          cached := outcome.cached
          sent := if delivered then session.sent ++ [msg] else session.sent
          closed := !delivered }
    | .close => some { session with closed := true }
    | .other => some session

end DetectSession

end TorchInference
