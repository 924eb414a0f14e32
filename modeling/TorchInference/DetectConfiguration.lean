import TorchInference.DetectSession
import TorchInference.TransitionRuns

/-!
# Whether live detection follows its configuration

A client gives thresholds and a model by messages of which each may contain any
of the fields.  A message without a threshold sets it back to its default, and
the file of a frame is chosen without regard to the version and the size given.
So a session follows its configuration exactly as long as neither shows.
-/

namespace TorchInference

open TransitionRuns

/-! ## The chosen file -/

/-- The item is the last one of those with the greatest key. -/
def LastGreatest {Item Key : Type*} [LinearOrder Key] (key : Item → Key)
    (items : List Item) (item : Item) : Prop :=
  ∃ before after, items = before ++ item :: after ∧
    (∀ other ∈ before, key other ≤ key item) ∧
    ∀ other ∈ after, key other < key item

section MaxByKey

variable {Item Key : Type*} [LinearOrder Key] {key : Item → Key}
  {items : List Item} {first item : Item}

theorem LastGreatest.le (greatest : LastGreatest key items item) :
    ∀ other ∈ items, key other ≤ key item := by
  obtain ⟨before, after, rfl, atMost, less⟩ := greatest
  intro other mem
  rcases List.mem_append.mp mem with mem | mem
  · exact atMost other mem
  · rcases List.mem_cons.mp mem with rfl | mem
    · exact le_refl _
    · exact (less other mem).le

theorem LastGreatest.mem (greatest : LastGreatest key items item) :
    item ∈ items := by
  obtain ⟨before, after, rfl, -, -⟩ := greatest
  exact List.mem_append_right _ List.mem_cons_self

/-- Only its first item can change what is last and greatest in a list. -/
theorem lastGreatest_cons :
    LastGreatest key (first :: items) item ↔
      item = first ∧ (∀ other ∈ items, key other < key first) ∨
        LastGreatest key items item ∧ key first ≤ key item := by
  constructor
  · rintro ⟨before, after, split, atMost, less⟩
    cases before with
    | nil =>
        obtain ⟨rfl, rfl⟩ := List.cons.inj split
        exact Or.inl ⟨rfl, less⟩
    | cons head before =>
        obtain ⟨rfl, rfl⟩ := List.cons.inj split
        obtain ⟨headLe, atMost⟩ := List.forall_mem_cons.mp atMost
        exact Or.inr ⟨⟨before, after, rfl, atMost, less⟩, headLe⟩
  · rintro (⟨rfl, less⟩ | ⟨⟨before, after, rfl, atMost, less⟩, firstLe⟩)
    · exact ⟨[], items, rfl, by simp, less⟩
    · exact ⟨first :: before, after, rfl,
        List.forall_mem_cons.mpr ⟨firstLe, atMost⟩, less⟩

theorem maxByKey_eq_none : maxByKey key items = none ↔ items = [] := by
  cases items with
  | nil => simp [maxByKey]
  | cons first rest =>
      simp only [maxByKey, reduceCtorEq, iff_false]
      cases maxByKey key rest with
      | none => simp
      | some best => simp only; split_ifs <;> simp

theorem maxByKey_eq_some_iff :
    maxByKey key items = some item ↔ LastGreatest key items item := by
  induction items generalizing item with
  | nil => simp [maxByKey, LastGreatest]
  | cons first rest ih =>
      rw [lastGreatest_cons, maxByKey, ← ih]
      cases found : maxByKey key rest with
      | none =>
          rw [maxByKey_eq_none.mp found]
          simp [eq_comm]
      | some best =>
          have greatest := ih.mp found
          simp only
          split_ifs with later
          · constructor
            · rintro ⟨⟩
              exact Or.inl ⟨rfl, fun other mem =>
                (greatest.le other mem).trans_lt later⟩
            · rintro (⟨rfl, -⟩ | ⟨⟨⟩, firstLe⟩)
              · rfl
              · exact absurd later firstLe.not_gt
          · constructor
            · rintro ⟨⟩
              exact Or.inr ⟨rfl, not_lt.mp later⟩
            · rintro (⟨rfl, less⟩ | ⟨same, -⟩)
              · exact absurd (less best greatest.mem) later
              · exact same

end MaxByKey

/-- The file is the last one of greatest rank among those considered. -/
def RanksBest (names : List String) (path : String) : Prop :=
  LastGreatest modelRank (names.filter isYoloOnnx) path

theorem findBestYoloOnnx_eq_some_iff {files : Option (List String)}
    {path : String} :
    findBestYoloOnnx files = some path ↔
      ∃ names, files = some names ∧ RanksBest names path := by
  cases files with
  | none => simp [findBestYoloOnnx]
  | some names =>
      simp only [findBestYoloOnnx, Option.bind_some, maxByKey_eq_some_iff,
        Option.some.injEq, exists_eq_left']
      rfl

namespace DetectFrame

/-- The detector of a file: the cached one, or else a newly loaded one. -/
def Provides (frame : DetectFrame) (cached : CachedDetector) (path : String)
    (det : OrtYoloDetector) : Prop :=
  cached = some (path, det) ∨
    (∀ other, cached ≠ some (path, other)) ∧ frame.load = .ok det

theorem detector_eq_ok {frame : DetectFrame} {cached : CachedDetector}
    {path : String} {det : OrtYoloDetector} :
    frame.detector cached = .ok (path, det) ↔
      findBestYoloOnnx frame.files = some path ∧
        frame.Provides cached path det := by
  rw [detector]
  cases findBestYoloOnnx frame.files with
  | none => simp
  | some best =>
      have loaded : frame.load.map (best, ·) = .ok (path, det) ↔
          best = path ∧ frame.load = .ok det := by
        cases frame.load with
        | error message => simp [Except.map]
        | ok other => simp [Except.map]
      cases cached with
      | none => simp [loaded, Provides]
      | some found =>
          obtain ⟨model, other⟩ := found
          by_cases same : model = best
          · subst same
            simp only [Option.filter_some, decide_true, if_true, Provides]
            constructor
            · rintro ⟨⟩
              exact ⟨rfl, Or.inl rfl⟩
            · rintro ⟨⟨⟩, here | ⟨elsewhere, -⟩⟩
              · cases here
                rfl
              · exact absurd rfl (elsewhere other)
          · simp only [Option.filter_some, same, decide_false,
              Bool.false_eq_true, if_false, loaded, Provides]
            constructor
            · rintro ⟨rfl, isLoaded⟩
              refine ⟨rfl, Or.inr ⟨?_, isLoaded⟩⟩
              rintro _ ⟨⟩
              exact same rfl
            · rintro ⟨⟨⟩, here | ⟨-, isLoaded⟩⟩
              · cases here
                exact absurd rfl same
              · exact ⟨rfl, isLoaded⟩

/-- When a frame comes to a call of the detector, and to which one. -/
theorem mem_call {frame : DetectFrame} {cfg : DetectCfg}
    {cached : CachedDetector} {call : DetectCall} :
    call ∈ (processDetectFrame frame cfg cached).call ↔
      ∃ names path det, frame.files = some names ∧ RanksBest names path ∧
        frame.Provides cached path det ∧
        call = ⟨det, frame.data, cfg.conf, cfg.iou⟩ := by
  constructor
  · intro isCall
    unfold processDetectFrame at isCall
    cases used : frame.detector cached with
    | error message =>
        rw [used] at isCall
        cases isCall
    | ok found =>
        rw [used] at isCall
        cases isCall
        obtain ⟨chosen, provided⟩ := detector_eq_ok.mp used
        obtain ⟨names, listed, best⟩ := findBestYoloOnnx_eq_some_iff.mp chosen
        exact ⟨names, found.1, found.2, listed, best, provided, rfl⟩
  · rintro ⟨names, path, det, listed, best, provided, rfl⟩
    have chosen := findBestYoloOnnx_eq_some_iff.mpr ⟨names, listed, best⟩
    unfold processDetectFrame
    rw [detector_eq_ok.mpr ⟨chosen, provided⟩]
    rfl

end DetectFrame

/-! ## Following the configuration -/

/-- The settings after a message: those it contains are changed. -/
def DetectCfg.amend (cfg : DetectCfg) (fields : ConfigFields) : DetectCfg where
  version := fields.version.getD cfg.version
  size := fields.size.getD cfg.size
  conf := fields.conf.getD cfg.conf
  iou := fields.iou.getD cfg.iou

/-- The detector runs the model that the settings name. -/
def OrtYoloDetector.IsModel (det : OrtYoloDetector) (cfg : DetectCfg) : Prop :=
  YoloVersion.fromStr cfg.version = some det.version ∧
    YoloSize.fromSuffix cfg.size = some det.size

structure DetectCall.Follows (call : DetectCall) (given : DetectCfg) : Prop where
  conf : call.conf = given.conf
  iou : call.iou = given.iou
  model : call.detector.IsModel given

/-- A session, and what was given last for each setting. -/
structure DetectHistory where
  session : DetectSession
  given : DetectCfg

namespace DetectHistory

variable (fromStr : String → Option ConfigFields)

def start (delivered : Bool) : DetectHistory :=
  ⟨.start delivered, .default⟩

/-- What is given after an event. -/
def heard (given : DetectCfg) : DetectEvent → DetectCfg
  | .text txt =>
      match fromStr txt with
      | none => given
      | some fields => given.amend fields
  | _ => given

def step (history : DetectHistory) (event : DetectEvent) :
    Option DetectHistory :=
  (history.session.step fromStr event).map fun session =>
    ⟨session, heard fromStr history.given event⟩

/-- A message changes only what it contains, and a frame is processed with what
was given last. -/
def FollowsConfig (history : DetectHistory) : DetectEvent → Prop
  | .text txt => ∀ fields, fromStr txt = some fields →
      history.session.cfg.configure fields.deserialize =
        history.session.cfg.amend fields
  | .binary frame _ =>
      ∀ call ∈ (processDetectFrame frame history.session.cfg
        history.session.cached).call, call.Follows history.given
  | _ => True

/-- A message that leaves out a threshold finds it at its default, and the
detector of the best file runs the model given last. -/
def ConfigStands (history : DetectHistory) : DetectEvent → Prop
  | .text txt => ∀ fields, fromStr txt = some fields →
      (fields.conf = none → history.session.cfg.conf = defaultConf) ∧
        (fields.iou = none → history.session.cfg.iou = defaultIou)
  | .binary frame _ => ∀ names path det, frame.files = some names →
      RanksBest names path →
        frame.Provides history.session.cached path det →
          det.IsModel history.given
  | _ => True

variable {fromStr}

/-- Only a missing value lets its default show. -/
theorem getD_eq_getD_iff {Setting : Type} {value : Option Setting}
    {first second : Setting} :
    value.getD first = value.getD second ↔ (value = none → first = second) := by
  cases value with
  | none => simp
  | some value => simp

theorem configure_eq_amend_iff {cfg : DetectCfg} {fields : ConfigFields} :
    cfg.configure fields.deserialize = cfg.amend fields ↔
      (fields.conf = none → cfg.conf = defaultConf) ∧
        (fields.iou = none → cfg.iou = defaultIou) := by
  simp only [DetectCfg.configure, ConfigFields.deserialize, DetectCfg.amend,
    DetectCfg.mk.injEq, true_and, getD_eq_getD_iff, eq_comm (b := cfg.conf),
    eq_comm (b := cfg.iou)]

theorem followsConfig_iff_configStands {history : DetectHistory}
    {event : DetectEvent} (inForce : history.session.cfg = history.given) :
    FollowsConfig fromStr history event ↔
      ConfigStands fromStr history event := by
  cases event with
  | text txt =>
      exact forall_congr' fun fields => forall_congr' fun _ =>
        configure_eq_amend_iff
  | binary frame delivered =>
      constructor
      · intro follows names path det listed best provided
        exact (follows _ (DetectFrame.mem_call.mpr
          ⟨names, path, det, listed, best, provided, rfl⟩)).model
      · intro stands call isCall
        obtain ⟨names, path, det, listed, best, provided, rfl⟩ :=
          DetectFrame.mem_call.mp isCall
        exact
          { conf := congrArg DetectCfg.conf inForce
            iou := congrArg DetectCfg.iou inForce
            model := stands names path det listed best provided }
  | heartbeat | ping | close | other => exact Iff.rfl

/-- The settings stay what was given while the session follows them. -/
theorem inForce_step {history next : DetectHistory} {event : DetectEvent}
    (inForce : history.session.cfg = history.given)
    (follows : FollowsConfig fromStr history event)
    (stepTo : step fromStr history event = some next) :
    next.session.cfg = next.given := by
  obtain ⟨session, moves, rfl⟩ := Option.map_eq_some_iff.mp stepTo
  unfold DetectSession.step at moves
  split_ifs at moves
  cases event with
  | text txt =>
      cases read : fromStr txt with
      | none =>
          simp only [read, Option.some.injEq] at moves
          simp only [heard, read, ← moves]
          exact inForce
      | some fields =>
          simp only [read, Option.some.injEq] at moves
          simp only [heard, read, ← moves]
          rw [follows fields read, inForce]
  | heartbeat delivered | ping delivered | binary frame delivered | close
  | other =>
      simp only [Option.some.injEq] at moves
      simp only [heard, ← moves]
      exact inForce

/-- A session follows its configuration exactly when its configuration
stands at every event. -/
theorem followsConfig_iff (fromStr : String → Option ConfigFields)
    (delivered : Bool) (events : List DetectEvent) :
    Meets (step fromStr) (FollowsConfig fromStr) (start delivered) events ↔
      Meets (step fromStr) (ConfigStands fromStr) (start delivered) events :=
  meets_congr_of_invariant
    (fun history => history.session.cfg = history.given)
    (fun _ _ inForce => followsConfig_iff_configStands inForce)
    (fun _ _ _ inForce follows stepTo => inForce_step inForce follows stepTo)
    rfl events

def confText : String :=
  "\x7b\"type\":\"config\",\"conf\":0.25\x7d"

def sizeText : String :=
  "\x7b\"type\":\"config\",\"size\":\"n\"\x7d"

/-- The two texts as `serde_json` reads them. -/
def readTexts (txt : String) : Option ConfigFields :=
  if txt = confText then some ⟨none, none, some 0x3E800000, none⟩
  else if txt = sizeText then some ⟨none, some "n", none, none⟩
  else none

/-- A frame when the given files are there and the chosen one holds a nano
model of the given version. -/
def nanoFrame (names : List String) (version : YoloVersion) : DetectFrame where
  data := []
  files := some names
  load := .ok ⟨version, .nano, fun _ _ _ => .error "decode image"⟩
  ms := 0

/-- The second message sets the threshold back that the first one gave, and a
session without messages does not use the default version. -/
theorem partialConfig_forgotten :
    (∃ history, run (step readTexts) (start true)
        [.text confText, .text sizeText] = some history ∧
      ∃ call ∈ (processDetectFrame (nanoFrame ["yolov8n.onnx"] .v8)
        history.session.cfg history.session.cached).call,
          call.conf = 0x3F000000 ∧ history.given.conf = 0x3E800000) ∧
      ∃ call ∈ (processDetectFrame
        (nanoFrame ["yolov8n.onnx", "yolo11n.onnx"] .v11)
        (start true).session.cfg (start true).session.cached).call,
          call.detector.version = .v11 ∧
            ¬call.detector.IsModel (start true).given := by
  have texts : sizeText ≠ confText := by decide +kernel
  have one : findBestYoloOnnx (some ["yolov8n.onnx"]) =
      some "yolov8n.onnx" := by decide +kernel
  have two : findBestYoloOnnx (some ["yolov8n.onnx", "yolo11n.onnx"]) =
      some "yolo11n.onnx" := by decide +kernel
  have version : YoloVersion.fromStr "v8" = some .v8 := by decide +kernel
  have readConf : readTexts confText =
      some ⟨none, none, some 0x3E800000, none⟩ := if_pos rfl
  have readSize : readTexts sizeText = some ⟨none, some "n", none, none⟩ := by
    rw [readTexts, if_neg texts, if_pos rfl]
  refine ⟨⟨⟨.start true, ⟨"v8", "n", 0x3E800000, defaultIou⟩⟩, ?_, ?_⟩, ?_⟩
  · simp only [run, step, DetectSession.step, start, DetectSession.start,
      readConf, readSize, heard, Bool.not_true, Bool.false_eq_true, if_false,
      Option.map_some]
    rfl
  · simp only [processDetectFrame, DetectFrame.detector, nanoFrame, one]
    exact ⟨_, rfl, rfl, trivial⟩
  · simp only [processDetectFrame, DetectFrame.detector, nanoFrame, two]
    refine ⟨_, rfl, rfl, ?_⟩
    rintro ⟨same, -⟩
    rw [start, DetectCfg.default, version] at same
    cases same

end DetectHistory

end TorchInference
