import TorchInference.TtsManager

/-!
# The engine of a speech request

`/tts/synthesize` and `/tts/stream` check a request alike and then choose an
engine, the one through the manager's synthesis and the other by itself.  The
default engine of the stream has fallbacks, the default engine of a synthesis
has none; but its name is reported as if it had.
-/

namespace TorchInference

structure SynthesisRequest where
  text : String
  engine : Option String
  voice : Option String
  speed : Float32
  pitch : Float32
  language : Option String

namespace SynthesisRequest

def checkText (request : SynthesisRequest) : Except ApiError Unit :=
  if request.text.isEmpty then
    .error (.badRequest "Text cannot be empty")
  else if 50000 < request.text.utf8ByteSize then
    .error (.badRequest "Text too long (max 50000 characters)")
  else .ok ()

def params (request : SynthesisRequest) : SynthesisParams where
  speed := clampF32 0.25 4 request.speed
  pitch := clampF32 0.5 2 request.pitch
  voice := request.voice
  language := request.language

end SynthesisRequest

namespace CachingTtsManager

/-- The engine of `/tts/stream`. -/
def streamEngine (manager : CachingTtsManager) (request : SynthesisRequest) :
    Except ApiError String :=
  match request.checkText with
  | .error error => .error error
  | .ok () =>
      let engine := match request.engine with
        | some id => manager.getEngine id
        | none => manager.getDefaultEngine
      match engine with
      | some id => .ok id
      | none => .error (.internalError "No TTS engine available")

/-- The name under which the audio of an engine is reported. -/
def engineUsed (requestedEngine : String) : Option String → String
  | some actual =>
      if actual ≠ requestedEngine then
        requestedEngine ++ " (" ++ actual ++ ")"
      else requestedEngine
  | none => requestedEngine

/-- An answer of `/tts/synthesize`: the audio and the name it is reported
under, with the engine that made it. -/
structure SynthesizeAnswer where
  response : Except ApiError (AudioData × String)
  engine : Option String

def synthesizeAnswer (manager : CachingTtsManager) (request : SynthesisRequest)
    (reply : String → Except String (AudioData × Option String)) :
    SynthesizeAnswer :=
  match request.checkText with
  | .error error => ⟨.error error, none⟩
  | .ok () =>
      let outcome :=
        manager.synthesize request.text request.engine request.params reply
      match outcome.result with
      | .error message =>
          ⟨.error (.internalError ("Synthesis failed: " ++ message)),
            outcome.engine⟩
      | .ok (audio, actual) =>
          let requestedEngine := match request.engine with
            | some id => id
            | none =>
                (outcome.manager.getDefaultEngine.map fun id =>
                  (outcome.manager.engine id).name).getD "unknown"
          ⟨.ok (audio, engineUsed requestedEngine actual), outcome.engine⟩

/-- The two routes agree on a request. -/
structure Agree (manager : CachingTtsManager) (request : SynthesisRequest)
    (reply : String → Except String (AudioData × Option String)) :
    Prop where
  sameEngine : (manager.synthesizeAnswer request reply).engine =
    (manager.streamEngine request).toOption
  reported : request.engine = none → ∀ audio used,
    (manager.synthesizeAnswer request reply).response = .ok (audio, used) →
      ∃ id actual,
        (manager.synthesizeAnswer request reply).engine = some id ∧
          used = engineUsed (manager.engine id).name actual

/-- What the manager remembers of a request. -/
def remembered (manager : CachingTtsManager) (request : SynthesisRequest) :
    Option CachedAudio :=
  manager.cached (synthesisCacheKey request.text
    (request.engine.getD manager.defaultEngine) request.params)

/-- The engine that a stream of the request would use. -/
def choice (manager : CachingTtsManager) (request : SynthesisRequest) :
    Option String :=
  match request.engine with
  | some id => manager.getEngine id
  | none => manager.getDefaultEngine

/-- A remembered audio was made by the engine of the stream; and if none is
remembered, an engine is asked for, or the configured default is registered,
or there is no engine at all. -/
def ChoosesAlike (manager : CachingTtsManager) (request : SynthesisRequest) :
    Prop :=
  match manager.remembered request with
  | some entry => some entry.engine = manager.choice request
  | none =>
      request.engine.isSome = true ∨
        (manager.getEngine manager.defaultEngine).isSome = true ∨
          manager.engines = []

variable {manager : CachingTtsManager} {request : SynthesisRequest}
  {reply : String → Except String (AudioData × Option String)}

theorem toOption_streamEngine (accepted : request.checkText = .ok ()) :
    (manager.streamEngine request).toOption = manager.choice request := by
  unfold streamEngine choice
  rw [accepted]
  simp only
  split <;> simp_all [Except.toOption]

theorem engine_synthesizeAnswer (accepted : request.checkText = .ok ()) :
    (manager.synthesizeAnswer request reply).engine =
      (manager.synthesize request.text request.engine request.params
        reply).engine := by
  unfold synthesizeAnswer
  rw [accepted]
  simp only
  split <;> rfl

/-- The default engine is reported whenever the two routes use the same. -/
theorem reported_of_sameEngine (accepted : request.checkText = .ok ())
    (same : (manager.synthesizeAnswer request reply).engine =
      manager.choice request) (unnamed : request.engine = none)
    {audio : AudioData} {used : String}
    (answers : (manager.synthesizeAnswer request reply).response =
      .ok (audio, used)) :
    ∃ id actual,
      (manager.synthesizeAnswer request reply).engine = some id ∧
        used = engineUsed (manager.engine id).name actual := by
  have isDefault : manager.choice request = manager.getDefaultEngine := by
    simp [choice, unnamed]
  rw [isDefault, engine_synthesizeAnswer accepted] at same
  rw [engine_synthesizeAnswer accepted]
  unfold synthesizeAnswer at answers
  rw [accepted] at answers
  simp only [unnamed, manager_synthesize] at answers
  rw [unnamed] at same ⊢
  split at answers
  case h_1 => cases answers
  case h_2 actual found =>
    obtain ⟨id, made⟩ := exists_engine_of_result found
    have isEngine : manager.getDefaultEngine = some id :=
      same.symm.trans made
    rw [isEngine] at answers
    cases answers
    exact ⟨id, actual, made, rfl⟩

/-- Without a remembered audio the routes use the same engine only if no
fallback is needed. -/
theorem getEngine_eq_choice_iff :
    manager.getEngine (request.engine.getD manager.defaultEngine) =
        manager.choice request ↔
      request.engine.isSome = true ∨
        (manager.getEngine manager.defaultEngine).isSome = true ∨
          manager.engines = [] := by
  cases named : request.engine with
  | some id => simp [choice, named]
  | none =>
      simp only [choice, named, Option.getD_none, Option.isSome_none,
        Bool.false_eq_true, false_or]
      cases registered : manager.getEngine manager.defaultEngine with
      | some id =>
          simp [TtsManager.getDefaultEngine_of_registered registered]
      | none =>
          rw [eq_comm, TtsManager.getDefaultEngine_eq_none]
          simp

theorem engine_eq_choice_iff (accepted : request.checkText = .ok ()) :
    (manager.synthesizeAnswer request reply).engine =
        manager.choice request ↔
      manager.ChoosesAlike request := by
  rw [engine_synthesizeAnswer accepted]
  unfold ChoosesAlike
  cases hit : manager.remembered request with
  | some entry => rw [engine_synthesize_of_cached hit]
  | none =>
      rw [engine_synthesize_of_not_cached hit]
      exact getEngine_eq_choice_iff

theorem agree_of_refused {error : ApiError}
    (refused : request.checkText = .error error) :
    manager.Agree request reply := by
  constructor
  · simp [synthesizeAnswer, streamEngine, refused, Except.toOption]
  · intro _ audio used answers
    simp [synthesizeAnswer, refused] at answers

/-- The two routes agree on a request exactly if its text is refused or they
choose the engine alike. -/
theorem agree_iff_choosesAlike (manager : CachingTtsManager)
    (request : SynthesisRequest)
    (reply : String → Except String (AudioData × Option String)) :
    manager.Agree request reply ↔
      (request.checkText = .ok () → manager.ChoosesAlike request) := by
  cases checked : request.checkText with
  | error error =>
      simp only [reduceCtorEq, false_implies, iff_true]
      exact agree_of_refused checked
  | ok _ =>
      simp only [true_implies]
      have same : (manager.synthesizeAnswer request reply).engine =
          manager.choice request ↔ manager.ChoosesAlike request :=
        engine_eq_choice_iff checked
      rw [← same]
      constructor
      · intro agree
        rw [agree.sameEngine, toOption_streamEngine checked]
      · intro same
        refine ⟨?_, fun unnamed audio used answers =>
          reported_of_sameEngine checked same unnamed answers⟩
        rw [same, toOption_streamEngine checked]

/-! ## A default that is not loaded -/

/-- Only the second engine could be loaded. -/
def kokoroOnly : CachingTtsManager where
  engines := ["kokoro"]
  defaultEngine := "kokoro-onnx"
  engine := fun id => ⟨id, fun _ => .ok ()⟩
  synthesisCache := fun _ => .empty 8

def hello : SynthesisRequest :=
  ⟨"Hello.", none, none, 1, 1, none⟩

/-- `/tts/stream` serves the request, `/tts/synthesize` finds no engine. -/
theorem not_agree_kokoroOnly :
    ¬ kokoroOnly.Agree hello
        fun _ => .ok (⟨[0], 24000⟩, none) := by
  intro agree
  have served : (kokoroOnly.streamEngine hello).toOption = some "kokoro" := by
    rfl
  have refused : (kokoroOnly.synthesizeAnswer hello
      fun _ => .ok (⟨[0], 24000⟩, none)).engine = none := by
    rfl
  have same := agree.sameEngine
  rw [served, refused] at same
  cases same

end CachingTtsManager

end TorchInference
