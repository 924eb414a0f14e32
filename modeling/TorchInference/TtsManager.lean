import TorchInference.LruCache
import TorchInference.SpeechPipeline

/-!
# The engines of the speech routes

The manager keeps the engines under their identifiers and remembers recent
syntheses.  A synthesis looks for the engine that is asked for, or else for the
configured default; the default engine has a chain of fallbacks of its own.
-/

namespace TorchInference

/-! ## Engines -/

structure TtsManager where
  engines : List String
  defaultEngine : String

def TtsManager.getEngine (manager : TtsManager) (id : String) :
    Option String :=
  if id ∈ manager.engines then some id else none

def TtsManager.getDefaultEngine (manager : TtsManager) : Option String :=
  manager.getEngine manager.defaultEngine <|>
    ["kokoro", "piper", "vits", "styletts2", "bark", "xtts"].findSome?
      manager.getEngine <|>
    manager.engines.head?

namespace TtsManager

variable {manager : TtsManager}

theorem getDefaultEngine_of_registered {id : String}
    (registered : manager.getEngine manager.defaultEngine = some id) :
    manager.getDefaultEngine = some id := by
  simp [getDefaultEngine, registered]

/-- There is a default engine if there is an engine. -/
theorem getDefaultEngine_eq_none :
    manager.getDefaultEngine = none ↔ manager.engines = [] := by
  constructor
  · intro missing
    unfold getDefaultEngine at missing
    simp only [Option.orElse_eq_orElse, Option.orElse_eq_or,
      Option.or_eq_none_iff, List.head?_eq_none_iff] at missing
    exact missing.2.2
  · intro empty
    simp [getDefaultEngine, getEngine, empty]

end TtsManager

/-! ## Remembered syntheses -/

structure TtsEngine where
  name : String
  validateText : String → Except String Unit

/-- A remembered synthesis, and the identifier of the engine that made it. -/
structure CachedAudio where
  audio : AudioData
  actualEngine : Option String
  engine : String

/-- The manager with its engines and its cache. -/
structure CachingTtsManager extends TtsManager where
  /-- The engine registered under an identifier. -/
  engine : String → TtsEngine
  synthesisCache : Fin 16 → LruCache UInt64 CachedAudio

/-- What a call comes to, with the engine it found or, if it was remembered,
the engine it had been made by. -/
structure Synthesised where
  result : Except String (AudioData × Option String)
  engine : Option String
  manager : CachingTtsManager

namespace CachingTtsManager

def fnvOffset : UInt64 := 14695981039346656037

def fnvPrime : UInt64 := 1099511628211

def mix (hash : UInt64) (bytes : List UInt8) : UInt64 :=
  bytes.foldl (fun hash byte => (hash ^^^ byte.toUInt64) * fnvPrime) hash

/-- What the key of a synthesis is the hash of. -/
def keyBytes (text engineId : String) (params : SynthesisParams) :
    List UInt8 :=
  text.toUTF8.toList ++ [0] ++ engineId.toUTF8.toList ++ [0] ++
    (params.voice.getD "").toUTF8.toList ++ [0] ++
    (params.language.getD "").toUTF8.toList ++ [0] ++
    leBytes params.speed.toBits ++ leBytes params.pitch.toBits

def synthesisCacheKey (text engineId : String) (params : SynthesisParams) :
    UInt64 :=
  mix fnvOffset (keyBytes text engineId params)

def shardOf (key : UInt64) : Fin 16 :=
  Fin.ofNat 16 key.toNat

/-- What the cache remembers of a synthesis. -/
def cached (manager : CachingTtsManager) (key : UInt64) :
    Option CachedAudio :=
  (manager.synthesisCache (shardOf key)).find key

def withShard (manager : CachingTtsManager) (shard : Fin 16)
    (cache : LruCache UInt64 CachedAudio) : CachingTtsManager :=
  { manager with
    synthesisCache := fun other =>
      if other = shard then cache else manager.synthesisCache other }

/-- `synthesize`, given what each engine replies. -/
def synthesize (manager : CachingTtsManager) (text : String)
    (engineId : Option String) (params : SynthesisParams)
    (reply : String → Except String (AudioData × Option String)) :
    Synthesised :=
  let engineId := engineId.getD manager.defaultEngine
  let key := synthesisCacheKey text engineId params
  let cache := manager.synthesisCache (shardOf key)
  match cache.get key with
  | (some entry, used) => {
      result := .ok (entry.audio, entry.actualEngine)
      engine := some entry.engine
      manager := manager.withShard (shardOf key) used }
  | (none, _) =>
      match manager.getEngine engineId with
      | none => {
          result := .error ("Engine '" ++ engineId ++ "' not found")
          engine := none
          manager := manager }
      | some id =>
          match (manager.engine id).validateText text with
          | .error message => {
              result := .error message
              engine := some id
              manager := manager }
          | .ok () =>
              match reply id with
              | .error _ => {
                  result := .error "Synthesis failed"
                  engine := some id
                  manager := manager }
              | .ok (audio, actual) => {
                  result := .ok (audio, actual)
                  engine := some id
                  manager := manager.withShard (shardOf key)
                    (cache.put key ⟨audio, actual, id⟩) }

variable {manager : CachingTtsManager} {text : String}
  {engineId : Option String} {params : SynthesisParams}
  {reply : String → Except String (AudioData × Option String)}

/-- A remembered synthesis is repeated whatever engines there are. -/
theorem engine_synthesize_of_cached {entry : CachedAudio}
    (hit : manager.cached (synthesisCacheKey text
      (engineId.getD manager.defaultEngine) params) = some entry) :
    (manager.synthesize text engineId params reply).engine =
      some entry.engine := by
  unfold cached at hit
  simp [synthesize, LruCache.get, hit]

/-- Any other call uses the engine under its identifier. -/
theorem engine_synthesize_of_not_cached
    (miss : manager.cached (synthesisCacheKey text
      (engineId.getD manager.defaultEngine) params) = none) :
    (manager.synthesize text engineId params reply).engine =
      manager.getEngine (engineId.getD manager.defaultEngine) := by
  unfold cached at miss
  unfold synthesize
  simp only [LruCache.get, miss]
  cases found : manager.getEngine (engineId.getD manager.defaultEngine) with
  | none => rfl
  | some id =>
      simp only
      cases (manager.engine id).validateText text with
      | error message => rfl
      | ok _ =>
          cases reply id with
          | error message => rfl
          | ok pair => rfl

/-- What is answered comes from an engine. -/
theorem exists_engine_of_result {answer : AudioData × Option String}
    (answers : (manager.synthesize text engineId params reply).result =
      .ok answer) :
    ∃ id,
      (manager.synthesize text engineId params reply).engine = some id := by
  cases remembered : manager.cached (synthesisCacheKey text
      (engineId.getD manager.defaultEngine) params) with
  | some entry => exact ⟨_, engine_synthesize_of_cached remembered⟩
  | none =>
      rw [engine_synthesize_of_not_cached remembered]
      cases found : manager.getEngine
          (engineId.getD manager.defaultEngine) with
      | some id => exact ⟨id, rfl⟩
      | none =>
          unfold cached at remembered
          simp [synthesize, LruCache.get, remembered, found] at answers

/-- A synthesis changes the cache only. -/
theorem manager_synthesize :
    (manager.synthesize text engineId params reply).manager.toTtsManager =
        manager.toTtsManager ∧
      (manager.synthesize text engineId params reply).manager.engine =
        manager.engine := by
  have unchanged : ∀ shard cache,
      (manager.withShard shard cache).toTtsManager = manager.toTtsManager ∧
        (manager.withShard shard cache).engine = manager.engine :=
    fun _ _ => ⟨rfl, rfl⟩
  unfold synthesize
  simp only
  split
  case h_1 => exact unchanged _ _
  case h_2 =>
    split
    case h_1 => exact ⟨rfl, rfl⟩
    case h_2 id found =>
      split
      case h_1 => exact ⟨rfl, rfl⟩
      case h_2 =>
        split
        case h_1 => exact ⟨rfl, rfl⟩
        case h_2 => exact unchanged _ _

end CachingTtsManager

end TorchInference
