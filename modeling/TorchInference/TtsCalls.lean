import TorchInference.TransitionRuns
import TorchInference.TtsManager

/-!
# Concurrent syntheses

A call looks its key up under the lock of a shard.  If nothing is remembered it
waits for its engine without a lock, and stores what the engine has made before
it returns.  Other calls come in between.
-/

namespace TorchInference

structure TtsCall where
  text : String
  engineId : Option String
  params : SynthesisParams

/-- What a call returns. -/
abbrev TtsAnswer := Except String (AudioData × Option String)

/-- The manager and its calls. -/
structure TtsCalls where
  manager : CachingTtsManager
  begun : List TtsCall
  /-- The calls that wait for their engines. -/
  waiting : List TtsCall
  returned : List (TtsCall × TtsAnswer)

inductive TtsCallEvent where
  | begins (call : TtsCall)
  | engineReplies (waiting : Nat)
  /-- The caller drops a call that waits. -/
  | dropped (waiting : Nat)

namespace TtsCall

/-- The engine that the call names. -/
def engine (manager : TtsManager) (call : TtsCall) : String :=
  call.engineId.getD manager.defaultEngine

def keyBytes (manager : TtsManager) (call : TtsCall) : List UInt8 :=
  CachingTtsManager.keyBytes call.text (call.engine manager) call.params

def cacheKey (manager : TtsManager) (call : TtsCall) : UInt64 :=
  CachingTtsManager.synthesisCacheKey call.text (call.engine manager)
    call.params

end TtsCall

/-- A new manager, in which these engines have been registered. -/
def CachingTtsManager.new (manager : TtsManager) (engine : String → TtsEngine)
    (synthesisCacheCapacity : Nat) : CachingTtsManager :=
  let totalCap := max synthesisCacheCapacity 1
  { manager with
    engine := engine
    synthesisCache := fun _ => .empty (max (totalCap / 16) 1) }

namespace TtsCalls

-- What each engine replies to a text with its parameters.
variable (reply : String → String → SynthesisParams → TtsAnswer)

/-- What the engine that a call names yields for it. -/
def engineAnswer (manager : TtsManager) (engine : String → TtsEngine)
    (call : TtsCall) : TtsAnswer :=
  match manager.getEngine (call.engine manager) with
  | none => .error ("Engine '" ++ call.engine manager ++ "' not found")
  | some id =>
      match (engine id).validateText call.text with
      | .error message => .error message
      | .ok () =>
          match reply id call.text call.params with
          | .error _ => .error "Synthesis failed"
          | .ok answer => .ok answer

def start (manager : CachingTtsManager) : TtsCalls :=
  ⟨manager, [], [], []⟩

/-- A call looks its key up, and then its engine. -/
def beginCall (state : TtsCalls) (call : TtsCall) : TtsCalls :=
  let manager := state.manager
  let state := { state with begun := state.begun ++ [call] }
  let key := call.cacheKey manager.toTtsManager
  let shard := CachingTtsManager.shardOf key
  match (manager.synthesisCache shard).get key with
  | (some entry, used) =>
      { state with
        manager := manager.withShard shard used
        returned := state.returned ++
          [(call, .ok (entry.audio, entry.actualEngine))] }
  | (none, _) =>
      let engineId := call.engine manager.toTtsManager
      match manager.getEngine engineId with
      | none =>
          { state with
            returned := state.returned ++
              [(call, .error ("Engine '" ++ engineId ++ "' not found"))] }
      | some id =>
          match (manager.engine id).validateText call.text with
          | .error message =>
              { state with
                returned := state.returned ++ [(call, .error message)] }
          | .ok () => { state with waiting := state.waiting ++ [call] }

/-- The engine of a call has replied; what it made is stored as the cache is by
then. -/
def endCall (state : TtsCalls) (call : TtsCall) : TtsCalls :=
  let manager := state.manager
  let key := call.cacheKey manager.toTtsManager
  let shard := CachingTtsManager.shardOf key
  let id := call.engine manager.toTtsManager
  match reply id call.text call.params with
  | .error _ =>
      { state with
        returned := state.returned ++ [(call, .error "Synthesis failed")] }
  | .ok (audio, actual) =>
      { state with
        manager := manager.withShard shard
          ((manager.synthesisCache shard).put key ⟨audio, actual, id⟩)
        returned := state.returned ++ [(call, .ok (audio, actual))] }

def step (state : TtsCalls) : TtsCallEvent → Option TtsCalls
  | .begins call => some (state.beginCall call)
  | .engineReplies i =>
      match state.waiting[i]? with
      | none => none
      | some call =>
          some (endCall reply { state with waiting := state.waiting.eraseIdx i }
            call)
  | .dropped i =>
      if i < state.waiting.length then
        some { state with waiting := state.waiting.eraseIdx i }
      else none

/-! ## What a step does -/

section Steps

variable {reply} {state : TtsCalls} {call : TtsCall}

/-- What the cache remembers for a call. -/
def remembered (state : TtsCalls) (call : TtsCall) : Option CachedAudio :=
  state.manager.cached (call.cacheKey state.manager.toTtsManager)

/-- The engine is there, and takes the text. -/
def Accepted (manager : CachingTtsManager) (call : TtsCall) : Prop :=
  manager.getEngine (call.engine manager.toTtsManager) =
      some (call.engine manager.toTtsManager) ∧
    (manager.engine (call.engine manager.toTtsManager)).validateText
      call.text = .ok ()

theorem getEngine_eq_some {manager : TtsManager} {id found : String}
    (isFound : manager.getEngine id = some found) : found = id := by
  rw [TtsManager.getEngine] at isFound
  split_ifs at isFound
  exact (Option.some.inj isFound).symm

/-- The cache after an engine's answer to a call. -/
def store (manager : CachingTtsManager) (call : TtsCall) :
    TtsAnswer → CachingTtsManager
  | .error _ => manager
  | .ok (audio, actual) =>
      manager.withShard
        (CachingTtsManager.shardOf (call.cacheKey manager.toTtsManager))
        ((manager.synthesisCache (CachingTtsManager.shardOf
          (call.cacheKey manager.toTtsManager))).put
            (call.cacheKey manager.toTtsManager)
            ⟨audio, actual, call.engine manager.toTtsManager⟩)

/-- An accepted call returns the answer of its engine. -/
theorem endCall_of_accepted (accepted : Accepted state.manager call) :
    endCall reply state call =
      { state with
        manager := store state.manager call (engineAnswer reply
          state.manager.toTtsManager state.manager.engine call)
        returned := state.returned ++ [(call, engineAnswer reply
          state.manager.toTtsManager state.manager.engine call)] } := by
  rw [endCall, engineAnswer, accepted.1]
  dsimp only
  rw [accepted.2]
  dsimp only
  cases reply (call.engine state.manager.toTtsManager) call.text
      call.params with
  | error message => rfl
  | ok answer => rfl

theorem beginCall_of_some {entry : CachedAudio}
    (hit : state.remembered call = some entry) :
    state.beginCall call =
      { state with
        manager := state.manager.withShard
          (CachingTtsManager.shardOf
            (call.cacheKey state.manager.toTtsManager))
          ((state.manager.synthesisCache (CachingTtsManager.shardOf
            (call.cacheKey state.manager.toTtsManager))).put
              (call.cacheKey state.manager.toTtsManager) entry)
        begun := state.begun ++ [call]
        returned := state.returned ++
          [(call, .ok (entry.audio, entry.actualEngine))] } := by
  rw [remembered, CachingTtsManager.cached] at hit
  rw [beginCall, LruCache.get_of_find hit]

theorem beginCall_of_none (miss : state.remembered call = none) :
    (Accepted state.manager call ∧
      state.beginCall call =
        { state with
          begun := state.begun ++ [call]
          waiting := state.waiting ++ [call] }) ∨
    ∃ message, engineAnswer reply state.manager.toTtsManager
        state.manager.engine call = .error message ∧
      state.beginCall call =
        { state with
          begun := state.begun ++ [call]
          returned := state.returned ++ [(call, .error message)] } := by
  rw [remembered, CachingTtsManager.cached] at miss
  unfold beginCall engineAnswer Accepted
  simp only [LruCache.get, miss]
  cases found : state.manager.getEngine
      (call.engine state.manager.toTtsManager) with
  | none => exact .inr ⟨_, rfl, rfl⟩
  | some id =>
      obtain rfl := getEngine_eq_some found
      dsimp only
      cases valid : (state.manager.engine
          (call.engine state.manager.toTtsManager)).validateText call.text with
      | error message => exact .inr ⟨message, rfl, rfl⟩
      | ok _ => exact .inl ⟨⟨rfl, rfl⟩, rfl⟩

theorem synthesize_of_some {entry : CachedAudio}
    (hit : state.remembered call = some entry)
    (reply : String → TtsAnswer) :
    state.manager.synthesize call.text call.engineId call.params reply =
      ⟨.ok (entry.audio, entry.actualEngine), some entry.engine,
        state.manager.withShard
          (CachingTtsManager.shardOf
            (call.cacheKey state.manager.toTtsManager))
          ((state.manager.synthesisCache (CachingTtsManager.shardOf
            (call.cacheKey state.manager.toTtsManager))).put
              (call.cacheKey state.manager.toTtsManager) entry)⟩ := by
  rw [remembered, CachingTtsManager.cached, TtsCall.cacheKey,
    TtsCall.engine] at hit
  rw [CachingTtsManager.synthesize]
  simp only [LruCache.get_of_find hit]
  rfl

theorem synthesize_of_none (miss : state.remembered call = none) :
    let synthesised := state.manager.synthesize call.text call.engineId
      call.params fun id => reply id call.text call.params
    let answer := engineAnswer reply state.manager.toTtsManager
      state.manager.engine call
    synthesised.result = answer ∧
      synthesised.manager = store state.manager call answer := by
  rw [remembered, CachingTtsManager.cached, TtsCall.cacheKey,
    TtsCall.engine] at miss
  rw [CachingTtsManager.synthesize, engineAnswer, TtsCall.engine]
  simp only [LruCache.get, miss]
  cases found : state.manager.getEngine
      (call.engineId.getD state.manager.defaultEngine) with
  | none => exact ⟨rfl, rfl⟩
  | some id =>
      obtain rfl := getEngine_eq_some found
      dsimp only
      cases (state.manager.engine
          (call.engineId.getD state.manager.defaultEngine)).validateText
          call.text with
      | error message => exact ⟨rfl, rfl⟩
      | ok _ =>
          dsimp only
          cases reply (call.engineId.getD state.manager.defaultEngine)
              call.text call.params with
          | error message => exact ⟨rfl, rfl⟩
          | ok answer => exact ⟨rfl, rfl⟩

end Steps

/-! ## One call after another -/

/-- A call between whose steps nothing else happens is `synthesize`. -/
theorem synthesize_steps (state : TtsCalls) (call : TtsCall)
    (alone : state.waiting = []) :
    ∃ events, TransitionRuns.run (step reply) state (.begins call :: events) =
      some { state with
        manager := (state.manager.synthesize call.text call.engineId call.params
          fun id => reply id call.text call.params).manager
        begun := state.begun ++ [call]
        returned := state.returned ++ [(call,
          (state.manager.synthesize call.text call.engineId call.params
            fun id => reply id call.text call.params).result)] } := by
  cases looked : state.remembered call with
  | some entry =>
      have synthesized := synthesize_of_some looked
        fun id => reply id call.text call.params
      refine ⟨[], ?_⟩
      show some (state.beginCall call) = _
      rw [beginCall_of_some looked, synthesized]
  | none =>
      obtain ⟨result, manager⟩ := @synthesize_of_none reply _ _ looked
      rw [result, manager]
      rcases beginCall_of_none looked with
        ⟨accepted, begins⟩ | ⟨message, answer, begins⟩
      · refine ⟨[.engineReplies 0], ?_⟩
        show TransitionRuns.run (step reply) (state.beginCall call) _ = _
        rw [begins, alone]
        exact congrArg some (endCall_of_accepted accepted)
      · refine ⟨[], ?_⟩
        show some (state.beginCall call) = _
        rw [begins, answer]
        rfl

end TtsCalls

end TorchInference
