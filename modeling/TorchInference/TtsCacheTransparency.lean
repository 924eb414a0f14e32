import TorchInference.TtsCalls

/-!
# What the cache of the syntheses shows

A call may be answered with what an earlier call with the same key was answered
with.  So the cache shows exactly where calls with one key are answered
differently by their engines.
-/

namespace TorchInference

namespace TtsCalls

open TransitionRuns

variable {reply : String → String → SynthesisParams → TtsAnswer}
variable {manager : TtsManager} {engine : String → TtsEngine}
variable {state next : TtsCalls} {call : TtsCall}

/-! ## What every step keeps -/

/-- A call that has begun, with this key, whose engine answers so. -/
def AnsweredBy (reply : String → String → SynthesisParams → TtsAnswer)
    (manager : TtsManager) (engine : String → TtsEngine)
    (begun : List TtsCall) (key : UInt64) (answer : AudioData × Option String) :
    Prop :=
  ∃ earlier ∈ begun, earlier.cacheKey manager = key ∧
    engineAnswer reply manager engine earlier = .ok answer

theorem AnsweredBy.mono {begun : List TtsCall} {key : UInt64}
    {answer : AudioData × Option String}
    (answered : AnsweredBy reply manager engine begun key answer)
    (call : TtsCall) :
    AnsweredBy reply manager engine (begun ++ [call]) key answer := by
  obtain ⟨earlier, member, same, answers⟩ := answered
  exact ⟨earlier, List.mem_append_left [call] member, same, answers⟩

structure Sound (reply : String → String → SynthesisParams → TtsAnswer)
    (manager : TtsManager) (engine : String → TtsEngine) (state : TtsCalls) :
    Prop where
  sameManager : state.manager.toTtsManager = manager
  sameEngines : state.manager.engine = engine
  cached : ∀ shard key entry,
    (key, entry) ∈ (state.manager.synthesisCache shard).entries →
      AnsweredBy reply manager engine state.begun key
        (entry.audio, entry.actualEngine)
  waiting : ∀ call ∈ state.waiting,
    call ∈ state.begun ∧ Accepted state.manager call
  returned : ∀ call answer, (call, .ok answer) ∈ state.returned →
    call ∈ state.begun ∧
      AnsweredBy reply manager engine state.begun (call.cacheKey manager) answer

theorem mem_withShard {manager : CachingTtsManager} {shard other : Fin 16}
    {cache : LruCache UInt64 CachedAudio} {entry : UInt64 × CachedAudio}
    (member : entry ∈
      ((manager.withShard shard cache).synthesisCache other).entries) :
    entry ∈ cache.entries ∨
      entry ∈ (manager.synthesisCache other).entries := by
  unfold CachingTtsManager.withShard at member
  dsimp only at member
  split_ifs at member
  · exact .inl member
  · exact .inr member

/-- An entry is stored under the key of a call with its engine's answer. -/
theorem Sound.put {shard : Fin 16} {key : UInt64} {entry : CachedAudio}
    (sound : Sound reply manager engine state)
    (answered : AnsweredBy reply manager engine state.begun key
      (entry.audio, entry.actualEngine)) :
    Sound reply manager engine { state with
      manager := state.manager.withShard shard
        ((state.manager.synthesisCache shard).put key entry) } where
  sameManager := sound.sameManager
  sameEngines := sound.sameEngines
  cached := by
    intro other otherKey otherEntry member
    rcases mem_withShard member with put | old
    · rcases LruCache.mem_put put with new | old
      · obtain ⟨rfl, rfl⟩ := Prod.mk.inj new
        exact answered
      · exact sound.cached shard otherKey otherEntry old
    · exact sound.cached other otherKey otherEntry old
  waiting := sound.waiting
  returned := sound.returned

theorem Sound.begin (sound : Sound reply manager engine state)
    (call : TtsCall) :
    Sound reply manager engine
      { state with begun := state.begun ++ [call] } where
  sameManager := sound.sameManager
  sameEngines := sound.sameEngines
  cached := fun shard key entry member =>
    (sound.cached shard key entry member).mono call
  waiting := fun other member =>
    ⟨List.mem_append_left [call] (sound.waiting other member).1,
      (sound.waiting other member).2⟩
  returned := fun other answer member =>
    ⟨List.mem_append_left [call] (sound.returned other answer member).1,
      (sound.returned other answer member).2.mono call⟩

/-- A call returns an error, or what a call with its key is answered with. -/
theorem Sound.returns {answer : TtsAnswer}
    (sound : Sound reply manager engine state) (begun : call ∈ state.begun)
    (answered : ∀ result, answer = .ok result →
      AnsweredBy reply manager engine state.begun (call.cacheKey manager)
        result) :
    Sound reply manager engine
      { state with returned := state.returned ++ [(call, answer)] } where
  sameManager := sound.sameManager
  sameEngines := sound.sameEngines
  cached := sound.cached
  waiting := sound.waiting
  returned := by
    intro other result member
    rcases List.mem_append.mp member with old | new
    · exact sound.returned other result old
    · obtain ⟨rfl, same⟩ := Prod.mk.inj (List.mem_singleton.mp new)
      exact ⟨begun, answered result same.symm⟩

theorem Sound.beginCall (sound : Sound reply manager engine state)
    (call : TtsCall) : Sound reply manager engine (state.beginCall call) := by
  obtain rfl := sound.sameManager
  have begins := sound.begin call
  have begun : call ∈ state.begun ++ [call] :=
    List.mem_append_right _ List.mem_cons_self
  cases looked : state.remembered call with
  | some entry =>
      rw [beginCall_of_some looked]
      have answered := begins.cached _ _ _ (LruCache.mem_of_find looked)
      refine (begins.put answered).returns begun fun result same => ?_
      obtain rfl := Except.ok.inj same
      exact answered
  | none =>
      rcases @beginCall_of_none reply _ _ looked with
        ⟨accepted, waits⟩ | ⟨message, -, fails⟩
      · rw [waits]
        refine ⟨begins.sameManager, begins.sameEngines, begins.cached, ?_,
          begins.returned⟩
        intro other member
        rcases List.mem_append.mp member with old | new
        · exact begins.waiting other old
        · obtain rfl := List.mem_singleton.mp new
          exact ⟨begun, accepted⟩
      · rw [fails]
        refine begins.returns begun fun result same => ?_
        cases same

theorem Sound.endCall (sound : Sound reply manager engine state)
    (begun : call ∈ state.begun) (accepted : Accepted state.manager call) :
    Sound reply manager engine (endCall reply state call) := by
  obtain rfl := sound.sameManager
  obtain rfl := sound.sameEngines
  rw [endCall_of_accepted accepted]
  cases answers : engineAnswer reply state.manager.toTtsManager
      state.manager.engine call with
  | error message =>
      refine sound.returns begun fun result same => ?_
      cases same
  | ok answer =>
      have answered : AnsweredBy reply state.manager.toTtsManager
          state.manager.engine state.begun
          (call.cacheKey state.manager.toTtsManager) answer :=
        ⟨call, begun, rfl, answers⟩
      refine Sound.returns (sound.put answered) begun fun result same => ?_
      obtain rfl := Except.ok.inj same
      exact answered

theorem Sound.eraseWaiting (sound : Sound reply manager engine state)
    (i : Nat) : Sound reply manager engine
      { state with waiting := state.waiting.eraseIdx i } where
  sameManager := sound.sameManager
  sameEngines := sound.sameEngines
  cached := sound.cached
  waiting := fun call member =>
    sound.waiting call (List.mem_of_mem_eraseIdx member)
  returned := sound.returned

theorem Sound.step {event : TtsCallEvent}
    (sound : Sound reply manager engine state)
    (stepTo : step reply state event = some next) :
    Sound reply manager engine next := by
  cases event with
  | begins call =>
      obtain rfl := Option.some.inj stepTo
      exact sound.beginCall call
  | engineReplies i =>
      simp only [TtsCalls.step] at stepTo
      split at stepTo
      · cases stepTo
      · next call waits =>
          obtain rfl := Option.some.inj stepTo
          have member : call ∈ state.waiting := List.mem_of_getElem? waits
          obtain ⟨begun, accepted⟩ := sound.waiting call member
          exact (sound.eraseWaiting i).endCall begun accepted
  | dropped i =>
      simp only [TtsCalls.step, Option.ite_none_right_eq_some,
        Option.some.injEq] at stepTo
      obtain ⟨-, rfl⟩ := stepTo
      exact sound.eraseWaiting i

theorem Sound.start (capacity : Nat) :
    Sound reply manager engine
      (start (CachingTtsManager.new manager engine capacity)) where
  sameManager := rfl
  sameEngines := rfl
  cached := fun _ _ _ member => absurd member List.not_mem_nil
  waiting := fun _ member => absurd member List.not_mem_nil
  returned := fun _ _ member => absurd member List.not_mem_nil

theorem sound_of_run {capacity : Nat} {events : List TtsCallEvent}
    {last : TtsCalls}
    (reaches : run (TtsCalls.step reply)
      (TtsCalls.start (CachingTtsManager.new manager engine capacity)) events =
        some last) : Sound reply manager engine last :=
  invariant_of_run_eq_some (fun _ _ _ sound stepTo => sound.step stepTo)
    (Sound.start capacity) reaches

/-! ## Two calls with one key -/

/-- What an engine has just made is remembered. -/
theorem remembered_store {calls : TtsCalls} {answer : AudioData × Option String}
    (room : ∀ shard, 0 < (state.manager.synthesisCache shard).capacity)
    (stored : calls.manager = store state.manager call (.ok answer)) :
    calls.remembered call = some ⟨answer.1, answer.2,
      call.engine state.manager.toTtsManager⟩ := by
  rw [remembered, stored]
  unfold store CachingTtsManager.cached CachingTtsManager.withShard
  dsimp only
  rw [if_pos rfl]
  exact LruCache.find_put (room _) _ _

theorem remembered_of_sameKey {other : TtsCall}
    (sameKey : call.cacheKey state.manager.toTtsManager =
      other.cacheKey state.manager.toTtsManager) :
    state.remembered call = state.remembered other := by
  rw [remembered, remembered, sameKey]

/-- A call right after one with the same key gets its answer. -/
theorem run_sameKey (first second : TtsCall) (capacity : Nat)
    (sameKey : first.cacheKey manager = second.cacheKey manager)
    {answer : AudioData × Option String}
    (answers : engineAnswer reply manager engine first = .ok answer) :
    ∃ last, run (TtsCalls.step reply)
        (TtsCalls.start (CachingTtsManager.new manager engine capacity))
        [.begins first, .engineReplies 0, .begins second] = some last ∧
      last.begun = [first, second] ∧
      last.returned = [(first, .ok answer), (second, .ok answer)] := by
  let fresh := CachingTtsManager.new manager engine capacity
  let stored : TtsCalls :=
    ⟨store fresh first (.ok answer), [first], [], [(first, .ok answer)]⟩
  have answersFresh : engineAnswer reply fresh.toTtsManager fresh.engine first =
    .ok answer := answers
  have miss : (TtsCalls.start fresh).remembered first = none := rfl
  rcases @beginCall_of_none reply _ _ miss with
    ⟨accepted, waits⟩ | ⟨message, fails, -⟩
  · have waitStep : step reply (start fresh) (.begins first) =
      some ⟨fresh, [first], [first], []⟩ := congrArg some waits
    have replyStep : step reply ⟨fresh, [first], [first], []⟩
        (.engineReplies 0) = some stored := by
      have replies := @endCall_of_accepted reply ⟨fresh, [first], [], []⟩ first
        accepted
      rw [answersFresh] at replies
      exact congrArg some replies
    have hit : stored.remembered second =
        some ⟨answer.1, answer.2, first.engine manager⟩ := by
      have same : first.cacheKey stored.manager.toTtsManager =
        second.cacheKey stored.manager.toTtsManager := sameKey
      rw [← remembered_of_sameKey same]
      refine @remembered_store (start fresh) first stored answer ?_ rfl
      intro shard
      exact Nat.lt_of_lt_of_le Nat.one_pos (Nat.le_max_right _ _)
    rw [run_cons_of_step waitStep, run_cons_of_step replyStep]
    refine ⟨stored.beginCall second, rfl, ?_⟩
    rw [beginCall_of_some hit]
    exact ⟨rfl, rfl⟩
  · cases answersFresh.symm.trans fails

/-- All runs over these calls return what the engines yield if and only if the
engines yield the same for any two of them with one key. -/
theorem transparent_iff_agree (capacity : Nat) (calls : TtsCall → Prop) :
    (∀ events last, run (TtsCalls.step reply)
        (TtsCalls.start (CachingTtsManager.new manager engine capacity)) events =
          some last →
      (∀ call ∈ last.begun, calls call) →
      ∀ call answer, (call, .ok answer) ∈ last.returned →
        engineAnswer reply manager engine call = .ok answer) ↔
    ∀ first second, calls first → calls second →
      first.cacheKey manager = second.cacheKey manager → ∀ answer,
        engineAnswer reply manager engine first = .ok answer →
          engineAnswer reply manager engine second = .ok answer := by
  constructor
  · intro transparent first second isFirst isSecond sameKey answer answers
    obtain ⟨last, reaches, begun, returned⟩ :=
      run_sameKey first second capacity sameKey answers
    apply transparent _ last reaches
    · rw [begun]
      intro call member
      rcases List.mem_pair.mp member with rfl | rfl
      · exact isFirst
      · exact isSecond
    · rw [returned]
      exact List.mem_cons_of_mem _ List.mem_cons_self
  · intro agree events last reaches used call answer member
    have sound : Sound reply manager engine last := sound_of_run reaches
    obtain ⟨begun, earlier, earlierBegun, sameKey, answers⟩ :=
      sound.returned call answer member
    exact agree earlier call (used earlier earlierBegun) (used call begun)
      sameKey answer answers

end TtsCalls

end TorchInference
