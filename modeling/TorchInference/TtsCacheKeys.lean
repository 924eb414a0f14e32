import TorchInference.DelimitedText
import TorchInference.LossyUtf8
import TorchInference.TtsCacheTransparency

/-!
# The keys of the syntheses

The fields of a call are hashed one after another, with a NUL behind each of the
texts.  Without a NUL in a text the hashed bytes tell the calls apart, except
that a voice or a language may be absent or empty.
-/

namespace TorchInference

theorem leBytes_injective : Function.Injective leBytes := by
  intro first second same
  simp only [leBytes, List.cons.injEq] at same
  obtain ⟨byte0, byte1, byte2, byte3, -⟩ := same
  have number0 := congrArg UInt8.toNat byte0
  have number1 := congrArg UInt8.toNat byte1
  have number2 := congrArg UInt8.toNat byte2
  have number3 := congrArg UInt8.toNat byte3
  simp [Nat.shiftRight_eq_div_pow] at number0 number1 number2 number3
  have small := first.toNat_lt
  have otherSmall := second.toNat_lt
  apply UInt32.toNat_inj.mp
  omega

namespace TtsCall

variable {manager : TtsManager} {first second : TtsCall}

/-- No text of the call contains the separator of the key. -/
def NulFree (manager : TtsManager) (call : TtsCall) : Prop :=
  ∀ text ∈ [call.text, call.engine manager, call.params.voice.getD "",
    call.params.language.getD ""], '\x00' ∉ text.toList

/-- The calls differ at most in whether a voice or language is absent or
empty. -/
structure SameFields (manager : TtsManager) (first second : TtsCall) : Prop where
  text : first.text = second.text
  engine : first.engine manager = second.engine manager
  voice : first.params.voice.getD "" = second.params.voice.getD ""
  language : first.params.language.getD "" = second.params.language.getD ""
  speed : first.params.speed.toBits = second.params.speed.toBits
  pitch : first.params.pitch.toBits = second.params.pitch.toBits

theorem keyBytes_eq (call : TtsCall) :
    call.keyBytes manager =
      LossyUtf8.encode call.text.toList ++ 0 ::
        (LossyUtf8.encode (call.engine manager).toList ++ 0 ::
          (LossyUtf8.encode (call.params.voice.getD "").toList ++ 0 ::
            (LossyUtf8.encode (call.params.language.getD "").toList ++ 0 ::
              (leBytes call.params.speed.toBits ++
                leBytes call.params.pitch.toBits)))) := by
  rw [keyBytes, CachingTtsManager.keyBytes]
  simp only [LossyUtf8.toList_toUTF8, List.append_assoc, List.cons_append,
    List.nil_append]

/-- A text is read up to its separator. -/
theorem eq_of_encode_append {front back : String} {rest otherRest : List UInt8}
    (frontFree : '\x00' ∉ front.toList) (backFree : '\x00' ∉ back.toList)
    (same : LossyUtf8.encode front.toList ++ 0 :: rest =
      LossyUtf8.encode back.toList ++ 0 :: otherRest) :
    front = back ∧ rest = otherRest := by
  obtain ⟨texts, behind⟩ := DelimitedText.append_separator_inj
    (LossyUtf8.zero_not_mem_encode frontFree)
    (LossyUtf8.zero_not_mem_encode backFree) same
  exact ⟨String.toList_injective (LossyUtf8.encode_injective texts), behind⟩

theorem keyBytes_eq_iff (firstFree : first.NulFree manager)
    (secondFree : second.NulFree manager) :
    first.keyBytes manager = second.keyBytes manager ↔
      SameFields manager first second := by
  simp only [NulFree, List.forall_mem_cons] at firstFree secondFree
  obtain ⟨freeText, freeEngine, freeVoice, freeLanguage, -⟩ := firstFree
  obtain ⟨otherText, otherEngine, otherVoice, otherLanguage, -⟩ := secondFree
  constructor
  · intro same
    rw [keyBytes_eq, keyBytes_eq] at same
    obtain ⟨text, same⟩ := eq_of_encode_append freeText otherText same
    obtain ⟨engine, same⟩ := eq_of_encode_append freeEngine otherEngine same
    obtain ⟨voice, same⟩ := eq_of_encode_append freeVoice otherVoice same
    obtain ⟨language, same⟩ :=
      eq_of_encode_append freeLanguage otherLanguage same
    obtain ⟨speed, pitch⟩ := List.append_inj same rfl
    exact ⟨text, engine, voice, language, leBytes_injective speed,
      leBytes_injective pitch⟩
  · intro same
    rw [keyBytes_eq, keyBytes_eq, same.text, same.engine, same.voice,
      same.language, same.speed, same.pitch]

end TtsCall

namespace TtsCalls

open TransitionRuns

/-- The cache is transparent up to the key of a call: each answer is what the
engine yields for the call or for one with the same key that has begun before.
Runs over a set of calls are transparent exactly if the engines yield the same
for any two of them with one key; and the hashed bytes of two calls without a
NUL are the same exactly if they have the same fields. -/
theorem transparent_up_to_key
    (reply : String → String → SynthesisParams → TtsAnswer)
    (manager : TtsManager) (engine : String → TtsEngine) (capacity : Nat) :
    (∀ events last, run (step reply)
        (start (CachingTtsManager.new manager engine capacity)) events =
          some last →
      ∀ call answer, (call, .ok answer) ∈ last.returned →
        ∃ earlier ∈ last.begun,
          earlier.cacheKey manager = call.cacheKey manager ∧
          engineAnswer reply manager engine earlier = .ok answer) ∧
    (∀ calls : TtsCall → Prop,
      (∀ events last, run (step reply)
          (start (CachingTtsManager.new manager engine capacity)) events =
            some last →
        (∀ call ∈ last.begun, calls call) →
        ∀ call answer, (call, .ok answer) ∈ last.returned →
          engineAnswer reply manager engine call = .ok answer) ↔
      ∀ first second, calls first → calls second →
        first.cacheKey manager = second.cacheKey manager → ∀ answer,
          engineAnswer reply manager engine first = .ok answer →
            engineAnswer reply manager engine second = .ok answer) ∧
    (∀ first second : TtsCall,
      first.NulFree manager → second.NulFree manager →
      (first.keyBytes manager = second.keyBytes manager ↔
        TtsCall.SameFields manager first second)) := by
  refine ⟨?_, transparent_iff_agree capacity, ?_⟩
  · intro events last reaches call answer member
    have sound : Sound reply manager engine last := sound_of_run reaches
    exact (sound.returned call answer member).2
  · intro first second firstFree secondFree
    exact TtsCall.keyBytes_eq_iff firstFree secondFree

/-- An engine with a voice of its own for calls that ask for none. -/
def ownVoice (_id _text : String) (params : SynthesisParams) : TtsAnswer :=
  match params.voice with
  | none => .ok (⟨[], 24000⟩, none)
  | some _ => .ok (⟨[], 22050⟩, none)

def greeting (voice : Option String) : TtsCall where
  text := "Hello"
  engineId := none
  params := ⟨1.0, 1.0, voice, none⟩

/-- A call with an empty voice gets what was made for one without a voice. -/
theorem emptyVoice_answered_as_none :
    ∃ last, run (step ownVoice)
        (start (CachingTtsManager.new ⟨["kokoro-onnx"], "kokoro-onnx"⟩
          (fun id => ⟨id, fun _ => .ok ()⟩) 128))
        [.begins (greeting none), .engineReplies 0,
          .begins (greeting (some ""))] = some last ∧
      (greeting (some ""), .ok (⟨[], 24000⟩, none)) ∈ last.returned ∧
      engineAnswer ownVoice ⟨["kokoro-onnx"], "kokoro-onnx"⟩
          (fun id => ⟨id, fun _ => .ok ()⟩) (greeting (some "")) =
        .ok (⟨[], 22050⟩, none) := by
  have answers : engineAnswer ownVoice ⟨["kokoro-onnx"], "kokoro-onnx"⟩
      (fun id => ⟨id, fun _ => .ok ()⟩) (greeting none) =
    .ok (⟨[], 24000⟩, none) := rfl
  obtain ⟨last, reaches, -, returned⟩ :=
    run_sameKey (greeting none) (greeting (some "")) 128 rfl answers
  refine ⟨last, reaches, ?_, rfl⟩
  rw [returned]
  exact List.mem_cons_of_mem _ List.mem_cons_self

end TtsCalls

end TorchInference
