import TorchInference.AudioSession

/-!
# The frames of a recording

While a transcription gathers samples, each binary frame is cut into samples of
four bytes by itself, and what is left at its end is dropped.  A recording is
what the client sends between the beginning and the end of a transcription; it
is heard as it was sent exactly when no sample crosses the border of a frame.
-/

namespace TorchInference

open TransitionRuns

namespace AudioSession

/-- The audio that `transcribe_audio` is given when a message comes, with its
sample rate. -/
def transcribes (server : AudioServer) (session : AudioSession) :
    AggregatedMessage → Option (List Float32 × UInt32)
  | .text text =>
      match server.parse text, session.state with
      | .ok .sttEnd, .accumulatingStt samples sampleRate =>
          if samples.isEmpty then none else some (samples, sampleRate)
      | _, _ => none
  | _ => none

/-- What transcribing a whole recording would hand over; an empty one is not
transcribed. -/
def recording (audio : List UInt8) (sampleRate : UInt32) :
    Option (List Float32 × UInt32) :=
  if audio.isEmpty then none else some (readSamples audio, sampleRate)

end AudioSession

namespace AudioAction

/-- What may happen during a recording: frames of the recording, messages that
ask for nothing, heartbeats, and the work of older syntheses. -/
def InRecording (server : AudioServer) : AudioAction → Prop
  | .receive (.text text) _ => (server.parse text).isOk = false
  | .receive .close _ | .receive .ended _ => False
  | .receive (.binary _) _ | .receive (.ping _) _ | .receive (.pong _) _
  | .heartbeat | .takeChunk | .synthesize _ _ => True

def frame? : AudioAction → Option (List UInt8)
  | .receive (.binary bytes) _ => some bytes
  | _ => none

end AudioAction

/-! ## Samples and bytes -/

theorem length_lt_four {bytes : List UInt8}
    (short : ∀ a b c d rest, bytes = a :: b :: c :: d :: rest → False) :
    bytes.length < 4 := by
  match bytes with
  | [] | [_] | [_, _] | [_, _, _] => simp
  | a :: b :: c :: d :: rest => exact absurd rfl (short a b c d rest)

theorem readSamples_append {bytes : List UInt8} (aligned : 4 ∣ bytes.length)
    (more : List UInt8) :
    readSamples (bytes ++ more) = readSamples bytes ++ readSamples more := by
  fun_induction readSamples bytes with
  | case1 a b c d rest ih =>
      have alignedRest : 4 ∣ rest.length := by
        simp only [List.length_cons] at aligned
        omega
      simp only [List.cons_append, readSamples]
      rw [ih alignedRest]
  | case2 bytes short =>
      have few := length_lt_four short
      obtain rfl : bytes = [] := List.length_eq_zero_iff.mp (by omega)
      rfl

theorem readSamples_length (bytes : List UInt8) :
    (readSamples bytes).length = bytes.length / 4 := by
  fun_induction readSamples bytes with
  | case1 a b c d rest ih =>
      simp only [List.length_cons, ih]
      omega
  | case2 bytes short =>
      exact (Nat.div_eq_of_lt (length_lt_four short)).symm

/-- Every frame consists of whole samples. -/
def Aligned (frames : List (List UInt8)) : Prop :=
  ∀ frame ∈ frames, 4 ∣ frame.length

instance (frames : List (List UInt8)) : Decidable (Aligned frames) :=
  inferInstanceAs (Decidable (∀ frame ∈ frames, 4 ∣ frame.length))

theorem readSamples_flatten {frames : List (List UInt8)}
    (aligned : Aligned frames) :
    readSamples frames.flatten = frames.flatMap readSamples := by
  induction frames with
  | nil => rfl
  | cons frame frames ih =>
      rw [List.flatten_cons, List.flatMap_cons,
        readSamples_append (aligned frame List.mem_cons_self),
        ih fun other member => aligned other (List.mem_cons_of_mem _ member)]

/-- The frames never give more samples than the whole, and a frame that ends
within a sample makes them fewer. -/
theorem flatMap_readSamples_length (frames : List (List UInt8)) :
    (frames.flatMap readSamples).length * 4 ≤ frames.flatten.length ∧
      (¬ Aligned frames →
        (frames.flatMap readSamples).length * 4 < frames.flatten.length) := by
  induction frames with
  | nil => exact ⟨Nat.le_refl 0, fun split => absurd nofun split⟩
  | cons frame frames ih =>
      obtain ⟨atMost, fewer⟩ := ih
      simp only [List.flatMap_cons, List.flatten_cons, List.length_append,
        readSamples_length]
      refine ⟨by omega, fun split => ?_⟩
      by_cases whole : 4 ∣ frame.length
      · have splitRest : ¬ Aligned frames := by
          intro aligned
          apply split
          intro other member
          rcases List.mem_cons.mp member with rfl | later
          · exact whole
          · exact aligned other later
        have rest := fewer splitRest
        omega
      · omega

/-- Of a recording of whole samples, cutting into frames keeps all samples only
if it keeps each of them together. -/
theorem flatMap_readSamples_eq_iff {frames : List (List UInt8)}
    (whole : 4 ∣ frames.flatten.length) :
    frames.flatMap readSamples = readSamples frames.flatten ↔
      Aligned frames := by
  constructor
  · intro same
    by_contra split
    have fewer := (flatMap_readSamples_length frames).2 split
    rw [same, readSamples_length] at fewer
    omega
  · exact fun aligned => (readSamples_flatten aligned).symm

namespace AudioSession

variable {server : AudioServer} {session next last : AudioSession}

/-- Only an end that hands audio over lets the result of a transcription
show. -/
theorem handleIncoming_of_transcribes_none {message : AggregatedMessage}
    (nothing : session.transcribes server message = none)
    (transcription other : Except String Transcription) :
    session.handleIncoming server message transcription =
      session.handleIncoming server message other := by
  cases message with
  | text text =>
      cases parsed : server.parse text with
      | error e => simp only [handleIncoming, parsed]
      | ok msg =>
          cases msg with
          | tts text voice speed => simp only [handleIncoming, parsed]
          | sttBegin sampleRate => simp only [handleIncoming, parsed]
          | sttEnd =>
              cases state : session.state with
              | idle => simp only [handleIncoming, parsed, state]
              | streamingTts request sentMeta totalSamples sampleRate =>
                  simp only [handleIncoming, parsed, state]
              | accumulatingStt samples sampleRate =>
                  simp only [transcribes, parsed, state,
                    ite_eq_left_iff, reduceCtorEq, imp_false,
                    not_not] at nothing
                  simp only [handleIncoming, parsed, state, finishStt,
                    nothing, if_true]
  | binary bytes => rfl
  | ping data => rfl
  | pong data => rfl
  | close => rfl
  | ended => rfl

/-- The session is open and has gathered these samples. -/
structure Gathering (session : AudioSession) (samples : List Float32)
    (sampleRate : UInt32) : Prop where
  isOpen : session.closed = false
  state : session.state = .accumulatingStt samples sampleRate

variable {samples : List Float32} {sampleRate : UInt32}

/-- During a recording only its frames add samples. -/
theorem Gathering.step (gathering : session.Gathering samples sampleRate)
    {action : AudioAction} (within : action.InRecording server)
    (room : samples.length +
      (action.frame?.toList.flatMap readSamples).length ≤ maxSttSamples)
    (stepTo : session.step server action = some next) :
    next.Gathering (samples ++ action.frame?.toList.flatMap readSamples)
      sampleRate := by
  obtain ⟨isOpen, state⟩ := gathering
  cases action with
  | heartbeat =>
      simp only [AudioSession.step, isOpen, Bool.false_eq_true, if_false,
        Option.some.injEq] at stepTo
      subst stepTo
      exact ⟨isOpen, by simpa [AudioAction.frame?, send] using state⟩
  | receive message transcription =>
      simp only [AudioSession.step, isOpen, Bool.false_eq_true, if_false,
        Option.some.injEq] at stepTo
      subst stepTo
      cases message with
      | text text =>
          cases parsed : server.parse text with
          | ok msg =>
              simp [AudioAction.InRecording, parsed, Except.isOk,
                Except.toBool] at within
          | error e =>
              simp only [handleIncoming, parsed]
              exact ⟨rfl, by
                simpa [AudioAction.frame?, sendError, send] using state⟩
      | binary bytes =>
          simp only [AudioAction.frame?, Option.toList_some,
            List.flatMap_singleton] at room ⊢
          simp only [handleIncoming, state, if_neg (Nat.not_lt.mpr room)]
          exact ⟨rfl, rfl⟩
      | ping data =>
          exact ⟨rfl, by
            simpa [AudioAction.frame?, handleIncoming, send] using state⟩
      | pong data =>
          exact ⟨rfl, by
            simpa [AudioAction.frame?, handleIncoming] using state⟩
      | close => exact within.elim
      | ended => exact within.elim
  | takeChunk => simp [AudioSession.step, isOpen, takeChunk, state] at stepTo
  | synthesize request reply =>
      simp only [AudioSession.step] at stepTo
      split at stepTo
      · cases stepTo
      · split at stepTo
        · cases stepTo
        · cases stepTo
          exact ⟨isOpen, by simpa [AudioAction.frame?] using state⟩

/-- At the end of a recording the session has gathered what each frame gives by
itself. -/
theorem Gathering.run (gathering : session.Gathering samples sampleRate)
    {actions : List AudioAction}
    (within : ∀ action ∈ actions, action.InRecording server)
    (room : samples.length +
      ((actions.filterMap AudioAction.frame?).flatMap readSamples).length ≤
        maxSttSamples)
    (reaches : TransitionRuns.run (AudioSession.step server) session actions =
      some last) :
    last.Gathering
      (samples ++ (actions.filterMap AudioAction.frame?).flatMap readSamples)
      sampleRate := by
  induction actions generalizing session samples with
  | nil =>
      cases reaches
      simpa using gathering
  | cons action actions ih =>
      obtain ⟨next, stepTo, rest⟩ := run_cons_eq_some reaches
      have frames : (action :: actions).filterMap AudioAction.frame? =
          action.frame?.toList ++ actions.filterMap AudioAction.frame? := by
        cases found : action.frame? <;> simp [found]
      rw [frames, List.flatMap_append, List.length_append] at room
      have first := gathering.step (within action List.mem_cons_self)
        (by omega) stepTo
      have later := ih first
        (fun other member => within other (List.mem_cons_of_mem _ member))
        (by rw [List.length_append]; omega) rest
      rwa [frames, List.flatMap_append, ← List.append_assoc]

/-- A recording of whole samples that fits into the session is transcribed as
it was sent exactly when every frame consists of whole samples. -/
theorem transcribes_recording_iff (server : AudioServer)
    {session last : AudioSession} {begins ends : String}
    {sampleRate : UInt32} {actions : List AudioAction}
    {transcription : Except String Transcription}
    (isOpen : session.closed = false)
    (isBegin : server.parse begins = .ok (.sttBegin sampleRate))
    (isEnd : server.parse ends = .ok .sttEnd)
    (within : ∀ action ∈ actions, action.InRecording server)
    (reaches : run (step server) session
      (.receive (.text begins) transcription :: actions) = some last)
    (whole : 4 ∣ (actions.filterMap AudioAction.frame?).flatten.length)
    (fits : (actions.filterMap AudioAction.frame?).flatten.length ≤
      4 * maxSttSamples) :
    last.transcribes server (.text ends) =
        recording (actions.filterMap AudioAction.frame?).flatten sampleRate ↔
      Aligned (actions.filterMap AudioAction.frame?) := by
  obtain ⟨next, stepTo, rest⟩ := run_cons_eq_some reaches
  have begun : next.Gathering [] sampleRate := by
    simp only [step, isOpen, handleIncoming, isBegin, Bool.false_eq_true,
      if_false, Option.some.injEq] at stepTo
    subst stepTo
    exact ⟨rfl, rfl⟩
  have size := (flatMap_readSamples_length
    (actions.filterMap AudioAction.frame?)).1
  have gathered := begun.run within
    (by rw [List.length_nil]; omega) rest
  rw [List.nil_append] at gathered
  rw [← flatMap_readSamples_eq_iff whole]
  generalize actions.filterMap AudioAction.frame? = frames at whole gathered ⊢
  simp only [transcribes, isEnd, gathered.state, recording]
  -- Nothing is handed over when no frame holds a whole sample.
  by_cases silent : (frames.flatMap readSamples).isEmpty
  · rw [if_pos silent]
    rw [List.isEmpty_iff] at silent
    by_cases empty : frames.flatten.isEmpty
    · rw [if_pos empty, silent, List.isEmpty_iff.mp empty]
      exact iff_of_true rfl rfl
    · rw [if_neg empty, silent]
      refine iff_of_false nofun fun same => empty ?_
      have length := readSamples_length frames.flatten
      rw [← same, List.length_nil] at length
      rw [List.isEmpty_iff, ← List.length_eq_zero_iff]
      omega
  · rw [if_neg silent]
    by_cases empty : frames.flatten.isEmpty
    · rw [if_pos empty]
      rw [List.isEmpty_iff] at silent empty
      refine iff_of_false nofun fun same => silent ?_
      rw [same, empty]
      rfl
    · rw [if_neg empty, Option.some.injEq, Prod.mk.injEq]
      exact and_iff_left rfl

/-! ## A sample in two frames -/

/-- A server that knows how a recording begins and ends. -/
def recorder : AudioServer where
  parse text :=
    if text = "stt_begin" then .ok (.sttBegin 16000)
    else if text = "stt_end" then .ok .sttEnd
    else .error "unknown variant"
  manager := ⟨[], ""⟩

/-- A frame of the recording. -/
def heard (bytes : List UInt8) : AudioAction :=
  .receive (.binary bytes) (.error "")

def alignedRecording : List AudioAction :=
  [heard [0, 0, 128, 63], .heartbeat, heard [],
    heard [0, 0, 0, 64, 0, 0, 64, 64]]

theorem alignedRecording_transcribed :
    ∃ last, run (step recorder) start
        (.receive (.text "stt_begin") (.error "") :: alignedRecording) =
          some last ∧
      last.transcribes recorder (.text "stt_end") =
        recording [0, 0, 128, 63, 0, 0, 0, 64, 0, 0, 64, 64] 16000 := by
  obtain ⟨last, reaches⟩ : ∃ last, run (step recorder) start
      (.receive (.text "stt_begin") (.error "") :: alignedRecording) =
        some last := ⟨_, rfl⟩
  have within : ∀ action ∈ alignedRecording,
      action.InRecording recorder := by
    intro action member
    simp only [alignedRecording, List.mem_cons, List.not_mem_nil,
      or_false] at member
    rcases member with rfl | rfl | rfl | rfl <;> exact trivial
  have isEnd : recorder.parse "stt_end" = .ok .sttEnd := rfl
  have heardAsSent := transcribes_recording_iff recorder rfl rfl isEnd within
    reaches (by decide) (by decide)
  exact ⟨last, reaches, heardAsSent.mpr (by decide)⟩

/-- A recording of one sample, in two frames, is not heard at all. -/
theorem splitSample_dropped :
    ∃ last, run (step recorder) start
        [.receive (.text "stt_begin") (.error ""), heard [0, 0, 128],
          heard [63]] = some last ∧
      last.transcribes recorder (.text "stt_end") = none ∧
      recording [0, 0, 128, 63] 16000 ≠ none ∧
      last.transcribes recorder (.text "stt_end") ≠
        recording [0, 0, 128, 63] 16000 := by
  exact ⟨_, rfl, rfl, nofun, nofun⟩

end AudioSession

end TorchInference
