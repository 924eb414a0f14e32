import TorchInference.TtsManager
import TorchInference.TransitionRuns

/-!
# The audio session of a WebSocket

A session is idle, streams the speech of one request, or gathers samples for a
transcription.  A request for speech and the beginning of a transcription
replace whatever the session was doing; the channel of a speech that is
replaced is dropped.  Messages of the client, results in the channel and the
tasks of the syntheses are interleaved in any way.

Sends succeed.  The history of a session lists the frames it has sent, each
with the request whose speech it belongs to.
-/

namespace TorchInference

open TransitionRuns

inductive ClientMsg where
  | tts (text : String) (voice : Option String) (speed : Float32)
  | sttBegin (sampleRate : UInt32)
  | sttEnd

inductive ServerMsg where
  | ready
  | ttsMeta (sampleRate : UInt32) (encoding : String)
  | ttsDone (durationMs : UInt64)
  | transcript (text : String) (confidence : Float32) (isFinal : Bool)
  | error (msg : String)

inductive Frame where
  | text (msg : ServerMsg)
  | binary (bytes : List UInt8)
  | ping
  | pong (data : List UInt8)

/-- A frame, and the request for speech it is sent for. -/
structure SentFrame where
  owner : Option Nat
  frame : Frame

inductive AggregatedMessage where
  | text (text : String)
  | binary (bytes : List UInt8)
  | ping (data : List UInt8)
  | pong (data : List UInt8)
  | close
  /-- The stream of messages has ended or failed. -/
  | ended

/-- What a session works with; the text of a message is parsed by a
library. -/
structure AudioServer where
  parse : String → Except String ClientMsg
  manager : TtsManager

structure Transcription where
  text : String
  confidence : Float32

inductive SessionState where
  | idle
  | streamingTts (request : Nat) (sentMeta : Bool) (totalSamples : UInt64)
      (sampleRate : UInt32)
  | accumulatingStt (buf : List Float32) (sampleRate : UInt32)

/-- The request whose channel the session holds. -/
def SessionState.request? : SessionState → Option Nat
  | .streamingTts request _ _ _ => some request
  | _ => none

structure AudioSession where
  state : SessionState
  closed : Bool
  /-- One for each request for speech that has been accepted. -/
  syntheses : List Synthesis
  sent : List SentFrame

inductive AudioAction where
  | heartbeat
  /-- A message comes; what the transcription of the gathered samples would
  give is part of the environment. -/
  | receive (message : AggregatedMessage)
      (transcription : Except String Transcription)
  | takeChunk
  | synthesize (request : Nat) (reply : SynthesisReply)

def readSamples : List UInt8 → List Float32
  | a :: b :: c :: d :: rest =>
      Float32.ofBits (a.toUInt32 ||| (b.toUInt32 <<< 8) |||
        (c.toUInt32 <<< 16) ||| (d.toUInt32 <<< 24)) :: readSamples rest
  | _ => []

def maxSttSamples : Nat :=
  30 * 60 * 16000

namespace AudioSession

/-- A session that has greeted its client. -/
def start : AudioSession where
  state := .idle
  closed := false
  syntheses := []
  sent := [⟨none, .text .ready⟩]

variable (session : AudioSession)

def send (owner : Option Nat) (frames : List Frame) : AudioSession :=
  { session with
    sent := session.sent ++ frames.map fun frame => ⟨owner, frame⟩ }

def sendError (msg : String) : AudioSession :=
  session.send none [.text (.error msg)]

def startTts (server : AudioServer) (text : String) (voice : Option String)
    (speed : Float32) : AudioSession :=
  if trim text.toList = [] then session.sendError "text is empty"
  else
    match voice.bind server.manager.getEngine <|>
        server.manager.getDefaultEngine with
    | none => session.sendError "no TTS engine available"
    | some engine =>
        let params : SynthesisParams := {
          speed := speed
          pitch := 1.0
          voice := voice
          language := none }
        { session with
          syntheses := session.syntheses ++
            [Synthesis.start engine text params]
          state := .streamingTts session.syntheses.length false 0 24000 }

def finishStt (samples : List Float32)
    (transcription : Except String Transcription) : AudioSession :=
  if samples.isEmpty then session.sendError "no audio received"
  else
    match transcription with
    | .ok r => session.send none [.text (.transcript r.text r.confidence true)]
    | .error e => session.sendError e

/-- The flag tells whether the session goes on. -/
def handleIncoming (server : AudioServer) (message : AggregatedMessage)
    (transcription : Except String Transcription) : Bool × AudioSession :=
  match message with
  | .text text =>
      match server.parse text with
      | .ok (.tts text voice speed) =>
          (true, session.startTts server text voice speed)
      | .ok (.sttBegin sampleRate) =>
          (true, { session with state := .accumulatingStt [] sampleRate })
      | .ok .sttEnd =>
          match session.state with
          | .accumulatingStt buf _ =>
              (true, { session with state := .idle }.finishStt buf
                transcription)
          | _ => (true, session.sendError "not in STT session")
      | .error e => (true, session.sendError ("bad message: " ++ e))
  | .binary bytes =>
      match session.state with
      | .accumulatingStt buf sampleRate =>
          let samples := readSamples bytes
          if maxSttSamples < buf.length + samples.length then
            (false, session.sendError
              "stt buffer cap exceeded (30 min limit) — call stt_end")
          else (true, { session with
            state := .accumulatingStt (buf ++ samples) sampleRate })
      | _ => (true, session)
  | .ping data => (true, session.send none [.pong data])
  | .pong _ => (true, session)
  | .close => (false, session)
  | .ended => (false, session)

/-- The duration in the last frame of a speech. -/
def durationMs (totalSamples : UInt64) (sampleRate : UInt32) : UInt64 :=
  totalSamples * 1000 / (max sampleRate 1).toUInt64

/-- The session takes what is in the channel of the speech it streams. -/
def takeChunk : Option AudioSession :=
  match session.state with
  | .streamingTts request sentMeta totalSamples sampleRate =>
      match session.syntheses[request]? with
      | none => none
      | some synthesis =>
          match synthesis.channel.recv with
          | .waiting => none
          | .message result channel =>
              let taken := { session with
                syntheses := session.syntheses.set request
                  (synthesis.take channel result) }
              match result with
              | .ok chunk =>
                  let rate :=
                    if sentMeta then sampleRate else chunk.audio.sampleRate
                  let header : List Frame :=
                    if sentMeta then []
                    else [.text (.ttsMeta rate "pcm_f32le")]
                  some { taken.send (some request)
                      (header ++ [.binary chunk.toF32Le]) with
                    state := .streamingTts request true
                      (totalSamples +
                        UInt64.ofNat chunk.audio.samples.length) rate }
              | .error e =>
                  some { taken.send (some request) [.text (.error e)] with
                    state := .idle }
          | .ended =>
              let drained := { session with
                syntheses :=
                  session.syntheses.set request synthesis.drain }
              some { drained.send (some request)
                  [.text (.ttsDone (durationMs totalSamples sampleRate))] with
                state := .idle }
  | _ => none

/-- The session holds the channel of the request. -/
def listening (request : Nat) : Bool :=
  !session.closed && session.state.request? == some request

/-- When the session is over, everything it holds is dropped. -/
def step (server : AudioServer) (session : AudioSession) :
    AudioAction → Option AudioSession
  | .heartbeat =>
      if session.closed then none else some (session.send none [.ping])
  | .receive message transcription =>
      if session.closed then none
      else
        let (goesOn, after) :=
          session.handleIncoming server message transcription
        some { after with closed := !goesOn }
  | .takeChunk => if session.closed then none else session.takeChunk
  | .synthesize request reply =>
      match session.syntheses[request]? with
      | none => none
      | some synthesis =>
          match synthesis.advance (session.listening request) reply with
          | none => none
          | some after => some { session with
              syntheses := session.syntheses.set request after }

/-! ## What a step does -/

/-- The session stops holding a channel only when a transcription begins. -/
def Leaves (before after : SessionState) : Prop :=
  after = before ∨ (before.request? = none ∧ after.request? = none) ∨
    ∃ sampleRate, after = .accumulatingStt [] sampleRate

inductive Move (server : AudioServer) (session : AudioSession) :
    AudioAction → AudioSession → Prop
  | answers (action : AudioAction) (after : AudioSession)
      (frames : List Frame) (isOpen : session.closed = false)
      (syntheses : after.syntheses = session.syntheses)
      (sent : after.sent =
        session.sent ++ frames.map fun frame => ⟨none, frame⟩)
      (leaves : Leaves session.state after.state)
      (received : (∃ message transcription,
        action = .receive message transcription) ∨
          action = .heartbeat ∧ after.state = session.state ∧
            after.closed = false) :
      Move server session action after
  | accepts (message : AggregatedMessage)
      (transcription : Except String Transcription) (engine text : String)
      (params : SynthesisParams) (isOpen : session.closed = false) :
      Move server session (.receive message transcription)
        { session with
          syntheses := session.syntheses ++
            [Synthesis.start engine text params]
          state := .streamingTts session.syntheses.length false 0 24000
          closed := false }
  | chunk (request : Nat) (sentMeta : Bool) (totalSamples : UInt64)
      (sampleRate : UInt32) (synthesis : Synthesis) (chunk : AudioChunk)
      (channel : BoundedChannel (Except String AudioChunk))
      (streams : session.state =
        .streamingTts request sentMeta totalSamples sampleRate)
      (found : session.syntheses[request]? = some synthesis)
      (received : synthesis.channel.recv = .message (.ok chunk) channel)
      (isOpen : session.closed = false) :
      Move server session .takeChunk
        { session.send (some request)
            ((if sentMeta then [] else
              [.text (.ttsMeta (if sentMeta then sampleRate
                else chunk.audio.sampleRate) "pcm_f32le")]) ++
              [.binary chunk.toF32Le]) with
          syntheses := session.syntheses.set request
            (synthesis.take channel (.ok chunk))
          state := .streamingTts request true
            (totalSamples + UInt64.ofNat chunk.audio.samples.length)
            (if sentMeta then sampleRate else chunk.audio.sampleRate) }
  | fails (request : Nat) (sentMeta : Bool) (totalSamples : UInt64)
      (sampleRate : UInt32) (synthesis : Synthesis) (error : String)
      (channel : BoundedChannel (Except String AudioChunk))
      (streams : session.state =
        .streamingTts request sentMeta totalSamples sampleRate)
      (found : session.syntheses[request]? = some synthesis)
      (received : synthesis.channel.recv = .message (.error error) channel)
      (isOpen : session.closed = false) :
      Move server session .takeChunk
        { session.send (some request) [.text (.error error)] with
          syntheses := session.syntheses.set request
            (synthesis.take channel (.error error))
          state := .idle }
  | ends (request : Nat) (sentMeta : Bool) (totalSamples : UInt64)
      (sampleRate : UInt32) (synthesis : Synthesis)
      (streams : session.state =
        .streamingTts request sentMeta totalSamples sampleRate)
      (found : session.syntheses[request]? = some synthesis)
      (ended : synthesis.channel.recv = .ended)
      (isOpen : session.closed = false) :
      Move server session .takeChunk
        { session.send (some request)
            [.text (.ttsDone (durationMs totalSamples sampleRate))] with
          syntheses := session.syntheses.set request synthesis.drain
          state := .idle }
  | works (request : Nat) (reply : SynthesisReply)
      (synthesis after : Synthesis)
      (found : session.syntheses[request]? = some synthesis)
      (advances : synthesis.advance (session.listening request) reply =
        some after) :
      Move server session (.synthesize request reply)
        { session with syntheses := session.syntheses.set request after }

variable {session} {server : AudioServer} {next : AudioSession}

theorem move_of_incoming {message : AggregatedMessage}
    {transcription : Except String Transcription} {goesOn : Bool}
    {after : AudioSession} (isOpen : session.closed = false)
    (handled : session.handleIncoming server message transcription =
      (goesOn, after)) :
    Move server session (.receive message transcription)
      { after with closed := !goesOn } := by
  have isReceive : (∃ other reply, AudioAction.receive message transcription =
      .receive other reply) := ⟨message, transcription, rfl⟩
  have unchanged : Leaves session.state session.state := Or.inl rfl
  have silent : session.sent =
      session.sent ++ ([] : List Frame).map fun frame => ⟨none, frame⟩ := by
    simp
  unfold handleIncoming at handled
  cases message with
  | text text =>
      cases parsed : server.parse text with
      | error e =>
          simp only [parsed] at handled
          cases handled
          exact .answers _ _ _ isOpen rfl rfl unchanged (Or.inl isReceive)
      | ok msg =>
          simp only [parsed] at handled
          cases msg with
          | tts text voice speed =>
              simp only [startTts] at handled
              split at handled
              case isTrue =>
                cases handled
                exact .answers _ _ _ isOpen rfl rfl unchanged (Or.inl isReceive)
              case isFalse =>
                split at handled
                case h_1 =>
                  cases handled
                  exact .answers _ _ _ isOpen rfl rfl unchanged
                    (Or.inl isReceive)
                case h_2 engine _ =>
                  cases handled
                  exact .accepts _ _ engine text _ isOpen
          | sttBegin sampleRate =>
              cases handled
              exact .answers _ _ [] isOpen rfl silent
                (Or.inr (Or.inr ⟨sampleRate, rfl⟩)) (Or.inl isReceive)
          | sttEnd =>
              simp only at handled
              split at handled
              case h_1 buf sampleRate gathers =>
                have leaves : Leaves session.state .idle :=
                  Or.inr (Or.inl ⟨by rw [gathers]; rfl, rfl⟩)
                simp only [finishStt] at handled
                split at handled
                · cases handled
                  exact .answers _ _ _ isOpen rfl rfl leaves (Or.inl isReceive)
                · cases transcription with
                  | ok r =>
                      cases handled
                      exact .answers _ _ _ isOpen rfl rfl leaves
                        (Or.inl isReceive)
                  | error e =>
                      cases handled
                      exact .answers _ _ _ isOpen rfl rfl leaves
                        (Or.inl isReceive)
              case h_2 =>
                cases handled
                exact .answers _ _ _ isOpen rfl rfl unchanged (Or.inl isReceive)
  | binary bytes =>
      simp only at handled
      split at handled
      case h_1 buf sampleRate gathers =>
        split at handled
        · cases handled
          exact .answers _ _ _ isOpen rfl rfl unchanged (Or.inl isReceive)
        · cases handled
          exact .answers _ _ [] isOpen rfl silent
            (Or.inr (Or.inl ⟨by rw [gathers]; rfl, rfl⟩)) (Or.inl isReceive)
      case h_2 =>
        cases handled
        exact .answers _ _ [] isOpen rfl silent unchanged (Or.inl isReceive)
  | ping data =>
      cases handled
      exact .answers _ _ _ isOpen rfl rfl unchanged (Or.inl isReceive)
  | pong data =>
      cases handled
      exact .answers _ _ [] isOpen rfl silent unchanged (Or.inl isReceive)
  | close =>
      cases handled
      exact .answers _ _ [] isOpen rfl silent unchanged (Or.inl isReceive)
  | ended =>
      cases handled
      exact .answers _ _ [] isOpen rfl silent unchanged (Or.inl isReceive)

theorem move_of_takeChunk (isOpen : session.closed = false)
    (took : session.takeChunk = some next) :
    Move server session .takeChunk next := by
  unfold takeChunk at took
  split at took
  case h_1 request sentMeta totalSamples sampleRate streams =>
    cases found : session.syntheses[request]? with
    | none => simp [found] at took
    | some synthesis =>
        simp only [found] at took
        cases received : synthesis.channel.recv with
        | waiting => simp [received] at took
        | ended =>
            simp only [received] at took
            cases took
            exact .ends _ _ _ _ _ streams found received isOpen
        | message result channel =>
            simp only [received] at took
            cases result with
            | ok chunk =>
                cases took
                exact .chunk _ _ _ _ _ _ _ streams found received
                  isOpen
            | error e =>
                cases took
                exact .fails _ _ _ _ _ _ _ streams found received
                  isOpen
  case h_2 => cases took

/-- Every step is one of the moves. -/
theorem move_of_step {action : AudioAction}
    (stepTo : session.step server action = some next) :
    Move server session action next := by
  unfold step at stepTo
  cases action with
  | heartbeat =>
      simp only at stepTo
      split at stepTo
      case isTrue => cases stepTo
      case isFalse isOpen =>
        rw [Bool.not_eq_true] at isOpen
        cases stepTo
        exact .answers _ _ _ isOpen rfl rfl (Or.inl rfl)
          (Or.inr ⟨rfl, rfl, isOpen⟩)
  | receive message transcription =>
      simp only at stepTo
      split at stepTo
      case isTrue => cases stepTo
      case isFalse isOpen =>
        cases stepTo
        exact move_of_incoming (by simpa using isOpen) rfl
  | takeChunk =>
      simp only at stepTo
      split at stepTo
      case isTrue => cases stepTo
      case isFalse isOpen =>
        exact move_of_takeChunk (by simpa using isOpen) stepTo
  | synthesize request reply =>
      cases found : session.syntheses[request]? with
      | none => simp [found] at stepTo
      | some synthesis =>
          simp only [found] at stepTo
          cases advances : synthesis.advance (session.listening request)
              reply with
          | none => simp [advances] at stepTo
          | some after =>
              simp only [advances, Option.some.injEq] at stepTo
              subst stepTo
              exact .works _ _ _ _ found advances

end AudioSession

end TorchInference
