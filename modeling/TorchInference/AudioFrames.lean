import TorchInference.AudioSession

/-!
# The frames of a speech

The frames that a session has sent for a request are determined by the chunks
it has taken from the channel of the request, and by how the speech has ended:
a header, the samples of every chunk in order, and one terminal frame.  While
a request is being streamed its channel has lost nothing.  A request whose
channel is dropped before its end gets no further frame.
-/

namespace TorchInference

open TransitionRuns

/-! ## The speech of a request -/

namespace Synthesis

def okChunks (results : List (Except String AudioChunk)) : List AudioChunk :=
  results.filterMap Except.toOption

/-- The chunks that the receiver has taken. -/
def chunks (synthesis : Synthesis) : List AudioChunk :=
  okChunks synthesis.received

/-- The error that the receiver has taken. -/
def failure (synthesis : Synthesis) : Option String :=
  synthesis.received.findSome? fun
    | .ok _ => none
    | .error e => some e

def answered (synthesis : Synthesis) : Bool :=
  synthesis.drained || synthesis.failure.isSome

end Synthesis

def samplesOf (chunks : List AudioChunk) : Nat :=
  (chunks.map fun chunk => chunk.audio.samples.length).sum

/-- The sample rate of the header, if there is one. -/
def rateOf : List AudioChunk → UInt32
  | [] => 24000
  | chunk :: _ => chunk.audio.sampleRate

def headerFrames : List AudioChunk → List Frame
  | [] => []
  | chunk :: _ => [.text (.ttsMeta chunk.audio.sampleRate "pcm_f32le")]

/-- The duration of samples in milliseconds, rounded down.  The product is
that of 64-bit numbers. -/
def floorMs (samples : Nat) (rate : UInt32) : Nat :=
  1000 * samples % 2 ^ 64 / max rate.toNat 1

namespace Synthesis

def terminalFrames (synthesis : Synthesis) : List Frame :=
  match synthesis.failure with
  | some e => [.text (.error e)]
  | none =>
      if synthesis.drained then
        [.text (.ttsDone (UInt64.ofNat
          (floorMs (samplesOf synthesis.chunks) (rateOf synthesis.chunks))))]
      else []

/-- What a client is told of a speech. -/
def speechFrames (synthesis : Synthesis) : List Frame :=
  headerFrames synthesis.chunks ++
    synthesis.chunks.map (fun chunk => .binary chunk.toF32Le) ++
    synthesis.terminalFrames

end Synthesis

/-- The last frame of a speech. -/
def Frame.isTerminal : Frame → Bool
  | .text (.ttsDone _) => true
  | .text (.error _) => true
  | _ => false

private theorem toNat_max_one (rate : UInt32) :
    (max rate 1).toNat = max rate.toNat 1 := by
  change (if rate ≤ 1 then 1 else rate).toNat = _
  split
  case isTrue small =>
    rw [UInt32.le_iff_toNat_le] at small
    exact (max_eq_right small).symm
  case isFalse large =>
    rw [UInt32.le_iff_toNat_le, not_le] at large
    exact (max_eq_left large.le).symm

theorem durationMs_ofNat (samples : Nat) (rate : UInt32) :
    AudioSession.durationMs (UInt64.ofNat samples) rate =
      UInt64.ofNat (floorMs samples rate) := by
  have product : (UInt64.ofNat samples * 1000).toNat =
      1000 * samples % 2 ^ 64 := by
    rw [UInt64.toNat_mul, UInt64.toNat_ofNat', Nat.mod_mul_mod, Nat.mul_comm]
    rfl
  have divisor : (max rate 1).toUInt64.toNat = max rate.toNat 1 := by
    rw [UInt32.toNat_toUInt64, toNat_max_one]
  have small : floorMs samples rate < 2 ^ 64 :=
    (Nat.div_le_self _ _).trans_lt (Nat.mod_lt _ (by decide))
  apply UInt64.toNat_inj.mp
  rw [AudioSession.durationMs, UInt64.toNat_div, product, divisor,
    UInt64.toNat_ofNat', Nat.mod_eq_of_lt small, floorMs]

namespace Synthesis

variable {synthesis after : Synthesis}

/-- A speech has one terminal frame when it has been answered, and none
before. -/
theorem countP_speechFrames (synthesis : Synthesis) :
    synthesis.speechFrames.countP Frame.isTerminal =
      if synthesis.answered then 1 else 0 := by
  have header : (headerFrames synthesis.chunks).countP
      Frame.isTerminal = 0 := by
    cases synthesis.chunks <;> rfl
  have audio : (synthesis.chunks.map fun chunk =>
      Frame.binary chunk.toF32Le).countP Frame.isTerminal = 0 := by
    simp [List.countP_eq_zero, Frame.isTerminal]
  rw [speechFrames, List.countP_append, List.countP_append, header, audio]
  cases failed : synthesis.failure with
  | some e => simp [terminalFrames, answered, failed, Frame.isTerminal]
  | none =>
      cases ended : synthesis.drained <;>
        simp [terminalFrames, answered, failed, ended, Frame.isTerminal]

theorem answered_eq_false : synthesis.answered = false ↔
    synthesis.drained = false ∧ synthesis.failure = none := by
  simp [answered]

theorem terminalFrames_of_unanswered
    (unanswered : synthesis.answered = false) :
    synthesis.terminalFrames = [] := by
  obtain ⟨undrained, unfailed⟩ := answered_eq_false.mp unanswered
  simp [terminalFrames, undrained, unfailed]

/-- The frames of a speech depend on nothing but what has been taken. -/
theorem speechFrames_congr (received : after.received = synthesis.received)
    (drained : after.drained = synthesis.drained) :
    after.speechFrames = synthesis.speechFrames := by
  simp only [speechFrames, terminalFrames, chunks, failure, received, drained]

/-! ## The next frames -/

variable (channel : BoundedChannel (Except String AudioChunk))

theorem chunks_take_ok (chunk : AudioChunk) :
    (synthesis.take channel (.ok chunk)).chunks =
      synthesis.chunks ++ [chunk] := by
  simp [take, chunks, okChunks, Except.toOption]

theorem chunks_take_error (e : String) :
    (synthesis.take channel (.error e)).chunks = synthesis.chunks := by
  simp [take, chunks, okChunks, Except.toOption]

theorem failure_take_ok (chunk : AudioChunk) :
    (synthesis.take channel (.ok chunk)).failure = synthesis.failure := by
  simp [take, failure, List.findSome?_append]

theorem failure_take_error (unfailed : synthesis.failure = none)
    (e : String) :
    (synthesis.take channel (.error e)).failure = some e := by
  rw [failure] at unfailed
  simp [take, failure, List.findSome?_append, unfailed]

theorem answered_take_ok (chunk : AudioChunk) :
    (synthesis.take channel (.ok chunk)).answered = synthesis.answered := by
  rw [answered, failure_take_ok, answered]
  rfl

theorem speechFrames_take_ok (unanswered : synthesis.answered = false)
    (chunk : AudioChunk) :
    (synthesis.take channel (.ok chunk)).speechFrames =
      synthesis.speechFrames ++
        ((if synthesis.chunks = [] then headerFrames [chunk] else []) ++
          [.binary chunk.toF32Le]) := by
  have still : (synthesis.take channel (.ok chunk)).answered = false := by
    rw [answered_take_ok, unanswered]
  rw [speechFrames, speechFrames, terminalFrames_of_unanswered still,
    terminalFrames_of_unanswered unanswered, chunks_take_ok]
  cases synthesis.chunks with
  | nil => rfl
  | cons first rest => simp [headerFrames]

theorem speechFrames_take_error (unanswered : synthesis.answered = false)
    (e : String) :
    (synthesis.take channel (.error e)).speechFrames =
      synthesis.speechFrames ++ [.text (.error e)] := by
  obtain ⟨_, unfailed⟩ := answered_eq_false.mp unanswered
  rw [speechFrames, speechFrames, terminalFrames_of_unanswered unanswered,
    chunks_take_error, terminalFrames, failure_take_error channel unfailed,
    List.append_nil]

theorem speechFrames_drain (unanswered : synthesis.answered = false) :
    synthesis.drain.speechFrames = synthesis.speechFrames ++
      [.text (.ttsDone (UInt64.ofNat (floorMs (samplesOf synthesis.chunks)
        (rateOf synthesis.chunks))))] := by
  obtain ⟨_, unfailed⟩ := answered_eq_false.mp unanswered
  have terminal : synthesis.drain.terminalFrames =
      [.text (.ttsDone (UInt64.ofNat (floorMs (samplesOf synthesis.chunks)
        (rateOf synthesis.chunks))))] := by
    have failed : synthesis.drain.failure = none := unfailed
    simp only [terminalFrames, failed]
    rfl
  rw [speechFrames, terminal, speechFrames,
    terminalFrames_of_unanswered unanswered, List.append_nil]
  rfl

/-! ## What arrives -/

theorem okChunks_append (first second : List (Except String AudioChunk)) :
    okChunks (first ++ second) = okChunks first ++ okChunks second :=
  List.filterMap_append

/-- What a synthesis has produced, and what has arrived of it. -/
structure Sound (synthesis : Synthesis) : Prop where
  arrived : synthesis.received <+: synthesis.produced
  ordered : (okChunks synthesis.produced).Pairwise fun earlier later =>
    earlier.sentenceIndex < later.sentenceIndex
  numbered : ∀ chunk ∈ okChunks synthesis.produced,
    chunk.sentenceIndex < synthesis.next
  complete : synthesis.drained = true →
    synthesis.received = synthesis.produced ∧
      synthesis.channel.senderDropped = true

/-- A synthesis that goes on, and whose channel has lost nothing. -/
structure Streamed (synthesis : Synthesis) : Prop where
  transit : BoundedChannel.Transit synthesis.produced synthesis.received
    synthesis.channel synthesis.unsent.toList
  positive : 0 < synthesis.channel.buffer.capacity
  unanswered : synthesis.answered = false

theorem sound_start (engine text : String) (params : SynthesisParams) :
    (Synthesis.start engine text params).Sound where
  arrived := List.prefix_refl []
  ordered := List.Pairwise.nil
  numbered := by simp [start, okChunks]
  complete := by simp [start]

theorem streamed_start (engine text : String) (params : SynthesisParams) :
    (Synthesis.start engine text params).Streamed where
  transit := BoundedChannel.Transit.start [] 4
  positive := by simp [start, BoundedChannel.withCapacity]
  unanswered := rfl

/-- A step of the task changes nothing that has been taken. -/
theorem taken_of_advance {listening : Bool} {reply : SynthesisReply}
    (advances : synthesis.advance listening reply = some after) :
    after.received = synthesis.received ∧
      after.drained = synthesis.drained := by
  obtain ⟨_, advanced⟩ := advance_eq_some advances
  cases advanced <;> exact ⟨rfl, rfl⟩

theorem Sound.advance (sound : synthesis.Sound) {listening : Bool}
    {reply : SynthesisReply}
    (advances : synthesis.advance listening reply = some after) :
    after.Sound := by
  obtain ⟨working, advanced⟩ := advance_eq_some advances
  have undrained : synthesis.drained = true → False := by
    intro drained
    rw [(sound.complete drained).2] at working
    cases working
  cases advanced with
  | sends | gives | ends =>
      exact ⟨sound.arrived, sound.ordered, sound.numbered,
        fun drained => (undrained drained).elim⟩
  | skips =>
      refine ⟨sound.arrived, sound.ordered, ?_,
        fun drained => (undrained drained).elim⟩
      intro chunk member
      exact Nat.lt_succ_of_lt (sound.numbered chunk member)
  | produces result nothing more numbered =>
      have last : ∀ chunk ∈ okChunks [result],
          chunk.sentenceIndex = synthesis.next := by
        intro chunk member
        cases result with
        | error e => cases member
        | ok made =>
            obtain rfl : chunk = made := by
              simpa [okChunks, Except.toOption] using member
            exact numbered chunk rfl
      have short : (okChunks [result]).Pairwise fun earlier later =>
          earlier.sentenceIndex < later.sentenceIndex := by
        cases result with
        | error e => exact List.Pairwise.nil
        | ok made => exact List.pairwise_singleton _ _
      refine ⟨sound.arrived.trans (List.prefix_append _ _), ?_, ?_,
        fun drained => (undrained drained).elim⟩
      · rw [okChunks_append]
        refine List.pairwise_append.mpr ⟨sound.ordered, short, ?_⟩
        intro earlier before later made
        rw [last later made]
        exact sound.numbered earlier before
      · intro chunk member
        rw [okChunks_append] at member
        rcases List.mem_append.mp member with before | made
        · exact Nat.lt_succ_of_lt (sound.numbered chunk before)
        · rw [last chunk made]
          exact Nat.lt_succ_self _

theorem Streamed.advance (streamed : synthesis.Streamed)
    {reply : SynthesisReply}
    (advances : synthesis.advance true reply = some after) :
    after.Streamed := by
  obtain ⟨received, drained⟩ := taken_of_advance advances
  have unanswered : after.answered = false := by
    rw [answered, failure, received, drained]
    exact streamed.unanswered
  obtain ⟨working, advanced⟩ := advance_eq_some advances
  have transit := streamed.transit
  cases advanced with
  | sends result channel waits isListening sent =>
      rw [waits] at transit
      refine ⟨transit.send sent, ?_, unanswered⟩
      rw [(BoundedChannel.send_eq_some sent).2.1]
      exact streamed.positive
  | gives result waits isDropped => cases isDropped
  | ends nothing =>
      rw [nothing] at transit
      exact ⟨transit.dropSender, streamed.positive, unanswered⟩
  | skips nothing more =>
      rw [nothing] at transit
      exact ⟨transit, streamed.positive, unanswered⟩
  | produces result nothing more numbered =>
      rw [nothing] at transit
      exact ⟨transit.produce working result, streamed.positive, unanswered⟩

variable {channel}

theorem Sound.take (sound : synthesis.Sound) (streamed : synthesis.Streamed)
    {result : Except String AudioChunk}
    (arrived : synthesis.channel.recv = .message result channel) :
    (synthesis.take channel result).Sound := by
  have transit := streamed.transit.recv arrived
  refine ⟨transit.received_prefix, sound.ordered, sound.numbered, ?_⟩
  intro drained
  have undrained := (answered_eq_false.mp streamed.unanswered).1
  rw [Synthesis.take, undrained] at drained
  cases drained

theorem Streamed.take (streamed : synthesis.Streamed) {chunk : AudioChunk}
    (arrived : synthesis.channel.recv = .message (.ok chunk) channel) :
    (synthesis.take channel (.ok chunk)).Streamed where
  transit := streamed.transit.recv arrived
  positive := by
    rw [Synthesis.take, (BoundedChannel.recv_eq_message arrived).2.1]
    exact streamed.positive
  unanswered := by rw [answered_take_ok, streamed.unanswered]

/-- A speech that is told to be done has been told whole. -/
theorem Sound.drain (sound : synthesis.Sound) (streamed : synthesis.Streamed)
    (ended : synthesis.channel.recv = .ended) : synthesis.drain.Sound :=
  ⟨sound.arrived, sound.ordered, sound.numbered, fun _ =>
    ⟨streamed.transit.received_eq ended,
      (BoundedChannel.recv_eq_ended ended).2⟩⟩

/-- The chunks that have arrived are in the order of the sentences. -/
theorem Sound.chunks_ordered (sound : synthesis.Sound) :
    synthesis.chunks.Pairwise fun earlier later =>
      earlier.sentenceIndex < later.sentenceIndex := by
  obtain ⟨rest, split⟩ := sound.arrived
  have ordered := sound.ordered
  rw [← split, okChunks_append] at ordered
  exact (List.pairwise_append.mp ordered).1

end Synthesis

/-! ## The frames of a session -/

namespace AudioSession

variable {session next last : AudioSession} {server : AudioServer}

/-- The frames that have been sent for a request. -/
def framesOf (session : AudioSession) (request : Nat) : List Frame :=
  (session.sent.filter fun sent => sent.owner == some request).map
    SentFrame.frame

def owners (session : AudioSession) : List Nat :=
  session.sent.filterMap SentFrame.owner

/-- The state of a session that has taken some chunks of a request. -/
def streaming (request : Nat) (chunks : List AudioChunk) : SessionState :=
  .streamingTts request (!chunks.isEmpty) (UInt64.ofNat (samplesOf chunks))
    (rateOf chunks)

structure Inv (session : AudioSession) : Prop where
  sound : ∀ synthesis ∈ session.syntheses, synthesis.Sound
  framed : ∀ request synthesis,
    session.syntheses[request]? = some synthesis →
      session.framesOf request = synthesis.speechFrames
  streamed : ∀ request, session.listening request = true →
    request + 1 = session.syntheses.length ∧
      ∃ synthesis, session.syntheses[request]? = some synthesis ∧
        synthesis.Streamed ∧
        session.state = streaming request synthesis.chunks
  sorted : session.owners.Pairwise (· ≤ ·)
  owned : ∀ owner ∈ session.owners, owner < session.syntheses.length

theorem inv_start : start.Inv where
  sound := by simp [start]
  framed := by simp [start]
  streamed := by simp [start, listening, SessionState.request?]
  sorted := by simp [start, owners]
  owned := by simp [start, owners]

theorem listening_iff {request : Nat} : session.listening request = true ↔
    session.closed = false ∧ session.state.request? = some request := by
  simp [listening]

/-! ## The frames that a step adds -/

theorem framesOf_append (owner : Option Nat) (frames : List Frame)
    (sent : next.sent =
      session.sent ++ frames.map fun frame => ⟨owner, frame⟩)
    (request : Nat) :
    next.framesOf request = session.framesOf request ++
      if owner = some request then frames else [] := by
  rw [framesOf, sent, List.filter_append, List.map_append, framesOf]
  congr 1
  by_cases same : owner = some request
  · simp [same, List.filter_map, Function.comp_def]
  · simp [same, List.filter_map, Function.comp_def]

theorem owners_append (owner : Option Nat) (frames : List Frame)
    (sent : next.sent =
      session.sent ++ frames.map fun frame => ⟨owner, frame⟩) :
    next.owners = session.owners ++
      frames.filterMap fun _ => owner := by
  rw [owners, sent, List.filterMap_append, List.filterMap_map, owners]
  rfl

theorem mem_owners_append {owner : Option Nat} {frames : List Frame}
    {other : Nat} (member : other ∈ frames.filterMap fun _ => owner) :
    owner = some other ∧ frames ≠ [] := by
  obtain ⟨frame, isFrame, same⟩ := List.mem_filterMap.mp member
  exact ⟨same, List.ne_nil_of_mem isFrame⟩

/-- Frames of the latest request can be added to any frames. -/
theorem Inv.sorted_append (inv : session.Inv) (owner : Option Nat)
    (frames : List Frame)
    (latest : ∀ request, owner = some request → frames ≠ [] →
      request + 1 = session.syntheses.length) :
    (session.owners ++ frames.filterMap fun _ => owner).Pairwise
      (· ≤ ·) := by
  refine List.pairwise_append.mpr ⟨inv.sorted, ?_, ?_⟩
  · refine List.pairwise_of_forall_mem_list ?_
    intro first isFirst second isSecond
    have same := (mem_owners_append isFirst).1.symm.trans
      (mem_owners_append isSecond).1
    exact (Option.some.inj same).le
  · intro earlier before later added
    obtain ⟨same, some⟩ := mem_owners_append added
    have bound := inv.owned earlier before
    have isLatest := latest later same some
    omega

/-- A step that adds frames to the speech of one request, and replaces its
synthesis. -/
theorem Inv.update (inv : session.Inv) {request : Nat}
    {synthesis after : Synthesis} {frames : List Frame}
    (found : session.syntheses[request]? = some synthesis)
    (syntheses : next.syntheses = session.syntheses.set request after)
    (sent : next.sent =
      session.sent ++ frames.map fun frame => ⟨some request, frame⟩)
    (sound : after.Sound)
    (framed : after.speechFrames = synthesis.speechFrames ++ frames)
    (latest : frames ≠ [] → request + 1 = session.syntheses.length)
    (streamed : ∀ other, next.listening other = true →
      other + 1 = session.syntheses.length ∧
        ∃ held, next.syntheses[other]? = some held ∧ held.Streamed ∧
          next.state = streaming other held.chunks) : next.Inv where
  sound := by
    intro other member
    rw [syntheses] at member
    rcases List.mem_or_eq_of_mem_set member with before | rfl
    · exact inv.sound other before
    · exact sound
  framed := by
    intro other held isHeld
    rw [framesOf_append (some request) frames sent]
    rw [syntheses, List.getElem?_set] at isHeld
    by_cases same : request = other
    · subst same
      have inside := (List.getElem?_eq_some_iff.mp found).1
      simp only [if_pos, inside, Option.some.injEq] at isHeld
      subst isHeld
      rw [inv.framed request synthesis found, framed, if_pos rfl]
    · rw [if_neg same] at isHeld
      rw [if_neg (fun isSame => same (Option.some.inj isSame)),
        List.append_nil]
      exact inv.framed other held isHeld
  streamed := by
    intro other listens
    rw [syntheses, List.length_set, ← syntheses]
    exact streamed other listens
  sorted := by
    rw [owners_append (some request) frames sent]
    apply inv.sorted_append
    intro other same some
    rw [← Option.some.inj same]
    exact latest some
  owned := by
    intro owner member
    rw [owners_append (some request) frames sent] at member
    rw [syntheses, List.length_set]
    rcases List.mem_append.mp member with before | added
    · exact inv.owned owner before
    · rw [← Option.some.inj (mem_owners_append added).1]
      exact (List.getElem?_eq_some_iff.mp found).1

/-- A step that answers a message of its own, or a heartbeat. -/
theorem Inv.answers (inv : session.Inv) {frames : List Frame}
    (syntheses : next.syntheses = session.syntheses)
    (sent : next.sent =
      session.sent ++ frames.map fun frame => ⟨none, frame⟩)
    (leaves : Leaves session.state next.state)
    (isOpen : session.closed = false) : next.Inv where
  sound := by
    rw [syntheses]
    exact inv.sound
  framed := by
    intro request held isHeld
    rw [framesOf_append none frames sent, if_neg (by simp), List.append_nil]
    rw [syntheses] at isHeld
    exact inv.framed request held isHeld
  streamed := by
    intro request listens
    have holds := (listening_iff.mp listens).2
    rcases leaves with same | ⟨_, none⟩ | ⟨sampleRate, gathers⟩
    · rw [same] at holds
      rw [syntheses, same]
      exact inv.streamed request (listening_iff.mpr ⟨isOpen, holds⟩)
    · rw [none] at holds
      cases holds
    · rw [gathers] at holds
      cases holds
  sorted := by
    rw [owners_append none frames sent]
    exact inv.sorted_append none frames (fun _ isSome => by cases isSome)
  owned := by
    intro owner member
    rw [owners_append none frames sent] at member
    rw [syntheses]
    rcases List.mem_append.mp member with before | added
    · exact inv.owned owner before
    · cases (mem_owners_append added).1

theorem Inv.framesOf_of_le (inv : session.Inv) {request : Nat}
    (isNew : session.syntheses.length ≤ request) :
    session.framesOf request = [] := by
  rw [framesOf, List.map_eq_nil_iff, List.filter_eq_nil_iff]
  intro sent isSent isOwner
  have owned : request ∈ session.owners :=
    List.mem_filterMap.mpr ⟨sent, isSent, by simpa using isOwner⟩
  exact absurd (inv.owned request owned) (not_lt.mpr isNew)

/-- A request is accepted: the channel that is held is dropped. -/
theorem Inv.accepts (inv : session.Inv) (engine text : String)
    (params : SynthesisParams) :
    Inv { session with
      syntheses := session.syntheses ++
        [Synthesis.start engine text params]
      state := .streamingTts session.syntheses.length false 0 24000
      closed := false } where
  sound := by
    intro other member
    rcases List.mem_append.mp member with before | added
    · exact inv.sound other before
    · rw [List.mem_singleton.mp added]
      exact Synthesis.sound_start engine text params
  framed := by
    intro request held isHeld
    rw [List.getElem?_append] at isHeld
    split at isHeld
    case isTrue => exact inv.framed request held isHeld
    case isFalse isNew =>
      obtain rfl := List.mem_singleton.mp (List.mem_of_getElem? isHeld)
      exact inv.framesOf_of_le (not_lt.mp isNew)
  streamed := by
    intro request listens
    obtain rfl : session.syntheses.length = request :=
      Option.some.inj (listening_iff.mp listens).2
    exact ⟨by simp, Synthesis.start engine text params, by simp,
      Synthesis.streamed_start engine text params, rfl⟩
  sorted := inv.sorted
  owned := by
    intro owner member
    rw [List.length_append]
    exact (inv.owned owner member).trans (Nat.lt_succ_self _)

/-- What the session holds of the request it streams. -/
theorem Inv.held (inv : session.Inv) {request : Nat} {sentMeta : Bool}
    {totalSamples : UInt64} {sampleRate : UInt32} {synthesis : Synthesis}
    (streams : session.state =
      .streamingTts request sentMeta totalSamples sampleRate)
    (found : session.syntheses[request]? = some synthesis)
    (isOpen : session.closed = false) :
    request + 1 = session.syntheses.length ∧ synthesis.Streamed ∧
      sentMeta = !synthesis.chunks.isEmpty ∧
      totalSamples = UInt64.ofNat (samplesOf synthesis.chunks) ∧
      sampleRate = rateOf synthesis.chunks := by
  have listens : session.listening request = true :=
    listening_iff.mpr ⟨isOpen, by rw [streams]; rfl⟩
  obtain ⟨isLatest, held, isHeld, streamed, state⟩ :=
    inv.streamed request listens
  obtain rfl : synthesis = held := Option.some.inj (found.symm.trans isHeld)
  rw [streams, streaming, SessionState.streamingTts.injEq] at state
  exact ⟨isLatest, streamed, state.2⟩

theorem streaming_append (request : Nat) (chunks : List AudioChunk)
    (chunk : AudioChunk) :
    streaming request (chunks ++ [chunk]) =
      .streamingTts request true
        (UInt64.ofNat (samplesOf chunks) +
          UInt64.ofNat chunk.audio.samples.length)
        (if !chunks.isEmpty then rateOf chunks
          else chunk.audio.sampleRate) := by
  have total : samplesOf (chunks ++ [chunk]) =
      samplesOf chunks + chunk.audio.samples.length := by
    simp [samplesOf]
  rw [streaming, total, UInt64.ofNat_add]
  cases chunks <;> rfl

/-- Every step keeps the invariant. -/
theorem Inv.step (inv : session.Inv) {action : AudioAction}
    (stepTo : session.step server action = some next) : next.Inv := by
  have moved := move_of_step stepTo
  clear stepTo
  cases moved with
  | answers _ _ frames isOpen syntheses sent leaves _ =>
      exact inv.answers syntheses sent leaves isOpen
  | accepts message transcription engine text params isOpen =>
      exact inv.accepts engine text params
  | chunk request sentMeta totalSamples sampleRate synthesis chunk channel
      streams found received isOpen =>
      obtain ⟨isLatest, streamed, rfl, rfl, rfl⟩ :=
        inv.held streams found isOpen
      have isSound := inv.sound synthesis (List.mem_of_getElem? found)
      refine inv.update found rfl rfl (isSound.take streamed received) ?_
        (fun _ => isLatest) ?_
      · rw [Synthesis.speechFrames_take_ok channel streamed.unanswered]
        cases synthesis.chunks <;> rfl
      · intro other listens
        obtain rfl : request = other :=
          Option.some.inj (listening_iff.mp listens).2
        refine ⟨isLatest, _, List.getElem?_set_self
          (List.getElem?_eq_some_iff.mp found).1, streamed.take received, ?_⟩
        rw [Synthesis.chunks_take_ok, streaming_append]
  | fails request sentMeta totalSamples sampleRate synthesis error channel
      streams found received isOpen =>
      obtain ⟨isLatest, streamed, _⟩ := inv.held streams found isOpen
      have isSound := inv.sound synthesis (List.mem_of_getElem? found)
      refine inv.update found rfl rfl (isSound.take streamed received)
        (Synthesis.speechFrames_take_error channel streamed.unanswered error)
        (fun _ => isLatest) ?_
      intro other listens
      cases (listening_iff.mp listens).2
  | ends request sentMeta totalSamples sampleRate synthesis streams found
      ended isOpen =>
      obtain ⟨isLatest, streamed, _, rfl, rfl⟩ :=
        inv.held streams found isOpen
      have isSound := inv.sound synthesis (List.mem_of_getElem? found)
      refine inv.update found rfl rfl (isSound.drain streamed ended) ?_
        (fun _ => isLatest) ?_
      · rw [Synthesis.speechFrames_drain streamed.unanswered,
          durationMs_ofNat]
      · intro other listens
        cases (listening_iff.mp listens).2
  | works request reply synthesis after found advances =>
      obtain ⟨received, drained⟩ := Synthesis.taken_of_advance advances
      have isSound := inv.sound synthesis (List.mem_of_getElem? found)
      have silent : session.sent = session.sent ++
          ([] : List Frame).map fun frame => ⟨some request, frame⟩ := by
        simp
      refine inv.update found rfl silent
        (isSound.advance advances) ?_ (fun some => absurd rfl some) ?_
      · rw [Synthesis.speechFrames_congr received drained, List.append_nil]
      · intro other listens
        obtain ⟨isLatest, held, isHeld, streamed, state⟩ :=
          inv.streamed other listens
        refine ⟨isLatest, ?_⟩
        by_cases same : request = other
        · subst same
          obtain rfl : synthesis = held :=
            Option.some.inj (found.symm.trans isHeld)
          have isListening : session.listening request = true := listens
          rw [isListening] at advances
          refine ⟨after, List.getElem?_set_self
            (List.getElem?_eq_some_iff.mp found).1,
            streamed.advance advances, ?_⟩
          rw [Synthesis.chunks, received]
          exact state
        · exact ⟨held, by rw [List.getElem?_set_ne same]; exact isHeld,
            streamed, state⟩

theorem inv_of_run {actions : List AudioAction}
    (reaches : run (AudioSession.step server) start actions = some last) :
    last.Inv :=
  invariant_of_run_eq_some (fun _ _ _ inv stepTo => inv.step stepTo)
    inv_start reaches

/-! ## Requests that are no longer held -/

theorem request_of_streams {request other : Nat} {sentMeta : Bool}
    {totalSamples : UInt64} {sampleRate : UInt32}
    (streams : session.state =
      .streamingTts other sentMeta totalSamples sampleRate)
    (isOpen : session.closed = false) :
    session.listening request = true ↔ other = request := by
  rw [listening_iff, streams]
  simp [isOpen, SessionState.request?]

theorem Leaves.held {before after : SessionState} {request : Nat}
    (leaves : Leaves before after)
    (holds : after.request? = some request) : after = before := by
  rcases leaves with same | ⟨_, none⟩ | ⟨sampleRate, rfl⟩
  · exact same
  · rw [none] at holds
    cases holds
  · cases holds

/-- A request is held from its acceptance on, or not at all. -/
theorem listening_of_step {action : AudioAction} {request : Nat}
    (stepTo : session.step server action = some next)
    (listens : next.listening request = true) :
    session.listening request = true ∨
      request = session.syntheses.length := by
  have moved := move_of_step stepTo
  clear stepTo
  cases moved with
  | answers _ _ frames isOpen syntheses sent leaves _ =>
      have holds := (listening_iff.mp listens).2
      rw [leaves.held holds] at holds
      exact Or.inl (listening_iff.mpr ⟨isOpen, holds⟩)
  | accepts =>
      exact Or.inr (Option.some.inj (listening_iff.mp listens).2).symm
  | chunk other _ _ _ _ _ _ streams _ _ isOpen =>
      exact Or.inl ((request_of_streams streams isOpen).mpr
        (Option.some.inj (listening_iff.mp listens).2))
  | fails => cases (listening_iff.mp listens).2
  | ends => cases (listening_iff.mp listens).2
  | works => exact Or.inl listens

theorem framesOf_of_step {action : AudioAction} {request : Nat}
    (stepTo : session.step server action = some next)
    (silent : session.listening request = false) :
    next.framesOf request = session.framesOf request := by
  have moved := move_of_step stepTo
  clear stepTo
  have other : ∀ {streamed : Nat} {frames : List Frame},
      (session.listening request = true ↔ streamed = request) →
      next.sent = session.sent ++ frames.map (fun frame =>
        ⟨some streamed, frame⟩) →
      next.framesOf request = session.framesOf request := by
    intro streamed frames holds sent
    rw [framesOf_append (some streamed) frames sent, if_neg,
      List.append_nil]
    intro same
    rw [holds.mpr (Option.some.inj same)] at silent
    cases silent
  cases moved with
  | answers _ _ frames isOpen syntheses sent leaves _ =>
      rw [framesOf_append none frames sent, if_neg (by simp),
        List.append_nil]
  | accepts => rfl
  | chunk _ _ _ _ _ _ _ streams _ _ isOpen =>
      exact other (request_of_streams streams isOpen) rfl
  | fails _ _ _ _ _ _ _ streams _ _ isOpen =>
      exact other (request_of_streams streams isOpen) rfl
  | ends _ _ _ _ _ streams _ _ isOpen =>
      exact other (request_of_streams streams isOpen) rfl
  | works => rfl

theorem length_of_step {action : AudioAction}
    (stepTo : session.step server action = some next) :
    session.syntheses.length ≤ next.syntheses.length := by
  have moved := move_of_step stepTo
  clear stepTo
  cases moved with
  | answers _ _ frames isOpen syntheses sent leaves _ => rw [syntheses]
  | accepts => simp
  | chunk | fails | ends | works => simp

/-- A request whose channel has been dropped gets no further frame. -/
theorem framesOf_of_run {actions : List AudioAction} {request : Nat}
    (reaches : run (AudioSession.step server) session actions = some last)
    (accepted : request < session.syntheses.length)
    (silent : session.listening request = false) :
    last.framesOf request = session.framesOf request := by
  induction actions generalizing session with
  | nil =>
      simp only [run_nil, Option.some.injEq] at reaches
      rw [reaches]
  | cons action actions ih =>
      obtain ⟨next, stepTo, rest⟩ := run_cons_eq_some reaches
      have still : next.listening request = false := by
        by_contra listens
        rw [Bool.not_eq_false] at listens
        rcases listening_of_step stepTo listens with before | isNew
        · rw [silent] at before
          cases before
        · exact absurd isNew accepted.ne
      rw [ih rest (accepted.trans_le (length_of_step stepTo)) still,
        framesOf_of_step stepTo silent]

/-- The receiver of the request has seen its end or its error. -/
def answered (session : AudioSession) (request : Nat) : Bool :=
  (session.syntheses[request]?).any Synthesis.answered

theorem answered_of_found {request : Nat} {synthesis : Synthesis}
    (found : session.syntheses[request]? = some synthesis) :
    session.answered request = synthesis.answered := by
  rw [answered, found]
  rfl

theorem answered_set {request : Nat} {synthesis after : Synthesis}
    (found : session.syntheses[request]? = some synthesis)
    (syntheses : next.syntheses = session.syntheses.set request after) :
    next.answered request = after.answered := by
  apply answered_of_found
  rw [syntheses]
  exact List.getElem?_set_self (List.getElem?_eq_some_iff.mp found).1

/-- The client has ended the session, or has asked for something else. -/
def Replaces (session next : AudioSession) : Prop :=
  next.closed = true ∨
    session.syntheses.length < next.syntheses.length ∨
    ∃ sampleRate, next.state = .accumulatingStt [] sampleRate

/-- A request is answered, unless a message of the client replaces it. -/
theorem replaces_of_step {action : AudioAction} {request : Nat}
    (stepTo : session.step server action = some next) (inv : session.Inv)
    (listens : session.listening request = true)
    (left : next.listening request = false)
    (unanswered : next.answered request = false) :
    (∃ message transcription, action = .receive message transcription) ∧
      Replaces session next := by
  have moved := move_of_step stepTo
  clear stepTo
  have holds := (listening_iff.mp listens).2
  cases moved with
  | answers _ _ frames isOpen syntheses sent leaves received =>
      rcases received with isReceive | ⟨_, same, stays⟩
      · refine ⟨isReceive, ?_⟩
        rcases leaves with same | ⟨none, _⟩ | gathers
        · left
          by_contra isOpen
          rw [Bool.not_eq_true] at isOpen
          rw [← same] at holds
          rw [listening_iff.mpr ⟨isOpen, holds⟩] at left
          cases left
        · rw [none] at holds
          cases holds
        · exact Or.inr (Or.inr gathers)
      · rw [← same] at holds
        rw [listening_iff.mpr ⟨stays, holds⟩] at left
        cases left
  | accepts message transcription =>
      exact ⟨⟨message, transcription, rfl⟩, Or.inr (Or.inl (by simp))⟩
  | chunk other _ _ _ _ _ _ streams _ _ isOpen =>
      have same := (request_of_streams streams isOpen).mp listens
      simp [listening, send, SessionState.request?, isOpen, same] at left
  | fails other _ _ _ synthesis error channel streams found _ isOpen =>
      obtain rfl := (request_of_streams streams isOpen).mp listens
      have unfailed := (Synthesis.answered_eq_false.mp
        (inv.held streams found isOpen).2.1.unanswered).2
      rw [answered_set found rfl, Synthesis.answered,
        Synthesis.failure_take_error channel unfailed] at unanswered
      simp at unanswered
  | ends other _ _ _ synthesis streams found _ isOpen =>
      obtain rfl := (request_of_streams streams isOpen).mp listens
      rw [answered_set found rfl] at unanswered
      simp [Synthesis.answered, Synthesis.drain] at unanswered
  | works =>
      have still : session.listening request = false := left
      rw [listens] at still
      cases still

end AudioSession

/-! ## The end of a speech -/

namespace Synthesis

variable {synthesis after : Synthesis}
  {channel : BoundedChannel (Except String AudioChunk)}

/-- A bound on the steps that the task and its receiver have left. -/
def remaining (synthesis : Synthesis) : Nat :=
  3 * (synthesis.sentences.length - synthesis.next) +
    2 * synthesis.unsent.toList.length +
    synthesis.channel.buffer.items.length +
    (if synthesis.channel.senderDropped then 0 else 1) +
    (if synthesis.answered then 0 else 1)

theorem remaining_advance {listening : Bool} {reply : SynthesisReply}
    (advances : synthesis.advance listening reply = some after) :
    after.remaining < synthesis.remaining := by
  obtain ⟨received, drained⟩ := taken_of_advance advances
  have answered : after.answered = synthesis.answered := by
    rw [answered, failure, received, drained]
    rfl
  obtain ⟨working, advanced⟩ := advance_eq_some advances
  rw [remaining, remaining, answered]
  cases advanced with
  | sends result channel waits isListening sent =>
      obtain ⟨items, _, senderDropped⟩ := BoundedChannel.send_eq_some sent
      simp [waits, items, senderDropped]
      omega
  | gives result waits isDropped =>
      simp [waits, BoundedChannel.dropSender]
      omega
  | ends nothing =>
      simp [nothing, working, BoundedChannel.dropSender]
  | skips nothing more =>
      simp [nothing]
      omega
  | produces result nothing more numbered =>
      simp [nothing]
      omega

theorem remaining_take {result : Except String AudioChunk}
    (unanswered : synthesis.answered = false)
    (arrived : synthesis.channel.recv = .message result channel) :
    (synthesis.take channel result).remaining < synthesis.remaining := by
  obtain ⟨items, _, senderDropped⟩ :=
    BoundedChannel.recv_eq_message arrived
  have fewer : channel.buffer.items.length <
      synthesis.channel.buffer.items.length := by
    simp [items]
  have last : (if (synthesis.take channel result).answered = true
      then 0 else 1) ≤ 1 := by
    split <;> omega
  rw [remaining, remaining, unanswered]
  simp only [take, senderDropped] at last ⊢
  simp only [Bool.false_eq_true, if_false]
  omega

theorem remaining_drain (unanswered : synthesis.answered = false) :
    synthesis.drain.remaining < synthesis.remaining := by
  have isAnswered : synthesis.drain.answered = true := by
    simp [answered, drain]
  simp only [remaining, unanswered, isAnswered, if_true, Bool.false_eq_true,
    if_false]
  exact Nat.lt_succ_self _

end Synthesis

namespace AudioSession

variable {session next last : AudioSession} {server : AudioServer}

/-- The session takes from the channel, or the task of a request goes on. -/
def work (server : AudioServer) (request : Nat) (session : AudioSession) :
    Option SynthesisReply → Option AudioSession
  | none => session.step server .takeChunk
  | some reply => session.step server (.synthesize request reply)

def remaining (session : AudioSession) (request : Nat) : Nat :=
  ((session.syntheses[request]?).map Synthesis.remaining).getD 0

/-- A request that is being streamed, or has been answered last. -/
structure Working (request : Nat) (session : AudioSession) : Prop where
  inv : session.Inv
  held : session.listening request = true ∨
    session.answered request = true ∧ session.state.request? = none

theorem remaining_of_found {request : Nat} {synthesis : Synthesis}
    (found : session.syntheses[request]? = some synthesis) :
    session.remaining request = synthesis.remaining := by
  rw [remaining, found]
  rfl

theorem remaining_set {request : Nat} {synthesis after : Synthesis}
    (found : session.syntheses[request]? = some synthesis)
    (syntheses : next.syntheses = session.syntheses.set request after) :
    next.remaining request = after.remaining := by
  apply remaining_of_found
  rw [syntheses]
  exact List.getElem?_set_self (List.getElem?_eq_some_iff.mp found).1

theorem Working.request_of_streams {request other : Nat} {sentMeta : Bool}
    {totalSamples : UInt64} {sampleRate : UInt32}
    (working : Working request session)
    (streams : session.state =
      .streamingTts other sentMeta totalSamples sampleRate)
    (isOpen : session.closed = false) : other = request := by
  rcases working.held with listens | ⟨_, idle⟩
  · exact (AudioSession.request_of_streams streams isOpen).mp listens
  · rw [streams] at idle
    cases idle

/-- The steps of a request make progress towards its end. -/
theorem Working.step {request : Nat} {reply : Option SynthesisReply}
    (working : Working request session)
    (stepTo : session.work server request reply = some next) :
    Working request next ∧
      next.remaining request < session.remaining request := by
  have inv := working.inv
  cases reply with
  | none =>
      change session.step server .takeChunk = some next at stepTo
      have nextInv : next.Inv := inv.step stepTo
      have moved := move_of_step stepTo
      clear stepTo
      cases moved with
      | answers _ _ _ _ _ _ _ received =>
          rcases received with ⟨_, _, isReceive⟩ | ⟨isHeartbeat, _⟩
          · cases isReceive
          · cases isHeartbeat
      | chunk other _ _ _ synthesis chunk channel streams found arrived
          isOpen =>
          obtain rfl := working.request_of_streams streams isOpen
          have unanswered := (inv.held streams found isOpen).2.1.unanswered
          refine ⟨⟨nextInv, Or.inl (listening_iff.mpr ⟨isOpen, rfl⟩)⟩, ?_⟩
          rw [remaining_set found rfl, remaining_of_found found]
          exact Synthesis.remaining_take unanswered arrived
      | fails other _ _ _ synthesis error channel streams found arrived
          isOpen =>
          obtain rfl := working.request_of_streams streams isOpen
          have unanswered := (inv.held streams found isOpen).2.1.unanswered
          refine ⟨⟨nextInv, Or.inr ⟨?_, rfl⟩⟩, ?_⟩
          · rw [answered_set found rfl, Synthesis.answered,
              Synthesis.failure_take_error channel
                (Synthesis.answered_eq_false.mp unanswered).2]
            simp
          · rw [remaining_set found rfl, remaining_of_found found]
            exact Synthesis.remaining_take unanswered arrived
      | ends other _ _ _ synthesis streams found ended isOpen =>
          obtain rfl := working.request_of_streams streams isOpen
          have unanswered := (inv.held streams found isOpen).2.1.unanswered
          refine ⟨⟨nextInv, Or.inr ⟨?_, rfl⟩⟩, ?_⟩
          · rw [answered_set found rfl]
            simp [Synthesis.answered, Synthesis.drain]
          · rw [remaining_set found rfl, remaining_of_found found]
            exact Synthesis.remaining_drain unanswered
  | some reply =>
      change session.step server (.synthesize request reply) = some next
        at stepTo
      have nextInv : next.Inv := inv.step stepTo
      have moved := move_of_step stepTo
      clear stepTo
      cases moved with
      | answers _ _ _ _ _ _ _ received =>
          rcases received with ⟨_, _, isReceive⟩ | ⟨isHeartbeat, _⟩
          · cases isReceive
          · cases isHeartbeat
      | works _ _ synthesis after found advances =>
          refine ⟨⟨nextInv, ?_⟩, ?_⟩
          · rcases working.held with listens | ⟨isAnswered, idle⟩
            · exact Or.inl listens
            · refine Or.inr ⟨?_, idle⟩
              obtain ⟨received, drained⟩ :=
                Synthesis.taken_of_advance advances
              rw [answered_of_found found] at isAnswered
              rw [answered_set found rfl, Synthesis.answered,
                Synthesis.failure, received, drained]
              exact isAnswered
          · rw [remaining_set found rfl, remaining_of_found found]
            exact Synthesis.remaining_advance advances

/-- A request that is being streamed can always go on. -/
theorem Inv.isSome_work (inv : session.Inv) {request : Nat}
    (listens : session.listening request = true) :
    ∃ reply next, session.work server request reply = some next := by
  obtain ⟨_, synthesis, found, streamed, state⟩ :=
    inv.streamed request listens
  obtain ⟨isOpen, _⟩ := listening_iff.mp listens
  have streams : session.state = .streamingTts request
      (!synthesis.chunks.isEmpty) (UInt64.ofNat (samplesOf synthesis.chunks))
      (rateOf synthesis.chunks) := state
  cases received : synthesis.channel.recv with
  | message result channel =>
      refine ⟨none, ?_⟩
      cases result <;>
        simp [work, AudioSession.step, isOpen, takeChunk, streams, found,
          received]
  | ended =>
      refine ⟨none, ?_⟩
      simp [work, AudioSession.step, isOpen, takeChunk, streams, found,
        received]
  | waiting =>
      refine ⟨some .panicked, ?_⟩
      obtain ⟨noItems, working⟩ := BoundedChannel.recv_eq_waiting received
      have room : synthesis.channel.buffer.items.length <
          synthesis.channel.buffer.capacity := by
        rw [noItems]
        exact streamed.positive
      have goesOn : (synthesis.advance (session.listening request)
          .panicked).isSome = true :=
        Synthesis.isSome_advance working room .panicked
      obtain ⟨after, advances⟩ := Option.isSome_iff_exists.mp goesOn
      exact ⟨{ session with
        syntheses := session.syntheses.set request after },
        by simp [work, AudioSession.step, found, advances]⟩

theorem Working.isSome_work {request : Nat}
    (working : Working request session)
    (unanswered : session.answered request = false) :
    ∃ reply next, session.work server request reply = some next := by
  rcases working.held with listens | ⟨isAnswered, _⟩
  · exact working.inv.isSome_work listens
  · rw [unanswered] at isAnswered
    cases isAnswered

/-! ## The protocol -/

/-- What a client is promised of the speech it has asked for, in a state that a
session has reached. -/
structure SpeechProtocol (server : AudioServer) (session : AudioSession) :
    Prop where
  framed : ∀ request synthesis,
    session.syntheses[request]? = some synthesis →
      session.framesOf request = synthesis.speechFrames
  inOrder : ∀ synthesis ∈ session.syntheses,
    synthesis.received <+: synthesis.produced ∧
      synthesis.chunks.Pairwise fun earlier later =>
        earlier.sentenceIndex < later.sentenceIndex
  whole : ∀ synthesis ∈ session.syntheses, synthesis.drained = true →
    synthesis.received = synthesis.produced
  /-- One terminal frame for a request that is answered, and none before. -/
  answeredOnce : ∀ request < session.syntheses.length,
    (session.framesOf request).countP Frame.isTerminal =
      if session.answered request then 1 else 0
  /-- Frames of two requests are never interleaved. -/
  separate : session.owners.Pairwise (· ≤ ·)
  accepted : ∀ action next, session.step server action = some next →
    session.syntheses.length < next.syntheses.length →
      next.listening session.syntheses.length = true
  /-- Nothing is sent for a request whose channel has been dropped. -/
  silent : ∀ request < session.syntheses.length,
    session.listening request = false → ∀ actions last,
      run (AudioSession.step server) session actions = some last →
        last.framesOf request = session.framesOf request
  /-- Nothing but a message of the client drops a channel before its end. -/
  abandoned : ∀ request action next,
    session.step server action = some next →
      session.listening request = true → next.listening request = false →
        next.answered request = false →
          (∃ message transcription,
            action = .receive message transcription) ∧
              Replaces session next
  /-- Without such a message the request is answered, however the session and
  the task of the request take turns. -/
  finishes : ∀ request, session.listening request = true →
    ∃ bound, ∀ replies last,
      run (work server request) session replies = some last →
        replies.length ≤ bound ∧ (last.answered request = true ∨
          ∃ reply next, last.work server request reply = some next)

theorem listening_of_accepts {action : AudioAction}
    (stepTo : session.step server action = some next)
    (longer : session.syntheses.length < next.syntheses.length) :
    next.listening session.syntheses.length = true := by
  have moved := move_of_step stepTo
  clear stepTo
  cases moved with
  | answers _ _ _ _ syntheses =>
      rw [syntheses] at longer
      exact absurd longer (lt_irrefl _)
  | accepts => exact listening_iff.mpr ⟨rfl, rfl⟩
  | chunk | fails | ends | works => simp at longer

theorem Inv.speechProtocol (inv : session.Inv) :
    SpeechProtocol server session where
  framed := inv.framed
  inOrder synthesis member :=
    ⟨(inv.sound synthesis member).arrived,
      (inv.sound synthesis member).chunks_ordered⟩
  whole synthesis member drained :=
    ((inv.sound synthesis member).complete drained).1
  answeredOnce request accepted := by
    have found := List.getElem?_eq_getElem accepted
    rw [inv.framed request _ found, answered_of_found found,
      Synthesis.countP_speechFrames]
  separate := inv.sorted
  accepted _ _ stepTo longer := listening_of_accepts stepTo longer
  silent _ accepted silent _ _ reaches :=
    framesOf_of_run reaches accepted silent
  abandoned _ _ _ stepTo listens left unanswered :=
    replaces_of_step stepTo inv listens left unanswered
  finishes request listens := by
    have working : Working request session := ⟨inv, Or.inl listens⟩
    refine ⟨session.remaining request, fun replies last reaches => ⟨?_, ?_⟩⟩
    · exact length_le_measure (fun session => session.remaining request)
        (fun _ _ _ working stepTo => (working.step stepTo).1)
        (fun _ _ _ working stepTo => (working.step stepTo).2)
        working reaches
    · have lastWorking : Working request last :=
        invariant_of_run_eq_some
          (fun _ _ _ working stepTo => (working.step stepTo).1)
          working reaches
      cases unanswered : last.answered request with
      | true => exact Or.inl rfl
      | false => exact Or.inr (lastWorking.isSome_work unanswered)

/-- Whatever a client sends, and however its messages are interleaved with the
results of the syntheses, its session keeps to the protocol. -/
theorem speechProtocol_of_run {actions : List AudioAction}
    (reaches : run (AudioSession.step server) start actions = some last) :
    SpeechProtocol server last :=
  (inv_of_run reaches).speechProtocol

/-- A server with one engine, to which every text message is a request. -/
def oneEngine : AudioServer where
  parse text := .ok (.tts text none 1)
  manager := ⟨["kokoro"], "kokoro"⟩

/-- A request of which one chunk has been sent is replaced by another, whose
speech ends. -/
def replacingRun : List AudioAction :=
  [.receive (.text "Good morning.") (.error ""),
    .synthesize 0 (.result (.ok ⟨[0], 24000⟩)),
    .synthesize 0 .panicked,
    .takeChunk,
    .receive (.text "Good night.") (.error ""),
    .synthesize 0 .panicked,
    .synthesize 1 .panicked,
    .takeChunk,
    .receive .close (.error "")]

theorem replacingRun_speechProtocol :
    ∃ last, run (AudioSession.step oneEngine) start replacingRun = some last ∧
      SpeechProtocol oneEngine last := by
  obtain ⟨last, reaches⟩ : ∃ last, run (AudioSession.step oneEngine) start
      replacingRun = some last := ⟨_, rfl⟩
  exact ⟨last, reaches, speechProtocol_of_run reaches⟩

/-- A request that has been replaced is never answered. -/
theorem replaced_request_unanswered :
    ∃ last, run (AudioSession.step oneEngine) start replacingRun = some last ∧
      last.syntheses.length = 2 ∧ last.closed = true ∧
      (last.framesOf 0).length = 2 ∧
      ∀ actions after,
        run (AudioSession.step oneEngine) last actions = some after →
          (after.framesOf 0).countP Frame.isTerminal = 0 := by
  refine ⟨_, rfl, rfl, rfl, rfl, ?_⟩
  intro actions after reaches
  rw [framesOf_of_run reaches (by decide) rfl]
  rfl

end AudioSession

end TorchInference
