import TorchInference.KokoroEngine
import TorchInference.TransitionRuns

/-!
# Streamed speech and the end of its channel

The receiver of a synthesis takes the end of the channel for its completion,
and a task that panics drops its sender.  What arrives before the end is
therefore complete exactly when no call of the engine panics.  The outcomes of
the sessions are part of the environment, one for each sentence.
-/

namespace TorchInference

open TransitionRuns BoundedChannel

/-! ## Sentences are not empty -/

theorem ne_empty_of_mem_keepSentence {text : List Char} {sentence : String}
    (member : sentence ∈ keepSentence text) : sentence.isEmpty = false := by
  unfold keepSentence at member
  split at member
  case isTrue => cases member
  case isFalse nonempty =>
    obtain rfl := List.mem_singleton.mp member
    simpa using nonempty

theorem ne_empty_of_mem_splitFrom {maxChars : Nat} {skips : Bool}
    {current text : List Char} {sentence : String}
    (member : sentence ∈ splitFrom maxChars skips current text) :
    sentence.isEmpty = false := by
  obtain ⟨part, kept⟩ := mem_keepSentence_of_mem_splitFrom member
  exact ne_empty_of_mem_keepSentence kept

theorem ne_empty_of_mem_splitSentences {maxChars : Nat} {text : String}
    {sentence : String} (member : sentence ∈ splitSentences maxChars text) :
    sentence.isEmpty = false :=
  ne_empty_of_mem_splitFrom member

/-! ## The body of `/tts/stream` -/

/-- `to_pcm16_le`. -/
def AudioChunk.toPcm16Le (chunk : AudioChunk) : List UInt8 :=
  chunk.audio.samples.flatMap fun sample =>
    let pcm := (KokoroOnnxEngine.clampSample sample * 32767).toInt16.toUInt16
    [pcm.toUInt8, (pcm >>> 8).toUInt8]

/-- The items of the body, when every chunk arrives within its timeout.  The
stream drops the receiver after an error. -/
def responseBody :
    List (Except String AudioChunk) → List (Except String (List UInt8))
  | [] => []
  | .ok chunk :: rest => .ok chunk.toPcm16Le :: responseBody rest
  | .error message :: _ => [.error message]

/-- A body without an error comes from chunks only. -/
theorem exists_chunks_of_responseBody {items : List (Except String AudioChunk)}
    (clean : ∀ part ∈ responseBody items, part.isOk = true) :
    ∃ chunks : List AudioChunk, items.map Except.toOption = chunks.map some ∧
      responseBody items = chunks.map fun chunk => .ok chunk.toPcm16Le := by
  induction items with
  | nil => exact ⟨[], rfl, rfl⟩
  | cons item items ih =>
      cases item with
      | error message => cases clean (.error message) (by simp [responseBody])
      | ok chunk =>
          obtain ⟨chunks, received, body⟩ := ih fun part member =>
            clean part (by simp [responseBody, member])
          refine ⟨chunk :: chunks, ?_, ?_⟩
          · simp [received, Except.toOption]
          · simp [responseBody, body]

/-! ## What a synthesis sends -/

namespace KokoroStream

/-- What the session of each sentence comes to. -/
abbrev Outcomes := Nat → Except String (List Float32)

section

variable (engine : KokoroOnnxEngine) (outcomes : Outcomes) (count : Nat)

/-- The chunk of a sentence, one of `count`. -/
def chunkAt (index : Nat) (audio : AudioData) : AudioChunk :=
  ⟨index, index == count - 1, audio⟩

/-- What the task sends from a sentence on. -/
def itemsFrom : Nat → List String → List (Except String AudioChunk)
  | _, [] => []
  | index, sentence :: rest =>
      if sentence.isEmpty then itemsFrom (index + 1) rest
      else
        match engine.synthesize sentence (outcomes index) with
        | .panicked => []
        | .result audio =>
            audio.map (chunkAt count index) :: itemsFrom (index + 1) rest

/-- One item for every sentence: its chunk, or nothing for an error. -/
def expectedFrom : Nat → List String → List (Option AudioChunk)
  | _, [] => []
  | index, sentence :: rest =>
      (engine.audioOf sentence (outcomes index)).map (chunkAt count index) ::
        expectedFrom (index + 1) rest

end

variable {engine : KokoroOnnxEngine} {outcomes : Outcomes} {count : Nat}

theorem toOption_map_chunkAt (index : Nat) (audio : Except String AudioData) :
    (audio.map (chunkAt count index)).toOption =
      audio.toOption.map (chunkAt count index) := by
  cases audio <;> rfl

/-- No session fails for a sentence whose error cannot be reported. -/
def ErrorsQuoteWholeCharacters (outcomes : Outcomes) (first : Nat)
    (sentences : List String) : Prop :=
  ∀ index sentence, sentences[index]? = some sentence →
    KokoroOnnxEngine.SessionFails sentence (outcomes (first + index)) →
      QuotesWholeCharacters sentence

theorem errorsQuoteWholeCharacters_cons {first : Nat} {sentence : String}
    {rest : List String} :
    ErrorsQuoteWholeCharacters outcomes first (sentence :: rest) ↔
      (KokoroOnnxEngine.SessionFails sentence (outcomes first) →
        QuotesWholeCharacters sentence) ∧
      ErrorsQuoteWholeCharacters outcomes (first + 1) rest := by
  constructor
  · intro quotes
    refine ⟨quotes 0 sentence rfl, fun index later found fails => ?_⟩
    refine quotes (index + 1) later (by simpa using found) ?_
    rwa [← Nat.add_assoc, Nat.add_right_comm]
  · rintro ⟨here, later⟩ index sentence' found fails
    cases index with
    | zero =>
        obtain rfl : sentence = sentence' := by simpa using found
        exact here fails
    | succ index =>
        refine later index sentence' (by simpa using found) ?_
        rwa [Nat.add_right_comm, Nat.add_assoc]

/-- What is sent is one item for every sentence, exactly if no error quotes
half a character. -/
theorem itemsFrom_eq_expected_iff {first : Nat} {sentences : List String}
    (nonempty : ∀ sentence ∈ sentences, sentence.isEmpty = false) :
    (itemsFrom engine outcomes count first sentences).map Except.toOption =
        expectedFrom engine outcomes count first sentences ↔
      ErrorsQuoteWholeCharacters outcomes first sentences := by
  induction sentences generalizing first with
  | nil => simp [itemsFrom, expectedFrom, ErrorsQuoteWholeCharacters]
  | cons sentence rest ih =>
      have restNonempty : ∀ later ∈ rest, later.isEmpty = false :=
        fun later member => nonempty later (List.mem_cons_of_mem _ member)
      have isNonempty := nonempty sentence List.mem_cons_self
      rw [errorsQuoteWholeCharacters_cons, ← ih restNonempty]
      cases replies : engine.synthesize sentence (outcomes first) with
      | panicked =>
          have unquoted :=
            KokoroOnnxEngine.synthesize_eq_panicked.mp replies
          simp only [itemsFrom, isNonempty, Bool.false_eq_true, if_false,
            replies, expectedFrom, List.map_nil, reduceCtorEq, false_iff]
          exact fun quotes => unquoted.2 (quotes.1 unquoted.1)
      | result audio =>
          have quotes : KokoroOnnxEngine.SessionFails sentence
              (outcomes first) → QuotesWholeCharacters sentence := by
            intro fails
            by_contra unquoted
            rw [KokoroOnnxEngine.synthesize_eq_panicked.mpr
              ⟨fails, unquoted⟩] at replies
            cases replies
          have same := KokoroOnnxEngine.toOption_of_synthesize replies
          simp only [itemsFrom, isNonempty, Bool.false_eq_true, if_false,
            replies, expectedFrom, List.map_cons, toOption_map_chunkAt, same,
            List.cons.injEq, true_and]
          exact ⟨fun later => ⟨quotes, later⟩, And.right⟩

/-- What is sent from a sentence on that is not empty. -/
theorem itemsFrom_of_getElem? {index : Nat} {sentences : List String}
    {sentence : String} (found : sentences[index]? = some sentence) :
    itemsFrom engine outcomes count index (sentences.drop index) =
      if sentence.isEmpty then
        itemsFrom engine outcomes count (index + 1) (sentences.drop (index + 1))
      else
        match engine.synthesize sentence (outcomes index) with
        | .panicked => []
        | .result audio =>
            audio.map (chunkAt count index) ::
              itemsFrom engine outcomes count (index + 1)
                (sentences.drop (index + 1)) := by
  obtain ⟨inside, rfl⟩ := List.getElem?_eq_some_iff.mp found
  rw [List.drop_eq_getElem_cons inside]
  rfl

/-! ## Runs -/

inductive Action where
  /-- The task takes its next step. -/
  | work
  | receive
  deriving DecidableEq

/-- What the engine replies for the next sentence. -/
def replyOf (engine : KokoroOnnxEngine) (outcomes : Outcomes)
    (synthesis : Synthesis) : SynthesisReply :=
  match synthesis.sentences[synthesis.next]? with
  | some sentence =>
      engine.synthesize sentence (outcomes synthesis.next)
  | none => .panicked

/-- The receiver reads until it sees the end. -/
def step (engine : KokoroOnnxEngine) (outcomes : Outcomes)
    (synthesis : Synthesis) : Action → Option Synthesis
  | .work => synthesis.advance true (replyOf engine outcomes synthesis)
  | .receive =>
      if synthesis.drained then none
      else
        match synthesis.channel.recv with
        | .message item channel => some (synthesis.take channel item)
        | .ended => some synthesis.drain
        | .waiting => none

/-- What the task has still to send. -/
def pending (engine : KokoroOnnxEngine) (outcomes : Outcomes)
    (synthesis : Synthesis) : List (Except String AudioChunk) :=
  if synthesis.channel.senderDropped then []
  else synthesis.unsent.toList ++
    itemsFrom engine outcomes synthesis.sentences.length synthesis.next
      (synthesis.sentences.drop synthesis.next)

/-- Everything the task sends is in transit until the receiver has it. -/
structure Inv (engine : KokoroOnnxEngine) (outcomes : Outcomes)
    (sentences : List String) (synthesis : Synthesis) : Prop where
  sameSentences : synthesis.sentences = sentences
  arriving : Transit
    (itemsFrom engine outcomes sentences.length 0 sentences)
    synthesis.received synthesis.channel (pending engine outcomes synthesis)
  capacity : synthesis.channel.buffer.capacity = 4
  complete : synthesis.drained = true → synthesis.received =
    itemsFrom engine outcomes sentences.length 0 sentences

variable {sentences : List String} {synthesis after : Synthesis}

theorem inv_start (engine : KokoroOnnxEngine) (outcomes : Outcomes)
    (name text : String) (params : SynthesisParams) :
    Inv engine outcomes (splitSentences 200 text)
      (Synthesis.start name text params) where
  sameSentences := rfl
  arriving := Transit.start _ 4
  capacity := rfl
  complete drained := by cases drained

theorem Inv.work (inv : Inv engine outcomes sentences synthesis)
    (advances : synthesis.advance true (replyOf engine outcomes synthesis) =
      some after) :
    Inv engine outcomes sentences after := by
  have working : synthesis.channel.senderDropped = false :=
    (Synthesis.advance_eq_some advances).1
  obtain ⟨rfl, arriving, capacity, complete⟩ := inv
  simp only [pending, working, Bool.false_eq_true, if_false] at arriving
  unfold Synthesis.advance at advances
  simp only [working, Bool.false_eq_true, if_false, if_true] at advances
  cases waits : synthesis.unsent with
  | some item =>
      simp only [waits, Option.map_eq_some_iff] at advances
      obtain ⟨channel, sent, rfl⟩ := advances
      have kept := send_eq_some sent
      refine ⟨rfl, ?_, kept.2.1.trans capacity, complete⟩
      simp only [waits, Option.toList_some, List.singleton_append] at arriving
      simpa [pending, kept.2.2, working] using arriving.send sent
  | none =>
      simp only [waits, Option.toList_none, List.nil_append] at advances arriving
      cases found : synthesis.sentences[synthesis.next]? with
      | none =>
          simp only [found, Option.some.injEq] at advances
          subst advances
          have nothing : synthesis.sentences.drop synthesis.next = [] :=
            List.drop_eq_nil_of_le (List.getElem?_eq_none_iff.mp found)
          rw [nothing, itemsFrom] at arriving
          refine ⟨rfl, ?_, capacity, complete⟩
          simpa [pending, dropSender] using arriving.dropSender
      | some sentence =>
          rw [itemsFrom_of_getElem? found] at arriving
          simp only [found, replyOf] at advances
          split at advances
          case isTrue empty =>
            cases advances
            simp only [empty, if_true] at arriving
            exact ⟨rfl, by simpa [pending, working, waits] using arriving,
              capacity, complete⟩
          case isFalse nonempty =>
            simp only [nonempty, Bool.false_eq_true, if_false] at arriving
            cases replies : engine.synthesize sentence
                (outcomes synthesis.next) with
            | panicked =>
                simp only [replies, Option.some.injEq] at advances arriving
                subst advances
                refine ⟨rfl, ?_, capacity, complete⟩
                simpa [pending, dropSender] using arriving.dropSender
            | result audio =>
                simp only [replies, Option.some.injEq] at advances arriving
                subst advances
                refine ⟨rfl, ?_, capacity, complete⟩
                simp only [pending, working, Bool.false_eq_true, if_false,
                  Option.toList_some, List.singleton_append]
                exact arriving

/-- The receiver takes a message, or sees the end of the channel once. -/
theorem receive_eq_some
    (receives : step engine outcomes synthesis .receive = some after) :
    ¬ synthesis.drained = true ∧
      ((∃ item channel, synthesis.channel.recv = .message item channel ∧
          after = synthesis.take channel item) ∨
        synthesis.channel.recv = .ended ∧ after = synthesis.drain) := by
  simp only [step] at receives
  split at receives
  case isTrue => cases receives
  case isFalse undrained =>
    refine ⟨undrained, ?_⟩
    cases received : synthesis.channel.recv with
    | waiting => simp [received] at receives
    | message item channel =>
        simp only [received, Option.some.injEq] at receives
        exact Or.inl ⟨item, channel, rfl, receives.symm⟩
    | ended =>
        simp only [received, Option.some.injEq] at receives
        exact Or.inr ⟨rfl, receives.symm⟩

theorem Inv.receive (inv : Inv engine outcomes sentences synthesis)
    (receives : step engine outcomes synthesis .receive = some after) :
    Inv engine outcomes sentences after := by
  obtain ⟨undrained, ⟨item, channel, received, rfl⟩ | ⟨received, rfl⟩⟩ :=
    receive_eq_some receives
  · have kept := recv_eq_message received
    refine ⟨inv.sameSentences, ?_, kept.2.1.trans inv.capacity,
      fun drained => absurd drained undrained⟩
    have same : pending engine outcomes (synthesis.take channel item) =
        pending engine outcomes synthesis := by
      simp [pending, Synthesis.take, kept.2.2]
    rw [same]
    exact inv.arriving.recv received
  · exact ⟨inv.sameSentences, inv.arriving, inv.capacity,
      fun _ => inv.arriving.received_eq received⟩

theorem Inv.step {action : Action}
    (inv : Inv engine outcomes sentences synthesis)
    (stepTo : step engine outcomes synthesis action = some after) :
    Inv engine outcomes sentences after := by
  cases action with
  | work => exact inv.work stepTo
  | receive => exact inv.receive stepTo

/-! ## Every reader reaches the end -/

/-- How many steps are left at most. -/
def remaining (synthesis : Synthesis) : Nat :=
  3 * (synthesis.sentences.length - synthesis.next) +
    2 * synthesis.unsent.isSome.toNat +
    synthesis.channel.buffer.items.length +
    (!synthesis.channel.senderDropped).toNat + (!synthesis.drained).toNat

theorem remaining_of_advance {listening : Bool} {reply : SynthesisReply}
    (advances : synthesis.advance listening reply = some after) :
    remaining after < remaining synthesis := by
  obtain ⟨working, advance⟩ := Synthesis.advance_eq_some advances
  cases advance with
  | sends result channel waits isListening sent =>
      obtain ⟨items, -, dropped⟩ := send_eq_some sent
      simp [remaining, waits, items, dropped, working]
      omega
  | gives result waits isDropped =>
      simp only [remaining, waits, dropSender, working, Option.isSome_some,
        Option.isSome_none, Bool.toNat_true, Bool.toNat_false, Bool.not_true,
        Bool.not_false]
      omega
  | ends nothing =>
      simp [remaining, nothing, dropSender, working]
  | skips nothing more =>
      simp [remaining, nothing, working]
      omega
  | produces result nothing more numbered =>
      simp [remaining, nothing, working]
      omega

theorem remaining_of_receive
    (receives : step engine outcomes synthesis .receive = some after) :
    remaining after < remaining synthesis := by
  obtain ⟨undrained, ⟨item, channel, received, rfl⟩ | ⟨-, rfl⟩⟩ :=
    receive_eq_some receives
  · obtain ⟨items, -, dropped⟩ := recv_eq_message received
    simp [remaining, Synthesis.take, items, dropped]
  · simp [remaining, Synthesis.drain, undrained]

theorem remaining_of_step {action : Action}
    (stepTo : step engine outcomes synthesis action = some after) :
    remaining after < remaining synthesis := by
  cases action with
  | work => exact remaining_of_advance stepTo
  | receive => exact remaining_of_receive stepTo

/-- Until the receiver has seen the end, it or the task can take a step. -/
theorem exists_step (inv : Inv engine outcomes sentences synthesis)
    (undrained : ¬ synthesis.drained = true) :
    ∃ action next, step engine outcomes synthesis action = some next := by
  cases received : synthesis.channel.recv with
  | message item channel =>
      exact ⟨.receive, synthesis.take channel item,
        by simp [step, undrained, received]⟩
  | ended =>
      exact ⟨.receive, synthesis.drain, by simp [step, undrained, received]⟩
  | waiting =>
      obtain ⟨empty, working⟩ := recv_eq_waiting received
      have room : synthesis.channel.buffer.items.length <
          synthesis.channel.buffer.capacity := by
        rw [empty, inv.capacity]
        decide
      exact ⟨.work, Option.isSome_iff_exists.mp
        (Synthesis.isSome_advance working room
          (replyOf engine outcomes synthesis))⟩

/-! ## Speech that is not cut -/

/-- The speech of a text is delivered: a receiver that reads on reaches the
end, and at the end it has one item for every sentence, in order, which is its
chunk or, if there is none, an error; and a body without an error holds the
chunk of every sentence. -/
def Delivers (engine : KokoroOnnxEngine) (outcomes : Outcomes)
    (name text : String) (params : SynthesisParams) : Prop :=
  let sentences := splitSentences 200 text
  let expected := expectedFrom engine outcomes sentences.length 0 sentences
  (∃ actions last,
    run (step engine outcomes) (.start name text params) actions = some last ∧
      last.drained = true) ∧
  ∀ actions last,
    run (step engine outcomes) (.start name text params) actions = some last →
      last.drained = true →
        last.received.map Except.toOption = expected ∧
        ((∀ part ∈ responseBody last.received, part.isOk = true) →
          ∃ chunks : List AudioChunk, expected = chunks.map some ∧
            responseBody last.received =
              chunks.map fun chunk => .ok chunk.toPcm16Le)

theorem received_of_drained {name text : String} {params : SynthesisParams}
    {actions : List Action} {last : Synthesis}
    (reaches : run (step engine outcomes) (.start name text params) actions =
      some last) (drained : last.drained = true) :
    last.received = itemsFrom engine outcomes (splitSentences 200 text).length
      0 (splitSentences 200 text) := by
  have inv : Inv engine outcomes (splitSentences 200 text) last :=
    invariant_of_run_eq_some (fun _ _ _ inv stepTo => inv.step stepTo)
      (inv_start engine outcomes name text params) reaches
  exact inv.complete drained

theorem exists_run_to_drained (engine : KokoroOnnxEngine)
    (outcomes : Outcomes) (name text : String) (params : SynthesisParams) :
    ∃ actions last,
      run (step engine outcomes) (.start name text params) actions =
        some last ∧ last.drained = true :=
  exists_run_to_final remaining
    (fun _ _ _ inv stepTo => inv.step stepTo)
    (fun _ _ _ _ stepTo => remaining_of_step stepTo)
    (fun _ inv undrained => exists_step inv undrained)
    _ (inv_start engine outcomes name text params)

/-- What is delivered depends on what is sent only. -/
theorem delivers_iff_itemsFrom {name text : String}
    {params : SynthesisParams} :
    Delivers engine outcomes name text params ↔
      (itemsFrom engine outcomes (splitSentences 200 text).length 0
          (splitSentences 200 text)).map Except.toOption =
        expectedFrom engine outcomes (splitSentences 200 text).length 0
          (splitSentences 200 text) := by
  constructor
  · rintro ⟨⟨actions, last, reaches, drained⟩, delivered⟩
    rw [← received_of_drained reaches drained]
    exact (delivered actions last reaches drained).1
  · intro complete
    refine ⟨exists_run_to_drained engine outcomes name text params, ?_⟩
    intro actions last reaches drained
    rw [received_of_drained reaches drained]
    refine ⟨complete, fun clean => ?_⟩
    obtain ⟨chunks, received, body⟩ := exists_chunks_of_responseBody clean
    exact ⟨chunks, complete.symm.trans received, body⟩

/-- Streamed speech is delivered exactly if no session fails for a sentence
whose byte 40 lies inside a character. -/
theorem streamedSpeech_delivers (engine : KokoroOnnxEngine)
    (outcomes : Outcomes) (name text : String) (params : SynthesisParams) :
    Delivers engine outcomes name text params ↔
      ErrorsQuoteWholeCharacters outcomes 0 (splitSentences 200 text) := by
  rw [delivers_iff_itemsFrom]
  exact itemsFrom_eq_expected_iff fun _ member =>
    ne_empty_of_mem_splitSentences member

/-! ## A sentence that disappears -/

/-- An engine without a dictionary. -/
def plainEngine : KokoroOnnxEngine where
  g2p := {
    library := {
      isAlphabetic := Char.isAlpha
      isNumeric := Char.isDigit
      toLowercase := fun text => text.map Char.toLower
      debug := fun text => String.ofList text }
    vocab := fun phoneme => if phoneme = "." then some 4 else none
    dict := fun _ => none
    hasPeriod := rfl }
  sampleRate := 24000

/-- Byte 40 is the second byte of the last letter. -/
def accentedText : String :=
  "Une phrase assez longue avec un bel été."

theorem splitSentences_accentedText :
    splitSentences 200 accentedText = [accentedText] := by
  decide +kernel

/-- The session of every sentence fails. -/
def failing : Outcomes :=
  fun _ => .error "out of memory"

/-- The receiver of a sentence that is lost sees the end of the channel without
an error. -/
theorem not_delivers_accentedText :
    ¬ Delivers plainEngine failing "kokoro-onnx" accentedText
        ⟨1, 1, none, none⟩ := by
  rw [delivers_iff_itemsFrom, itemsFrom_eq_expected_iff fun _ member =>
    ne_empty_of_mem_splitSentences member, splitSentences_accentedText]
  intro quotes
  have whole : QuotesWholeCharacters accentedText :=
    quotes 0 accentedText rfl (by decide +kernel)
  revert whole
  decide +kernel

end KokoroStream

end TorchInference
