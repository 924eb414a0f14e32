import Mathlib.Data.List.DropRight
import TorchInference.BoundedChannel
import TorchInference.DownloadRequests

/-!
# Speech, sentence by sentence

A text is split into sentences, and a task of its own synthesizes them in
order and sends the results into a bounded channel.  The task stops when its
receiver has been dropped.  The engine is part of the environment.
-/

namespace TorchInference

/-! ## Sentences -/

def trim (text : List Char) : List Char :=
  (text.dropWhile isWhitespace).rdropWhile isWhitespace

/-- A sentence, if something is left of it. -/
def keepSentence (text : List Char) : List String :=
  if trim text = [] then [] else [String.ofList (trim text)]

def isBoundary (c : Char) : Bool :=
  c == '.' || c == '!' || c == '?' || c == '…' || c == ';' || c == ':'

def followedBySpace : List Char → Bool
  | [] => true
  | c :: _ => c == ' ' || c == '\n'

def byteLength (text : List Char) : Nat :=
  (text.map Char.utf8Size).sum

/-- The text before and after its last space. -/
def splitAtLastSpace (text : List Char) :
    Option (List Char × List Char) :=
  match text.reverse.span (· != ' ') with
  | (_, []) => none
  | (after, _ :: before) => some (before.reverse, after.reverse)

/-- Split the rest of a text, given the beginning of the sentence that is being
read.  The space after a boundary is skipped. -/
def splitFrom (maxChars : Nat) :
    Bool → List Char → List Char → List String
  | _, current, [] => keepSentence current
  | true, current, _ :: rest => splitFrom maxChars false current rest
  | false, current, c :: rest =>
      if isBoundary c ∧ followedBySpace rest then
        keepSentence (current ++ [c]) ++ splitFrom maxChars true [] rest
      else if maxChars ≤ byteLength current then
        match splitAtLastSpace current with
        | some (before, after) =>
            keepSentence before ++
              splitFrom maxChars false (after ++ [c]) rest
        | none =>
            keepSentence current ++ splitFrom maxChars false
              (if c = ' ' then [] else [c]) rest
      else splitFrom maxChars false (current ++ [c]) rest

/-- `SentenceSplitter::split`. -/
def splitSentences (maxChars : Nat) (text : String) : List String :=
  splitFrom maxChars false [] (trim text.toList)

theorem mem_keepSentence_of_mem_splitFrom {maxChars : Nat} {skips : Bool}
    {current text : List Char} {sentence : String}
    (member : sentence ∈ splitFrom maxChars skips current text) :
    ∃ part, sentence ∈ keepSentence part := by
  induction skips, current, text using splitFrom.induct maxChars with
  | case1 skips current =>
      rw [splitFrom] at member
      exact ⟨current, member⟩
  | case2 current c rest ih =>
      rw [splitFrom] at member
      exact ih member
  | case3 current c rest boundary ih =>
      rw [splitFrom, if_pos boundary] at member
      rcases List.mem_append.mp member with kept | later
      · exact ⟨current ++ [c], kept⟩
      · exact ih later
  | case4 current c rest noBoundary long before after found ih =>
      rw [splitFrom, if_neg noBoundary, if_pos long] at member
      simp only [found] at member
      rcases List.mem_append.mp member with kept | later
      · exact ⟨before, kept⟩
      · exact ih later
  | case5 current c rest noBoundary long noSpace ih =>
      rw [splitFrom, if_neg noBoundary, if_pos long] at member
      simp only [noSpace] at member
      rcases List.mem_append.mp member with kept | later
      · exact ⟨current, kept⟩
      · exact ih later
  | case6 current c rest noBoundary short ih =>
      rw [splitFrom, if_neg noBoundary, if_neg short] at member
      exact ih member

/-! ## Chunks -/

structure AudioData where
  samples : List Float32
  sampleRate : UInt32

structure AudioChunk where
  sentenceIndex : Nat
  isLast : Bool
  audio : AudioData

/-- The bytes of a 32-bit number, the lowest first. -/
def leBytes (value : UInt32) : List UInt8 :=
  [value.toUInt8, (value >>> 8).toUInt8, (value >>> 16).toUInt8,
    (value >>> 24).toUInt8]

def AudioChunk.toF32Le (chunk : AudioChunk) : List UInt8 :=
  chunk.audio.samples.flatMap fun sample => leBytes sample.toBits

/-! ## Syntheses -/

/-- `clamp`, which leaves what is not a number as it is. -/
def clampF32 (low high value : Float32) : Float32 :=
  if value < low then low else if high < value then high else value

structure SynthesisParams where
  speed : Float32
  pitch : Float32
  voice : Option String
  language : Option String

/-- What a call of the engine comes to. -/
inductive SynthesisReply where
  | result (audio : Except String AudioData)
  | panicked

/-- A synthesis: its task, its channel, and what it has produced so far. -/
structure Synthesis where
  engine : String
  params : SynthesisParams
  sentences : List String
  next : Nat
  /-- A result that waits for room in the channel. -/
  unsent : Option (Except String AudioChunk)
  channel : BoundedChannel (Except String AudioChunk)
  produced : List (Except String AudioChunk)
  /-- What the receiver has taken, and whether it has seen the end. -/
  received : List (Except String AudioChunk)
  drained : Bool

namespace Synthesis

/-- `synthesize_streaming`, with the defaults of the splitter and of the
channel. -/
def start (engine : String) (text : String) (params : SynthesisParams) :
    Synthesis where
  engine := engine
  params := params
  sentences := splitSentences 200 text
  next := 0
  unsent := none
  channel := .withCapacity 4
  produced := []
  received := []
  drained := false

/-- The task takes its next step, while its receiver is there or after it has
been dropped. -/
def advance (synthesis : Synthesis) (listening : Bool)
    (reply : SynthesisReply) : Option Synthesis :=
  if synthesis.channel.senderDropped then none
  else
    match synthesis.unsent with
    | some result =>
        if listening then
          (synthesis.channel.send result).map fun channel =>
            { synthesis with unsent := none, channel := channel }
        else some { synthesis with
          unsent := none
          channel := synthesis.channel.dropSender }
    | none =>
        match synthesis.sentences[synthesis.next]? with
        | none => some { synthesis with
            channel := synthesis.channel.dropSender }
        | some sentence =>
            if sentence.isEmpty then
              some { synthesis with next := synthesis.next + 1 }
            else
              match reply with
              | .panicked => some { synthesis with
                  channel := synthesis.channel.dropSender }
              | .result audio =>
                  let result := audio.map fun audio => {
                    sentenceIndex := synthesis.next
                    isLast := synthesis.next == synthesis.sentences.length - 1
                    audio := audio }
                  some { synthesis with
                    next := synthesis.next + 1
                    unsent := some result
                    produced := synthesis.produced ++ [result] }

/-- The receiver takes a result. -/
def take (synthesis : Synthesis)
    (channel : BoundedChannel (Except String AudioChunk))
    (result : Except String AudioChunk) : Synthesis :=
  { synthesis with
    channel := channel
    received := synthesis.received ++ [result] }

/-- The receiver sees the end of the channel. -/
def drain (synthesis : Synthesis) : Synthesis :=
  { synthesis with drained := true }

/-- What the task does in a step. -/
inductive Advance (synthesis : Synthesis) (listening : Bool) :
    Synthesis → Prop
  | sends (result : Except String AudioChunk)
      (channel : BoundedChannel (Except String AudioChunk))
      (waits : synthesis.unsent = some result) (isListening : listening = true)
      (sent : synthesis.channel.send result = some channel) :
      Advance synthesis listening
        { synthesis with unsent := none, channel := channel }
  | gives (result : Except String AudioChunk)
      (waits : synthesis.unsent = some result)
      (isDropped : listening = false) :
      Advance synthesis listening { synthesis with
        unsent := none
        channel := synthesis.channel.dropSender }
  | ends (nothing : synthesis.unsent = none) :
      Advance synthesis listening { synthesis with
        unsent := none
        channel := synthesis.channel.dropSender }
  | skips (nothing : synthesis.unsent = none)
      (more : synthesis.next < synthesis.sentences.length) :
      Advance synthesis listening
        { synthesis with unsent := none, next := synthesis.next + 1 }
  | produces (result : Except String AudioChunk)
      (nothing : synthesis.unsent = none)
      (more : synthesis.next < synthesis.sentences.length)
      (numbered : ∀ chunk, result = .ok chunk →
        chunk.sentenceIndex = synthesis.next) :
      Advance synthesis listening { synthesis with
        next := synthesis.next + 1
        unsent := some result
        produced := synthesis.produced ++ [result] }

theorem advance_eq_some {synthesis after : Synthesis} {listening : Bool}
    {reply : SynthesisReply}
    (advances : synthesis.advance listening reply = some after) :
    synthesis.channel.senderDropped = false ∧
      Advance synthesis listening after := by
  unfold advance at advances
  split at advances
  case isTrue => cases advances
  case isFalse working =>
    refine ⟨by simpa using working, ?_⟩
    cases waits : synthesis.unsent with
    | some result =>
        simp only [waits] at advances
        split at advances
        case isTrue isListening =>
          obtain ⟨channel, sent, rfl⟩ := Option.map_eq_some_iff.mp advances
          exact .sends result channel waits isListening sent
        case isFalse isDropped =>
          cases advances
          exact .gives result waits (by simpa using isDropped)
    | none =>
        simp only [waits] at advances
        split at advances
        case h_1 =>
          cases advances
          exact .ends waits
        case h_2 sentence found =>
          have more : synthesis.next < synthesis.sentences.length :=
            (List.getElem?_eq_some_iff.mp found).1
          split at advances
          case isTrue =>
            cases advances
            exact .skips waits more
          case isFalse =>
            cases reply with
            | panicked =>
                cases advances
                exact .ends waits
            | result audio =>
                cases advances
                refine .produces _ waits more ?_
                intro chunk isChunk
                cases audio with
                | error e => cases isChunk
                | ok audio =>
                    cases isChunk
                    rfl

/-- A task that is not over can go on whatever the engine replies, unless its
channel is full. -/
theorem isSome_advance {synthesis : Synthesis} {listening : Bool}
    (working : synthesis.channel.senderDropped = false)
    (room : synthesis.channel.buffer.items.length <
      synthesis.channel.buffer.capacity) (reply : SynthesisReply) :
    (synthesis.advance listening reply).isSome = true := by
  cases waits : synthesis.unsent with
  | some result =>
      cases listening with
      | true => simp [advance, working, waits, BoundedChannel.send, room]
      | false => simp [advance, working, waits]
  | none =>
      cases found : synthesis.sentences[synthesis.next]? with
      | none => simp [advance, working, waits, found]
      | some sentence =>
          by_cases empty : sentence.isEmpty = true
          · simp [advance, working, waits, found, empty]
          · cases reply <;> simp [advance, working, waits, found, empty]

end Synthesis

end TorchInference
