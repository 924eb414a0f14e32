import TorchInference.SpeechPipeline

/-!
# The Kokoro engine

A text is turned into phoneme tokens, and the tokens into samples by a session
of the model.  The text of an error quotes the first 40 bytes of the text; the
slice panics when they end inside a character.
-/

namespace TorchInference

/-! ## Beginnings of texts -/

/-- `&text[..count]`, unless `count` lies inside a character. -/
def takeBytes : Nat → List Char → Option (List Char)
  | 0, _ => some []
  | _ + 1, [] => none
  | count + 1, c :: rest =>
      if c.utf8Size ≤ count + 1 then
        (takeBytes (count + 1 - c.utf8Size) rest).map (c :: ·)
      else none

theorem byteLength_cons (c : Char) (rest : List Char) :
    byteLength (c :: rest) = c.utf8Size + byteLength rest := by
  simp [byteLength]

/-- A beginning of a text can be taken exactly where a character ends. -/
theorem takeBytes_eq_some {count : Nat} {text start : List Char} :
    takeBytes count text = some start ↔
      byteLength start = count ∧ ∃ rest, text = start ++ rest := by
  induction text generalizing count start with
  | nil =>
      cases count with
      | zero => cases start <;> simp [takeBytes, byteLength]
      | succ count =>
          simp only [takeBytes, reduceCtorEq, false_iff]
          rintro ⟨long, rest, split⟩
          obtain ⟨rfl, -⟩ := List.append_eq_nil_iff.mp split.symm
          cases long
  | cons c text ih =>
      cases count with
      | zero =>
          cases start with
          | nil => simp [takeBytes, byteLength]
          | cons d start =>
              have positive := d.utf8Size_pos
              simp only [takeBytes, Option.some.injEq, reduceCtorEq,
                byteLength_cons, false_iff]
              rintro ⟨long, -⟩
              omega
      | succ count =>
          by_cases fits : c.utf8Size ≤ count + 1
          · cases start with
            | nil => simp [takeBytes, fits, byteLength]
            | cons d start =>
                simp only [takeBytes, fits, if_true, Option.map_eq_some_iff,
                  List.cons.injEq, byteLength_cons, List.cons_append]
                constructor
                · rintro ⟨_, taken, rfl, rfl⟩
                  obtain ⟨long, rest, split⟩ := ih.mp taken
                  exact ⟨by omega, rest, rfl, split⟩
                · rintro ⟨long, rest, rfl, split⟩
                  exact ⟨start, ih.mpr ⟨by omega, rest, split⟩, rfl, rfl⟩
          · simp only [takeBytes, fits, if_false, reduceCtorEq, false_iff]
            rintro ⟨long, rest, split⟩
            cases start with
            | nil => cases long
            | cons d start =>
                obtain ⟨rfl, -⟩ := List.cons.inj split
                rw [byteLength_cons] at long
                omega

/-- `&text[..text.len().min(40)]`. -/
def quoted (text : String) : Option (List Char) :=
  takeBytes (min (byteLength text.toList) 40) text.toList

/-- The first 40 bytes of the text end where a character ends. -/
def QuotesWholeCharacters (text : String) : Prop :=
  (quoted text).isSome = true

instance (text : String) : Decidable (QuotesWholeCharacters text) :=
  inferInstanceAs (Decidable (_ = _))

theorem quotesWholeCharacters_of_short {text : String}
    (short : byteLength text.toList ≤ 40) : QuotesWholeCharacters text := by
  have whole : quoted text = some text.toList := by
    rw [quoted, Nat.min_eq_left short]
    exact takeBytes_eq_some.mpr ⟨rfl, [], by simp⟩
  simp [QuotesWholeCharacters, whole]

/-! ## Phonemes -/

/-- What the engine takes from the standard library. -/
structure TextLibrary where
  isAlphabetic : Char → Bool
  isNumeric : Char → Bool
  toLowercase : List Char → List Char
  /-- A text as `{:?}` shows it. -/
  debug : List Char → String

/-- The tables of the grapheme-to-phoneme converter. -/
structure MisakiG2P where
  library : TextLibrary
  vocab : String → Option Int
  dict : String → Option String
  hasPeriod : vocab "." = some 4

namespace MisakiG2P

def isPunctuation (g2p : MisakiG2P) : List Char → Bool
  | [ch] => !(g2p.library.isAlphabetic ch || g2p.library.isNumeric ch)
  | _ => false

/-- `tokenize`, given the letters of the word that is being read. -/
def tokenizeFrom (g2p : MisakiG2P) :
    List Char → List Char → List (List Char)
  | current, [] => if current = [] then [] else [current]
  | current, ch :: rest =>
      if g2p.library.isAlphabetic ch ∨ ch = Char.ofNat 39 then
        g2p.tokenizeFrom (current ++ [ch]) rest
      else
        (if current = [] then [] else [current]) ++
          (if isWhitespace ch then [] else [[ch]]) ++
          g2p.tokenizeFrom [] rest

/-- The tokens of the characters that have one. -/
def phonemeStringToTokens (g2p : MisakiG2P) (ipa : String) : List Int :=
  ipa.toList.filterMap fun ch => g2p.vocab (String.singleton ch)

/-- The phonemes of a letter of an unknown word. -/
def letterIpa (ch : Char) : Option String :=
  match ch with
  | 'a' => some "æ"
  | 'e' => some "ɛ"
  | 'i' => some "ɪ"
  | 'o' => some "ɔ"
  | 'u' => some "ʌ"
  | 'b' => some "b"
  | 'c' => some "k"
  | 'd' => some "d"
  | 'f' => some "f"
  | 'g' => some "ɡ"
  | 'h' => some "h"
  | 'j' => some "ʤ"
  | 'k' => some "k"
  | 'l' => some "l"
  | 'm' => some "m"
  | 'n' => some "n"
  | 'p' => some "p"
  | 'q' => some "k"
  | 'r' => some "ɹ"
  | 's' => some "s"
  | 't' => some "t"
  | 'v' => some "v"
  | 'w' => some "w"
  | 'x' => some "ks"
  | 'y' => some "j"
  | 'z' => some "z"
  | _ => none

def letterFallback (g2p : MisakiG2P) (word : List Char) : List Int :=
  (word.filterMap letterIpa).flatMap g2p.phonemeStringToTokens

def wordToTokens (g2p : MisakiG2P) (word : List Char) : List Int :=
  match g2p.dict (String.ofList word) with
  | some ipa => g2p.phonemeStringToTokens ipa
  | none => g2p.letterFallback word

/-- The tokens of the word at an index. -/
def tokensAt (g2p : MisakiG2P) (word : List Char) (index : Nat) : List Int :=
  if g2p.isPunctuation word then (g2p.vocab (String.ofList word)).toList
  else
    (if 0 < index then (g2p.vocab " ").toList else []) ++ g2p.wordToTokens word

/-- `text_to_tokens`; a period is added unless the last token is one. -/
def textToTokens (g2p : MisakiG2P) (text : String) : List Int :=
  let normalized := g2p.library.toLowercase (trim text.toList)
  let words := g2p.tokenizeFrom [] normalized
  let tokens := words.zipIdx.flatMap fun (word, index) =>
    g2p.tokensAt word index
  if tokens.getLast? = some 4 then tokens
  else tokens ++ (g2p.vocab ".").toList

/-- Every text has a token. -/
theorem textToTokens_ne_nil (g2p : MisakiG2P) (text : String) :
    g2p.textToTokens text ≠ [] := by
  unfold textToTokens
  simp only
  split
  case isTrue endsWithPeriod =>
    intro empty
    rw [empty] at endsWithPeriod
    cases endsWithPeriod
  case isFalse => simp [g2p.hasPeriod]

end MisakiG2P

/-! ## Samples -/

structure KokoroOnnxEngine where
  g2p : MisakiG2P
  sampleRate : UInt32

namespace KokoroOnnxEngine

def clampSample (sample : Float32) : Float32 :=
  clampF32 (-1) 1 sample

def validateText (text : String) : Except String Unit :=
  if text.isEmpty then .error "Text cannot be empty"
  else if 1000 < byteLength text.toList then
    .error "Text too long (max 1000 characters)"
  else .ok ()

/-- `synthesize_with_onnx`, given what the session comes to: its waveform, or
the error of a step from the pool to the blocking task. -/
def synthesizeWithOnnx (engine : KokoroOnnxEngine) (text : String)
    (session : Except String (List Float32)) : Except String AudioData :=
  if engine.g2p.textToTokens text = [] then
    .error ("G2P produced no tokens for: " ++
      engine.g2p.library.debug text.toList)
  else session.map fun waveform =>
    ⟨waveform.map clampSample, engine.sampleRate⟩

def synthesize (engine : KokoroOnnxEngine) (text : String)
    (session : Except String (List Float32)) : SynthesisReply :=
  match validateText text with
  | .error message => .result (.error message)
  | .ok () =>
      match engine.synthesizeWithOnnx text session with
      | .ok audio => .result (.ok audio)
      | .error _ =>
          match quoted text with
          | none => .panicked
          | some start => .result (.error
              ("Kokoro ONNX synthesis failed for: " ++
                engine.g2p.library.debug start))

/-- The audio of a text that is accepted and whose session succeeds. -/
def audioOf (engine : KokoroOnnxEngine) (text : String)
    (session : Except String (List Float32)) : Option AudioData :=
  match validateText text, session with
  | .ok (), .ok waveform =>
      some ⟨waveform.map clampSample, engine.sampleRate⟩
  | _, _ => none

/-- The session fails for a text that the engine accepts. -/
def SessionFails (text : String) (session : Except String (List Float32)) :
    Prop :=
  (validateText text).isOk = true ∧ session.isOk = false

instance (text : String) (session : Except String (List Float32)) :
    Decidable (SessionFails text session) :=
  inferInstanceAs (Decidable (_ ∧ _))

variable {engine : KokoroOnnxEngine} {text : String}
  {session : Except String (List Float32)}

theorem synthesizeWithOnnx_eq :
    engine.synthesizeWithOnnx text session = session.map fun waveform =>
      ⟨waveform.map clampSample, engine.sampleRate⟩ := by
  simp [synthesizeWithOnnx, engine.g2p.textToTokens_ne_nil text]

/-- A call panics when the session fails and the quoted beginning of the text
ends inside a character. -/
theorem synthesize_eq_panicked :
    engine.synthesize text session = .panicked ↔
      SessionFails text session ∧ ¬ QuotesWholeCharacters text := by
  unfold synthesize SessionFails QuotesWholeCharacters
  rw [synthesizeWithOnnx_eq]
  cases validateText text with
  | error message => simp [Except.isOk, Except.toBool]
  | ok _ =>
      cases session with
      | ok waveform => simp [Except.map, Except.isOk, Except.toBool]
      | error message =>
          cases quoted text <;>
            simp [Except.map, Except.isOk, Except.toBool]

/-- Every other call replies with the audio, or with an error if there is
none. -/
theorem toOption_of_synthesize {audio : Except String AudioData}
    (replies : engine.synthesize text session = .result audio) :
    audio.toOption = engine.audioOf text session := by
  unfold synthesize at replies
  unfold audioOf
  rw [synthesizeWithOnnx_eq] at replies
  cases validated : validateText text with
  | error message =>
      simp only [validated] at replies
      cases replies
      rfl
  | ok _ =>
      cases session with
      | ok waveform =>
          simp only [validated, Except.map] at replies
          cases replies
          rfl
      | error message =>
          simp only [validated, Except.map] at replies
          cases cut : quoted text with
          | none =>
              simp only [cut] at replies
              cases replies
          | some start =>
              simp only [cut] at replies
              cases replies
              rfl

end KokoroOnnxEngine

end TorchInference
