import TorchInference.MisakiVocabulary
import TorchInference.SeparatedBlocks
import Mathlib.Data.List.SplitBy

/-!
# Texts of which everything is spoken

A text is cut into words and other characters.  A word is spoken if it has a
letter from a to z; a digit never is.  Other characters are said if the
vocabulary has them, and a period is added unless the last token is one.
-/

namespace TorchInference

/-- The classes of characters that the Unicode tables assign. -/
structure UnicodeLibrary extends TextLibrary where
  isDigit : Char → Bool
  digit_class : ∀ ch, isDigit ch = true →
    isNumeric ch = true ∧ isAlphabetic ch = false ∧ isWhitespace ch = false
  lower_alphabetic : ∀ ch : Char, ch.isLower = true → isAlphabetic ch = true
  sounded_alphabetic : ∀ ch, MisakiG2P.isSounded ch = true →
    isAlphabetic ch = true
  sentenceEnd_class : ∀ ch ∈ ['.', '!', '?'],
    isAlphabetic ch = false ∧ isNumeric ch = false

namespace UnicodeLibrary

open MisakiG2P SeparatedBlocks

variable (library : UnicodeLibrary)

def g2p : MisakiG2P :=
  MisakiG2P.new library.toTextLibrary

def normalized (text : String) : List Char :=
  library.toLowercase (trim text.toList)

/-- `tokenize`. -/
def pieces (text : List Char) : List (List Char) :=
  library.g2p.tokenizeFrom [] text

/-! ## Words of a text -/

def isWordChar (ch : Char) : Bool :=
  library.isAlphabetic ch || ch == Char.ofNat 39

def isWord (part : List Char) : Bool :=
  part.any fun ch => library.isAlphabetic ch || library.isDigit ch

/-- The longest runs of letters and apostrophes that have a letter, and the
digits, in their order. -/
def words (text : List Char) : List (List Char) :=
  (text.splitBy fun ch next =>
    library.isWordChar ch && library.isWordChar next).filter library.isWord

/-! ## What is asked of the tokens -/

def isFinal (token : Int) : Bool :=
  token == 4 || token == 5 || token == 6

/-- One final token for a text that ends a sentence, and a period that is not
of the text for any other. -/
def EndsSentence (text : List Char) (tokens : List Int) : Prop :=
  if text.getLast? ∈ [some '.', some '!', some '?'] then
    ∃ body last, tokens = body ++ [last] ∧ isFinal last = true ∧
      body.getLast?.any isFinal = false
  else tokens.getLast? = some 4 ∧ tokens.count 4 = text.count '.' + 1

def isSpaceOrPhoneme (token : Int) : Bool :=
  token == 16 || isPhoneme token

structure Speaks (text : List Char) (tokens : List Int) : Prop where
  inRange : ∀ token ∈ tokens, 1 ≤ token ∧ token ≤ 177
  heard : ∀ word ∈ library.words text,
    ∃ token ∈ library.g2p.wordToTokens word, isPhoneme token = true
  separated : ∃ before after, tokens.filter isSpaceOrPhoneme =
    List.replicate before 16 ++
        [16].intercalate ((library.words text).map library.g2p.wordToTokens) ++
      List.replicate after 16
  opening : tokens.head? ≠ some 16
  ending : EndsSentence text tokens

/-! ## What decides about the tokens -/

/-- Punctuation that the vocabulary does not have. -/
def isMute (piece : List Char) : Bool :=
  library.g2p.isPunctuation piece &&
    (library.g2p.vocab (String.ofList piece)).isNone

/-- The text begins with a piece that is not said, and a piece that is not
punctuation is the next one that is. -/
def opensWithSpace : List (List Char) → Bool
  | [] => false
  | first :: rest =>
      (library.isMute first ||
        !library.g2p.isPunctuation first && !first.any Char.isLower) &&
      (rest.dropWhile library.isMute).head?.any fun piece =>
        !library.g2p.isPunctuation piece

/-- The last piece that is not mute. -/
def lastHeard (list : List (List Char)) : Option (List Char) :=
  (list.filter fun piece => !library.isMute piece).getLast?

/-- No final token stands before a period that ends the text; a text that ends
with another character does not have a period as the last piece that is heard. -/
def EndsPlainly (text : List Char) : Prop :=
  if text.getLast? = some '.' then
    library.lastHeard (library.pieces text).dropLast ∉
      [some ['.'], some ['!'], some ['?']]
  else text.getLast? ≠ some '!' ∧ text.getLast? ≠ some '?' ∧
    library.lastHeard (library.pieces text) ≠ some ['.']

/-- Every word has a letter from a to z, so that no character is a digit, and
what is not punctuation nor a word stands before or behind all words. -/
structure Readable (text : List Char) : Prop where
  spelled : ∀ word ∈ library.words text, word.any Char.isLower = true
  together : library.words text <:+:
    (library.pieces text).filter fun piece => !library.g2p.isPunctuation piece
  opening : library.opensWithSpace (library.pieces text) = false
  ending : library.EndsPlainly text

/-! ## Pieces -/

theorem isWordChar_eq_true {ch : Char} :
    library.isWordChar ch = true ↔
      library.g2p.library.isAlphabetic ch = true ∨ ch = Char.ofNat 39 := by
  simp [isWordChar, g2p, MisakiG2P.new]

theorem tokenizeFrom_word {ch : Char} (word : library.isWordChar ch = true)
    (current rest : List Char) :
    library.g2p.tokenizeFrom current (ch :: rest) =
      library.g2p.tokenizeFrom (current ++ [ch]) rest := by
  rw [tokenizeFrom, if_pos (library.isWordChar_eq_true.mp word)]

theorem tokenizeFrom_other {ch : Char} (other : library.isWordChar ch = false)
    (current rest : List Char) :
    library.g2p.tokenizeFrom current (ch :: rest) =
      (if current = [] then [] else [current]) ++
        (if isWhitespace ch then [] else [[ch]]) ++
          library.g2p.tokenizeFrom [] rest := by
  rw [tokenizeFrom, if_neg]
  rw [← library.isWordChar_eq_true, other]
  simp

/-- A piece is a run of letters and apostrophes, or another character that is
not white space. -/
theorem mem_tokenizeFrom {text current piece : List Char}
    (run : ∀ ch ∈ current, library.isWordChar ch = true)
    (mem : piece ∈ library.g2p.tokenizeFrom current text) :
    (∀ ch ∈ piece, library.isWordChar ch = true) ∨
      ∃ ch, piece = [ch] ∧ isWhitespace ch = false := by
  induction text generalizing current with
  | nil =>
      rw [tokenizeFrom] at mem
      split at mem
      case isTrue => cases mem
      case isFalse =>
        obtain rfl := List.mem_singleton.mp mem
        exact .inl run
  | cons ch rest ih =>
      by_cases word : library.isWordChar ch = true
      · rw [library.tokenizeFrom_word word] at mem
        exact ih (List.forall_mem_append.mpr ⟨run, by simpa using word⟩) mem
      · rw [library.tokenizeFrom_other (by simpa using word)] at mem
        simp only [List.mem_append] at mem
        obtain (inRun | single) | later := mem
        · split at inRun
          case isTrue => cases inRun
          case isFalse =>
            obtain rfl := List.mem_singleton.mp inRun
            exact .inl run
        · split at single
          case isTrue => cases single
          case isFalse visible =>
            exact .inr ⟨ch, List.mem_singleton.mp single, by simpa using visible⟩
        · exact ih (by simp) later

theorem words_run {run : List Char}
    (all : ∀ ch ∈ run, library.isWordChar ch = true) :
    (if run = [] then [] else [run]).filter library.isWord =
      library.words run := by
  by_cases none : run = []
  · simp [none, words]
  · have chain : run.IsChain fun ch next =>
        (library.isWordChar ch && library.isWordChar next) = true := by
      rw [List.isChain_iff_getElem]
      intro index _
      simp [all]
    rw [if_neg none, words, List.splitBy_of_isChain none chain]

theorem words_space {ch : Char} (other : library.isWordChar ch = false)
    (space : isWhitespace ch = true) : library.words [ch] = [] := by
  have letter : library.isAlphabetic ch = false := by
    have both := other
    simp only [isWordChar, Bool.or_eq_false_iff] at both
    exact both.1
  have digit : library.isDigit ch = false := by
    by_contra isDigit
    have visible := (library.digit_class ch (by simpa using isDigit)).2.2
    rw [space] at visible
    cases visible
  have single : [ch].splitBy (fun ch next =>
      library.isWordChar ch && library.isWordChar next) = [[ch]] := rfl
  rw [words, single]
  simp [isWord, letter, digit]

/-- The words of a text are the pieces that are words. -/
theorem filter_tokenizeFrom {text current : List Char}
    (run : ∀ ch ∈ current, library.isWordChar ch = true) :
    (library.g2p.tokenizeFrom current text).filter library.isWord =
      library.words (current ++ text) := by
  induction text generalizing current with
  | nil =>
      rw [tokenizeFrom, List.append_nil]
      exact library.words_run run
  | cons ch rest ih =>
      by_cases word : library.isWordChar ch = true
      · rw [library.tokenizeFrom_word word,
          ih (List.forall_mem_append.mpr ⟨run, by simpa using word⟩)]
        simp
      · have other : library.isWordChar ch = false := by simpa using word
        have start : library.words (current ++ ch :: rest) =
            library.words current ++ library.words (ch :: rest) := by
          rw [words, List.splitBy_append_cons _ (by simp [other]),
            List.filter_append]
          rfl
        have next : library.words (ch :: rest) =
            library.words [ch] ++ library.words rest := by
          rw [words, ← List.singleton_append, List.splitBy_append (by simp [other]),
            List.filter_append]
          rfl
        have runOnly := library.words_run run
        rw [library.tokenizeFrom_other other, List.filter_append,
          List.filter_append, ih (by simp), start, next, ← runOnly,
          ← List.append_assoc]
        congr 2
        split
        case isTrue space =>
          exact (library.words_space other space).symm
        case isFalse => rfl

theorem words_eq (text : List Char) :
    library.words text = (library.pieces text).filter library.isWord := by
  have whole : (library.g2p.tokenizeFrom [] text).filter library.isWord =
      library.words ([] ++ text) :=
    library.filter_tokenizeFrom (by simp)
  exact whole.symm

/-- A visible character at the end that is not of a word is the last piece. -/
theorem tokenizeFrom_concat {ch : Char} (other : library.isWordChar ch = false)
    (visible : isWhitespace ch = false) (current body : List Char) :
    library.g2p.tokenizeFrom current (body ++ [ch]) =
      library.g2p.tokenizeFrom current body ++ [[ch]] := by
  induction body generalizing current with
  | nil =>
      rw [List.nil_append, library.tokenizeFrom_other other]
      simp [tokenizeFrom, visible]
  | cons first body ih =>
      by_cases word : library.isWordChar first = true
      · rw [List.cons_append, library.tokenizeFrom_word word,
          library.tokenizeFrom_word word, ih]
      · have notWord : library.isWordChar first = false := by simpa using word
        rw [List.cons_append, library.tokenizeFrom_other notWord,
          library.tokenizeFrom_other notWord, ih, List.append_assoc]
        simp

theorem isWordChar_of_sentenceEnd {ch : Char} (mem : ch ∈ ['.', '!', '?']) :
    library.isWordChar ch = false ∧ isWhitespace ch = false := by
  have letter := (library.sentenceEnd_class ch mem).1
  simp only [List.mem_cons, List.not_mem_nil, or_false] at mem
  rw [isWordChar, letter]
  obtain rfl | rfl | rfl := mem <;> decide

theorem count_run {run : List Char}
    (all : ∀ ch ∈ run, library.isWordChar ch = true) :
    (if run = [] then [] else [run]).count ['.'] = 0 := by
  obtain ⟨notWord, -⟩ := library.isWordChar_of_sentenceEnd List.mem_cons_self
  refine List.count_eq_zero.mpr fun mem => ?_
  split at mem
  case isTrue => cases mem
  case isFalse =>
    have word := all '.' (by simp [← List.mem_singleton.mp mem])
    rw [notWord] at word
    cases word

/-- Every period of a text is a piece. -/
theorem count_tokenizeFrom {text current : List Char}
    (run : ∀ ch ∈ current, library.isWordChar ch = true) :
    (library.g2p.tokenizeFrom current text).count ['.'] = text.count '.' := by
  obtain ⟨notWord, visible⟩ := library.isWordChar_of_sentenceEnd List.mem_cons_self
  induction text generalizing current with
  | nil =>
      rw [tokenizeFrom]
      exact library.count_run run
  | cons ch rest ih =>
      by_cases word : library.isWordChar ch = true
      · have noPeriod : ch ≠ '.' := by
          rintro rfl
          rw [notWord] at word
          cases word
        rw [library.tokenizeFrom_word word,
          ih (List.forall_mem_append.mpr ⟨run, by simpa using word⟩),
          List.count_cons_of_ne noPeriod]
      · rw [library.tokenizeFrom_other (by simpa using word), List.count_append,
          List.count_append, library.count_run run, ih (by simp)]
        by_cases period : ch = '.'
        · simp [period, visible]
          omega
        · rw [List.count_cons_of_ne period]
          split <;> simp [period]

/-! ## Tokens of a piece -/

theorem isPunctuation_iff {piece : List Char} :
    library.g2p.isPunctuation piece = true ↔
      ∃ ch, piece = [ch] ∧ library.isAlphabetic ch = false ∧
        library.isNumeric ch = false := by
  match piece with
  | [] => simp [isPunctuation]
  | [ch] => simp [isPunctuation, g2p, MisakiG2P.new]
  | _ :: _ :: _ => simp [isPunctuation]

theorem tokensAt_punctuation {ch : Char}
    (punctuation : library.g2p.isPunctuation [ch] = true) (index : Nat) :
    library.g2p.tokensAt [ch] index = (phonemeVocab.lookup ch).toList := by
  rw [tokensAt, if_pos punctuation, g2p, vocab_ofList]

theorem tokensAt_first {piece : List Char}
    (spaced : library.g2p.isPunctuation piece = false) :
    library.g2p.tokensAt piece 0 = library.g2p.wordToTokens piece := by
  simp [tokensAt, spaced]

theorem tokensAt_later {piece : List Char}
    (spaced : library.g2p.isPunctuation piece = false) (index : Nat) :
    library.g2p.tokensAt piece (index + 1) =
      16 :: library.g2p.wordToTokens piece := by
  have space : library.g2p.vocab " " = some 16 := vocab_space _
  simp [tokensAt, spaced, space]

/-- Only the first piece is said without a space. -/
theorem tokensAt_succ (piece : List Char) (index : Nat) :
    library.g2p.tokensAt piece (index + 1) = library.g2p.tokensAt piece 1 := by
  simp [tokensAt]

theorem le_of_isPhoneme {token : Int} (phoneme : isPhoneme token = true) :
    18 ≤ token := by
  by_contra small
  rw [not_isPhoneme_of_le (by omega)] at phoneme
  cases phoneme

theorem le_of_mem_wordToTokens {word : List Char} {token : Int}
    (mem : token ∈ library.g2p.wordToTokens word) : 18 ≤ token :=
  le_of_isPhoneme (isPhoneme_of_mem_wordToTokens _ mem)

/-- Punctuation other than the space has neither its token nor a phoneme. -/
theorem lookup_punctuation {ch : Char} {token : Int}
    (punctuation : library.g2p.isPunctuation [ch] = true) (notSpace : ch ≠ ' ')
    (found : phonemeVocab.lookup ch = some token) :
    isSpaceOrPhoneme token = false := by
  obtain ⟨_, same, letter, -⟩ := library.isPunctuation_iff.mp punctuation
  obtain rfl := List.singleton_inj.mp same
  have noSpace : token ≠ 16 := fun isSpace =>
    notSpace (phonemeVocab_inj _ (mem_of_lookup found) (' ', 16) (by simp) isSpace)
  have noPhoneme : isPhoneme token = false := by
    by_contra phoneme
    have sounded : isSounded ch = true := by
      rw [isSounded, found]
      simpa using phoneme
    have alphabetic := library.sounded_alphabetic ch sounded
    rw [letter] at alphabetic
    cases alphabetic
  simp [isSpaceOrPhoneme, noSpace, noPhoneme]

/-! ## Tokens of the pieces -/

def piecesTokens (list : List (List Char)) : List Int :=
  list.zipIdx.flatMap fun (word, index) => library.g2p.tokensAt word index

theorem flatMap_zipIdx (rest : List (List Char)) (index : Nat) :
    ((rest.zipIdx (index + 1)).flatMap fun (word, index) =>
        library.g2p.tokensAt word index) =
      rest.flatMap fun piece => library.g2p.tokensAt piece 1 := by
  induction rest generalizing index with
  | nil => rfl
  | cons piece rest ih =>
      rw [List.zipIdx_cons, List.flatMap_cons, List.flatMap_cons, ih]
      exact congrArg (· ++ _) (library.tokensAt_succ piece index)

theorem piecesTokens_cons (first : List Char) (rest : List (List Char)) :
    library.piecesTokens (first :: rest) =
      library.g2p.tokensAt first 0 ++
        rest.flatMap fun piece => library.g2p.tokensAt piece 1 := by
  rw [piecesTokens, List.zipIdx_cons, List.flatMap_cons, library.flatMap_zipIdx]

/-- A period is added unless the last token is one. -/
def finish (tokens : List Int) : List Int :=
  if tokens.getLast? = some 4 then tokens else tokens ++ [4]

theorem textToTokens_eq (text : String) :
    library.g2p.textToTokens text =
      finish (library.piecesTokens (library.pieces (library.normalized text))) := by
  rw [textToTokens, finish, g2p, vocab_period]
  rfl

/-- No piece of the list is the space. -/
def Visible (list : List (List Char)) : Prop :=
  ∀ ch, [ch] ∈ list → library.g2p.isPunctuation [ch] = true → ch ≠ ' '

theorem visible_pieces (text : List Char) :
    library.Visible (library.pieces text) := by
  rintro ch mem punctuation rfl
  obtain run | ⟨_, same, visible⟩ := library.mem_tokenizeFrom (by simp) mem
  · have word := library.isWordChar_eq_true.mp (run ' ' List.mem_cons_self)
    obtain ⟨_, same, letter, -⟩ := library.isPunctuation_iff.mp punctuation
    obtain rfl := List.singleton_inj.mp same
    obtain alphabetic | quote := word
    · exact Bool.noConfusion (letter.symm.trans alphabetic)
    · revert quote
      decide
  · obtain rfl := List.singleton_inj.mp same
    revert visible
    decide

/-! ## Spaces and phonemes -/

theorem filter_wordToTokens (word : List Char) :
    (library.g2p.wordToTokens word).filter isSpaceOrPhoneme =
      library.g2p.wordToTokens word := by
  refine List.filter_eq_self.mpr fun token mem => ?_
  rw [isSpaceOrPhoneme, isPhoneme_of_mem_wordToTokens _ mem, Bool.or_true]

theorem filter_punctuation {ch : Char}
    (punctuation : library.g2p.isPunctuation [ch] = true) (notSpace : ch ≠ ' ')
    (index : Nat) :
    (library.g2p.tokensAt [ch] index).filter isSpaceOrPhoneme = [] := by
  rw [library.tokensAt_punctuation punctuation]
  cases found : phonemeVocab.lookup ch with
  | none => rfl
  | some token =>
      simp [library.lookup_punctuation punctuation notSpace found]

/-- The pieces before which a space is said. -/
def spacedPieces (list : List (List Char)) : List (List Char) :=
  list.filter fun piece => !library.g2p.isPunctuation piece

/-- What is said of each piece that is not punctuation; nothing is said at the
front when the first piece is punctuation. -/
def blocks (list : List (List Char)) : List (List Int) :=
  (if list.head?.all library.g2p.isPunctuation then [[]] else []) ++
    (library.spacedPieces list).map library.g2p.wordToTokens

theorem filter_later {rest : List (List Char)} (visible : library.Visible rest) :
    (rest.flatMap fun piece => library.g2p.tokensAt piece 1).filter
        isSpaceOrPhoneme =
      ((library.spacedPieces rest).map library.g2p.wordToTokens).flatMap
        (16 :: ·) := by
  induction rest with
  | nil => rfl
  | cons piece rest ih =>
      have later := ih fun ch mem => visible ch (List.mem_cons_of_mem _ mem)
      rw [List.flatMap_cons, List.filter_append, later]
      cases punctuation : library.g2p.isPunctuation piece with
      | true =>
          obtain ⟨ch, rfl, -⟩ := library.isPunctuation_iff.mp punctuation
          rw [library.filter_punctuation punctuation
            (visible ch List.mem_cons_self punctuation)]
          simp [spacedPieces, punctuation]
      | false =>
          rw [library.tokensAt_later punctuation, List.filter_cons_of_pos (by rfl),
            library.filter_wordToTokens]
          simp [spacedPieces, punctuation]

/-- Without punctuation the pieces are blocks between spaces. -/
theorem filter_piecesTokens {list : List (List Char)}
    (visible : library.Visible list) :
    (library.piecesTokens list).filter isSpaceOrPhoneme =
      [16].intercalate (library.blocks list) := by
  cases list with
  | nil => rfl
  | cons first rest =>
      have later := library.filter_later
        fun ch mem => visible ch (List.mem_cons_of_mem first mem)
      rw [library.piecesTokens_cons, List.filter_append, later]
      cases punctuation : library.g2p.isPunctuation first with
      | true =>
          obtain ⟨ch, rfl, -⟩ := library.isPunctuation_iff.mp punctuation
          rw [library.filter_punctuation punctuation
            (visible ch List.mem_cons_self punctuation)]
          simp [blocks, spacedPieces, punctuation, intercalate_cons]
      | false =>
          rw [library.tokensAt_first punctuation, library.filter_wordToTokens]
          simp [blocks, spacedPieces, punctuation, intercalate_cons]

theorem blocks_ne_nil (list : List (List Char)) : library.blocks list ≠ [] := by
  cases list with
  | nil => simp [blocks]
  | cons first rest =>
      cases punctuation : library.g2p.isPunctuation first <;>
        simp [blocks, spacedPieces, punctuation]

theorem not_mem_blocks {list : List (List Char)} {block : List Int}
    (mem : block ∈ library.blocks list) : 16 ∉ block := by
  intro space
  obtain lead | said := List.mem_append.mp mem
  · split at lead
    case isTrue =>
      rw [List.mem_singleton.mp lead] at space
      cases space
    case isFalse => cases lead
  · obtain ⟨piece, -, rfl⟩ := List.mem_map.mp said
    have sound := library.le_of_mem_wordToTokens space
    omega

theorem filled_blocks (list : List (List Char)) :
    filled (library.blocks list) =
      filled ((library.spacedPieces list).map library.g2p.wordToTokens) := by
  rw [blocks]
  split <;> simp [filled]

theorem filled_blocks_isInfix (list : List (List Char)) :
    filled (library.blocks list) <:+: library.blocks list ↔
      filled ((library.spacedPieces list).map library.g2p.wordToTokens) <:+:
        (library.spacedPieces list).map library.g2p.wordToTokens := by
  rw [library.filled_blocks, blocks]
  split
  case isTrue => exact filled_isInfix_cons_nil
  case isFalse => rfl

/-! ## Words and silent pieces -/

theorem wordToTokens_eq_nil_iff {word : List Char} :
    library.g2p.wordToTokens word = [] ↔ word.any Char.isLower = false :=
  MisakiG2P.wordToTokens_eq_nil_iff _

theorem isPunctuation_of_isWord {piece : List Char}
    (word : library.isWord piece = true) :
    library.g2p.isPunctuation piece = false := by
  by_contra punctuation
  obtain ⟨ch, rfl, letter, number⟩ :=
    library.isPunctuation_iff.mp (by simpa using punctuation)
  simp only [isWord, List.any_cons, letter, Bool.false_or, List.any_nil,
    Bool.or_false] at word
  have numeric := (library.digit_class ch word).1
  rw [number] at numeric
  cases numeric

theorem isWord_of_lower {piece : List Char}
    (lower : piece.any Char.isLower = true) : library.isWord piece = true := by
  obtain ⟨ch, mem, isLower⟩ := List.any_eq_true.mp lower
  refine List.any_eq_true.mpr ⟨ch, mem, ?_⟩
  rw [library.lower_alphabetic ch isLower, Bool.true_or]

/-- The words are the pieces with a space that are words. -/
theorem words_eq_filter_spaced (text : List Char) :
    library.words text =
      (library.spacedPieces (library.pieces text)).filter library.isWord := by
  rw [library.words_eq, spacedPieces, List.filter_filter]
  refine List.filter_congr fun piece _ => ?_
  cases word : library.isWord piece with
  | true => simp [library.isPunctuation_of_isWord word]
  | false => simp

theorem isWord_eq_filled {text piece : List Char}
    (spelled : ∀ word ∈ library.words text, word.any Char.isLower = true)
    (mem : piece ∈ library.spacedPieces (library.pieces text)) :
    library.isWord piece = !(library.g2p.wordToTokens piece).isEmpty := by
  cases word : library.isWord piece with
  | true =>
      have lower := spelled piece (by
        rw [library.words_eq_filter_spaced]
        exact List.mem_filter.mpr ⟨mem, word⟩)
      have said : library.g2p.wordToTokens piece ≠ [] := by
        rw [Ne, library.wordToTokens_eq_nil_iff, lower]
        simp
      simp [said]
  | false =>
      have silent : library.g2p.wordToTokens piece = [] := by
        rw [library.wordToTokens_eq_nil_iff]
        by_contra lower
        rw [library.isWord_of_lower (by simpa using lower)] at word
        cases word
      simp [silent]

theorem heard_iff (text : List Char) :
    (∀ word ∈ library.words text,
        ∃ token ∈ library.g2p.wordToTokens word, isPhoneme token = true) ↔
      ∀ word ∈ library.words text, word.any Char.isLower = true := by
  refine forall₂_congr fun word _ => ?_
  rw [← Bool.not_eq_false, ← library.wordToTokens_eq_nil_iff]
  constructor
  · rintro ⟨token, mem, -⟩
    exact List.ne_nil_of_mem mem
  · intro said
    obtain ⟨token, mem⟩ := List.exists_mem_of_ne_nil _ said
    exact ⟨token, mem, isPhoneme_of_mem_wordToTokens _ mem⟩

theorem separated_iff {text : List Char}
    (spelled : ∀ word ∈ library.words text, word.any Char.isLower = true) :
    (∃ before after,
      (library.piecesTokens (library.pieces text)).filter isSpaceOrPhoneme =
        List.replicate before 16 ++
            [16].intercalate
              ((library.words text).map library.g2p.wordToTokens) ++
          List.replicate after 16) ↔
      library.words text <:+: library.spacedPieces (library.pieces text) := by
  have kept : ∀ piece ∈ library.spacedPieces (library.pieces text),
      library.isWord piece = !(library.g2p.wordToTokens piece).isEmpty :=
    fun _ mem => library.isWord_eq_filled spelled mem
  have said : (library.words text).map library.g2p.wordToTokens =
      filled (library.blocks (library.pieces text)) := by
    rw [library.filled_blocks, library.words_eq_filter_spaced, filled,
      List.filter_map]
    exact congrArg (List.map _) (List.filter_congr kept)
  rw [library.filter_piecesTokens (library.visible_pieces text), said,
    intercalate_iff_isInfix (library.blocks_ne_nil _)
      fun _ => library.not_mem_blocks,
    library.filled_blocks_isInfix, filled_map_isInfix kept,
    ← library.words_eq_filter_spaced]

/-! ## The first token -/

theorem isMute_punctuation {ch : Char}
    (punctuation : library.g2p.isPunctuation [ch] = true) :
    library.isMute [ch] = (phonemeVocab.lookup ch).isNone := by
  have entry : library.g2p.vocab (String.ofList [ch]) = phonemeVocab.lookup ch :=
    vocab_ofList _ ch
  rw [isMute, punctuation, entry, Bool.true_and]

theorem isMute_spaced {piece : List Char}
    (spaced : library.g2p.isPunctuation piece = false) :
    library.isMute piece = false := by
  rw [isMute, spaced, Bool.false_and]

theorem head?_finish (tokens : List Int) :
    (finish tokens).head? = some 16 ↔ tokens.head? = some 16 := by
  cases tokens with
  | nil => simp [finish]
  | cons token tokens =>
      rw [finish]
      split <;> simp

theorem lookup_ne_space {ch : Char} {token : Int}
    (punctuation : library.g2p.isPunctuation [ch] = true) (notSpace : ch ≠ ' ')
    (found : phonemeVocab.lookup ch = some token) : token ≠ 16 := by
  rintro rfl
  have other := library.lookup_punctuation punctuation notSpace found
  revert other
  decide

/-- Punctuation is said without a space, and passed over when it is mute. -/
theorem head?_punctuation {ch : Char}
    (punctuation : library.g2p.isPunctuation [ch] = true) (notSpace : ch ≠ ' ')
    (index : Nat) (others : List Int) :
    (library.g2p.tokensAt [ch] index ++ others).head? = some 16 ↔
      library.isMute [ch] = true ∧ others.head? = some 16 := by
  rw [library.tokensAt_punctuation punctuation,
    library.isMute_punctuation punctuation]
  cases found : phonemeVocab.lookup ch with
  | none => simp
  | some token =>
      have other := library.lookup_ne_space punctuation notSpace found
      simp [other]

theorem head?_later {rest : List (List Char)} (visible : library.Visible rest) :
    (rest.flatMap fun piece => library.g2p.tokensAt piece 1).head? = some 16 ↔
      ((rest.dropWhile library.isMute).head?.any fun piece =>
        !library.g2p.isPunctuation piece) = true := by
  induction rest with
  | nil => simp
  | cons piece rest ih =>
      have later := ih fun ch mem => visible ch (List.mem_cons_of_mem _ mem)
      rw [List.flatMap_cons]
      cases punctuation : library.g2p.isPunctuation piece with
      | true =>
          obtain ⟨ch, rfl, -⟩ := library.isPunctuation_iff.mp punctuation
          rw [library.head?_punctuation punctuation
              (visible ch List.mem_cons_self punctuation), later,
            List.dropWhile_cons]
          cases library.isMute [ch] <;> simp [punctuation]
      | false =>
          rw [library.tokensAt_later punctuation, List.dropWhile_cons,
            library.isMute_spaced punctuation]
          simp [punctuation]

theorem head?_piecesTokens {list : List (List Char)}
    (visible : library.Visible list) :
    (library.piecesTokens list).head? = some 16 ↔
      library.opensWithSpace list = true := by
  cases list with
  | nil => simp [piecesTokens, opensWithSpace]
  | cons first rest =>
      have later := library.head?_later
        fun ch mem => visible ch (List.mem_cons_of_mem first mem)
      rw [library.piecesTokens_cons, opensWithSpace]
      cases punctuation : library.g2p.isPunctuation first with
      | true =>
          obtain ⟨ch, rfl, -⟩ := library.isPunctuation_iff.mp punctuation
          rw [library.head?_punctuation punctuation
            (visible ch List.mem_cons_self punctuation), later]
          simp
      | false =>
          rw [library.tokensAt_first punctuation,
            library.isMute_spaced punctuation]
          cases said : library.g2p.wordToTokens first with
          | nil =>
              have silent := library.wordToTokens_eq_nil_iff.mp said
              simpa [silent] using later
          | cons token tokens =>
              have lower : first.any Char.isLower = true := by
                rw [← Bool.not_eq_false, ← library.wordToTokens_eq_nil_iff, said]
                simp
              have mem : token ∈ library.g2p.wordToTokens first := by
                rw [said]
                exact List.mem_cons_self
              have sound := library.le_of_mem_wordToTokens mem
              have other : token ≠ 16 := by omega
              simp [lower, other]

/-! ## The last token -/

theorem piecesTokens_concat (list : List (List Char)) (piece : List Char) :
    library.piecesTokens (list ++ [piece]) =
      library.piecesTokens list ++ library.g2p.tokensAt piece list.length := by
  rw [piecesTokens, List.zipIdx_append, List.flatMap_append, piecesTokens]
  simp

/-- A piece with a space has no token of punctuation, and it has a token unless
it is the first one. -/
theorem tokensAt_spaced {piece : List Char}
    (spaced : library.g2p.isPunctuation piece = false) (index : Nat) :
    (∀ token ∈ library.g2p.tokensAt piece index, 16 ≤ token) ∧
      (0 < index → library.g2p.tokensAt piece index ≠ []) := by
  have sounds : ∀ token ∈ library.g2p.wordToTokens piece, 16 ≤ token := by
    intro token mem
    have sound := library.le_of_mem_wordToTokens mem
    omega
  cases index with
  | zero =>
      rw [library.tokensAt_first spaced]
      exact ⟨sounds, fun positive => absurd positive (Nat.lt_irrefl 0)⟩
  | succ index =>
      rw [library.tokensAt_later spaced]
      exact ⟨List.forall_mem_cons.mpr ⟨le_refl 16, sounds⟩,
        fun _ => List.cons_ne_nil _ _⟩

/-- The symbols that end a sentence, with their tokens. -/
def sentenceEnds : List (Char × Int) :=
  [('.', 4), ('!', 5), ('?', 6)]

theorem period_mem : ('.', 4) ∈ sentenceEnds := by
  simp [sentenceEnds]

theorem exclamation_mem : ('!', 5) ∈ sentenceEnds := by
  simp [sentenceEnds]

theorem question_mem : ('?', 6) ∈ sentenceEnds := by
  simp [sentenceEnds]

theorem sentenceEnd_punctuation {ch : Char} {token : Int}
    (final : (ch, token) ∈ sentenceEnds) :
    library.g2p.isPunctuation [ch] = true ∧
      phonemeVocab.lookup ch = some token ∧ token < 16 := by
  have mem : ch ∈ ['.', '!', '?'] :=
    List.mem_map_of_mem (f := Prod.fst) final
  have kind := library.sentenceEnd_class ch mem
  refine ⟨library.isPunctuation_iff.mpr ⟨ch, rfl, kind⟩, ?_⟩
  simp only [sentenceEnds, List.mem_cons, Prod.mk.injEq, List.not_mem_nil,
    or_false] at final
  obtain ⟨rfl, rfl⟩ | ⟨rfl, rfl⟩ | ⟨rfl, rfl⟩ := final <;> decide

theorem lookup_eq_final_iff {ch : Char} {token : Int}
    (final : (ch, token) ∈ sentenceEnds) (other : Char) :
    phonemeVocab.lookup other = some token ↔ other = ch := by
  constructor
  · intro found
    exact phonemeVocab_inj _ (mem_of_lookup found) (ch, token)
      (List.mem_cons_of_mem _ final) rfl
  · rintro rfl
    simp only [sentenceEnds, List.mem_cons, Prod.mk.injEq, List.not_mem_nil,
      or_false] at final
    obtain ⟨rfl, rfl⟩ | ⟨rfl, rfl⟩ | ⟨rfl, rfl⟩ := final <;> decide

theorem lastHeard_concat (list : List (List Char)) (piece : List Char) :
    library.lastHeard (list ++ [piece]) =
      if library.isMute piece then library.lastHeard list else some piece := by
  rw [lastHeard, List.filter_append]
  cases mute : library.isMute piece <;> simp [mute, lastHeard]

/-- Behind a piece with a space no token of punctuation is the last one. -/
theorem getLast?_spaced_ne {piece : List Char}
    (spaced : library.g2p.isPunctuation piece = false) (list : List (List Char))
    {token : Int} (small : token < 16) :
    (library.piecesTokens (list ++ [piece])).getLast? ≠ some token := by
  obtain ⟨large, said⟩ := library.tokensAt_spaced spaced list.length
  intro last
  rw [library.piecesTokens_concat, List.getLast?_append] at last
  cases ends : (library.g2p.tokensAt piece list.length).getLast? with
  | none =>
      have first : list = [] := by
        by_contra more
        exact said (List.length_pos_iff.mpr more) (List.getLast?_eq_none_iff.mp ends)
      rw [ends, first] at last
      cases last
  | some other =>
      rw [ends] at last
      obtain rfl := Option.some.inj last
      have bound := large other (List.mem_of_getLast? ends)
      omega

theorem getLast?_piecesTokens {ch : Char} {token : Int}
    (final : (ch, token) ∈ sentenceEnds) (list : List (List Char)) :
    (library.piecesTokens list).getLast? = some token ↔
      library.lastHeard list = some [ch] := by
  obtain ⟨punctuationEnd, -, small⟩ := library.sentenceEnd_punctuation final
  induction list using List.reverseRecOn with
  | nil => simp [piecesTokens, lastHeard]
  | append_singleton list piece ih =>
      rw [library.lastHeard_concat]
      cases punctuation : library.g2p.isPunctuation piece with
      | true =>
          obtain ⟨other, rfl, -⟩ := library.isPunctuation_iff.mp punctuation
          rw [library.piecesTokens_concat, List.getLast?_append,
            library.tokensAt_punctuation punctuation,
            library.isMute_punctuation punctuation]
          cases found : phonemeVocab.lookup other with
          | none => simpa using ih
          | some said =>
              have same := lookup_eq_final_iff final other
              rw [found, Option.some.injEq] at same
              simpa using same
      | false =>
          have otherPiece : piece ≠ [ch] := by
            rintro rfl
            rw [punctuationEnd] at punctuation
            cases punctuation
          rw [library.isMute_spaced punctuation]
          simp [library.getLast?_spaced_ne punctuation list small, otherPiece]

theorem count_tokensAt (piece : List Char) (index : Nat) :
    (library.g2p.tokensAt piece index).count 4 = [piece].count ['.'] := by
  cases punctuation : library.g2p.isPunctuation piece with
  | true =>
      obtain ⟨other, rfl, -⟩ := library.isPunctuation_iff.mp punctuation
      have same := lookup_eq_final_iff period_mem other
      rw [library.tokensAt_punctuation punctuation]
      cases found : phonemeVocab.lookup other with
      | none =>
          rw [found] at same
          have differs : other ≠ '.' := fun isPeriod => by
            cases same.mpr isPeriod
          simp [differs]
      | some said =>
          rw [found, Option.some.injEq] at same
          simp [List.count_singleton, same]
  | false =>
      obtain ⟨large, -⟩ := library.tokensAt_spaced punctuation index
      have differs : piece ≠ ['.'] := by
        rintro rfl
        rw [(library.sentenceEnd_punctuation period_mem).1] at punctuation
        cases punctuation
      have noPeriod : 4 ∉ library.g2p.tokensAt piece index := fun mem => by
        have bound := large 4 mem
        omega
      rw [List.count_eq_zero.mpr noPeriod, List.count_singleton]
      simp [differs]

theorem count_piecesTokens (list : List (List Char)) :
    (library.piecesTokens list).count 4 = list.count ['.'] := by
  induction list using List.reverseRecOn with
  | nil => rfl
  | append_singleton list piece ih =>
      rw [library.piecesTokens_concat, List.count_append, List.count_append, ih,
        library.count_tokensAt]

theorem any_isFinal_iff (list : List (List Char)) :
    (library.piecesTokens list).getLast?.any isFinal = true ↔
      library.lastHeard list ∈ [some ['.'], some ['!'], some ['?']] := by
  simp only [List.mem_cons, List.not_mem_nil, or_false,
    ← library.getLast?_piecesTokens period_mem,
    ← library.getLast?_piecesTokens exclamation_mem,
    ← library.getLast?_piecesTokens question_mem]
  cases (library.piecesTokens list).getLast? <;> simp [isFinal, or_assoc]

/-! ## The end of a sentence -/

theorem pieces_concat {ch : Char} (mem : ch ∈ ['.', '!', '?'])
    (body : List Char) :
    library.pieces (body ++ [ch]) = library.pieces body ++ [[ch]] := by
  obtain ⟨other, visible⟩ := library.isWordChar_of_sentenceEnd mem
  exact library.tokenizeFrom_concat other visible [] body

theorem tokens_concat {ch : Char} {token : Int}
    (final : (ch, token) ∈ sentenceEnds) (body : List Char) :
    library.piecesTokens (library.pieces (body ++ [ch])) =
      library.piecesTokens (library.pieces body) ++ [token] := by
  obtain ⟨punctuation, found, -⟩ := library.sentenceEnd_punctuation final
  have mem : ch ∈ ['.', '!', '?'] := List.mem_map_of_mem (f := Prod.fst) final
  rw [library.pieces_concat mem, library.piecesTokens_concat,
    library.tokensAt_punctuation punctuation, found]
  rfl

theorem ending_period (body : List Char) :
    EndsSentence (body ++ ['.'])
        (finish (library.piecesTokens (library.pieces (body ++ ['.'])))) ↔
      library.EndsPlainly (body ++ ['.']) := by
  have last := library.tokens_concat period_mem body
  have dropped : (library.pieces (body ++ ['.'])).dropLast = library.pieces body := by
    rw [library.pieces_concat (by simp), List.dropLast_concat]
  rw [last, finish, if_pos (by simp), EndsSentence, if_pos (by simp), EndsPlainly,
    if_pos (by simp), dropped, ← library.any_isFinal_iff, Bool.not_eq_true]
  constructor
  · rintro ⟨other, token, same, -, plain⟩
    obtain ⟨rfl, -⟩ := List.append_inj' same rfl
    exact plain
  · intro plain
    exact ⟨_, 4, rfl, rfl, plain⟩

/-- A period is added behind the other two ends of a sentence. -/
theorem not_endsSentence {ch : Char} {token : Int}
    (final : (ch, token) ∈ sentenceEnds) (noPeriod : token ≠ 4)
    (body : List Char) :
    ¬ EndsSentence (body ++ [ch])
      (finish (library.piecesTokens (library.pieces (body ++ [ch])))) := by
  have ends : some ch ∈ [some '.', some '!', some '?'] :=
    List.mem_map_of_mem (f := fun entry => some entry.1) final
  have isEnd : isFinal token = true := by
    simp only [sentenceEnds, List.mem_cons, Prod.mk.injEq, List.not_mem_nil,
      or_false] at final
    obtain ⟨-, rfl⟩ | ⟨-, rfl⟩ | ⟨-, rfl⟩ := final <;> rfl
  rw [library.tokens_concat final, finish, if_neg (by simp [noPeriod]),
    EndsSentence, if_pos (by simpa using ends)]
  rintro ⟨other, last, same, -, plain⟩
  obtain ⟨rfl, -⟩ := List.append_inj' same rfl
  simp [isEnd] at plain

theorem ending_other {text : List Char}
    (other : text.getLast? ∉ [some '.', some '!', some '?']) :
    EndsSentence text (finish (library.piecesTokens (library.pieces text))) ↔
      library.EndsPlainly text := by
  have periods : (library.piecesTokens (library.pieces text)).count 4 =
      text.count '.' := by
    rw [library.count_piecesTokens]
    exact library.count_tokenizeFrom (by simp)
  have added := library.getLast?_piecesTokens period_mem (library.pieces text)
  have ends := other
  simp only [List.mem_cons, List.not_mem_nil, or_false, not_or] at ends
  rw [EndsSentence, if_neg other, EndsPlainly, if_neg ends.1, Ne, Ne, Ne, ← added,
    finish]
  split
  case isTrue isPeriod => simp [periods, isPeriod]
  case isFalse noPeriod => simp [periods, noPeriod, ends]

theorem ending_iff (text : List Char) :
    EndsSentence text (finish (library.piecesTokens (library.pieces text))) ↔
      library.EndsPlainly text := by
  by_cases ends : text.getLast? ∈ [some '.', some '!', some '?']
  · simp only [List.mem_cons, List.not_mem_nil, or_false,
      List.getLast?_eq_some_iff] at ends
    obtain ⟨body, rfl⟩ | ⟨body, rfl⟩ | ⟨body, rfl⟩ := ends
    · exact library.ending_period body
    · refine iff_of_false ?_ (by simp [EndsPlainly])
      exact library.not_endsSentence exclamation_mem (by decide) body
    · refine iff_of_false ?_ (by simp [EndsPlainly])
      exact library.not_endsSentence question_mem (by decide) body
  · exact library.ending_other ends

/-! ## Speech -/

theorem inRange_tokensAt (piece : List Char) (index : Nat) {token : Int}
    (mem : token ∈ library.g2p.tokensAt piece index) :
    1 ≤ token ∧ token ≤ 177 := by
  cases punctuation : library.g2p.isPunctuation piece with
  | true =>
      obtain ⟨ch, rfl, -⟩ := library.isPunctuation_iff.mp punctuation
      rw [library.tokensAt_punctuation punctuation, Option.mem_toList] at mem
      exact lookup_inRange mem
  | false =>
      cases index with
      | zero =>
          rw [library.tokensAt_first punctuation] at mem
          exact inRange_of_mem_wordToTokens _ mem
      | succ index =>
          rw [library.tokensAt_later punctuation] at mem
          obtain rfl | said := List.mem_cons.mp mem
          · decide
          · exact inRange_of_mem_wordToTokens _ said

theorem inRange_finish (list : List (List Char)) {token : Int}
    (mem : token ∈ finish (library.piecesTokens list)) :
    1 ≤ token ∧ token ≤ 177 := by
  have said : token ∈ library.piecesTokens list → 1 ≤ token ∧ token ≤ 177 := by
    intro inPieces
    obtain ⟨⟨piece, index⟩, -, inPiece⟩ := List.mem_flatMap.mp inPieces
    exact library.inRange_tokensAt piece index inPiece
  rw [finish] at mem
  split at mem
  case isTrue => exact said mem
  case isFalse =>
    obtain inPieces | added := List.mem_append.mp mem
    · exact said inPieces
    · obtain rfl := List.mem_singleton.mp added
      decide

theorem filter_finish (tokens : List Int) :
    (finish tokens).filter isSpaceOrPhoneme = tokens.filter isSpaceOrPhoneme := by
  rw [finish]
  split
  case isTrue => rfl
  case isFalse =>
    rw [List.filter_append]
    exact List.append_nil _

/-- The converter speaks a text exactly if its words have letters from a to z,
only punctuation stands between them, and no space or second period is said. -/
theorem textToTokens_speaks_iff (text : String) :
    library.Speaks (library.normalized text) (library.g2p.textToTokens text) ↔
      library.Readable (library.normalized text) := by
  have opening := (head?_finish (library.piecesTokens
    (library.pieces (library.normalized text)))).trans
      (library.head?_piecesTokens (library.visible_pieces _))
  have ending := library.ending_iff (library.normalized text)
  rw [textToTokens_eq]
  constructor
  · intro speaks
    have spelled := (library.heard_iff _).mp speaks.heard
    have separated := speaks.separated
    rw [filter_finish] at separated
    exact {
      spelled
      together := (library.separated_iff spelled).mp separated
      opening := by
        rw [← Bool.not_eq_true, ← opening]
        exact speaks.opening
      ending := ending.mp speaks.ending }
  · intro readable
    exact {
      inRange := fun _ mem => library.inRange_finish _ mem
      heard := (library.heard_iff _).mpr readable.spelled
      separated := by
        rw [filter_finish]
        exact (library.separated_iff readable.spelled).mpr readable.together
      opening := by
        rw [Ne, opening, Bool.not_eq_true]
        exact readable.opening
      ending := ending.mpr readable.ending }

/-! ## A text with digits -/

theorem isDigit_iff {ch : Char} :
    ch.isDigit = true ↔ 48 ≤ ch.toNat ∧ ch.toNat ≤ 57 := by
  simp only [Char.isDigit, Char.toNat, ge_iff_le, Bool.and_eq_true,
    decide_eq_true_eq, UInt32.le_iff_toNat_le]
  exact Iff.rfl

def isLetter (ch : Char) : Bool :=
  ch.isAlpha || isSounded ch

theorem isLetter_of_digit (ch : Char) (digit : ch.isDigit = true) :
    ch.isDigit = true ∧ isLetter ch = false ∧ isWhitespace ch = false := by
  refine ⟨digit, ?_⟩
  obtain ⟨least, most⟩ := isDigit_iff.mp digit
  have same : ch = Char.ofNat ch.toNat := (Char.ofNat_toNat ch).symm
  generalize ch.toNat = code at least most same
  subst same
  interval_cases code <;> decide

theorem isLetter_of_lower (ch : Char) (lower : ch.isLower = true) :
    isLetter ch = true := by
  have alpha : ch.isAlpha = (ch.isUpper || ch.isLower) := rfl
  rw [isLetter, alpha, lower, Bool.or_true, Bool.true_or]

theorem isLetter_of_sounded (ch : Char) (sounded : isSounded ch = true) :
    isLetter ch = true := by
  simp [isLetter, sounded]

theorem isLetter_of_sentenceEnd (ch : Char) (mem : ch ∈ ['.', '!', '?']) :
    isLetter ch = false ∧ ch.isDigit = false := by
  simp only [List.mem_cons, List.not_mem_nil, or_false] at mem
  obtain rfl | rfl | rfl := mem <;> decide

/-- The classes of the characters of ASCII and of the symbols for sounds. -/
def asciiLibrary : UnicodeLibrary where
  isAlphabetic := isLetter
  isNumeric := Char.isDigit
  toLowercase text := text.map Char.toLower
  debug text := String.ofList text
  isDigit := Char.isDigit
  digit_class := isLetter_of_digit
  lower_alphabetic := isLetter_of_lower
  sounded_alphabetic := isLetter_of_sounded
  sentenceEnd_class := isLetter_of_sentenceEnd

theorem helloWorld_speaks :
    asciiLibrary.Readable (asciiLibrary.normalized "Hello (world).") ∧
      asciiLibrary.Speaks (asciiLibrary.normalized "Hello (world).")
        (asciiLibrary.g2p.textToTokens "Hello (world).") := by
  have readable :
      asciiLibrary.Readable (asciiLibrary.normalized "Hello (world).") := {
    spelled := List.all_eq_true.mp (by decide +kernel)
    together := by decide +kernel
    opening := by decide +kernel
    ending := by
      unfold EndsPlainly
      decide +kernel }
  exact ⟨readable, (asciiLibrary.textToTokens_speaks_iff _).mpr readable⟩

/-- Three spaces and a period are said of the number. -/
theorem digits_not_spoken :
    asciiLibrary.g2p.textToTokens "Call 911" =
        [53, 156, 76, 54, 16, 16, 16, 4] ∧
      ¬ asciiLibrary.Speaks (asciiLibrary.normalized "Call 911")
        (asciiLibrary.g2p.textToTokens "Call 911") := by
  refine ⟨by decide +kernel, fun speaks => ?_⟩
  have mem : ['9'] ∈ asciiLibrary.words (asciiLibrary.normalized "Call 911") := by
    decide +kernel
  have lower := (asciiLibrary.heard_iff _).mp speaks.heard ['9'] mem
  revert lower
  decide

end UnicodeLibrary

end TorchInference
