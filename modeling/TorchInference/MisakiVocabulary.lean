import TorchInference.KokoroEngine
import Mathlib.Tactic.IntervalCases

/-!
# The tables of the grapheme-to-phoneme converter

The vocabulary gives a token to every symbol, the dictionary a pronunciation to
some words.  Every pronunciation consists of symbols for sounds, and so does
that of a letter from a to z; a word has a token exactly if it has such a letter.
-/

namespace TorchInference

namespace MisakiG2P

/-- `PHONEME_VOCAB`, by the characters that its keys consist of. -/
def phonemeVocab : List (Char × Int) := [
    -- Punctuation & special
    (';', 1), (':', 2), (',', 3), ('.', 4), ('!', 5), ('?', 6), ('—', 9),
    ('…', 10), ('“', 11), ('(', 12), (')', 13), ('”', 14), ('„', 15),
    (' ', 16), (Char.ofNat 0x303, 17), ('ʣ', 18), ('ʥ', 19), ('ʦ', 20),
    ('ʨ', 21), ('ᵝ', 22), ('ꭧ', 23),
    -- Capital letters used as Kokoro diphthong encodings
    ('A', 24), ('I', 25), ('O', 31), ('Q', 33), ('S', 35), ('T', 36),
    ('W', 39), ('Y', 41), ('ᵊ', 42),
    -- Lowercase IPA (used as phoneme characters)
    ('a', 43), ('b', 44), ('c', 45), ('d', 46), ('e', 47), ('f', 48),
    ('h', 50), ('i', 51), ('j', 52), ('k', 53), ('l', 54), ('m', 55),
    ('n', 56), ('o', 57), ('p', 58), ('q', 59), ('r', 60), ('s', 61),
    ('t', 62), ('u', 63), ('v', 64), ('w', 65), ('x', 66), ('y', 67),
    ('z', 68),
    -- Extended IPA
    ('ɑ', 69), ('ɐ', 70), ('ɒ', 71), ('æ', 72), ('β', 75), ('ɔ', 76),
    ('ɕ', 77), ('ç', 78), ('ɖ', 80), ('ð', 81), ('ʤ', 82), ('ə', 83),
    ('ɚ', 85), ('ɛ', 86), ('ɜ', 87), ('ɟ', 90), ('ɡ', 92), ('ɥ', 99),
    ('ɨ', 101), ('ɪ', 102), ('ʝ', 103), ('ɯ', 110), ('ɰ', 111), ('ŋ', 112),
    ('ɳ', 113), ('ɲ', 114), ('ɴ', 115), ('ø', 116), ('ɸ', 118), ('θ', 119),
    ('œ', 120), ('ɹ', 123), ('ɾ', 125), ('ɻ', 126), ('ʁ', 128), ('ɽ', 129),
    ('ʂ', 130), ('ʃ', 131), ('ʈ', 132), ('ʧ', 133), ('ʊ', 135), ('ʋ', 136),
    ('ʌ', 138), ('ɣ', 139), ('ɤ', 140), ('χ', 142), ('ʎ', 143), ('ʒ', 147),
    ('ʔ', 148),
    -- Stress and length markers
    ('ˈ', 156), ('ˌ', 157), ('ː', 158), ('ʰ', 162), ('ʲ', 164),
    -- Tone/intonation
    ('↓', 169), ('→', 171), ('↗', 172), ('↘', 173), ('ᵻ', 177)]

/-- `PRONUNCIATION_DICT`. -/
def pronunciationDict : List (String × String) := [
    -- Greetings
    ("hello", "həlˈO"), ("hi", "hˈI"), ("hey", "hˈA"), ("goodbye", "ɡˌʊdbˈI"),
    ("bye", "bˈI"), ("thanks", "θˈæŋks"), ("thank", "θˈæŋk"),
    ("please", "plˈiz"), ("sorry", "sˈɔɹi"), ("you", "ju"),
    -- Pronouns
    ("i", "ˈI"), ("me", "mˌi"), ("my", "mI"), ("we", "wi"), ("us", "ˌʌs"),
    ("our", "ˌWəɹ"), ("he", "hi"), ("him", "hˌɪm"), ("his", "hɪz"),
    ("she", "ʃi"), ("her", "hɜɹ"), ("it", "ɪt"), ("its", "ɪts"),
    ("they", "ðA"), ("them", "ðˌɛm"), ("their", "ðɛɹ"), ("who", "hˌu"),
    ("what", "wˌʌt"), ("which", "wˌɪʧ"), ("where", "wˌɛɹ"), ("when", "wˌɛn"),
    ("why", "wˌI"), ("how", "hˌW"),
    -- Common verbs
    ("is", "ɪz"), ("am", "æm"), ("are", "ɑɹ"), ("was", "wʌz"),
    ("were", "wɜɹ"), ("be", "bi"), ("been", "bɪn"), ("have", "hæv"),
    ("has", "hæz"), ("had", "hæd"), ("do", "dˈu"), ("does", "dˈʌz"),
    ("did", "dˈɪd"), ("will", "wɪl"), ("would", "wʊd"), ("can", "kæn"),
    ("could", "kʊd"), ("should", "ʃˌʊd"), ("may", "mˈA"), ("might", "mˌIt"),
    ("must", "mˈʌst"), ("say", "sˈA"), ("said", "sˈɛd"), ("go", "ɡˌO"),
    ("went", "wˈɛnt"), ("come", "kˈʌm"), ("came", "kˈAm"), ("know", "nˈO"),
    ("think", "θˈɪŋk"), ("see", "sˈi"), ("look", "lˈʊk"), ("make", "mˌAk"),
    ("take", "tˈAk"), ("give", "ɡˈɪv"), ("find", "fˈInd"), ("tell", "tˈɛl"),
    ("ask", "ˈæsk"), ("keep", "kˈip"), ("hold", "hˈOld"), ("turn", "tˈɜɹn"),
    ("show", "ʃˈO"), ("start", "stˈɑɹt"), ("stop", "stˈɑp"), ("play", "plˈA"),
    ("run", "ɹˈʌn"), ("move", "mˈuv"), ("get", "ɡɛt"), ("put", "pˌʊt"),
    ("set", "sˈɛt"), ("write", "ɹˈIt"), ("help", "hˈɛlp"), ("need", "nˈid"),
    ("want", "wˈɑnt"), ("feel", "fˈil"), ("try", "tɹˈI"), ("leave", "lˈiv"),
    ("call", "kˈɔl"), ("let", "lˈɛt"), ("begin", "bəɡˈɪn"), ("live", "lˈIv"),
    ("use", "jˈuz"), ("listen", "lˈɪsᵊn"), ("hear", "hˈɪɹ"),
    ("speak", "spˈik"),
    -- Articles / determiners
    ("the", "ði"), ("a", "A"), ("an", "æn"), ("this", "ðɪs"), ("that", "ðæt"),
    ("these", "ðiz"), ("those", "ðOz"),
    -- Prepositions
    ("in", "ɪn"), ("on", "ˌɔn"), ("at", "æt"), ("to", "tu"), ("for", "fɔɹ"),
    ("of", "ʌv"), ("with", "wɪð"), ("from", "fɹʌm"), ("by", "bI"),
    ("about", "əbˈWt"), ("into", "ˈɪntu"), ("through", "θɹu"),
    ("during", "dˈʊɹɪŋ"), ("without", "wɪðˈWt"), ("under", "ˈʌndəɹ"),
    ("within", "wɪðˈɪn"), ("after", "ˈæftəɹ"), ("before", "bəfˈɔɹ"),
    ("between", "bətwˈin"),
    -- Common nouns
    ("world", "wˈɜɹld"), ("time", "tˈIm"), ("day", "dˈA"), ("year", "jˈɪɹ"),
    ("way", "wˈA"), ("thing", "θˈɪŋ"), ("man", "mˈæn"), ("woman", "wˈʊmən"),
    ("child", "ʧˈIld"), ("people", "pˈipᵊl"), ("life", "lˈIf"),
    ("work", "wˈɜɹk"), ("place", "plˈAs"), ("home", "hˈOm"), ("here", "hˈɪɹ"),
    ("there", "ðɛɹ"), ("now", "nˈW"), ("all", "ˈɔl"), ("then", "ðˈɛn"),
    ("well", "wˈɛl"), ("even", "ˈivən"), ("back", "bˈæk"), ("also", "ˈɔlsO"),
    ("because", "bəkˈʌz"),
    -- Adjectives
    ("good", "ɡˈʊd"), ("great", "ɡɹˈAt"), ("new", "nˈu"), ("first", "fˈɜɹst"),
    ("last", "lˈæst"), ("long", "lˈɔŋ"), ("little", "lˈɪTᵊl"), ("own", "ˈOn"),
    ("right", "ɹˈIt"), ("big", "bˈɪɡ"), ("high", "hˈI"),
    ("different", "dˈɪfəɹənt"), ("real", "ɹˈiᵊl"), ("small", "smˈɔl"),
    ("large", "lˈɑɹʤ"), ("very", "vˈɛɹi"), ("more", "mˈɔɹ"),
    ("most", "mˈOst"), ("other", "ˈʌðəɹ"), ("same", "sˈAm"),
    ("another", "ənˈʌðəɹ"), ("always", "ˈɔlwˌAz"), ("never", "nˈɛvəɹ"),
    ("often", "ˈɔfᵊn"), ("usually", "jˈuʒəwəli"), ("too", "tˈu"),
    -- Numbers
    ("one", "wˈʌn"), ("two", "tˈu"), ("three", "θɹˈi"), ("four", "fˈɔɹ"),
    ("five", "fˈIv"), ("six", "sˈɪks"), ("seven", "sˈɛvən"), ("eight", "ˈAt"),
    ("nine", "nˈIn"), ("ten", "tˈɛn"),
    -- Test / pangram words
    ("quick", "kwˈɪk"), ("brown", "bɹˈWn"), ("fox", "fˈɑks"),
    ("jumps", "ʤˈʌmps"), ("over", "ˈOvəɹ"), ("lazy", "lˈAzi"),
    ("dog", "dˈɔɡ"), ("today", "tədˈA"), ("test", "tˈɛst"),
    ("testing", "tˈɛstɪŋ"), ("speech", "spˈiʧ"), ("synthesis", "sˈɪnθəsɪs"),
    -- TTS-related words
    ("voice", "vˈYs"), ("sound", "sˈWnd"), ("music", "mjˈuzɪk"),
    ("audio", "ˈɔdiO"), ("text", "tˈɛkst"), ("word", "wˈɜɹd"),
    ("sentence", "sˈɛntᵊns"),
    -- Tech words
    ("system", "sˈɪstəm"), ("program", "pɹˈOɡɹˌæm"),
    ("computer", "kəmpjˈuTəɹ"), ("language", "lˈæŋɡwɪʤ"),
    ("number", "nˈʌmbəɹ"), ("service", "sˈɜɹvəs"), ("hand", "hˈænd"),
    ("point", "pˈYnt"), ("part", "pˈɑɹt"), ("case", "kˈAs"), ("week", "wˈik"),
    ("company", "kˈʌmpᵊni"), ("fact", "fˈækt"), ("group", "ɡɹˈup"),
    ("problem", "pɹˈɑbləm")]

/-- The token of a symbol; every key is one character. -/
def symbolToken (symbol : String) : Option Int :=
  (phonemeVocab.map fun entry => ([entry.1], entry.2)).lookup symbol.toList

theorem lookup_singletons (ch : Char) (table : List (Char × Int)) :
    (table.map fun entry => ([entry.1], entry.2)).lookup [ch] =
      table.lookup ch := by
  induction table with
  | nil => rfl
  | cons entry table ih =>
      obtain ⟨other, token⟩ := entry
      rw [List.map_cons, List.lookup_cons, List.lookup_cons, ih]
      simp

@[simp] theorem symbolToken_singleton (ch : Char) :
    symbolToken (String.singleton ch) = phonemeVocab.lookup ch := by
  rw [symbolToken, String.toList_singleton, lookup_singletons]

theorem symbolToken_period : symbolToken "." = some 4 := by
  decide

/-- The converter with its tables. -/
def new (library : TextLibrary) : MisakiG2P where
  library
  vocab := symbolToken
  dict word := pronunciationDict.lookup word
  hasPeriod := symbolToken_period

/-! ## Tokens -/

/-- Tokens of sounds: those up to 17 are of punctuation, of the space and of the
combining tilde, and the four others are of the arrows of intonation. -/
def isPhoneme (token : Int) : Bool :=
  18 ≤ token && token ≠ 169 && token ≠ 171 && token ≠ 172 && token ≠ 173

def isSounded (ch : Char) : Bool :=
  (phonemeVocab.lookup ch).any isPhoneme

theorem not_isPhoneme_of_le {token : Int} (small : token ≤ 17) :
    isPhoneme token = false := by
  have low : ¬ 18 ≤ token := by omega
  simp [isPhoneme, low]

theorem mem_of_lookup {ch : Char} {token : Int}
    (found : phonemeVocab.lookup ch = some token) :
    (ch, token) ∈ phonemeVocab := by
  obtain ⟨before, after, split, -⟩ := List.lookup_eq_some_iff.mp found
  rw [split]
  exact List.mem_append_right _ List.mem_cons_self

theorem phonemeVocab_inRange :
    ∀ entry ∈ phonemeVocab, 1 ≤ entry.2 ∧ entry.2 ≤ 177 := by
  decide

/-- The tokens of the space and of the ends of a sentence have one symbol. -/
theorem phonemeVocab_inj : ∀ entry ∈ phonemeVocab,
    ∀ other ∈ [(' ', 16), ('.', 4), ('!', 5), ('?', 6)],
      entry.2 = other.2 → entry.1 = other.1 := by
  decide

theorem lookup_inRange {ch : Char} {token : Int}
    (found : phonemeVocab.lookup ch = some token) :
    1 ≤ token ∧ token ≤ 177 :=
  phonemeVocab_inRange _ (mem_of_lookup found)

section Tables

variable (library : TextLibrary)

@[simp] theorem vocab_singleton (ch : Char) :
    (new library).vocab (String.singleton ch) = phonemeVocab.lookup ch :=
  symbolToken_singleton ch

@[simp] theorem vocab_ofList (ch : Char) :
    (new library).vocab (String.ofList [ch]) = phonemeVocab.lookup ch :=
  symbolToken_singleton ch

@[simp] theorem vocab_space : (new library).vocab " " = some 16 :=
  vocab_singleton library ' '

@[simp] theorem vocab_period : (new library).vocab "." = some 4 :=
  symbolToken_period

/-! ## Pronunciations -/

/-- A pronunciation without a symbol that is skipped. -/
def isSpoken (ipa : String) : Bool :=
  !ipa.toList.isEmpty && ipa.toList.all isSounded

theorem exists_token_of_isSounded {ch : Char} (sounded : isSounded ch = true) :
    ∃ token, phonemeVocab.lookup ch = some token ∧ isPhoneme token = true := by
  rw [isSounded, Option.any_eq_true] at sounded
  exact sounded

theorem isPhoneme_of_mem_phonemeString {ipa : String}
    (spoken : isSpoken ipa = true) {token : Int}
    (mem : token ∈ (new library).phonemeStringToTokens ipa) :
    isPhoneme token = true := by
  obtain ⟨ch, inIpa, found⟩ := List.mem_filterMap.mp mem
  rw [vocab_singleton] at found
  have sounded : isSounded ch = true :=
    List.all_eq_true.mp (Bool.and_eq_true_iff.mp spoken).2 ch inIpa
  obtain ⟨other, same, phoneme⟩ := exists_token_of_isSounded sounded
  obtain rfl : other = token := Option.some.inj (same.symm.trans found)
  exact phoneme

theorem phonemeString_ne_nil {ipa : String} (spoken : isSpoken ipa = true) :
    (new library).phonemeStringToTokens ipa ≠ [] := by
  obtain ⟨nonempty, sounded⟩ := Bool.and_eq_true_iff.mp spoken
  obtain ⟨ch, rest, split⟩ : ∃ ch rest, ipa.toList = ch :: rest := by
    cases symbols : ipa.toList with
    | nil => simp [symbols] at nonempty
    | cons ch rest => exact ⟨ch, rest, rfl⟩
  have first : isSounded ch = true :=
    List.all_eq_true.mp sounded ch (by simp [split])
  obtain ⟨token, found, -⟩ := exists_token_of_isSounded first
  have mem : token ∈ (new library).phonemeStringToTokens ipa :=
    List.mem_filterMap.mpr ⟨ch, by simp [split], by rw [vocab_singleton, found]⟩
  exact List.ne_nil_of_mem mem

end Tables

/-! ## Letters -/

theorem isLower_iff {ch : Char} :
    ch.isLower = true ↔ 97 ≤ ch.toNat ∧ ch.toNat ≤ 122 := by
  change (decide ('a'.val ≤ ch.val) && decide (ch.val ≤ 'z'.val)) = true ↔ _
  rw [Bool.and_eq_true, decide_eq_true_eq, decide_eq_true_eq,
    UInt32.le_iff_toNat_le, UInt32.le_iff_toNat_le]
  exact Iff.rfl

theorem exists_letterIpa {ch : Char} (lower : ch.isLower = true) :
    ∃ ipa, letterIpa ch = some ipa := by
  obtain ⟨least, most⟩ := isLower_iff.mp lower
  have same : ch = Char.ofNat ch.toNat := (Char.ofNat_toNat ch).symm
  generalize ch.toNat = code at least most same
  subst same
  interval_cases code <;> exact ⟨_, rfl⟩

/-- Only the letters a to z are spelled, and by symbols for sounds. -/
theorem letterIpa_spec {ch : Char} {ipa : String}
    (found : letterIpa ch = some ipa) :
    ch.isLower = true ∧ isSpoken ipa = true := by
  unfold letterIpa at found
  split at found <;> cases found <;> exact ⟨rfl, by decide⟩

/-! ## Entries of the dictionary -/

/-- The symbols of the pronunciations, the most frequent ones first. -/
def dictionarySymbols : String :=
  "ˈtɹnsɪləmkwidɛˌhIAæpʌbɔuðvfOzɡʊŋɜɑθWᵊjʃʧʤTYʒ"

def dictionaryCodes : List Nat :=
  dictionarySymbols.toList.map Char.toNat

theorem lookup_codes (ch : Char) (table : List (Char × Int)) :
    (table.map fun entry => (entry.1.toNat, entry.2)).lookup ch.toNat =
      table.lookup ch := by
  induction table with
  | nil => rfl
  | cons entry table ih =>
      obtain ⟨other, token⟩ := entry
      have same : (ch.toNat == other.toNat) = (ch == other) := by
        rw [Bool.eq_iff_iff, beq_iff_eq, beq_iff_eq, Char.toNat_inj]
      rw [List.map_cons, List.lookup_cons, List.lookup_cons, ih, same]

theorem isSounded_of_codes {symbols : List Char}
    (sounded : (symbols.all fun ch => ((phonemeVocab.map fun entry =>
      (entry.1.toNat, entry.2)).lookup ch.toNat).any isPhoneme) = true) :
    (String.ofList symbols).toList.all isSounded = true := by
  rw [String.toList_ofList]
  simp only [lookup_codes] at sounded
  exact sounded

theorem isSounded_dictionarySymbols :
    dictionarySymbols.toList.all isSounded = true :=
  isSounded_of_codes (by decide)

/-- A word with a letter and a pronunciation; symbols are compared as numbers. -/
def isPronounced (entry : String × String) : Bool :=
  entry.1.toList.any Char.isLower && !entry.2.toList.isEmpty &&
    entry.2.toList.all fun ch => dictionaryCodes.contains ch.toNat

theorem all_isPronounced_cons {word ipa : List Char} {table : List (String × String)}
    (letter : word.any Char.isLower = true)
    (symbols : (!ipa.isEmpty && ipa.all fun ch => dictionaryCodes.contains ch.toNat) =
      true) (rest : table.all isPronounced = true) :
    ((String.ofList word, String.ofList ipa) :: table).all isPronounced = true := by
  rw [List.all_cons, rest, isPronounced, String.toList_ofList, String.toList_ofList,
    letter, Bool.true_and, Bool.and_true, symbols]

theorem all_isPronounced : pronunciationDict.all isPronounced = true := by
  repeat refine all_isPronounced_cons rfl rfl ?_
  rfl

theorem isSpoken_of_lookup {word ipa : String}
    (found : pronunciationDict.lookup word = some ipa) :
    word.toList.any Char.isLower = true ∧ isSpoken ipa = true := by
  obtain ⟨before, after, split, -⟩ := List.lookup_eq_some_iff.mp found
  have mem : (word, ipa) ∈ pronunciationDict := by simp [split]
  have entry := List.all_eq_true.mp all_isPronounced _ mem
  simp only [isPronounced, Bool.and_eq_true] at entry
  obtain ⟨⟨letter, nonempty⟩, symbols⟩ := entry
  refine ⟨letter, ?_⟩
  rw [isSpoken, nonempty, Bool.true_and, List.all_eq_true]
  intro ch inIpa
  have code := List.all_eq_true.mp symbols ch inIpa
  rw [List.contains_iff_mem, dictionaryCodes, List.mem_map] at code
  obtain ⟨symbol, inSymbols, same⟩ := code
  obtain rfl : symbol = ch := Char.toNat_inj.mp same
  exact List.all_eq_true.mp isSounded_dictionarySymbols symbol inSymbols

/-! ## Words -/

section Words

variable (library : TextLibrary)

theorem isPhoneme_of_mem_wordToTokens {word : List Char} {token : Int}
    (mem : token ∈ (new library).wordToTokens word) :
    isPhoneme token = true := by
  unfold wordToTokens at mem
  split at mem
  case h_1 ipa found =>
    exact isPhoneme_of_mem_phonemeString library (isSpoken_of_lookup found).2 mem
  case h_2 =>
    obtain ⟨ipa, inWord, inIpa⟩ := List.mem_flatMap.mp mem
    obtain ⟨ch, -, found⟩ := List.mem_filterMap.mp inWord
    exact isPhoneme_of_mem_phonemeString library (letterIpa_spec found).2 inIpa

theorem inRange_of_mem_wordToTokens {word : List Char} {token : Int}
    (mem : token ∈ (new library).wordToTokens word) :
    1 ≤ token ∧ token ≤ 177 := by
  have ofString : ∀ ipa, token ∈ (new library).phonemeStringToTokens ipa →
      1 ≤ token ∧ token ≤ 177 := by
    intro ipa inIpa
    obtain ⟨ch, -, found⟩ := List.mem_filterMap.mp inIpa
    rw [vocab_singleton] at found
    exact lookup_inRange found
  unfold wordToTokens at mem
  split at mem
  case h_1 ipa _ => exact ofString ipa mem
  case h_2 =>
    obtain ⟨ipa, -, inIpa⟩ := List.mem_flatMap.mp mem
    exact ofString ipa inIpa

/-- A word has no token exactly if it has none of the letters a to z. -/
theorem wordToTokens_eq_nil_iff {word : List Char} :
    (new library).wordToTokens word = [] ↔ word.any Char.isLower = false := by
  unfold wordToTokens
  split
  case h_1 ipa found =>
    obtain ⟨letter, spoken⟩ := isSpoken_of_lookup found
    rw [String.toList_ofList] at letter
    simp [letter, phonemeString_ne_nil library spoken]
  case h_2 =>
    rw [letterFallback, List.flatMap_eq_nil_iff, ← Bool.not_eq_true,
      List.any_eq_true]
    constructor
    · rintro silent ⟨ch, inWord, lower⟩
      obtain ⟨ipa, found⟩ := exists_letterIpa lower
      exact phonemeString_ne_nil library (letterIpa_spec found).2
        (silent ipa (List.mem_filterMap.mpr ⟨ch, inWord, found⟩))
    · intro noLetter ipa inWord
      obtain ⟨ch, mem, found⟩ := List.mem_filterMap.mp inWord
      exact absurd ⟨ch, mem, (letterIpa_spec found).1⟩ noLetter

end Words

end MisakiG2P

end TorchInference
