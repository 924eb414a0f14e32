import TorchInference.KokoroEngine
import TorchInference.LossyUtf8
import TorchInference.PieceCover

/-!
# Splitting a text at byte positions

The splitter keeps two positions in the bytes of a text: where the sentence
begins, and where it reads.  A slice of the text panics when it is reversed,
out of range, or cuts a character.  The positions move as the reader of
characters does, so that no slice panics and nothing of the text is lost.
-/

namespace TorchInference

open PieceCover

/-! ## Slices -/

/-- `&text[start..]`. -/
def dropBytes : Nat → List Char → Option (List Char)
  | 0, text => some text
  | _ + 1, [] => none
  | start + 1, c :: rest =>
      if c.utf8Size ≤ start + 1 then dropBytes (start + 1 - c.utf8Size) rest
      else none

/-- `&text[start..stop]`. -/
def sliceBytes (text : List Char) (start stop : Nat) : Option (List Char) := do
  let rest ← dropBytes start text
  if start ≤ stop then takeBytes (stop - start) rest else none

/-- `bytes[index]`, if it is in range. -/
def byteAt (text : List Char) (index : Nat) : Option UInt8 :=
  (LossyUtf8.encode text)[index]?

/-- The position of the last space. -/
def rfindSpace (text : List Char) : Option Nat :=
  (splitAtLastSpace text).map fun halves => byteLength halves.1

structure SentenceSplitter where
  maxChars : Nat

/-- The sentences so far, and where the next one begins. -/
structure SplitState where
  sentences : List String
  start : Nat

namespace SentenceSplitter

/-- `sentences.push(text[start..stop].trim())`, unless it is empty. -/
def pushSlice (text : List Char) (sentences : List String)
    (start stop : Nat) : Option (List String) := do
  let sentence ← sliceBytes text start stop
  return sentences ++ keepSentence sentence

/-- Whether a space or the end of the text follows. -/
def followedAt (text : List Char) (after : Nat) : Option Bool :=
  if byteLength text ≤ after then some true
  else (dropBytes after text).map followedBySpace

/-- Look for a boundary at the character. -/
def splitAtBoundary (text : List Char) (i : Nat) (ch : Char)
    (state : SplitState) : Option SplitState :=
  if isBoundary ch then do
    let after := i + ch.utf8Size
    let followed ← followedAt text after
    if followed then
      let sentences ← pushSlice text state.sentences state.start after
      let skips := byteAt text after = some 32 ∨ byteAt text after = some 10
      return ⟨sentences, if skips then after + 1 else after⟩
    else return state
  else some state

/-- Split a sentence that has become too long. -/
def splitLong (splitter : SentenceSplitter) (text : List Char) (i : Nat)
    (state : SplitState) : Option SplitState :=
  if splitter.maxChars ≤ i - state.start then do
    let chunk ← sliceBytes text state.start i
    let splitAt := match rfindSpace chunk with
      | some position => state.start + position
      | none => i
    let sentences ← pushSlice text state.sentences state.start splitAt
    return ⟨sentences,
      if byteAt text splitAt = some 32 then splitAt + 1 else splitAt⟩
  else some state

/-- The loop and the remainder after it. -/
def splitLoop (splitter : SentenceSplitter) (text : List Char) (i : Nat)
    (state : SplitState) : Option (List String) :=
  if i < byteLength text then do
    let rest ← dropBytes i text
    let ch := rest.headD '\x00'
    let state ← splitAtBoundary text i ch state
    let state ← splitLong splitter text i state
    splitLoop splitter text (i + ch.utf8Size) state
  else pushSlice text state.sentences state.start (byteLength text)
termination_by byteLength text - i
decreasing_by
  have positive := (rest.headD '\x00').utf8Size_pos
  omega

/-- `split`, or nothing where it panics. -/
def split (splitter : SentenceSplitter) (text : String) :
    Option (List String) :=
  let trimmed := trim text.toList
  if trimmed.isEmpty then some []
  else splitLoop splitter trimmed 0 ⟨[], 0⟩

end SentenceSplitter

/-! ## Slices at the ends of characters -/

@[simp]
theorem byteLength_nil : byteLength [] = 0 :=
  rfl

@[simp]
theorem byteLength_append (text rest : List Char) :
    byteLength (text ++ rest) = byteLength text + byteLength rest := by
  simp [byteLength]

@[simp]
theorem byteLength_singleton (c : Char) : byteLength [c] = c.utf8Size := by
  simp [byteLength]

theorem length_encode (text : List Char) :
    (LossyUtf8.encode text).length = byteLength text := by
  simp [LossyUtf8.encode, byteLength, List.length_flatMap,
    String.length_utf8EncodeChar]

theorem takeBytes_append (start rest : List Char) :
    takeBytes (byteLength start) (start ++ rest) = some start :=
  takeBytes_eq_some.mpr ⟨rfl, rest, rfl⟩

theorem dropBytes_cons (c : Char) (count : Nat) (rest : List Char) :
    dropBytes (c.utf8Size + count) (c :: rest) = dropBytes count rest := by
  have positive := c.utf8Size_pos
  obtain ⟨before, length⟩ := Nat.exists_eq_add_one.mpr positive
  rw [length, Nat.add_right_comm, dropBytes, length, if_pos (by omega)]
  congr 1
  omega

theorem dropBytes_append (start rest : List Char) :
    dropBytes (byteLength start) (start ++ rest) = some rest := by
  induction start with
  | nil => rw [byteLength_nil, List.nil_append, dropBytes]
  | cons c start ih => rw [byteLength_cons, List.cons_append, dropBytes_cons, ih]

theorem sliceBytes_append (start middle rest : List Char) :
    sliceBytes (start ++ middle ++ rest) (byteLength start)
      (byteLength start + byteLength middle) = some middle := by
  rw [sliceBytes, List.append_assoc, dropBytes_append]
  simp [takeBytes_append]

theorem byteAt_append (start rest : List Char) :
    byteAt (start ++ rest) (byteLength start) =
      (LossyUtf8.encode rest).head? := by
  have encoded : LossyUtf8.encode (start ++ rest) =
      LossyUtf8.encode start ++ LossyUtf8.encode rest :=
    List.flatMap_append
  rw [byteAt, encoded, List.getElem?_append_right (length_encode start).le,
    length_encode, Nat.sub_self, List.head?_eq_getElem?]

/-- An ASCII byte at the beginning of a character is that character. -/
theorem byteAt_eq_ascii {byte : UInt8} (ascii : byte < 128)
    (start rest : List Char) :
    byteAt (start ++ rest) (byteLength start) = some byte ↔
      rest.head? = some (LossyUtf8.asciiChar byte) := by
  rw [byteAt_append]
  cases rest with
  | nil => simp [LossyUtf8.encode]
  | cons c rest =>
      have firstC := LossyUtf8.firstChar_encode_append c
        (LossyUtf8.encode rest)
      rw [show LossyUtf8.encode (c :: rest) =
        String.utf8EncodeChar c ++ LossyUtf8.encode rest from
          List.flatMap_cons ..]
      rw [List.head?_cons, Option.some.injEq]
      constructor
      · intro isFirst
        obtain ⟨others, bytes⟩ := List.head?_eq_some_iff.mp isFirst
        rw [bytes, LossyUtf8.firstChar_ascii ascii] at firstC
        exact (Option.some.inj firstC).symm
      · rintro rfl
        rw [LossyUtf8.encode_asciiChar ascii]
        rfl

theorem append_of_splitAtLastSpace {text before after : List Char}
    (found : splitAtLastSpace text = some (before, after)) :
    text = before ++ ' ' :: after := by
  unfold splitAtLastSpace at found
  rw [List.span_eq_takeWhile_dropWhile] at found
  split at found
  · cases found
  · rename_i back space front halves
    obtain ⟨isBack, isFront⟩ := Prod.mk.inj halves
    obtain ⟨rfl, rfl⟩ := Prod.mk.inj (Option.some.inj found)
    have isSpace := List.head?_dropWhile_not (· != ' ') text.reverse
    rw [isFront] at isSpace
    have space_eq : space = ' ' := by simpa using isSpace
    have whole : text.reverse.takeWhile (· != ' ') ++
        text.reverse.dropWhile (· != ' ') = text.reverse :=
      List.takeWhile_append_dropWhile
    rw [isBack, isFront, space_eq] at whole
    rw [← List.reverse_reverse text, ← whole]
    simp

namespace SentenceSplitter

theorem pushSlice_append (start middle rest : List Char)
    (sentences : List String) :
    pushSlice (start ++ middle ++ rest) sentences (byteLength start)
      (byteLength start + byteLength middle) =
        some (sentences ++ keepSentence middle) := by
  rw [pushSlice, sliceBytes_append]
  rfl

/-! ## One character -/

variable {start current rest : List Char} {c : Char} {sentences : List String}

/-- The slice after a boundary is taken only where something is left. -/
theorem followedAt_append (before rest : List Char) :
    followedAt (before ++ rest) (byteLength before) =
      some (followedBySpace rest) := by
  rw [followedAt, dropBytes_append]
  cases rest with
  | nil => simp [followedBySpace]
  | cons c rest =>
      have positive := c.utf8Size_pos
      rw [if_neg (by rw [byteLength_append, byteLength_cons]; omega)]
      rfl

/-- What follows a boundary is skipped unless nothing does. -/
theorem skips_iff {before rest : List Char}
    (followed : followedBySpace rest = true) :
    (byteAt (before ++ rest) (byteLength before) = some 32 ∨
      byteAt (before ++ rest) (byteLength before) = some 10) ↔ rest ≠ [] := by
  rw [byteAt_eq_ascii (by decide), byteAt_eq_ascii (by decide)]
  cases rest with
  | nil => simp
  | cons c rest =>
      have space : c = ' ' ∨ c = '\n' := by
        simpa [followedBySpace] using followed
      simpa [LossyUtf8.asciiChar] using space

/-- Where the character after a boundary is a space, it is skipped. -/
theorem splitAtBoundary_append :
    splitAtBoundary (start ++ current ++ c :: rest)
        (byteLength (start ++ current)) c ⟨sentences, byteLength start⟩ =
      some (if isBoundary c ∧ followedBySpace rest then
          ⟨sentences ++ keepSentence (current ++ [c]),
            byteLength (start ++ current ++ [c]) +
              if rest = [] then 0 else 1⟩
        else ⟨sentences, byteLength start⟩) := by
  have text : start ++ current ++ c :: rest =
      start ++ (current ++ [c]) ++ rest := by simp
  have after : byteLength (start ++ current) + c.utf8Size =
      byteLength (start ++ (current ++ [c])) := by
    simp [Nat.add_assoc]
  unfold splitAtBoundary
  by_cases boundary : isBoundary c = true
  · rw [if_pos boundary, text, after, List.append_assoc start current [c]]
    simp only [followedAt_append, Option.bind_eq_bind, Option.bind_some]
    by_cases followed : followedBySpace rest = true
    · have pushed := pushSlice_append start (current ++ [c]) rest sentences
      rw [← byteLength_append] at pushed
      simp only [followed, if_true, pushed, Option.bind_some,
        skips_iff followed, boundary, and_self]
      by_cases nothing : rest = []
      · simp only [nothing, ne_eq, not_true, if_false, if_true, Nat.add_zero]
        rfl
      · simp only [nothing, ne_eq, not_false_eq_true, if_true, if_false]
        rfl
    · rw [if_neg followed, if_neg (fun both => followed both.2)]
      rfl
  · rw [if_neg boundary, if_neg (by simp [boundary])]

/-- A sentence that is too long is split after its last space, or else before
the character. -/
theorem splitLong_append (splitter : SentenceSplitter) :
    splitLong splitter (start ++ current ++ c :: rest)
        (byteLength (start ++ current)) ⟨sentences, byteLength start⟩ =
      some (if splitter.maxChars ≤ byteLength current then
        match splitAtLastSpace current with
        | some (before, _) =>
            ⟨sentences ++ keepSentence before,
              byteLength (start ++ before ++ [' '])⟩
        | none => ⟨sentences ++ keepSentence current,
            byteLength (start ++ current) + if c = ' ' then 1 else 0⟩
        else ⟨sentences, byteLength start⟩) := by
  have length : byteLength (start ++ current) - byteLength start =
      byteLength current := by simp
  unfold splitLong
  rw [length]
  by_cases long : splitter.maxChars ≤ byteLength current
  · rw [if_pos long, if_pos long]
    have chunk := sliceBytes_append start current (c :: rest)
    rw [← byteLength_append] at chunk
    rw [chunk]
    simp only [Option.bind_eq_bind, Option.bind_some, rfindSpace]
    rcases Option.eq_none_or_eq_some (splitAtLastSpace current) with
      found | ⟨⟨before, after⟩, found⟩
    · have pushed := pushSlice_append start current (c :: rest) sentences
      rw [← byteLength_append] at pushed
      have space : byteAt (start ++ current ++ c :: rest)
          (byteLength (start ++ current)) = some 32 ↔ c = ' ' := by
        rw [byteAt_eq_ascii (by decide), List.head?_cons, Option.some.injEq]
        rfl
      simp only [found, Option.map_none, pushed, Option.bind_some, space]
      split_ifs <;> rfl
    · have whole : start ++ current ++ c :: rest =
          start ++ before ++ (' ' :: after ++ c :: rest) := by
        rw [append_of_splitAtLastSpace found]
        simp
      have pushed := pushSlice_append start before (' ' :: after ++ c :: rest)
        sentences
      rw [← whole] at pushed
      have space : byteAt (start ++ current ++ c :: rest)
          (byteLength start + byteLength before) = some 32 := by
        rw [whole, ← byteLength_append, byteAt_eq_ascii (by decide)]
        rfl
      simp only [found, Option.map_some, pushed, Option.bind_some, space,
        if_true]
      rw [byteLength_append, byteLength_append]
      rfl
  · rw [if_neg long, if_neg long]

/-! ## The loop -/

theorem splitLoop_end (splitter : SentenceSplitter)
    (start current : List Char) (sentences : List String) :
    splitLoop splitter (start ++ current) (byteLength (start ++ current))
        ⟨sentences, byteLength start⟩ =
      some (sentences ++ keepSentence current) := by
  have pushed := pushSlice_append start current [] sentences
  rw [List.append_nil, ← byteLength_append] at pushed
  rw [splitLoop, if_neg (lt_irrefl _), pushed]

theorem splitLoop_char (splitter : SentenceSplitter) (state : SplitState) :
    splitLoop splitter (start ++ c :: rest) (byteLength start) state = (do
      let state ← splitAtBoundary (start ++ c :: rest) (byteLength start) c state
      let state ← splitLong splitter (start ++ c :: rest) (byteLength start) state
      splitLoop splitter (start ++ [c] ++ rest) (byteLength (start ++ [c]))
        state) := by
  have positive := c.utf8Size_pos
  have inside : byteLength start < byteLength (start ++ c :: rest) := by
    rw [byteLength_append, byteLength_cons]
    omega
  rw [splitLoop, if_pos inside, dropBytes_append]
  simp

theorem splitLong_of_lt (splitter : SentenceSplitter)
    (positive : 1 ≤ splitter.maxChars) {text : List Char} {i : Nat}
    {state : SplitState} (passed : i ≤ state.start) :
    splitLong splitter text i state = some state := by
  rw [splitLong, if_neg (by omega)]

/-- Where the beginning of the sentence has passed the reading position, the
character is a space and is passed over. -/
theorem splitLoop_skip (splitter : SentenceSplitter)
    (positive : 1 ≤ splitter.maxChars) (space : followedBySpace (c :: rest)) :
    splitLoop splitter (start ++ c :: rest) (byteLength start)
        ⟨sentences, byteLength start + 1⟩ =
      splitLoop splitter (start ++ [c] ++ rest) (byteLength (start ++ [c]))
        ⟨sentences, byteLength (start ++ [c])⟩ := by
  have which : c = ' ' ∨ c = '\n' := by simpa [followedBySpace] using space
  have inner : isBoundary c = false ∧ c.utf8Size = 1 := by
    rcases which with rfl | rfl <;> decide
  rw [splitLoop_char, splitAtBoundary, if_neg (by simp [inner.1])]
  simp only [Option.bind_eq_bind, Option.bind_some]
  rw [splitLong_of_lt splitter positive (Nat.le_succ _), byteLength_append,
    byteLength_singleton, inner.2]
  rfl

/-- Where no boundary is found only the length of the sentence matters. -/
theorem splitLoop_inner (splitter : SentenceSplitter)
    (noBoundary : ¬(isBoundary c = true ∧ followedBySpace rest = true)) :
    splitLoop splitter (start ++ current ++ c :: rest)
        (byteLength (start ++ current)) ⟨sentences, byteLength start⟩ =
      splitLoop splitter (start ++ current ++ [c] ++ rest)
        (byteLength (start ++ current ++ [c]))
        (if splitter.maxChars ≤ byteLength current then
          match splitAtLastSpace current with
          | some (before, _) =>
              ⟨sentences ++ keepSentence before,
                byteLength (start ++ before ++ [' '])⟩
          | none => ⟨sentences ++ keepSentence current,
              byteLength (start ++ current) + if c = ' ' then 1 else 0⟩
          else ⟨sentences, byteLength start⟩) := by
  rw [splitLoop_char, splitAtBoundary_append, if_neg noBoundary]
  simp only [Option.bind_eq_bind, Option.bind_some, splitLong_append]

/-- At a boundary the sentence is kept, and the next one begins after the space
that follows. -/
theorem splitLoop_boundary (splitter : SentenceSplitter)
    (positive : 1 ≤ splitter.maxChars)
    (boundary : isBoundary c = true ∧ followedBySpace rest = true) :
    splitLoop splitter (start ++ current ++ c :: rest)
        (byteLength (start ++ current)) ⟨sentences, byteLength start⟩ =
      splitLoop splitter (start ++ current ++ [c] ++ rest)
        (byteLength (start ++ current ++ [c]))
        ⟨sentences ++ keepSentence (current ++ [c]),
          byteLength (start ++ current ++ [c]) +
            if rest = [] then 0 else 1⟩ := by
  rw [splitLoop_char, splitAtBoundary_append, if_pos boundary]
  simp only [Option.bind_eq_bind, Option.bind_some]
  rw [splitLong_of_lt splitter positive]
  · rfl
  · simp only [byteLength_append]
    omega

/-- The positions in the bytes follow the reader of characters. -/
theorem splitLoop_eq (splitter : SentenceSplitter)
    (positive : 1 ≤ splitter.maxChars) (skips : Bool)
    (current rest start : List Char) (sentences : List String)
    (skipped : skips = true →
      current = [] ∧ rest ≠ [] ∧ followedBySpace rest = true) :
    splitLoop splitter (start ++ current ++ rest)
        (byteLength (start ++ current))
        ⟨sentences, byteLength start + if skips then 1 else 0⟩ =
      some (sentences ++ splitFrom splitter.maxChars skips current rest) := by
  induction skips, current, rest using splitFrom.induct splitter.maxChars
      generalizing start sentences with
  | case1 skips current =>
      cases skips with
      | true => exact absurd rfl (skipped rfl).2.1
      | false =>
          rw [List.append_nil, splitFrom]
          exact splitLoop_end splitter start current sentences
  | case2 current c rest ih =>
      obtain ⟨rfl, -, space⟩ := skipped rfl
      have later := ih (start ++ [c]) sentences (by simp)
      simp only [List.append_nil] at later ⊢
      rw [splitFrom, ← later]
      exact splitLoop_skip splitter positive space
  | case3 current c rest boundary ih =>
      rw [splitFrom, if_pos boundary]
      simp only [Bool.false_eq_true, if_false, Nat.add_zero]
      rw [splitLoop_boundary splitter positive boundary, ← List.append_assoc]
      by_cases nothing : rest = []
      · subst nothing
        rw [List.append_nil, if_pos rfl]
        have finished := splitLoop_end splitter (start ++ current ++ [c]) []
          (sentences ++ keepSentence (current ++ [c]))
        rw [List.append_nil] at finished
        exact finished
      · have later := ih (start ++ current ++ [c])
          (sentences ++ keepSentence (current ++ [c]))
          fun _ => ⟨rfl, nothing, boundary.2⟩
        simp only [List.append_nil, if_true] at later
        rw [if_neg nothing]
        exact later
  | case4 current c rest noBoundary long before after found ih =>
      have text : start ++ current ++ [c] ++ rest =
          start ++ before ++ [' '] ++ (after ++ [c]) ++ rest := by
        simp [append_of_splitAtLastSpace found]
      have read : start ++ current ++ [c] =
          start ++ before ++ [' '] ++ (after ++ [c]) := by
        simp [append_of_splitAtLastSpace found]
      have later := ih (start ++ before ++ [' '])
        (sentences ++ keepSentence before) (by simp)
      rw [splitFrom, if_neg noBoundary, if_pos long]
      simp only [Bool.false_eq_true, if_false, Nat.add_zero, found] at later ⊢
      rw [splitLoop_inner splitter noBoundary, if_pos long]
      simp only [found]
      rw [text, read, later, List.append_assoc]
  | case5 current c rest noBoundary long noSpace ih =>
      rw [splitFrom, if_neg noBoundary, if_pos long]
      simp only [Bool.false_eq_true, if_false, Nat.add_zero, noSpace]
      rw [splitLoop_inner splitter noBoundary, if_pos long]
      simp only [noSpace]
      by_cases space : c = ' '
      · have later := ih (start ++ current ++ [c])
          (sentences ++ keepSentence current) (by simp)
        simp only [space, if_true, List.append_nil, Bool.false_eq_true,
          if_false, Nat.add_zero] at later ⊢
        rw [← List.append_assoc, ← later, byteLength_append _ [' ']]
        rfl
      · have later := ih (start ++ current)
          (sentences ++ keepSentence current) (by simp)
        simp only [space, Bool.false_eq_true, if_false, Nat.add_zero] at later ⊢
        rw [← List.append_assoc, ← later]
  | case6 current c rest noBoundary short ih =>
      have later := ih start sentences (by simp)
      rw [splitFrom, if_neg noBoundary, if_neg short, ← later]
      simp only [Bool.false_eq_true, if_false, Nat.add_zero]
      rw [splitLoop_inner splitter noBoundary, if_neg short,
        List.append_assoc start current [c]]

/-- The splitter never panics, and yields the sentences of the text. -/
theorem split_eq (splitter : SentenceSplitter)
    (positive : 1 ≤ splitter.maxChars) (text : String) :
    split splitter text = some (splitSentences splitter.maxChars text) := by
  unfold split splitSentences
  generalize trim text.toList = trimmed
  cases trimmed with
  | nil => rfl
  | cons c rest =>
      exact splitLoop_eq splitter positive false [] (c :: rest) [] [] (by simp)

/-! ## Nothing is lost -/

theorem covers_keepSentence (text : List Char) :
    Covers isWhitespace ((keepSentence text).map String.toList) text := by
  have covers := covers_strip isWhitespace text
  rw [show strip isWhitespace text = trim text from rfl] at covers
  unfold keepSentence
  split_ifs at covers ⊢
  · exact covers
  · simpa using covers

theorem stripped_of_mem_keepSentence {text : List Char} {sentence : String}
    (mem : sentence ∈ keepSentence text) :
    Stripped isWhitespace sentence.toList := by
  unfold keepSentence at mem
  split_ifs at mem with nothing
  · cases mem
  · obtain rfl := List.mem_singleton.mp mem
    rw [String.toList_ofList]
    exact stripped_strip isWhitespace nothing

theorem spaceApart : ∀ c ∈ [' '], isWhitespace c = true :=
  List.forall_mem_singleton.mpr (by decide)

/-- The sentences cover what has been read and what is left of the text. -/
theorem covers_splitFrom (maxChars : Nat) (skips : Bool)
    (current rest : List Char)
    (skipped : skips = true → current = [] ∧ followedBySpace rest = true) :
    Covers isWhitespace
      ((splitFrom maxChars skips current rest).map String.toList)
      (current ++ rest) := by
  induction skips, current, rest using splitFrom.induct maxChars with
  | case1 skips current =>
      rw [splitFrom, List.append_nil]
      exact covers_keepSentence current
  | case2 current c rest ih =>
      obtain ⟨rfl, space⟩ := skipped rfl
      have which : c = ' ' ∨ c = '\n' := by simpa [followedBySpace] using space
      rw [splitFrom]
      have apart : ∀ item ∈ [c], isWhitespace item = true := by
        rw [List.forall_mem_singleton]
        rcases which with rfl | rfl <;> decide
      exact (ih (by simp)).prepend apart
  | case3 current c rest boundary ih =>
      rw [splitFrom, if_pos boundary, List.map_append,
        List.append_cons current c rest]
      exact (covers_keepSentence _).append (ih fun _ => ⟨rfl, boundary.2⟩)
  | case4 current c rest noBoundary long before after found ih =>
      rw [splitFrom, if_neg noBoundary, if_pos long]
      simp only [found]
      rw [List.map_append, append_of_splitAtLastSpace found, List.append_assoc]
      refine (covers_keepSentence before).append ?_
      have later := (ih (by simp)).prepend spaceApart
      simpa using later
  | case5 current c rest noBoundary long noSpace ih =>
      rw [splitFrom, if_neg noBoundary, if_pos long]
      simp only [noSpace]
      rw [List.map_append]
      refine (covers_keepSentence current).append ?_
      by_cases space : c = ' '
      · have later := (ih (by simp)).prepend spaceApart
        simpa [space] using later
      · simpa [space] using ih (by simp)
  | case6 current c rest noBoundary short ih =>
      rw [splitFrom, if_neg noBoundary, if_neg short,
        List.append_cons current c rest]
      exact ih (by simp)

theorem covers_splitSentences (maxChars : Nat) (text : String) :
    Covers isWhitespace ((splitSentences maxChars text).map String.toList)
      text.toList := by
  obtain ⟨before, after, beforeApart, afterApart, whole⟩ :=
    append_strip_append isWhitespace text.toList
  have inner := covers_splitFrom maxChars false [] (trim text.toList) (by simp)
  have outer := (inner.append (.none afterApart)).prepend beforeApart
  rw [List.append_nil, List.nil_append, ← List.append_assoc] at outer
  rw [whole]
  exact outer

/-- The splitter always yields pieces of the text.  None is empty or has a
space at its ends, they follow one another with nothing but spaces beside them,
and together they have what is not a space of the text, in the same order. -/
theorem split_loses_nothing (splitter : SentenceSplitter)
    (positive : 1 ≤ splitter.maxChars) (text : String) :
    ∃ pieces, split splitter text = some pieces ∧
      (∀ piece ∈ pieces, Stripped isWhitespace piece.toList) ∧
      Covers isWhitespace (pieces.map String.toList) text.toList ∧
      (pieces.map String.toList).flatten.filter (fun c => !isWhitespace c) =
        text.toList.filter fun c => !isWhitespace c := by
  refine ⟨splitSentences splitter.maxChars text,
    split_eq splitter positive text, ?_,
    covers_splitSentences splitter.maxChars text,
    (covers_splitSentences splitter.maxChars text).filter_flatten⟩
  intro piece mem
  obtain ⟨sentence, kept⟩ := mem_keepSentence_of_mem_splitFrom mem
  exact stripped_of_mem_keepSentence kept

theorem shortSentences_lose_nothing :
    ∃ pieces, split ⟨12⟩ "A. Long words… und so weiter" = some pieces ∧
      (∀ piece ∈ pieces, Stripped isWhitespace piece.toList) ∧
      Covers isWhitespace (pieces.map String.toList)
        "A. Long words… und so weiter".toList ∧
      (pieces.map String.toList).flatten.filter (fun c => !isWhitespace c) =
        "A. Long words… und so weiter".toList.filter
          fun c => !isWhitespace c :=
  split_loses_nothing ⟨12⟩ (by decide) "A. Long words… und so weiter"

end SentenceSplitter

end TorchInference
