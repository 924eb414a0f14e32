import TorchInference.PlannerDsl

/-!
# The arguments of a step as pieces

The arguments are split at the commas that stand outside of texts in quotation
marks and of double braces.  The splitter counts double braces, and its count
goes below zero where a pair closes that was never opened.  The reading that is
meant stays at zero there.  The arguments that have been read come from the
pieces of that reading just when both counts agree about every comma.
-/

namespace TorchInference

namespace PlannerDsl

open ClassPatterns

/-! ## Readers -/

/-- How pairs of braces are counted. -/
structure BraceCount (Depth : Type) where
  zero : Depth
  up : Depth → Depth
  down : Depth → Depth

/-- The count of the splitter. -/
def codeCount : BraceCount Int32 := ⟨0, (· + 1), saturatingPred⟩

/-- The count that stays at zero where nothing is open. -/
def plainCount : BraceCount Nat := ⟨0, (· + 1), (· - 1)⟩

/-- Where a reader of arguments stands: whether the second of two braces comes
next, whether a quotation mark is open, and how many pairs of braces are. -/
structure Reader (Depth : Type) where
  passing : Bool
  inStr : Bool
  depth : Depth
  deriving DecidableEq

section Readers

variable {Depth : Type} [DecidableEq Depth] (count : BraceCount Depth)

/-- Outside of everything. -/
def BraceCount.outside : Reader Depth := ⟨false, false, count.zero⟩

/-- A character has been read, and others are ahead. -/
def Reader.next (reader : Reader Depth) (c : Char) (ahead : List Char) :
    Reader Depth :=
  if reader.passing = true then ⟨false, reader.inStr, reader.depth⟩
  else if c = '"' ∧ reader.depth = count.zero then
    ⟨false, !reader.inStr, reader.depth⟩
  else if c = '\x7b' ∧ reader.inStr = false ∧ ahead.head? = some '\x7b' then
    ⟨true, reader.inStr, count.up reader.depth⟩
  else if c = '\x7d' ∧ reader.inStr = false ∧ ahead.head? = some '\x7d' then
    ⟨true, reader.inStr, count.down reader.depth⟩
  else reader

/-- The reader that stands before a position. -/
def Reader.before (reader : Reader Depth) : List Char → Nat → Reader Depth
  | c :: text, index + 1 =>
      Reader.before (reader.next count c text) text index
  | _, _ => reader

/-- The pieces of a text, given what has been read of the first one. -/
def piecesFrom (reader : Reader Depth) (buf : List Char) :
    List Char → List (List Char)
  | [] => if buf.isEmpty then [] else [buf]
  | c :: text =>
      if c = ',' ∧ reader = count.outside then
        buf :: piecesFrom count.outside [] text
      else piecesFrom (reader.next count c text) (buf ++ [c]) text

def pieces (text : List Char) : List (List Char) :=
  piecesFrom count count.outside [] text

theorem piecesFrom_cons_of_ne {c : Char} (noComma : c ≠ ',')
    (reader : Reader Depth) (buf text : List Char) :
    piecesFrom count reader buf (c :: text) =
      piecesFrom count (reader.next count c text) (buf ++ [c]) text := by
  rw [piecesFrom, if_neg (fun both => noComma both.1)]

theorem piecesFrom_comma (buf text : List Char) :
    piecesFrom count count.outside buf (',' :: text) =
      buf :: piecesFrom count count.outside [] text := by
  rw [piecesFrom, if_pos ⟨rfl, rfl⟩]

theorem piecesFrom_comma_inside {reader : Reader Depth}
    (inside : reader ≠ count.outside) (buf text : List Char) :
    piecesFrom count reader buf (',' :: text) =
      piecesFrom count (reader.next count ',' text) (buf ++ [',']) text := by
  rw [piecesFrom, if_neg (fun both => inside both.2)]

/-- What has been read is in the first piece. -/
theorem piecesFrom_begins (reader : Reader Depth) {buf : List Char}
    (nonempty : buf ≠ []) (text : List Char) :
    ∃ more others, piecesFrom count reader buf text = (buf ++ more) :: others := by
  induction text generalizing reader buf with
  | nil =>
      refine ⟨[], [], ?_⟩
      rw [piecesFrom, List.isEmpty_eq_false_iff.mpr nonempty, List.append_nil]
      rfl
  | cons c text ih =>
      rw [piecesFrom]
      split_ifs
      · exact ⟨[], _, by rw [List.append_nil]⟩
      · obtain ⟨more, others, begins⟩ :=
          ih (reader.next count c text)
            (List.append_ne_nil_of_right_ne_nil buf (List.cons_ne_nil c []))
        refine ⟨c :: more, others, begins.trans ?_⟩
        rw [List.append_assoc]
        rfl

/-- Outside of everything spaces change nothing. -/
theorem BraceCount.outside_next {c : Char} (space : isWhitespace c = true)
    (ahead : List Char) :
    count.outside.next count c ahead = count.outside := by
  have noQuote : c ≠ '"' := by rintro rfl; exact absurd space (by decide)
  have noOpening : c ≠ '\x7b' := by rintro rfl; exact absurd space (by decide)
  have noClosing : c ≠ '\x7d' := by rintro rfl; exact absurd space (by decide)
  simp [Reader.next, outside, noQuote, noOpening, noClosing]

end Readers

/-- The splitter's count, step by step. -/
theorem codeCount_next (inStr : Bool) (depth : Int32) (c : Char)
    (ahead : List Char) :
    (⟨false, inStr, depth⟩ : Reader Int32).next codeCount c ahead =
      if c = '"' ∧ depth = 0 then ⟨false, !inStr, depth⟩
      else if c = '\x7b' ∧ inStr = false ∧ ahead.head? = some '\x7b' then
        ⟨true, inStr, depth + 1⟩
      else if c = '\x7d' ∧ inStr = false ∧ ahead.head? = some '\x7d' then
        ⟨true, inStr, saturatingPred depth⟩
      else ⟨false, inStr, depth⟩ := rfl

theorem eq_outside_codeCount {inStr : Bool} {depth : Int32} :
    (⟨false, inStr, depth⟩ : Reader Int32) = codeCount.outside ↔
      inStr = false ∧ depth = 0 := by
  simp [BraceCount.outside, codeCount]

/-- The splitter yields the pieces of its own count. -/
theorem splitTopLevelFrom_eq_piecesFrom (text : List Char) :
    (∀ inStr depth buf, splitTopLevelFrom false inStr depth buf text =
      piecesFrom codeCount ⟨false, inStr, depth⟩ buf text) ∧
    ∀ inStr depth buf c, c ≠ ',' → text.head? = some c →
      splitTopLevelFrom true inStr depth (buf ++ [c]) text =
        piecesFrom codeCount ⟨true, inStr, depth⟩ buf text := by
  induction text with
  | nil => exact ⟨fun _ _ _ => rfl, fun _ _ _ _ _ first => nomatch first⟩
  | cons c text ih =>
      obtain ⟨reads, passes⟩ := ih
      refine ⟨fun inStr depth buf => ?_, fun inStr depth buf d noComma first => ?_⟩
      · by_cases comma : c = ','
        · subst comma
          by_cases outside : inStr = false ∧ depth = 0
          · obtain ⟨rfl, rfl⟩ := outside
            rw [splitTopLevelFrom, if_neg (by simp), if_neg (by simp),
              if_neg (by simp), if_pos ⟨rfl, rfl, rfl⟩, reads]
            exact (piecesFrom_comma codeCount buf text).symm
          · rw [splitTopLevelFrom, if_neg (by simp), if_neg (by simp),
              if_neg (by simp), if_neg (fun all => outside all.2), reads,
              piecesFrom_comma_inside codeCount
                (fun same => outside (eq_outside_codeCount.mp same)),
              codeCount_next, if_neg (by simp), if_neg (by simp),
              if_neg (by simp)]
        rw [splitTopLevelFrom, piecesFrom_cons_of_ne codeCount comma,
          codeCount_next]
        split_ifs with quote opening closing
        · rw [reads]
        · -- The first brace is read here, and the second one after it.
          have whole := passes inStr (depth + 1) (buf ++ ['\x7b']) '\x7b'
            (by decide) opening.2.2
          rw [List.append_assoc] at whole
          rw [opening.1]
          exact whole
        · have whole := passes inStr (saturatingPred depth) (buf ++ ['\x7d'])
            '\x7d' (by decide) closing.2.2
          rw [List.append_assoc] at whole
          rw [closing.1]
          exact whole
        · exact absurd ‹c = ',' ∧ inStr = false ∧ depth = 0›.1 comma
        · rw [reads]
      · obtain rfl : c = d := Option.some.inj first
        rw [splitTopLevelFrom, piecesFrom_cons_of_ne codeCount noComma, reads]
        rfl

theorem splitTopLevel_eq_pieces (text : List Char) :
    splitTopLevel text = pieces codeCount text :=
  (splitTopLevelFrom_eq_piecesFrom text).1 false 0 []

/-! ## What a piece contributes -/

/-- The pieces that are not blank. -/
def nonBlank (pieces : List (List Char)) : List (List Char) :=
  pieces.filter fun piece => !piece.all isWhitespace

/-- An entry has the key and the value that a piece is made of. -/
def Contributes (libraries : TextLibraries) (tool : String) (piece : List Char)
    (entry : String × ArgValue) : Prop :=
  ∃ key value, trim piece = key ++ '=' :: value ∧ '=' ∉ key ∧
    entry.1 = String.ofList (trim key) ∧
    parseValue libraries tool (trim value) = .ok entry.2

theorem trim_eq_nil {text : List Char} :
    trim text = [] ↔ ∀ c ∈ text, isWhitespace c = true := by
  rw [trim, List.rdropWhile_eq_nil_iff]
  constructor
  · intro blank c mem
    by_contra noSpace
    have kept : text.dropWhile isWhitespace ≠ [] := by
      intro empty
      exact noSpace (List.dropWhile_eq_nil_iff.mp empty c mem)
    have first := List.head_dropWhile_not isWhitespace kept
    rw [blank _ (List.head_mem kept)] at first
    cases first
  · intro blank c mem
    exact blank c ((List.dropWhile_suffix isWhitespace).subset mem)

theorem nonBlank_cons_of_blank {piece : List Char} (blank : trim piece = [])
    (pieces : List (List Char)) :
    nonBlank (piece :: pieces) = nonBlank pieces := by
  have all : piece.all isWhitespace = true :=
    List.all_eq_true.mpr (trim_eq_nil.mp blank)
  rw [nonBlank, List.filter_cons_of_neg (by simp [all]), nonBlank]

theorem nonBlank_cons {piece : List Char} (written : trim piece ≠ [])
    (pieces : List (List Char)) :
    nonBlank (piece :: pieces) = piece :: nonBlank pieces := by
  have some : piece.all isWhitespace = false := by
    rw [Bool.eq_false_iff, ne_eq, List.all_eq_true]
    exact fun all => written (trim_eq_nil.mpr all)
  rw [nonBlank, List.filter_cons_of_pos (by simp [some]), nonBlank]

theorem takeWhile_separated {separator : Char} {before : List Char}
    (absent : separator ∉ before) (after : List Char) :
    (before ++ separator :: after).takeWhile (· != separator) = before ∧
      (before ++ separator :: after).dropWhile (· != separator) =
        separator :: after := by
  have others : ∀ c ∈ before, (c != separator) = true := by
    intro c mem
    rw [bne_iff_ne]
    rintro rfl
    exact absent mem
  rw [List.takeWhile_append_of_pos others, List.dropWhile_append_of_pos others]
  simp

theorem splitOnce_eq_some_iff {separator : Char}
    {text before after : List Char} :
    splitOnce separator text = some (before, after) ↔
      text = before ++ separator :: after ∧ separator ∉ before := by
  rw [splitOnce, List.span_eq_takeWhile_dropWhile]
  constructor
  · intro split
    have whole : text.takeWhile (· != separator) ++
        text.dropWhile (· != separator) = text := List.takeWhile_append_dropWhile
    cases rest : text.dropWhile (· != separator) with
    | nil =>
        rw [rest] at split
        cases split
    | cons c others =>
        rw [rest] at split whole
        obtain ⟨rfl, rfl⟩ := Prod.mk.inj (Option.some.inj split)
        have first : (c != separator) = false := by
          have kept : text.dropWhile (· != separator) ≠ [] := by simp [rest]
          have head := List.head_dropWhile_not (· != separator) kept
          simpa only [rest, List.head_cons] using head
        rw [bne_eq_false_iff_eq] at first
        rw [first] at whole
        refine ⟨whole.symm, fun mem => ?_⟩
        have other := List.mem_takeWhile_imp mem
        simp at other
  · rintro ⟨rfl, absent⟩
    obtain ⟨first, rest⟩ := takeWhile_separated absent after
    rw [first, rest]

/-- The pairs that are not blank contribute the arguments, one by one. -/
theorem parsePairs_eq_ok_iff {libraries : TextLibraries} {tool : String}
    {pieces : List (List Char)} {args : List (String × ArgValue)} :
    parsePairs libraries tool pieces = .ok args ↔
      List.Forall₂ (Contributes libraries tool) (nonBlank pieces) args := by
  induction pieces generalizing args with
  | nil =>
      rw [parsePairs, nonBlank, List.filter_nil, List.forall₂_nil_left_iff,
        Except.ok.injEq, eq_comm]
  | cons piece pieces ih =>
      rw [parsePairs]
      by_cases blank : trim piece = []
      · rw [nonBlank_cons_of_blank blank, ← ih, blank]
        rfl
      have written : (trim piece).isEmpty = false :=
        List.isEmpty_eq_false_iff.mpr blank
      simp only [nonBlank_cons blank, written, Bool.false_eq_true, if_false,
        List.forall₂_cons_left_iff]
      cases split : splitOnce '=' (trim piece) with
      | none =>
          refine ⟨fun read => (nomatch read), ?_⟩
          rintro ⟨entry, rest, ⟨key, value, whole, absent, -, -⟩, -, rfl⟩
          have some := splitOnce_eq_some_iff.mpr ⟨whole, absent⟩
          rw [split] at some
          cases some
      | some found =>
          obtain ⟨key, value⟩ := found
          obtain ⟨whole, absent⟩ := splitOnce_eq_some_iff.mp split
          simp only [bind, Except.bind]
          constructor
          · intro read
            cases parsed : parseValue libraries tool (trim value) with
            | error reason => rw [parsed] at read; cases read
            | ok first =>
                cases others : parsePairs libraries tool pieces with
                | error reason => rw [parsed, others] at read; cases read
                | ok rest =>
                    rw [parsed, others] at read
                    obtain rfl := Except.ok.inj read
                    exact ⟨_, rest, ⟨key, value, whole, absent, rfl, parsed⟩,
                      ih.mp others, rfl⟩
          · rintro ⟨⟨name, first⟩, rest, contributes, others, rfl⟩
            obtain ⟨otherKey, otherValue, again, otherAbsent, isName, parsed⟩ :=
              contributes
            have same := (splitOnce_eq_some_iff.mpr ⟨again, otherAbsent⟩).symm.trans
              split
            obtain ⟨rfl, rfl⟩ := Prod.mk.inj (Option.some.inj same)
            rw [parsed, ih.mpr others, ← isName]
            rfl

/-- A text is split at the first separator in one way. -/
theorem split_unique {separator : Char} {before after other rest : List Char}
    (absent : separator ∉ before) (otherAbsent : separator ∉ other)
    (same : before ++ separator :: after = other ++ separator :: rest) :
    before = other ∧ after = rest := by
  have first : splitOnce separator (before ++ separator :: after) =
      some (before, after) := splitOnce_eq_some_iff.mpr ⟨rfl, absent⟩
  have second := splitOnce_eq_some_iff.mpr ⟨same, otherAbsent⟩
  exact Prod.mk.inj (Option.some.inj (first.symm.trans second))

/-! ## Longer pieces contribute other entries -/

theorem isQuoted_eq {text : List Char} (quoted : isQuoted text = true) :
    ∃ inner, text = '"' :: (inner ++ ['"']) := by
  rw [isQuoted, Bool.and_eq_true, Bool.and_eq_true, beq_iff_eq, beq_iff_eq,
    decide_eq_true_iff] at quoted
  obtain ⟨⟨first, last⟩, long⟩ := quoted
  obtain ⟨rest, rfl⟩ := List.head?_eq_some_iff.mp first
  cases rest using List.reverseRecOn with
  | nil => simp at long
  | append_singleton inner c =>
      rw [← List.cons_append, List.getLast?_concat] at last
      rw [Option.some.inj last]
      exact ⟨inner, rfl⟩

theorem parseI64_comma {text : List Char} (comma : ',' ∈ text) :
    parseI64 text = none := by
  have notAll (digits : List Char) (mem : ',' ∈ digits) :
      digits.all Char.isDigit = false := by
    rw [Bool.eq_false_iff, ne_eq, List.all_eq_true]
    intro all
    exact absurd (all ',' mem) (by decide)
  unfold parseI64
  split
  · simp [notAll _ (List.mem_of_ne_of_mem (by decide) comma)]
  · simp [notAll _ (List.mem_of_ne_of_mem (by decide) comma)]
  · simp [notAll _ comma]

/-- A plain value that is a text is a bare word. -/
theorem parsePlain_string {libraries : TextLibraries} {tool : String}
    {text : List Char} {value : String}
    (parsed : parsePlain libraries tool text = .ok (.literal (.string value))) :
    isBareWord text = true ∧ value = String.ofList text := by
  rw [parsePlain] at parsed
  by_cases isTrue : text = "true".toList ∨ text = "1".toList
  · rw [if_pos isTrue] at parsed
    cases parsed
  by_cases isFalse : text = "false".toList ∨ text = "0".toList
  · rw [if_neg isTrue, if_pos isFalse] at parsed
    cases parsed
  rw [if_neg isTrue, if_neg isFalse] at parsed
  split at parsed
  · rw [integerJson] at parsed
    split_ifs at parsed <;> cases parsed
  · split at parsed
    · rw [floatJson] at parsed
      split_ifs at parsed <;> cases parsed
    · split_ifs at parsed with bare
      cases parsed
      exact ⟨bare, rfl⟩

/-- A value that is a text is in quotation marks or a bare word. -/
theorem parseValue_string {libraries : TextLibraries} {tool : String}
    {text : List Char} {value : String}
    (parsed : parseValue libraries tool text = .ok (.literal (.string value))) :
    text = '"' :: (value.toList ++ ['"']) ∨
      isBareWord text = true ∧ text = value.toList := by
  rw [parseValue] at parsed
  split at parsed
  · cases parsed
  · split_ifs at parsed with quoted
    · obtain ⟨inner, rfl⟩ := isQuoted_eq quoted
      cases parsed
      left
      rw [String.toList_ofList, List.drop_succ_cons, List.drop_zero,
        List.dropLast_concat]
    · obtain ⟨bare, rfl⟩ := parsePlain_string parsed
      exact Or.inr ⟨bare, (String.toList_ofList).symm⟩

/-- A value with a comma is a text in quotation marks. -/
theorem parseValue_comma {libraries : TextLibraries}
    (floats : ∀ text bits, libraries.parseF64 text = some bits → ',' ∉ text)
    {tool : String} {text : List Char} {value : ArgValue}
    (parsed : parseValue libraries tool text = .ok value) (comma : ',' ∈ text) :
    ∃ inner, text = '"' :: (inner ++ ['"']) ∧
      value = .literal (.string (String.ofList inner)) := by
  have noRef : captures (refPattern libraries) text = none := by
    cases matched : captures (refPattern libraries) text with
    | none => rfl
    | some found =>
        have decimal : libraries.isDecimal ',' = false :=
          libraries.ascii ',' (by decide)
        refine absurd comma (notMem_of_captures ?_ matched)
        simp [refPattern, stepIdSegment, literal, Piece.inClass, decimal,
          isToolChar, isFieldChar]
  rw [parseValue, noRef] at parsed
  simp only at parsed
  split_ifs at parsed with quoted
  · obtain ⟨inner, rfl⟩ := isQuoted_eq quoted
    cases parsed
    refine ⟨inner, rfl, ?_⟩
    rw [List.drop_succ_cons, List.drop_zero, List.dropLast_concat]
  · have noWord (word : List Char) (absent : ',' ∉ word) : text ≠ word := by
      rintro rfl
      exact absent comma
    have noFloat : libraries.parseF64 text = none := by
      cases read : libraries.parseF64 text with
      | none => rfl
      | some bits => exact absurd comma (floats text bits read)
    have noBare : isBareWord text = false := by
      rw [isBareWord, Bool.and_eq_false_iff]
      left
      rw [Bool.eq_false_iff, ne_eq, List.all_eq_true]
      intro all
      exact absurd (all ',' comma) (by decide)
    simp only [parsePlain, noWord "true".toList (by decide),
      noWord "1".toList (by decide), noWord "false".toList (by decide),
      noWord "0".toList (by decide), or_self, if_false, parseI64_comma comma,
      noFloat, noBare, Bool.false_eq_true] at parsed
    cases parsed

/-- What is added behind a text with a comma in it is trimmed at its own end. -/
theorem trim_append_comma (text : List Char) {more : List Char}
    (comma : ',' ∈ more) :
    ∃ tail, ',' ∈ tail ∧ trim (text ++ more) = trim text ++ tail := by
  have kept {tail : List Char} (comma : ',' ∈ tail) (front : List Char) :
      ∃ rest, ',' ∈ rest ∧
        (front ++ tail).rdropWhile isWhitespace = front ++ rest := by
    induction tail using List.reverseRecOn with
    | nil => cases comma
    | append_singleton tail c ih =>
        rw [← List.append_assoc]
        by_cases space : isWhitespace c = true
        · rw [List.rdropWhile_concat_pos _ _ _ space]
          refine ih ((List.mem_append.mp comma).resolve_right fun last => ?_)
          rw [← List.mem_singleton.mp last] at space
          exact absurd space (by decide)
        · rw [List.rdropWhile_concat_neg _ _ _ space, List.append_assoc]
          exact ⟨_, comma, rfl⟩
  rw [trim, trim, List.dropWhile_append]
  split_ifs with blank
  · rw [List.isEmpty_iff.mp blank]
    have mem : ',' ∈ more.dropWhile isWhitespace := by
      rw [← List.takeWhile_append_dropWhile (p := isWhitespace) (l := more),
        List.mem_append] at comma
      refine comma.resolve_left fun first => ?_
      exact absurd (List.mem_takeWhile_imp first) (by decide)
    obtain ⟨rest, inRest, whole⟩ := kept mem []
    exact ⟨rest, inRest, by simpa using whole⟩
  · obtain ⟨rest, inRest, whole⟩ := kept comma (text.dropWhile isWhitespace)
    obtain ⟨spaces, split⟩ :=
      List.rdropWhile_prefix isWhitespace (text.dropWhile isWhitespace)
    refine ⟨spaces ++ rest, List.mem_append_right _ inRest, ?_⟩
    rw [whole, ← List.append_assoc, split]

/-- A piece that goes on behind a comma does not contribute the same entry. -/
theorem Contributes.not_longer {libraries : TextLibraries}
    (floats : ∀ text bits, libraries.parseF64 text = some bits → ',' ∉ text)
    {tool : String} {piece more : List Char} {entry : String × ArgValue}
    (short : Contributes libraries tool piece entry) (comma : ',' ∈ more) :
    ¬ Contributes libraries tool (piece ++ more) entry := by
  rintro ⟨longKey, longValue, longWhole, longAbsent, -, longParsed⟩
  obtain ⟨key, value, whole, absent, -, parsed⟩ := short
  obtain ⟨tail, inTail, added⟩ := trim_append_comma piece comma
  rw [added, whole, List.append_assoc, List.cons_append] at longWhole
  obtain ⟨rfl, rfl⟩ := split_unique absent longAbsent longWhole
  obtain ⟨rest, inRest, longer⟩ := trim_append_comma value inTail
  rw [longer] at longParsed
  obtain ⟨inner, quoted, isText⟩ :=
    parseValue_comma floats longParsed (List.mem_append_right _ inRest)
  rw [isText] at parsed
  have inInner (mem : ',' ∈ '"' :: (inner ++ ['"'])) : ',' ∈ inner := by
    simpa using mem
  rcases parseValue_string parsed with same | ⟨bare, same⟩
  · rw [String.toList_ofList] at same
    rw [same, List.append_right_eq_self] at quoted
    rw [quoted] at inRest
    cases inRest
  · rw [String.toList_ofList] at same
    have mem : ',' ∈ trim value := by
      rw [same]
      refine inInner ?_
      rw [← quoted]
      exact List.mem_append_right _ inRest
    rw [isBareWord, Bool.and_eq_true, List.all_eq_true] at bare
    exact absurd (bare.1 ',' mem) (by decide)

/-! ## Where both counts agree -/

/-- The readers stand outside of everything at the same commas. -/
def CommasAgreeFrom (code : Reader Int32) (plain : Reader Nat)
    (text : List Char) : Prop :=
  ∀ index, text[index]? = some ',' →
    (code.before codeCount text index = codeCount.outside ↔
      plain.before plainCount text index = plainCount.outside)

/-- Both counts split a text at the same commas. -/
def CommasAgree (text : List Char) : Prop :=
  CommasAgreeFrom codeCount.outside plainCount.outside text

theorem commasAgreeFrom_cons {code : Reader Int32} {plain : Reader Nat}
    {c : Char} {text : List Char} :
    CommasAgreeFrom code plain (c :: text) ↔
      (c = ',' → (code = codeCount.outside ↔ plain = plainCount.outside)) ∧
      CommasAgreeFrom (code.next codeCount c text) (plain.next plainCount c text)
        text := by
  constructor
  · intro agree
    exact ⟨fun comma => agree 0 (congrArg some comma),
      fun index isComma => agree (index + 1) isComma⟩
  · rintro ⟨first, later⟩ index isComma
    cases index with
    | zero => exact first (Option.some.inj isComma)
    | succ index => exact later index isComma

theorem BraceCount.outside_comma {Depth : Type} [DecidableEq Depth]
    (count : BraceCount Depth) (ahead : List Char) :
    count.outside.next count ',' ahead = count.outside := by
  simp [Reader.next, outside]

theorem written_append {text : List Char} (more : List Char)
    (written : trim text ≠ []) : trim (text ++ more) ≠ [] := by
  intro blank
  have spaces := trim_eq_nil.mp blank
  exact written
    (trim_eq_nil.mpr fun c mem => spaces c (List.mem_append_left more mem))

theorem trim_append_comma_ne_nil (text : List Char) :
    trim (text ++ [',']) ≠ [] := by
  intro blank
  have space := trim_eq_nil.mp blank ',' (by simp)
  exact absurd space (by decide)

/-- Within a piece, a comma goes on with it. -/
theorem piecesFrom_comma_begins {Depth : Type} [DecidableEq Depth]
    (count : BraceCount Depth) {reader : Reader Depth}
    (inside : reader ≠ count.outside) (buf text : List Char) :
    ∃ more others, ',' ∈ more ∧
      piecesFrom count reader buf (',' :: text) = (buf ++ more) :: others := by
  obtain ⟨more, others, begins⟩ :=
    piecesFrom_begins count (reader.next count ',' text)
      (List.append_ne_nil_of_right_ne_nil buf (List.cons_ne_nil ',' [])) text
  rw [piecesFrom_comma_inside count inside, begins, List.append_assoc]
  exact ⟨_, others, List.mem_cons_self, rfl⟩

/-- Where one count ends a piece and another one goes on with it, they do not
contribute the same. -/
theorem not_contributes_both {libraries : TextLibraries}
    (floats : ∀ text bits, libraries.parseF64 text = some bits → ',' ∉ text)
    {tool : String} {First Second : Type} [DecidableEq First] [DecidableEq Second]
    (first : BraceCount First) (second : BraceCount Second)
    {reader : Reader Second} (inside : reader ≠ second.outside)
    {buf text : List Char} (written : trim buf ≠ [])
    {args : List (String × ArgValue)}
    (ended : List.Forall₂ (Contributes libraries tool)
      (nonBlank (piecesFrom first first.outside buf (',' :: text))) args)
    (goesOn : List.Forall₂ (Contributes libraries tool)
      (nonBlank (piecesFrom second reader buf (',' :: text))) args) : False := by
  obtain ⟨more, others, inMore, begins⟩ :=
    piecesFrom_comma_begins second inside buf text
  rw [piecesFrom_comma, nonBlank_cons written, List.forall₂_cons_left_iff] at ended
  obtain ⟨entry, rest, short, -, rfl⟩ := ended
  rw [begins, nonBlank_cons (written_append more written), List.forall₂_cons]
    at goesOn
  exact short.not_longer floats inMore goesOn.1

/-- Given the arguments that the pieces of one count contribute, those of the
other one contribute them too just when the counts agree. -/
theorem contribute_iff_commasAgreeFrom {libraries : TextLibraries}
    (floats : ∀ text bits, libraries.parseF64 text = some bits → ',' ∉ text)
    {tool : String} {code : Reader Int32} {plain : Reader Nat}
    {buf text : List Char} {args : List (String × ArgValue)}
    (aligned : trim buf = [] →
      code = codeCount.outside ∧ plain = plainCount.outside)
    (read : List.Forall₂ (Contributes libraries tool)
      (nonBlank (piecesFrom codeCount code buf text)) args) :
    List.Forall₂ (Contributes libraries tool)
        (nonBlank (piecesFrom plainCount plain buf text)) args ↔
      CommasAgreeFrom code plain text := by
  induction text generalizing code plain buf args with
  | nil =>
      refine ⟨fun _ index isComma => ?_, fun _ => read⟩
      rw [List.getElem?_nil] at isComma
      cases isComma
  | cons c text ih =>
      rw [commasAgreeFrom_cons]
      by_cases comma : c = ','
      · subst comma
        by_cases codeOutside : code = codeCount.outside <;>
          by_cases plainOutside : plain = plainCount.outside
        · subst codeOutside plainOutside
          rw [piecesFrom_comma] at read ⊢
          simp only [BraceCount.outside_comma, iff_self, forall_const, true_and]
          have start (_ : trim [] = []) : codeCount.outside = codeCount.outside ∧
              plainCount.outside = plainCount.outside := ⟨rfl, rfl⟩
          by_cases blank : trim buf = []
          · rw [nonBlank_cons_of_blank blank] at read ⊢
            exact ih start read
          · rw [nonBlank_cons blank, List.forall₂_cons_left_iff] at read
            obtain ⟨entry, rest, first, later, rfl⟩ := read
            rw [nonBlank_cons blank, List.forall₂_cons, ih start later]
            exact and_iff_right first
        · -- The splitter has ended a piece that goes on.
          have written : trim buf ≠ [] := fun blank =>
            plainOutside (aligned blank).2
          subst codeOutside
          refine iff_of_false (fun both => ?_) (fun agree => ?_)
          · exact not_contributes_both floats codeCount plainCount plainOutside
              written read both
          · exact plainOutside ((agree.1 rfl).mp rfl)
        · -- The splitter goes on with a piece that has ended.
          have written : trim buf ≠ [] := fun blank =>
            codeOutside (aligned blank).1
          subst plainOutside
          refine iff_of_false (fun both => ?_) (fun agree => ?_)
          · exact not_contributes_both floats plainCount codeCount codeOutside
              written both read
          · exact codeOutside ((agree.1 rfl).mpr rfl)
        · rw [piecesFrom_comma_inside _ codeOutside] at read
          rw [piecesFrom_comma_inside _ plainOutside,
            ih (fun blank => absurd blank (trim_append_comma_ne_nil buf)) read]
          simp [codeOutside, plainOutside]
      · rw [piecesFrom_cons_of_ne _ comma] at read ⊢
        rw [ih ?_ read]
        · simp [comma]
        · intro blank
          have space : isWhitespace c = true :=
            trim_eq_nil.mp blank c (by simp)
          have before : trim buf = [] := by
            by_contra written
            exact written_append [c] written blank
          obtain ⟨rfl, rfl⟩ := aligned before
          exact ⟨codeCount.outside_next space text,
            plainCount.outside_next space text⟩

end PlannerDsl

end TorchInference
