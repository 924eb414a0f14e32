import TorchInference.ArgumentPieces
import TorchInference.PlannerDslRoundTrip

/-!
# The steps of a plan as they are written

Every line that looks like a step is read as one, in the order of the lines,
with the name and the tool that are written on it.  The entries of its arguments
are those that are written on it just when the splitter's count of braces agrees
with the one that is meant.
-/

namespace TorchInference

namespace PlannerDsl

open ClassPatterns

/-- The lines that look like steps. -/
def stepLines (text : String) : List (List Char) :=
  ((linesFrom [] text.toList).map trim).filter looksLikeStep

/-- What is written in front of the first dot. -/
def writtenId (line : List Char) : List Char :=
  line.takeWhile (· != '.')

/-- What is written between the first dot and the first parenthesis. -/
def writtenTool (line : List Char) : List Char :=
  trim ((line.takeWhile (· != '(')).dropWhile (· != '.')).tail

/-- What is written between the first parenthesis and the last character. -/
def writtenArgs (line : List Char) : List Char :=
  (line.dropWhile (· != '(')).tail.dropLast

/-- A step is the one on a line: each piece of the arguments that is not blank
contributes one entry. -/
structure StepAsWritten (libraries : TextLibraries) (line : List Char)
    (step : Step) : Prop where
  id : step.id = String.ofList (writtenId line)
  tool : step.tool = String.ofList (writtenTool line)
  args : List.Forall₂ (Contributes libraries step.tool)
    (nonBlank (pieces plainCount (trim (writtenArgs line)))) step.args

/-- The steps are those on the lines that look like steps, in their order. -/
structure StepsAsWritten (libraries : TextLibraries) (text : String)
    (steps : List Step) : Prop where
  count : steps.length = (stepLines text).length
  each : List.Forall₂ (StepAsWritten libraries) (stepLines text) steps

/-! ## The pattern of a step -/

variable {libraries : TextLibraries}

theorem trim_spaced {left core right : List Char}
    (spaceLeft : ∀ c ∈ left, isWhitespace c = true)
    (spaceRight : ∀ c ∈ right, isWhitespace c = true) :
    trim (left ++ core ++ right) = trim core := by
  induction right using List.reverseRecOn with
  | nil =>
      rw [List.append_nil, trim, trim, List.dropWhile_append_of_pos spaceLeft]
  | append_singleton right c ih =>
      rw [← List.append_assoc, trim_concat (spaceRight c (by simp))]
      exact ih fun d mem => spaceRight d (List.mem_append_left _ mem)

/-- A line that the pattern of a step matches. -/
theorem captures_stepPattern_inv {line : List Char} {found : List (List Char)}
    (matched : captures (stepPattern libraries) line = some found) :
    ∃ before id left tool right args after,
      line = before ++ (id ++ '.' :: (left ++ tool ++ right) ++
        '(' :: (args ++ ')' :: after)) ∧
      found = [id, tool, args] ∧
      Spells (stepIdSegment libraries).pieces id ∧
      (∀ c ∈ tool, isToolChar c = true) ∧
      (∀ c ∈ before, isWhitespace c = true) ∧
      (∀ c ∈ left, isWhitespace c = true) ∧
      (∀ c ∈ right, isWhitespace c = true) ∧
      ∀ c ∈ after, isWhitespace c = true := by
  obtain ⟨before, line1, _, rfl, spaces, matched1, rfl⟩ :=
    captures_cons_inv matched
  obtain ⟨id, line2, _, rfl, isId, matched2, rfl⟩ := captures_cons_inv matched1
  obtain ⟨dot, line3, _, rfl, isDot, matched3, rfl⟩ := captures_cons_inv matched2
  obtain ⟨tool, line4, _, rfl, isTool, matched4, rfl⟩ :=
    captures_cons_inv matched3
  obtain ⟨opening, line5, _, rfl, isOpening, matched5, rfl⟩ :=
    captures_cons_inv matched4
  obtain ⟨args, line6, _, rfl, -, matched6, rfl⟩ := captures_cons_inv matched5
  obtain ⟨closing, line7, _, rfl, isClosing, matched7, rfl⟩ :=
    captures_cons_inv matched6
  obtain ⟨rfl, rfl⟩ := captures_nil_inv matched7
  obtain ⟨left, rfl, isLeft⟩ := spells_literal_append isDot
  obtain ⟨after, rfl, isAfter⟩ := spells_literal_append isClosing
  cases isOpening with
  | @many _ _ right text isRight isText =>
      obtain rfl := spells_literal isText
      refine ⟨before, id, left, tool, right, args, after, by simp, rfl, isId,
        fun c mem => ?_, spells_many spaces, spells_many isLeft, isRight,
        spells_many isAfter⟩
      obtain ⟨piece, isPiece, inside⟩ := isTool.mem mem
      simp only [List.mem_cons, List.not_mem_nil, or_false] at isPiece
      rcases isPiece with rfl | rfl
      · exact inside
      · exact inside

/-- A name of a step is made of letters of `step` and decimal digits. -/
theorem notMem_of_spells_stepId {id : List Char} {c : Char}
    (spells : Spells (stepIdSegment libraries).pieces id)
    (noLetter : c ∉ "step".toList) (ascii : c.toNat < 128)
    (noDigit : c.isDigit = false) : c ∉ id := by
  intro mem
  obtain ⟨piece, isPiece, inside⟩ := spells.mem mem
  have noDecimal : libraries.isDecimal c = false := by
    rw [libraries.ascii c ascii, noDigit]
  simp only [stepIdSegment, literal, List.mem_append, List.mem_map,
    List.mem_cons, List.not_mem_nil, or_false] at isPiece
  rcases isPiece with ⟨letter, isLetter, rfl⟩ | rfl | rfl
  · rw [of_decide_eq_true inside] at noLetter
    exact noLetter isLetter
  · exact absurd inside (by simp [Piece.inClass, noDecimal])
  · exact absurd inside (by simp [Piece.inClass, noDecimal])

/-- What the pattern captures is what is written on a trimmed line. -/
theorem captures_stepPattern_written {line : List Char}
    {found : List (List Char)} (looks : looksLikeStep line = true)
    (last : ∀ c ∈ line.getLast?, isWhitespace c = false)
    (matched : captures (stepPattern libraries) line = some found) :
    found = [writtenId line, writtenTool line, writtenArgs line] := by
  obtain ⟨before, id, left, tool, right, args, after, rfl, rfl, isId, isTool,
    spaces, isLeft, isRight, isAfter⟩ := captures_stepPattern_inv matched
  have noBefore : before = [] := by
    cases before with
    | nil => rfl
    | cons c before =>
        have space := spaces c List.mem_cons_self
        rw [looksLikeStep, Bool.and_eq_true, beq_iff_eq] at looks
        have first : c = 's' := by simpa using congrArg List.head? looks.1
        rw [first] at space
        exact absurd space (by decide)
  have noAfter : after = [] := by
    cases after using List.reverseRecOn with
    | nil => rfl
    | append_singleton after c =>
        have space := isAfter c (by simp)
        have other := last c (List.getLast?_eq_some_iff.mpr
          ⟨before ++ (id ++ '.' :: (left ++ tool ++ right) ++
            '(' :: (args ++ ')' :: after)), by simp⟩)
        rw [space] at other
        cases other
  subst noBefore noAfter
  have noDot : '.' ∉ id :=
    notMem_of_spells_stepId isId (by decide) (by decide) (by decide)
  have noParenthesis : '(' ∉ id ++ '.' :: (left ++ tool ++ right) := by
    have inId : '(' ∉ id :=
      notMem_of_spells_stepId isId (by decide) (by decide) (by decide)
    have inTool : '(' ∉ tool := fun mem =>
      absurd (isTool _ mem) (by decide)
    have inLeft : '(' ∉ left := fun mem => absurd (isLeft _ mem) (by decide)
    have inRight : '(' ∉ right := fun mem => absurd (isRight _ mem) (by decide)
    simp [inId, inTool, inLeft, inRight]
  have trimmed : trim tool = tool := by
    have noSpace : ∀ c ∈ tool, isWhitespace c = false := fun c mem =>
      isWhitespace_of_isFieldChar (isFieldChar_of_isToolChar (isTool c mem))
    exact trim_eq_self
      (fun c isFirst => noSpace c (List.mem_of_mem_head? isFirst))
      (fun c isLast => noSpace c (List.mem_of_mem_getLast? isLast))
  obtain ⟨upTo, onward⟩ :=
    takeWhile_separated noParenthesis (args ++ [')'])
  have isName : writtenId ([] ++ (id ++ '.' :: (left ++ tool ++ right) ++
      '(' :: (args ++ [')']))) = id := by
    rw [writtenId, List.nil_append, List.append_assoc, List.cons_append]
    exact (takeWhile_separated noDot _).1
  have isToolName : writtenTool ([] ++ (id ++ '.' :: (left ++ tool ++ right) ++
      '(' :: (args ++ [')']))) = tool := by
    rw [writtenTool, List.nil_append, upTo, (takeWhile_separated noDot _).2,
      List.tail_cons, trim_spaced isLeft isRight, trimmed]
  have isArgs : writtenArgs ([] ++ (id ++ '.' :: (left ++ tool ++ right) ++
      '(' :: (args ++ [')']))) = args := by
    rw [writtenArgs, List.nil_append, onward, List.tail_cons, List.dropLast_concat]
  rw [isName, isToolName, isArgs]

theorem trim_last (text : List Char) :
    ∀ c ∈ (trim text).getLast?, isWhitespace c = false := by
  intro c isLast
  obtain ⟨front, whole⟩ := List.getLast?_eq_some_iff.mp isLast
  have nonempty : (text.dropWhile isWhitespace).rdropWhile isWhitespace ≠ [] := by
    rw [trim] at whole
    simp [whole]
  have other := List.rdropWhile_last_not isWhitespace _ nonempty
  rw [Bool.not_eq_true] at other
  rw [trim] at whole
  simpa only [whole, List.getLast_concat] using other

/-! ## Lines -/

/-- A step has been read from a line with the splitter's count. -/
structure ReadFrom (libraries : TextLibraries) (line : List Char) (step : Step) :
    Prop where
  id : step.id = String.ofList (writtenId line)
  tool : step.tool = String.ofList (writtenTool line)
  args : List.Forall₂ (Contributes libraries step.tool)
    (nonBlank (pieces codeCount (trim (writtenArgs line)))) step.args

theorem parseArgs_eq_ok {tool : String} {text : List Char}
    {args : List (String × ArgValue)}
    (parsed : parseArgs libraries tool text = .ok args) :
    List.Forall₂ (Contributes libraries tool)
      (nonBlank (pieces codeCount (trim text))) args := by
  rw [← parsePairs_eq_ok_iff, ← splitTopLevel_eq_pieces, ← parsed]
  simp only [parseArgs]
  split_ifs with blank
  · rw [List.isEmpty_iff.mp blank]
    rfl
  · rfl

/-- A line is passed over, or it is read as the step on it. -/
theorem parseLine_eq_ok {lineNo : Nat} {raw : List Char} {step : Option Step}
    (parsed : parseLine libraries lineNo raw = .ok step) :
    (looksLikeStep (trim raw) = false ∧ step = none) ∨
      ∃ read, looksLikeStep (trim raw) = true ∧ step = some read ∧
        ReadFrom libraries (trim raw) read := by
  rw [parseLine] at parsed
  by_cases skipped : ((trim raw).isEmpty || !looksLikeStep (trim raw)) = true
  · simp only [skipped, if_true] at parsed
    cases parsed
    refine Or.inl ⟨?_, rfl⟩
    rcases Bool.or_eq_true_iff.mp skipped with empty | other
    · rw [List.isEmpty_iff.mp empty]
      rfl
    · simpa using other
  have looks : looksLikeStep (trim raw) = true := by
    simp only [Bool.or_eq_true, not_or, Bool.not_eq_true', Bool.not_eq_false]
      at skipped
    exact skipped.2
  simp only [skipped, Bool.false_eq_true, if_false] at parsed
  right
  cases matched : captures (stepPattern libraries) (trim raw) with
  | none =>
      rw [matched] at parsed
      cases parsed
  | some found =>
      obtain rfl := captures_stepPattern_written looks (trim_last raw) matched
      rw [matched] at parsed
      simp only at parsed
      split_ifs at parsed
      cases args : parseArgs libraries (String.ofList (writtenTool (trim raw)))
          (writtenArgs (trim raw)) with
      | error reason =>
          rw [args] at parsed
          cases parsed
      | ok entries =>
          rw [args] at parsed
          obtain rfl := Except.ok.inj parsed
          exact ⟨_, looks, rfl, rfl, rfl, parseArgs_eq_ok args⟩

theorem parseLines_eq_ok {lineNo : Nat} {raws : List (List Char)}
    {steps : List Step} (parsed : parseLines libraries lineNo raws = .ok steps) :
    List.Forall₂ (ReadFrom libraries) ((raws.map trim).filter looksLikeStep)
      steps := by
  induction raws generalizing lineNo steps with
  | nil =>
      cases parsed
      exact List.Forall₂.nil
  | cons raw raws ih =>
      rw [parseLines] at parsed
      cases first : parseLine libraries lineNo raw with
      | error reason =>
          rw [first] at parsed
          cases parsed
      | ok step =>
          cases others : parseLines libraries (lineNo + 1) raws with
          | error reason =>
              rw [first] at parsed
              simp only [bind, Except.bind, others] at parsed
              cases parsed
          | ok rest =>
              rw [first] at parsed
              simp only [bind, Except.bind, others] at parsed
              obtain rfl := Except.ok.inj parsed
              rw [List.map_cons]
              rcases parseLine_eq_ok first with ⟨skipped, rfl⟩ |
                ⟨read, looks, rfl, isRead⟩
              · rw [List.filter_cons_of_neg (by simp [skipped])]
                exact ih others
              · rw [List.filter_cons_of_pos looks]
                exact List.Forall₂.cons isRead (ih others)

theorem ReadFrom.asWritten_iff
    (floats : ∀ text bits, libraries.parseF64 text = some bits → ',' ∉ text)
    {line : List Char} {step : Step} (read : ReadFrom libraries line step) :
    StepAsWritten libraries line step ↔ CommasAgree (trim (writtenArgs line)) := by
  have agree := contribute_iff_commasAgreeFrom floats (fun _ => ⟨rfl, rfl⟩)
    read.args
  constructor
  · intro written
    exact agree.mp written.args
  · intro commas
    exact ⟨read.id, read.tool, agree.mpr commas⟩

/-- The steps that have been read are the ones that are written just when the
counts of braces agree at every comma of their arguments. -/
theorem stepsAsWritten_iff
    (floats : ∀ text bits, libraries.parseF64 text = some bits → ',' ∉ text)
    {text : String} {steps : List Step}
    (parsed : parse libraries text = .ok steps) :
    StepsAsWritten libraries text steps ↔
      ∀ line ∈ stepLines text, CommasAgree (trim (writtenArgs line)) := by
  have read : List.Forall₂ (ReadFrom libraries) (stepLines text) steps := by
    rw [parse] at parsed
    cases lines : parseLines libraries 1 (linesFrom [] text.toList) with
    | error reason =>
        rw [lines] at parsed
        cases parsed
    | ok found =>
        rw [lines] at parsed
        simp only [bind, Except.bind] at parsed
        split_ifs at parsed
        obtain rfl := Except.ok.inj parsed
        exact parseLines_eq_ok lines
  have each : List.Forall₂ (StepAsWritten libraries) (stepLines text) steps ↔
      ∀ line ∈ stepLines text, CommasAgree (trim (writtenArgs line)) := by
    generalize stepLines text = lines at read ⊢
    clear parsed
    induction read with
    | nil => simp
    | cons first later ih =>
        rw [List.forall₂_cons, List.forall_mem_cons, ih,
          first.asWritten_iff floats]
  constructor
  · intro written
    exact each.mp written.each
  · intro agree
    exact ⟨read.length_eq.symm, each.mpr agree⟩

/-- Braces that close without having been opened keep the comma behind them from
being seen: the second argument is read as a part of the first one. -/
theorem closedBraces_merge_arguments :
    parse asciiLibraries
        "step1. reflect(\x7d\x7dprompt=\"a\",max_tokens=\"c\")" =
      .ok [⟨"step1", "reflect", [("\x7d\x7dprompt",
        .literal (.string "a\",max_tokens=\"c"))]⟩] ∧
    ¬ StepsAsWritten asciiLibraries
        "step1. reflect(\x7d\x7dprompt=\"a\",max_tokens=\"c\")"
        [⟨"step1", "reflect", [("\x7d\x7dprompt",
          .literal (.string "a\",max_tokens=\"c"))]⟩] := by
  refine ⟨rfl, fun written => ?_⟩
  have only : stepLines
      "step1. reflect(\x7d\x7dprompt=\"a\",max_tokens=\"c\")" =
    ["step1. reflect(\x7d\x7dprompt=\"a\",max_tokens=\"c\")".toList] := rfl
  have each := written.each
  rw [only, List.forall₂_cons] at each
  have counts := each.1.args.length_eq
  revert counts
  decide

/-- Paired braces and quotation marks are read as they are written. -/
theorem pairedBraces_asWritten :
    parse asciiLibraries "step2. tts(text=\x7b\x7bstep1.out\x7d\x7d, a=\"b,\")" =
      .ok [⟨"step2", "tts", [("text", .ref "step1" "out"),
        ("a", .literal (.string "b,"))]⟩] ∧
    (StepsAsWritten asciiLibraries
        "step2. tts(text=\x7b\x7bstep1.out\x7d\x7d, a=\"b,\")"
        [⟨"step2", "tts", [("text", .ref "step1" "out"),
          ("a", .literal (.string "b,"))]⟩] ↔
      ∀ line ∈ stepLines
        "step2. tts(text=\x7b\x7bstep1.out\x7d\x7d, a=\"b,\")",
        CommasAgree (trim (writtenArgs line))) := by
  refine ⟨rfl, stepsAsWritten_iff ?_ rfl⟩
  intro text bits read
  cases read

end PlannerDsl

end TorchInference
