import TorchInference.PlannerDsl

/-!
# Plans are read as they are written

A plan is written with one step on a line and any other lines in between.  The
parser reads the same steps back, except that the integers 0 and 1 are read as
truth values.
-/

namespace TorchInference

namespace PlannerDsl

open ClassPatterns

/-! ## Written plans -/

def IsStepId (id : String) : Prop :=
  ∃ digits : List Char, digits ≠ [] ∧ (∀ c ∈ digits, c.isDigit = true) ∧
    id.toList = "step".toList ++ digits

def IsIdentifier (name : String) : Prop :=
  ∃ first rest, name.toList = first :: rest ∧ isToolChar first = true ∧
    ∀ c ∈ rest, isFieldChar c = true

/-- Texts on one line without quotation marks, 64-bit integers, truth values
and references. -/
def ArgValue.Printable : ArgValue → Prop
  | .literal (.string text) => '"' ∉ text.toList ∧ '\n' ∉ text.toList
  | .literal (.number (.posInt value)) => value.toNat < 2 ^ 63
  | .literal (.number (.negInt value)) => value.toInt < 0
  | .literal (.bool _) => True
  | .ref stepId field => IsStepId stepId ∧ IsIdentifier field
  | _ => False

structure Step.Printable (step : Step) : Prop where
  id : IsStepId step.id
  tool : step.tool ∈ knownTools
  keys : ∀ arg ∈ step.args, IsIdentifier arg.1
  values : ∀ arg ∈ step.args, arg.2.Printable

/-- The text of a printable value. -/
def valueText : ArgValue → List Char
  | .literal (.string text) => '"' :: (text.toList ++ ['"'])
  | .literal (.number (.posInt value)) => Nat.toDigits 10 value.toNat
  | .literal (.number (.negInt value)) =>
      '-' :: Nat.toDigits 10 value.toInt.natAbs
  | .literal (.bool true) => "true".toList
  | .literal (.bool false) => "false".toList
  | .ref stepId field => (refText stepId field).toList
  | _ => []

def argText (arg : String × ArgValue) : List Char :=
  arg.1.toList ++ '=' :: valueText arg.2

def argsText (args : List (String × ArgValue)) : List Char :=
  [',', ' '].intercalate (args.map argText)

def stepText (step : Step) : List Char :=
  step.id.toList ++ ['.', ' '] ++ step.tool.toList ++
    '(' :: (argsText step.args ++ [')'])

/-- What a value is read as. -/
def ArgValue.asRead : ArgValue → ArgValue
  | .literal (.number (.posInt value)) =>
      if value = 0 then .literal (.bool false)
      else if value = 1 then .literal (.bool true)
      else .literal (.number (.posInt value))
  | value => value

def Step.asRead (step : Step) : Step :=
  { step with args := step.args.map fun arg => (arg.1, arg.2.asRead) }

/-! ## Values -/

variable {libraries : TextLibraries}

/-- A text is trimmed to itself when no space is at its ends. -/
theorem trim_eq_self {text : List Char}
    (first : ∀ c ∈ text.head?, isWhitespace c = false)
    (last : ∀ c ∈ text.getLast?, isWhitespace c = false) : trim text = text := by
  have start : text.dropWhile isWhitespace = text := by
    cases text with
    | nil => rfl
    | cons c text =>
        rw [List.dropWhile_cons_of_neg]
        simp [first c rfl]
  rw [trim, start, List.rdropWhile_eq_self_iff]
  intro nonempty
  simp [last _ (List.getLast?_eq_some_getLast nonempty)]

theorem digits_isDigit {value : Nat} :
    ∀ c ∈ Nat.toDigits 10 value, c.isDigit = true :=
  fun _ mem => Nat.isDigit_of_mem_toDigits (by decide) (by decide) mem

theorem digits_cons (value : Nat) :
    ∃ first rest, Nat.toDigits 10 value = first :: rest ∧
      first.isDigit = true := by
  obtain ⟨first, rest, digits⟩ :=
    List.exists_cons_of_ne_nil (Nat.toDigits_ne_nil : Nat.toDigits 10 value ≠ [])
  have mem : first ∈ Nat.toDigits 10 value := by
    rw [digits]
    exact List.mem_cons_self
  exact ⟨first, rest, digits, digits_isDigit first mem⟩

theorem parseI64_digits {value : Nat} (small : value < 2 ^ 63) :
    parseI64 (Nat.toDigits 10 value) = some (value : Int) := by
  have all : (Nat.toDigits 10 value).all Char.isDigit = true :=
    List.all_eq_true.mpr digits_isDigit
  have read : Nat.ofDigitChars 10 (Nat.toDigits 10 value) 0 = value :=
    Nat.ofDigitChars_ten_toDigits
  obtain ⟨first, rest, digits, digit⟩ := digits_cons value
  have noMinus : first ≠ '-' := by rintro rfl; exact absurd digit (by decide)
  have noPlus : first ≠ '+' := by rintro rfl; exact absurd digit (by decide)
  rw [digits] at all read ⊢
  unfold parseI64
  split
  · rename_i same; exact absurd (List.cons.inj same).1 noMinus
  · rename_i same; exact absurd (List.cons.inj same).1 noPlus
  · simp only [all, read, List.isEmpty_cons, List.head?_cons,
      Option.some.injEq, noMinus, Bool.not_true, Bool.or_false, if_false,
      Bool.false_eq_true]
    rw [if_pos (by omega)]

theorem parseI64_negative {value : Nat} (small : value ≤ 2 ^ 63) :
    parseI64 ('-' :: Nat.toDigits 10 value) = some (-value : Int) := by
  have all : (Nat.toDigits 10 value).all Char.isDigit = true :=
    List.all_eq_true.mpr digits_isDigit
  have nonempty : (Nat.toDigits 10 value).isEmpty = false :=
    List.isEmpty_eq_false_iff.mpr Nat.toDigits_ne_nil
  simp only [parseI64, nonempty, all, Nat.ofDigitChars_ten_toDigits,
    List.head?_cons, Bool.not_true, Bool.or_false, Bool.false_eq_true,
    if_false, if_true]
  rw [if_pos (by omega)]

theorem integerJson_natCast (value : UInt64) :
    integerJson (value.toNat : Int) = .number (.posInt value) := by
  simp [integerJson]

theorem integerJson_neg {value : Int64} (negative : value.toInt < 0) :
    integerJson (-(value.toInt.natAbs : Int)) = .number (.negInt value) := by
  have same : -(value.toInt.natAbs : Int) = value.toInt := by omega
  rw [same, integerJson, if_neg (by omega), Int64.ofInt_toInt]

/-- A text that does not begin with a brace is no reference. -/
theorem captures_refPattern_eq_none {text : List Char}
    (noBrace : ∀ c ∈ text.head?, c ≠ '\x7b') :
    captures (refPattern libraries) text = none := by
  apply captures_eq_none
  intro c isFirst
  simpa using noBrace c isFirst

/-- A text that begins with neither a brace nor a quotation mark is plain. -/
theorem parseValue_plain {tool : String} {text : List Char}
    (noBrace : ∀ c ∈ text.head?, c ≠ '\x7b')
    (noQuote : ∀ c ∈ text.head?, c ≠ '"') :
    parseValue libraries tool text = parsePlain libraries tool text := by
  have unquoted : isQuoted text = false := by
    have head : (text.head? == some '"') = false := by
      rw [beq_eq_false_iff_ne]
      intro quote
      exact noQuote '"' quote rfl
    rw [isQuoted, head, Bool.false_and, Bool.false_and]
  rw [parseValue, captures_refPattern_eq_none noBrace]
  simp only [unquoted, Bool.false_eq_true, if_false]

theorem isDecimal_of_isDigit {c : Char} (digit : c.isDigit = true) :
    libraries.isDecimal c = true := by
  have ascii : c.toNat < 128 := by
    simp only [Char.isDigit, Bool.and_eq_true, decide_eq_true_eq] at digit
    have atMost : c.toNat ≤ 57 := digit.2
    omega
  rw [libraries.ascii c ascii, digit]

/-- The name of a step is captured where a dot follows. -/
theorem captures_stepIdSegment (libraries : TextLibraries) {id : String}
    (isId : IsStepId id)
    {segments : List (Segment Char)} {text : List Char}
    {found : List (List Char)}
    (matched : captures segments ('.' :: text) = some found) :
    captures (stepIdSegment libraries :: segments)
      (id.toList ++ '.' :: text) = some (id.toList :: found) := by
  obtain ⟨digits, nonempty, isDigits, whole⟩ := isId
  obtain ⟨first, rest, rfl⟩ := List.exists_cons_of_ne_nil nonempty
  have decimals : ∀ c ∈ first :: rest, libraries.isDecimal c = true :=
    fun c mem => isDecimal_of_isDigit (isDigits c mem)
  have dot : ∀ c ∈ ('.' :: text).head?, libraries.isDecimal c = false := by
    rintro c ⟨⟩
    exact libraries.ascii '.' (by decide)
  have word := matchPieces_word (decimals first List.mem_cons_self)
    (fun c mem => decimals c (List.mem_cons_of_mem first mem)) dot matched
  rw [whole, List.append_assoc]
  exact captures_cons (stepIdSegment libraries)
    (matchPieces_literal "step".toList _ word)

theorem captures_refText {stepId field : String} (isId : IsStepId stepId)
    (isField : IsIdentifier field) :
    captures (refPattern libraries) (refText stepId field).toList =
      some [stepId.toList, field.toList] := by
  obtain ⟨first, rest, name, isFirst, isRest⟩ := isField
  have close : captures [⟨false, literal ['\x7d', '\x7d']⟩]
      ['\x7d', '\x7d'] = some [] := rfl
  have word := captures_cons ⟨true, [.one isToolChar, .many isFieldChar]⟩
    (matchPieces_word isFirst isRest (by rintro _ ⟨⟩; rfl) close)
  rw [← name] at word
  have dot := captures_cons ⟨false, literal ['.']⟩
    (matchPieces_fixed ['.'] _ word)
  have step := captures_stepIdSegment libraries isId dot
  have whole := captures_cons ⟨false, literal ['\x7b', '\x7b']⟩
    (matchPieces_fixed ['\x7b', '\x7b'] _ step)
  rw [refText, refPattern]
  simpa using whole

/-- Digits are no word. -/
theorem digits_ne_word {value : Nat} {first : Char} {rest : List Char}
    (noDigit : first.isDigit = false) :
    Nat.toDigits 10 value ≠ first :: rest := by
  intro same
  obtain ⟨digit, digits, whole, isDigit⟩ := digits_cons value
  rw [whole] at same
  rw [(List.cons.inj same).1, noDigit] at isDigit
  cases isDigit

theorem head_digits_ne {value : Nat} {other : Char}
    (noDigit : other.isDigit = false) :
    ∀ c ∈ (Nat.toDigits 10 value).head?, c ≠ other := by
  rintro c isFirst rfl
  obtain ⟨rest, whole⟩ := List.head?_eq_some_iff.mp isFirst
  exact digits_ne_word noDigit whole

theorem parseValue_posInt {tool : String} {value : UInt64}
    (small : value.toNat < 2 ^ 63) :
    parseValue libraries tool (valueText (.literal (.number (.posInt value)))) =
      .ok (ArgValue.literal (.number (.posInt value))).asRead := by
  have one : (Nat.toDigits 10 value.toNat = "1".toList) ↔ value = 1 := by
    rw [show "1".toList = Nat.toDigits 10 1 from rfl,
      CanonicalJson.decimal_injective.eq_iff, ← UInt64.toNat_inj]
    rfl
  have zero : (Nat.toDigits 10 value.toNat = "0".toList) ↔ value = 0 := by
    rw [show "0".toList = Nat.toDigits 10 0 from rfl,
      CanonicalJson.decimal_injective.eq_iff, ← UInt64.toNat_inj]
    rfl
  rw [valueText, parseValue_plain (head_digits_ne (by decide))
    (head_digits_ne (by decide)), parsePlain]
  have noTrue : Nat.toDigits 10 value.toNat ≠ "true".toList :=
    digits_ne_word (by decide)
  have noFalse : Nat.toDigits 10 value.toNat ≠ "false".toList :=
    digits_ne_word (by decide)
  simp only [noTrue, noFalse, false_or, one, zero, parseI64_digits small,
    integerJson_natCast, ArgValue.asRead]
  by_cases isZero : value = 0
  · simp [isZero]
  · by_cases isOne : value = 1
    · simp [isOne]
    · simp [isZero, isOne]

theorem parseValue_negInt {tool : String} {value : Int64}
    (negative : value.toInt < 0) :
    parseValue libraries tool (valueText (.literal (.number (.negInt value)))) =
      .ok (ArgValue.literal (.number (.negInt value))).asRead := by
  have small : value.toInt.natAbs ≤ 2 ^ 63 := by
    have least := Int64.le_toInt value
    omega
  rw [valueText, parseValue_plain (by rintro c ⟨⟩; decide)
    (by rintro c ⟨⟩; decide), parsePlain]
  simp only [parseI64_negative small, ArgValue.asRead,
    integerJson_neg negative]
  simp

/-- A printable value is read back, but for 0 and 1. -/
theorem parseValue_valueText {tool : String} {value : ArgValue}
    (printable : value.Printable) :
    parseValue libraries tool (valueText value) = .ok value.asRead := by
  cases value with
  | ref stepId field =>
      rw [parseValue, valueText, captures_refText printable.1 printable.2]
      simp [ArgValue.asRead]
  | literal value =>
      cases value with
      | string text =>
          have none : captures (refPattern libraries)
              (valueText (.literal (.string text))) = none :=
            captures_refPattern_eq_none (by rintro c ⟨⟩; decide)
          have quoted : isQuoted (valueText (.literal (.string text))) = true := by
            simp [valueText, isQuoted, List.getLast?_cons]
          rw [parseValue, none]
          simp only [quoted, if_true]
          simp [valueText, ArgValue.asRead]
      | bool value =>
          cases value with
          | true =>
              rw [valueText, parseValue_plain (by rintro _ ⟨⟩; decide)
                (by rintro _ ⟨⟩; decide)]
              rfl
          | false =>
              rw [valueText, parseValue_plain (by rintro _ ⟨⟩; decide)
                (by rintro _ ⟨⟩; decide)]
              rfl
      | number number =>
          cases number with
          | posInt value => exact parseValue_posInt printable
          | negInt value => exact parseValue_negInt printable
          | float bits => exact absurd printable id
      | null => exact absurd printable id
      | array values => exact absurd printable id
      | object entries => exact absurd printable id

/-! ## Arguments -/

/-- A character at which nothing is split. -/
def isOrdinary (c : Char) : Bool :=
  c != '"' && c != '\x7b' && c != '\x7d' && c != ','

/-- Ordinary characters are read one by one. -/
theorem splitTopLevelFrom_ordinary {run : List Char}
    (ordinary : ∀ c ∈ run, isOrdinary c = true) (inStr : Bool) (depth : Int32)
    (buf rest : List Char) :
    splitTopLevelFrom false inStr depth buf (run ++ rest) =
      splitTopLevelFrom false inStr depth (buf ++ run) rest := by
  induction run generalizing buf with
  | nil => rw [List.nil_append, List.append_nil]
  | cons c run ih =>
      obtain ⟨first, later⟩ := List.forall_mem_cons.mp ordinary
      simp only [isOrdinary, Bool.and_eq_true, bne_iff_ne, ne_eq] at first
      rw [List.cons_append, splitTopLevelFrom, if_neg (by simp [first]),
        if_neg (by simp [first]), if_neg (by simp [first]),
        if_neg (by simp [first]), ih later]
      simp

/-- In a text in quotation marks everything else is read one by one. -/
theorem splitTopLevelFrom_inStr {text : List Char} (noQuote : '"' ∉ text)
    (buf rest : List Char) :
    splitTopLevelFrom false true 0 buf (text ++ rest) =
      splitTopLevelFrom false true 0 (buf ++ text) rest := by
  induction text generalizing buf with
  | nil => rw [List.nil_append, List.append_nil]
  | cons c text ih =>
      rw [List.mem_cons, not_or] at noQuote
      rw [List.cons_append, splitTopLevelFrom,
        if_neg (by simp [Ne.symm noQuote.1]), if_neg (by simp),
        if_neg (by simp), if_neg (by simp), ih noQuote.2]
      simp

theorem splitTopLevelFrom_quoted {text : List Char} (noQuote : '"' ∉ text)
    (buf rest : List Char) :
    splitTopLevelFrom false false 0 buf ('"' :: (text ++ '"' :: rest)) =
      splitTopLevelFrom false false 0 (buf ++ '"' :: (text ++ ['"'])) rest := by
  rw [splitTopLevelFrom, if_pos ⟨rfl, rfl⟩, Bool.not_false,
    splitTopLevelFrom_inStr noQuote, splitTopLevelFrom, if_pos ⟨rfl, rfl⟩]
  simp

/-- Between two pairs of braces ordinary characters are read one by one. -/
theorem splitTopLevelFrom_braced {text : List Char}
    (ordinary : ∀ c ∈ text, isOrdinary c = true) (buf rest : List Char) :
    splitTopLevelFrom false false 0 buf
        ('\x7b' :: '\x7b' :: (text ++ '\x7d' :: '\x7d' :: rest)) =
      splitTopLevelFrom false false 0
        (buf ++ '\x7b' :: '\x7b' :: (text ++ ['\x7d', '\x7d'])) rest := by
  have depth : saturatingPred (0 + 1) = 0 := by decide
  rw [splitTopLevelFrom, if_neg (by simp), if_pos ⟨rfl, rfl, rfl⟩,
    splitTopLevelFrom, splitTopLevelFrom_ordinary ordinary,
    splitTopLevelFrom, if_neg (by simp), if_neg (by simp),
    if_pos ⟨rfl, rfl, rfl⟩, splitTopLevelFrom, depth]
  simp

theorem isOrdinary_of_isFieldChar {c : Char} (field : isFieldChar c = true) :
    isOrdinary c = true := by
  simp only [isOrdinary, Bool.and_eq_true, bne_iff_ne, ne_eq]
  refine ⟨⟨⟨?_, ?_⟩, ?_⟩, ?_⟩ <;> rintro rfl <;> exact absurd field (by decide)

theorem isWhitespace_of_isFieldChar {c : Char} (field : isFieldChar c = true) :
    isWhitespace c = false := by
  have code : (97 ≤ c.toNat ∧ c.toNat ≤ 122) ∨
      (48 ≤ c.toNat ∧ c.toNat ≤ 57) ∨ c.toNat = 95 := by
    simp only [isFieldChar, Bool.or_eq_true, beq_iff_eq] at field
    rcases field with (lower | digit) | rfl
    · obtain ⟨low, high⟩ := Bool.and_eq_true_iff.mp lower
      exact Or.inl ⟨of_decide_eq_true low, of_decide_eq_true high⟩
    · obtain ⟨low, high⟩ := Bool.and_eq_true_iff.mp digit
      exact Or.inr (Or.inl ⟨of_decide_eq_true low, of_decide_eq_true high⟩)
    · exact Or.inr (Or.inr rfl)
  simp only [isWhitespace, Bool.or_eq_false_iff, Bool.and_eq_false_iff,
    decide_eq_false_iff_not, beq_eq_false_iff_ne, ne_eq]
  omega

theorem isFieldChar_of_isToolChar {c : Char} (tool : isToolChar c = true) :
    isFieldChar c = true := by
  simp only [isToolChar, Bool.or_eq_true] at tool
  simp only [isFieldChar, Bool.or_eq_true]
  tauto

theorem isFieldChar_of_isDigit {c : Char} (digit : c.isDigit = true) :
    isFieldChar c = true := by
  simp [isFieldChar, digit]

theorem IsIdentifier.isFieldChar {name : String} (identifier : IsIdentifier name) :
    ∀ c ∈ name.toList, isFieldChar c = true := by
  obtain ⟨first, rest, whole, isFirst, isRest⟩ := identifier
  rw [whole]
  exact List.forall_mem_cons.mpr ⟨isFieldChar_of_isToolChar isFirst, isRest⟩

theorem IsStepId.isFieldChar {id : String} (isId : IsStepId id) :
    ∀ c ∈ id.toList, isFieldChar c = true := by
  obtain ⟨digits, -, isDigits, whole⟩ := isId
  intro c mem
  rw [whole, List.mem_append] at mem
  rcases mem with mem | mem
  · have letters : ∀ c ∈ "step".toList, PlannerDsl.isFieldChar c = true :=
      List.all_eq_true.mp (by decide)
    exact letters c mem
  · exact isFieldChar_of_isDigit (isDigits c mem)

/-- Nothing is split inside a printable value. -/
theorem splitTopLevelFrom_valueText {value : ArgValue}
    (printable : value.Printable) (buf rest : List Char) :
    splitTopLevelFrom false false 0 buf (valueText value ++ rest) =
      splitTopLevelFrom false false 0 (buf ++ valueText value) rest := by
  cases value with
  | ref stepId field =>
      have ordinary : ∀ c ∈ stepId.toList ++ '.' :: field.toList,
          isOrdinary c = true := by
        intro c mem
        rw [List.mem_append, List.mem_cons] at mem
        rcases mem with mem | rfl | mem
        · exact isOrdinary_of_isFieldChar (printable.1.isFieldChar c mem)
        · decide
        · exact isOrdinary_of_isFieldChar (printable.2.isFieldChar c mem)
      have braced := splitTopLevelFrom_braced ordinary buf rest
      rw [valueText, refText]
      simpa using braced
  | literal value =>
      cases value with
      | string text =>
          have quoted := splitTopLevelFrom_quoted printable.1 buf rest
          rw [valueText]
          simpa using quoted
      | bool value =>
          cases value with
          | true =>
              exact splitTopLevelFrom_ordinary
                (List.all_eq_true.mp (by decide)) _ _ _ _
          | false =>
              exact splitTopLevelFrom_ordinary
                (List.all_eq_true.mp (by decide)) _ _ _ _
      | number number =>
          cases number with
          | posInt value =>
              refine splitTopLevelFrom_ordinary (fun c mem => ?_) _ _ _ _
              exact isOrdinary_of_isFieldChar
                (isFieldChar_of_isDigit (digits_isDigit c mem))
          | negInt value =>
              refine splitTopLevelFrom_ordinary (fun c mem => ?_) _ _ _ _
              rcases List.mem_cons.mp mem with rfl | mem
              · decide
              · exact isOrdinary_of_isFieldChar
                  (isFieldChar_of_isDigit (digits_isDigit c mem))
          | float bits => exact absurd printable id
      | null => exact absurd printable id
      | array values => exact absurd printable id
      | object entries => exact absurd printable id

/-- What may be written as an argument. -/
structure PrintableArg (arg : String × ArgValue) : Prop where
  key : IsIdentifier arg.1
  value : arg.2.Printable

theorem splitTopLevelFrom_argText {arg : String × ArgValue}
    (printable : PrintableArg arg) (buf rest : List Char) :
    splitTopLevelFrom false false 0 buf (argText arg ++ rest) =
      splitTopLevelFrom false false 0 (buf ++ argText arg) rest := by
  have ordinary : ∀ c ∈ arg.1.toList ++ ['='], isOrdinary c = true := by
    intro c mem
    rcases List.mem_append.mp mem with mem | mem
    · exact isOrdinary_of_isFieldChar (printable.key.isFieldChar c mem)
    · rw [List.mem_singleton.mp mem]
      decide
  have whole : argText arg = arg.1.toList ++ ['='] ++ valueText arg.2 := by
    simp [argText]
  rw [whole, List.append_assoc, splitTopLevelFrom_ordinary ordinary,
    splitTopLevelFrom_valueText printable.value, List.append_assoc]

theorem argsText_cons_cons (arg other : String × ArgValue)
    (args : List (String × ArgValue)) :
    argsText (arg :: other :: args) =
      argText arg ++ ',' :: ' ' :: argsText (other :: args) := by
  simp [argsText]

/-- The arguments are split at the commas between them. -/
theorem splitTopLevelFrom_argsText {arg : String × ArgValue}
    {args : List (String × ArgValue)}
    (printable : ∀ each ∈ arg :: args, PrintableArg each) (buf : List Char) :
    splitTopLevelFrom false false 0 buf (argsText (arg :: args)) =
      (buf ++ argText arg) :: args.map fun arg => ' ' :: argText arg := by
  obtain ⟨first, later⟩ := List.forall_mem_cons.mp printable
  induction args generalizing arg buf with
  | nil =>
      have whole := splitTopLevelFrom_argText first buf []
      rw [List.append_nil] at whole
      have nonempty : (buf ++ argText arg).isEmpty = false := by
        simp [argText]
      rw [argsText, List.map_singleton, List.intercalate_singleton, whole,
        splitTopLevelFrom, nonempty]
      rfl
  | cons other args ih =>
      obtain ⟨next, rest⟩ := List.forall_mem_cons.mp later
      have split := ih later [' '] next rest
      rw [argsText_cons_cons, splitTopLevelFrom_argText first,
        splitTopLevelFrom, if_neg (by simp), if_neg (by simp),
        if_neg (by simp), if_pos ⟨rfl, rfl, rfl⟩, splitTopLevelFrom,
        if_neg (by simp), if_neg (by simp), if_neg (by simp),
        if_neg (by simp), List.nil_append, split]
      rfl

/-- The ends of a printable value are no spaces. -/
theorem valueText_ends {value : ArgValue} (printable : value.Printable) :
    valueText value ≠ [] ∧
      (∀ c ∈ (valueText value).head?, isWhitespace c = false) ∧
      ∀ c ∈ (valueText value).getLast?, isWhitespace c = false := by
  have digits (number : Nat) : ∀ c ∈ Nat.toDigits 10 number,
      isWhitespace c = false :=
    fun c mem => isWhitespace_of_isFieldChar
      (isFieldChar_of_isDigit (digits_isDigit c mem))
  cases value with
  | ref stepId field =>
      have text : valueText (.ref stepId field) = '\x7b' :: '\x7b' ::
          (stepId.toList ++ '.' :: field.toList ++ ['\x7d']) ++ ['\x7d'] := by
        simp [valueText, refText]
      rw [text]
      refine ⟨by simp, by rintro c ⟨⟩; decide, fun c isLast => ?_⟩
      rw [List.getLast?_concat] at isLast
      cases isLast
      decide
  | literal value =>
      cases value with
      | string text =>
          rw [valueText]
          refine ⟨by simp, fun c isFirst => ?_, fun c isLast => ?_⟩
          · obtain rfl : c = '"' := by simpa [eq_comm] using isFirst
            decide
          · obtain rfl : c = '"' := by
              simpa [eq_comm, List.getLast?_cons] using isLast
            decide
      | bool value =>
          cases value <;>
            exact ⟨by decide, by rintro c ⟨⟩; decide, by rintro c ⟨⟩; decide⟩
      | number number =>
          cases number with
          | posInt value =>
              exact ⟨Nat.toDigits_ne_nil,
                fun c isFirst => digits _ c (List.mem_of_mem_head? isFirst),
                fun c isLast => digits _ c (List.mem_of_mem_getLast? isLast)⟩
          | negInt value =>
              refine ⟨by simp [valueText], by rintro c ⟨⟩; decide,
                fun c isLast => ?_⟩
              rcases List.mem_cons.mp (List.mem_of_mem_getLast? isLast) with
                rfl | mem
              · decide
              · exact digits _ c mem
          | float bits => exact absurd printable id
      | null => exact absurd printable id
      | array values => exact absurd printable id
      | object entries => exact absurd printable id

theorem trim_identifier {name : String} (identifier : IsIdentifier name) :
    trim name.toList = name.toList :=
  trim_eq_self
    (fun c isFirst => isWhitespace_of_isFieldChar
      (identifier.isFieldChar c (List.mem_of_mem_head? isFirst)))
    (fun c isLast => isWhitespace_of_isFieldChar
      (identifier.isFieldChar c (List.mem_of_mem_getLast? isLast)))

theorem trim_valueText {value : ArgValue} (printable : value.Printable) :
    trim (valueText value) = valueText value :=
  trim_eq_self (valueText_ends printable).2.1 (valueText_ends printable).2.2

theorem trim_space_cons (text : List Char) : trim (' ' :: text) = trim text := by
  rw [trim, List.dropWhile_cons_of_pos (by decide), trim]

theorem splitOnce_argText {arg : String × ArgValue}
    (printable : PrintableArg arg) :
    splitOnce '=' (argText arg) = some (arg.1.toList, valueText arg.2) := by
  have noEquals : ∀ c ∈ arg.1.toList, (c != '=') = true := by
    intro c mem
    rw [bne_iff_ne]
    rintro rfl
    exact absurd (printable.key.isFieldChar _ mem) (by decide)
  rw [splitOnce, List.span_eq_takeWhile_dropWhile, argText,
    List.takeWhile_append_of_pos noEquals, List.dropWhile_append_of_pos noEquals]
  simp

/-- The pairs are read one by one. -/
theorem parsePairs_cons {tool : String} {arg : String × ArgValue}
    {raw : List Char} {raws : List (List Char)}
    (printable : PrintableArg arg) (isRaw : trim raw = argText arg) :
    parsePairs libraries tool (raw :: raws) =
      (parsePairs libraries tool raws).map
        fun args => (arg.1, arg.2.asRead) :: args := by
  have nonempty : (argText arg).isEmpty = false := by simp [argText]
  rw [parsePairs, isRaw]
  simp only [nonempty, splitOnce_argText printable,
    trim_valueText printable.value, parseValue_valueText printable.value,
    trim_identifier printable.key, String.ofList_toList]
  cases parsePairs libraries tool raws <;> rfl

theorem argsText_begins (arg : String × ArgValue)
    (args : List (String × ArgValue)) :
    ∃ rest, argsText (arg :: args) = argText arg ++ rest := by
  cases args with
  | nil => exact ⟨[], by simp [argsText]⟩
  | cons other args => exact ⟨_, argsText_cons_cons arg other args⟩

theorem argText_begins {arg : String × ArgValue} (printable : PrintableArg arg) :
    ∃ c rest, argText arg = c :: rest ∧ isWhitespace c = false := by
  obtain ⟨c, rest, name, isFirst, -⟩ := printable.key
  refine ⟨c, rest ++ '=' :: valueText arg.2, by rw [argText, name]; rfl, ?_⟩
  exact isWhitespace_of_isFieldChar (isFieldChar_of_isToolChar isFirst)

theorem argText_last {arg : String × ArgValue} (printable : PrintableArg arg) :
    ∀ c ∈ (argText arg).getLast?, isWhitespace c = false := by
  obtain ⟨nonempty, -, last⟩ := valueText_ends printable.value
  rw [argText, List.append_cons, List.getLast?_append_of_ne_nil _ nonempty]
  exact last

theorem trim_argText {arg : String × ArgValue} (printable : PrintableArg arg) :
    trim (argText arg) = argText arg := by
  obtain ⟨first, rest, begins, noSpace⟩ := argText_begins printable
  refine trim_eq_self ?_ (argText_last printable)
  rw [begins]
  rintro c ⟨⟩
  exact noSpace

theorem argsText_last {arg : String × ArgValue}
    {args : List (String × ArgValue)}
    (printable : ∀ each ∈ arg :: args, PrintableArg each) :
    ∀ c ∈ (argsText (arg :: args)).getLast?, isWhitespace c = false := by
  induction args generalizing arg with
  | nil =>
      rw [argsText, List.map_singleton, List.intercalate_singleton]
      exact argText_last (printable arg List.mem_cons_self)
  | cons other args ih =>
      obtain ⟨_, later⟩ := List.forall_mem_cons.mp printable
      obtain ⟨c, start, begins, _⟩ := argText_begins (later other List.mem_cons_self)
      obtain ⟨rest, whole⟩ := argsText_begins other args
      have nonempty : argsText (other :: args) ≠ [] := by
        rw [whole, begins]
        simp
      rw [argsText_cons_cons, List.append_cons, List.append_cons,
        List.getLast?_append_of_ne_nil _ nonempty]
      exact ih later

theorem parsePairs_spaced {tool : String} {args : List (String × ArgValue)}
    (printable : ∀ arg ∈ args, PrintableArg arg) :
    parsePairs libraries tool (args.map fun arg => ' ' :: argText arg) =
      .ok (args.map fun arg => (arg.1, arg.2.asRead)) := by
  induction args with
  | nil => rfl
  | cons arg args ih =>
      obtain ⟨first, later⟩ := List.forall_mem_cons.mp printable
      have isRaw : trim (' ' :: argText arg) = argText arg := by
        rw [trim_space_cons, trim_argText first]
      rw [List.map_cons, parsePairs_cons first isRaw, ih later]
      rfl

/-- Printable arguments are read back. -/
theorem parseArgs_argsText {tool : String} {args : List (String × ArgValue)}
    (printable : ∀ arg ∈ args, PrintableArg arg) :
    parseArgs libraries tool (argsText args) =
      .ok (args.map fun arg => (arg.1, arg.2.asRead)) := by
  cases args with
  | nil => rfl
  | cons arg args =>
      obtain ⟨first, later⟩ := List.forall_mem_cons.mp printable
      obtain ⟨c, start, begins, noSpace⟩ := argText_begins first
      obtain ⟨rest, whole⟩ := argsText_begins arg args
      have head : ∀ d ∈ (argsText (arg :: args)).head?,
          isWhitespace d = false := by
        rw [whole, begins]
        rintro d ⟨⟩
        exact noSpace
      have nonempty : argsText (arg :: args) ≠ [] := by
        rw [whole, begins]
        simp
      rw [parseArgs, trim_eq_self head (argsText_last printable)]
      simp only [List.isEmpty_eq_false_iff.mpr nonempty, Bool.false_eq_true,
        if_false]
      rw [splitTopLevel, splitTopLevelFrom_argsText printable, List.nil_append,
        parsePairs_cons first (trim_argText first), parsePairs_spaced later]
      rfl

/-! ## Steps -/

theorem knownTools_word :
    ∀ tool ∈ knownTools, tool.toList ≠ [] ∧
      ∀ c ∈ tool.toList, isToolChar c = true := by
  have words : knownTools.all (fun tool => tool.toList ≠ [] ∧
      tool.toList.all isToolChar) = true := by
    decide
  simpa using words

/-- The greedy run of the arguments gives back the last parenthesis. -/
theorem captures_arguments {text : List Char} (oneLine : '\n' ∉ text) :
    captures
      [⟨true, [.many (· != '\n')]⟩, ⟨false, literal [')'] ++ [.many isWhitespace]⟩]
      (text ++ [')']) = some [text] := by
  have inside : ∀ c ∈ text, (c != '\n') = true := by
    intro c mem
    rw [bne_iff_ne]
    rintro rfl
    exact oneLine mem
  have close : greedy (· != '\n') (matchPieces (captures
      [⟨false, literal [')'] ++ [.many isWhitespace]⟩]) []) [')'] =
        some ([], []) := rfl
  have run := greedy_append inside close
  rw [List.append_nil] at run
  exact captures_cons ⟨true, [.many (· != '\n')]⟩ run

theorem IsStepId.begins {id : String} (isId : IsStepId id) :
    ∃ digit rest, id.toList = 's' :: 't' :: 'e' :: 'p' :: digit :: rest ∧
      digit.isDigit = true := by
  obtain ⟨digits, nonempty, isDigits, whole⟩ := isId
  obtain ⟨first, rest, rfl⟩ := List.exists_cons_of_ne_nil nonempty
  exact ⟨first, rest, whole, isDigits first List.mem_cons_self⟩

theorem IsStepId.not_space {id : String} (isId : IsStepId id)
    (text : List Char) :
    ∀ c ∈ (id.toList ++ text).head?, isWhitespace c = false := by
  obtain ⟨digit, rest, begins, -⟩ := isId.begins
  rw [begins]
  rintro c ⟨⟩
  decide

/-- The parts of a written step are captured. -/
theorem captures_stepText (libraries : TextLibraries) {step : Step}
    (isId : IsStepId step.id)
    (isTool : step.tool ∈ knownTools) (oneLine : '\n' ∉ argsText step.args) :
    captures (stepPattern libraries) (stepText step) =
      some [step.id.toList, step.tool.toList, argsText step.args] := by
  obtain ⟨nonempty, isWord⟩ := knownTools_word step.tool isTool
  obtain ⟨first, rest, name⟩ := List.exists_cons_of_ne_nil nonempty
  rw [name] at isWord
  obtain ⟨isFirst, isRest⟩ := List.forall_mem_cons.mp isWord
  have arguments := captures_arguments oneLine
  have open_ := captures_cons ⟨false, .many isWhitespace :: literal ['(']⟩
    (matchPieces_many_nil (by rintro c ⟨⟩; decide)
      (matchPieces_fixed ['('] _ arguments))
  have tool := captures_cons ⟨true, [.one isToolChar, .many isToolChar]⟩
    (matchPieces_word isFirst isRest (by rintro c ⟨⟩; decide) open_)
  have notSpace : isWhitespace first = false :=
    isWhitespace_of_isFieldChar (isFieldChar_of_isToolChar isFirst)
  have dot := captures_cons ⟨false, literal ['.'] ++ [.many isWhitespace]⟩
    (matchPieces_literal ['.'] _ (matchPieces_many
      (List.forall_mem_singleton.mpr (show isWhitespace ' ' = true by decide))
      (by rintro c ⟨⟩; exact notSpace) (matchPieces_nil tool)))
  have id := captures_stepIdSegment libraries isId dot
  have start := captures_cons ⟨false, [.many isWhitespace]⟩
    (matchPieces_many_nil (isId.not_space _) (matchPieces_nil id))
  rw [stepPattern, stepText, name]
  simpa using start

theorem newline_notMem_valueText {value : ArgValue}
    (printable : value.Printable) : '\n' ∉ valueText value := by
  have inner (c : Char) (field : isFieldChar c = true) : c ≠ '\n' := by
    rintro rfl
    exact absurd field (by decide)
  have digits (number : Nat) : '\n' ∉ Nat.toDigits 10 number :=
    fun mem => inner _ (isFieldChar_of_isDigit (digits_isDigit _ mem)) rfl
  cases value with
  | ref stepId field =>
      have first : '\n' ∉ stepId.toList :=
        fun mem => inner _ (printable.1.isFieldChar _ mem) rfl
      have second : '\n' ∉ field.toList :=
        fun mem => inner _ (printable.2.isFieldChar _ mem) rfl
      simp [valueText, refText, first, second]
  | literal value =>
      cases value with
      | string text => simp [valueText, printable.2]
      | bool value => cases value <;> decide
      | number number =>
          cases number with
          | posInt value => exact digits _
          | negInt value => simp [valueText, digits]
          | float bits => exact absurd printable id
      | null => exact absurd printable id
      | array values => exact absurd printable id
      | object entries => exact absurd printable id

theorem newline_notMem_argsText {args : List (String × ArgValue)}
    (printable : ∀ arg ∈ args, PrintableArg arg) : '\n' ∉ argsText args := by
  have each : ∀ arg ∈ args, '\n' ∉ argText arg := by
    intro arg mem
    have key : '\n' ∉ arg.1.toList := fun newline =>
      absurd ((printable arg mem).key.isFieldChar _ newline) (by decide)
    simp [argText, key, newline_notMem_valueText (printable arg mem).value]
  clear printable
  induction args with
  | nil => simp [argsText]
  | cons arg args ih =>
      obtain ⟨first, later⟩ := List.forall_mem_cons.mp each
      cases args with
      | nil => simpa [argsText] using first
      | cons other args => simp [argsText_cons_cons, first, ih later]

theorem Step.Printable.args {step : Step} (printable : step.Printable) :
    ∀ arg ∈ step.args, PrintableArg arg :=
  fun arg mem => ⟨printable.keys arg mem, printable.values arg mem⟩

theorem stepText_concat (step : Step) :
    stepText step = step.id.toList ++ ['.', ' '] ++ step.tool.toList ++
      '(' :: argsText step.args ++ [')'] := by
  simp [stepText]

theorem trim_stepText {step : Step} (printable : step.Printable) :
    trim (stepText step) = stepText step := by
  apply trim_eq_self
  · rw [stepText, List.append_assoc, List.append_assoc]
    exact printable.id.not_space _
  · rw [stepText_concat, List.getLast?_concat]
    rintro c ⟨⟩
    decide

/-- A written step is read back. -/
theorem parseLine_stepText {step : Step} (printable : step.Printable)
    (lineNo : Nat) :
    parseLine libraries lineNo (stepText step) = .ok (some step.asRead) := by
  obtain ⟨digit, rest, begins, isDigit⟩ := printable.id.begins
  have looks : looksLikeStep (stepText step) = true := by
    rw [stepText, begins]
    simp [looksLikeStep, isDigit]
  have nonempty : (stepText step).isEmpty = false := by
    rw [stepText, begins]
    rfl
  have captured := captures_stepText libraries printable.id
    printable.tool (newline_notMem_argsText printable.args)
  have known : knownTools.contains step.tool = true :=
    List.contains_iff_mem.mpr printable.tool
  rw [parseLine, trim_stepText printable]
  simp only [nonempty, looks, captured, known, String.ofList_toList,
    parseArgs_argsText printable.args, Bool.not_true, Bool.or_false,
    Bool.false_eq_true, if_false]
  rfl

/-! ## Lines -/

theorem trim_concat {c : Char} (space : isWhitespace c = true)
    (line : List Char) : trim (line ++ [c]) = trim line := by
  rw [trim, trim, List.dropWhile_append]
  split_ifs with blank
  · rw [List.dropWhile_cons_of_pos space, List.isEmpty_iff.mp blank]
    rfl
  · rw [List.rdropWhile_concat_pos _ _ _ space]

theorem trim_stripCr (line : List Char) : trim (stripCr line) = trim line := by
  rw [stripCr]
  split_ifs with ends
  · obtain ⟨front, rfl⟩ := List.getLast?_eq_some_iff.mp ends
    rw [List.dropLast_concat, trim_concat (by decide)]
  · rfl

/-- A line of a plan: a step, or anything that does not look like one. -/
inductive PlanLine where
  | written (step : Step)
  | prose (text : List Char)

def PlanLine.text : PlanLine → List Char
  | .written step => stepText step
  | .prose text => text

def PlanLine.step? : PlanLine → Option Step
  | .written step => some step
  | .prose _ => none

/-- Prose is a line that does not begin with `step` and a digit, whatever
spaces stand before them. -/
def PlanLine.Valid : PlanLine → Prop
  | .written step => step.Printable
  | .prose text => '\n' ∉ text ∧ looksLikeStep (trim text) = false

def planText (lines : List PlanLine) : String :=
  String.ofList (['\n'].intercalate (lines.map PlanLine.text))

theorem parseLine_prose {text : List Char}
    (noStep : looksLikeStep (trim text) = false) (lineNo : Nat) :
    parseLine libraries lineNo text = .ok none := by
  simp [parseLine, noStep]

theorem PlanLine.Valid.parseLine {line : PlanLine} (valid : line.Valid)
    (libraries : TextLibraries) (lineNo : Nat) :
    parseLine libraries lineNo line.text =
      .ok (line.step?.map Step.asRead) := by
  cases line with
  | written step => exact parseLine_stepText valid lineNo
  | prose text => exact parseLine_prose valid.2 lineNo

/-- The end of a line does not matter. -/
theorem PlanLine.Valid.parseLine_stripCr {line : PlanLine} (valid : line.Valid)
    (lineNo : Nat) :
    PlannerDsl.parseLine libraries lineNo (stripCr line.text) =
      .ok (line.step?.map Step.asRead) := by
  cases line with
  | written step =>
      have same : stripCr (stepText step) = stepText step := by
        rw [stripCr, stepText_concat, List.getLast?_concat]
        rfl
      rw [PlanLine.text, same]
      exact parseLine_stepText valid lineNo
  | prose text =>
      refine parseLine_prose ?_ lineNo
      rw [PlanLine.text, trim_stripCr]
      exact valid.2

theorem PlanLine.Valid.oneLine {line : PlanLine} (valid : line.Valid) :
    '\n' ∉ line.text := by
  cases line with
  | written step =>
      have id : '\n' ∉ step.id.toList := fun mem =>
        absurd (valid.id.isFieldChar _ mem) (by decide)
      have tool : '\n' ∉ step.tool.toList := fun mem =>
        absurd ((knownTools_word step.tool valid.tool).2 _ mem) (by decide)
      simp [PlanLine.text, stepText, id, tool,
        newline_notMem_argsText valid.args]
  | prose text => exact valid.1

/-- A line is read up to its end. -/
theorem linesFrom_append {line : List Char} (oneLine : '\n' ∉ line)
    (current rest : List Char) :
    linesFrom current (line ++ rest) = linesFrom (current ++ line) rest := by
  induction line generalizing current with
  | nil => rw [List.nil_append, List.append_nil]
  | cons c line ih =>
      rw [List.mem_cons, not_or] at oneLine
      rw [List.cons_append, linesFrom, if_neg (Ne.symm oneLine.1),
        ih oneLine.2]
      simp

theorem parseLines_cons {lineNo : Nat} {raw : List Char}
    {raws : List (List Char)} {step : Option Step} {steps : List Step}
    (first : parseLine libraries lineNo raw = .ok step)
    (rest : parseLines libraries (lineNo + 1) raws = .ok steps) :
    parseLines libraries lineNo (raw :: raws) = .ok (step.toList ++ steps) := by
  rw [parseLines, first]
  simp only [bind, Except.bind, rest]
  rfl

/-- The steps of a plan. -/
def stepsOf (lines : List PlanLine) : List Step :=
  lines.filterMap PlanLine.step?

theorem stepsOf_cons (line : PlanLine) (lines : List PlanLine) :
    (stepsOf (line :: lines)).map Step.asRead =
      (line.step?.map Step.asRead).toList ++
        (stepsOf lines).map Step.asRead := by
  cases line <;> rfl

/-- All steps of a written plan are read. -/
theorem parseLines_planText {lines : List PlanLine}
    (valid : ∀ line ∈ lines, line.Valid) (lineNo : Nat) :
    parseLines libraries lineNo
        (linesFrom [] (['\n'].intercalate (lines.map PlanLine.text))) =
      .ok ((stepsOf lines).map Step.asRead) := by
  induction lines generalizing lineNo with
  | nil => rfl
  | cons line lines ih =>
      obtain ⟨first, later⟩ := List.forall_mem_cons.mp valid
      rw [stepsOf_cons]
      cases lines with
      | nil =>
          have read := linesFrom_append first.oneLine [] []
          have parsed := first.parseLine libraries lineNo
          rw [List.append_nil, List.nil_append] at read
          rw [List.map_singleton, List.intercalate_singleton, read, linesFrom]
          split_ifs with blank
          · rw [List.isEmpty_iff.mp blank] at parsed
            have noStep : none = line.step?.map Step.asRead :=
              Except.ok.inj parsed
            rw [← noStep]
            rfl
          · exact parseLines_cons parsed rfl
      | cons other lines =>
          rw [List.map_cons, List.map_cons, List.intercalate_cons_cons,
            List.append_assoc, linesFrom_append first.oneLine,
            List.singleton_append, linesFrom, if_pos rfl, List.nil_append]
          exact parseLines_cons (first.parseLine_stripCr lineNo)
            (ih later (lineNo + 1))

/-- A written plan with at least one step is read back. -/
theorem parse_planText (libraries : TextLibraries) (lines : List PlanLine)
    (valid : ∀ line ∈ lines, line.Valid) (nonempty : stepsOf lines ≠ []) :
    parse libraries (planText lines) =
      .ok ((stepsOf lines).map Step.asRead) := by
  have some_steps : ((stepsOf lines).map Step.asRead).isEmpty = false := by
    simp [nonempty]
  rw [parse, planText, String.toList_ofList, parseLines_planText valid]
  simp only [bind, Except.bind, some_steps]
  rfl

/-- Libraries with the ASCII digits and without floats. -/
def asciiLibraries : TextLibraries where
  isDecimal := Char.isDigit
  ascii := fun _ _ => rfl
  parseF64 := fun _ => none

def chattyPlan : List PlanLine :=
  [.prose "I will look at the image first.".toList,
    .written ⟨"step1", "classify",
      [("image", .literal (.string "a, b) = \x7b\x7bstep2\x7d\x7d")),
        ("top_k", .literal (.number (.posInt 3)))]⟩,
    .prose [],
    .written ⟨"step2", "final", [("answer", .ref "step1" "label")]⟩]

theorem chattyPlan_read :
    parse asciiLibraries (planText chattyPlan) = .ok (stepsOf chattyPlan) := by
  refine (parse_planText asciiLibraries chattyPlan ?_ (by decide)).trans rfl
  intro line mem
  simp only [chattyPlan, List.mem_cons, List.not_mem_nil, or_false] at mem
  rcases mem with rfl | rfl | rfl | rfl
  · exact ⟨by decide, by decide⟩
  · refine ⟨⟨['1'], by decide, List.all_eq_true.mp rfl, rfl⟩, by decide, ?_, ?_⟩
    · rintro arg (_ | ⟨_, _ | ⟨_, ⟨⟩⟩⟩)
      · exact ⟨'i', "mage".toList, rfl, rfl, List.all_eq_true.mp rfl⟩
      · exact ⟨'t', "op_k".toList, rfl, rfl, List.all_eq_true.mp rfl⟩
    · rintro arg (_ | ⟨_, _ | ⟨_, ⟨⟩⟩⟩)
      · exact ⟨by decide, by decide⟩
      · show (3 : UInt64).toNat < 2 ^ 63
        decide
  · exact ⟨by decide, by decide⟩
  · refine ⟨⟨['2'], by decide, List.all_eq_true.mp rfl, rfl⟩, by decide, ?_, ?_⟩
    · rintro arg (_ | ⟨_, ⟨⟩⟩)
      exact ⟨'a', "nswer".toList, rfl, rfl, List.all_eq_true.mp rfl⟩
    · rintro arg (_ | ⟨_, ⟨⟩⟩)
      exact ⟨⟨['1'], by decide, List.all_eq_true.mp rfl, rfl⟩,
        'l', "abel".toList, rfl, rfl, List.all_eq_true.mp rfl⟩

/-- One step with the integer 1. -/
def topOnePlan : List PlanLine :=
  [.written ⟨"step1", "classify", [("top_k", .literal (.number (.posInt 1)))]⟩]

theorem topOnePlan_valid : ∀ line ∈ topOnePlan, line.Valid := by
  rintro line (_ | ⟨_, ⟨⟩⟩)
  refine ⟨⟨['1'], by decide, List.all_eq_true.mp rfl, rfl⟩, by decide, ?_, ?_⟩
  · rintro arg (_ | ⟨_, ⟨⟩⟩)
    exact ⟨'t', "op_k".toList, rfl, rfl, List.all_eq_true.mp rfl⟩
  · rintro arg (_ | ⟨_, ⟨⟩⟩)
    show (1 : UInt64).toNat < 2 ^ 63
    decide

/-- The integer is read as a truth value, and a line that begins with spaces
before `step` and a digit is no prose. -/
theorem topOnePlan_misread :
    (∀ line ∈ topOnePlan, line.Valid) ∧
      parse asciiLibraries (planText topOnePlan) ≠ .ok (stepsOf topOnePlan) ∧
      parse asciiLibraries "  step1 is easy\nstep1. final()" ≠
        .ok [⟨"step1", "final", []⟩] := by
  refine ⟨topOnePlan_valid, fun same => ?_, fun same => ?_⟩
  · have read : parse asciiLibraries (planText topOnePlan) =
        .ok [⟨"step1", "classify", [("top_k", .literal (.bool true))]⟩] := rfl
    rw [read] at same
    cases same
  · have read : parse asciiLibraries "  step1 is easy\nstep1. final()" =
        .error (.malformedStep 1
          "does not match `stepN. tool(args)`:   step1 is easy") := rfl
    rw [read] at same
    cases same

end PlannerDsl

end TorchInference
