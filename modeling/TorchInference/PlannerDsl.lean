import Mathlib.Algebra.Group.Int.Defs
import TorchInference.CanonicalJson
import TorchInference.ClassPatterns
import TorchInference.OrderedInsertion
import TorchInference.SpeechPipeline

/-!
# The language of plans

A planner writes one step on a line, as `stepN. tool(key=value, ...)`, and may
write other lines in between.  A value is a reference to the result of a step, a
text in quotation marks, a truth value, a number, or a bare word.
-/

namespace TorchInference

namespace PlannerDsl

open ClassPatterns

/-- What the parser takes from its libraries: the decimal digits of Unicode in
patterns, and the floats that a text is read as, by their bits. -/
structure TextLibraries where
  isDecimal : Char → Bool
  ascii : ∀ c, c.toNat < 128 → isDecimal c = c.isDigit
  parseF64 : List Char → Option UInt64

inductive ArgValue where
  | literal (value : JsonValue)
  | ref (stepId field : String)

structure Step where
  id : String
  tool : String
  args : List (String × ArgValue)

inductive ParseError where
  | noSteps
  | malformedStep (lineNo : Nat) (detail : String)
  | malformedArg (tool detail : String)
  | unknownTool (tool : String)
  deriving DecidableEq

def ParseError.text : ParseError → String
  | .noSteps => "no steps recognized in planner output"
  | .malformedStep lineNo detail =>
      s!"malformed step on line {lineNo}: {detail}"
  | .malformedArg tool detail => s!"malformed argument in {tool}: {detail}"
  | .unknownTool tool => s!"unknown tool: {tool}"

/-- The text of a reference. -/
def refText (stepId field : String) : String :=
  "\x7b\x7b" ++ stepId ++ "." ++ field ++ "\x7d\x7d"

def ArgValue.toJson : ArgValue → JsonValue
  | .literal value => value
  | .ref stepId field => .string (refText stepId field)

def Step.argsAsJson (step : Step) : JsonValue :=
  .object (OrderedInsertion.insertAll
    (step.args.map fun arg => (arg.1, arg.2.toJson)) [])

def knownTools : List String :=
  ["classify", "detect", "vision", "reflect", "tts", "stt", "http_fetch",
    "final"]

/-! ## The two patterns -/

def isToolChar (c : Char) : Bool :=
  c.isLower || c == '_'

def isFieldChar (c : Char) : Bool :=
  c.isLower || c.isDigit || c == '_'

/-- `step\d+`, captured. -/
def stepIdSegment (libraries : TextLibraries) : Segment Char where
  captured := true
  pieces := literal "step".toList ++
    [.one libraries.isDecimal, .many libraries.isDecimal]

/-- `^\s*(step\d+)\.\s*([a-z_]+)\s*\((.*)\)\s*$`. -/
def stepPattern (libraries : TextLibraries) : List (Segment Char) :=
  [⟨false, [.many isWhitespace]⟩,
    stepIdSegment libraries,
    ⟨false, literal ['.'] ++ [.many isWhitespace]⟩,
    ⟨true, [.one isToolChar, .many isToolChar]⟩,
    ⟨false, .many isWhitespace :: literal ['(']⟩,
    ⟨true, [.many (· != '\n')]⟩,
    ⟨false, literal [')'] ++ [.many isWhitespace]⟩]

/-- The pattern of a reference to a field of the result of a step. -/
def refPattern (libraries : TextLibraries) : List (Segment Char) :=
  [⟨false, literal ['\x7b', '\x7b']⟩,
    stepIdSegment libraries,
    ⟨false, literal ['.']⟩,
    ⟨true, [.one isToolChar, .many isFieldChar]⟩,
    ⟨false, literal ['\x7d', '\x7d']⟩]

/-! ## Values -/

/-- `parse::<i64>`. -/
def parseI64 (text : List Char) : Option Int :=
  let digits := match text with
    | '-' :: digits => digits
    | '+' :: digits => digits
    | digits => digits
  if digits.isEmpty || !digits.all Char.isDigit then none
  else
    let magnitude := Nat.ofDigitChars 10 digits 0
    let value : Int := if text.head? = some '-' then -magnitude else magnitude
    if -2 ^ 63 ≤ value ∧ value < 2 ^ 63 then some value else none

/-- The JSON number of a 64-bit integer. -/
def integerJson (value : Int) : JsonValue :=
  if 0 ≤ value then .number (.posInt (UInt64.ofNat value.toNat))
  else .number (.negInt (Int64.ofInt value))

/-- The JSON number of a float; what is not finite becomes null. -/
def floatJson (bits : UInt64) : JsonValue :=
  if FiniteBits bits then .number (.float bits) else .null

variable (libraries : TextLibraries)

def isQuoted (text : List Char) : Bool :=
  text.head? == some '"' && text.getLast? == some '"' && 2 ≤ text.length

def isBareWord (text : List Char) : Bool :=
  text.all (fun c => c.isAlphanum || c == '_') && !text.isEmpty

/-- What is neither a reference nor in quotation marks. -/
def parsePlain (tool : String) (text : List Char) :
    Except ParseError ArgValue :=
  if text = "true".toList ∨ text = "1".toList then
    .ok (.literal (.bool true))
  else if text = "false".toList ∨ text = "0".toList then
    .ok (.literal (.bool false))
  else
    match parseI64 text with
    | some value => .ok (.literal (integerJson value))
    | none =>
      match libraries.parseF64 text with
      | some bits => .ok (.literal (floatJson bits))
      | none =>
        if isBareWord text then
          .ok (.literal (.string (String.ofList text)))
        else
          .error (.malformedArg tool
            ("could not parse value `" ++ String.ofList text ++ "`"))

def parseValue (tool : String) (text : List Char) :
    Except ParseError ArgValue :=
  match captures (refPattern libraries) text with
  | some [stepId, field] =>
      .ok (.ref (String.ofList stepId) (String.ofList field))
  | _ =>
    if isQuoted text then
      .ok (.literal (.string (String.ofList (text.drop 1).dropLast)))
    else parsePlain libraries tool text

/-! ## Arguments -/

/-- `i32::saturating_sub` by one. -/
def saturatingPred (depth : Int32) : Int32 :=
  if depth = Int32.minValue then depth else depth - 1

/-- The loop of `split_top_level`.  The second of two braces has been read with
the first one, and is passed over. -/
def splitTopLevelFrom : Bool → Bool → Int32 → List Char → List Char →
    List (List Char)
  | _, _, _, buf, [] => if buf.isEmpty then [] else [buf]
  | true, inStr, depth, buf, _ :: rest =>
      splitTopLevelFrom false inStr depth buf rest
  | false, inStr, depth, buf, c :: rest =>
      if c = '"' ∧ depth = 0 then
        splitTopLevelFrom false (!inStr) depth (buf ++ [c]) rest
      else if c = '\x7b' ∧ inStr = false ∧ rest.head? = some '\x7b' then
        splitTopLevelFrom true inStr (depth + 1) (buf ++ ['\x7b', '\x7b']) rest
      else if c = '\x7d' ∧ inStr = false ∧ rest.head? = some '\x7d' then
        splitTopLevelFrom true inStr (saturatingPred depth)
          (buf ++ ['\x7d', '\x7d']) rest
      else if c = ',' ∧ inStr = false ∧ depth = 0 then
        buf :: splitTopLevelFrom false inStr depth [] rest
      else splitTopLevelFrom false inStr depth (buf ++ [c]) rest

def splitTopLevel (text : List Char) : List (List Char) :=
  splitTopLevelFrom false false 0 [] text

/-- `split_once`, at the first character of its kind. -/
def splitOnce (separator : Char) (text : List Char) :
    Option (List Char × List Char) :=
  match text.span (· != separator) with
  | (_, []) => none
  | (before, _ :: after) => some (before, after)

/-- The loop over the pairs; blank ones are passed over. -/
def parsePairs (tool : String) :
    List (List Char) → Except ParseError (List (String × ArgValue))
  | [] => .ok []
  | rawPair :: rawPairs =>
      let pair := trim rawPair
      if pair.isEmpty then parsePairs tool rawPairs
      else
        match splitOnce '=' pair with
        | none =>
            .error (.malformedArg tool
              ("expected `key=value`, got `" ++ String.ofList pair ++ "`"))
        | some (key, value) => do
            let parsed ← parseValue libraries tool (trim value)
            let args ← parsePairs tool rawPairs
            return (String.ofList (trim key), parsed) :: args

def parseArgs (tool : String) (text : List Char) :
    Except ParseError (List (String × ArgValue)) :=
  let text := trim text
  if text.isEmpty then .ok []
  else parsePairs libraries tool (splitTopLevel text)

/-! ## Lines -/

def stripCr (line : List Char) : List Char :=
  if line.getLast? = some '\x0d' then line.dropLast else line

/-- `str::lines`, given what has been read of the current one. -/
def linesFrom : List Char → List Char → List (List Char)
  | current, [] => if current.isEmpty then [] else [current]
  | current, c :: rest =>
      if c = '\n' then stripCr current :: linesFrom [] rest
      else linesFrom (current ++ [c]) rest

/-- Whether a text begins with `step` and an ASCII digit. -/
def looksLikeStep (text : List Char) : Bool :=
  text.take 4 == "step".toList && (text[4]?).any Char.isDigit

/-- The step on a line, if there is one. -/
def parseLine (lineNo : Nat) (raw : List Char) :
    Except ParseError (Option Step) :=
  let line := trim raw
  if line.isEmpty || !looksLikeStep line then .ok none
  else
    match captures (stepPattern libraries) line with
    | some [id, tool, args] =>
        let tool := String.ofList tool
        if !knownTools.contains tool then .error (.unknownTool tool)
        else do
          let args ← parseArgs libraries tool args
          return some ⟨String.ofList id, tool, args⟩
    | _ =>
        .error (.malformedStep lineNo
          ("does not match `stepN. tool(args)`: " ++ String.ofList raw))

/-- The loop over the lines, the first of which has the given number. -/
def parseLines : Nat → List (List Char) → Except ParseError (List Step)
  | _, [] => .ok []
  | lineNo, raw :: raws => do
      let step ← parseLine libraries lineNo raw
      let steps ← parseLines (lineNo + 1) raws
      return step.toList ++ steps

def parse (text : String) : Except ParseError (List Step) := do
  let steps ← parseLines libraries 1 (linesFrom [] text.toList)
  if steps.isEmpty then .error .noSteps else return steps

end PlannerDsl

end TorchInference
