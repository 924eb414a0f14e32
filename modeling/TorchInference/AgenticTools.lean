import TorchInference.ChatStream
import TorchInference.JsonLexing
import TorchInference.TextOccurrences

/-!
# Tool calls in the replies of a chat

A reply may carry calls as JSON between two tags.  The client finds them with one
global pattern, whose position is state that three functions share.
-/

namespace TorchInference

namespace AgenticTools

open TextOccurrences

/-- What the client takes from its language: `toLowerCase`, and `JSON.parse`,
without a value where it throws.  White space around a text does not matter, a
text that is read lexes as JSON, and the key of a member `name` is spelled out or
escaped in it. -/
structure ScriptLibraries where
  lowercase : String → String
  parse : List Char → Option JsonValue
  trims : ∀ text value, parse text = some value →
    parse (ChatStream.trim text) = some value
  lexes : ∀ text value, parse text = some value → JsonLexing.Lexes text
  names : ∀ text value member, parse text = some value →
    value.field "name" = some member → 'm' ∈ text ∨ '\\' ∈ text

def openTag : Marker Char := ⟨'<', "tool>".toList, by decide⟩

def closeTag : Marker Char := ⟨'<', "/tool>".toList, by decide⟩

/-! ## The pattern -/

/-- A match of `/<tool>([\s\S]*?)<\/tool>/g`: where it begins and ends, and what
stands between the tags. -/
structure ToolMatch where
  index : Nat
  lastIndex : Nat
  inside : List Char

/-- `exec`, from the position that the pattern keeps. -/
def exec (text : List Char) : StateM Nat (Option ToolMatch) :=
  fun lastIndex =>
    match cutFirst openTag (text.drop lastIndex) with
    | none => (none, 0)
    | some (before, opened) =>
        match cutFirst closeTag opened with
        | none => (none, 0)
        | some (inside, _) =>
            let index := lastIndex + before.length
            let next := index + openTag.text.length + inside.length +
              closeTag.text.length
            (some ⟨index, next, inside⟩, next)

/-- `exec` until nothing is found; a match is never empty. -/
def execAll (text : List Char) : Nat → StateM Nat (List ToolMatch)
  | 0 => pure []
  | fuel + 1 => do
      match ← exec text with
      | none => return []
      | some found => return found :: (← execAll text fuel)

def hasToolCall (text : List Char) : StateM Nat Bool := do
  set 0
  return (← exec text).isSome

/-- A text from a position on, without the matches. -/
def withoutMatches (text : List Char) : Nat → List ToolMatch → List Char
  | position, [] => text.drop position
  | position, found :: others =>
      (text.drop position).take (found.index - position) ++
        withoutMatches text found.lastIndex others

/-- `replace` by nothing and `trim`; `replace` begins at the start. -/
def stripToolTags (text : List Char) : StateM Nat (List Char) := do
  set 0
  let found ← execAll text (text.length + 1)
  return ChatStream.trim (withoutMatches text 0 found)

/-! ## The calls -/

structure ParsedToolCall where
  name : String
  args : JsonValue

variable (libraries : ScriptLibraries)

/-- `args ?? {}`. -/
def argsOf (parsed : JsonValue) : JsonValue :=
  match parsed.field "args" with
  | none | some .null => .object []
  | some args => args

/-- The call in a value, if it has a name. -/
def callOf (parsed : JsonValue) : Option ParsedToolCall :=
  match parsed.field "name" with
  | some (.string name) => some ⟨libraries.lowercase name, argsOf parsed⟩
  | _ => none

/-- The call between two tags; what does not parse is skipped. -/
def callIn (inside : List Char) : Option ParsedToolCall :=
  (libraries.parse (ChatStream.trim inside)).bind (callOf libraries)

def extractToolCalls (text : List Char) : StateM Nat (List ParsedToolCall) := do
  set 0
  let found ← execAll text (text.length + 1)
  return found.filterMap fun each => callIn libraries each.inside

/-! ## Scans -/

/-- A text divides into what stands before and inside each match, and the rest. -/
inductive Scans : List Char → List (List Char × List Char) → List Char → Prop
  | rest {text : List Char}
      (unmatched : ∀ before opened,
        cutFirst openTag text = some (before, opened) →
          cutFirst closeTag opened = none) :
      Scans text [] text
  | found {before inside after : List Char}
      {parts : List (List Char × List Char)} {last : List Char}
      (outside : openTag.Absent before) (within : closeTag.Absent inside)
      (later : Scans after parts last) :
      Scans (before ++ (openTag.text ++ (inside ++ (closeTag.text ++ after))))
        ((before, inside) :: parts) last

theorem Scans.length_le {text last : List Char}
    {parts : List (List Char × List Char)} (scans : Scans text parts last) :
    parts.length ≤ text.length := by
  induction scans with
  | rest => exact Nat.zero_le _
  | found outside within later ih =>
      have tag : openTag.text.length = 6 := rfl
      simp only [List.length_append, List.length_cons, tag]
      omega

/-- The first match behind what has been passed. -/
theorem exec_append {before inside : List Char} (outside : openTag.Absent before)
    (within : closeTag.Absent inside) (passed after : List Char) :
    exec (passed ++ (before ++ (openTag.text ++ (inside ++
        (closeTag.text ++ after))))) passed.length =
      (some ⟨passed.length + before.length,
          passed.length + before.length + openTag.text.length + inside.length +
            closeTag.text.length, inside⟩,
        passed.length + before.length + openTag.text.length + inside.length +
          closeTag.text.length) := by
  rw [exec, List.drop_left]
  simp only [cutFirst_append outside, cutFirst_append within]

theorem execAll_none {text : List Char} {lastIndex next : Nat}
    (unmatched : exec text lastIndex = (none, next)) (fuel : Nat) :
    execAll text (fuel + 1) lastIndex = ([], next) := by
  simp only [execAll, bind, StateT.bind, unmatched]
  rfl

theorem execAll_some {text : List Char} {lastIndex next last fuel : Nat}
    {first : ToolMatch} {others : List ToolMatch}
    (matched : exec text lastIndex = (some first, next))
    (later : execAll text fuel next = (others, last)) :
    execAll text (fuel + 1) lastIndex = (first :: others, last) := by
  simp only [execAll, bind, StateT.bind, matched, later]
  rfl

/-- The pattern finds the parts of a text, behind what has been passed. -/
theorem Scans.execAll_eq {text last : List Char}
    {parts : List (List Char × List Char)} (scans : Scans text parts last)
    (passed : List Char) {fuel : Nat} (enough : parts.length < fuel) :
    ∃ found, execAll (passed ++ text) fuel passed.length = (found, 0) ∧
      found.map ToolMatch.inside = parts.map Prod.snd ∧
      withoutMatches (passed ++ text) passed.length found =
        parts.flatMap Prod.fst ++ last := by
  obtain ⟨fuel, rfl⟩ : ∃ more, fuel = more + 1 := ⟨fuel - 1, by omega⟩
  induction scans generalizing passed fuel with
  | @rest text unmatched =>
      have none : exec (passed ++ text) passed.length = (none, 0) := by
        rw [exec, List.drop_left]
        cases cut : cutFirst openTag text with
        | none => rfl
        | some pair => simp only [unmatched pair.1 pair.2 cut]
      refine ⟨[], execAll_none none fuel, rfl, ?_⟩
      rw [withoutMatches, List.drop_left]
      rfl
  | @found before inside after parts last outside within later ih =>
      obtain ⟨fuel, rfl⟩ : ∃ more, fuel = more + 1 :=
        ⟨fuel - 1, by simp only [List.length_cons] at enough; omega⟩
      have consumed : passed ++ (before ++ (openTag.text ++
          (inside ++ (closeTag.text ++ after)))) =
        (passed ++ before ++ openTag.text ++ inside ++ closeTag.text) ++
          after := by
        simp only [List.append_assoc]
      have position : (passed ++ before ++ openTag.text ++ inside ++
          closeTag.text).length =
        passed.length + before.length + openTag.text.length + inside.length +
          closeTag.text.length := by
        simp only [List.length_append]
      have fewer : parts.length < fuel + 1 := by
        rw [List.length_cons] at enough
        omega
      obtain ⟨others, run, insides, visible⟩ :=
        ih (passed ++ before ++ openTag.text ++ inside ++ closeTag.text) fuel fewer
      rw [← consumed, position] at run visible
      refine ⟨_, execAll_some (exec_append outside within passed after) run, ?_, ?_⟩
      · rw [List.map_cons, insides, List.map_cons]
      · rw [withoutMatches, visible, List.drop_left, Nat.add_sub_cancel_left,
          List.take_left, List.flatMap_cons, List.append_assoc]

/-! ## What the functions make of a scan -/

theorem set_lastIndex (index lastIndex : Nat) :
    (set index : StateM Nat PUnit) lastIndex = (⟨⟩, index) :=
  rfl

theorem Scans.extractToolCalls_eq {text last : List Char}
    {parts : List (List Char × List Char)} (scans : Scans text parts last)
    (lastIndex : Nat) :
    extractToolCalls libraries text lastIndex =
      ((parts.map Prod.snd).filterMap (callIn libraries), 0) := by
  obtain ⟨found, run, insides, -⟩ :=
    scans.execAll_eq [] (Nat.lt_succ_of_le scans.length_le)
  rw [List.nil_append, List.length_nil] at run
  rw [← insides, List.filterMap_map]
  simp only [extractToolCalls, bind, StateT.bind, set_lastIndex, run]
  rfl

theorem Scans.hasToolCall_eq {text last : List Char}
    {parts : List (List Char × List Char)} (scans : Scans text parts last)
    (lastIndex : Nat) :
    ((hasToolCall text).run lastIndex).1 = !parts.isEmpty := by
  have first : (exec text 0).1.isSome = !parts.isEmpty := by
    cases scans with
    | rest unmatched =>
        rw [exec, List.drop_zero]
        cases cut : cutFirst openTag text with
        | none => rfl
        | some pair => simp [unmatched pair.1 pair.2 cut]
    | @found before inside after =>
        have matched := exec_append ‹openTag.Absent before›
          ‹closeTag.Absent inside› [] after
        rw [List.nil_append, List.length_nil] at matched
        rw [matched]
        rfl
  rw [← first]
  rfl

theorem Scans.stripToolTags_eq {text last : List Char}
    {parts : List (List Char × List Char)} (scans : Scans text parts last)
    (lastIndex : Nat) :
    stripToolTags text lastIndex =
      (ChatStream.trim (parts.flatMap Prod.fst ++ last), 0) := by
  obtain ⟨found, run, -, visible⟩ :=
    scans.execAll_eq [] (Nat.lt_succ_of_le scans.length_le)
  rw [List.nil_append, List.length_nil] at run visible
  rw [← visible]
  simp only [stripToolTags, bind, StateT.bind, set_lastIndex, run]
  rfl

end AgenticTools

end TorchInference
