import Mathlib.Data.List.TakeWhile
import TorchInference.AgenticTools

/-!
# Calls that are extracted as they are written

A reply is made of texts without tags and of blocks with a call between two tags.
All calls come back just when no block has a closing tag in its strings.
-/

namespace TorchInference

namespace AgenticTools

open TextOccurrences JsonLexing

/-! ## Replies -/

/-- A serialized object with a name. -/
structure ToolBlock (libraries : ScriptLibraries) where
  text : List Char
  value : JsonValue
  name : String
  parsed : libraries.parse text = some value
  named : value.field "name" = some (.string name)

/-- A text without tags. -/
structure PlainText where
  text : List Char
  noOpening : openTag.Absent text
  noClosing : closeTag.Absent text

variable {libraries : ScriptLibraries}

def ToolBlock.call (block : ToolBlock libraries) : ParsedToolCall :=
  ⟨libraries.lowercase block.name, argsOf block.value⟩

/-- Texts and blocks in turn, and then a text. -/
def replyText (segments : List (PlainText × ToolBlock libraries))
    (last : PlainText) : List Char :=
  segments.foldr
    (fun segment more => segment.1.text ++ (openTag.text ++
      (segment.2.text ++ (closeTag.text ++ more))))
    last.text

/-- The texts of a reply. -/
def visibleText (segments : List (PlainText × ToolBlock libraries))
    (last : PlainText) : List Char :=
  segments.flatMap (fun segment => segment.1.text) ++ last.text

/-! ## Pieces of a block -/

theorem inert_of_isSpace {text : List Char}
    (spaces : ∀ c ∈ text, ChatStream.isSpace c = true) : Inert text := by
  intro c mem
  have space := spaces c mem
  constructor
  · rintro rfl
    exact absurd space (by decide)
  · rintro rfl
    exact absurd space (by decide)

/-- Only white space is trimmed. -/
theorem exists_trim (text : List Char) :
    ∃ left right, text = left ++ (ChatStream.trim text ++ right) ∧
      Inert left ∧ Inert right := by
  refine ⟨text.takeWhile ChatStream.isSpace,
    ((text.dropWhile ChatStream.isSpace).reverse.takeWhile
      ChatStream.isSpace).reverse, ?_, ?_, ?_⟩
  · rw [ChatStream.trim, ← List.reverse_append, List.takeWhile_append_dropWhile,
      List.reverse_reverse, List.takeWhile_append_dropWhile]
  · exact inert_of_isSpace fun c mem => List.mem_takeWhile_imp mem
  · refine inert_of_isSpace fun c mem => ?_
    exact List.mem_takeWhile_imp (List.mem_reverse.mp mem)

/-- A tag in a block stands in a string. -/
theorem read_tag {state next : LexState} {tag : Marker Char}
    (isHead : tag.head = '<') (inert : Inert tag.rest)
    (read : state.read tag.text = some next) :
    state ≠ .outside ∧ next = .inside := by
  rw [Marker.text, LexState.read] at read
  obtain ⟨between, first, later⟩ := Option.bind_eq_some_iff.mp read
  rw [isHead] at first
  obtain ⟨noOutside, rfl⟩ :=
    LexState.next_of_not_structural (by decide) (by decide) first
  rw [inert.read_inside] at later
  exact ⟨noOutside, (Option.some.inj later).symm⟩

theorem inert_of_notMem {text : List Char} (noQuote : '"' ∉ text)
    (noBackslash : '\\' ∉ text) : Inert text :=
  fun _ mem => ⟨ne_of_mem_of_not_mem mem noQuote,
    ne_of_mem_of_not_mem mem noBackslash⟩

theorem inert_openTag : Inert openTag.rest :=
  inert_of_notMem (by decide) (by decide)

theorem inert_closeTag : Inert closeTag.rest :=
  inert_of_notMem (by decide) (by decide)

/-- What has no parse with a name adds no call. -/
theorem callIn_eq_none {inside : List Char}
    (nameless : ∀ value name,
      libraries.parse (ChatStream.trim inside) = some value →
        value.field "name" ≠ some (.string name)) :
    callIn libraries inside = none := by
  rw [callIn]
  cases parsed : libraries.parse (ChatStream.trim inside) with
  | none => rfl
  | some value =>
      rw [Option.bind_some, callOf]
      split
      · exact absurd ‹_› (nameless value _ parsed)
      · rfl

/-- The beginning of a block before a tag is not complete. -/
theorem ToolBlock.callIn_before (block : ToolBlock libraries)
    {inside after : List Char}
    (divided : block.text = inside ++ (closeTag.text ++ after)) :
    callIn libraries inside = none := by
  apply callIn_eq_none
  intro value name parsed _
  have whole := libraries.lexes _ _ block.parsed
  rw [Lexes, divided] at whole
  obtain ⟨state, before, later⟩ := LexState.read_append_eq_some whole
  obtain ⟨next, tag, -⟩ := LexState.read_append_eq_some later
  obtain ⟨left, right, split, inertLeft, inertRight⟩ := exists_trim inside
  rw [split] at before
  obtain ⟨first, readLeft, before⟩ := LexState.read_append_eq_some before
  rw [inertLeft.read_outside readLeft] at before
  obtain ⟨second, readInside, readRight⟩ := LexState.read_append_eq_some before
  have lexed := libraries.lexes _ _ parsed
  rw [Lexes, readInside] at lexed
  rw [Option.some.inj lexed] at readRight
  exact (read_tag rfl inert_closeTag tag).1 (inertRight.read_outside readRight)

/-- What follows a tag in a block has no member with a name. -/
theorem ToolBlock.callIn_after (block : ToolBlock libraries)
    {before inside after : List Char}
    (divided : block.text = before ++ (openTag.text ++ (inside ++ after))) :
    callIn libraries inside = none := by
  apply callIn_eq_none
  intro value name parsed named
  have whole := libraries.lexes _ _ block.parsed
  rw [Lexes, divided] at whole
  obtain ⟨state, -, later⟩ := LexState.read_append_eq_some whole
  obtain ⟨next, tag, later⟩ := LexState.read_append_eq_some later
  rw [(read_tag rfl inert_openTag tag).2] at later
  obtain ⟨last, readAll, -⟩ := LexState.read_append_eq_some later
  obtain ⟨left, right, split, inertLeft, -⟩ := exists_trim inside
  rw [split] at readAll
  obtain ⟨first, readLeft, readAll⟩ := LexState.read_append_eq_some readAll
  rw [inertLeft.read_inside] at readLeft
  rw [← Option.some.inj readLeft] at readAll
  obtain ⟨second, readInside, -⟩ := LexState.read_append_eq_some readAll
  -- One reader is outside of the strings wherever the other one is inside.
  have structural :=
    structural_of_both (libraries.lexes _ _ parsed) readInside
  rcases libraries.names _ _ _ parsed named with letter | escape
  · exact absurd (structural _ letter) (by decide)
  · exact absurd (structural _ escape) (by decide)

/-! ## Scans of a reply -/

/-- A text without an opening tag to which none is added from behind. -/
structure Pending (text : List Char) : Prop where
  absent : openTag.Absent text
  ends : text = [] ∨ ∃ front, text = front ++ ['>']

theorem Pending.nil : Pending [] :=
  ⟨Marker.absent_nil, Or.inl rfl⟩

theorem Pending.append {pending text : List Char} (ready : Pending pending)
    (absent : openTag.Absent text) : openTag.Absent (pending ++ text) := by
  rcases ready.ends with rfl | ⟨front, rfl⟩
  · exact absent
  · exact ready.absent.append_of_last absent (by decide)

theorem Pending.closed {text : List Char} (absent : openTag.Absent text) :
    Pending (text ++ closeTag.text) := by
  have apart : openTag.Absent closeTag.text := by
    rw [Marker.Absent]
    decide
  refine ⟨absent.append_of_head apart rfl, Or.inr ⟨text ++ "</tool".toList, ?_⟩⟩
  rw [List.append_assoc]
  rfl

/-- Behind a closing tag in a block no call is found up to its end. -/
theorem ToolBlock.scans_after (block : ToolBlock libraries)
    {before inside : List Char} (divided : block.text = before ++ inside)
    (more : List Char) :
    ∃ skipped pending, Pending pending ∧
      (∀ part ∈ skipped, callIn libraries (Prod.snd part) = none) ∧
      ∀ parts rest, Scans (pending ++ more) parts rest →
        Scans (inside ++ (closeTag.text ++ more)) (skipped ++ parts) rest := by
  induction hlength : inside.length using Nat.strong_induction_on
    generalizing before inside with
  | _ length ih =>
      cases opened : cutFirst openTag inside with
      | none =>
          refine ⟨[], inside ++ closeTag.text,
            Pending.closed (cutFirst_eq_none_iff.mp opened), by simp, ?_⟩
          intro parts rest scans
          rwa [List.append_assoc] at scans
      | some cut =>
          obtain ⟨outside, behind⟩ := cut
          obtain ⟨rfl, absent⟩ := cutFirst_eq_some_iff.mp opened
          cases closed : cutFirst closeTag behind with
          | none =>
              -- The closing tag of the block is the next one.
              have within := cutFirst_eq_none_iff.mp closed
              have whole : block.text =
                  (before ++ outside) ++ (openTag.text ++ (behind ++ [])) := by
                rw [divided, List.append_nil, List.append_assoc]
              have noCall := block.callIn_after whole
              refine ⟨[(outside, behind)], [], Pending.nil, by simp [noCall], ?_⟩
              intro parts rest scans
              rw [List.append_assoc, List.append_assoc]
              exact Scans.found absent within scans
          | some cut =>
              obtain ⟨within, after⟩ := cut
              obtain ⟨rfl, absentWithin⟩ := cutFirst_eq_some_iff.mp closed
              have whole : block.text = (before ++ outside) ++
                  (openTag.text ++ (within ++ (closeTag.text ++ after))) := by
                rw [divided, List.append_assoc]
              have further : block.text = (before ++ outside ++ openTag.text ++
                  within ++ closeTag.text) ++ after := by
                simp only [whole, List.append_assoc]
              have noCall := block.callIn_after whole
              have shorter : after.length < length := by
                rw [← hlength]
                simp only [List.length_append, Marker.text, List.length_cons]
                omega
              obtain ⟨skipped, pending, ready, noCalls, scans⟩ :=
                ih after.length shorter further rfl
              refine ⟨(outside, within) :: skipped, pending, ready,
                List.forall_mem_cons.mpr ⟨noCall, noCalls⟩, ?_⟩
              intro parts rest later
              have found := Scans.found absent absentWithin (scans parts rest later)
              simpa only [List.append_assoc, List.cons_append] using found

/-- The calls of the blocks that are found. -/
def callsOf (libraries : ScriptLibraries)
    (parts : List (List Char × List Char)) : List ParsedToolCall :=
  (parts.map Prod.snd).filterMap (callIn libraries)

/-- What a reply yields: at most one call for each block, and one for each only
where no block has a closing tag. -/
structure Yields (pending : List Char)
    (segments : List (PlainText × ToolBlock libraries)) (last : PlainText)
    (parts : List (List Char × List Char)) (rest : List Char) : Prop where
  scans : Scans (pending ++ replyText segments last) parts rest
  atMost : (callsOf libraries parts).length ≤ segments.length
  intact : (callsOf libraries parts).length = segments.length →
    ∀ segment ∈ segments, closeTag.Absent segment.2.text
  whole : (∀ segment ∈ segments, closeTag.Absent segment.2.text) →
    callsOf libraries parts = segments.map (fun segment => segment.2.call) ∧
      parts.flatMap Prod.fst ++ rest = pending ++ visibleText segments last

theorem replyText_cons (plain : PlainText) (block : ToolBlock libraries)
    (segments : List (PlainText × ToolBlock libraries)) (last : PlainText)
    (pending : List Char) :
    pending ++ replyText ((plain, block) :: segments) last =
      (pending ++ plain.text) ++ (openTag.text ++ (block.text ++
        (closeTag.text ++ replyText segments last))) := by
  rw [replyText, List.foldr_cons, ← List.append_assoc]
  rfl

/-- A block without a closing tag is found as it is. -/
theorem Yields.intact_block {plain : PlainText} {block : ToolBlock libraries}
    {segments : List (PlainText × ToolBlock libraries)} {last : PlainText}
    {pending rest : List Char} {parts : List (List Char × List Char)}
    (outside : openTag.Absent (pending ++ plain.text))
    (within : closeTag.Absent block.text)
    (yields : Yields [] segments last parts rest) :
    Yields pending ((plain, block) :: segments) last
      ((pending ++ plain.text, block.text) :: parts) rest := by
  have call : callIn libraries block.text = some block.call := by
    rw [callIn, libraries.trims _ _ block.parsed, Option.bind_some, callOf,
      block.named]
    rfl
  have calls : callsOf libraries ((pending ++ plain.text, block.text) :: parts) =
      block.call :: callsOf libraries parts := by
    rw [callsOf, List.map_cons, List.filterMap_cons_some call]
    rfl
  constructor
  · rw [replyText_cons]
    exact Scans.found outside within yields.scans
  · rw [calls]
    exact Nat.succ_le_succ yields.atMost
  · intro count
    rw [calls, List.length_cons, List.length_cons, Nat.add_right_cancel_iff] at count
    exact List.forall_mem_cons.mpr ⟨within, yields.intact count⟩
  · intro absent
    obtain ⟨same, visible⟩ := yields.whole (List.forall_mem_cons.mp absent).2
    rw [calls, same, List.flatMap_cons, List.append_assoc, visible]
    exact ⟨rfl, by simp [visibleText]⟩

/-- A block with a closing tag in it yields no call. -/
theorem Yields.cut_block {plain : PlainText} {block : ToolBlock libraries}
    {segments : List (PlainText × ToolBlock libraries)} {last : PlainText}
    {pending inside after behind rest : List Char}
    {skipped parts : List (List Char × List Char)}
    (outside : openTag.Absent (pending ++ plain.text))
    (within : closeTag.Absent inside)
    (divided : block.text = inside ++ (closeTag.text ++ after))
    (noCalls : ∀ part ∈ skipped, callIn libraries part.2 = none)
    (extend : ∀ parts rest, Scans (behind ++ replyText segments last) parts rest →
      Scans (after ++ (closeTag.text ++ replyText segments last))
        (skipped ++ parts) rest)
    (yields : Yields behind segments last parts rest) :
    Yields pending ((plain, block) :: segments) last
      ((pending ++ plain.text, inside) :: (skipped ++ parts)) rest := by
  have none : callsOf libraries
      ((pending ++ plain.text, inside) :: (skipped ++ parts)) =
        callsOf libraries parts := by
    have noSkipped : (skipped.map Prod.snd).filterMap (callIn libraries) = [] := by
      simpa [List.filterMap_eq_nil_iff] using noCalls
    rw [callsOf, List.map_cons, List.filterMap_cons_none (block.callIn_before divided),
      List.map_append, List.filterMap_append, noSkipped, List.nil_append]
    rfl
  have fewer : (callsOf libraries parts).length <
      ((plain, block) :: segments).length := Nat.lt_succ_of_le yields.atMost
  constructor
  · have found := Scans.found outside within (extend parts rest yields.scans)
    rw [replyText_cons, divided]
    simpa only [List.append_assoc] using found
  · rw [none]
    exact fewer.le
  · intro count
    rw [none] at count
    exact absurd count fewer.ne
  · intro absent
    have free := absent (plain, block) List.mem_cons_self
    dsimp only at free
    rw [divided] at free
    exact absurd (List.infix_append' _ _ _) free

theorem exists_yields (segments : List (PlainText × ToolBlock libraries))
    (last : PlainText) {pending : List Char} (ready : Pending pending) :
    ∃ parts rest, Yields pending segments last parts rest := by
  induction segments generalizing pending with
  | nil =>
      refine ⟨[], pending ++ last.text, Scans.rest ?_, by simp [callsOf], by simp,
        fun _ => ⟨rfl, by simp [visibleText]⟩⟩
      intro before opened cut
      have none := cutFirst_eq_none_iff.mpr (ready.append last.noOpening)
      rw [replyText, List.foldr_nil, none] at cut
      cases cut
  | cons segment segments ih =>
      obtain ⟨plain, block⟩ := segment
      have outside := ready.append plain.noOpening
      cases closed : cutFirst closeTag block.text with
      | none =>
          obtain ⟨parts, rest, yields⟩ := ih Pending.nil
          exact ⟨_, rest, yields.intact_block outside
            (cutFirst_eq_none_iff.mp closed)⟩
      | some cut =>
          obtain ⟨inside, after⟩ := cut
          obtain ⟨divided, within⟩ := cutFirst_eq_some_iff.mp closed
          have further : block.text = (inside ++ closeTag.text) ++ after := by
            rw [divided, List.append_assoc]
          obtain ⟨skipped, behind, readyBehind, noCalls, extend⟩ :=
            block.scans_after further (replyText segments last)
          obtain ⟨parts, rest, yields⟩ := ih readyBehind
          exact ⟨_, rest, yields.cut_block outside within divided noCalls extend⟩

/-- Whatever the position of the pattern is, all calls of a reply are extracted
and its texts are left, just when no block has a closing tag in it. -/
theorem extracted_iff (segments : List (PlainText × ToolBlock libraries))
    (last : PlainText) (lastIndex : Nat) :
    (((extractToolCalls libraries (replyText segments last)).run lastIndex).1 =
        segments.map (fun segment => segment.2.call) ∧
      ((stripToolTags (replyText segments last)).run lastIndex).1 =
        ChatStream.trim (visibleText segments last)) ↔
      ∀ segment ∈ segments, closeTag.Absent segment.2.text := by
  obtain ⟨parts, rest, scans, -, intact, all⟩ :=
    exists_yields segments last Pending.nil
  rw [List.nil_append] at scans
  have calls := scans.extractToolCalls_eq libraries lastIndex
  have visible := scans.stripToolTags_eq lastIndex
  rw [StateT.run, StateT.run, calls, visible]
  constructor
  · rintro ⟨same, -⟩
    have counts := congrArg List.length same
    exact intact (counts.trans (List.length_map _))
  · intro absent
    obtain ⟨same, texts⟩ := all absent
    exact ⟨same, by rw [texts, List.nil_append]⟩

/-! ## A block with a closing tag in it -/

/-- What stands in front of and behind the closing tag in `spokenTag`. -/
def spokenFront : List Char :=
  "\x7b\"name\":\"tts\",\"args\":\x7b\"text\":\"a ".toList

def spokenBack : List Char := "\"\x7d\x7d".toList

/-- The text of a call to speak a closing tag. -/
def spokenTag : List Char := spokenFront ++ (closeTag.text ++ spokenBack)

def spokenTagValue : JsonValue :=
  .object [("name", .string "tts"),
    ("args", .object [("text", .string "a </tool>")])]

theorem lexes_spokenTag : Lexes spokenTag := by
  rw [Lexes]
  decide +kernel

/-- Libraries that read this text. -/
def spokenTagLibraries : ScriptLibraries where
  lowercase := String.toLower
  parse := fun text => if text = spokenTag then some spokenTagValue else none
  trims := by
    intro text value parsed
    split_ifs at parsed with isText
    rw [isText, ← Option.some.inj parsed]
    exact if_pos (by decide)
  lexes := by
    intro text value parsed
    split_ifs at parsed with isText
    rw [isText]
    exact lexes_spokenTag
  names := by
    intro text value member parsed _
    split_ifs at parsed with isText
    rw [isText]
    decide

theorem parse_spokenTag :
    spokenTagLibraries.parse spokenTag = some spokenTagValue := by
  change (if spokenTag = spokenTag then some spokenTagValue else none) = _
  exact if_pos rfl

def spokenTagBlock : ToolBlock spokenTagLibraries :=
  ⟨spokenTag, spokenTagValue, "tts", parse_spokenTag, rfl⟩

def emptyText : PlainText := ⟨[], Marker.absent_nil, Marker.absent_nil⟩

/-- What is found in the reply that is this block alone. -/
theorem scans_spokenTag :
    Scans (replyText [(emptyText, spokenTagBlock)] emptyText)
      [([], spokenFront)] (spokenBack ++ closeTag.text) := by
  have within : closeTag.Absent spokenFront := by
    rw [Marker.Absent]
    decide
  have last : Scans (spokenBack ++ closeTag.text) []
      (spokenBack ++ closeTag.text) := by
    refine Scans.rest fun before opened cut => ?_
    have none : cutFirst openTag (spokenBack ++ closeTag.text) = none := by decide
    rw [none] at cut
    cases cut
  have whole : replyText [(emptyText, spokenTagBlock)] emptyText =
      [] ++ (openTag.text ++ (spokenFront ++ (closeTag.text ++
        (spokenBack ++ closeTag.text)))) := by
    simp [replyText, emptyText, spokenTagBlock, spokenTag]
  rw [whole]
  exact Scans.found Marker.absent_nil within last

/-- The call is lost, and the end of its block is left in the text. -/
theorem spokenTag_lost :
    ((stripToolTags
        (replyText [(emptyText, spokenTagBlock)] emptyText)).run 0).1 =
          "\"\x7d\x7d</tool>".toList ∧
      ¬ ((extractToolCalls spokenTagLibraries
          (replyText [(emptyText, spokenTagBlock)] emptyText)).run 0).1 =
        [(emptyText, spokenTagBlock)].map fun segment => segment.2.call := by
  have calls := scans_spokenTag.extractToolCalls_eq spokenTagLibraries 0
  have visible := scans_spokenTag.stripToolTags_eq 0
  rw [StateT.run, StateT.run, calls, visible]
  refine ⟨rfl, ?_⟩
  rw [List.map_singleton, List.filterMap_cons_none
    (spokenTagBlock.callIn_before rfl), List.filterMap_nil]
  exact (List.cons_ne_nil _ _).symm

end AgenticTools

end TorchInference
