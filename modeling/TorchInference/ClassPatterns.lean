import Mathlib.Data.List.Basic

/-!
# Patterns of character classes

A pattern is matched against a whole text.  It is made of segments, some of
which are captured, and a segment of pieces: one character of a class, or as
many as possible.  A run of many characters gives one back when the rest of the
pattern does not match.
-/

namespace ClassPatterns

variable {Symbol Result : Type*}

inductive Piece (Symbol : Type*) where
  | one (inClass : Symbol → Bool)
  | many (inClass : Symbol → Bool)

structure Segment (Symbol : Type*) where
  captured : Bool
  pieces : List (Piece Symbol)

/-- The pieces of a fixed text. -/
def literal [DecidableEq Symbol] (text : List Symbol) : List (Piece Symbol) :=
  text.map fun c => .one fun d => decide (d = c)

/-- The character comes before what has been matched. -/
def consume (c : Symbol) (found : List Symbol × Result) :
    List Symbol × Result :=
  (c :: found.1, found.2)

/-- Match as many characters of a class as possible, and then the rest. -/
def greedy (inClass : Symbol → Bool)
    (next : List Symbol → Option (List Symbol × Result)) :
    List Symbol → Option (List Symbol × Result)
  | [] => next []
  | c :: text =>
      if inClass c then
        ((greedy inClass next text).map (consume c)).or (next (c :: text))
      else next (c :: text)

/-- Match some pieces, and then the rest; the text of the pieces is kept. -/
def matchPieces (next : List Symbol → Option Result) :
    List (Piece Symbol) → List Symbol → Option (List Symbol × Result)
  | [], text => (next text).map ([], ·)
  | .one _ :: _, [] => none
  | .one inClass :: pieces, c :: text =>
      if inClass c then (matchPieces next pieces text).map (consume c)
      else none
  | .many inClass :: pieces, text =>
      greedy inClass (matchPieces next pieces) text

/-- The texts of the captured segments, if the pattern matches. -/
def captures : List (Segment Symbol) → List Symbol →
    Option (List (List Symbol))
  | [], text => if text.isEmpty then some [] else none
  | segment :: segments, text =>
      (matchPieces (captures segments) segment.pieces text).map fun found =>
        if segment.captured then found.1 :: found.2 else found.2

theorem greedy_cons (inClass : Symbol → Bool)
    (next : List Symbol → Option (List Symbol × Result)) (c : Symbol)
    (text : List Symbol) :
    greedy inClass next (c :: text) =
      if inClass c then
        ((greedy inClass next text).map (consume c)).or (next (c :: text))
      else next (c :: text) := by
  rw [greedy]

theorem matchPieces_one_cons (next : List Symbol → Option Result)
    (inClass : Symbol → Bool) (pieces : List (Piece Symbol)) (c : Symbol)
    (text : List Symbol) :
    matchPieces next (.one inClass :: pieces) (c :: text) =
      if inClass c then (matchPieces next pieces text).map (consume c)
      else none := by
  rw [matchPieces]

theorem matchPieces_many_eq (next : List Symbol → Option Result)
    (inClass : Symbol → Bool) (pieces : List (Piece Symbol)) (text : List Symbol) :
    matchPieces next (.many inClass :: pieces) text =
      greedy inClass (matchPieces next pieces) text :=
  rfl

theorem matchPieces_rest (next : List Symbol → Option Result)
    (text : List Symbol) :
    matchPieces next [] text = (next text).map ([], ·) :=
  rfl

theorem captures_segment (segment : Segment Symbol)
    (segments : List (Segment Symbol)) (text : List Symbol) :
    captures (segment :: segments) text =
      (matchPieces (captures segments) segment.pieces text).map fun found =>
        if segment.captured then found.1 :: found.2 else found.2 := by
  rw [captures]

/-- A run of the class is matched when the rest is. -/
theorem greedy_append {inClass : Symbol → Bool}
    {next : List Symbol → Option (List Symbol × Result)}
    {run text : List Symbol} {found : List Symbol × Result}
    (inside : ∀ c ∈ run, inClass c = true)
    (matched : greedy inClass next text = some found) :
    greedy inClass next (run ++ text) = some (run ++ found.1, found.2) := by
  induction run with
  | nil => exact matched
  | cons c run ih =>
      obtain ⟨first, rest⟩ := List.forall_mem_cons.mp inside
      rw [List.cons_append, greedy_cons, if_pos first, ih rest]
      rfl

/-- Where the class ends the rest is matched. -/
theorem greedy_of_outside {inClass : Symbol → Bool}
    {next : List Symbol → Option (List Symbol × Result)}
    {text : List Symbol} (outside : ∀ c ∈ text.head?, inClass c = false) :
    greedy inClass next text = next text := by
  cases text with
  | nil => rfl
  | cons c text =>
      have first : inClass c = false := outside c rfl
      rw [greedy_cons, if_neg (by simp [first])]

theorem matchPieces_one {inClass : Symbol → Bool}
    {next : List Symbol → Option Result} {pieces : List (Piece Symbol)}
    {c : Symbol} {text : List Symbol} (inside : inClass c = true) :
    matchPieces next (.one inClass :: pieces) (c :: text) =
      (matchPieces next pieces text).map (consume c) := by
  rw [matchPieces_one_cons, if_pos inside]

theorem matchPieces_literal [DecidableEq Symbol]
    {next : List Symbol → Option Result} {pieces : List (Piece Symbol)}
    (fixed text : List Symbol) {found : List Symbol × Result}
    (matched : matchPieces next pieces text = some found) :
    matchPieces next (literal fixed ++ pieces) (fixed ++ text) =
      some (fixed ++ found.1, found.2) := by
  induction fixed with
  | nil => exact matched
  | cons c fixed ih =>
      rw [List.cons_append, literal, List.map_cons, List.cons_append,
        matchPieces_one (by simp)]
      rw [literal] at ih
      rw [ih]
      rfl

/-- A run is matched as a whole when nothing of the class follows. -/
theorem matchPieces_many {inClass : Symbol → Bool}
    {next : List Symbol → Option Result} {pieces : List (Piece Symbol)}
    {run text : List Symbol} {found : List Symbol × Result}
    (inside : ∀ c ∈ run, inClass c = true)
    (outside : ∀ c ∈ text.head?, inClass c = false)
    (matched : matchPieces next pieces text = some found) :
    matchPieces next (.many inClass :: pieces) (run ++ text) =
      some (run ++ found.1, found.2) := by
  rw [matchPieces_many_eq]
  exact greedy_append inside ((greedy_of_outside outside).trans matched)

/-- Where nothing of the class is left its run is empty. -/
theorem matchPieces_many_nil {inClass : Symbol → Bool}
    {next : List Symbol → Option Result} {pieces : List (Piece Symbol)}
    {text : List Symbol} {found : List Symbol × Result}
    (outside : ∀ c ∈ text.head?, inClass c = false)
    (matched : matchPieces next pieces text = some found) :
    matchPieces next (.many inClass :: pieces) text = some found := by
  rw [matchPieces_many_eq]
  exact (greedy_of_outside outside).trans matched

/-- The pieces of a segment may be matched one after another. -/
theorem captures_cons (segment : Segment Symbol)
    {segments : List (Segment Symbol)} {text : List Symbol}
    {found : List Symbol × List (List Symbol)}
    (matched : matchPieces (captures segments) segment.pieces text =
      some found) :
    captures (segment :: segments) text =
      some (if segment.captured then found.1 :: found.2 else found.2) := by
  rw [captures_segment, matched]
  rfl

theorem matchPieces_nil {next : List Symbol → Option Result}
    {text : List Symbol} {result : Result} (matched : next text = some result) :
    matchPieces next [] text = some ([], result) := by
  rw [matchPieces_rest, matched]
  rfl

/-- A fixed text alone. -/
theorem matchPieces_fixed [DecidableEq Symbol]
    {next : List Symbol → Option Result} (fixed text : List Symbol)
    {result : Result} (matched : next text = some result) :
    matchPieces next (literal fixed) (fixed ++ text) =
      some (fixed, result) := by
  have whole := matchPieces_literal fixed text (matchPieces_nil matched)
  rwa [List.append_nil, List.append_nil] at whole

/-- A word: a first character of one class, and others of another. -/
theorem matchPieces_word {inFirst inClass : Symbol → Bool}
    {next : List Symbol → Option Result} {c : Symbol} {run text : List Symbol}
    {result : Result} (first : inFirst c = true)
    (inside : ∀ d ∈ run, inClass d = true)
    (outside : ∀ d ∈ text.head?, inClass d = false)
    (matched : next text = some result) :
    matchPieces next [.one inFirst, .many inClass] (c :: run ++ text) =
      some (c :: run, result) := by
  rw [List.cons_append, matchPieces_one first,
    matchPieces_many inside outside (matchPieces_nil matched)]
  simp [consume]

/-- A run stops where nothing later in it goes on. -/
theorem greedy_of_later {inClass : Symbol → Bool}
    {next : List Symbol → Option (List Symbol × Result)} {c : Symbol}
    {text : List Symbol} (later : greedy inClass next text = none) :
    greedy inClass next (c :: text) = next (c :: text) := by
  rw [greedy_cons, later]
  split_ifs <;> rfl

theorem greedy_eq_none {inClass : Symbol → Bool}
    {next : List Symbol → Option (List Symbol × Result)}
    {run text : List Symbol} (outside : ∀ c ∈ text.head?, inClass c = false)
    (fails : ∀ suffix, suffix <:+ run → next (suffix ++ text) = none) :
    greedy inClass next (run ++ text) = none := by
  induction run with
  | nil =>
      rw [List.nil_append, greedy_of_outside outside]
      exact fails [] List.suffix_rfl
  | cons c run ih =>
      have later := ih fun suffix isSuffix =>
        fails suffix (isSuffix.trans (List.suffix_cons c run))
      rw [List.cons_append, greedy_of_later later]
      exact fails (c :: run) List.suffix_rfl

/-- A run goes back to the last place where the rest is matched. -/
theorem greedy_upto {inClass : Symbol → Bool}
    {next : List Symbol → Option (List Symbol × Result)} {c : Symbol}
    {run back text : List Symbol} {found : List Symbol × Result}
    (inside : ∀ d ∈ run, inClass d = true)
    (outside : ∀ d ∈ text.head?, inClass d = false)
    (fails : ∀ suffix, suffix <:+ back → next (suffix ++ text) = none)
    (matched : next (c :: (back ++ text)) = some found) :
    greedy inClass next (run ++ c :: (back ++ text)) =
      some (run ++ found.1, found.2) := by
  apply greedy_append inside
  rw [greedy_of_later (greedy_eq_none outside fails), matched]

/-- A piece that wants a character matches no text that begins with another. -/
theorem matchPieces_one_eq_none {inClass : Symbol → Bool}
    {next : List Symbol → Option Result} {pieces : List (Piece Symbol)}
    {text : List Symbol} (outside : ∀ c ∈ text.head?, inClass c = false) :
    matchPieces next (.one inClass :: pieces) text = none := by
  cases text with
  | nil => rfl
  | cons c text =>
      have first : inClass c = false := outside c rfl
      rw [matchPieces_one_cons, if_neg (by simp [first])]

/-- A pattern that begins with a character matches no text that begins with
another one. -/
theorem captures_eq_none {inClass : Symbol → Bool} {captured : Bool}
    {pieces : List (Piece Symbol)} {segments : List (Segment Symbol)}
    {text : List Symbol} (outside : ∀ c ∈ text.head?, inClass c = false) :
    captures (⟨captured, .one inClass :: pieces⟩ :: segments) text = none := by
  rw [captures_segment, matchPieces_one_eq_none outside]
  rfl

/-! ## What has been matched -/

/-- The pieces match the whole of a text. -/
inductive Spells : List (Piece Symbol) → List Symbol → Prop
  | nil : Spells [] []
  | one {inClass : Symbol → Bool} {pieces : List (Piece Symbol)} {c : Symbol}
      {text : List Symbol} (inside : inClass c = true)
      (spells : Spells pieces text) : Spells (.one inClass :: pieces) (c :: text)
  | many {inClass : Symbol → Bool} {pieces : List (Piece Symbol)}
      {run text : List Symbol} (inside : ∀ c ∈ run, inClass c = true)
      (spells : Spells pieces text) :
      Spells (.many inClass :: pieces) (run ++ text)

/-- The class of a piece. -/
def Piece.inClass : Piece Symbol → Symbol → Bool
  | .one inClass => inClass
  | .many inClass => inClass

/-- One more character of the class is matched. -/
theorem Spells.many_cons {inClass : Symbol → Bool}
    {pieces : List (Piece Symbol)} {c : Symbol} {text : List Symbol}
    (inside : inClass c = true) (spells : Spells (.many inClass :: pieces) text) :
    Spells (.many inClass :: pieces) (c :: text) := by
  cases spells with
  | @many _ _ run text others rest =>
      have longer : ∀ d ∈ c :: run, inClass d = true :=
        List.forall_mem_cons.mpr ⟨inside, others⟩
      exact Spells.many longer rest

/-- What is matched is spelled by the pieces, and the rest is left to the rest
of the pattern. -/
theorem matchPieces_sound {next : List Symbol → Option Result}
    {pieces : List (Piece Symbol)} {text : List Symbol}
    {found : List Symbol × Result}
    (matched : matchPieces next pieces text = some found) :
    ∃ rest, text = found.1 ++ rest ∧ Spells pieces found.1 ∧
      next rest = some found.2 := by
  induction pieces generalizing text found with
  | nil =>
      rw [matchPieces_rest, Option.map_eq_some_iff] at matched
      obtain ⟨result, read, rfl⟩ := matched
      exact ⟨text, rfl, Spells.nil, read⟩
  | cons piece pieces ih =>
      cases piece with
      | one inClass =>
          cases text with
          | nil => cases matched
          | cons c text =>
              rw [matchPieces_one_cons] at matched
              split_ifs at matched with inside
              rw [Option.map_eq_some_iff] at matched
              obtain ⟨tail, read, rfl⟩ := matched
              obtain ⟨rest, whole, spells, others⟩ := ih read
              exact ⟨rest, congrArg (c :: ·) whole, Spells.one inside spells,
                others⟩
      | many inClass =>
          rw [matchPieces_many_eq] at matched
          -- The run ends where the rest of the pattern is read.
          have stopped {text : List Symbol} {found : List Symbol × Result}
              (read : matchPieces next pieces text = some found) :
              ∃ rest, text = found.1 ++ rest ∧
                Spells (.many inClass :: pieces) found.1 ∧
                next rest = some found.2 := by
            have empty : ∀ c ∈ ([] : List Symbol), inClass c = true :=
              fun _ mem => absurd mem List.not_mem_nil
            obtain ⟨rest, whole, spells, others⟩ := ih read
            exact ⟨rest, whole, Spells.many empty spells, others⟩
          induction text generalizing found with
          | nil => exact stopped matched
          | cons c text longer =>
              rw [greedy_cons] at matched
              split_ifs at matched with inside
              · rcases Option.or_eq_some_iff.mp matched with first | ⟨-, second⟩
                · obtain ⟨tail, read, rfl⟩ := Option.map_eq_some_iff.mp first
                  obtain ⟨rest, whole, spells, others⟩ := longer read
                  exact ⟨rest, congrArg (c :: ·) whole,
                    Spells.many_cons inside spells, others⟩
                · exact stopped second
              · exact stopped matched

/-- A segment that has been matched. -/
theorem captures_cons_inv {segment : Segment Symbol}
    {segments : List (Segment Symbol)} {text : List Symbol}
    {found : List (List Symbol)}
    (matched : captures (segment :: segments) text = some found) :
    ∃ own rest others, text = own ++ rest ∧ Spells segment.pieces own ∧
      captures segments rest = some others ∧
      found = if segment.captured then own :: others else others := by
  rw [captures_segment, Option.map_eq_some_iff] at matched
  obtain ⟨⟨own, others⟩, read, rfl⟩ := matched
  obtain ⟨rest, whole, spells, next⟩ := matchPieces_sound read
  exact ⟨own, rest, others, whole, spells, next, rfl⟩

theorem captures_nil_inv {text : List Symbol} {found : List (List Symbol)}
    (matched : captures [] text = some found) : text = [] ∧ found = [] := by
  rw [captures] at matched
  split_ifs at matched with empty
  exact ⟨List.isEmpty_iff.mp empty, (Option.some.inj matched).symm⟩

theorem Spells.mem {pieces : List (Piece Symbol)} {text : List Symbol}
    (spells : Spells pieces text) {c : Symbol} (mem : c ∈ text) :
    ∃ piece ∈ pieces, piece.inClass c = true := by
  induction spells with
  | nil => cases mem
  | @one inClass pieces d text inside spells ih =>
      rcases List.mem_cons.mp mem with rfl | mem
      · exact ⟨.one inClass, List.mem_cons_self, inside⟩
      · obtain ⟨piece, isPiece, inside⟩ := ih mem
        exact ⟨piece, List.mem_cons_of_mem _ isPiece, inside⟩
  | @many inClass pieces run text inside spells ih =>
      rcases List.mem_append.mp mem with mem | mem
      · exact ⟨.many inClass, List.mem_cons_self, inside c mem⟩
      · obtain ⟨piece, isPiece, inside⟩ := ih mem
        exact ⟨piece, List.mem_cons_of_mem _ isPiece, inside⟩

/-- A character in no class of a pattern is in no text that it matches. -/
theorem notMem_of_captures {segments : List (Segment Symbol)}
    {text : List Symbol} {found : List (List Symbol)} {c : Symbol}
    (outside : ∀ segment ∈ segments, ∀ piece ∈ segment.pieces,
      piece.inClass c = false)
    (matched : captures segments text = some found) : c ∉ text := by
  induction segments generalizing text found with
  | nil =>
      rw [(captures_nil_inv matched).1]
      exact List.not_mem_nil
  | cons segment segments ih =>
      obtain ⟨first, later⟩ := List.forall_mem_cons.mp outside
      obtain ⟨own, rest, others, rfl, spells, next, -⟩ :=
        captures_cons_inv matched
      intro mem
      rcases List.mem_append.mp mem with mem | mem
      · obtain ⟨piece, isPiece, inside⟩ := spells.mem mem
        rw [first piece isPiece] at inside
        cases inside
      · exact ih later next mem

theorem spells_literal_append [DecidableEq Symbol] {fixed : List Symbol}
    {pieces : List (Piece Symbol)} {text : List Symbol}
    (spells : Spells (literal fixed ++ pieces) text) :
    ∃ rest, text = fixed ++ rest ∧ Spells pieces rest := by
  induction fixed generalizing text with
  | nil => exact ⟨text, rfl, spells⟩
  | cons c fixed ih =>
      rw [literal, List.map_cons, List.cons_append] at spells
      cases spells with
      | one inside spells =>
          obtain ⟨rest, rfl, others⟩ := ih spells
          rw [of_decide_eq_true inside]
          exact ⟨rest, rfl, others⟩

theorem spells_literal [DecidableEq Symbol] {fixed text : List Symbol}
    (spells : Spells (literal fixed) text) : text = fixed := by
  rw [← List.append_nil (literal fixed)] at spells
  obtain ⟨rest, rfl, others⟩ := spells_literal_append spells
  cases others
  exact List.append_nil fixed

theorem spells_many {inClass : Symbol → Bool} {text : List Symbol}
    (spells : Spells [.many inClass] text) : ∀ c ∈ text, inClass c = true := by
  cases spells with
  | many inside rest =>
      cases rest
      rw [List.append_nil]
      exact inside

end ClassPatterns
