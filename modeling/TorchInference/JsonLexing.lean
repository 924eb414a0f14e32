import Mathlib.Data.List.Basic

/-!
# JSON texts read character by character

Outside of its strings a JSON text has only white space, punctuation, numbers and
the letters of `true`, `false` and `null`.  A text that is read both from the
outside and from the inside of a string has no other characters at all.
-/

namespace JsonLexing

/-- Where a reader of JSON stands: outside of strings, inside of one, or behind
a backslash in one. -/
inductive LexState where
  | outside
  | inside
  | escaped
  deriving DecidableEq

/-- A character that stands outside of strings, quotation marks aside. -/
def isStructural (c : Char) : Bool :=
  c.isDigit || " \t\n\x0d\x7b\x7d[]:,+-.eEtrufalsn".toList.contains c

def LexState.next : LexState → Char → Option LexState
  | .outside, c =>
      if c = '"' then some .inside
      else if isStructural c then some .outside
      else none
  | .inside, c =>
      if c = '"' then some .outside
      else if c = '\\' then some .escaped
      else some .inside
  | .escaped, _ => some .inside

def LexState.read : LexState → List Char → Option LexState
  | state, [] => some state
  | state, c :: text => (state.next c).bind fun next => next.read text

/-- The strings of a text end, and between them are structural characters. -/
def Lexes (text : List Char) : Prop :=
  LexState.outside.read text = some .outside

theorem LexState.read_append (state : LexState) (text other : List Char) :
    state.read (text ++ other) =
      (state.read text).bind fun next => next.read other := by
  induction text generalizing state with
  | nil => rfl
  | cons c text ih =>
      rw [List.cons_append, LexState.read, LexState.read]
      cases state.next c with
      | none => rfl
      | some next => exact ih next

/-- A text that has been read divides at the state in between. -/
theorem LexState.read_append_eq_some {state last : LexState}
    {text other : List Char} (read : state.read (text ++ other) = some last) :
    ∃ next, state.read text = some next ∧ next.read other = some last := by
  rw [LexState.read_append] at read
  exact Option.bind_eq_some_iff.mp read

/-- Characters that neither end a string nor escape in it. -/
def Inert (text : List Char) : Prop :=
  ∀ c ∈ text, c ≠ '"' ∧ c ≠ '\\'

theorem Inert.read_inside {text : List Char} (inert : Inert text) :
    LexState.inside.read text = some .inside := by
  induction text with
  | nil => rfl
  | cons c text ih =>
      obtain ⟨first, later⟩ := List.forall_mem_cons.mp inert
      rw [LexState.read, LexState.next, if_neg first.1, if_neg first.2]
      exact ih later

theorem Inert.read_outside {text : List Char} (inert : Inert text)
    {last : LexState} (read : LexState.outside.read text = some last) :
    last = .outside := by
  induction text with
  | nil => exact (Option.some.inj read).symm
  | cons c text ih =>
      obtain ⟨first, later⟩ := List.forall_mem_cons.mp inert
      rw [LexState.read, LexState.next, if_neg first.1] at read
      split_ifs at read
      · exact ih later read
      · cases read

/-- What is not structural leads into a string, or on in it. -/
theorem LexState.next_of_not_structural {state next : LexState} {c : Char}
    (inert : c ≠ '"' ∧ c ≠ '\\') (other : isStructural c = false)
    (read : state.next c = some next) : state ≠ .outside ∧ next = .inside := by
  cases state with
  | outside =>
      rw [LexState.next, if_neg inert.1, if_neg (by simp [other])] at read
      cases read
  | inside =>
      rw [LexState.next, if_neg inert.1, if_neg inert.2] at read
      exact ⟨by decide, (Option.some.inj read).symm⟩
  | escaped => exact ⟨by decide, (Option.some.inj read).symm⟩

/-- Of two readers, one outside and one inside of a string, one is always
outside: every character is structural. -/
theorem structural_of_both {text : List Char} {first second : LexState}
    (fromOutside : LexState.outside.read text = some first)
    (fromInside : LexState.inside.read text = some second) :
    ∀ c ∈ text, c = '"' ∨ isStructural c = true := by
  induction text generalizing first second with
  | nil => simp
  | cons c text ih =>
      rw [LexState.read, LexState.next] at fromOutside
      rw [LexState.read, LexState.next] at fromInside
      rw [List.forall_mem_cons]
      by_cases quote : c = '"'
      · rw [if_pos quote] at fromOutside fromInside
        exact ⟨Or.inl quote, ih fromInside fromOutside⟩
      · rw [if_neg quote] at fromOutside fromInside
        split_ifs at fromOutside with structural
        · have noEscape : c ≠ '\\' := by
            rintro rfl
            exact absurd structural (by decide)
          rw [if_neg noEscape] at fromInside
          exact ⟨Or.inr structural, ih fromOutside fromInside⟩
        · cases fromOutside

end JsonLexing
