import Mathlib.Data.List.Forall2

/-!
# Texts that can be read in one way

A code writes values as texts.  A value reads uniquely if, whatever text
follows it, the text of another value with what follows that is the same text
only if the two values are related and the same text follows both.  A number
shows its end only by what comes after it, so the texts that may follow are a
parameter, as is the relation between the values.
-/

namespace UniqueReading

variable {σ α : Type*}

/-- No other value's text, whatever follows it, begins with the text of
`value` unless the two are related. -/
def ReadsUniquely (code : α → List σ) (follows : List σ → Prop)
    (valid : α → Prop) (related : α → α → Prop) (value : α) : Prop :=
  ∀ other rest otherRest, valid other → follows rest → follows otherRest →
    code value ++ rest = code other ++ otherRest →
      related value other ∧ rest = otherRest

/-- Two texts of one kind of symbols that end where another kind begins are
the same if they begin one text. -/
theorem append_inj_of_symbols {symbols : σ → Bool}
    {first second rest otherRest : List σ}
    (firstSymbols : ∀ symbol ∈ first, symbols symbol = true)
    (secondSymbols : ∀ symbol ∈ second, symbols symbol = true)
    (restBegins : ∀ symbol ∈ rest.head?, symbols symbol = false)
    (otherBegins : ∀ symbol ∈ otherRest.head?, symbols symbol = false)
    (same : first ++ rest = second ++ otherRest) :
    first = second ∧ rest = otherRest := by
  induction first generalizing second with
  | nil =>
      cases second with
      | nil => exact ⟨rfl, same⟩
      | cons symbol symbols =>
          rw [List.nil_append, List.cons_append] at same
          have other := restBegins symbol (by rw [same]; rfl)
          rw [secondSymbols symbol List.mem_cons_self] at other
          cases other
  | cons symbol first ih =>
      cases second with
      | nil =>
          rw [List.nil_append, List.cons_append] at same
          have other := otherBegins symbol (by rw [← same]; rfl)
          rw [firstSymbols symbol List.mem_cons_self] at other
          cases other
      | cons otherSymbol second =>
          rw [List.cons_append, List.cons_append, List.cons.injEq] at same
          obtain ⟨equal, others⟩ := ih
            (fun symbol member =>
              firstSymbols symbol (List.mem_cons_of_mem _ member))
            (fun symbol member =>
              secondSymbols symbol (List.mem_cons_of_mem _ member)) same.2
          exact ⟨by rw [same.1, equal], others⟩

/-! ## Lists between brackets -/

/-- The texts in order, with a separator before each but the first. -/
def separated (separator : σ) : List (List σ) → List σ
  | [] => []
  | text :: texts => text ++ texts.flatMap (separator :: ·)

def enclose (opening separator closing : σ) (texts : List (List σ)) : List σ :=
  opening :: (separated separator texts ++ [closing])

section

variable {code : α → List σ} {follows : List σ → Prop} {valid : α → Prop}
  {related : α → α → Prop} {separator closing : σ}

/-- What follows the first of the separated texts may follow a text. -/
theorem follows_separated
    (beforeSeparator : ∀ rest, follows (separator :: rest))
    (beforeClosing : ∀ rest, follows (closing :: rest))
    (texts : List (List σ)) (rest : List σ) :
    follows (texts.flatMap (separator :: ·) ++ closing :: rest) := by
  cases texts with
  | nil => exact beforeClosing rest
  | cons text texts => exact beforeSeparator _

theorem separatedTail_reads
    (differ : separator ≠ closing)
    (beforeSeparator : ∀ rest, follows (separator :: rest))
    (beforeClosing : ∀ rest, follows (closing :: rest))
    {values others : List α} {rest otherRest : List σ}
    (reads : ∀ value ∈ values, ReadsUniquely code follows valid related value)
    (valids : ∀ other ∈ others, valid other)
    (same :
      (values.map code).flatMap (separator :: ·) ++ closing :: rest =
        (others.map code).flatMap (separator :: ·) ++ closing :: otherRest) :
    List.Forall₂ related values others ∧ rest = otherRest := by
  have followed := follows_separated beforeSeparator beforeClosing
  induction values generalizing others with
  | nil =>
      cases others with
      | nil => exact ⟨.nil, (List.cons.inj same).2⟩
      | cons other others =>
          exact absurd (List.cons.inj same).1.symm differ
  | cons value values ih =>
      cases others with
      | nil => exact absurd (List.cons.inj same).1 differ
      | cons other others =>
          simp only [List.map_cons, List.flatMap_cons, List.cons_append,
            List.append_assoc, List.cons.injEq, true_and] at same
          obtain ⟨equal, tails⟩ :=
            reads value List.mem_cons_self other _ _
              (valids other List.mem_cons_self) (followed _ _) (followed _ _)
              same
          obtain ⟨equals, rests⟩ := ih
            (fun value member => reads value (List.mem_cons_of_mem _ member))
            (fun other member => valids other (List.mem_cons_of_mem _ member))
            tails
          exact ⟨.cons equal equals, rests⟩

/-- A list between brackets reads uniquely if its members do and none of their
texts is empty or begins with the closing bracket. -/
theorem enclose_reads (opening : σ)
    (differ : separator ≠ closing)
    (beforeSeparator : ∀ rest, follows (separator :: rest))
    (beforeClosing : ∀ rest, follows (closing :: rest))
    {values others : List α} {rest otherRest : List σ}
    (reads : ∀ value ∈ values, ReadsUniquely code follows valid related value)
    (valids : ∀ other ∈ others, valid other)
    (begins : ∀ value ∈ values ++ others, ∃ symbol text,
      code value = symbol :: text ∧ symbol ≠ closing)
    (same :
      enclose opening separator closing (values.map code) ++ rest =
        enclose opening separator closing (others.map code) ++ otherRest) :
    List.Forall₂ related values others ∧ rest = otherRest := by
  simp only [enclose, List.cons_append, List.append_assoc, List.nil_append,
    List.cons.injEq, true_and] at same
  cases values with
  | nil =>
      cases others with
      | nil => exact ⟨.nil, (List.cons.inj same).2⟩
      | cons other others =>
          obtain ⟨symbol, text, written, notClosing⟩ := begins other (by simp)
          simp only [List.map_nil, List.map_cons, separated, List.nil_append,
            written, List.cons_append, List.cons.injEq] at same
          exact absurd same.1.symm notClosing
  | cons value values =>
      cases others with
      | nil =>
          obtain ⟨symbol, text, written, notClosing⟩ := begins value (by simp)
          simp only [List.map_nil, List.map_cons, separated, List.nil_append,
            written, List.cons_append, List.cons.injEq] at same
          exact absurd same.1 notClosing
      | cons other others =>
          have followed := follows_separated beforeSeparator beforeClosing
          simp only [List.map_cons, separated, List.append_assoc] at same
          obtain ⟨equal, tails⟩ :=
            reads value List.mem_cons_self other _ _
              (valids other List.mem_cons_self) (followed _ _) (followed _ _)
              same
          obtain ⟨equals, rests⟩ := separatedTail_reads differ beforeSeparator
            beforeClosing
            (fun value member => reads value (List.mem_cons_of_mem _ member))
            (fun other member => valids other (List.mem_cons_of_mem _ member))
            tails
          exact ⟨.cons equal equals, rests⟩

end

end UniqueReading
