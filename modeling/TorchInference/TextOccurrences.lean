import Mathlib.Data.List.Count
import Mathlib.Data.List.Infix

/-!
# Occurrences of a marker

The first symbol of a marker occurs nowhere else in it.  So two occurrences do
not overlap, and an occurrence that goes over the seam of two texts begins in
the first one.  A tokenizer that makes one token of a kind of each occurrence,
and no such token of anything else, keeps their order.
-/

namespace TextOccurrences

variable {Symbol : Type*}

structure Marker (Symbol : Type*) where
  head : Symbol
  rest : List Symbol
  apart : head ∉ rest

def Marker.text (marker : Marker Symbol) : List Symbol :=
  marker.head :: marker.rest

/-- The marker occurs nowhere. -/
def Marker.Absent (marker : Marker Symbol) (text : List Symbol) : Prop :=
  ¬ marker.text <:+: text

variable {marker : Marker Symbol}

theorem Marker.absent_nil : marker.Absent [] := by
  intro occurs
  cases List.infix_nil.mp occurs

theorem Marker.Absent.left {text other : List Symbol}
    (absent : marker.Absent (text ++ other)) : marker.Absent text :=
  fun occurs => absent (List.infix_append_of_infix_left occurs)

theorem Marker.Absent.right {text other : List Symbol}
    (absent : marker.Absent (text ++ other)) : marker.Absent other :=
  fun occurs => absent (List.infix_append_of_infix_right occurs)

/-- A marker is not divided between two texts when no beginning of it ends the
first one. -/
theorem Marker.Absent.append {text other : List Symbol}
    (absent : marker.Absent text) (otherAbsent : marker.Absent other)
    (undivided : ∀ front back, front ≠ [] → back ≠ [] →
      marker.text = front ++ back → front <:+ text → ¬ back <+: other) :
    marker.Absent (text ++ other) := by
  intro occurs
  rcases List.infix_append_iff_ne_nil.mp occurs with
    first | second | ⟨front, back, someFront, someBack, whole, ends, begins⟩
  · exact absent first
  · exact otherAbsent second
  · exact undivided front back someFront someBack whole ends begins

/-- No occurrence goes on into a text that begins like the marker. -/
theorem Marker.Absent.append_of_head {text other : List Symbol}
    (absent : marker.Absent text) (otherAbsent : marker.Absent other)
    (begins : other.head? = some marker.head) :
    marker.Absent (text ++ other) := by
  refine absent.append otherAbsent ?_
  intro front back someFront someBack whole _ isPrefix
  obtain ⟨c, front, rfl⟩ := List.exists_cons_of_ne_nil someFront
  obtain ⟨d, back, rfl⟩ := List.exists_cons_of_ne_nil someBack
  obtain ⟨more, rfl⟩ := isPrefix
  have isHead : d = marker.head := Option.some.inj begins
  have isRest : marker.rest = front ++ d :: back := (List.cons.inj whole).2
  apply marker.apart
  rw [isRest, isHead]
  simp

/-- No occurrence comes from a text that ends with a symbol which only ends the
marker. -/
theorem Marker.Absent.append_of_last {text other : List Symbol} {c : Symbol}
    (absent : marker.Absent (text ++ [c])) (otherAbsent : marker.Absent other)
    (inside : c ∉ marker.text.dropLast) :
    marker.Absent (text ++ [c] ++ other) := by
  refine absent.append otherAbsent ?_
  intro front back someFront someBack whole isSuffix _
  obtain ⟨more, split⟩ := isSuffix
  cases front using List.reverseRecOn with
  | nil => exact someFront rfl
  | append_singleton front d =>
      rw [← List.append_assoc] at split
      obtain ⟨-, same⟩ := List.append_inj' split rfl
      apply inside
      rw [whole, List.dropLast_append_of_ne_nil someBack, ← List.cons.inj same |>.1]
      simp

/-- A symbol that is not in the marker keeps two texts apart. -/
theorem Marker.Absent.append_cons {text other : List Symbol} {c : Symbol}
    (absent : marker.Absent text) (otherAbsent : marker.Absent other)
    (outside : c ∉ marker.text) : marker.Absent (text ++ c :: other) := by
  have later : marker.Absent (c :: other) := by
    rw [Marker.Absent, List.infix_cons_iff, not_or]
    refine ⟨fun isPrefix => outside ?_, otherAbsent⟩
    rw [Marker.text, List.cons_prefix_cons] at isPrefix
    rw [← isPrefix.1]
    exact List.mem_cons_self
  refine absent.append later ?_
  intro front back _ someBack whole _ isPrefix
  obtain ⟨d, back, rfl⟩ := List.exists_cons_of_ne_nil someBack
  obtain ⟨rfl, -⟩ := List.cons_prefix_cons.mp isPrefix
  apply outside
  rw [whole]
  simp

/-- A text that begins with the marker has no other text in front of it. -/
theorem Marker.Absent.eq_nil {between after rest : List Symbol}
    (absent : marker.Absent between)
    (same : marker.text ++ after = between ++ (marker.text ++ rest)) :
    between = [] := by
  by_contra nonempty
  rcases List.append_eq_append_iff.mp same with ⟨more, whole, -⟩ | ⟨more, whole, seam⟩
  · exact absent ⟨[], more, by rw [whole, List.nil_append]⟩
  · obtain ⟨c, between, rfl⟩ := List.exists_cons_of_ne_nil nonempty
    cases more with
    | nil =>
        rw [List.append_nil] at whole
        exact absent (whole ▸ List.infix_rfl)
    | cons d more =>
        have isHead : d = marker.head := (List.cons.inj seam).1.symm
        have isRest : marker.rest = between ++ d :: more := (List.cons.inj whole).2
        apply marker.apart
        rw [isRest, isHead]
        simp

/-- A text is divided at the first occurrence in one way. -/
theorem Marker.Absent.unique {before after other rest : List Symbol}
    (absent : marker.Absent before) (otherAbsent : marker.Absent other)
    (same : before ++ (marker.text ++ after) = other ++ (marker.text ++ rest)) :
    before = other ∧ after = rest := by
  rcases List.append_eq_append_iff.mp same with ⟨between, whole, seam⟩ |
    ⟨between, whole, seam⟩
  · have empty : between = [] := by
      rw [whole] at otherAbsent
      exact otherAbsent.right.eq_nil seam
    rw [empty, List.append_nil] at whole
    rw [empty, List.nil_append] at seam
    exact ⟨whole.symm, List.append_cancel_left seam⟩
  · have empty : between = [] := by
      rw [whole] at absent
      exact absent.right.eq_nil seam
    rw [empty, List.append_nil] at whole
    rw [empty, List.nil_append] at seam
    exact ⟨whole, (List.append_cancel_left seam).symm⟩

/-! ## The first occurrence -/

section Cutting

variable [DecidableEq Symbol]

/-- What stands before and after the first occurrence of a marker. -/
def cutFirst (marker : Marker Symbol) :
    List Symbol → Option (List Symbol × List Symbol)
  | [] => none
  | c :: text =>
      if marker.text <+: c :: text then
        some ([], (c :: text).drop marker.text.length)
      else (cutFirst marker text).map fun cut => (c :: cut.1, cut.2)

theorem cutFirst_eq_none_iff {text : List Symbol} :
    cutFirst marker text = none ↔ marker.Absent text := by
  induction text with
  | nil => exact iff_of_true rfl Marker.absent_nil
  | cons c text ih =>
      rw [cutFirst, Marker.Absent, List.infix_cons_iff, not_or]
      split_ifs with begins
      · simp [begins]
      · rw [Option.map_eq_none_iff, ih]
        exact (and_iff_right begins).symm

theorem eq_of_cutFirst {text before after : List Symbol}
    (cut : cutFirst marker text = some (before, after)) :
    text = before ++ (marker.text ++ after) ∧ marker.Absent before := by
  induction text generalizing before with
  | nil => cases cut
  | cons c text ih =>
      rw [cutFirst] at cut
      split_ifs at cut with begins
      · obtain ⟨rfl, rfl⟩ := Prod.mk.inj (Option.some.inj cut)
        exact ⟨(List.prefix_iff_eq_append.mp begins).symm, Marker.absent_nil⟩
      · obtain ⟨⟨others, rest⟩, later, same⟩ := Option.map_eq_some_iff.mp cut
        obtain ⟨rfl, rfl⟩ := Prod.mk.inj same
        obtain ⟨rfl, absent⟩ := ih later
        refine ⟨rfl, ?_⟩
        rw [Marker.Absent, List.infix_cons_iff, not_or]
        refine ⟨fun isPrefix => begins ?_, absent⟩
        rw [← List.cons_append]
        exact isPrefix.trans (List.prefix_append _ _)

/-- Where the marker has not occurred before, it is found. -/
theorem cutFirst_append {before : List Symbol} (absent : marker.Absent before)
    (after : List Symbol) :
    cutFirst marker (before ++ (marker.text ++ after)) = some (before, after) := by
  cases cut : cutFirst marker (before ++ (marker.text ++ after)) with
  | none =>
      exfalso
      exact cutFirst_eq_none_iff.mp cut (List.infix_append' _ _ _)
  | some found =>
      obtain ⟨other, rest⟩ := found
      obtain ⟨same, otherAbsent⟩ := eq_of_cutFirst cut
      obtain ⟨rfl, rfl⟩ := absent.unique otherAbsent same
      rfl

theorem cutFirst_eq_some_iff {text before after : List Symbol} :
    cutFirst marker text = some (before, after) ↔
      text = before ++ (marker.text ++ after) ∧ marker.Absent before := by
  constructor
  · exact eq_of_cutFirst
  · rintro ⟨rfl, absent⟩
    exact cutFirst_append absent after

end Cutting

/-- A text in which the marker occurs is divided at the first occurrence. -/
theorem Marker.exists_first {text : List Symbol} (occurs : ¬ marker.Absent text) :
    ∃ before after, text = before ++ (marker.text ++ after) ∧
      marker.Absent before := by
  classical
  cases cut : cutFirst marker text with
  | none => exact absurd (cutFirst_eq_none_iff.mp cut) occurs
  | some found => exact ⟨found.1, found.2, eq_of_cutFirst cut⟩

/-! ## Tokens of marked texts -/

variable {Token : Type*} {special : Token → Bool}

/-- The tokens of a text; between the special ones there are any others. -/
inductive Marker.Tokens (marker : Marker Symbol) (special : Token → Bool) :
    List Symbol → List Token → Prop
  | last {text : List Symbol} {tokens : List Token} (absent : marker.Absent text)
      (plain : ∀ token ∈ tokens, special token = false) :
      Tokens marker special text tokens
  | next {before after : List Symbol} {front back : List Token} {token : Token}
      (absent : marker.Absent before)
      (plain : ∀ token ∈ front, special token = false)
      (isSpecial : special token = true) (later : Tokens marker special after back) :
      Tokens marker special (before ++ (marker.text ++ after))
        (front ++ token :: back)

/-- A token for each occurrence and one for each other symbol. -/
def tokenizeMarked [DecidableEq Symbol] (marker : Marker Symbol) (token : Token)
    (other : Symbol → Token) : Nat → List Symbol → List Token
  | 0, _ => []
  | fuel + 1, text =>
      match cutFirst marker text with
      | none => text.map other
      | some (before, after) =>
          before.map other ++ token :: tokenizeMarked marker token other fuel after

theorem tokenizeMarked_tokens [DecidableEq Symbol] {token : Token}
    {other : Symbol → Token} (isSpecial : special token = true)
    (plain : ∀ c, special (other c) = false) {fuel : Nat} {text : List Symbol}
    (enough : text.length < fuel) :
    marker.Tokens special text (tokenizeMarked marker token other fuel text) := by
  have others (text : List Symbol) :
      ∀ token ∈ text.map other, special token = false :=
    List.forall_mem_map.mpr fun c _ => plain c
  induction fuel generalizing text with
  | zero => exact absurd enough (Nat.not_lt_zero _)
  | succ fuel ih =>
      rw [tokenizeMarked]
      cases cut : cutFirst marker text with
      | none => exact .last (cutFirst_eq_none_iff.mp cut) (others text)
      | some found =>
          obtain ⟨rfl, absent⟩ := eq_of_cutFirst cut
          have shorter : found.2.length < fuel := by
            rw [List.length_append, List.length_append, Marker.text,
              List.length_cons] at enough
            omega
          exact .next absent (others found.1) isSpecial (ih shorter)

/-- The tokens are divided where the text is divided at an occurrence. -/
theorem Marker.Tokens.split {before after : List Symbol} {tokens : List Token}
    (isTokens : marker.Tokens special (before ++ (marker.text ++ after)) tokens) :
    ∃ front token back, tokens = front ++ token :: back ∧ special token = true ∧
      marker.Tokens special before front ∧ marker.Tokens special after back := by
  generalize whole : before ++ (marker.text ++ after) = text at isTokens
  induction isTokens generalizing before with
  | last absent =>
      refine absurd ?_ absent
      rw [← whole]
      exact List.infix_append' _ _ _
  | @next first rest front back token absent plain isSpecial later ih =>
      by_cases early : marker.Absent before
      · obtain ⟨rfl, rfl⟩ := early.unique absent whole
        exact ⟨front, token, back, rfl, isSpecial, .last early plain, later⟩
      · obtain ⟨start, between, rfl, isFirst⟩ := Marker.exists_first early
        rw [List.append_assoc, List.append_assoc] at whole
        obtain ⟨rfl, rest⟩ := isFirst.unique absent whole
        obtain ⟨middle, other, ending, rfl, isOther, isMiddle, isEnding⟩ := ih rest
        exact ⟨front ++ token :: middle, other, ending, by simp, isOther,
          .next absent plain isSpecial isMiddle, isEnding⟩

theorem Marker.Tokens.countP_of_absent {text : List Symbol} {tokens : List Token}
    (isTokens : marker.Tokens special text tokens) (absent : marker.Absent text) :
    tokens.countP special = 0 := by
  cases isTokens with
  | last _ plain =>
      rw [List.countP_eq_zero]
      intro token mem
      rw [plain token mem]
      exact Bool.false_ne_true
  | next => exact absurd (List.infix_append' _ _ _) absent

theorem Marker.Tokens.countP_append {before after : List Symbol}
    {tokens : List Token}
    (isTokens : marker.Tokens special (before ++ (marker.text ++ after)) tokens) :
    0 < tokens.countP special := by
  obtain ⟨front, token, back, rfl, isSpecial, -, -⟩ := isTokens.split
  exact List.countP_pos_iff.mpr ⟨token, by simp, isSpecial⟩

/-- Behind a text without the marker, `n` occurrences are `n` tokens. -/
theorem Marker.Tokens.countP_replicate {before : List Symbol}
    (absent : marker.Absent before) {n : Nat} {tokens : List Token}
    (isTokens : marker.Tokens special
      (before ++ (List.replicate n marker.text).flatten) tokens) :
    tokens.countP special = n := by
  induction n generalizing tokens with
  | zero =>
      rw [List.replicate_zero, List.flatten_nil, List.append_nil] at isTokens
      exact isTokens.countP_of_absent absent
  | succ n ih =>
      have whole : before ++ (List.replicate (n + 1) marker.text).flatten =
          (before ++ (List.replicate n marker.text).flatten) ++
            (marker.text ++ []) := by
        rw [List.replicate_succ', List.flatten_append, List.flatten_singleton,
          List.append_nil, List.append_assoc]
      rw [whole] at isTokens
      obtain ⟨front, token, back, rfl, isSpecial, isFront, isBack⟩ :=
        isTokens.split
      rw [List.countP_append, List.countP_cons_of_pos isSpecial, ih isFront,
        isBack.countP_of_absent Marker.absent_nil]

/-- The occurrence between two texts is the token at a position. -/
def Marker.TokenAt (marker : Marker Symbol) (special : Token → Bool)
    (before after : List Symbol) (tokens : List Token) (position : Nat) : Prop :=
  ∃ front token back, tokens = front ++ token :: back ∧
    front.length = position ∧ special token = true ∧
    marker.Tokens special before front ∧ marker.Tokens special after back

theorem Marker.Tokens.exists_tokenAt {before after : List Symbol}
    {tokens : List Token}
    (isTokens : marker.Tokens special (before ++ (marker.text ++ after)) tokens) :
    ∃ position, marker.TokenAt special before after tokens position := by
  obtain ⟨front, token, back, same, isSpecial, isFront, isBack⟩ := isTokens.split
  exact ⟨front.length, front, token, back, same, rfl, isSpecial, isFront, isBack⟩

/-- The special tokens are told apart by how many stand before them. -/
theorem eq_of_countP_take {tokens : List Token} {p q : Nat} {first second : Token}
    (isFirst : tokens[p]? = some first) (isSecond : tokens[q]? = some second)
    (firstSpecial : special first = true) (secondSpecial : special second = true)
    (same : (tokens.take p).countP special = (tokens.take q).countP special) :
    p = q := by
  have less {p q : Nat} {token : Token} (isToken : tokens[p]? = some token)
      (isSpecial : special token = true) (before : p < q) :
      (tokens.take p).countP special < (tokens.take q).countP special := by
    have more : (tokens.take (p + 1)).countP special ≤
        (tokens.take q).countP special :=
      (List.take_prefix_take_left before).sublist.countP_le
    rw [List.take_add_one, isToken, List.countP_append] at more
    simp only [Option.toList_some, List.countP_singleton, isSpecial] at more
    exact more
  rcases Nat.lt_trichotomy p q with before | same | after
  · exact absurd same (Nat.ne_of_lt (less isFirst firstSpecial before))
  · exact same
  · exact absurd same.symm (Nat.ne_of_lt (less isSecond secondSpecial after))

theorem Marker.TokenAt.isSpecial {before after : List Symbol} {tokens : List Token}
    {position : Nat} (isAt : marker.TokenAt special before after tokens position) :
    ∃ token, tokens[position]? = some token ∧ special token = true := by
  obtain ⟨front, token, back, rfl, rfl, isSpecial, -, -⟩ := isAt
  exact ⟨token, by simp, isSpecial⟩

theorem Marker.TokenAt.tokens {before after : List Symbol} {tokens : List Token}
    {position : Nat} (isAt : marker.TokenAt special before after tokens position) :
    marker.Tokens special before (tokens.take position) := by
  obtain ⟨front, token, back, rfl, rfl, -, isFront, -⟩ := isAt
  rwa [List.take_left]

end TextOccurrences
