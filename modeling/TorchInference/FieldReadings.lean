import Mathlib.Data.List.TakeWhile
import TorchInference.LogLines

/-!
# Texts as fields

A text alone is read as fields up to a quotation mark that opens a value and has
no other one behind it.  Where texts stand side by side, a value that is left
open goes on to the next quotation mark, in whatever text that stands.
-/

namespace TorchInference

namespace LogLines

/-! ## Keys and values -/

/-- The first of a text's quotation marks opens a value that does not end. -/
def Opens (text : List Char) : Prop :=
  ∃ quoted, text = '"' :: quoted ∧ '"' ∉ quoted

theorem keyAt_eq_some_iff {text key after : List Char} :
    keyAt text = some (key, after) ↔
      text = key ++ '=' :: after ∧ key ≠ [] ∧ ∀ c ∈ key, isWord c = true := by
  rw [keyAt, List.span_eq_takeWhile_dropWhile]
  constructor
  · intro found
    split at found
    · rename_i c word rest split
      obtain ⟨rfl, rfl⟩ := Prod.mk.inj (Option.some.inj found)
      obtain ⟨taken, dropped⟩ := Prod.mk.inj split
      refine ⟨?_, List.cons_ne_nil c word, ?_⟩
      · rw [← taken, ← dropped, List.takeWhile_append_dropWhile]
      · intro d mem
        rw [← taken] at mem
        exact List.mem_takeWhile_imp mem
    · cases found
  · rintro ⟨rfl, nonempty, word⟩
    obtain ⟨c, key, rfl⟩ := List.exists_cons_of_ne_nil nonempty
    rw [List.takeWhile_append_of_pos word, List.dropWhile_append_of_pos word,
      List.takeWhile_cons_of_neg (by decide), List.dropWhile_cons_of_neg (by decide),
      List.append_nil]
    rfl

/-- A key does not go over a space. -/
theorem keyAt_append_space (text more : List Char) :
    keyAt (text ++ ' ' :: more) =
      (keyAt text).map fun found => (found.1, found.2 ++ ' ' :: more) := by
  cases found : keyAt text with
  | some pair =>
      obtain ⟨rfl, nonempty, word⟩ := keyAt_eq_some_iff.mp found
      rw [Option.map_some, keyAt_eq_some_iff]
      exact ⟨by simp, nonempty, word⟩
  | none =>
      rw [Option.map_none, Option.eq_none_iff_forall_ne_some]
      rintro ⟨key, after⟩ other
      obtain ⟨whole, nonempty, word⟩ := keyAt_eq_some_iff.mp other
      rcases List.append_eq_append_iff.mp whole with
        ⟨between, isKey, rest⟩ | ⟨between, isText, rest⟩
      · cases between with
        | nil => simp at rest
        | cons c between =>
            obtain ⟨rfl, -⟩ := List.cons.inj rest
            have space := word ' ' (by rw [isKey]; simp)
            exact absurd space (by decide)
      · cases between with
        | nil => simp at rest
        | cons c between =>
            obtain ⟨rfl, -⟩ := List.cons.inj rest
            rw [keyAt_eq_some_iff.mpr ⟨isText, nonempty, word⟩] at found
            cases found

theorem nextKey_append_space (text more : List Char) :
    nextKey (text ++ ' ' :: more) =
      ((nextKey text).map fun found => (found.1, found.2 ++ ' ' :: more)).or
        (nextKey more) := by
  induction text with
  | nil => rfl
  | cons c text ih =>
      rw [List.cons_append, nextKey, ← List.cons_append, keyAt_append_space, ih,
        nextKey]
      cases keyAt (c :: text) <;> rfl

theorem nextKey_length {text key after : List Char}
    (found : nextKey text = some (key, after)) : after.length < text.length := by
  induction text with
  | nil => cases found
  | cons c text ih =>
      rw [nextKey, Option.or_eq_some_iff] at found
      rcases found with first | ⟨-, later⟩
      · obtain ⟨whole, nonempty, -⟩ := keyAt_eq_some_iff.mp first
        rw [whole, List.length_append, List.length_cons]
        omega
      · exact (ih later).trans (Nat.lt_succ_self _)

theorem nextKey_of_word {key : List Char} (nonempty : key ≠ [])
    (word : ∀ c ∈ key, isWord c = true) (after : List Char) :
    nextKey (key ++ '=' :: after) = some (key, after) := by
  have first : keyAt (key ++ '=' :: after) = some (key, after) :=
    keyAt_eq_some_iff.mpr ⟨rfl, nonempty, word⟩
  obtain ⟨c, key, rfl⟩ := List.exists_cons_of_ne_nil nonempty
  rw [List.cons_append, nextKey, ← List.cons_append, first]
  rfl

theorem valueAt_quoted {value : List Char} (noQuote : '"' ∉ value)
    (after : List Char) :
    valueAt ('"' :: (value ++ '"' :: after)) = (value, after) := by
  have others : ∀ c ∈ value, (c != '"') = true := by
    intro c mem
    rw [bne_iff_ne]
    rintro rfl
    exact noQuote mem
  rw [valueAt, List.span_eq_takeWhile_dropWhile,
    List.takeWhile_append_of_pos others, List.dropWhile_append_of_pos others]
  simp

theorem valueAt_bare {text : List Char} (bare : text.head? ≠ some '"') :
    valueAt text = (text.takeWhile isSolid, text.dropWhile isSolid) := by
  unfold valueAt
  split
  · exact absurd rfl bare
  · exact List.span_eq_takeWhile_dropWhile _ _

theorem span_append_space (text more : List Char) :
    (text ++ ' ' :: more).takeWhile isSolid = text.takeWhile isSolid ∧
      (text ++ ' ' :: more).dropWhile isSolid =
        text.dropWhile isSolid ++ ' ' :: more := by
  induction text with
  | nil => exact ⟨rfl, rfl⟩
  | cons c text ih =>
      cases solid : isSolid c with
      | true => simp [solid, ih]
      | false => simp [solid]

/-- A value that ends does so before a space behind the text. -/
theorem valueAt_append_space {text : List Char} (closed : ¬ Opens text)
    (more : List Char) :
    valueAt (text ++ ' ' :: more) =
      ((valueAt text).1, (valueAt text).2 ++ ' ' :: more) := by
  by_cases quote : text.head? = some '"'
  · obtain ⟨quoted, rfl⟩ := List.head?_eq_some_iff.mp quote
    have mem : '"' ∈ quoted := by
      by_contra absent
      exact closed ⟨quoted, rfl, absent⟩
    obtain ⟨value, after, rfl, absent⟩ := List.eq_append_cons_of_mem mem
    rw [valueAt_quoted absent, List.cons_append, List.append_assoc,
      List.cons_append, valueAt_quoted absent]
  · have bare : (text ++ ' ' :: more).head? ≠ some '"' := by
      cases text with
      | nil => simp
      | cons c text => exact quote
    obtain ⟨taken, dropped⟩ := span_append_space text more
    rw [valueAt_bare quote, valueAt_bare bare, taken, dropped]

theorem valueAt_length_le (text : List Char) :
    (valueAt text).2.length ≤ text.length := by
  have dropped : (text.dropWhile isSolid).length ≤ text.length :=
    (List.dropWhile_suffix isSolid).length_le
  unfold valueAt
  split
  · rename_i quoted
    split
    · rename_i value c after split
      rw [List.span_eq_takeWhile_dropWhile] at split
      have shorter := (List.dropWhile_suffix (· != '"') (l := quoted)).length_le
      rw [(Prod.mk.inj split).2, List.length_cons] at shorter
      change after.length ≤ quoted.length + 1
      omega
    · rw [List.span_eq_takeWhile_dropWhile]
      exact dropped
  · rw [List.span_eq_takeWhile_dropWhile]
    exact dropped

/-! ## Readings -/

/-- The fields that a text alone assigns, and the key and the beginning of a
value that it leaves open. -/
inductive Reads : List Char → List (List Char × List Char) →
    Option (List Char × List Char) → Prop
  | rest {text : List Char} (keyless : nextKey text = none) : Reads text [] none
  | field {text key after : List Char} {entries : List (List Char × List Char)}
      {unclosed : Option (List Char × List Char)}
      (found : nextKey text = some (key, after)) (closed : ¬ Opens after)
      (later : Reads (valueAt after).2 entries unclosed) :
      Reads text ((key, (valueAt after).1) :: entries) unclosed
  | opened {text key quoted : List Char}
      (found : nextKey text = some (key, '"' :: quoted))
      (absent : '"' ∉ quoted) : Reads text [] (some (key, quoted))

theorem Reads.field_eq {text key after value rest : List Char}
    {entries : List (List Char × List Char)}
    {unclosed : Option (List Char × List Char)}
    (found : nextKey text = some (key, after)) (closed : ¬ Opens after)
    (isValue : valueAt after = (value, rest))
    (later : Reads rest entries unclosed) :
    Reads text ((key, value) :: entries) unclosed := by
  obtain ⟨rfl, rfl⟩ := Prod.mk.inj isValue
  exact Reads.field found closed later

/-- Only the first key and what follows it matter. -/
theorem Reads.congr {text other : List Char}
    {entries : List (List Char × List Char)}
    {unclosed : Option (List Char × List Char)}
    (reads : Reads text entries unclosed) (same : nextKey other = nextKey text) :
    Reads other entries unclosed := by
  cases reads with
  | rest keyless => exact Reads.rest (same.trans keyless)
  | field found closed later => exact Reads.field (same.trans found) closed later
  | opened found absent => exact Reads.opened (same.trans found) absent

theorem exists_reads (text : List Char) :
    ∃ entries unclosed, Reads text entries unclosed := by
  induction hlength : text.length using Nat.strong_induction_on
    generalizing text with
  | _ length ih =>
      cases found : nextKey text with
      | none => exact ⟨[], none, Reads.rest found⟩
      | some pair =>
          obtain ⟨key, after⟩ := pair
          by_cases opens : Opens after
          · obtain ⟨quoted, rfl, absent⟩ := opens
            exact ⟨[], some (key, quoted), Reads.opened found absent⟩
          · have shorter : (valueAt after).2.length < length := by
              rw [← hlength]
              exact (valueAt_length_le after).trans_lt (nextKey_length found)
            obtain ⟨entries, unclosed, later⟩ := ih _ shorter _ rfl
            exact ⟨_, unclosed, Reads.field found opens later⟩

theorem not_opens_append_space {text : List Char} (closed : ¬ Opens text)
    (more : List Char) : ¬ Opens (text ++ ' ' :: more) := by
  rintro ⟨quoted, whole, absent⟩
  cases text with
  | nil => simp at whole
  | cons c text =>
      obtain ⟨rfl, rfl⟩ := List.cons.inj whole
      exact closed ⟨text, rfl, fun mem => absent (List.mem_append_left _ mem)⟩

/-- Behind a closed text another one is read on its own. -/
theorem Reads.append {text more : List Char}
    {entries others : List (List Char × List Char)}
    {unclosed : Option (List Char × List Char)}
    (reads : Reads text entries none) (next : Reads more others unclosed) :
    Reads (text ++ ' ' :: more) (entries ++ others) unclosed := by
  generalize closed : (none : Option (List Char × List Char)) = ending at reads
  induction reads with
  | rest keyless =>
      refine next.congr ?_
      rw [nextKey_append_space, keyless]
      rfl
  | @field text key after entries ending found noOpen later ih =>
      have whole : nextKey (text ++ ' ' :: more) =
          some (key, after ++ ' ' :: more) := by
        rw [nextKey_append_space, found]
        rfl
      exact Reads.field_eq whole (not_opens_append_space noOpen more)
        (valueAt_append_space noOpen more) (ih closed)
  | opened => cases closed

/-- An open value goes on up to the next quotation mark. -/
theorem Reads.append_open {text between after key quoted : List Char}
    {entries others : List (List Char × List Char)}
    {unclosed : Option (List Char × List Char)}
    (reads : Reads text entries (some (key, quoted)))
    (noQuote : '"' ∉ between) (next : Reads after others unclosed) :
    Reads (text ++ ' ' :: (between ++ '"' :: after))
      (entries ++ (key, quoted ++ ' ' :: between) :: others) unclosed := by
  generalize opened : some (key, quoted) = ending at reads
  induction reads with
  | rest => cases opened
  | @field text first value entries ending found noOpen later ih =>
      have whole : nextKey (text ++ ' ' :: (between ++ '"' :: after)) =
          some (first, value ++ ' ' :: (between ++ '"' :: after)) := by
        rw [nextKey_append_space, found]
        rfl
      exact Reads.field_eq whole (not_opens_append_space noOpen _)
        (valueAt_append_space noOpen _) (ih opened)
  | @opened text first started found absent =>
      cases opened
      have whole : nextKey (text ++ ' ' :: (between ++ '"' :: after)) =
          some (key, '"' :: ((quoted ++ ' ' :: between) ++ '"' :: after)) := by
        rw [nextKey_append_space, found]
        simp
      have inside : '"' ∉ quoted ++ ' ' :: between := by
        simp [absent, noQuote]
      have noOpen : ¬ Opens ('"' :: ((quoted ++ ' ' :: between) ++ '"' :: after)) := by
        rintro ⟨others, same, none⟩
        rw [← (List.cons.inj same).2] at none
        simp at none
      exact Reads.field_eq whole noOpen (valueAt_quoted inside after) next

/-! ## The fields that stay -/

/-- The value of the last entry of a key. -/
def lastValue (key : List Char) (entries : List (List Char × List Char)) :
    Option (List Char) :=
  entries.reverse.lookup key

theorem lastValue_append (key : List Char)
    (entries others : List (List Char × List Char)) :
    lastValue key (entries ++ others) =
      (lastValue key others).or (lastValue key entries) := by
  rw [lastValue, List.reverse_append, List.lookup_append]
  rfl

theorem lastValue_eq_none_iff {key : List Char}
    {entries : List (List Char × List Char)} :
    lastValue key entries = none ↔ ∀ entry ∈ entries, entry.1 ≠ key := by
  rw [lastValue, List.lookup_eq_none_iff]
  simp only [List.mem_reverse, bne_iff_ne]
  exact forall₂_congr fun entry _ => ne_comm

theorem lookup_assign_self {key : List Char} (plain : key ≠ "__proto__".toList)
    (value : List Char) (fields : List (List Char × List Char)) :
    (assign (key, value) fields).lookup key = some value := by
  induction fields with
  | nil => rw [assign, if_neg plain, List.lookup_cons_self]
  | cons other fields ih =>
      rw [assign]
      split_ifs with same
      · exact List.lookup_cons_self
      · rw [List.lookup_cons, beq_false_of_ne (Ne.symm same)]
        exact ih

theorem lookup_assign_of_ne {key other : List Char} (apart : key ≠ other)
    (value : List Char) (fields : List (List Char × List Char)) :
    (assign (other, value) fields).lookup key = fields.lookup key := by
  induction fields with
  | nil =>
      rw [assign]
      split_ifs
      · rfl
      · rw [List.lookup_cons, beq_false_of_ne apart]
  | cons first fields ih =>
      rw [assign]
      split_ifs with same
      · rw [List.lookup_cons, List.lookup_cons, beq_false_of_ne apart,
          same, beq_false_of_ne apart]
      · rw [List.lookup_cons, List.lookup_cons, ih]

theorem lookup_foldl_assign {key : List Char} (plain : key ≠ "__proto__".toList)
    (entries fields : List (List Char × List Char)) :
    (entries.foldl (fun fields entry => assign entry fields) fields).lookup key =
      (lastValue key entries).or (fields.lookup key) := by
  induction entries using List.reverseRecOn with
  | nil => rfl
  | append_singleton entries entry ih =>
      obtain ⟨name, value⟩ := entry
      rw [List.foldl_append, List.foldl_cons, List.foldl_nil, lastValue_append]
      by_cases same : key = name
      · subst same
        rw [lookup_assign_self plain]
        simp [lastValue]
      · have absent : lastValue key [(name, value)] = none := by
          rw [lastValue_eq_none_iff, List.forall_mem_singleton]
          exact Ne.symm same
        rw [lookup_assign_of_ne same, ih, absent, Option.none_or]

theorem Reads.length_le {text : List Char}
    {entries : List (List Char × List Char)}
    {unclosed : Option (List Char × List Char)}
    (reads : Reads text entries unclosed) : entries.length ≤ text.length := by
  induction reads with
  | rest => exact Nat.zero_le _
  | @field text key after entries unclosed found closed later ih =>
      have shorter := nextKey_length found
      have rest := valueAt_length_le after
      rw [List.length_cons]
      omega
  | opened => exact Nat.zero_le _

/-- The loop assigns the fields of a text without an open value. -/
theorem Reads.fieldsFrom_eq {text : List Char}
    {entries : List (List Char × List Char)} (reads : Reads text entries none)
    {fuel : Nat} (enough : entries.length < fuel)
    (fields : List (List Char × List Char)) :
    fieldsFrom fuel text fields =
      entries.foldl (fun fields entry => assign entry fields) fields := by
  generalize closed : (none : Option (List Char × List Char)) = ending at reads
  obtain ⟨fuel, rfl⟩ : ∃ more, fuel = more + 1 := ⟨fuel - 1, by omega⟩
  induction reads generalizing fuel fields with
  | rest keyless => rw [fieldsFrom, nextField, keyless]; rfl
  | @field text key after entries ending found noOpen later ih =>
      rw [List.length_cons] at enough
      obtain ⟨fuel, rfl⟩ : ∃ more, fuel = more + 1 := ⟨fuel - 1, by omega⟩
      rw [fieldsFrom, nextField, found, List.foldl_cons]
      exact ih _ closed fuel (by omega)
  | opened => cases closed

end LogLines

end TorchInference
