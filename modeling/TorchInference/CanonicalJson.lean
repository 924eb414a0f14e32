import Mathlib.Data.List.Sort
import Mathlib.Data.String.Basic
import TorchInference.JsonValue
import TorchInference.UniqueReading

/-!
# Canonical JSON texts

`write_canonical_json` writes a JSON value with the members of every object
sorted by key and leaves strings and numbers to `serde_json`.  Two values have
one text only if they are equal up to the order of the members.

`serde_json` keeps finite floats only, takes an integer for a negative one only
if it is negative, and keeps each key of an object once.  The text of a float
is left to its formatter.
-/

namespace TorchInference

/-- A binary64 number whose exponent is not the one of infinities and NaN. -/
def FiniteBits (bits : UInt64) : Prop :=
  bits &&& 0x7FF0000000000000 ≠ 0x7FF0000000000000

instance (bits : UInt64) : Decidable (FiniteBits bits) :=
  inferInstanceAs (Decidable (_ ≠ _))

/-- The characters of a JSON number. -/
def isNumberChar (c : Char) : Bool :=
  c.isDigit || c == '-' || c == '+' || c == '.' || c == 'e'

/-- The formatter of finite floats: a float is read back from its text, which
is a JSON number with a fraction or an exponent. -/
structure FloatText where
  text : UInt64 → List Char
  injective : ∀ {bits others}, FiniteBits bits → FiniteBits others →
    text bits = text others → bits = others
  numberChars : ∀ bits, FiniteBits bits → ∀ c ∈ text bits, isNumberChar c
  fractional : ∀ bits, FiniteBits bits → '.' ∈ text bits ∨ 'e' ∈ text bits

/-- The numbers `serde_json` can hold. -/
def JsonNumber.WellFormed : JsonNumber → Prop
  | .posInt _ => True
  | .negInt value => value.toInt < 0
  | .float bits => FiniteBits bits

instance : ∀ number : JsonNumber, Decidable number.WellFormed
  | .posInt _ => inferInstanceAs (Decidable True)
  | .negInt value => inferInstanceAs (Decidable (value.toInt < 0))
  | .float bits => inferInstanceAs (Decidable (FiniteBits bits))

namespace JsonValue

/-- The values `serde_json` can hold. -/
inductive WellFormed : JsonValue → Prop
  | null : WellFormed .null
  | bool (value : Bool) : WellFormed (.bool value)
  | number (value : JsonNumber) (wellFormed : value.WellFormed) :
      WellFormed (.number value)
  | string (value : String) : WellFormed (.string value)
  | array (values : List JsonValue)
      (wellFormed : ∀ value ∈ values, WellFormed value) :
      WellFormed (.array values)
  | object (entries : List (String × JsonValue))
      (distinct : (entries.map Prod.fst).Nodup)
      (wellFormed : ∀ entry ∈ entries, WellFormed entry.2) :
      WellFormed (.object entries)

/-- Two values are equal up to the order of object members: the members of
two such objects can be listed so that their keys are the same and their
values again are such. -/
inductive Reordered : JsonValue → JsonValue → Prop
  | null : Reordered .null .null
  | bool (value : Bool) : Reordered (.bool value) (.bool value)
  | number (value : JsonNumber) : Reordered (.number value) (.number value)
  | string (value : String) : Reordered (.string value) (.string value)
  | array {values others : List JsonValue}
      (members : List.Forall₂ Reordered values others) :
      Reordered (.array values) (.array others)
  | object {entries others listed otherListed : List (String × JsonValue)}
      (permuted : entries.Perm listed) (otherPermuted : others.Perm otherListed)
      (keys : listed.map Prod.fst = otherListed.map Prod.fst)
      (values : List.Forall₂ Reordered (listed.map Prod.snd)
        (otherListed.map Prod.snd)) :
      Reordered (.object entries) (.object others)

theorem Reordered.string_eq {value other : String}
    (reordered : Reordered (.string value) (.string other)) :
    value = other := by
  cases reordered
  rfl

end JsonValue

/-! ## Writing -/

namespace CanonicalJson

/-- An escaped character of a string, as `serde_json` writes it. -/
def escapeChar (c : Char) : List Char :=
  if c = '"' then ['\\', '"']
  else if c = '\\' then ['\\', '\\']
  else if c = '\x08' then ['\\', 'b']
  else if c = '\t' then ['\\', 't']
  else if c = '\n' then ['\\', 'n']
  else if c = '\x0c' then ['\\', 'f']
  else if c = '\x0d' then ['\\', 'r']
  else if c.toNat < 0x20 then
    ['\\', 'u', '0', '0', Nat.digitChar (c.toNat / 16),
      Nat.digitChar (c.toNat % 16)]
  else [c]

/-- `serde_json::to_string` of a string. -/
def stringText (value : String) : List Char :=
  '"' :: (value.toList.flatMap escapeChar ++ ['"'])

/-- The text of a number. -/
def numberText (floats : FloatText) : JsonNumber → List Char
  | .posInt value => Nat.toDigits 10 value.toNat
  | .negInt value => '-' :: Nat.toDigits 10 value.toInt.natAbs
  | .float bits => floats.text bits

/-- The members of an object sorted by their keys. -/
def sortByKey {α : Type} (members : List (String × α)) : List (String × α) :=
  members.insertionSort fun member other => member.1 ≤ other.1

def memberText (member : String × List Char) : List Char :=
  stringText member.1 ++ ':' :: member.2

mutual

def writeCanonicalJson (floats : FloatText) : JsonValue → List Char
  | .object map =>
      UniqueReading.enclose '\x7b' ',' '\x7d'
        ((sortByKey (writeMembers floats map)).map memberText)
  | .array arr => UniqueReading.enclose '[' ',' ']' (writeAll floats arr)
  | .null => ['n', 'u', 'l', 'l']
  | .bool true => ['t', 'r', 'u', 'e']
  | .bool false => ['f', 'a', 'l', 's', 'e']
  | .number value => numberText floats value
  | .string value => stringText value

def writeAll (floats : FloatText) : List JsonValue → List (List Char)
  | [] => []
  | value :: values =>
      writeCanonicalJson floats value :: writeAll floats values

def writeMembers (floats : FloatText) :
    List (String × JsonValue) → List (String × List Char)
  | [] => []
  | (key, value) :: members =>
      (key, writeCanonicalJson floats value) :: writeMembers floats members

end

variable (floats : FloatText)

theorem writeAll_eq (values : List JsonValue) :
    writeAll floats values = values.map (writeCanonicalJson floats) := by
  induction values with
  | nil => rfl
  | cons value values ih => rw [writeAll, ih, List.map_cons]

theorem writeMembers_eq (members : List (String × JsonValue)) :
    writeMembers floats members =
      members.map (Prod.map id (writeCanonicalJson floats)) := by
  induction members with
  | nil => rfl
  | cons member members ih => rw [writeMembers, ih, List.map_cons]; rfl

theorem sortByKey_perm {α : Type} (members : List (String × α)) :
    (sortByKey members).Perm members :=
  List.perm_insertionSort _ _

/-- Sorting the members and then writing them is the same as sorting what is
written. -/
theorem sortByKey_map {α β : Type} (write : α → β)
    (members : List (String × α)) :
    sortByKey (members.map (Prod.map id write)) =
      (sortByKey members).map (Prod.map id write) := by
  unfold sortByKey
  symm
  apply List.map_insertionSort
  intro member _ other _
  rfl

/-- The text of a member of an object. -/
def writeMember (member : String × JsonValue) : List Char :=
  memberText (member.1, writeCanonicalJson floats member.2)

theorem writeCanonicalJson_object (map : List (String × JsonValue)) :
    writeCanonicalJson floats (.object map) =
      UniqueReading.enclose '\x7b' ',' '\x7d'
        ((sortByKey map).map (writeMember floats)) := by
  rw [writeCanonicalJson, writeMembers_eq, sortByKey_map, List.map_map]
  rfl

theorem writeCanonicalJson_array (arr : List JsonValue) :
    writeCanonicalJson floats (.array arr) =
      UniqueReading.enclose '[' ',' ']'
        (arr.map (writeCanonicalJson floats)) := by
  rw [writeCanonicalJson, writeAll_eq]

/-! ## Strings -/

def hexValue (c : Char) : Nat :=
  if c.isDigit then c.toNat - 48 else c.toNat - 87

theorem hexValue_digitChar {digit : Nat} (small : digit < 16) :
    hexValue (Nat.digitChar digit) = digit := by
  have values : ∀ digit < 16, hexValue (Nat.digitChar digit) = digit := by
    decide
  exact values digit small

/-- Read back one character of a string. -/
def readChar : List Char → Option (Char × List Char)
  | '\\' :: 'b' :: rest => some ('\x08', rest)
  | '\\' :: 't' :: rest => some ('\t', rest)
  | '\\' :: 'n' :: rest => some ('\n', rest)
  | '\\' :: 'f' :: rest => some ('\x0c', rest)
  | '\\' :: 'r' :: rest => some ('\x0d', rest)
  | '\\' :: 'u' :: '0' :: '0' :: high :: low :: rest =>
      some (Char.ofNat (16 * hexValue high + hexValue low), rest)
  | '\\' :: c :: rest => some (c, rest)
  | c :: rest => some (c, rest)
  | [] => none

theorem readChar_escapeChar (c : Char) (rest : List Char) :
    readChar (escapeChar c ++ rest) = some (c, rest) := by
  unfold escapeChar
  split_ifs with quote backslash backspace tab newline feed ret control
  · rw [quote]; rfl
  · rw [backslash]; rfl
  · rw [backspace]; rfl
  · rw [tab]; rfl
  · rw [newline]; rfl
  · rw [feed]; rfl
  · rw [ret]; rfl
  · have digits : 16 * (c.toNat / 16) + c.toNat % 16 = c.toNat := by omega
    simp only [List.cons_append, List.nil_append, readChar]
    rw [hexValue_digitChar (by omega), hexValue_digitChar (by omega), digits,
      Char.ofNat_toNat]
  · rw [List.singleton_append]
    rw [readChar.eq_def]
    split <;> simp_all

/-- No character is written as another one and more. -/
theorem escapeChar_append_inj {c d : Char} {rest otherRest : List Char}
    (same : escapeChar c ++ rest = escapeChar d ++ otherRest) :
    c = d ∧ rest = otherRest := by
  have read := readChar_escapeChar c rest
  rw [same, readChar_escapeChar, Option.some.injEq, Prod.mk.injEq] at read
  exact ⟨read.1.symm, read.2.symm⟩

/-- An escaped character does not begin with a quotation mark. -/
theorem escapeChar_begins (c : Char) :
    ∃ symbol text, escapeChar c = symbol :: text ∧ symbol ≠ '"' := by
  unfold escapeChar
  split_ifs with quote
  all_goals first
    | exact ⟨_, _, rfl, by decide⟩
    | exact ⟨_, _, rfl, quote⟩

theorem stringText_append_inj {value other : String}
    {rest otherRest : List Char}
    (same : stringText value ++ rest = stringText other ++ otherRest) :
    value = other ∧ rest = otherRest := by
  suffices chars : ∀ first second : List Char,
      first.flatMap escapeChar ++ '"' :: rest =
        second.flatMap escapeChar ++ '"' :: otherRest →
      first = second ∧ rest = otherRest by
    simp only [stringText, List.cons_append, List.append_assoc,
      List.nil_append, List.cons.injEq, true_and] at same
    obtain ⟨equal, rests⟩ := chars _ _ same
    exact ⟨String.toList_injective equal, rests⟩
  intro first
  induction first with
  | nil =>
      intro second same
      cases second with
      | nil => exact ⟨rfl, (List.cons.inj same).2⟩
      | cons d second =>
          obtain ⟨symbol, text, escaped, notQuote⟩ := escapeChar_begins d
          simp only [List.flatMap_cons, escaped, List.flatMap_nil,
            List.nil_append, List.cons_append, List.cons.injEq] at same
          exact absurd same.1.symm notQuote
  | cons c first ih =>
      intro second same
      cases second with
      | nil =>
          obtain ⟨symbol, text, escaped, notQuote⟩ := escapeChar_begins c
          simp only [List.flatMap_cons, escaped, List.flatMap_nil,
            List.nil_append, List.cons_append, List.cons.injEq] at same
          exact absurd same.1 notQuote
      | cons d second =>
          simp only [List.flatMap_cons, List.append_assoc] at same
          obtain ⟨equal, others⟩ := escapeChar_append_inj same
          obtain ⟨equals, rests⟩ := ih second others
          exact ⟨by rw [equal, equals], rests⟩

/-! ## Numbers -/

theorem isNumberChar_of_isDigit {c : Char} (digit : c.isDigit = true) :
    isNumberChar c = true := by
  simp [isNumberChar, digit]

theorem decimal_numberChars {number : Nat} :
    ∀ c ∈ Nat.toDigits 10 number, isNumberChar c = true := by
  intro c member
  exact isNumberChar_of_isDigit
    (Nat.isDigit_of_mem_toDigits (by decide) (by decide) member)

theorem numberText_chars {number : JsonNumber}
    (wellFormed : number.WellFormed) :
    ∀ c ∈ numberText floats number, isNumberChar c = true := by
  cases number with
  | posInt value => exact decimal_numberChars
  | negInt value =>
      intro c member
      rw [numberText, List.mem_cons] at member
      obtain rfl | digits := member
      · rfl
      · exact decimal_numberChars c digits
  | float bits => exact floats.numberChars bits wellFormed

theorem decimal_injective : Function.Injective (Nat.toDigits 10) := by
  intro number other same
  have read := congrArg (Nat.ofDigitChars 10 · 0) same
  simpa only [Nat.ofDigitChars_toDigits (b := 10) (by decide) (by decide)]
    using read

/-- The text of an integer is not the one of a float. -/
theorem floatText_ne {bits : UInt64} (finite : FiniteBits bits)
    {text : List Char}
    (integral : ∀ c ∈ text, c = '-' ∨ c.isDigit = true) :
    floats.text bits ≠ text := by
  intro same
  have shown := floats.fractional bits finite
  rw [same] at shown
  obtain point | exponent := shown
  · exact absurd (integral _ point) (by decide)
  · exact absurd (integral _ exponent) (by decide)

theorem integerText_integral (value : Int64) :
    ∀ c ∈ '-' :: Nat.toDigits 10 value.toInt.natAbs,
      c = '-' ∨ c.isDigit = true := by
  intro c member
  obtain sign | digit := List.mem_cons.mp member
  · exact .inl sign
  · exact .inr (Nat.isDigit_of_mem_toDigits (by decide) (by decide) digit)

theorem decimal_ne_negative (number : Nat) (digits : List Char) :
    Nat.toDigits 10 number ≠ '-' :: digits := by
  intro same
  have digit : '-'.isDigit = true :=
    Nat.isDigit_of_mem_toDigits (by decide) (by decide)
      (same ▸ List.mem_cons_self : '-' ∈ Nat.toDigits 10 number)
  exact absurd digit (by decide)

theorem numberText_injective {number other : JsonNumber}
    (wellFormed : number.WellFormed) (otherWellFormed : other.WellFormed)
    (same : numberText floats number = numberText floats other) :
    number = other := by
  have decimalIntegral : ∀ value : UInt64,
      ∀ c ∈ Nat.toDigits 10 value.toNat, c = '-' ∨ c.isDigit = true :=
    fun value c member =>
      .inr (Nat.isDigit_of_mem_toDigits (by decide) (by decide) member)
  cases number with
  | posInt value =>
      cases other with
      | posInt value' => rw [UInt64.toNat_inj.mp (decimal_injective same)]
      | negInt value' => exact absurd same (decimal_ne_negative _ _)
      | float bits =>
          exact absurd same.symm
            (floatText_ne floats otherWellFormed (decimalIntegral value))
  | negInt value =>
      cases other with
      | posInt value' => exact absurd same.symm (decimal_ne_negative _ _)
      | negInt value' =>
          have magnitudes := decimal_injective (List.cons.inj same).2
          have negative : value.toInt < 0 := wellFormed
          have otherNegative : value'.toInt < 0 := otherWellFormed
          have equal : value.toInt = value'.toInt := by omega
          rw [Int64.toInt_inj.mp equal]
      | float bits =>
          exact absurd same.symm
            (floatText_ne floats otherWellFormed (integerText_integral value))
  | float bits =>
      cases other with
      | posInt value' =>
          exact absurd same
            (floatText_ne floats wellFormed (decimalIntegral value'))
      | negInt value' =>
          exact absurd same
            (floatText_ne floats wellFormed (integerText_integral value'))
      | float bits' =>
          rw [floats.injective wellFormed otherWellFormed same]

theorem numberText_ne_nil {number : JsonNumber}
    (wellFormed : number.WellFormed) : numberText floats number ≠ [] := by
  cases number with
  | posInt value => exact Nat.toDigits_ne_nil
  | negInt value => exact List.cons_ne_nil _ _
  | float bits =>
      exact floatText_ne floats wellFormed fun c member =>
        absurd member List.not_mem_nil

/-! ## Values -/

/-- What may follow a value: nothing, a comma or a closing bracket. -/
def Follows (rest : List Char) : Prop :=
  ∀ c ∈ rest.head?, isNumberChar c = false

/-- The kinds of values, told apart by the first character of a text. -/
inductive Kind where
  | null
  | bool
  | number
  | string
  | array
  | object

def kindOf : JsonValue → Kind
  | .null => .null
  | .bool _ => .bool
  | .number _ => .number
  | .string _ => .string
  | .array _ => .array
  | .object _ => .object

def kindOfChar (c : Char) : Kind :=
  if isNumberChar c then .number
  else if c = 'n' then .null
  else if c = '"' then .string
  else if c = '[' then .array
  else if c = '\x7b' then .object
  else .bool

theorem writeCanonicalJson_begins {value : JsonValue}
    (wellFormed : value.WellFormed) :
    ∃ c text, writeCanonicalJson floats value = c :: text ∧
      kindOfChar c = kindOf value ∧ c ≠ ']' := by
  cases wellFormed with
  | null => exact ⟨_, _, by rw [writeCanonicalJson], rfl, by decide⟩
  | bool value =>
      cases value with
      | false => exact ⟨_, _, by rw [writeCanonicalJson], rfl, by decide⟩
      | true => exact ⟨_, _, by rw [writeCanonicalJson], rfl, by decide⟩
  | number number wellFormed =>
      obtain ⟨c, text, written⟩ :=
        List.exists_cons_of_ne_nil (numberText_ne_nil floats wellFormed)
      have numberChar := numberText_chars floats wellFormed c
        (by rw [written]; exact List.mem_cons_self)
      refine ⟨c, text, by rw [writeCanonicalJson, written], ?_, ?_⟩
      · rw [kindOfChar, if_pos numberChar]; rfl
      · rintro rfl
        exact absurd numberChar (by decide)
  | string value =>
      exact ⟨_, _, by rw [writeCanonicalJson]; rfl, rfl, by decide⟩
  | array values _ =>
      exact ⟨_, _, by rw [writeCanonicalJson]; rfl, rfl, by decide⟩
  | object entries _ _ =>
      exact ⟨_, _, by rw [writeCanonicalJson]; rfl, rfl, by decide⟩

theorem kindOf_eq_of_same {value other : JsonValue}
    (wellFormed : value.WellFormed) (otherWellFormed : other.WellFormed)
    {rest otherRest : List Char}
    (same : writeCanonicalJson floats value ++ rest =
      writeCanonicalJson floats other ++ otherRest) :
    kindOf value = kindOf other := by
  obtain ⟨c, text, written, kind, _⟩ :=
    writeCanonicalJson_begins floats wellFormed
  obtain ⟨d, otherText, otherWritten, otherKind, _⟩ :=
    writeCanonicalJson_begins floats otherWellFormed
  rw [written, otherWritten] at same
  rw [← kind, ← otherKind, (List.cons.inj same).1]

theorem writeMember_reads {member : String × JsonValue}
    (reads : UniqueReading.ReadsUniquely (writeCanonicalJson floats) Follows
      JsonValue.WellFormed JsonValue.Reordered member.2) :
    UniqueReading.ReadsUniquely (writeMember floats) Follows
      (fun member => member.2.WellFormed)
      (fun member other =>
        member.1 = other.1 ∧ JsonValue.Reordered member.2 other.2) member := by
  intro other rest otherRest valid follows otherFollows same
  simp only [writeMember, memberText, List.append_assoc, List.cons_append]
    at same
  obtain ⟨keys, values⟩ := stringText_append_inj same
  obtain ⟨reordered, rests⟩ :=
    reads other.2 rest otherRest valid follows otherFollows
      (List.cons.inj values).2
  exact ⟨⟨keys, reordered⟩, rests⟩

/-- The members of two objects that agree once they are sorted. -/
theorem reordered_of_sorted {entries others : List (String × JsonValue)}
    (agree : List.Forall₂
      (fun member other =>
        member.1 = other.1 ∧ JsonValue.Reordered member.2 other.2)
      (sortByKey entries) (sortByKey others)) :
    JsonValue.Reordered (.object entries) (.object others) := by
  apply JsonValue.Reordered.object (sortByKey_perm entries).symm
    (sortByKey_perm others).symm
  · rw [← List.forall₂_eq_eq_eq, List.forall₂_map_left_iff,
      List.forall₂_map_right_iff]
    exact agree.imp fun _ _ equal => equal.1
  · rw [List.forall₂_map_left_iff, List.forall₂_map_right_iff]
    exact agree.imp fun _ _ equal => equal.2

/-- The canonical text of a value, whatever follows it, shows the value up to
the order of object members. -/
theorem writeCanonicalJson_reads {value : JsonValue}
    (wellFormed : value.WellFormed) :
    UniqueReading.ReadsUniquely (writeCanonicalJson floats) Follows
      JsonValue.WellFormed JsonValue.Reordered value := by
  induction wellFormed with
  | null =>
      intro other rest otherRest valid _ _ same
      have kinds := kindOf_eq_of_same floats .null valid same
      cases valid with
      | null => exact ⟨.null, List.append_cancel_left same⟩
      | _ => cases kinds
  | bool value =>
      intro other rest otherRest valid _ _ same
      have kinds := kindOf_eq_of_same floats (.bool value) valid same
      cases valid with
      | bool other =>
          cases value <;> cases other
          · exact ⟨.bool _, List.append_cancel_left same⟩
          · exact absurd (List.cons.inj same).1 (by decide)
          · exact absurd (List.cons.inj same).1 (by decide)
          · exact ⟨.bool _, List.append_cancel_left same⟩
      | _ => cases kinds
  | number number wellFormed =>
      intro other rest otherRest valid follows otherFollows same
      have kinds := kindOf_eq_of_same floats (.number number wellFormed) valid
        same
      cases valid with
      | number other otherWellFormed =>
          rw [writeCanonicalJson, writeCanonicalJson] at same
          obtain ⟨texts, rests⟩ := UniqueReading.append_inj_of_symbols
            (numberText_chars floats wellFormed)
            (numberText_chars floats otherWellFormed) follows otherFollows same
          rw [numberText_injective floats wellFormed otherWellFormed texts]
          exact ⟨.number other, rests⟩
      | _ => cases kinds
  | string value =>
      intro other rest otherRest valid _ _ same
      have kinds := kindOf_eq_of_same floats (.string value) valid same
      cases valid with
      | string other =>
          rw [writeCanonicalJson, writeCanonicalJson] at same
          obtain ⟨equal, rests⟩ := stringText_append_inj same
          rw [equal]
          exact ⟨.string other, rests⟩
      | _ => cases kinds
  | array values wellFormed ih =>
      intro other rest otherRest valid _ _ same
      have kinds := kindOf_eq_of_same floats (.array values wellFormed) valid
        same
      cases valid with
      | array others otherWellFormed =>
          rw [writeCanonicalJson_array, writeCanonicalJson_array] at same
          obtain ⟨members, rests⟩ :=
            UniqueReading.enclose_reads '[' (by decide)
              (fun _ => by simp [Follows, isNumberChar])
              (fun _ => by simp [Follows, isNumberChar])
              ih otherWellFormed
              (fun value member => by
                obtain ⟨c, text, written, _, notClosing⟩ :=
                  writeCanonicalJson_begins floats
                    ((List.mem_append.mp member).elim (wellFormed value)
                      (otherWellFormed value))
                exact ⟨c, text, written, notClosing⟩)
              same
          exact ⟨.array members, rests⟩
      | _ => cases kinds
  | object entries distinct wellFormed ih =>
      intro other rest otherRest valid _ _ same
      have kinds := kindOf_eq_of_same floats
        (.object entries distinct wellFormed) valid same
      cases valid with
      | object others _ otherWellFormed =>
          rw [writeCanonicalJson_object, writeCanonicalJson_object] at same
          obtain ⟨members, rests⟩ :=
            UniqueReading.enclose_reads '\x7b' (by decide)
              (fun _ => by simp [Follows, isNumberChar])
              (fun _ => by simp [Follows, isNumberChar])
              (fun member listed => writeMember_reads floats
                (ih member ((sortByKey_perm entries).mem_iff.mp listed)))
              (fun member listed => otherWellFormed member
                ((sortByKey_perm others).mem_iff.mp listed))
              (fun member _ => ⟨'"', _, rfl, by decide⟩)
              same
          exact ⟨reordered_of_sorted members, rests⟩
      | _ => cases kinds

/-- Only values equal up to the order of object members have the same
canonical text. -/
theorem reordered_of_same {value other : JsonValue}
    (wellFormed : value.WellFormed) (otherWellFormed : other.WellFormed)
    (same : writeCanonicalJson floats value = writeCanonicalJson floats other) :
    JsonValue.Reordered value other := by
  have nothing : Follows [] := fun c absent => nomatch absent
  exact (writeCanonicalJson_reads floats wellFormed other [] [] otherWellFormed
    nothing nothing (by rw [same])).1

/-! ## Independence of the order -/

theorem sortByKey_eq_of_perm {α : Type} {members others : List (String × α)}
    (permuted : members.Perm others)
    (distinct : (members.map Prod.fst).Nodup) :
    sortByKey members = sortByKey others := by
  have total : Std.Total (fun member other : String × α =>
      member.1 ≤ other.1) :=
    ⟨fun member other => le_total member.1 other.1⟩
  have transitive : IsTrans (String × α) (fun member other =>
      member.1 ≤ other.1) :=
    ⟨fun _ _ _ first second => le_trans first second⟩
  have samePermuted : (sortByKey members).Perm (sortByKey others) :=
    (sortByKey_perm members).trans
      (permuted.trans (sortByKey_perm others).symm)
  apply List.Perm.eq_of_pairwise _ (List.pairwise_insertionSort _ _)
    (List.pairwise_insertionSort _ _) samePermuted
  intro member other listed otherListed before after
  exact List.inj_on_of_nodup_map distinct
    ((sortByKey_perm members).mem_iff.mp listed)
    (permuted.mem_iff.mpr ((sortByKey_perm others).mem_iff.mp otherListed))
    (le_antisymm before after)

theorem writeMembers_eq_zip (members : List (String × JsonValue)) :
    writeMembers floats members =
      (members.map Prod.fst).zip
        ((members.map Prod.snd).map (writeCanonicalJson floats)) := by
  induction members with
  | nil => rfl
  | cons member members ih => rw [writeMembers, ih]; rfl

/-- Members that can be listed with the same keys and texts are written as the
same members. -/
theorem writeMembers_perm
    {entries others listed otherListed : List (String × JsonValue)}
    (permuted : entries.Perm listed) (otherPermuted : others.Perm otherListed)
    (keys : listed.map Prod.fst = otherListed.map Prod.fst)
    (texts : (listed.map Prod.snd).map (writeCanonicalJson floats) =
      (otherListed.map Prod.snd).map (writeCanonicalJson floats)) :
    (writeMembers floats entries).Perm (writeMembers floats others) := by
  have written : writeMembers floats listed =
      writeMembers floats otherListed := by
    rw [writeMembers_eq_zip, writeMembers_eq_zip, keys, texts]
  have first := permuted.map (Prod.map id (writeCanonicalJson floats))
  have second := otherPermuted.map (Prod.map id (writeCanonicalJson floats))
  rw [← writeMembers_eq, ← writeMembers_eq] at first second
  rw [written] at first
  exact first.trans second.symm

theorem texts_eq_of_reordered {values others : List JsonValue}
    (members : List.Forall₂ JsonValue.Reordered values others)
    (otherWellFormed : ∀ other ∈ others, other.WellFormed)
    (written : ∀ value ∈ values, ∀ other : JsonValue, other.WellFormed →
      JsonValue.Reordered value other →
        writeCanonicalJson floats value = writeCanonicalJson floats other) :
    values.map (writeCanonicalJson floats) =
      others.map (writeCanonicalJson floats) := by
  induction members with
  | nil => rfl
  | cons reordered _ ih =>
      have first := written _ List.mem_cons_self _
        (otherWellFormed _ List.mem_cons_self) reordered
      have others := ih
        (fun other member =>
          otherWellFormed other (List.mem_cons_of_mem _ member))
        (fun value member => written value (List.mem_cons_of_mem _ member))
      rw [List.map_cons, List.map_cons, first, others]

/-- Values equal up to the order of object members have the same canonical
text. -/
theorem same_of_reordered {value other : JsonValue}
    (wellFormed : value.WellFormed) (otherWellFormed : other.WellFormed)
    (reordered : JsonValue.Reordered value other) :
    writeCanonicalJson floats value = writeCanonicalJson floats other := by
  induction wellFormed generalizing other with
  | null => cases reordered; rfl
  | bool value => cases reordered; rfl
  | number number _ => cases reordered; rfl
  | string value => cases reordered; rfl
  | array values _ ih =>
      cases reordered with
      | array members =>
          cases otherWellFormed with
          | array others otherWellFormed =>
              rw [writeCanonicalJson_array, writeCanonicalJson_array,
                texts_eq_of_reordered floats members otherWellFormed
                  fun value member other valid => ih value member valid]
  | object entries distinct _ ih =>
      cases reordered with
      | @object _ others listed otherListed permuted otherPermuted keys
          values =>
          cases otherWellFormed with
          | object others _ otherWellFormed =>
              have texts := texts_eq_of_reordered floats values
                (by
                  intro other member
                  obtain ⟨entry, mem, rfl⟩ := List.mem_map.mp member
                  exact otherWellFormed entry (otherPermuted.mem_iff.mpr mem))
                (by
                  intro value member other valid
                  obtain ⟨entry, mem, rfl⟩ := List.mem_map.mp member
                  exact ih entry (permuted.mem_iff.mpr mem) valid)
              have membersPermuted := writeMembers_perm floats permuted
                otherPermuted keys texts
              have sorted := sortByKey_eq_of_perm membersPermuted (by
                rw [writeMembers_eq, List.map_map]
                exact distinct)
              rw [writeCanonicalJson, writeCanonicalJson, sorted]

/-- The canonical text of a value tells it up to the order of object members. -/
theorem same_iff_reordered {value other : JsonValue}
    (wellFormed : value.WellFormed) (otherWellFormed : other.WellFormed) :
    writeCanonicalJson floats value = writeCanonicalJson floats other ↔
      JsonValue.Reordered value other :=
  ⟨reordered_of_same floats wellFormed otherWellFormed,
    same_of_reordered floats wellFormed otherWellFormed⟩

end CanonicalJson

end TorchInference
