import Mathlib.Data.List.Basic
import Mathlib.Tactic.SplitIfs

/-!
# Lossy decoding of UTF-8

A byte string is read character by character.  Where no character can be read,
the longest beginning of one, or else a single byte, is replaced by U+FFFD.
A text is no longer than its bytes, and it is as long only if every byte is
read for itself.
-/

namespace LossyUtf8

/-- The UTF-8 encoding of a text. -/
def encode (text : List Char) : List UInt8 :=
  text.flatMap String.utf8EncodeChar

/-- The character at the beginning of a byte string. -/
def firstChar (bytes : List UInt8) : Option Char :=
  bytes.toByteArray.utf8DecodeChar? 0

def replacement : Char :=
  '\uFFFD'

def isTail (byte : UInt8) : Bool :=
  0x80 ≤ byte && byte ≤ 0xBF

/-- Whether a byte may follow the first byte of a character with three or four
bytes. -/
def maySecond (first second : UInt8) : Bool :=
  if first = 0xE0 then 0xA0 ≤ second && second ≤ 0xBF
  else if first = 0xED then 0x80 ≤ second && second ≤ 0x9F
  else if first = 0xF0 then 0x90 ≤ second && second ≤ 0xBF
  else if first = 0xF4 then 0x80 ≤ second && second ≤ 0x8F
  else isTail second

/-- How many bytes are replaced together where no character can be read: the
beginning of a character as far as it goes, or one byte. -/
def brokenLength : List UInt8 → Nat
  | first :: second :: rest =>
      if 0xE0 ≤ first ∧ first ≤ 0xEF ∧ maySecond first second then 2
      else if 0xF0 ≤ first ∧ first ≤ 0xF4 ∧ maySecond first second then
        if rest.head?.any isTail then 3 else 2
      else 1
  | _ => 1

/-- Decode with one step of fuel for each character. -/
def decodeFrom : Nat → List UInt8 → List Char
  | 0, _ => []
  | _, [] => []
  | fuel + 1, bytes =>
      match firstChar bytes with
      | some c => c :: decodeFrom fuel (bytes.drop c.utf8Size)
      | none => replacement :: decodeFrom fuel (bytes.drop (brokenLength bytes))

/-- `String::from_utf8_lossy`. -/
def decode (bytes : List UInt8) : List Char :=
  decodeFrom bytes.length bytes

/-! ## Single characters -/

theorem firstChar_encode_append (c : Char) (bytes : List UInt8) :
    firstChar (String.utf8EncodeChar c ++ bytes) = some c := by
  rw [firstChar, List.toByteArray_append]
  exact ByteArray.utf8DecodeChar?_utf8EncodeChar_append

/-- A character that is read stands at the beginning of the bytes. -/
theorem take_of_firstChar {bytes : List UInt8} {c : Char}
    (isFirst : firstChar bytes = some c) :
    bytes.take c.utf8Size = String.utf8EncodeChar c := by
  have encoded :=
    String.toByteArray_utf8EncodeChar_of_utf8DecodeChar?_eq_some isFirst
  have data := congrArg (fun array => array.data.toList) encoded
  simpa using data.symm

theorem utf8Size_le_of_firstChar {bytes : List UInt8} {c : Char}
    (isFirst : firstChar bytes = some c) : c.utf8Size ≤ bytes.length := by
  have taken := congrArg List.length (take_of_firstChar isFirst)
  rw [List.length_take, String.length_utf8EncodeChar] at taken
  omega

theorem brokenLength_le (byte : UInt8) (rest : List UInt8) :
    brokenLength (byte :: rest) ≤ rest.length + 1 := by
  match rest with
  | [] => exact Nat.le_refl 1
  | second :: rest =>
      simp only [brokenLength, List.length_cons]
      split_ifs with three four third
      · omega
      · cases rest with
        | nil => cases third
        | cons byte rest => simp
      · omega
      · omega

theorem brokenLength_pos (bytes : List UInt8) : 1 ≤ brokenLength bytes := by
  unfold brokenLength
  split
  · split_ifs <;> omega
  · exact Nat.le_refl 1

/-- The character of an ASCII byte. -/
def asciiChar (byte : UInt8) : Char :=
  Char.ofNat byte.toNat

theorem encode_asciiChar {byte : UInt8} (ascii : byte < 128) :
    String.utf8EncodeChar (asciiChar byte) = [byte] := by
  have small : byte.toNat < 128 := UInt8.lt_iff_toNat_lt.mp ascii
  have all : ∀ n : Fin 128,
      String.utf8EncodeChar (Char.ofNat n) = [UInt8.ofNat n] := by
    decide +kernel
  have here := all ⟨byte.toNat, small⟩
  rwa [UInt8.ofNat_toNat] at here

theorem firstChar_ascii {byte : UInt8} (ascii : byte < 128)
    (rest : List UInt8) :
    firstChar (byte :: rest) = some (asciiChar byte) := by
  have encoded := firstChar_encode_append (asciiChar byte) rest
  rwa [encode_asciiChar ascii] at encoded

/-- A character of one byte is that of an ASCII byte. -/
theorem ascii_of_utf8Size_eq_one {byte : UInt8} {rest : List UInt8} {c : Char}
    (isFirst : firstChar (byte :: rest) = some c) (single : c.utf8Size = 1) :
    byte < 128 ∧ c = asciiChar byte := by
  have taken := take_of_firstChar isFirst
  rw [single, String.utf8EncodeChar_eq_singleton single] at taken
  have value : byte = c.val.toUInt8 := by simpa using taken
  have small : c.val ≤ 127 := Char.utf8Size_eq_one_iff.mp single
  have bound : c.val.toNat ≤ 127 := UInt32.le_iff_toNat_le.mp small
  have toNat : byte.toNat = c.val.toNat := by
    rw [value, UInt32.toNat_toUInt8]
    omega
  refine ⟨UInt8.lt_iff_toNat_lt.mpr ?_, ?_⟩
  · rw [toNat]
    exact Nat.lt_succ_of_le bound
  · rw [asciiChar, toNat]
    exact (Char.ofNat_toNat c).symm

/-! ## Whole texts -/

theorem decodeFrom_cons {fuel : Nat} {bytes : List UInt8}
    (nonempty : bytes ≠ []) :
    decodeFrom (fuel + 1) bytes =
      match firstChar bytes with
      | some c => c :: decodeFrom fuel (bytes.drop c.utf8Size)
      | none =>
          replacement :: decodeFrom fuel (bytes.drop (brokenLength bytes)) := by
  cases bytes with
  | nil => exact absurd rfl nonempty
  | cons byte rest => rfl

@[simp]
theorem decodeFrom_nil (fuel : Nat) : decodeFrom fuel [] = [] := by
  cases fuel <;> rfl

/-- A text is decoded to itself, whatever fuel is left. -/
theorem decodeFrom_encode {fuel : Nat} {text : List Char}
    (enough : text.length ≤ fuel) : decodeFrom fuel (encode text) = text := by
  induction text generalizing fuel with
  | nil => exact decodeFrom_nil fuel
  | cons c text ih =>
      obtain ⟨fuel, rfl⟩ : ∃ before, fuel = before + 1 :=
        ⟨fuel - 1, by rw [List.length_cons] at enough; omega⟩
      have bytes : encode (c :: text) =
          String.utf8EncodeChar c ++ encode text := List.flatMap_cons
      have nonempty : encode (c :: text) ≠ [] := by
        rw [bytes]
        exact List.append_ne_nil_of_left_ne_nil
          String.utf8EncodeChar_ne_nil _
      have dropped : (String.utf8EncodeChar c ++ encode text).drop
          c.utf8Size = encode text := by
        rw [← String.length_utf8EncodeChar]
        exact List.drop_left
      rw [decodeFrom_cons nonempty, bytes, firstChar_encode_append]
      simp only [dropped]
      rw [ih (Nat.le_of_succ_le_succ enough)]

theorem length_le_length_encode (text : List Char) :
    text.length ≤ (encode text).length := by
  induction text with
  | nil => exact Nat.le_refl 0
  | cons c text ih =>
      have size := c.utf8Size_pos
      rw [encode, List.flatMap_cons, List.length_append,
        String.length_utf8EncodeChar, List.length_cons, ← encode]
      omega

theorem decode_encode (text : List Char) : decode (encode text) = text :=
  decodeFrom_encode (length_le_length_encode text)

/-- A text has at most one character for each byte. -/
theorem length_decodeFrom_le (fuel : Nat) (bytes : List UInt8) :
    (decodeFrom fuel bytes).length ≤ bytes.length := by
  induction fuel generalizing bytes with
  | zero => exact Nat.zero_le _
  | succ fuel ih =>
      cases bytes with
      | nil => exact Nat.le_refl 0
      | cons byte rest =>
          rw [decodeFrom_cons (List.cons_ne_nil byte rest)]
          split
          · next c _ =>
              have size := c.utf8Size_pos
              have later := ih ((byte :: rest).drop c.utf8Size)
              rw [List.length_drop] at later
              simp only [List.length_cons] at later ⊢
              omega
          · have size := brokenLength_pos (byte :: rest)
            have later := ih ((byte :: rest).drop (brokenLength (byte :: rest)))
            rw [List.length_drop] at later
            simp only [List.length_cons] at later ⊢
            omega

/-- What a byte is read as when it is read for itself. -/
def singleChar (byte : UInt8) : Char :=
  if byte < 128 then asciiChar byte else replacement

/-- A text that is as long as its bytes reads each of them for itself. -/
theorem decodeFrom_eq_map {fuel : Nat} {bytes : List UInt8}
    (long : bytes.length ≤ (decodeFrom fuel bytes).length) :
    decodeFrom fuel bytes = bytes.map singleChar := by
  induction fuel generalizing bytes with
  | zero =>
      rw [List.eq_nil_of_length_eq_zero (Nat.le_zero.mp long)]
      rfl
  | succ fuel ih =>
      cases bytes with
      | nil => rfl
      | cons byte rest =>
          rw [decodeFrom_cons (List.cons_ne_nil byte rest)] at long ⊢
          have shorter := length_decodeFrom_le fuel
          cases isFirst : firstChar (byte :: rest) with
          | some c =>
              have size := c.utf8Size_pos
              have later := shorter ((byte :: rest).drop c.utf8Size)
              simp only [isFirst, List.length_cons, List.length_drop]
                at long later
              have within := utf8Size_le_of_firstChar isFirst
              rw [List.length_cons] at within
              have single : c.utf8Size = 1 := by omega
              obtain ⟨ascii, rfl⟩ := ascii_of_utf8Size_eq_one isFirst single
              simp only [single, List.drop_succ_cons, List.drop_zero] at long ⊢
              rw [ih (by omega), List.map_cons, singleChar, if_pos ascii]
          | none =>
              have size := brokenLength_pos (byte :: rest)
              have later :=
                shorter ((byte :: rest).drop (brokenLength (byte :: rest)))
              simp only [isFirst, List.length_cons, List.length_drop]
                at long later
              have within := brokenLength_le byte rest
              have single : brokenLength (byte :: rest) = 1 := by omega
              have notAscii : ¬ byte < 128 := fun ascii => by
                rw [firstChar_ascii ascii] at isFirst
                cases isFirst
              simp only [single, List.drop_succ_cons, List.drop_zero] at long ⊢
              rw [ih (by omega), List.map_cons, singleChar, if_neg notAscii]

theorem decode_eq_map {bytes : List UInt8}
    (long : bytes.length ≤ (decode bytes).length) :
    decode bytes = bytes.map singleChar :=
  decodeFrom_eq_map long

theorem encode_map_asciiChar {bytes : List UInt8}
    (ascii : ∀ byte ∈ bytes, byte < 128) :
    encode (bytes.map asciiChar) = bytes := by
  induction bytes with
  | nil => rfl
  | cons byte rest ih =>
      rw [List.map_cons, encode, List.flatMap_cons,
        encode_asciiChar (ascii byte List.mem_cons_self), ← encode,
        ih fun other member => ascii other (List.mem_cons_of_mem _ member)]
      rfl

theorem decode_ascii {bytes : List UInt8}
    (ascii : ∀ byte ∈ bytes, byte < 128) :
    decode bytes = bytes.map asciiChar := by
  conv_lhs => rw [← encode_map_asciiChar ascii]
  exact decode_encode _

/-- Three of the four bytes of a character are replaced together. -/
example : decode [0x61, 0xF0, 0x9F, 0x98, 0xC3, 0xA9] =
    ['a', replacement, 'é'] := by
  decide +kernel

/-! ## The bytes of a string -/

theorem loop_eq (bytes : ByteArray) (i : Nat) (read : List UInt8) :
    ByteArray.toList.loop bytes i read =
      read.reverse ++ bytes.data.toList.drop i := by
  induction left : bytes.size - i generalizing i read with
  | zero =>
      have length : bytes.data.toList.length = bytes.size := rfl
      rw [ByteArray.toList.loop, if_neg (by omega),
        List.drop_eq_nil_of_le (by omega), List.append_nil]
  | succ n ih =>
      have within : i < bytes.size := by omega
      have inList : i < bytes.data.toList.length := within
      have here : bytes.get! i = bytes.data.toList[i] :=
        getElem!_pos bytes.data i within
      rw [ByteArray.toList.loop, if_pos within, ih _ _ (by omega), here,
        List.drop_eq_getElem_cons inList, List.reverse_cons, List.append_assoc]
      rfl

theorem toList_toUTF8 (text : String) :
    text.toUTF8.toList = encode text.toList := by
  rw [ByteArray.toList, loop_eq, String.toUTF8, ← String.utf8Encode_toList,
    List.utf8Encode, List.toList_data_toByteArray]
  rfl

theorem ofNat_ne_zero {n : Nat} (positive : 0 < n) (small : n < 256) :
    0 ≠ UInt8.ofNat n := by
  intro zero
  have number := congrArg UInt8.toNat zero
  rw [UInt8.toNat_ofNat', UInt8.toNat_zero, Nat.mod_eq_of_lt small] at number
  omega

/-- Only the character NUL has the byte zero. -/
theorem eq_nul_of_zero_mem {c : Char} (zero : 0 ∈ String.utf8EncodeChar c) :
    c = '\x00' := by
  unfold String.utf8EncodeChar at zero
  by_contra other
  have positive : 0 < c.val.toNat := by
    apply Nat.pos_of_ne_zero
    intro isZero
    exact other (Char.ext (UInt32.toNat_inj.mp isZero))
  dsimp only at zero
  split_ifs at zero
  all_goals
    simp only [List.mem_cons, List.not_mem_nil, or_false] at zero
  · exact absurd zero (ofNat_ne_zero positive (by omega))
  · rcases zero with first | second
    · exact absurd first (ofNat_ne_zero (by omega) (by omega))
    · exact absurd second (ofNat_ne_zero (by omega) (by omega))
  · rcases zero with first | second | third
    · exact absurd first (ofNat_ne_zero (by omega) (by omega))
    · exact absurd second (ofNat_ne_zero (by omega) (by omega))
    · exact absurd third (ofNat_ne_zero (by omega) (by omega))
  · rcases zero with first | second | third | fourth
    · exact absurd first (ofNat_ne_zero (by omega) (by omega))
    · exact absurd second (ofNat_ne_zero (by omega) (by omega))
    · exact absurd third (ofNat_ne_zero (by omega) (by omega))
    · exact absurd fourth (ofNat_ne_zero (by omega) (by omega))

theorem zero_not_mem_encode {text : List Char} (free : '\x00' ∉ text) :
    0 ∉ encode text := by
  intro zero
  obtain ⟨c, member, inside⟩ := List.mem_flatMap.mp zero
  rw [eq_nul_of_zero_mem inside] at member
  exact free member

theorem encode_injective : Function.Injective encode := by
  intro first second same
  rw [← decode_encode first, same, decode_encode]

end LossyUtf8

/-!
# Beginnings of encoded texts

A byte string that is cut anywhere in a text is the encoding of a beginning of
that text only if no character was cut.  Bytes are dropped from its end until
that is so, which leaves the longest such beginning.
-/

namespace LossyUtf8

/-- The text that some bytes are the encoding of. -/
def fromUtf8 (bytes : List UInt8) : Option (List Char) :=
  bytes.toByteArray.utf8Decode?.map Array.toList

theorem fromUtf8_encode (text : List Char) :
    fromUtf8 (encode text) = some text := by
  have decoded := List.utf8Decode?_utf8Encode (l := text)
  rw [List.utf8Encode] at decoded
  rw [fromUtf8, encode, decoded]
  rfl

theorem isSome_fromUtf8_iff {bytes : List UInt8} :
    (fromUtf8 bytes).isSome ↔ ∃ text, bytes = encode text := by
  constructor
  · intro decodes
    rw [fromUtf8, Option.isSome_map, ByteArray.isSome_utf8Decode?_iff]
      at decodes
    obtain ⟨text, same⟩ := decodes
    refine ⟨text, ?_⟩
    have data := congrArg (fun array => array.data.toList) same
    simpa [List.utf8Encode, encode] using data
  · rintro ⟨text, rfl⟩
    rw [fromUtf8_encode]
    rfl

/-- Drop bytes from the end until a text is left. -/
def popInvalid (bytes : List UInt8) : List UInt8 :=
  if (fromUtf8 bytes).isSome then bytes
  else popInvalid bytes.dropLast
termination_by bytes.length
decreasing_by
  rename_i invalid
  have nonempty : bytes ≠ [] := by
    rintro rfl
    exact invalid (isSome_fromUtf8_iff.mpr ⟨[], rfl⟩)
  have positive := List.length_pos_iff.mpr nonempty
  rw [List.length_dropLast]
  omega

theorem encode_cons (c : Char) (text : List Char) :
    encode (c :: text) = String.utf8EncodeChar c ++ encode text :=
  List.flatMap_cons

/-- Texts whose encodings begin in the same way do. -/
theorem beginning_of_encode {start text : List Char}
    (begins : encode start <+: encode text) : start <+: text := by
  induction start generalizing text with
  | nil => exact List.nil_prefix
  | cons c start ih =>
      obtain ⟨rest, whole⟩ := begins
      rw [encode_cons, List.append_assoc] at whole
      cases text with
      | nil =>
          exact absurd (List.append_eq_nil_iff.mp whole).1
            String.utf8EncodeChar_ne_nil
      | cons d text =>
          rw [encode_cons] at whole
          have first := congrArg firstChar whole
          rw [firstChar_encode_append, firstChar_encode_append] at first
          obtain rfl := Option.some.inj first
          have later := List.append_cancel_left whole
          exact List.cons_prefix_cons.mpr ⟨rfl, ih ⟨rest, later⟩⟩

/-- What is left is the longest beginning that is a text. -/
theorem popInvalid_eq {bytes best : List UInt8} (begins : best <+: bytes)
    (valid : (fromUtf8 best).isSome)
    (longest : ∀ other, other <+: bytes → (fromUtf8 other).isSome →
      other.length ≤ best.length) : popInvalid bytes = best := by
  induction bytes using popInvalid.induct with
  | case1 bytes here =>
      rw [popInvalid, if_pos here]
      exact (begins.eq_of_length_le (longest bytes List.prefix_rfl here)).symm
  | case2 bytes here ih =>
      have proper : best ≠ bytes := by
        rintro rfl
        exact here valid
      have nonempty : bytes ≠ [] := by
        rintro rfl
        exact proper (List.prefix_nil.mp begins)
      have shorter : best <+: bytes.dropLast := by
        rw [← List.dropLast_concat_getLast nonempty,
          List.prefix_concat_iff] at begins
        rcases begins with whole | begins
        · rw [List.dropLast_concat_getLast] at whole
          exact absurd whole proper
        · exact begins
      rw [popInvalid, if_neg here]
      exact ih shorter fun other starts =>
        longest other (starts.trans (List.dropLast_prefix bytes))

end LossyUtf8
