import TorchInference.LossyUtf8

/-!
# The vocabulary of the Whisper decoder

The vocabulary spells the bytes of its tokens with printable characters, one
for each byte.  The decoder maps the characters back with a table of signed
8-bit cells in which a negative cell stands for no byte, so that a byte from
128 on is not found and its character is kept as text.
-/

namespace TorchInference

open LossyUtf8

namespace WhisperOnnx

def timestampBegin : Int :=
  50364

/-- The bytes that stand for themselves. -/
def isPrintable (b : Nat) : Bool :=
  (33 ≤ b && b ≤ 126) || (161 ≤ b && b ≤ 172) || (174 ≤ b && b ≤ 255)

/-- The next number from which `char::from_u32` makes a character, with fuel
for the numbers that make none. -/
def skipInvalid : Nat → Nat → Nat
  | 0, n => n
  | fuel + 1, n =>
      if (256 + n).isValidChar then n else skipInvalid fuel (n + 1)

/-- One byte of the loop of `bytes_to_unicode`. -/
def assignChar (table : List Char × Nat) (b : Nat) : List Char × Nat :=
  if isPrintable b then (table.1 ++ [Char.ofNat b], table.2)
  else
    let n := skipInvalid 2048 table.2
    (table.1 ++ [Char.ofNat (256 + n)], n + 1)

def bytesToUnicode : List Char :=
  ((List.range 256).foldl assignChar ([], 0)).1

/-- A cast `as i8`. -/
def toI8 (b : Nat) : Int :=
  if b < 128 then b else (b : Int) - 256

/-- One byte of the loop of `u2b_table`. -/
def assignByte (table : List Int) (entry : Char × Nat) : List Int :=
  if entry.1.toNat < table.length then
    table.set entry.1.toNat (toI8 entry.2)
  else table

def u2bTable : List Int :=
  bytesToUnicode.zipIdx.foldl assignByte (List.replicate 512 (-1))

/-- What a character is read as when the table has a cell for it, and when it
has none. -/
def readCell (ch : Char) : Option Int → List UInt8
  | some cell =>
      if 0 ≤ cell then [UInt8.ofNat cell.toNat] else String.utf8EncodeChar ch
  | none => String.utf8EncodeChar ch

/-- The bytes of one character of a token. -/
def charBytes (ch : Char) : List UInt8 :=
  readCell ch u2bTable[ch.toNat]?

def tokenBytes (vocab : Int → Option String) (id : Int) : List UInt8 :=
  if timestampBegin ≤ id then []
  else
    match vocab id with
    | some s => s.toList.flatMap charBytes
    | none => []

def decodeTokens (tokenIds : List Int) (vocab : Int → Option String) :
    String :=
  String.ofList (decode (tokenIds.flatMap (tokenBytes vocab)))

/-! ## The spelling of bytes -/

/-- The character of a byte. -/
def byteChar (byte : UInt8) : Char :=
  bytesToUnicode.getD byte.toNat '\x00'

/-- A piece of a byte string as the vocabulary spells it. -/
def spelled (piece : List UInt8) : String :=
  String.ofList (piece.map byteChar)

/-- The tokens that are not timestamps are those of the pieces. -/
def Spells (vocab : Int → Option String) (tokenIds : List Int)
    (pieces : List (List UInt8)) : Prop :=
  List.Forall₂ (fun id piece => vocab id = some (spelled piece))
    (tokenIds.filter (· < timestampBegin)) pieces

/-- The decoder gives back the text of the bytes. -/
def DecodesBytes (vocab : Int → Option String) (tokenIds : List Int)
    (pieces : List (List UInt8)) : Prop :=
  decodeTokens tokenIds vocab = String.ofList (decode pieces.flatten) ∧
    ∀ text : String, encode text.toList = pieces.flatten →
      decodeTokens tokenIds vocab = text

/-- The number of the character of a byte: the bytes that do not stand for
themselves are numbered from 256 on. -/
def charCode (b : Nat) : Nat :=
  if isPrintable b then b
  else if b ≤ 32 then 256 + b
  else if b ≤ 160 then 289 + (b - 127)
  else 323

/-- The byte of a character number, as a cell of the table. -/
def cellOf (code : Nat) : Int :=
  if isPrintable code then toI8 code
  else if 256 ≤ code ∧ code ≤ 288 then toI8 (code - 256)
  else if 289 ≤ code ∧ code ≤ 322 then toI8 (code - 289 + 127)
  else if code = 323 then toI8 173
  else -1

/-- How many of the first bytes do not stand for themselves. -/
def otherBytes (count : Nat) : Nat :=
  if count ≤ 33 then count
  else if count ≤ 127 then 33
  else if count ≤ 161 then count - 94
  else if count ≤ 173 then 67
  else 68

theorem otherBytes_succ {b : Nat} (isByte : b < 256) :
    if isPrintable b then otherBytes (b + 1) = otherBytes b
    else charCode b = 256 + otherBytes b ∧ otherBytes (b + 1) = otherBytes b + 1 := by
  have all : ∀ b : Fin 256,
      if isPrintable b then otherBytes (b + 1) = otherBytes b
      else charCode b = 256 + otherBytes b ∧
        otherBytes (b + 1) = otherBytes b + 1 := by
    decide +kernel
  exact all ⟨b, isByte⟩

theorem otherBytes_le (count : Nat) : otherBytes count ≤ 68 := by
  unfold otherBytes
  split_ifs <;> omega

/-- The loop of `bytes_to_unicode` after its first bytes. -/
theorem foldl_assignChar {count : Nat} (areBytes : count ≤ 256) :
    (List.range count).foldl assignChar ([], 0) =
      ((List.range count).map fun b => Char.ofNat (charCode b),
        otherBytes count) := by
  induction count with
  | zero => rfl
  | succ b ih =>
      rw [List.range_succ, List.foldl_append, ih (by omega), List.map_append]
      change assignChar _ b = _
      unfold assignChar
      have next := otherBytes_succ (b := b) (by omega)
      cases printable : isPrintable b with
      | true =>
          rw [printable, if_pos rfl] at next
          have same : charCode b = b := if_pos printable
          simp [next, same]
      | false =>
          rw [printable, if_neg Bool.false_ne_true] at next
          have valid : (256 + otherBytes b).isValidChar := by
            have few := otherBytes_le b
            exact Or.inl (by omega)
          have here : skipInvalid 2048 (otherBytes b) = otherBytes b :=
            if_pos valid
          simp [here, next]

theorem bytesToUnicode_eq :
    bytesToUnicode = (List.range 256).map fun b => Char.ofNat (charCode b) :=
  congrArg Prod.fst (foldl_assignChar (Nat.le_refl 256))

theorem cellOf_charCode {b : Nat} (isByte : b < 256) :
    cellOf (charCode b) = toI8 b ∧ charCode b < 512 := by
  have all : ∀ b : Fin 256,
      cellOf (charCode b) = toI8 b ∧ charCode b < 512 := by
    decide +kernel
  exact all ⟨b, isByte⟩

theorem charCode_injective {b c : Nat} (isByte : b < 256) (isOther : c < 256)
    (same : charCode b = charCode c) : b = c := by
  have cells := (cellOf_charCode isByte).1
  rw [same, (cellOf_charCode isOther).1, toI8, toI8] at cells
  split_ifs at cells <;> omega

theorem byteChar_eq (byte : UInt8) :
    byteChar byte = Char.ofNat (charCode byte.toNat) := by
  rw [byteChar, bytesToUnicode_eq, List.getD_eq_getElem?_getD,
    List.getElem?_map, List.getElem?_range byte.toNat_lt]
  rfl

theorem toNat_charCode {b : Nat} (isByte : b < 256) :
    (Char.ofNat (charCode b)).toNat = charCode b := by
  have small := (cellOf_charCode isByte).2
  have valid : (charCode b).isValidChar := .inl (by omega)
  rw [Char.ofNat, dif_pos valid]
  rfl

theorem byteChar_toNat (byte : UInt8) :
    (byteChar byte).toNat = charCode byte.toNat := by
  rw [byteChar_eq]
  exact toNat_charCode byte.toNat_lt

/-! ## The table of cells -/

theorem length_assignByte (table : List Int) (entry : Char × Nat) :
    (assignByte table entry).length = table.length := by
  unfold assignByte
  split_ifs
  · exact List.length_set
  · rfl

/-- A cell keeps its byte when no other byte is assigned to it. -/
theorem foldl_assignByte_keeps {entries : List (Char × Nat)}
    {table : List Int} {code b : Nat}
    (holds : table[code]? = some (toI8 b))
    (only : ∀ entry ∈ entries, entry.1.toNat = code → entry.2 = b) :
    (entries.foldl assignByte table)[code]? = some (toI8 b) := by
  induction entries generalizing table with
  | nil => exact holds
  | cons entry entries ih =>
      refine ih ?_ fun other member =>
        only other (List.mem_cons_of_mem entry member)
      unfold assignByte
      split_ifs with fits
      · by_cases here : entry.1.toNat = code
        · rw [only entry List.mem_cons_self here, here]
          exact List.getElem?_set_self (here ▸ fits)
        · rw [List.getElem?_set_ne here]
          exact holds
      · exact holds

theorem foldl_assignByte_of_mem {entries : List (Char × Nat)}
    (table : List Int) {c : Char} {b : Nat} (member : (c, b) ∈ entries)
    (fits : c.toNat < table.length)
    (only : ∀ entry ∈ entries, entry.1.toNat = c.toNat → entry.2 = b) :
    (entries.foldl assignByte table)[c.toNat]? = some (toI8 b) := by
  induction entries generalizing table with
  | nil => cases member
  | cons entry entries ih =>
      have onlyTail : ∀ other ∈ entries,
          other.1.toNat = c.toNat → other.2 = b :=
        fun other inTail => only other (List.mem_cons_of_mem entry inTail)
      rw [List.foldl_cons]
      rcases List.mem_cons.mp member with rfl | later
      · refine foldl_assignByte_keeps ?_ onlyTail
        rw [assignByte, if_pos fits]
        exact List.getElem?_set_self fits
      · exact ih _ later (by rwa [length_assignByte]) onlyTail

/-- The entries of the table of characters. -/
theorem mem_zipIdx_bytesToUnicode {entry : Char × Nat} :
    entry ∈ bytesToUnicode.zipIdx ↔
      entry.2 < 256 ∧ entry.1 = Char.ofNat (charCode entry.2) := by
  rw [List.mem_zipIdx_iff_getElem?, bytesToUnicode_eq, List.getElem?_map]
  by_cases isByte : entry.2 < 256
  · rw [List.getElem?_range isByte]
    simp only [Option.map_some, Option.some.injEq, isByte, true_and]
    exact eq_comm
  · rw [List.getElem?_eq_none (by simpa using isByte)]
    simp [isByte]

theorem getElem?_u2bTable {b : Nat} (isByte : b < 256) :
    u2bTable[charCode b]? = some (toI8 b) := by
  have member : (Char.ofNat (charCode b), b) ∈ bytesToUnicode.zipIdx :=
    mem_zipIdx_bytesToUnicode.mpr ⟨isByte, rfl⟩
  have code := toNat_charCode isByte
  have found := foldl_assignByte_of_mem (List.replicate 512 (-1)) member
    (by
      rw [code, List.length_replicate]
      exact (cellOf_charCode isByte).2) (by
      intro entry isEntry same
      obtain ⟨isOther, char⟩ := mem_zipIdx_bytesToUnicode.mp isEntry
      rw [char, toNat_charCode isOther, code] at same
      exact charCode_injective isOther isByte same)
  rw [code] at found
  rw [u2bTable]
  exact found

/-- The character of a byte is found in the table, as a cell that is negative
from 128 on. -/
theorem charBytes_byteChar (byte : UInt8) :
    charBytes (byteChar byte) =
      if byte < 128 then [byte]
      else String.utf8EncodeChar (byteChar byte) := by
  have found : u2bTable[(byteChar byte).toNat]? = some (toI8 byte.toNat) := by
    rw [byteChar_toNat]
    exact getElem?_u2bTable byte.toNat_lt
  rw [charBytes, found, readCell]
  by_cases ascii : byte < 128
  · have low : byte.toNat < 128 := UInt8.lt_iff_toNat_lt.mp ascii
    have nonneg : 0 ≤ toI8 byte.toNat := by
      rw [toI8, if_pos low]
      exact Int.natCast_nonneg _
    rw [if_pos ascii, if_pos nonneg, toI8, if_pos low, Int.toNat_natCast,
      UInt8.ofNat_toNat]
  · have high : ¬ byte.toNat < 128 := fun low =>
      ascii (UInt8.lt_iff_toNat_lt.mpr low)
    have isByte := byte.toNat_lt
    have negative : ¬ 0 ≤ toI8 byte.toNat := by
      rw [toI8, if_neg high]
      omega
    rw [if_neg ascii, if_neg negative]

/-- What the decoder reads a byte as. -/
def readChar (byte : UInt8) : Char :=
  if byte < 128 then asciiChar byte else byteChar byte

theorem charBytes_eq_encode (byte : UInt8) :
    charBytes (byteChar byte) = String.utf8EncodeChar (readChar byte) := by
  rw [charBytes_byteChar, readChar]
  split_ifs with ascii
  · exact (encode_asciiChar ascii).symm
  · rfl

theorem piece_bytes (piece : List UInt8) :
    (spelled piece).toList.flatMap charBytes =
      encode (piece.map readChar) := by
  rw [spelled, String.toList_ofList, encode, List.flatMap_map,
    List.flatMap_map]
  exact congrArg (piece.flatMap ·) (funext charBytes_eq_encode)

/-- The bytes of all tokens are the encoding of what their bytes are read
as. -/
theorem tokens_bytes {vocab : Int → Option String} {tokenIds : List Int}
    {pieces : List (List UInt8)} (spells : Spells vocab tokenIds pieces) :
    tokenIds.flatMap (tokenBytes vocab) =
      encode (pieces.flatten.map readChar) := by
  unfold Spells at spells
  induction tokenIds generalizing pieces with
  | nil =>
      cases spells
      rfl
  | cons id tokenIds ih =>
      rw [List.flatMap_cons, tokenBytes]
      by_cases isText : id < timestampBegin
      · rw [List.filter_cons_of_pos (by simpa using isText)] at spells
        cases spells with
        | cons found rest =>
            next piece pieces =>
              have bytes : encode ((piece :: pieces).flatten.map readChar) =
                  encode (piece.map readChar) ++
                    encode (pieces.flatten.map readChar) := by
                rw [List.flatten_cons, List.map_append]
                exact List.flatMap_append
              rw [if_neg (Int.not_le.mpr isText), ih rest, bytes, found]
              exact congrArg (· ++ _) (piece_bytes piece)
      · rw [List.filter_cons_of_neg (by simpa using isText)] at spells
        rw [if_pos (Int.not_lt.mp isText), ih spells]
        rfl

theorem decodeTokens_eq {vocab : Int → Option String} {tokenIds : List Int}
    {pieces : List (List UInt8)} (spells : Spells vocab tokenIds pieces) :
    decodeTokens tokenIds vocab =
      String.ofList (pieces.flatten.map readChar) := by
  rw [decodeTokens, tokens_bytes spells, decode_encode]

theorem readChar_ne_singleChar {byte : UInt8} (high : ¬ byte < 128) :
    readChar byte ≠ singleChar byte := by
  rw [readChar, singleChar, if_neg high, if_neg high]
  intro same
  have code := byteChar_toNat byte
  have small := (cellOf_charCode byte.toNat_lt).2
  rw [same] at code
  have large : replacement.toNat = 65533 := rfl
  omega

/-- The decoder gives back the text of the bytes exactly when all of them are
ASCII. -/
theorem decodesBytes_iff {vocab : Int → Option String} {tokenIds : List Int}
    {pieces : List (List UInt8)} (spells : Spells vocab tokenIds pieces) :
    DecodesBytes vocab tokenIds pieces ↔
      ∀ byte ∈ pieces.flatten, byte < 128 := by
  rw [DecodesBytes, decodeTokens_eq spells]
  constructor
  · rintro ⟨same, -⟩ byte member
    have chars : pieces.flatten.map readChar = decode pieces.flatten :=
      String.ofList_injective same
    have long := congrArg List.length chars
    rw [List.length_map] at long
    rw [decode_eq_map (Nat.le_of_eq long), List.map_inj_left] at chars
    by_contra high
    exact readChar_ne_singleChar high (chars byte member)
  · intro ascii
    have chars : pieces.flatten.map readChar =
        pieces.flatten.map asciiChar :=
      List.map_congr_left fun byte member => if_pos (ascii byte member)
    rw [chars, ← decode_ascii ascii]
    refine ⟨rfl, fun text encoded => ?_⟩
    rw [← encoded, decode_encode, String.ofList_toList]

/-- A vocabulary of two tokens for the two halves of the letter é, and one for
an ASCII text. -/
def exampleVocab (id : Int) : Option String :=
  if id = 1 then some (spelled [0xC3])
  else if id = 2 then some (spelled [0xA9])
  else if id = 3 then some (spelled [0x20, 0x6F, 0x6B])
  else none

theorem asciiTokens_decoded :
    DecodesBytes exampleVocab [50364, 3, 50400] [[0x20, 0x6F, 0x6B]] :=
  (decodesBytes_iff (by
    change List.Forall₂ _ [3] _
    exact .cons (by simp [exampleVocab]) .nil)).mpr (by simp)

/-- The two bytes of é are read as the two characters that spell them. -/
theorem accent_not_decoded :
    Spells exampleVocab [1, 50364, 2] [[0xC3], [0xA9]] ∧
      decodeTokens [1, 50364, 2] exampleVocab = "Ã©" ∧
      ¬ DecodesBytes exampleVocab [1, 50364, 2] [[0xC3], [0xA9]] := by
  have spells : Spells exampleVocab [1, 50364, 2] [[0xC3], [0xA9]] := by
    change List.Forall₂ _ [1, 2] _
    exact .cons (by simp [exampleVocab])
      (.cons (by simp [exampleVocab]) .nil)
  have decoded : decodeTokens [1, 50364, 2] exampleVocab = "Ã©" := by
    rw [decodeTokens_eq spells]
    simp only [List.flatten_cons, List.flatten_nil, List.cons_append,
      List.nil_append, List.map_cons, List.map_nil, readChar, byteChar_eq]
    decide
  refine ⟨spells, decoded, fun both => ?_⟩
  have same := both.2 "é" (by decide +kernel)
  rw [decoded] at same
  exact absurd same (by decide)

end WhisperOnnx

end TorchInference
