import Mathlib.Data.String.Basic

/-!
# Base64

The standard encoding with padding: three bytes become four digits of six bits
each, and one or two bytes at the end are filled up with equals signs.
-/

namespace Base64

/-- The digit of a value below sixty-four. -/
def digit (value : Nat) : Char :=
  if value < 26 then Char.ofNat (65 + value)
  else if value < 52 then Char.ofNat (71 + value)
  else if value < 62 then Char.ofNat (value - 4)
  else if value = 62 then '+'
  else '/'

def encode : List UInt8 → List Char
  | [] => []
  | [a] => [digit (a.toNat / 4), digit (a.toNat % 4 * 16), '=', '=']
  | [a, b] =>
      [digit (a.toNat / 4), digit (a.toNat % 4 * 16 + b.toNat / 16),
        digit (b.toNat % 16 * 4), '=']
  | a :: b :: c :: rest =>
      digit (a.toNat / 4) :: digit (a.toNat % 4 * 16 + b.toNat / 16) ::
        digit (b.toNat % 16 * 4 + c.toNat / 64) :: digit (c.toNat % 64) ::
        encode rest

/-- Every group of up to three bytes takes four characters. -/
theorem length_encode (bytes : List UInt8) :
    (encode bytes).length = 4 * ((bytes.length + 2) / 3) := by
  fun_induction encode bytes with
  | case1 => rfl
  | case2 a => simp
  | case3 a b => simp
  | case4 a b c rest ih =>
      simp only [List.length_cons, ih]
      omega

theorem utf8Size_digit (value : Nat) : (digit value).utf8Size = 1 := by
  by_cases small : value < 62
  · have all : ∀ low : Fin 62, (digit low).utf8Size = 1 := by decide
    exact all ⟨value, small⟩
  · have notUpper : ¬ value < 26 := by omega
    have notLower : ¬ value < 52 := by omega
    rw [digit, if_neg notUpper, if_neg notLower, if_neg small]
    split <;> rfl

/-- Every character of an encoding takes one byte. -/
theorem utf8Size_of_mem_encode {bytes : List UInt8} {c : Char}
    (member : c ∈ encode bytes) : c.utf8Size = 1 := by
  have padding : '='.utf8Size = 1 := rfl
  fun_induction encode bytes with
  | case1 => cases member
  | case2 a =>
      simp only [List.mem_cons, List.not_mem_nil, or_false] at member
      rcases member with rfl | rfl | rfl | rfl <;>
        first | exact utf8Size_digit _ | exact padding
  | case3 a b =>
      simp only [List.mem_cons, List.not_mem_nil, or_false] at member
      rcases member with rfl | rfl | rfl | rfl <;>
        first | exact utf8Size_digit _ | exact padding
  | case4 a b c rest ih =>
      simp only [List.mem_cons] at member
      rcases member with rfl | rfl | rfl | rfl | later
      · exact utf8Size_digit _
      · exact utf8Size_digit _
      · exact utf8Size_digit _
      · exact utf8Size_digit _
      · exact ih later

theorem utf8ByteSize_encode (bytes : List UInt8) :
    (String.ofList (encode bytes)).utf8ByteSize =
      4 * ((bytes.length + 2) / 3) := by
  have onePerChar : ∀ text : List Char, (∀ c ∈ text, c.utf8Size = 1) →
      String.utf8Len text = text.length := by
    intro text
    induction text with
    | nil => exact fun _ => rfl
    | cons c text ih =>
        intro ascii
        rw [String.utf8Len_cons, ascii c List.mem_cons_self,
          ih fun d later => ascii d (List.mem_cons_of_mem c later),
          List.length_cons]
  rw [String.utf8ByteSize_ofList,
    onePerChar _ fun _ => utf8Size_of_mem_encode, length_encode]

end Base64
