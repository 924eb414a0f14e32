import Mathlib.Data.List.Basic
import TorchInference.LossyUtf8

/-!
# The units of a byte string

A lossy decoding cuts a byte string into units, each of which becomes one
character: the bytes of a character, or bytes that are replaced together.  A
cut of the byte string keeps the decoding exactly where it falls between two
units.  A cut inside a unit leaves a beginning that is replaced as a whole, and
bytes that are replaced one by one.
-/

namespace LossyUtf8

/-! ## The bytes of a character -/

theorem isTail_ofNat {low : Nat} (small : low < 64) :
    isTail (UInt8.ofNat (low + 0x80)) = true := by
  simp only [isTail, Bool.and_eq_true, decide_eq_true_eq,
    UInt8.le_iff_toNat_le, UInt8.toNat_ofNat', UInt8.reduceToNat]
  omega

/-- The number of a character and its bytes, by how many they are. -/
inductive Encoding (c : Char) : List UInt8 → Prop
  | one (small : c.val.toNat < 0x80) : Encoding c [UInt8.ofNat c.val.toNat]
  | two (large : 0x80 ≤ c.val.toNat) (small : c.val.toNat < 0x800) :
      Encoding c [UInt8.ofNat (c.val.toNat / 64 % 32 + 0xc0),
        UInt8.ofNat (c.val.toNat % 64 + 0x80)]
  | three (large : 0x800 ≤ c.val.toNat) (small : c.val.toNat < 0x10000)
      (scalar : c.val.toNat < 0xd800 ∨ 0xdfff < c.val.toNat) :
      Encoding c [UInt8.ofNat (c.val.toNat / 4096 % 16 + 0xe0),
        UInt8.ofNat (c.val.toNat / 64 % 64 + 0x80),
        UInt8.ofNat (c.val.toNat % 64 + 0x80)]
  | four (large : 0x10000 ≤ c.val.toNat) (small : c.val.toNat < 0x110000) :
      Encoding c [UInt8.ofNat (c.val.toNat / 262144 % 8 + 0xf0),
        UInt8.ofNat (c.val.toNat / 4096 % 64 + 0x80),
        UInt8.ofNat (c.val.toNat / 64 % 64 + 0x80),
        UInt8.ofNat (c.val.toNat % 64 + 0x80)]

theorem encoding (c : Char) : Encoding c (String.utf8EncodeChar c) := by
  have scalar : c.val.toNat < 0xd800 ∨
      0xdfff < c.val.toNat ∧ c.val.toNat < 0x110000 := c.valid
  unfold String.utf8EncodeChar
  dsimp only
  split_ifs with one two three
  · exact .one (by omega)
  · exact .two (by omega) (by omega)
  · exact .three (by omega) (by omega) (by omega)
  · exact .four (by omega) (by omega)

/-- The first byte of a character is no tail. -/
theorem Encoding.isTail_head {c : Char} {first : UInt8} {rest : List UInt8}
    (shape : Encoding c (first :: rest)) : isTail first = false := by
  rw [isTail, ← Bool.not_eq_true, Bool.and_eq_true, decide_eq_true_eq,
    decide_eq_true_eq, UInt8.le_iff_toNat_le, UInt8.le_iff_toNat_le]
  simp only [UInt8.reduceToNat]
  cases shape with
  | one small =>
      rw [UInt8.toNat_ofNat']
      omega
  | two large small =>
      rw [UInt8.toNat_ofNat']
      omega
  | three large small scalar =>
      rw [UInt8.toNat_ofNat']
      omega
  | four large small =>
      rw [UInt8.toNat_ofNat']
      omega

/-- No character is read where a tail stands. -/
theorem firstChar_tail {byte : UInt8} (tail : isTail byte = true)
    (rest : List UInt8) : firstChar (byte :: rest) = none := by
  cases isFirst : firstChar (byte :: rest) with
  | none => rfl
  | some c =>
      have taken := take_of_firstChar isFirst
      have size := c.utf8Size_pos
      obtain ⟨n, sized⟩ : ∃ n, c.utf8Size = n + 1 := ⟨c.utf8Size - 1, by omega⟩
      have shape := encoding c
      rw [← taken, sized, List.take_succ_cons] at shape
      rw [shape.isTail_head] at tail
      cases tail

/-- The second byte of a character with three bytes may follow the first. -/
theorem maySecond_three {v : Nat} (large : 0x800 ≤ v) (small : v < 0x10000)
    (scalar : v < 0xd800 ∨ 0xdfff < v) :
    0xE0 ≤ UInt8.ofNat (v / 4096 % 16 + 0xe0) ∧
      UInt8.ofNat (v / 4096 % 16 + 0xe0) ≤ 0xEF ∧
      maySecond (UInt8.ofNat (v / 4096 % 16 + 0xe0))
        (UInt8.ofNat (v / 64 % 64 + 0x80)) = true := by
  simp only [maySecond, isTail, ← UInt8.toNat_inj, UInt8.le_iff_toNat_le,
    UInt8.toNat_ofNat', UInt8.reduceToNat]
  refine ⟨by omega, by omega, ?_⟩
  split_ifs <;> simp only [Bool.and_eq_true, decide_eq_true_eq] <;> omega

/-- The same for a character with four bytes. -/
theorem maySecond_four {v : Nat} (large : 0x10000 ≤ v) (small : v < 0x110000) :
    0xF0 ≤ UInt8.ofNat (v / 262144 % 8 + 0xf0) ∧
      UInt8.ofNat (v / 262144 % 8 + 0xf0) ≤ 0xF4 ∧
      maySecond (UInt8.ofNat (v / 262144 % 8 + 0xf0))
        (UInt8.ofNat (v / 4096 % 64 + 0x80)) = true := by
  simp only [maySecond, isTail, ← UInt8.toNat_inj, UInt8.le_iff_toNat_le,
    UInt8.toNat_ofNat', UInt8.reduceToNat]
  refine ⟨by omega, by omega, ?_⟩
  split_ifs <;> simp only [Bool.and_eq_true, decide_eq_true_eq] <;> omega

/-- A proper beginning of a character is replaced together, and the other bytes
of the character are tails. -/
theorem Encoding.cut {c : Char} {front back : List UInt8}
    (shape : Encoding c (front ++ back)) (nonempty : front ≠ [])
    (proper : back ≠ []) :
    brokenLength front = front.length ∧ ∀ byte ∈ back, isTail byte = true := by
  generalize whole : front ++ back = bytes at shape
  have tail (v : Nat) : isTail (UInt8.ofNat (v % 64 + 0x80)) = true :=
    isTail_ofNat (Nat.mod_lt v (by decide))
  cases shape with
  | one small =>
      rcases List.append_eq_singleton_iff.mp whole with ⟨rfl, -⟩ | ⟨-, rfl⟩
      · exact absurd rfl nonempty
      · exact absurd rfl proper
  | two large small =>
      rcases front with _ | ⟨x, _ | ⟨y, front⟩⟩
      · exact absurd rfl nonempty
      · obtain ⟨-, rfl⟩ := List.cons.inj whole
        exact ⟨rfl, List.forall_mem_singleton.mpr (tail _)⟩
      · simp only [List.cons_append, List.cons.injEq, List.append_eq_nil_iff]
          at whole
        exact absurd whole.2.2.2 proper
  | three large small scalar =>
      obtain ⟨least, most, may⟩ := maySecond_three large small scalar
      rcases front with _ | ⟨x, _ | ⟨y, _ | ⟨z, front⟩⟩⟩
      · exact absurd rfl nonempty
      · obtain ⟨-, rfl⟩ := List.cons.inj whole
        exact ⟨rfl, List.forall_mem_cons.mpr
          ⟨tail _, List.forall_mem_singleton.mpr (tail _)⟩⟩
      · simp only [List.cons_append, List.nil_append, List.cons.injEq] at whole
        obtain ⟨rfl, rfl, rfl⟩ := whole
        refine ⟨?_, List.forall_mem_singleton.mpr (tail _)⟩
        rw [brokenLength, if_pos ⟨least, most, may⟩]
        rfl
      · simp only [List.cons_append, List.cons.injEq, List.append_eq_nil_iff]
          at whole
        exact absurd whole.2.2.2.2 proper
  | four large small =>
      obtain ⟨least, most, may⟩ := maySecond_four large small
      have notThree (x : UInt8) (least : 0xF0 ≤ x) : ¬ x ≤ 0xEF := by
        rw [UInt8.le_iff_toNat_le] at least ⊢
        simp only [UInt8.reduceToNat] at least ⊢
        omega
      rcases front with _ | ⟨x, _ | ⟨y, _ | ⟨z, _ | ⟨w, front⟩⟩⟩⟩
      · exact absurd rfl nonempty
      · obtain ⟨-, rfl⟩ := List.cons.inj whole
        exact ⟨rfl, List.forall_mem_cons.mpr ⟨tail _, List.forall_mem_cons.mpr
          ⟨tail _, List.forall_mem_singleton.mpr (tail _)⟩⟩⟩
      · simp only [List.cons_append, List.nil_append, List.cons.injEq] at whole
        obtain ⟨rfl, rfl, rfl⟩ := whole
        refine ⟨?_, List.forall_mem_cons.mpr
          ⟨tail _, List.forall_mem_singleton.mpr (tail _)⟩⟩
        rw [brokenLength, if_neg fun three => notThree _ least three.2.1,
          if_pos ⟨least, most, may⟩]
        rfl
      · simp only [List.cons_append, List.nil_append, List.cons.injEq] at whole
        obtain ⟨rfl, rfl, rfl, rfl⟩ := whole
        refine ⟨?_, List.forall_mem_singleton.mpr (tail _)⟩
        rw [brokenLength, if_neg fun three => notThree _ least three.2.1,
          if_pos ⟨least, most, may⟩, List.head?_cons, Option.any_some,
          if_pos (tail _)]
        rfl
      · simp only [List.cons_append, List.cons.injEq, List.append_eq_nil_iff]
          at whole
        exact absurd whole.2.2.2.2.2 proper

/-! ## Units -/

/-- How many bytes become one character. -/
def unitLength (bytes : List UInt8) : Nat :=
  match firstChar bytes with
  | some c => c.utf8Size
  | none => brokenLength bytes

/-- The character they become. -/
def unitChar (bytes : List UInt8) : Char :=
  (firstChar bytes).getD replacement

theorem unitLength_pos (bytes : List UInt8) : 1 ≤ unitLength bytes := by
  unfold unitLength
  split
  · next c _ => exact c.utf8Size_pos
  · exact brokenLength_pos bytes

theorem unitLength_le {bytes : List UInt8} (nonempty : bytes ≠ []) :
    unitLength bytes ≤ bytes.length := by
  unfold unitLength
  split
  · next c isFirst => exact utf8Size_le_of_firstChar isFirst
  · cases bytes with
    | nil => exact absurd rfl nonempty
    | cons byte rest => exact brokenLength_le byte rest

theorem decodeFrom_unit {fuel : Nat} {bytes : List UInt8}
    (nonempty : bytes ≠ []) :
    decodeFrom (fuel + 1) bytes =
      unitChar bytes :: decodeFrom fuel (bytes.drop (unitLength bytes)) := by
  rw [decodeFrom_cons nonempty, unitChar, unitLength]
  cases firstChar bytes <;> rfl

/-- Fuel beyond the number of bytes changes nothing. -/
theorem decodeFrom_eq_decode {fuel : Nat} {bytes : List UInt8}
    (enough : bytes.length ≤ fuel) : decodeFrom fuel bytes = decode bytes := by
  suffices same : ∀ fuel other (bytes : List UInt8), bytes.length ≤ fuel →
      bytes.length ≤ other → decodeFrom fuel bytes = decodeFrom other bytes from
    same fuel bytes.length bytes enough (Nat.le_refl _)
  intro fuel
  induction fuel with
  | zero =>
      intro other bytes none _
      rw [List.eq_nil_of_length_eq_zero (Nat.le_zero.mp none), decodeFrom_nil,
        decodeFrom_nil]
  | succ fuel ih =>
      intro other bytes within withinOther
      by_cases nonempty : bytes = []
      · rw [nonempty, decodeFrom_nil, decodeFrom_nil]
      have positive := List.length_pos_iff.mpr nonempty
      have shrinks := unitLength_pos bytes
      obtain ⟨other, rfl⟩ : ∃ before, other = before + 1 :=
        ⟨other - 1, by omega⟩
      rw [decodeFrom_unit nonempty, decodeFrom_unit nonempty,
        ih other _ (by rw [List.length_drop]; omega)
          (by rw [List.length_drop]; omega)]

@[simp]
theorem decode_nil : decode [] = [] :=
  rfl

/-- A byte string is decoded unit by unit. -/
theorem decode_unit {bytes : List UInt8} (nonempty : bytes ≠ []) :
    decode bytes =
      unitChar bytes :: decode (bytes.drop (unitLength bytes)) := by
  obtain ⟨fuel, sized⟩ : ∃ fuel, bytes.length = fuel + 1 :=
    ⟨bytes.length - 1, by have := List.length_pos_iff.mpr nonempty; omega⟩
  have shrinks := unitLength_pos bytes
  rw [decode, sized, decodeFrom_unit nonempty,
    decodeFrom_eq_decode (by rw [List.length_drop]; omega)]

/-! ## Cuts -/

/-- A character that begins the front of a cut byte string begins the whole. -/
theorem firstChar_append {front : List UInt8} {c : Char}
    (isFirst : firstChar front = some c) (back : List UInt8) :
    firstChar (front ++ back) = some c := by
  rw [← List.take_append_drop c.utf8Size front, take_of_firstChar isFirst,
    List.append_assoc]
  exact firstChar_encode_append c _

theorem brokenLength_append {front back : List UInt8} (nonempty : front ≠ [])
    (within : brokenLength (front ++ back) ≤ front.length) :
    brokenLength front = brokenLength (front ++ back) := by
  match front with
  | [] => exact absurd rfl nonempty
  | [x] =>
      have least := brokenLength_pos ([x] ++ back)
      rw [List.length_singleton] at within
      rw [Nat.le_antisymm within least]
      rfl
  | [x, y] =>
      simp only [brokenLength, List.cons_append, List.nil_append,
        List.length_cons, List.length_nil] at within ⊢
      split_ifs at within ⊢ <;> simp_all
  | x :: y :: z :: front => rfl

/-- A unit that lies in the front of a cut byte string is a unit of it. -/
theorem unit_of_within {front back : List UInt8} (nonempty : front ≠ [])
    (within : unitLength (front ++ back) ≤ front.length) :
    unitLength front = unitLength (front ++ back) ∧
      unitChar front = unitChar (front ++ back) := by
  unfold unitLength unitChar at *
  cases whole : firstChar (front ++ back) with
  | some c =>
      rw [whole] at within
      have taken := take_of_firstChar whole
      rw [List.take_append_of_le_length within] at taken
      have isFirst : firstChar front = some c := by
        rw [← List.take_append_drop c.utf8Size front, taken]
        exact firstChar_encode_append c _
      rw [isFirst]
      exact ⟨rfl, rfl⟩
  | none =>
      rw [whole] at within
      cases isFirst : firstChar front with
      | some c =>
          rw [firstChar_append isFirst back] at whole
          cases whole
      | none => exact ⟨brokenLength_append nonempty within, rfl⟩

theorem isTail_of_maySecond {first second : UInt8}
    (may : maySecond first second = true) : isTail second = true := by
  unfold maySecond at may
  unfold isTail at *
  simp only [Bool.and_eq_true, decide_eq_true_eq, UInt8.le_iff_toNat_le,
    UInt8.reduceToNat] at *
  split_ifs at may <;>
    simp only [Bool.and_eq_true, decide_eq_true_eq] at may <;> omega

/-- At most three bytes are replaced together; all but the first are tails. -/
theorem brokenLength_cons (x : UInt8) (rest : List UInt8) :
    brokenLength (x :: rest) = 1 ∨
      (∃ y more, rest = y :: more ∧ brokenLength (x :: rest) = 2 ∧
        isTail y = true) ∨
      ∃ y z more, rest = y :: z :: more ∧ brokenLength (x :: rest) = 3 ∧
        brokenLength [x, y] = 2 ∧ isTail y = true ∧ isTail z = true := by
  match rest with
  | [] => exact .inl rfl
  | y :: more =>
      by_cases three : 0xE0 ≤ x ∧ x ≤ 0xEF ∧ maySecond x y = true
      · refine .inr (.inl ⟨y, more, rfl, ?_, isTail_of_maySecond three.2.2⟩)
        rw [brokenLength, if_pos three]
      by_cases four : 0xF0 ≤ x ∧ x ≤ 0xF4 ∧ maySecond x y = true
      · have tailY := isTail_of_maySecond four.2.2
        by_cases third : more.head?.any isTail = true
        · cases more with
          | nil => cases third
          | cons z more =>
              refine .inr (.inr ⟨y, z, more, rfl, ?_, ?_, tailY, third⟩)
              · rw [brokenLength, if_neg three, if_pos four, if_pos third]
              · rw [brokenLength, if_neg three, if_pos four]
                rfl
        · refine .inr (.inl ⟨y, more, rfl, ?_, tailY⟩)
          rw [brokenLength, if_neg three, if_pos four, if_neg third]
      · refine .inl ?_
        rw [brokenLength, if_neg three, if_neg four]

/-- The same for bytes that are replaced together. -/
theorem brokenLength_cut {front back : List UInt8} (nonempty : front ≠ [])
    (cut : front.length < brokenLength (front ++ back)) :
    brokenLength front = front.length ∧
      ∀ byte ∈ back.take (brokenLength (front ++ back) - front.length),
        isTail byte = true := by
  rcases front with _ | ⟨x, front⟩
  · exact absurd rfl nonempty
  rw [List.cons_append, List.length_cons] at cut
  rw [List.cons_append, List.length_cons]
  rcases brokenLength_cons x (front ++ back) with
    one | ⟨y, more, whole, two, tailY⟩ |
      ⟨y, z, more, whole, three, together, tailY, tailZ⟩
  · omega
  · rw [two] at cut ⊢
    obtain rfl := List.eq_nil_of_length_eq_zero (by omega : front.length = 0)
    rw [List.nil_append] at whole
    rw [whole]
    exact ⟨rfl, List.forall_mem_singleton.mpr tailY⟩
  · rw [three] at cut ⊢
    rcases front with _ | ⟨y', front⟩
    · rw [List.nil_append] at whole
      rw [whole]
      exact ⟨rfl, List.forall_mem_cons.mpr
        ⟨tailY, List.forall_mem_singleton.mpr tailZ⟩⟩
    · rw [List.length_cons] at cut
      obtain rfl := List.eq_nil_of_length_eq_zero (by omega : front.length = 0)
      rw [List.cons_append, List.nil_append] at whole
      obtain ⟨rfl, rfl⟩ := List.cons.inj whole
      exact ⟨together, List.forall_mem_singleton.mpr tailZ⟩

/-- A unit that is cut leaves a front that is replaced as a whole and tails. -/
theorem unit_cut {front back : List UInt8} (nonempty : front ≠ [])
    (cut : front.length < unitLength (front ++ back)) :
    decode front = [replacement] ∧
      ∀ byte ∈ back.take (unitLength (front ++ back) - front.length),
        isTail byte = true := by
  have notFirst : firstChar front = none := by
    cases isFirst : firstChar front with
    | none => rfl
    | some c =>
        have within := utf8Size_le_of_firstChar isFirst
        rw [unitLength, firstChar_append isFirst back] at cut
        dsimp only at cut
        omega
  obtain ⟨broken, tails⟩ : brokenLength front = front.length ∧
      ∀ byte ∈ back.take (unitLength (front ++ back) - front.length),
        isTail byte = true := by
    unfold unitLength at cut ⊢
    cases whole : firstChar (front ++ back) with
    | none =>
        rw [whole] at cut
        exact brokenLength_cut nonempty cut
    | some c =>
        rw [whole] at cut
        dsimp only at cut ⊢
        have taken := take_of_firstChar whole
        rw [List.take_append, List.take_of_length_le (Nat.le_of_lt cut)]
          at taken
        have shape := encoding c
        rw [← taken] at shape
        refine shape.cut nonempty fun empty => ?_
        have within := utf8Size_le_of_firstChar whole
        have zero := congrArg List.length empty
        rw [List.length_take, List.length_nil] at zero
        rw [List.length_append] at within
        omega
  refine ⟨?_, tails⟩
  rw [decode_unit nonempty, unitChar, unitLength, notFirst]
  dsimp only
  rw [broken, List.drop_length]
  rfl

/-- Tails are replaced one by one. -/
theorem decode_tails {tails : List UInt8}
    (allTails : ∀ byte ∈ tails, isTail byte = true) (rest : List UInt8) :
    decode (tails ++ rest) =
      List.replicate tails.length replacement ++ decode rest := by
  induction tails with
  | nil => rfl
  | cons byte tails ih =>
      have tail := allTails byte List.mem_cons_self
      have notFirst := firstChar_tail tail (tails ++ rest)
      have alone : brokenLength (byte :: (tails ++ rest)) = 1 := by
        have small : ¬ 0xE0 ≤ byte ∧ ¬ 0xF0 ≤ byte := by
          simp only [isTail, Bool.and_eq_true, decide_eq_true_eq,
            UInt8.le_iff_toNat_le, UInt8.reduceToNat] at tail ⊢
          omega
        cases tails ++ rest with
        | nil => rfl
        | cons second more =>
            rw [brokenLength, if_neg fun three => small.1 three.1,
              if_neg fun four => small.2 four.1]
      rw [List.cons_append, decode_unit (List.cons_ne_nil _ _), unitChar,
        unitLength, notFirst]
      dsimp only
      rw [alone, List.drop_succ_cons, List.drop_zero,
        ih fun other mem => allTails other (List.mem_cons_of_mem byte mem)]
      rfl

/-! ## Boundaries -/

/-- So many bytes at the beginning of a byte string are whole units of it. -/
inductive Boundary : List UInt8 → Nat → Prop
  | start (bytes : List UInt8) : Boundary bytes 0
  | next {bytes : List UInt8} {n : Nat} (nonempty : bytes ≠ [])
      (later : Boundary (bytes.drop (unitLength bytes)) n) :
      Boundary bytes (unitLength bytes + n)

/-- A boundary after the beginning is behind the first unit. -/
theorem Boundary.after {bytes : List UInt8} {n : Nat}
    (boundary : Boundary bytes n) (positive : 0 < n) :
    unitLength bytes ≤ n ∧
      Boundary (bytes.drop (unitLength bytes)) (n - unitLength bytes) := by
  cases boundary with
  | start => exact absurd positive (Nat.lt_irrefl 0)
  | next nonempty later =>
      refine ⟨Nat.le_add_right _ _, ?_⟩
      rw [Nat.add_sub_cancel_left]
      exact later

/-- Boundaries behind a boundary are those of the rest. -/
theorem boundary_add_iff {front back : List UInt8} {n : Nat}
    (boundary : Boundary (front ++ back) front.length) :
    Boundary (front ++ back) (front.length + n) ↔ Boundary back n := by
  generalize sized : front.length = size at boundary
  induction size using Nat.strongRecOn generalizing front with
  | ind size ih =>
      by_cases empty : front = []
      · subst empty
        rw [← sized, List.length_nil, Nat.zero_add, List.nil_append]
      have positive : 0 < size := by
        rw [← sized]
        exact List.length_pos_iff.mpr empty
      obtain ⟨within, later⟩ := boundary.after positive
      have shrinks := unitLength_pos (front ++ back)
      have dropped : (front ++ back).drop (unitLength (front ++ back)) =
          front.drop (unitLength (front ++ back)) ++ back :=
        List.drop_append_of_le_length (by omega)
      have whole : front ++ back ≠ [] := fun nil =>
        empty (List.append_eq_nil_iff.mp nil).1
      rw [dropped] at later
      have shorter := @ih (size - unitLength (front ++ back)) (by omega)
        (front.drop (unitLength (front ++ back)))
        (by rw [List.length_drop, sized]) later
      rw [← shorter]
      constructor
      · intro beyond
        have after := (beyond.after (by omega)).2
        rw [dropped] at after
        rwa [show size - unitLength (front ++ back) + n =
          size + n - unitLength (front ++ back) by omega]
      · intro beyond
        have again := Boundary.next whole (by rw [dropped]; exact beyond)
        rwa [show unitLength (front ++ back) +
          (size - unitLength (front ++ back) + n) = size + n by omega] at again

/-- A byte string that is cut at a boundary is decoded part by part. -/
theorem decode_append_of_boundary {front back : List UInt8}
    (boundary : Boundary (front ++ back) front.length) :
    decode (front ++ back) = decode front ++ decode back := by
  generalize sized : front.length = size at boundary
  induction size using Nat.strongRecOn generalizing front with
  | ind size ih =>
      by_cases empty : front = []
      · subst empty
        rfl
      have positive : 0 < size := by
        rw [← sized]
        exact List.length_pos_iff.mpr empty
      obtain ⟨within, later⟩ := boundary.after positive
      have shrinks := unitLength_pos (front ++ back)
      have dropped : (front ++ back).drop (unitLength (front ++ back)) =
          front.drop (unitLength (front ++ back)) ++ back :=
        List.drop_append_of_le_length (by omega)
      have whole : front ++ back ≠ [] := fun nil =>
        empty (List.append_eq_nil_iff.mp nil).1
      obtain ⟨sameLength, sameChar⟩ := @unit_of_within front back empty
        (by omega)
      rw [dropped] at later
      rw [decode_unit whole, dropped, decode_unit empty, sameLength, sameChar,
        ih (size - unitLength (front ++ back)) (by omega)
          (by rw [List.length_drop, sized]) later]
      rfl

/-- A cut never loses characters, and one that is at no boundary adds some. -/
theorem length_decode_append {front back : List UInt8} :
    (decode (front ++ back)).length ≤
        (decode front).length + (decode back).length ∧
      (¬ Boundary (front ++ back) front.length →
        (decode (front ++ back)).length <
          (decode front).length + (decode back).length) := by
  generalize sized : front.length = size
  induction size using Nat.strongRecOn generalizing front with
  | ind size ih =>
      by_cases empty : front = []
      · subst empty
        rw [← sized]
        simp only [List.nil_append, decode_nil, List.length_nil, Nat.zero_add,
          Nat.le_refl, true_and]
        exact fun cut => absurd (Boundary.start back) cut
      have whole : front ++ back ≠ [] := fun nil =>
        empty (List.append_eq_nil_iff.mp nil).1
      have shrinks := unitLength_pos (front ++ back)
      by_cases within : unitLength (front ++ back) ≤ size
      · have dropped : (front ++ back).drop (unitLength (front ++ back)) =
            front.drop (unitLength (front ++ back)) ++ back :=
          List.drop_append_of_le_length (by omega)
        obtain ⟨sameLength, -⟩ := @unit_of_within front back empty
          (by omega)
        obtain ⟨most, fewer⟩ := @ih
          (size - unitLength (front ++ back)) (by omega)
          (front.drop (unitLength (front ++ back)))
          (by rw [List.length_drop, sized])
        rw [decode_unit whole, dropped, decode_unit empty, sameLength,
          List.length_cons, List.length_cons]
        refine ⟨by omega, fun cut => ?_⟩
        have later := fewer fun boundary => cut (by
          have again := Boundary.next whole (by rw [dropped]; exact boundary)
          rwa [Nat.add_sub_of_le within] at again)
        omega
      · obtain ⟨replaced, tails⟩ := @unit_cut front back empty
          (by omega)
        have covered := unitLength_le whole
        rw [List.length_append] at covered
        have rest : (front ++ back).drop (unitLength (front ++ back)) =
            back.drop (unitLength (front ++ back) - front.length) := by
          rw [List.drop_append, List.drop_eq_nil_of_le (by omega),
            List.nil_append]
        have split := decode_tails tails
          (back.drop (unitLength (front ++ back) - front.length))
        rw [List.take_append_drop] at split
        rw [decode_unit whole, rest, replaced, split]
        simp only [List.length_cons, List.length_nil, List.length_append,
          List.length_replicate, List.length_take]
        constructor
        · omega
        · intro _
          omega

/-- The pieces of a byte string, decoded one by one, have at least as many
characters. -/
theorem length_decode_flatten_le (pieces : List (List UInt8)) :
    (decode pieces.flatten).length ≤
      ((pieces.map decode).flatten).length := by
  induction pieces with
  | nil => exact Nat.le_refl 0
  | cons piece pieces ih =>
      have cut := (@length_decode_append piece pieces.flatten).1
      rw [List.flatten_cons, List.map_cons, List.flatten_cons,
        List.length_append]
      omega

/-- Decoding the pieces of a byte string one by one gives its decoding exactly
when every cut between two pieces is at a boundary of the whole. -/
theorem decode_flatten_iff (pieces : List (List UInt8)) :
    (pieces.map decode).flatten = decode pieces.flatten ↔
      ∀ before after, pieces = before ++ after →
        Boundary pieces.flatten before.flatten.length := by
  induction pieces with
  | nil =>
      simp only [List.map_nil, List.flatten_nil, decode_nil, true_iff]
      intro before after whole
      obtain ⟨rfl, rfl⟩ := List.append_eq_nil_iff.mp whole.symm
      exact .start []
  | cons piece pieces ih =>
      rw [List.map_cons, List.flatten_cons, List.flatten_cons]
      constructor
      · intro same
        have boundary : Boundary (piece ++ pieces.flatten) piece.length := by
          by_contra cut
          have fewer := length_decode_append.2 cut
          have least := length_decode_flatten_le pieces
          have sized := congrArg List.length same
          rw [List.length_append] at sized
          omega
        rw [decode_append_of_boundary boundary] at same
        have later := ih.mp (List.append_cancel_left same)
        intro before after whole
        rcases before with _ | ⟨first, before⟩
        · exact .start _
        · rw [List.cons_append] at whole
          obtain ⟨rfl, rest⟩ := List.cons.inj whole
          rw [List.flatten_cons, List.length_append,
            boundary_add_iff boundary]
          exact later before after rest
      · intro boundaries
        have boundary : Boundary (piece ++ pieces.flatten) piece.length := by
          simpa using boundaries [piece] pieces rfl
        rw [decode_append_of_boundary boundary, ih.mpr]
        intro before after whole
        have here := boundaries (piece :: before) after (by rw [whole]; rfl)
        rw [List.flatten_cons, List.length_append,
          boundary_add_iff boundary] at here
        exact here

end LossyUtf8
