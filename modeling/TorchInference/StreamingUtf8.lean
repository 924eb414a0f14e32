import TorchInference.Utf8Units

/-!
# Decoding UTF-8 as it arrives

A streaming decoder keeps back the bytes at the end of what has arrived that
may still become a character.  However the encoding of a text is cut, what it
gives adds up to the text.
-/

namespace LossyUtf8

/-- These bytes are the beginning of a character and nothing more. -/
def incomplete (bytes : List UInt8) : Bool :=
  brokenLength bytes == bytes.length &&
    bytes.head?.any fun first => 0xC2 ≤ first && first ≤ 0xF4

/-- Decode what can be decoded, with one step of fuel for each character; the
bytes that are kept back come second. -/
def decodeSome : Nat → List UInt8 → List Char × List UInt8
  | 0, bytes => ([], bytes)
  | _, [] => ([], [])
  | fuel + 1, first :: bytes =>
      match firstChar (first :: bytes) with
      | some c =>
          let rest := decodeSome fuel ((first :: bytes).drop c.utf8Size)
          (c :: rest.1, rest.2)
      | none =>
          if incomplete (first :: bytes) then ([], first :: bytes)
          else
            let rest := decodeSome fuel
              ((first :: bytes).drop (brokenLength (first :: bytes)))
            (replacement :: rest.1, rest.2)

/-- A decoder with the bytes it keeps back; `bomSeen` is set once a byte order
mark can no longer come. -/
structure TextDecoder where
  pending : List UInt8
  bomSeen : Bool

namespace TextDecoder

def initial : TextDecoder :=
  ⟨[], false⟩

/-- `decode(chunk, { stream: true })`. -/
def decode (decoder : TextDecoder) (chunk : List UInt8) :
    List Char × TextDecoder :=
  let bytes := decoder.pending ++ chunk
  let decoded := decodeSome bytes.length bytes
  if decoder.bomSeen then (decoded.1, ⟨decoded.2, true⟩)
  else
    match decoded.1 with
    | [] => ([], ⟨decoded.2, false⟩)
    | c :: text =>
        (if c = '\uFEFF' then text else c :: text, ⟨decoded.2, true⟩)

/-- What the decoder gives for each chunk. -/
def texts : TextDecoder → List (List UInt8) → List (List Char)
  | _, [] => []
  | decoder, chunk :: chunks =>
      (decoder.decode chunk).1 :: texts (decoder.decode chunk).2 chunks

end TextDecoder

/-! ## The encoding of a text -/

/-- The first byte of a character with more than one byte. -/
theorem Encoding.head_mem {c : Char} {first second : UInt8}
    {rest : List UInt8} (shape : Encoding c (first :: second :: rest)) :
    0xC2 ≤ first ∧ first ≤ 0xF4 := by
  rw [UInt8.le_iff_toNat_le, UInt8.le_iff_toNat_le]
  simp only [UInt8.reduceToNat]
  cases shape with
  | two large small =>
      rw [UInt8.toNat_ofNat']
      omega
  | three large small scalar =>
      rw [UInt8.toNat_ofNat']
      omega
  | four large small =>
      rw [UInt8.toNat_ofNat']
      omega

/-- A proper beginning of a character is no character, and it is kept back. -/
theorem kept_of_cut {c : Char} {front back : List UInt8}
    (whole : front ++ back = String.utf8EncodeChar c) (nonempty : front ≠ [])
    (proper : back ≠ []) :
    firstChar front = none ∧ incomplete front = true := by
  have shape := encoding c
  rw [← whole] at shape
  obtain ⟨broken, -⟩ := shape.cut nonempty proper
  constructor
  · cases isFirst : firstChar front with
    | none => rfl
    | some d =>
        have first := firstChar_append isFirst back
        have encoded := firstChar_encode_append c []
        rw [List.append_nil, ← whole, first] at encoded
        obtain rfl := Option.some.inj encoded
        have within := utf8Size_le_of_firstChar isFirst
        have sized := congrArg List.length whole
        rw [List.length_append, String.length_utf8EncodeChar] at sized
        exact absurd (List.eq_nil_of_length_eq_zero (by omega)) proper
  · obtain ⟨first, front, rfl⟩ := List.exists_cons_of_ne_nil nonempty
    obtain ⟨second, more, rest⟩ : ∃ second more,
        front ++ back = second :: more :=
      List.exists_cons_of_ne_nil fun none =>
        proper (List.append_eq_nil_iff.mp none).2
    rw [List.cons_append, rest] at shape
    obtain ⟨least, most⟩ := shape.head_mem
    simp [incomplete, broken, least, most]

theorem firstChar_nil : firstChar [] = none := by
  cases isFirst : firstChar [] with
  | none => rfl
  | some c =>
      have within := utf8Size_le_of_firstChar isFirst
      have size := c.utf8Size_pos
      rw [List.length_nil] at within
      omega

/-- **What is decoded of the encoding of a text so far** is a beginning of the
text, and what is kept back begins the encoding of the rest. -/
theorem decodeSome_encode {fuel : Nat} {bytes later : List UInt8}
    {text : List Char} (whole : bytes ++ later = encode text)
    (enough : bytes.length ≤ fuel) :
    ∃ rest, text = (decodeSome fuel bytes).1 ++ rest ∧
      (decodeSome fuel bytes).2 ++ later = encode rest ∧
      firstChar (decodeSome fuel bytes).2 = none := by
  induction fuel generalizing bytes text with
  | zero =>
      obtain rfl := List.eq_nil_of_length_eq_zero (Nat.le_zero.mp enough)
      exact ⟨text, rfl, whole, firstChar_nil⟩
  | succ fuel ih =>
      by_cases empty : bytes = []
      · subst empty
        exact ⟨text, rfl, whole, firstChar_nil⟩
      obtain ⟨byte, more, rfl⟩ := List.exists_cons_of_ne_nil empty
      cases text with
      | nil =>
          cases whole
      | cons c text =>
          have cut : (byte :: more) ++ later =
              String.utf8EncodeChar c ++ encode text := whole
          by_cases complete : ∃ front,
              byte :: more = String.utf8EncodeChar c ++ front
          · obtain ⟨front, begins⟩ := complete
            rw [begins, List.append_assoc] at cut
            have first : firstChar (byte :: more) = some c := by
              rw [begins]
              exact firstChar_encode_append c front
            have dropped : (byte :: more).drop c.utf8Size = front := by
              rw [begins, ← String.length_utf8EncodeChar, List.drop_left]
            have shorter : front.length ≤ fuel := by
              have size := c.utf8Size_pos
              have sized := congrArg List.length begins
              rw [List.length_append, String.length_utf8EncodeChar] at sized
              omega
            obtain ⟨rest, split, kept, stops⟩ :=
              ih (List.append_cancel_left cut) shorter
            rw [decodeSome, first]
            dsimp only
            rw [dropped]
            exact ⟨rest, congrArg (c :: ·) split, kept, stops⟩
          · rcases List.append_eq_append_iff.mp cut with
              ⟨back, begins, rest⟩ | ⟨front, begins, -⟩
            · have proper : back ≠ [] := by
                rintro rfl
                rw [List.append_nil] at begins
                exact complete ⟨[], by rw [List.append_nil, begins]⟩
              obtain ⟨first, keeps⟩ := kept_of_cut begins.symm empty proper
              rw [decodeSome, first]
              dsimp only
              rw [if_pos keeps]
              exact ⟨c :: text, rfl, whole, first⟩
            · exact absurd ⟨front, begins⟩ complete

/-- A decoder that has kept back no character goes on with the rest. -/
theorem TextDecoder.decode_encode {decoder : TextDecoder}
    {chunk later : List UInt8} {text : List Char}
    (whole : decoder.pending ++ (chunk ++ later) = encode text)
    (noMark : decoder.bomSeen = true ∨ text.head? ≠ some '\uFEFF') :
    ∃ rest, text = (decoder.decode chunk).1 ++ rest ∧
      (decoder.decode chunk).2.pending ++ later = encode rest ∧
      firstChar (decoder.decode chunk).2.pending = none ∧
      ((decoder.decode chunk).2.bomSeen = true ∨
        rest.head? ≠ some '\uFEFF') := by
  rw [← List.append_assoc] at whole
  obtain ⟨rest, split, kept, stops⟩ :=
    decodeSome_encode whole (Nat.le_refl _)
  unfold decode
  dsimp only
  by_cases seen : decoder.bomSeen = true
  · rw [if_pos seen]
    exact ⟨rest, split, kept, stops, .inl rfl⟩
  rw [if_neg seen]
  generalize decodeSome (decoder.pending ++ chunk).length
    (decoder.pending ++ chunk) = decoded at split kept stops
  obtain ⟨given, pending⟩ := decoded
  cases given with
  | nil =>
      refine ⟨rest, split, kept, stops, .inr ?_⟩
      have same : text = rest := split
      rw [← same]
      exact noMark.resolve_left seen
  | cons c given =>
      have notMark : c ≠ '\uFEFF' := by
        rintro rfl
        rw [split] at noMark
        exact noMark.resolve_left seen rfl
      dsimp only
      rw [if_neg notMark]
      exact ⟨rest, split, kept, stops, .inl rfl⟩

/-- **However the encoding of a text is cut**, what a decoder gives adds up to
the text, unless the text begins with a byte order mark. -/
theorem TextDecoder.flatten_texts {decoder : TextDecoder}
    {chunks : List (List UInt8)} {text : List Char}
    (whole : decoder.pending ++ chunks.flatten = encode text)
    (stops : firstChar decoder.pending = none)
    (noMark : decoder.bomSeen = true ∨ text.head? ≠ some '\uFEFF') :
    (decoder.texts chunks).flatten = text := by
  induction chunks generalizing decoder text with
  | nil =>
      rw [List.flatten_nil, List.append_nil] at whole
      cases text with
      | nil => rfl
      | cons c text =>
          rw [whole] at stops
          have first := firstChar_encode_append c (encode text)
          rw [show String.utf8EncodeChar c ++ encode text =
            encode (c :: text) from rfl, stops] at first
          cases first
  | cons chunk chunks ih =>
      rw [List.flatten_cons] at whole
      obtain ⟨rest, split, kept, stops, noMark⟩ :=
        decoder.decode_encode whole noMark
      rw [texts, List.flatten_cons, ih kept stops noMark]
      exact split.symm

end LossyUtf8
