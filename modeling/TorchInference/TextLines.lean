import TorchInference.DelimitedText
import TorchInference.LossyUtf8
import TorchInference.Utf8Units

/-!
# Lines of a text

A line ends at a newline, and a carriage return right before the newline ends
it as well; what is behind the last newline is a line when it is not empty.
Lines that are joined by newlines are read back except for a blank line at the
end and for carriage returns at the end of the others.  The lines of an encoded
text are the encoded lines.
-/

namespace DelimitedText

variable {σ : Type*} [DecidableEq σ] {separator : σ}

/-- A piece without the separator goes to the front of the first piece. -/
theorem cutAt_append_of_not_mem {front : List σ} (free : separator ∉ front)
    (text : List σ) :
    cutAt separator (front ++ text) =
      match (cutAt separator text).1 with
      | [] => ([], front ++ (cutAt separator text).2)
      | piece :: pieces =>
          ((front ++ piece) :: pieces, (cutAt separator text).2) := by
  induction front with
  | nil => cases begins : (cutAt separator text).1 <;> simp [← begins]
  | cons symbol front ih =>
      have other : symbol ≠ separator := fun same =>
        free (same ▸ List.mem_cons_self)
      have later := ih fun mem => free (List.mem_cons_of_mem symbol mem)
      rw [List.cons_append]
      cases begins : (cutAt separator text).1 with
      | nil =>
          rw [begins] at later
          rw [cutAt_cons_of_nil other (congrArg Prod.fst later), later]
          rfl
      | cons piece pieces =>
          rw [begins] at later
          rw [cutAt_cons_of_cons other (congrArg Prod.fst later), later]
          rfl

/-- Neither the pieces nor what is left contains the separator. -/
theorem not_mem_cutAt (separator : σ) (text : List σ) :
    (∀ piece ∈ (cutAt separator text).1, separator ∉ piece) ∧
      separator ∉ (cutAt separator text).2 := by
  induction text with
  | nil => simp [cutAt]
  | cons symbol text ih =>
      by_cases same : symbol = separator
      · subst same
        rw [cutAt_separator]
        exact ⟨List.forall_mem_cons.mpr ⟨List.not_mem_nil, ih.1⟩, ih.2⟩
      cases begins : (cutAt separator text).1 with
      | nil =>
          rw [cutAt_cons_of_nil same begins]
          exact ⟨by simp, by simp [Ne.symm same, ih.2]⟩
      | cons piece pieces =>
          rw [cutAt_cons_of_cons same begins]
          rw [begins, List.forall_mem_cons] at ih
          exact ⟨List.forall_mem_cons.mpr
            ⟨by simp [Ne.symm same, ih.1.1], ih.1.2⟩, ih.2⟩

end DelimitedText

namespace TextLines

open DelimitedText

variable {σ : Type*} [DecidableEq σ]

/-- A line without the carriage return it ends in. -/
def stripReturn (carriage : σ) (line : List σ) : List σ :=
  if line.getLast? = some carriage then line.dropLast else line

def lines (newline carriage : σ) (text : List σ) : List (List σ) :=
  let cut := cutAt newline text
  cut.1.map (stripReturn carriage) ++ (if cut.2 = [] then [] else [cut.2])

def join (newline : σ) (pieces : List (List σ)) : List σ :=
  [newline].intercalate pieces

/-- The last line is not blank, and no other ends in a carriage return. -/
def ReadsBack (carriage : σ) (pieces : List (List σ)) : Prop :=
  pieces.getLast? ≠ some [] ∧
    ∀ piece ∈ pieces.dropLast, piece.getLast? ≠ some carriage

instance (carriage : σ) (pieces : List (List σ)) :
    Decidable (ReadsBack carriage pieces) :=
  inferInstanceAs (Decidable (_ ∧ _))

variable {newline carriage : σ}

theorem stripReturn_eq_self {line : List σ} :
    stripReturn carriage line = line ↔ line.getLast? ≠ some carriage := by
  unfold stripReturn
  by_cases ends : line.getLast? = some carriage
  · have nonempty : line ≠ [] := by
      rintro rfl
      cases ends
    rw [if_pos ends]
    refine iff_of_false (fun same => ?_) (not_not_intro ends)
    have shorter := congrArg List.length same
    rw [List.length_dropLast] at shorter
    have positive := List.length_pos_iff.mpr nonempty
    omega
  · rw [if_neg ends]
    exact iff_of_true rfl ends

theorem lines_piece {line : List σ} (free : newline ∉ line) (text : List σ) :
    lines newline carriage (line ++ newline :: text) =
      stripReturn carriage line :: lines newline carriage text := by
  rw [lines, cutAt_piece free, lines, List.map_cons, List.cons_append]

theorem lines_of_not_mem {text : List σ} (free : newline ∉ text) :
    lines newline carriage text = if text = [] then [] else [text] := by
  have whole : cutAt newline (text ++ []) = ([], text ++ []) :=
    cutAt_append_of_not_mem free []
  rw [List.append_nil] at whole
  rw [lines, whole, List.map_nil, List.nil_append]

/-- No line contains the newline. -/
theorem newline_not_mem_lines {text line : List σ}
    (mem : line ∈ lines newline carriage text) : newline ∉ line := by
  obtain ⟨pieces, rest⟩ := not_mem_cutAt newline text
  rcases List.mem_append.mp mem with inside | last
  · obtain ⟨piece, isPiece, rfl⟩ := List.mem_map.mp inside
    unfold stripReturn
    split
    · exact fun found => pieces piece isPiece
        ((List.dropLast_sublist piece).subset found)
    · exact pieces piece isPiece
  · split at last
    · cases last
    · rw [List.mem_singleton.mp last]
      exact rest

/-- Joined pieces are cut where they were joined. -/
theorem cutAt_join {init : List (List σ)} {last : List σ}
    (free : ∀ piece ∈ init ++ [last], newline ∉ piece) :
    cutAt newline (join newline (init ++ [last])) = (init, last) := by
  induction init with
  | nil =>
      have alone : join newline ([] ++ [last]) = last ++ [] := by
        simp [join]
      rw [alone, cutAt_append_of_not_mem (free last List.mem_cons_self)]
      simp [cutAt]
  | cons piece init ih =>
      have split : join newline (piece :: init ++ [last]) =
          piece ++ newline :: join newline (init ++ [last]) := by
        cases init <;> simp [join, List.intercalate_cons_cons]
      rw [List.cons_append, List.forall_mem_cons] at free
      rw [split, cutAt_piece free.1, ih free.2]

/-- What becomes of joined lines when they are read again. -/
theorem lines_join {init : List (List σ)} {last : List σ}
    (free : ∀ piece ∈ init ++ [last], newline ∉ piece) :
    lines newline carriage (join newline (init ++ [last])) =
      init.map (stripReturn carriage) ++
        (if last = [] then [] else [last]) := by
  rw [lines, cutAt_join free]

theorem lines_join_nil :
    lines newline carriage (join newline []) = [] :=
  rfl

/-- Joined lines are read back exactly when the last one is not blank and no
other ends in a carriage return. -/
theorem lines_join_eq_iff {pieces : List (List σ)}
    (free : ∀ piece ∈ pieces, newline ∉ piece) :
    lines newline carriage (join newline pieces) = pieces ↔
      ReadsBack carriage pieces := by
  rcases List.eq_nil_or_concat pieces with rfl | ⟨init, last, rfl⟩
  · exact iff_of_true lines_join_nil ⟨by simp, by simp⟩
  rw [List.concat_eq_append] at free ⊢
  rw [lines_join free, ReadsBack, List.getLast?_concat, List.dropLast_concat]
  by_cases blank : last = []
  · rw [if_pos blank]
    refine iff_of_false (fun same => ?_) fun back => back.1 (by rw [blank])
    have shorter := congrArg List.length same
    simp at shorter
  · rw [if_neg blank, List.append_left_inj]
    have notBlank : some last ≠ some [] := fun same =>
      blank (Option.some.inj same)
    rw [and_iff_right notBlank]
    calc
      init.map (stripReturn carriage) = init ↔
          init.map (stripReturn carriage) = init.map id := by
        rw [List.map_id]
      _ ↔ ∀ piece ∈ init, stripReturn carriage piece = piece :=
        List.map_inj_left
      _ ↔ ∀ piece ∈ init, piece.getLast? ≠ some carriage :=
        forall₂_congr fun _ _ => stripReturn_eq_self

/-- When joined lines are read back, so is how many they are. -/
theorem length_lines_join_eq_iff {pieces : List (List σ)}
    (free : ∀ piece ∈ pieces, newline ∉ piece) :
    (lines newline carriage (join newline pieces)).length = pieces.length ↔
      pieces.getLast? ≠ some [] := by
  rcases List.eq_nil_or_concat pieces with rfl | ⟨init, last, rfl⟩
  · exact iff_of_true rfl (by simp)
  rw [List.concat_eq_append] at free ⊢
  rw [lines_join free, List.getLast?_concat]
  by_cases blank : last = []
  · simp [blank]
  · simp [blank]

end TextLines

namespace LossyUtf8

open DelimitedText TextLines

variable {c separator : Char} {byte : UInt8}

/-- A byte that is a character of its own is in no other character. -/
theorem eq_of_single_mem (single : String.utf8EncodeChar separator = [byte])
    (mem : byte ∈ String.utf8EncodeChar c) : c = separator := by
  have small : byte.toNat < 128 := by
    have shape := encoding separator
    rw [single] at shape
    cases shape with
    | one small =>
        rw [UInt8.toNat_ofNat']
        omega
  have first := firstChar_encode_append separator []
  have shape := encoding c
  have own := firstChar_encode_append c []
  revert shape own mem
  generalize String.utf8EncodeChar c = bytes
  intro mem shape own
  have tooLarge {n : Nat} (large : 128 ≤ n) (inside : n < 256) :
      byte ≠ UInt8.ofNat n := by
    rintro rfl
    rw [UInt8.toNat_ofNat'] at small
    omega
  cases shape with
  | one inside =>
      rw [List.mem_singleton] at mem
      rw [single, mem] at first
      exact Option.some.inj (own.symm.trans first)
  | two =>
      simp only [List.mem_cons, List.not_mem_nil, or_false] at mem
      rcases mem with isByte | isByte
      all_goals exact absurd isByte (tooLarge (by omega) (by omega))
  | three =>
      simp only [List.mem_cons, List.not_mem_nil, or_false] at mem
      rcases mem with isByte | isByte | isByte
      all_goals exact absurd isByte (tooLarge (by omega) (by omega))
  | four =>
      simp only [List.mem_cons, List.not_mem_nil, or_false] at mem
      rcases mem with isByte | isByte | isByte | isByte
      all_goals exact absurd isByte (tooLarge (by omega) (by omega))

/-- The bytes of a text are cut where the text is. -/
theorem cutAt_encode (single : String.utf8EncodeChar separator = [byte])
    (text : List Char) :
    cutAt byte (encode text) =
      ((cutAt separator text).1.map encode,
        encode (cutAt separator text).2) := by
  induction text with
  | nil => rfl
  | cons c text ih =>
      by_cases same : c = separator
      · subst same
        rw [encode_cons, single, List.singleton_append, cutAt_separator,
          cutAt_separator, ih]
        rfl
      have free : byte ∉ String.utf8EncodeChar c := fun mem =>
        same (eq_of_single_mem single mem)
      rw [encode_cons, cutAt_append_of_not_mem free, ih]
      cases begins : (cutAt separator text).1 with
      | nil =>
          rw [cutAt_cons_of_nil same begins]
          simp [encode_cons]
      | cons piece pieces =>
          rw [cutAt_cons_of_cons same begins]
          simp [encode_cons]

theorem encode_eq_nil {text : List Char} : encode text = [] ↔ text = [] := by
  cases text with
  | nil => simp [encode]
  | cons c text =>
      rw [encode_cons, List.append_eq_nil_iff]
      exact iff_of_false (fun empty => String.utf8EncodeChar_ne_nil empty.1)
        (List.cons_ne_nil c text)

theorem stripReturn_encode
    (single : String.utf8EncodeChar separator = [byte])
    (line : List Char) :
    stripReturn byte (encode line) = encode (stripReturn separator line) := by
  rcases List.eq_nil_or_concat line with rfl | ⟨init, c, rfl⟩
  · rfl
  rw [List.concat_eq_append]
  have last : encode (init ++ [c]) = encode init ++ String.utf8EncodeChar c := by
    simp [encode]
  by_cases same : c = separator
  · subst same
    rw [last, single]
    simp [stripReturn]
  · have other : (encode (init ++ [c])).getLast? ≠ some byte := by
      rw [last, List.getLast?_append_of_ne_nil _ String.utf8EncodeChar_ne_nil]
      exact fun ends => same (eq_of_single_mem single
        (List.mem_of_getLast? ends))
    rw [stripReturn_eq_self.mpr other, stripReturn_eq_self.mpr]
    simpa using same

/-- The lines of the bytes of a text are the bytes of its lines. -/
theorem lines_encode {newline carriage : Char} {newlineByte returnByte : UInt8}
    (newlineSingle : String.utf8EncodeChar newline = [newlineByte])
    (returnSingle : String.utf8EncodeChar carriage = [returnByte])
    (text : List Char) :
    lines newlineByte returnByte (encode text) =
      (lines newline carriage text).map encode := by
  unfold lines
  rw [cutAt_encode newlineSingle]
  dsimp only
  rw [List.map_append, List.map_map, List.map_map]
  congr 1
  · exact List.map_congr_left fun piece _ =>
      stripReturn_encode returnSingle piece
  · by_cases blank : (cutAt newline text).2 = []
    · rw [if_pos blank, if_pos (encode_eq_nil.mpr blank), List.map_nil]
    · rw [if_neg blank, if_neg (mt encode_eq_nil.mp blank), List.map_singleton]

end LossyUtf8
