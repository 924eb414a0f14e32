import TorchInference.LogLines

/-!
# Messages without their place

The pattern of the log viewer takes the target and the place in the source off a
message of the request logger, and leaves the fields.
-/

namespace TorchInference

namespace LogLines

open ClassPatterns

theorem captures_rest (rest : List Char) :
    captures [⟨true, [.many fun _ => true]⟩] rest = some [rest] := by
  have empty : matchPieces (captures ([] : List (Segment Char))) [] [] =
      some ([], []) := rfl
  have whole : matchPieces (captures []) [.many fun _ => true] (rest ++ []) =
      some (rest ++ [], []) :=
    matchPieces_many (fun _ _ => rfl) (by simp) empty
  rw [List.append_nil] at whole
  exact captures_cons ⟨true, [.many fun _ => true]⟩ whole

/-- One space is read where none follows. -/
theorem matchPieces_space {Result : Type} {next : List Char → Option Result}
    {rest : List Char} {result : Result}
    (solid : ∀ c ∈ rest.head?, ChatStream.isSpace c = false)
    (matched : next rest = some result) :
    matchPieces next [.one ChatStream.isSpace, .many ChatStream.isSpace]
      (' ' :: rest) = some ([' '], result) := by
  have none : ∀ c ∈ ([] : List Char), ChatStream.isSpace c = true := by simp
  exact matchPieces_word (by decide) none solid matched

/-- The line of an event: digits, a colon and a space. -/
theorem matchPieces_line {Result : Type} {next : List Char → Option Result}
    {rest : List Char} {result : Result} (line : Nat)
    (solid : ∀ c ∈ rest.head?, ChatStream.isSpace c = false)
    (matched : next rest = some result) :
    matchPieces next (.one Char.isDigit :: .many Char.isDigit :: (literal [':'] ++
        [.one ChatStream.isSpace, .many ChatStream.isSpace]))
      (Nat.toDigits 10 line ++ ([':'] ++ ' ' :: rest)) =
        some (Nat.toDigits 10 line ++ ([':'] ++ [' ']), result) := by
  obtain ⟨digit, digits, whole⟩ :=
    List.exists_cons_of_ne_nil (Nat.toDigits_ne_nil : Nat.toDigits 10 line ≠ [])
  have allDigits : ∀ c ∈ digit :: digits, c.isDigit = true := by
    rw [← whole]
    exact fun _ mem => Nat.isDigit_of_mem_toDigits (by decide) (by decide) mem
  obtain ⟨firstDigit, otherDigits⟩ := List.forall_mem_cons.mp allDigits
  have spaced := matchPieces_literal [':'] (' ' :: rest)
    (matchPieces_space solid matched)
  rw [whole, List.cons_append, matchPieces_one firstDigit,
    matchPieces_many otherDigits (by rintro c ⟨⟩; decide) spaced]
  rfl

/-- The place of an event is passed over. -/
theorem matchPieces_location {Result : Type} {next : List Char → Option Result}
    {rest : List Char} {result : Result} (line : Nat)
    (solid : ∀ c ∈ rest.head?, ChatStream.isSpace c = false)
    (matched : next rest = some result) :
    matchPieces next locationSegment.pieces
      ("src/middleware/request_logger".toList ++ (".rs:".toList ++
        (Nat.toDigits 10 line ++ ([':'] ++ ' ' :: rest)))) =
      some ('s' :: ("rc/middleware/request_logger".toList ++ (".rs:".toList ++
        (Nat.toDigits 10 line ++ ([':'] ++ [' '])))), result) := by
  have digits : ∀ c ∈ Nat.toDigits 10 line, c.isDigit = true :=
    fun _ mem => Nat.isDigit_of_mem_toDigits (by decide) (by decide) mem
  have behind := matchPieces_literal ".rs:".toList _
    (matchPieces_line line solid matched)
  have noDot : '.' ∉ "rs:".toList ++ (Nat.toDigits 10 line ++ [':']) := by
    have inDigits : '.' ∉ Nat.toDigits 10 line := fun mem =>
      absurd (digits _ mem) (by decide)
    simp only [List.mem_append, not_or]
    exact ⟨by decide, inDigits, by decide⟩
  have fails : ∀ suffix, suffix <:+ "rs:".toList ++ (Nat.toDigits 10 line ++ [':']) →
      matchPieces next (literal ".rs:".toList ++ (.one Char.isDigit ::
        .many Char.isDigit :: (literal [':'] ++
          [.one ChatStream.isSpace, .many ChatStream.isSpace])))
        (suffix ++ ' ' :: rest) = none := by
    intro suffix isSuffix
    refine matchPieces_one_eq_none fun c isFirst => ?_
    rw [decide_eq_false_iff_not]
    rintro rfl
    cases suffix with
    | nil => cases isFirst
    | cons d suffix =>
        obtain rfl : d = '.' := Option.some.inj isFirst
        exact noDot (isSuffix.subset List.mem_cons_self)
  have solidPath : ∀ c ∈ "rc/middleware/request_logger".toList,
      isSolid c = true := List.all_eq_true.mp (by decide)
  have same : (".rs:".toList ++ (Nat.toDigits 10 line ++ ([':'] ++ ' ' :: rest))) =
      '.' :: (("rs:".toList ++ (Nat.toDigits 10 line ++ [':'])) ++ ' ' :: rest) := by
    simp
  rw [same] at behind ⊢
  have path := greedy_upto solidPath (by rintro c ⟨⟩; decide) fails behind
  have first : "src/middleware/request_logger".toList =
      's' :: "rc/middleware/request_logger".toList := by decide
  have pieces : locationSegment.pieces = .one isSolid :: .many isSolid ::
      (literal ".rs:".toList ++ (.one Char.isDigit :: .many Char.isDigit ::
        (literal [':'] ++
          [.one ChatStream.isSpace, .many ChatStream.isSpace]))) := rfl
  rw [pieces, first, List.cons_append, matchPieces_one (by decide), matchPieces,
    path]
  rfl

theorem captures_location (line : Nat) {rest : List Char}
    (solid : ∀ c ∈ rest.head?, ChatStream.isSpace c = false) :
    captures [locationSegment, ⟨true, [.many fun _ => true]⟩]
      ("src/middleware/request_logger".toList ++ (".rs:".toList ++
        (Nat.toDigits 10 line ++ ([':'] ++ ' ' :: rest)))) = some [rest] :=
  captures_cons locationSegment
    (matchPieces_location line solid (captures_rest rest))

/-- A colon and a space. -/
theorem captures_colon {segments : List (Segment Char)} {text : List Char}
    {found : List (List Char)}
    (solid : ∀ c ∈ text.head?, ChatStream.isSpace c = false)
    (matched : captures segments text = some found) :
    captures (⟨false, literal [':'] ++
        [.one ChatStream.isSpace, .many ChatStream.isSpace]⟩ :: segments)
      (':' :: ' ' :: text) = some found :=
  captures_cons ⟨false, literal [':'] ++
      [.one ChatStream.isSpace, .many ChatStream.isSpace]⟩
    (matchPieces_literal [':'] (' ' :: text) (matchPieces_space solid matched))

/-- The target ends at its last colon. -/
theorem captures_target {segments : List (Segment Char)} {text : List Char}
    {found : List (List Char)} (noColon : captures segments (' ' :: text) = none)
    (matched : captures segments (':' :: ' ' :: text) = some found) :
    captures (⟨true, [.one isTargetChar, .many isTargetChar]⟩ :: segments)
      (target ++ ':' :: ' ' :: text) = some (target :: found) := by
  have targetChars : ∀ c ∈ "orch_inference_server::middleware::request_logger".toList,
      isTargetChar c = true := by
    rw [String.toList_ofList]
    exact List.all_eq_true.mp (by decide)
  have isTarget : target =
      't' :: "orch_inference_server::middleware::request_logger".toList :=
    String.toList_ofList.trans (congrArg (List.cons 't') String.toList_ofList.symm)
  have fails : ∀ suffix, suffix <:+ ([] : List Char) →
      matchPieces (captures segments) [] (suffix ++ ' ' :: text) = none := by
    intro suffix isSuffix
    rw [List.suffix_nil.mp isSuffix, List.nil_append, matchPieces, noColon]
    rfl
  have run := greedy_upto targetChars (by rintro c ⟨⟩; decide) fails
    (matchPieces_nil matched)
  have word : matchPieces (captures segments)
      [.one isTargetChar, .many isTargetChar] (target ++ ':' :: ' ' :: text) =
        some (target, found) := by
    rw [List.nil_append] at run
    rw [isTarget, List.cons_append, matchPieces_one (by decide), matchPieces, run,
      List.append_nil]
    rfl
  exact captures_cons ⟨true, [.one isTargetChar, .many isTargetChar]⟩ word

/-- The target and the place are taken off. -/
theorem splitMessage_logMessage (line : Nat)
    {fields : List (List Char × LoggedValue)}
    (solid : ∀ c ∈ (fieldsText fields).head?, ChatStream.isSpace c = false) :
    splitMessage (logMessage line fields) = (target, fieldsText fields) := by
  have behind := captures_colon (by rintro c ⟨⟩; decide)
    (captures_location line solid)
  have whole : captures (prefixPattern [locationSegment]) (logMessage line fields) =
      some [target, fieldsText fields] :=
    captures_target (captures_eq_none (by rintro c ⟨⟩; decide)) behind
  rw [splitMessage, whole]
  rfl

end LogLines

end TorchInference
