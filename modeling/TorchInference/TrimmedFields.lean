import TorchInference.AgentExecutor
import TorchInference.SentenceSplitter
import TorchInference.LossyUtf8

/-!
# Trimming the fields of a result

A text that is too long is cut in its bytes, back to the end of a character,
and a marker with its length is put behind what is left.  The marker has a
length of its own, and a text that is only a little too long becomes longer.
-/

namespace TorchInference

namespace AgentExecutor

open LossyUtf8

/-! ## Cutting bytes -/

theorem cutBytes_begins (threshold : Nat) (text : List Char) :
    cutBytes threshold text <+: text := by
  induction text generalizing threshold with
  | nil => exact List.prefix_rfl
  | cons c text ih =>
      rw [cutBytes]
      split_ifs
      · exact List.cons_prefix_cons.mpr ⟨rfl, ih _⟩
      · exact List.nil_prefix

theorem byteLength_cutBytes_le (threshold : Nat) (text : List Char) :
    byteLength (cutBytes threshold text) ≤ threshold := by
  induction text generalizing threshold with
  | nil => exact Nat.zero_le _
  | cons c text ih =>
      rw [cutBytes]
      split_ifs with fits
      · have later := ih (threshold - c.utf8Size)
        rw [byteLength_cons]
        omega
      · exact Nat.zero_le _

/-- Less than one character is lost of the bytes that are allowed. -/
theorem lt_byteLength_cutBytes_add_four {threshold : Nat} {text : List Char}
    (exceeds : threshold < byteLength text) :
    threshold < byteLength (cutBytes threshold text) + 4 := by
  induction text generalizing threshold with
  | nil => exact absurd exceeds (Nat.not_lt_zero _)
  | cons c text ih =>
      rw [byteLength_cons] at exceeds
      rw [cutBytes]
      split_ifs with fits
      · have left : threshold - c.utf8Size < byteLength text := by omega
        have later := ih left
        rw [byteLength_cons]
        omega
      · have atMost := c.utf8Size_le_four
        rw [byteLength_nil]
        omega

/-- What is left is the longest beginning with the bytes that are allowed. -/
theorem begins_cutBytes {threshold : Nat} {start text : List Char}
    (begins : start <+: text) (fits : byteLength start ≤ threshold) :
    start <+: cutBytes threshold text := by
  induction text generalizing threshold start with
  | nil => exact begins
  | cons c text ih =>
      cases start with
      | nil => exact List.nil_prefix
      | cons d start =>
          obtain ⟨rfl, later⟩ := List.cons_prefix_cons.mp begins
          rw [byteLength_cons] at fits
          rw [cutBytes, if_pos (by omega)]
          exact List.cons_prefix_cons.mpr ⟨rfl, ih later (by omega)⟩

theorem byteLength_le_of_begins {start text : List Char}
    (begins : start <+: text) : byteLength start ≤ byteLength text := by
  obtain ⟨rest, rfl⟩ := begins
  rw [byteLength_append]
  exact Nat.le_add_right _ _

/-- Bytes are dropped back to the end of a character. -/
theorem popInvalid_take_encode (threshold : Nat) (text : List Char) :
    popInvalid ((encode text).take threshold) =
      encode (cutBytes threshold text) := by
  have cut := cutBytes_begins threshold text
  apply popInvalid_eq
  · rw [List.prefix_take_iff, length_encode]
    refine ⟨?_, byteLength_cutBytes_le threshold text⟩
    obtain ⟨rest, whole⟩ := cut
    exact ⟨encode rest, by rw [← whole, encode, encode, encode,
      List.flatMap_append, whole]⟩
  · exact isSome_fromUtf8_iff.mpr ⟨_, rfl⟩
  · intro other begins valid
    obtain ⟨start, rfl⟩ := isSome_fromUtf8_iff.mp valid
    obtain ⟨begins, fits⟩ := List.prefix_take_iff.mp begins
    rw [length_encode] at fits ⊢
    rw [length_encode]
    exact byteLength_le_of_begins
      (begins_cutBytes (beginning_of_encode begins) fits)

/-! ## One field -/

/-- What is put behind a text that was cut. -/
def truncationMarker (originalLen : Nat) : String :=
  s!"...<truncated, original {originalLen}B>"

/-- The body of the loop of `trim_large_fields`, on the bytes of a text. -/
def trimText (threshold : Nat) (text : String) : String :=
  let originalLen := byteLength text.toList
  if threshold < originalLen then
    let cut := popInvalid ((encode text.toList).take threshold)
    let head := (fromUtf8 cut).getD []
    String.ofList head ++ truncationMarker originalLen
  else text

/-- `trim_large_fields`, on the bytes of the texts. -/
def trimFieldBytes (threshold : Nat) : JsonValue → JsonValue :=
  mapTextFields (trimText threshold)

theorem trimText_of_le {threshold : Nat} {text : String}
    (fits : byteLength text.toList ≤ threshold) :
    trimText threshold text = text := by
  rw [trimText]
  exact if_neg (not_lt.mpr fits)

/-- What is left of the bytes is a text, so that nothing is made up for it. -/
theorem trimText_of_lt {threshold : Nat} {text : String}
    (exceeds : threshold < byteLength text.toList) :
    trimText threshold text =
      String.ofList (cutBytes threshold text.toList) ++
        truncationMarker (byteLength text.toList) := by
  rw [trimText]
  dsimp only
  rw [if_pos exceeds, popInvalid_take_encode, fromUtf8_encode,
    Option.getD_some]

/-- The bytes are cut where the characters are. -/
theorem trimFieldBytes_eq (threshold : Nat) :
    trimFieldBytes threshold = trimLargeFields threshold := by
  unfold trimFieldBytes trimLargeFields
  congr 1
  funext text
  dsimp only
  split_ifs with exceeds
  · exact trimText_of_lt exceeds
  · exact trimText_of_le (not_lt.mp exceeds)

theorem byteLength_toDigits (n : Nat) :
    byteLength (Nat.toDigits 10 n) = (Nat.toDigits 10 n).length := by
  have single : ∀ c ∈ Nat.toDigits 10 n, c.utf8Size = 1 := by
    intro c mem
    have digit : c.isDigit = true :=
      Nat.isDigit_of_mem_toDigits (by decide) (by decide) mem
    have atMost := (Char.isDigit_iff_toNat.mp digit).2
    rw [Char.utf8Size_eq_one_iff, UInt32.le_iff_toNat_le]
    exact atMost.trans (by decide)
  rw [byteLength, List.map_congr_left single, List.map_const',
    List.sum_replicate_nat, Nat.mul_one]

theorem byteLength_truncationMarker (originalLen : Nat) :
    byteLength (truncationMarker originalLen).toList =
      (Nat.toDigits 10 originalLen).length + 26 := by
  have before : byteLength "...<truncated, original ".toList = 24 := by decide
  have after : byteLength "B>".toList = 2 := by decide
  have digits : byteLength (toString originalLen).toList =
      (Nat.toDigits 10 originalLen).length := by
    rw [Nat.toString_eq_ofList_toDigits, String.toList_ofList,
      byteLength_toDigits]
  have parts : truncationMarker originalLen =
      "...<truncated, original " ++ toString originalLen ++ "B>" :=
    rfl
  rw [parts, String.toList_append, String.toList_append, byteLength_append,
    byteLength_append, before, after, digits]
  omega

/-- What is expected of a text that is too long: it becomes a beginning of
itself, which lacks less than one character of the bytes that are allowed, and
the marker, and is shorter than before. -/
structure IsTrimmed (threshold : Nat) (text trimmed : String) : Prop where
  cut : ∃ head, head <+: text.toList ∧ threshold < byteLength head + 4 ∧
    byteLength head ≤ threshold ∧ trimmed =
      String.ofList head ++ truncationMarker (byteLength text.toList)
  shorter : byteLength trimmed.toList < byteLength text.toList

/-- Wherever a text that is too long may be cut, it loses more than the marker
has. -/
def LosesMore (threshold : Nat) (text : String) : Prop :=
  ∀ start, start <+: text.toList → byteLength start ≤ threshold →
    byteLength start +
        ((Nat.toDigits 10 (byteLength text.toList)).length + 26) <
      byteLength text.toList

/-- A text that is too long is always cut as expected, and is shorter than
before exactly when it loses more than the marker has. -/
theorem isTrimmed_trimText_iff {threshold : Nat} {text : String}
    (exceeds : threshold < byteLength text.toList) :
    IsTrimmed threshold text (trimText threshold text) ↔
      LosesMore threshold text := by
  have begins := cutBytes_begins threshold text.toList
  have fits := byteLength_cutBytes_le threshold text.toList
  have length : byteLength (trimText threshold text).toList =
      byteLength (cutBytes threshold text.toList) +
        ((Nat.toDigits 10 (byteLength text.toList)).length + 26) := by
    rw [trimText_of_lt exceeds, String.toList_append, String.toList_ofList,
      byteLength_append, byteLength_truncationMarker]
  constructor
  · intro trims start starts allowed
    have longest := byteLength_le_of_begins (begins_cutBytes starts allowed)
    have shorter := trims.shorter
    rw [length] at shorter
    exact lt_of_le_of_lt (Nat.add_le_add_right longest _) shorter
  · intro loses
    refine ⟨⟨_, begins, lt_byteLength_cutBytes_add_four exceeds, fits,
      trimText_of_lt exceeds⟩, ?_⟩
    rw [length]
    exact loses _ begins fits

/-! ## All fields -/

/-- What is expected of the value of a field: only a text that is too long is
changed. -/
def TrimsValue (threshold : Nat) : JsonValue → JsonValue → Prop
  | .string text, trimmed =>
      if threshold < byteLength text.toList then
        ∃ result, trimmed = .string result ∧ IsTrimmed threshold text result
      else trimmed = .string text
  | value, trimmed => trimmed = value

theorem trimsValue_string_iff {threshold : Nat} {text : String} :
    TrimsValue threshold (.string text) (.string (trimText threshold text)) ↔
      (threshold < byteLength text.toList → LosesMore threshold text) := by
  rw [TrimsValue]
  split_ifs with exceeds
  · rw [imp_iff_right exceeds, ← isTrimmed_trimText_iff exceeds]
    constructor
    · rintro ⟨result, ⟨⟩, trims⟩
      exact trims
    · exact fun trims => ⟨_, rfl, trims⟩
  · exact iff_of_true (by rw [trimText_of_le (not_lt.mp exceeds)])
      fun reached => absurd reached exceeds

/-- The fields of an object are trimmed as expected exactly when each text that
is too long loses more than the marker has. -/
theorem trimFieldBytes_trims_iff (threshold : Nat)
    (entries : List (String × JsonValue)) :
    ∃ trimmed,
      trimFieldBytes threshold (.object entries) = .object trimmed ∧
      (List.Forall₂ (fun field result => result.1 = field.1 ∧
          TrimsValue threshold field.2 result.2) entries trimmed ↔
        ∀ key text, (key, .string text) ∈ entries →
          threshold < byteLength text.toList → LosesMore threshold text) := by
  refine ⟨_, rfl, ?_⟩
  rw [List.forall₂_map_right_iff, List.forall₂_same]
  constructor
  · intro trims key text mem
    exact trimsValue_string_iff.mp (trims _ mem).2
  · rintro loses ⟨key, value⟩ mem
    cases value with
    | string text =>
        exact ⟨rfl, trimsValue_string_iff.mpr (loses key text mem)⟩
    | null | bool | number | array | object => exact ⟨rfl, rfl⟩

/-- A text that is too long by one byte becomes longer. -/
theorem elevenBytes_not_shorter :
    trimFieldBytes 10 (.object [("big", .string "AAAAAAAAAAA")]) =
        .object [("big", .string "AAAAAAAAAA...<truncated, original 11B>")] ∧
      ¬ List.Forall₂ (fun field result => result.1 = field.1 ∧
          TrimsValue 10 field.2 result.2)
        [("big", .string "AAAAAAAAAAA")]
        [("big", .string "AAAAAAAAAA...<truncated, original 11B>")] := by
  constructor
  · rw [trimFieldBytes_eq]
    rfl
  · intro trims
    obtain ⟨⟨-, result, same, trimmed⟩, -⟩ := List.forall₂_cons.mp trims
    injection same with same
    subst same
    exact absurd trimmed.shorter (by decide)

end AgentExecutor

end TorchInference
