import TorchInference.AgentRequests
import TorchInference.Base64
import TorchInference.ChatCompletions

/-!
# The size of an image, decoded and estimated

The chat handler decodes an image and compares its length with the limit.  The
agent does not decode: it takes three quarters of the length of the text, and
so counts the padding of the last group as if it were data.
-/

namespace TorchInference

/-- The text before the comma names a media type. -/
def dataUri (mime : List Char) (bytes : List UInt8) : String :=
  String.ofList ("data:".toList ++ mime ++ ";base64".toList ++
    ',' :: Base64.encode bytes)

def ContentPart.url : ContentPart → Option String
  | .text _ => none
  | .imageUrl url => some url

/-- The images that are attached to messages. -/
def imageUrls (messages : List ChatMessage) : List String :=
  messages.flatMap fun message =>
    match message.content with
    | .text _ => []
    | .parts parts => parts.filterMap ContentPart.url

section Decoding

variable (base64Decode : String → Except String (List UInt8))

/-- What the chat handler asks of an image. -/
def AcceptsImage (maxImageBytes : Nat) (url : String) : Prop :=
  ∃ bytes, decodeDataUri base64Decode url = .ok bytes ∧
    bytes.length ≤ maxImageBytes

/-- Both services accept the image, whatever else the requests contain,
exactly when it is no longer than the limit. -/
def LimitsAgree (maxImageBytes : Nat) (mime : List Char)
    (bytes : List UInt8) : Prop :=
  ∀ audio messages,
    (imageUrls messages).head? = some (dataUri mime bytes) →
    ((AgentLayer.stageInputs (some ⟨some (dataUri mime bytes), audio⟩)
        maxImageBytes).isOk = true ↔
      (extractContent base64Decode maxImageBytes messages [] none).isOk =
        true) ∧
    ((extractContent base64Decode maxImageBytes messages [] none).isOk =
        true ↔
      bytes.length ≤ maxImageBytes)

/-! ## The chat handler -/

theorem extractParts_some (maxImageBytes : Nat) (parts : List ContentPart)
    (textBuf : String) (image : List UInt8) :
    ∃ text, extractParts base64Decode maxImageBytes parts textBuf
      (some image) = .ok (text, some image) := by
  induction parts generalizing textBuf with
  | nil => exact ⟨textBuf, rfl⟩
  | cons part parts ih =>
      cases part with
      | text text => exact ih (textBuf ++ text)
      | imageUrl url => exact ih textBuf

theorem extractContent_some (maxImageBytes : Nat)
    (messages : List ChatMessage) (pairs : List (String × String))
    (image : List UInt8) :
    (extractContent base64Decode maxImageBytes messages pairs
      (some image)).isOk = true := by
  induction messages generalizing pairs with
  | nil => rfl
  | cons message messages ih =>
      obtain ⟨role, content⟩ := message
      cases content with
      | text text => exact ih _
      | parts parts =>
          obtain ⟨text, found⟩ := extractParts_some base64Decode
            maxImageBytes parts "" image
          rw [extractContent, found]
          exact ih _

/-- The parts of a message are accepted when its first image is, and the image
is kept. -/
theorem extractParts_none (maxImageBytes : Nat) (parts : List ContentPart)
    (textBuf : String) :
    match (parts.filterMap ContentPart.url).head? with
    | none => ∃ text, extractParts base64Decode maxImageBytes parts textBuf
        none = .ok (text, none)
    | some url =>
        (∃ text bytes, extractParts base64Decode maxImageBytes parts textBuf
            none = .ok (text, some bytes) ∧
          AcceptsImage base64Decode maxImageBytes url) ∨
        (∃ e, extractParts base64Decode maxImageBytes parts textBuf none =
            .error e ∧
          ¬ AcceptsImage base64Decode maxImageBytes url) := by
  induction parts generalizing textBuf with
  | nil => exact ⟨textBuf, rfl⟩
  | cons part parts ih =>
      cases part with
      | text text => exact ih (textBuf ++ text)
      | imageUrl url =>
          simp only [List.filterMap_cons, ContentPart.url, List.head?_cons,
            extractParts]
          cases decoded : decodeDataUri base64Decode url with
          | error e =>
              refine Or.inr ⟨_, rfl, ?_⟩
              rintro ⟨bytes, isOk, -⟩
              rw [decoded] at isOk
              cases isOk
          | ok bytes =>
              by_cases exceeds : maxImageBytes < bytes.length
              · refine Or.inr ⟨_, if_pos exceeds, ?_⟩
                rintro ⟨found, isOk, fits⟩
                obtain rfl : bytes = found :=
                  Except.ok.inj (decoded.symm.trans isOk)
                exact Nat.not_lt.mpr fits exceeds
              · obtain ⟨text, kept⟩ := extractParts_some base64Decode
                  maxImageBytes parts textBuf bytes
                refine Or.inl ⟨text, bytes, ?_, bytes, decoded,
                  Nat.not_lt.mp exceeds⟩
                exact (if_neg exceeds).trans kept

/-- Only the first image of a request is looked at. -/
theorem extractContent_isOk_iff (maxImageBytes : Nat)
    (messages : List ChatMessage) (pairs : List (String × String)) :
    (extractContent base64Decode maxImageBytes messages pairs none).isOk =
        true ↔
      ∀ url ∈ (imageUrls messages).head?,
        AcceptsImage base64Decode maxImageBytes url := by
  induction messages generalizing pairs with
  | nil => simp [extractContent, imageUrls, Except.isOk, Except.toBool]
  | cons message messages ih =>
      obtain ⟨role, content⟩ := message
      cases content with
      | text text => exact ih _
      | parts parts =>
          have urls : imageUrls (⟨role, .parts parts⟩ :: messages) =
              parts.filterMap ContentPart.url ++ imageUrls messages :=
            List.flatMap_cons
          have read := extractParts_none base64Decode maxImageBytes parts ""
          rw [urls, List.head?_append, extractContent]
          cases first : (parts.filterMap ContentPart.url).head? with
          | none =>
              rw [first] at read
              obtain ⟨text, found⟩ := read
              rw [found]
              exact ih _
          | some url =>
              rw [first] at read
              rcases read with ⟨text, bytes, found, accepts⟩ |
                ⟨e, found, refuses⟩
              · simp [found, extractContent_some, accepts]
              · simp [found, refuses, Except.isOk, Except.toBool]

/-! ## The two limits -/

/-- The first comma of a data URI is the one before the data. -/
theorem dropWhile_dataUri {mime : List Char} (noComma : ',' ∉ mime)
    (bytes : List UInt8) :
    (dataUri mime bytes).toList.dropWhile (· != ',') =
        ',' :: Base64.encode bytes ∧
      (dataUri mime bytes).toList.takeWhile (· != ',') =
        "data:".toList ++ mime ++ ";base64".toList := by
  have isUri : (dataUri mime bytes).toList =
      "data:".toList ++ mime ++ ";base64".toList ++
        ',' :: Base64.encode bytes :=
    String.toList_ofList
  have passes : ∀ c ∈ "data:".toList ++ mime ++ ";base64".toList,
      (c != ',') = true := by
    intro c member
    simp only [List.mem_append] at member
    rw [bne_iff_ne]
    rintro rfl
    rcases member with (inScheme | inMime) | inMarker
    · simp at inScheme
    · exact noComma inMime
    · simp at inMarker
  rw [isUri]
  constructor
  · rw [List.dropWhile_append_of_pos passes,
      List.dropWhile_cons_of_neg (by decide)]
  · rw [List.takeWhile_append_of_pos passes,
      List.takeWhile_cons_of_neg (by decide), List.append_nil]

theorem decodeDataUri_dataUri {mime : List Char} (noComma : ',' ∉ mime)
    (bytes : List UInt8)
    (decodes : base64Decode (String.ofList (Base64.encode bytes)) =
      .ok bytes) :
    decodeDataUri base64Decode (dataUri mime bytes) = .ok bytes := by
  rw [decodeDataUri, (dropWhile_dataUri noComma bytes).1]
  simp [decodes]

/-- The agent counts every group of three bytes in full. -/
theorem stageInputs_dataUri {mime : List Char} (noComma : ',' ∉ mime)
    (bytes : List UInt8) (audio : Option String) (maxImageBytes : Nat) :
    (AgentLayer.stageInputs (some ⟨some (dataUri mime bytes), audio⟩)
        maxImageBytes).isOk = true ↔
      3 * ((bytes.length + 2) / 3) ≤ maxImageBytes := by
  have split : (AgentLayer.splitDataUriOrBare (dataUri mime bytes)
      "image/jpeg").2 = String.ofList (Base64.encode bytes) := by
    obtain ⟨body, head⟩ := dropWhile_dataUri noComma bytes
    rw [AgentLayer.splitDataUriOrBare, body, head]
    simp
  have estimate : 4 * ((bytes.length + 2) / 3) * 3 / 4 =
      3 * ((bytes.length + 2) / 3) := by
    omega
  simp only [AgentLayer.stageInputs, AgentLayer.stageOne, split,
    Base64.utf8ByteSize_encode, estimate]
  by_cases exceeds : maxImageBytes < 3 * ((bytes.length + 2) / 3)
  · rw [if_pos exceeds]
    exact iff_of_false nofun (Nat.not_le.mpr exceeds)
  · rw [if_neg exceeds]
    exact iff_of_true rfl (Nat.not_lt.mp exceeds)

/-- The limits agree on an image exactly when it is too large, or its length
is within the limit also when it is rounded up to a multiple of three. -/
theorem limitsAgree_iff {mime : List Char} (noComma : ',' ∉ mime)
    {bytes : List UInt8}
    (decodes : base64Decode (String.ofList (Base64.encode bytes)) =
      .ok bytes) (maxImageBytes : Nat) :
    LimitsAgree base64Decode maxImageBytes mime bytes ↔
      maxImageBytes < bytes.length ∨
        3 * ((bytes.length + 2) / 3) ≤ maxImageBytes := by
  have decoded := decodeDataUri_dataUri base64Decode noComma bytes decodes
  have chat : ∀ messages,
      (imageUrls messages).head? = some (dataUri mime bytes) →
      ((extractContent base64Decode maxImageBytes messages [] none).isOk =
        true ↔ bytes.length ≤ maxImageBytes) := by
    intro messages isFirst
    rw [extractContent_isOk_iff, isFirst]
    constructor
    · intro accepts
      obtain ⟨found, isOk, fits⟩ := accepts _ rfl
      obtain rfl : bytes = found := Except.ok.inj (decoded.symm.trans isOk)
      exact fits
    · rintro fits url ⟨⟩
      exact ⟨bytes, decoded, fits⟩
  constructor
  · intro agree
    obtain ⟨same, -⟩ := agree none
      [⟨"user", .parts [.imageUrl (dataUri mime bytes)]⟩] rfl
    rw [stageInputs_dataUri noComma, chat _ rfl] at same
    omega
  · intro condition audio messages isFirst
    refine ⟨?_, chat messages isFirst⟩
    rw [stageInputs_dataUri noComma, chat messages isFirst]
    omega

/-- Three bytes are one group. -/
theorem threeBytes_limitsAgree_iff :
    LimitsAgree (fun _ => .ok [1, 2, 3]) 3 "image/png".toList [1, 2, 3] ↔
      3 < [1, 2, 3].length ∨ 3 * (([1, 2, 3].length + 2) / 3) ≤ 3 :=
  limitsAgree_iff _ (by decide) rfl 3

/-- One byte, where one byte is allowed: the agent takes it for three. -/
theorem oneByte_not_limitsAgree :
    (extractContent (fun _ => .ok [0]) 1
        [⟨"user", .parts [.imageUrl "data:image/png;base64,AA=="]⟩] []
        none).isOk = true ∧
      AgentLayer.stageInputs (some ⟨some "data:image/png;base64,AA==", none⟩)
        1 = .error "image exceeds 1 bytes (~3 actual)" ∧
      ¬ LimitsAgree (fun _ => .ok [0]) 1 "image/png".toList [0] := by
  refine ⟨by decide, rfl, fun agree => ?_⟩
  obtain ⟨same, -⟩ := agree none
    [⟨"user", .parts [.imageUrl (dataUri "image/png".toList [0])]⟩] rfl
  exact absurd (same.mpr (by decide)) (by decide)

end Decoding

end TorchInference
