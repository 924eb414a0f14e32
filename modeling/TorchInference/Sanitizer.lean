import TorchInference.CanonicalJson
import TorchInference.ExceptSteps
import TorchInference.KokoroEngine
import TorchInference.OrderedInsertion

/-!
# Sanitizing the input of an inference

The sanitizer removes control characters from keys and texts, bounds the length
of texts, and checks what is given under a key for images.  What it looks at
depends on the key as it is given and on the kind of the value: an object under
a key for texts and everything but a string under a key for images is passed
on as it is.
-/

namespace TorchInference

structure SanitizerConfig where
  maxTextLength : Nat
  sanitizeText : Bool
  sanitizeImageDimensions : Bool
  maxImageWidth : UInt32
  maxImageHeight : UInt32

def JsonValue.asU64 : JsonValue → Option Nat
  | .number (.posInt value) => some value.toNat
  | _ => none

namespace Sanitizer

open ExceptSteps OrderedInsertion

/-- The characters that `CONTROL_CHARS` matches. -/
def isControl (c : Char) : Bool :=
  c.toNat ≤ 0x08 || c.toNat == 0x0B || c.toNat == 0x0C ||
    (0x0E ≤ c.toNat && c.toNat ≤ 0x1F) || c.toNat == 0x7F

def clean (text : String) : String :=
  String.ofList (text.toList.filter fun c => !isControl c)

/-- The characters that image data may have. -/
def isBase64 (c : Char) : Bool :=
  c.isAlphanum || c == '+' || c == '/' || c == '='

def isImageKey (key : String) : Bool :=
  key == "image" || key == "image_data"

def isTextKey (key : String) : Bool :=
  key == "text" || key == "prompt"

variable (config : SanitizerConfig)

def sanitizeText (text : String) : Except String String :=
  let length := byteLength text.toList
  if config.maxTextLength < length then
    .error s!"Text length {length} exceeds maximum {config.maxTextLength}"
  else .ok (clean text)

mutual

def sanitizeTextInput : JsonValue → Except String JsonValue
  | .string text => do
      let text ← sanitizeText config text
      return .string text
  | .array values => do
      let values ← sanitizeTextInputs values
      return .array values
  | value => return value

def sanitizeTextInputs : List JsonValue → Except String (List JsonValue)
  | [] => return []
  | value :: values => do
      let value ← sanitizeTextInput value
      let values ← sanitizeTextInputs values
      return value :: values

end

/-- The check of the width and the height that an image gives for itself. -/
def checkDimensions (value : JsonValue) : Except String Unit :=
  if config.sanitizeImageDimensions then
    match (value.field "width").bind JsonValue.asU64,
        (value.field "height").bind JsonValue.asU64 with
    | some w, some h =>
        let maxWidth := config.maxImageWidth.toNat
        let maxHeight := config.maxImageHeight.toNat
        if maxWidth < w ∨ maxHeight < h then
          .error
            s!"Image dimensions {w}x{h} exceed limit {maxWidth}x{maxHeight}"
        else .ok ()
    | _, _ => .ok ()
  else .ok ()

def sanitizeImageInput (value : JsonValue) : Except String JsonValue :=
  match value with
  | .string text =>
      if 10000000 < byteLength text.toList then
        .error "Image data too large"
      else if text.toList.any (fun c => !isBase64 c) then
        .error "Invalid characters in image data"
      else .ok value
  | .object _ => do
      checkDimensions config value
      return value
  | _ => .ok value

mutual

def sanitizeInput : JsonValue → Except String JsonValue
  | .object entries => do
      let entries ← sanitizeEntries entries []
      return .object entries
  | .array values => do
      let values ← sanitizeInputs values
      return .array values
  | .string text =>
      if config.sanitizeText then do
        let text ← sanitizeText config text
        return .string text
      else return .string text
  | .number (.float bits) =>
      if FiniteBits bits then return .number (.float bits)
      else .error "Input contains NaN or Infinite values"
  | value => return value

def sanitizeInputs : List JsonValue → Except String (List JsonValue)
  | [] => return []
  | value :: values => do
      let value ← sanitizeInput value
      let values ← sanitizeInputs values
      return value :: values

/-- The loop over the members of an object, which are put into a new map. -/
def sanitizeEntries : List (String × JsonValue) →
    List (String × JsonValue) → Except String (List (String × JsonValue))
  | [], newMap => return newMap
  | (key, value) :: entries, newMap => do
      let safeKey ← sanitizeText config key
      let safeValue ←
        (if isImageKey key then sanitizeImageInput config value
        else if isTextKey key then sanitizeTextInput config value
        else sanitizeInput value)
      sanitizeEntries entries (OrderedInsertion.insert safeKey safeValue newMap)

end

/-! ## The policy -/

/-- A text without control characters that is not too long. -/
def TextClean (text : String) : Prop :=
  (∀ c ∈ text.toList, isControl c = false) ∧
    byteLength text.toList ≤ config.maxTextLength

def ImageData (text : String) : Prop :=
  (∀ c ∈ text.toList, isBase64 c = true) ∧
    byteLength text.toList ≤ 10000000

/-- A string that is given for an image is image data. -/
def ImageValue : JsonValue → Prop
  | .string text => ImageData text
  | _ => True

variable (relaxed : String → Prop)

mutual

/-- Whether keys and texts are clean and what is given for an image is image
data.  Texts anywhere below a key for images are under a relaxed rule. -/
def Conforms : Bool → JsonValue → Prop
  | underImage, .string text =>
      if underImage then relaxed text else TextClean config text
  | underImage, .array values => ConformsAll underImage values
  | underImage, .object entries => ConformsEntries underImage entries
  | _, _ => True

def ConformsAll : Bool → List JsonValue → Prop
  | _, [] => True
  | underImage, value :: values =>
      Conforms underImage value ∧ ConformsAll underImage values

def ConformsEntries : Bool → List (String × JsonValue) → Prop
  | _, [] => True
  | underImage, (key, value) :: entries =>
      (TextClean config key ∧ (isImageKey key → ImageValue value) ∧
          Conforms (underImage || isImageKey key) value) ∧
        ConformsEntries underImage entries

end

/-! ## What the sanitizer does not look at -/

mutual

/-- Whether what is passed on below a key for texts conforms by itself. -/
def PassedTextConforms : Bool → JsonValue → Prop
  | _, .string _ => True
  | underImage, .array values => PassedTextsConform underImage values
  | underImage, value => Conforms config relaxed underImage value

def PassedTextsConform : Bool → List JsonValue → Prop
  | _, [] => True
  | underImage, value :: values =>
      PassedTextConforms underImage value ∧
        PassedTextsConform underImage values

end

/-- A string is image data once it is cleaned. -/
def CleanedImageValue : JsonValue → Prop
  | .string text => ImageData (clean text)
  | _ => True

mutual

/-- Whether what is passed on conforms by itself: the values below keys for
images, and below keys for texts.  A string below a key that only becomes one
for images when it is cleaned must be image data.  A member does not matter
when a later one has the same key after cleaning. -/
def PassedOnConforms : Bool → JsonValue → Prop
  | underImage, .array values => PassedOnConformAll underImage values
  | underImage, .object entries => PassedOnConformEntries underImage entries
  | _, _ => True

def PassedOnConformAll : Bool → List JsonValue → Prop
  | _, [] => True
  | underImage, value :: values =>
      PassedOnConforms underImage value ∧
        PassedOnConformAll underImage values

def PassedOnConformEntries : Bool → List (String × JsonValue) → Prop
  | _, [] => True
  | underImage, (key, value) :: entries =>
      (clean key ∈ entries.map (fun entry => clean entry.1) ∨
        if isImageKey key then Conforms config relaxed true value
        else if isTextKey key then
          PassedTextConforms config relaxed underImage value
        else (isImageKey (clean key) → CleanedImageValue value) ∧
          PassedOnConforms (underImage || isImageKey (clean key)) value) ∧
      PassedOnConformEntries underImage entries

end

/-! ## Unfolded over members -/

variable {config relaxed} {underImage : Bool}

theorem conforms_array (values : List JsonValue) :
    Conforms config relaxed underImage (.array values) ↔
      ∀ value ∈ values, Conforms config relaxed underImage value := by
  rw [Conforms]
  induction values with
  | nil => simp [ConformsAll]
  | cons value values ih => rw [ConformsAll, ih, List.forall_mem_cons]

/-- What is asked of a member of an object. -/
def MemberConforms (config : SanitizerConfig) (relaxed : String → Prop)
    (underImage : Bool) (entry : String × JsonValue) : Prop :=
  TextClean config entry.1 ∧ (isImageKey entry.1 → ImageValue entry.2) ∧
    Conforms config relaxed (underImage || isImageKey entry.1) entry.2

theorem conforms_object (entries : List (String × JsonValue)) :
    Conforms config relaxed underImage (.object entries) ↔
      ∀ entry ∈ entries, MemberConforms config relaxed underImage entry := by
  rw [Conforms]
  induction entries with
  | nil => simp [ConformsEntries]
  | cons entry entries ih =>
      rw [ConformsEntries, ih, List.forall_mem_cons]
      rfl

theorem clean_control_free (text : String) :
    ∀ c ∈ (clean text).toList, isControl c = false := by
  intro c mem
  rw [clean, String.toList_ofList, List.mem_filter] at mem
  simpa using mem.2

theorem byteLength_filter_le (keeps : Char → Bool) (text : List Char) :
    byteLength (text.filter keeps) ≤ byteLength text := by
  induction text with
  | nil => exact Nat.le_refl 0
  | cons c text ih =>
      rw [List.filter_cons, byteLength_cons]
      split_ifs
      · rw [byteLength_cons]
        omega
      · omega

theorem byteLength_clean_le (text : String) :
    byteLength (clean text).toList ≤ byteLength text.toList := by
  rw [clean, String.toList_ofList]
  exact byteLength_filter_le _ _

/-- A text that is accepted comes out clean. -/
theorem textClean_of_sanitizeText {text cleaned : String}
    (accepted : sanitizeText config text = .ok cleaned) :
    cleaned = clean text ∧ TextClean config cleaned := by
  simp only [sanitizeText] at accepted
  split_ifs at accepted with long
  obtain rfl := Except.ok.inj accepted
  exact ⟨rfl, clean_control_free text,
    (byteLength_clean_le text).trans (not_lt.mp long)⟩

/-- Keys for images have no control characters. -/
theorem clean_of_isImageKey {key : String} (image : isImageKey key = true) :
    clean key = key := by
  rw [isImageKey, Bool.or_eq_true, beq_iff_eq, beq_iff_eq] at image
  rcases image with rfl | rfl <;> decide

theorem clean_of_isTextKey {key : String} (text : isTextKey key = true) :
    clean key = key ∧ isImageKey key = false := by
  rw [isTextKey, Bool.or_eq_true, beq_iff_eq, beq_iff_eq] at text
  rcases text with rfl | rfl <;> decide

/-! ## Each walk -/

theorem sanitizeTextInputs_eq (values : List JsonValue) :
    sanitizeTextInputs config values =
      values.mapM (sanitizeTextInput config) := by
  induction values with
  | nil => rfl
  | cons value values ih => rw [sanitizeTextInputs, ih, List.mapM_cons]

theorem sanitizeInputs_eq (values : List JsonValue) :
    sanitizeInputs config values = values.mapM (sanitizeInput config) := by
  induction values with
  | nil => rfl
  | cons value values ih => rw [sanitizeInputs, ih, List.mapM_cons]

theorem passedTextConforms_array (values : List JsonValue) :
    PassedTextConforms config relaxed underImage (.array values) ↔
      ∀ value ∈ values,
        PassedTextConforms config relaxed underImage value := by
  rw [PassedTextConforms]
  induction values with
  | nil => simp [PassedTextsConform]
  | cons value values ih => rw [PassedTextsConform, ih, List.forall_mem_cons]

theorem passedOnConforms_array (values : List JsonValue) :
    PassedOnConforms config relaxed underImage (.array values) ↔
      ∀ value ∈ values, PassedOnConforms config relaxed underImage value := by
  rw [PassedOnConforms]
  induction values with
  | nil => simp [PassedOnConformAll]
  | cons value values ih => rw [PassedOnConformAll, ih, List.forall_mem_cons]

section Walks

variable (loosens : ∀ text, TextClean config text → relaxed text)

include loosens

theorem conforms_string {text : String} (isClean : TextClean config text) :
    Conforms config relaxed underImage (.string text) := by
  rw [Conforms]
  split_ifs
  · exact loosens text isClean
  · exact isClean

/-- Below a key for texts strings come out clean, and arrays are walked. -/
theorem conforms_sanitizeTextInput (value : JsonValue) :
    ∀ out, sanitizeTextInput config value = .ok out →
      (Conforms config relaxed underImage out ↔
        PassedTextConforms config relaxed underImage value) := by
  induction value using JsonValue.memberInduction with
  | null | bool value | number value | object entries ih =>
      rintro _ ⟨⟩
      rw [PassedTextConforms]
      all_goals simp
  | string text =>
      intro out accepted
      rw [sanitizeTextInput] at accepted
      obtain ⟨cleaned, sanitized, accepted⟩ := bind_eq_ok accepted
      obtain rfl := Except.ok.inj accepted
      rw [PassedTextConforms, iff_true]
      exact conforms_string loosens (textClean_of_sanitizeText sanitized).2
  | array values ih =>
      intro out accepted
      rw [sanitizeTextInput] at accepted
      obtain ⟨outs, sanitized, accepted⟩ := bind_eq_ok accepted
      obtain rfl := Except.ok.inj accepted
      rw [sanitizeTextInputs_eq] at sanitized
      rw [conforms_array, passedTextConforms_array]
      exact forall_mapM_iff sanitized ih

end Walks

/-- A value for an image is passed on as it is, once it has been checked. -/
theorem imageValue_of_sanitizeImageInput {value out : JsonValue}
    (accepted : sanitizeImageInput config value = .ok out) :
    out = value ∧ ImageValue value := by
  cases value with
  | string text =>
      simp only [sanitizeImageInput] at accepted
      split_ifs at accepted with long invalid
      refine ⟨(Except.ok.inj accepted).symm, ?_, not_lt.mp long⟩
      intro c mem
      by_contra wrong
      exact invalid (List.any_eq_true.mpr ⟨c, mem, by simpa using wrong⟩)
  | object entries =>
      obtain ⟨_, _, accepted⟩ := bind_eq_ok accepted
      exact ⟨(Except.ok.inj accepted).symm, trivial⟩
  | null | bool value | number value | array values =>
      exact ⟨(Except.ok.inj accepted).symm, trivial⟩

/-- What a text below a key that is for images only when cleaned comes to. -/
theorem imageValue_sanitizeInput (sanitizes : config.sanitizeText = true)
    {value out : JsonValue}
    (accepted : sanitizeInput config value = .ok out) :
    ImageValue out ↔ CleanedImageValue value := by
  cases value with
  | string text =>
      rw [sanitizeInput, if_pos sanitizes] at accepted
      obtain ⟨cleaned, sanitized, accepted⟩ := bind_eq_ok accepted
      obtain rfl := Except.ok.inj accepted
      rw [ImageValue, CleanedImageValue,
        (textClean_of_sanitizeText sanitized).1]
  | object entries =>
      rw [sanitizeInput] at accepted
      obtain ⟨_, _, accepted⟩ := bind_eq_ok accepted
      obtain rfl := Except.ok.inj accepted
      rfl
  | array values =>
      rw [sanitizeInput] at accepted
      obtain ⟨_, _, accepted⟩ := bind_eq_ok accepted
      obtain rfl := Except.ok.inj accepted
      rfl
  | number number =>
      cases number with
      | float bits =>
          rw [sanitizeInput] at accepted
          split_ifs at accepted
          obtain rfl := Except.ok.inj accepted
          rfl
      | posInt value | negInt value =>
          obtain rfl := Except.ok.inj accepted
          rfl
  | null | bool value =>
      obtain rfl := Except.ok.inj accepted
      rfl

/-- One member of an object, before it is put into the new map. -/
def sanitizeMember (config : SanitizerConfig) (entry : String × JsonValue) :
    Except String (String × JsonValue) := do
  let safeKey ← sanitizeText config entry.1
  let safeValue ←
    (if isImageKey entry.1 then sanitizeImageInput config entry.2
    else if isTextKey entry.1 then sanitizeTextInput config entry.2
    else sanitizeInput config entry.2)
  return (safeKey, safeValue)

theorem sanitizeEntries_eq_ok {entries newMap out : List (String × JsonValue)}
    (accepted : sanitizeEntries config entries newMap = .ok out) :
    ∃ members, entries.mapM (sanitizeMember config) = .ok members ∧
      out = insertAll members newMap := by
  induction entries generalizing newMap with
  | nil =>
      obtain rfl := Except.ok.inj accepted
      exact ⟨[], rfl, rfl⟩
  | cons entry entries ih =>
      rw [sanitizeEntries] at accepted
      obtain ⟨safeKey, keyAccepted, accepted⟩ := bind_eq_ok accepted
      obtain ⟨safeValue, valueAccepted, accepted⟩ := bind_eq_ok accepted
      obtain ⟨members, visited, rfl⟩ := ih accepted
      refine ⟨(safeKey, safeValue) :: members, ?_, rfl⟩
      have first : sanitizeMember config entry = .ok (safeKey, safeValue) := by
        rw [sanitizeMember, keyAccepted]
        exact congrArg (· >>= fun safeValue => .ok (safeKey, safeValue))
          valueAccepted
      rw [List.mapM_cons, first, visited]
      rfl

theorem key_of_sanitizeMember {entry member : String × JsonValue}
    (accepted : sanitizeMember config entry = .ok member) :
    member.1 = clean entry.1 := by
  obtain ⟨safeKey, keyAccepted, accepted⟩ := bind_eq_ok accepted
  obtain ⟨safeValue, _, accepted⟩ := bind_eq_ok accepted
  obtain rfl := Except.ok.inj accepted
  exact (textClean_of_sanitizeText keyAccepted).1

theorem keys_of_sanitizeMember {entries members : List (String × JsonValue)}
    (each : List.Forall₂
      (fun entry member => sanitizeMember config entry = .ok member)
      entries members) :
    members.map Prod.fst = entries.map fun entry => clean entry.1 := by
  induction each with
  | nil => rfl
  | cons first _ ih =>
      rw [List.map_cons, List.map_cons, ih, key_of_sanitizeMember first]

section Members

variable (loosens : ∀ text, TextClean config text → relaxed text)
  (sanitizes : config.sanitizeText = true)

include loosens sanitizes

theorem memberConforms_sanitizeMember {entry member : String × JsonValue}
    (accepted : sanitizeMember config entry = .ok member)
    (walked : ∀ underImage out, sanitizeInput config entry.2 = .ok out →
      (Conforms config relaxed underImage out ↔
        PassedOnConforms config relaxed underImage entry.2)) :
    MemberConforms config relaxed underImage member ↔
      if isImageKey entry.1 then Conforms config relaxed true entry.2
      else if isTextKey entry.1 then
        PassedTextConforms config relaxed underImage entry.2
      else (isImageKey (clean entry.1) → CleanedImageValue entry.2) ∧
        PassedOnConforms config relaxed
          (underImage || isImageKey (clean entry.1)) entry.2 := by
  obtain ⟨safeKey, keyAccepted, accepted⟩ := bind_eq_ok accepted
  obtain ⟨safeValue, valueAccepted, accepted⟩ := bind_eq_ok accepted
  obtain rfl := Except.ok.inj accepted
  obtain ⟨rfl, isClean⟩ := textClean_of_sanitizeText keyAccepted
  simp only [MemberConforms, isClean, true_and]
  split_ifs at valueAccepted ⊢ with image text
  · obtain ⟨rfl, data⟩ := imageValue_of_sanitizeImageInput valueAccepted
    simp [clean_of_isImageKey image, image, data]
  · obtain ⟨same, noImage⟩ := clean_of_isTextKey text
    rw [same, noImage]
    simpa using conforms_sanitizeTextInput loosens entry.2 _ valueAccepted
  · rw [imageValue_sanitizeInput sanitizes valueAccepted,
      walked _ _ valueAccepted]

/-- A member that survives conforms exactly when what is passed on does. -/
theorem conforms_survivors {entries members : List (String × JsonValue)}
    (visited : entries.mapM (sanitizeMember config) = .ok members)
    (walked : ∀ entry ∈ entries, ∀ underImage out,
      sanitizeInput config entry.2 = .ok out →
      (Conforms config relaxed underImage out ↔
        PassedOnConforms config relaxed underImage entry.2)) :
    (∀ member ∈ survivors members,
      MemberConforms config relaxed underImage member) ↔
      PassedOnConformEntries config relaxed underImage entries := by
  have each := mapM_eq_ok visited
  clear visited
  induction each with
  | nil => simp [survivors, PassedOnConformEntries]
  | @cons entry member entries members first later ih =>
      have rest := ih fun other mem =>
        walked other (List.mem_cons_of_mem entry mem)
      rw [forall_survivors_cons, PassedOnConformEntries,
        keys_of_sanitizeMember later, key_of_sanitizeMember first,
        memberConforms_sanitizeMember loosens sanitizes first
          (walked entry List.mem_cons_self)]
      exact and_congr_right fun _ => rest

/-- What is accepted conforms exactly when what is passed on does. -/
theorem conforms_sanitizeInput (value : JsonValue) :
    ∀ underImage out, sanitizeInput config value = .ok out →
      (Conforms config relaxed underImage out ↔
        PassedOnConforms config relaxed underImage value) := by
  induction value using JsonValue.memberInduction with
  | null | bool value =>
      rintro underImage _ ⟨⟩
      rw [PassedOnConforms]
      all_goals simp [Conforms]
  | number number =>
      intro underImage out accepted
      have same : out = .number number := by
        cases number with
        | float bits =>
            rw [sanitizeInput] at accepted
            split_ifs at accepted
            exact (Except.ok.inj accepted).symm
        | posInt value | negInt value => exact (Except.ok.inj accepted).symm
      rw [same, PassedOnConforms]
      all_goals simp [Conforms]
  | string text =>
      intro underImage out accepted
      rw [sanitizeInput, if_pos sanitizes] at accepted
      obtain ⟨cleaned, sanitized, accepted⟩ := bind_eq_ok accepted
      obtain rfl := Except.ok.inj accepted
      have conforms : Conforms config relaxed underImage (.string cleaned) :=
        conforms_string loosens (textClean_of_sanitizeText sanitized).2
      rw [PassedOnConforms]
      all_goals simp [conforms]
  | array values ih =>
      intro underImage out accepted
      rw [sanitizeInput] at accepted
      obtain ⟨outs, sanitized, accepted⟩ := bind_eq_ok accepted
      obtain rfl := Except.ok.inj accepted
      rw [sanitizeInputs_eq] at sanitized
      rw [conforms_array, passedOnConforms_array]
      exact forall_mapM_iff sanitized fun value mem => ih value mem underImage
  | object entries ih =>
      intro underImage out accepted
      rw [sanitizeInput] at accepted
      obtain ⟨outs, sanitized, accepted⟩ := bind_eq_ok accepted
      obtain rfl := Except.ok.inj accepted
      obtain ⟨members, visited, rfl⟩ := sanitizeEntries_eq_ok sanitized
      rw [conforms_object, PassedOnConforms]
      simp only [mem_insertAll_nil]
      exact conforms_survivors loosens sanitizes visited
        fun entry mem => ih entry mem

end Members

/-! ## The whole input -/

/-- Accepted input conforms to the policy exactly when the parts of it that are
passed on conform by themselves. -/
theorem conforms_iff (config : SanitizerConfig)
    (sanitizes : config.sanitizeText = true) (relaxed : String → Prop)
    (loosens : ∀ text, TextClean config text → relaxed text)
    (input out : JsonValue) (accepted : sanitizeInput config input = .ok out) :
    Conforms config relaxed false out ↔
      PassedOnConforms config relaxed false input :=
  conforms_sanitizeInput loosens sanitizes input false out accepted

/-- The default of the configuration. -/
def defaultConfig : SanitizerConfig where
  maxTextLength := 10000
  sanitizeText := true
  sanitizeImageDimensions := true
  maxImageWidth := 4096
  maxImageHeight := 4096

def flatInput : JsonValue :=
  .object [("image", .string "QUJD"), ("notes", .object [("a", .null)]),
    ("text", .array [.string "a\x01b"])]

theorem flatInput_conforms :
    ∃ out, sanitizeInput defaultConfig flatInput = .ok out ∧
      Conforms defaultConfig (fun _ => True) false out := by
  refine ⟨.object [("image", .string "QUJD"), ("notes", .object [("a", .null)]),
    ("text", .array [.string "ab"])], rfl, ?_⟩
  refine (conforms_iff defaultConfig rfl _ (fun _ _ => trivial) flatInput _
    rfl).mpr ?_
  simp [flatInput, PassedOnConforms, PassedOnConformEntries,
    PassedTextConforms, PassedTextsConform, isImageKey, isTextKey, Conforms,
    CleanedImageValue]

/-- An object below a key for texts, and a key that is one for images only
once it is cleaned. -/
def nestedInput : JsonValue :=
  .object [("ima\x00ge", .string "!"), ("text", .object [("a", .string "\x01")])]

theorem nestedInput_not_conforms :
    ∃ out, sanitizeInput defaultConfig nestedInput = .ok out ∧
      ¬Conforms defaultConfig (fun _ => True) false out := by
  refine ⟨.object [("image", .string "!"),
    ("text", .object [("a", .string "\x01")])], rfl, fun conforms => ?_⟩
  have image := ((conforms_object _).mp conforms) _ List.mem_cons_self
  have data : ImageData "!" := image.2.1 rfl
  exact absurd (data.1 '!' List.mem_cons_self) (by decide)

end Sanitizer

end TorchInference
