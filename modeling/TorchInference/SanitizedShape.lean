import TorchInference.Sanitizer

/-!
# The shape of sanitized input

The sanitizer goes through the members of an object and puts them into a new
map under their cleaned keys.  Members whose keys are the same after cleaning
end up in one place, and all but the last are lost.
-/

namespace TorchInference

namespace Sanitizer

open ExceptSteps OrderedInsertion

/-! ## What should be kept -/

mutual

/-- The second value has the shape of the first: arrays have the same members
in the same order, the members of objects belong together in pairs, strings are
as they were or cleaned, and everything else is as it was.  Below keys for
images and texts objects are not walked. -/
def SameShape : Bool → JsonValue → JsonValue → Prop
  | _, .string text, .string out => out = text ∨ out = clean text
  | walked, .array values, .array outs => SameShapes walked values outs
  | true, .object entries, .object outs =>
      ∃ listed, outs.Perm listed ∧ SameMembers entries listed
  | _, value, out => out = value

def SameShapes : Bool → List JsonValue → List JsonValue → Prop
  | _, [], [] => True
  | walked, value :: values, out :: outs =>
      SameShape walked value out ∧ SameShapes walked values outs
  | _, _, _ => False

def SameMembers : List (String × JsonValue) → List (String × JsonValue) → Prop
  | [], [] => True
  | (key, value) :: entries, (name, out) :: outs =>
      (name = clean key ∧
          SameShape (!isImageKey key && !isTextKey key) value out) ∧
        SameMembers entries outs
  | _, _ => False

end

mutual

/-- No two keys of an object that is walked are the same after cleaning. -/
def KeysApart : JsonValue → Prop
  | .array values => KeysApartAll values
  | .object entries =>
      (entries.map fun entry => clean entry.1).Nodup ∧ KeysApartBelow entries
  | _ => True

def KeysApartAll : List JsonValue → Prop
  | [] => True
  | value :: values => KeysApart value ∧ KeysApartAll values

def KeysApartBelow : List (String × JsonValue) → Prop
  | [] => True
  | (key, value) :: entries =>
      (isImageKey key = true ∨ isTextKey key = true ∨ KeysApart value) ∧
        KeysApartBelow entries

end

/-! ## Unfolded over members -/

variable {config : SanitizerConfig}

theorem sameShapes_iff {walked : Bool} {values outs : List JsonValue} :
    SameShapes walked values outs ↔
      List.Forall₂ (SameShape walked) values outs := by
  induction values generalizing outs with
  | nil => cases outs <;> simp [SameShapes]
  | cons value values ih => cases outs <;> simp [SameShapes, ih]

/-- What is asked of a member of an object. -/
def SameMember (entry out : String × JsonValue) : Prop :=
  out.1 = clean entry.1 ∧
    SameShape (!isImageKey entry.1 && !isTextKey entry.1) entry.2 out.2

theorem sameMembers_iff {entries outs : List (String × JsonValue)} :
    SameMembers entries outs ↔ List.Forall₂ SameMember entries outs := by
  induction entries generalizing outs with
  | nil => cases outs <;> simp [SameMembers]
  | cons entry entries ih =>
      cases outs <;> simp [SameMembers, SameMember, ih]

theorem keysApartAll_iff {values : List JsonValue} :
    KeysApartAll values ↔ ∀ value ∈ values, KeysApart value := by
  induction values with
  | nil => simp [KeysApartAll]
  | cons value values ih => simp [KeysApartAll, ih]

theorem keysApartBelow_iff {entries : List (String × JsonValue)} :
    KeysApartBelow entries ↔ ∀ entry ∈ entries,
      isImageKey entry.1 = true ∨ isTextKey entry.1 = true ∨
        KeysApart entry.2 := by
  induction entries with
  | nil => simp [KeysApartBelow]
  | cons entry entries ih => simp [KeysApartBelow, ih]

theorem sameShape_refl (value : JsonValue) : SameShape false value value := by
  induction value using JsonValue.memberInduction with
  | null | bool value | number value | object entries ih =>
      rw [SameShape]
      all_goals simp
  | string text =>
      rw [SameShape]
      exact .inl rfl
  | array values ih =>
      rw [SameShape, sameShapes_iff]
      exact List.forall₂_same.mpr ih

/-- What is sanitized as a text keeps its shape. -/
theorem sameShape_sanitizeTextInput (value : JsonValue) :
    ∀ out, sanitizeTextInput config value = .ok out →
      SameShape false value out := by
  induction value using JsonValue.memberInduction with
  | null | bool value | number value | object entries ih =>
      rintro _ ⟨⟩
      exact sameShape_refl _
  | string text =>
      intro out accepted
      rw [sanitizeTextInput] at accepted
      obtain ⟨cleaned, sanitized, accepted⟩ := bind_eq_ok accepted
      obtain rfl := Except.ok.inj accepted
      rw [SameShape]
      exact .inr (textClean_of_sanitizeText sanitized).1
  | array values ih =>
      intro out accepted
      rw [sanitizeTextInput] at accepted
      obtain ⟨outs, sanitized, accepted⟩ := bind_eq_ok accepted
      obtain rfl := Except.ok.inj accepted
      rw [sanitizeTextInputs_eq] at sanitized
      rw [SameShape, sameShapes_iff]
      exact (forall₂_mapM_iff sanitized fun value mem out accepted =>
        iff_of_true (ih value mem out accepted) trivial).mpr fun _ _ => trivial

theorem sameShape_of_sanitizeImageInput {value out : JsonValue}
    (accepted : sanitizeImageInput config value = .ok out) :
    SameShape false value out := by
  rw [(imageValue_of_sanitizeImageInput accepted).1]
  exact sameShape_refl value

/-! ## One member -/

/-- A member keeps its shape where it is not walked, or where its value
does. -/
theorem sameMember_iff {entry member : String × JsonValue}
    (accepted : sanitizeMember config entry = .ok member)
    (walked : ∀ out, sanitizeInput config entry.2 = .ok out →
      (SameShape true entry.2 out ↔ KeysApart entry.2)) :
    SameMember entry member ↔ isImageKey entry.1 = true ∨
      isTextKey entry.1 = true ∨ KeysApart entry.2 := by
  obtain ⟨safeKey, keyAccepted, accepted⟩ := bind_eq_ok accepted
  obtain ⟨safeValue, valueAccepted, accepted⟩ := bind_eq_ok accepted
  obtain rfl := Except.ok.inj accepted
  obtain ⟨rfl, -⟩ := textClean_of_sanitizeText keyAccepted
  rw [SameMember, and_iff_right rfl]
  split_ifs at valueAccepted with image text
  · rw [image, Bool.not_true, Bool.false_and]
    exact iff_of_true (sameShape_of_sanitizeImageInput valueAccepted)
      (.inl rfl)
  · rw [text, Bool.not_true, Bool.and_false]
    exact iff_of_true (sameShape_sanitizeTextInput _ _ valueAccepted)
      (.inr (.inl rfl))
  · have shape := walked safeValue valueAccepted
    simpa [Bool.eq_false_iff.mpr image, Bool.eq_false_iff.mpr text] using shape

/-- Members with the same keys in the same order are listed in one way. -/
theorem eq_of_perm_of_keys {first second : List (String × JsonValue)}
    (permuted : first.Perm second)
    (keys : first.map Prod.fst = second.map Prod.fst)
    (distinct : (first.map Prod.fst).Nodup) : first = second := by
  apply List.ext_getElem permuted.length_eq
  intro index inFirst inSecond
  have listed := permuted.symm.subset (List.getElem_mem inSecond)
  have key : first[index].1 = second[index].1 := by
    have atIndex := congrArg (fun names => names[index]?) keys
    simpa [inFirst, inSecond] using atIndex
  exact List.inj_on_of_nodup_map distinct (List.getElem_mem inFirst) listed key

theorem keys_of_sameMember {entries outs : List (String × JsonValue)}
    (each : List.Forall₂ SameMember entries outs) :
    outs.map Prod.fst = entries.map fun entry => clean entry.1 := by
  induction each with
  | nil => rfl
  | cons first _ ih => rw [List.map_cons, List.map_cons, ih, first.1]

/-- The members that are left can be listed beside those that were given exactly
when none of them has been replaced. -/
theorem exists_listing_iff {entries members : List (String × JsonValue)}
    (keys : members.map Prod.fst = entries.map fun entry => clean entry.1) :
    (∃ listed, (insertAll members []).Perm listed ∧
        SameMembers entries listed) ↔
      (members.map Prod.fst).Nodup ∧
        List.Forall₂ SameMember entries members := by
  constructor
  · rintro ⟨listed, permuted, paired⟩
    rw [sameMembers_iff] at paired
    have listedKeys := (keys_of_sameMember paired).trans keys.symm
    have distinct : (members.map Prod.fst).Nodup := by
      rw [← length_insertAll_eq_iff, permuted.length_eq]
      simpa using congrArg List.length listedKeys
    have same : listed = members :=
      (eq_of_perm_of_keys ((insertAll_perm distinct).symm.trans permuted)
        listedKeys.symm distinct).symm
    exact ⟨distinct, same ▸ paired⟩
  · rintro ⟨distinct, paired⟩
    exact ⟨members, insertAll_perm distinct, sameMembers_iff.mpr paired⟩

/-! ## The whole input -/

/-- Accepted input has the shape of what was given exactly when the keys of its
objects are still different after cleaning. -/
theorem sameShape_iff_keysApart (config : SanitizerConfig) (input : JsonValue) :
    ∀ out, sanitizeInput config input = .ok out →
      (SameShape true input out ↔ KeysApart input) := by
  induction input using JsonValue.memberInduction with
  | null | bool value =>
      rintro _ ⟨⟩
      rw [SameShape, KeysApart]
      all_goals simp
  | number number =>
      intro out accepted
      have same : out = .number number := by
        cases number with
        | float bits =>
            rw [sanitizeInput] at accepted
            split_ifs at accepted
            exact (Except.ok.inj accepted).symm
        | posInt value | negInt value => exact (Except.ok.inj accepted).symm
      rw [same, SameShape, KeysApart]
      all_goals simp
  | string text =>
      intro out accepted
      rw [sanitizeInput] at accepted
      split_ifs at accepted
      · obtain ⟨cleaned, sanitized, accepted⟩ := bind_eq_ok accepted
        obtain rfl := Except.ok.inj accepted
        rw [SameShape, KeysApart]
        · exact iff_of_true (.inr (textClean_of_sanitizeText sanitized).1)
            trivial
        all_goals simp
      · obtain rfl := Except.ok.inj accepted
        rw [SameShape, KeysApart]
        all_goals simp
  | array values ih =>
      intro out accepted
      rw [sanitizeInput] at accepted
      obtain ⟨outs, sanitized, accepted⟩ := bind_eq_ok accepted
      obtain rfl := Except.ok.inj accepted
      rw [sanitizeInputs_eq] at sanitized
      rw [SameShape, sameShapes_iff, KeysApart, keysApartAll_iff]
      exact forall₂_mapM_iff sanitized ih
  | object entries ih =>
      intro out accepted
      rw [sanitizeInput] at accepted
      obtain ⟨outs, sanitized, accepted⟩ := bind_eq_ok accepted
      obtain rfl := Except.ok.inj accepted
      obtain ⟨members, visited, rfl⟩ := sanitizeEntries_eq_ok sanitized
      have keys := keys_of_sanitizeMember (mapM_eq_ok visited)
      have each : List.Forall₂ SameMember entries members ↔ ∀ entry ∈ entries,
          isImageKey entry.1 = true ∨ isTextKey entry.1 = true ∨
            KeysApart entry.2 :=
        forall₂_mapM_iff visited fun entry mem member accepted =>
          sameMember_iff accepted (ih entry mem)
      rw [SameShape, KeysApart, keysApartBelow_iff, ← keys, ← each]
      exact exists_listing_iff keys

/-- An object whose keys differ in more than control characters. -/
theorem flatInput_sameShape :
    SameShape true flatInput (.object [("image", .string "QUJD"),
      ("notes", .object [("a", .null)]), ("text", .array [.string "ab"])]) := by
  refine (sameShape_iff_keysApart defaultConfig flatInput _ rfl).mpr ?_
  simp [flatInput, KeysApart, KeysApartBelow, isImageKey, isTextKey]
  decide

/-- Two members whose keys differ in a control character, of which one is
left. -/
theorem collidingInput_loses_member :
    ∃ out, sanitizeInput defaultConfig
        (.object [("a", .bool true), ("a\x01", .bool false)]) = .ok out ∧
      ¬SameShape true (.object [("a", .bool true), ("a\x01", .bool false)])
        out := by
  refine ⟨.object [("a", .bool false)], rfl, ?_⟩
  rw [SameShape]
  rintro ⟨listed, permuted, paired⟩
  have two := (sameMembers_iff.mp paired).length_eq
  have one := permuted.length_eq
  simp only [List.length_cons, List.length_nil] at one two
  omega

end Sanitizer

end TorchInference
