import Mathlib.Data.Finset.Basic
import TorchInference.LossyUtf8

/-!
# Voices that are not loaded

A voice that is not loaded is replaced by one that is.  The second byte of an
identifier says which gender a voice has: some voices of the gender are tried
by name, for a male one also a female one in the end, and if none of them is
loaded the first key of the map is taken.
-/

namespace TorchInference

/-- The genders that the identifiers of voices tell. -/
inductive VoiceGender where
  | male
  | female
  deriving DecidableEq

namespace VoiceGender

/-- The second byte of the identifiers, `m` or `f`. -/
def byte : VoiceGender → UInt8
  | .male => 109
  | .female => 102

/-- The voices that are tried by name. -/
def named : VoiceGender → List String
  | .male => ["bm_george", "am_adam", "am_michael"]
  | .female => ["af_bella", "bf_emma", "af_sarah"]

end VoiceGender

/-- `requested.as_bytes().get(1)`. -/
def secondByte (id : String) : Option UInt8 :=
  (LossyUtf8.encode id.toList)[1]?

/-- The voice belongs to the gender. -/
def HasGender (id : String) (gender : VoiceGender) : Prop :=
  secondByte id = some gender.byte

instance (id : String) (gender : VoiceGender) :
    Decidable (HasGender id gender) :=
  inferInstanceAs (Decidable (_ = _))

def fallbackOrder (requested : String) : List String :=
  if secondByte requested = some 109 then
    ["bm_george", "am_adam", "am_michael", "af_bella"]
  else if secondByte requested = some 102 then
    ["af_bella", "bf_emma", "af_sarah"]
  else ["af_bella"]

/-- `resolve_voice_id`, for the keys of the map in the order in which it lists
them. -/
def resolveVoiceId (loaded : List String) (requested : String) : String :=
  if requested ∈ loaded then requested
  else
    match (fallbackOrder requested).find? (· ∈ loaded) with
    | some id => id
    | none => loaded.head?.getD requested

/-! ## What a fallback promises -/

/-- The keys of a map with these voices, in some order. -/
structure Lists (loaded : Finset String) (order : List String) : Prop where
  nodup : order.Nodup
  mem_iff : ∀ id, id ∈ order ↔ id ∈ loaded

/-- A voice that is loaded is used, another one is replaced by a loaded voice of
its gender if there is any, and a loaded voice is used if there is any at
all. -/
structure PreservesGender (loaded : Finset String) (requested used : String) :
    Prop where
  same : requested ∈ loaded → used = requested
  gender : ∀ gender, HasGender requested gender →
    (∃ id ∈ loaded, HasGender id gender) →
      used ∈ loaded ∧ HasGender used gender
  isLoaded : loaded.Nonempty → used ∈ loaded

/-- The voice is loaded, or one of those that are tried for its gender, or none
of its gender, or nothing but voices of its gender. -/
def HasSubstitute (loaded : Finset String) (requested : String) : Prop :=
  requested ∈ loaded ∨ ∀ gender, HasGender requested gender →
    (∃ id ∈ gender.named, id ∈ loaded) ∨
      (∀ id ∈ loaded, ¬HasGender id gender) ∨
        ∀ id ∈ loaded, HasGender id gender

/-! ## The substitutes -/

theorem hasGender_of_mem_named {gender : VoiceGender} {id : String}
    (mem : id ∈ gender.named) : HasGender id gender := by
  cases gender with
  | male =>
      simp only [VoiceGender.named, List.mem_cons, List.not_mem_nil,
        or_false] at mem
      rcases mem with rfl | rfl | rfl <;> decide
  | female =>
      simp only [VoiceGender.named, List.mem_cons, List.not_mem_nil,
        or_false] at mem
      rcases mem with rfl | rfl | rfl <;> decide

/-- The voices of the gender are tried first, then perhaps a female one. -/
theorem fallbackOrder_eq {requested : String} {gender : VoiceGender}
    (has : HasGender requested gender) :
    fallbackOrder requested = gender.named ++
      match gender with
      | .male => ["af_bella"]
      | .female => [] := by
  unfold fallbackOrder
  rw [has]
  cases gender <;> rfl

section Resolving

variable {loaded : Finset String} {order : List String} {requested : String}

theorem Lists.resolve_of_mem (lists : Lists loaded order)
    (mem : requested ∈ loaded) : resolveVoiceId order requested = requested :=
  if_pos ((lists.mem_iff requested).mpr mem)

theorem Lists.resolve_of_not_mem (lists : Lists loaded order)
    (absent : requested ∉ loaded) :
    resolveVoiceId order requested =
      ((fallbackOrder requested).find? (· ∈ loaded)).getD
        (order.head?.getD requested) := by
  have finds : (fallbackOrder requested).find? (· ∈ order) =
      (fallbackOrder requested).find? (· ∈ loaded) := by
    congr 1
    funext id
    exact decide_eq_decide.mpr (lists.mem_iff id)
  rw [resolveVoiceId, if_neg fun mem => absent ((lists.mem_iff _).mp mem), finds]
  cases (fallbackOrder requested).find? (· ∈ loaded) <;> rfl

/-- The map can list any of its keys first. -/
theorem exists_lists_head {id : String} (mem : id ∈ loaded) :
    ∃ order, Lists loaded order ∧ order.head? = some id := by
  refine ⟨id :: (loaded.erase id).toList, ⟨?_, fun other => ?_⟩, rfl⟩
  · rw [List.nodup_cons]
    exact ⟨by simp, Finset.nodup_toList _⟩
  · by_cases same : other = id
    · simp [same, mem]
    · simp [same]

theorem Lists.head_mem (lists : Lists loaded order)
    (nonempty : loaded.Nonempty) :
    order.head?.getD requested ∈ loaded := by
  obtain ⟨id, mem⟩ := nonempty
  cases order with
  | nil => exact absurd ((lists.mem_iff id).mpr mem) List.not_mem_nil
  | cons first others => exact (lists.mem_iff first).mp List.mem_cons_self

/-- A voice of the map is used if there is any. -/
theorem Lists.resolve_mem (lists : Lists loaded order)
    (nonempty : loaded.Nonempty) : resolveVoiceId order requested ∈ loaded := by
  by_cases mem : requested ∈ loaded
  · rwa [lists.resolve_of_mem mem]
  rw [lists.resolve_of_not_mem mem]
  cases found : (fallbackOrder requested).find? (· ∈ loaded) with
  | none => exact lists.head_mem nonempty
  | some id => simpa using List.find?_some found

/-- A voice that is tried by name is found. -/
theorem Lists.resolve_named (lists : Lists loaded order)
    {gender : VoiceGender} (has : HasGender requested gender)
    (absent : requested ∉ loaded)
    (named : ∃ id ∈ gender.named, id ∈ loaded) :
    HasGender (resolveVoiceId order requested) gender := by
  obtain ⟨id, mem, isLoaded⟩ := named
  obtain ⟨first, found⟩ : ∃ first,
      gender.named.find? (· ∈ loaded) = some first := by
    rw [← Option.isSome_iff_exists, List.find?_isSome]
    exact ⟨id, mem, by simpa using isLoaded⟩
  rw [lists.resolve_of_not_mem absent, fallbackOrder_eq has,
    List.find?_append, found]
  exact hasGender_of_mem_named (List.mem_of_find?_eq_some found)

/-- Where no voice of the gender is tried with success, some order of the map
leads to any other voice of it, or every order to the female one. -/
theorem exists_resolve_not_hasGender {gender : VoiceGender}
    (has : HasGender requested gender) (absent : requested ∉ loaded)
    (unnamed : ∀ id ∈ gender.named, id ∉ loaded) {other : String}
    (mem : other ∈ loaded) (different : ¬HasGender other gender) :
    ∃ order, Lists loaded order ∧
      ¬HasGender (resolveVoiceId order requested) gender := by
  obtain ⟨order, lists, head⟩ := exists_lists_head mem
  refine ⟨order, lists, ?_⟩
  have nothing : gender.named.find? (· ∈ loaded) = none :=
    List.find?_eq_none.mpr fun id isNamed => by simpa using unnamed id isNamed
  rw [lists.resolve_of_not_mem absent, fallbackOrder_eq has,
    List.find?_append, nothing, Option.none_or]
  cases gender with
  | male =>
      dsimp only
      by_cases bella : "af_bella" ∈ loaded
      · simp only [List.find?_cons, bella, decide_true, Option.getD_some]
        decide
      · simpa [List.find?_cons, bella, head] using different
  | female => simpa [head] using different

end Resolving

/-- In every order of the map the voice that is used keeps the gender of the
requested one exactly if there is a substitute for it. -/
theorem preservesGender_iff_hasSubstitute (loaded : Finset String)
    (requested : String) :
    (∀ order, Lists loaded order →
      PreservesGender loaded requested (resolveVoiceId order requested)) ↔
        HasSubstitute loaded requested := by
  constructor
  · intro preserves
    by_contra lacking
    simp only [HasSubstitute, not_or, not_forall, not_exists, not_and]
      at lacking
    obtain ⟨absent, gender, has, unnamed, hasOne, other, mem, different⟩ :=
      lacking
    obtain ⟨id, isLoaded, isSame⟩ := hasOne
    obtain ⟨order, lists, wrong⟩ :=
      exists_resolve_not_hasGender has absent unnamed mem different
    exact wrong ((preserves order lists).gender gender has
      ⟨id, isLoaded, not_not.mp isSame⟩).2
  · intro substitute order lists
    refine ⟨lists.resolve_of_mem, fun gender has someLoaded => ?_,
      lists.resolve_mem⟩
    obtain ⟨one, oneLoaded, oneHas⟩ := someLoaded
    have mem := @Lists.resolve_mem loaded order requested lists ⟨one, oneLoaded⟩
    refine ⟨mem, ?_⟩
    by_cases isLoaded : requested ∈ loaded
    · rwa [lists.resolve_of_mem isLoaded]
    rcases substitute.resolve_left isLoaded gender has with
      named | noneHas | allHave
    · exact lists.resolve_named has isLoaded named
    · exact absurd oneHas (noneHas one oneLoaded)
    · exact allHave _ mem

/-- A male voice is loaded, and a female one is used. -/
theorem unnamedMale_replaced :
    Lists {"af_bella", "am_onyx"} ["am_onyx", "af_bella"] ∧
      HasGender "bm_lewis" .male ∧ HasGender "am_onyx" .male ∧
      resolveVoiceId ["am_onyx", "af_bella"] "bm_lewis" = "af_bella" ∧
      ¬HasGender "af_bella" .male := by
  refine ⟨⟨by decide, fun id => ?_⟩, by decide, by decide, by decide,
    by decide⟩
  simp [or_comm]

end TorchInference
