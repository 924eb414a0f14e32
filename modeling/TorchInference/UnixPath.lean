import Mathlib.Data.List.Basic

/-!
# Paths of a Unix file system

A path is text; its components are what a program or the kernel reads off it.
Repeated and trailing separators and interior dots disappear, while a leading
separator, a leading dot and every pair of dots are kept.  A location is the
list of names that leads to a file from the root, so following a path from a
location is a fold over its components.  Symbolic links play no part here.
-/

namespace UnixPath

/-- Text that names an entry of a directory. -/
def IsPlain (text : List Char) : Prop :=
  text ≠ [] ∧ '/' ∉ text ∧ text ≠ ['.'] ∧ text ≠ ['.', '.']

instance decidableIsPlain (text : List Char) : Decidable (IsPlain text) :=
  inferInstanceAs (Decidable (_ ∧ _ ∧ _ ∧ _))

/-- The name of a directory entry. -/
structure FileName where
  text : List Char
  plain : IsPlain text
  deriving DecidableEq

/-- The names that lead to a file from the root. -/
abbrev Location := List FileName

inductive Component where
  | rootDir
  | curDir
  | parentDir
  | normal (name : FileName)
  deriving DecidableEq

namespace Component

def isNormal : Component → Bool
  | normal _ => true
  | _ => false

end Component

def isAbsolute (path : List Char) : Bool :=
  path.head? == some '/'

/-- What the text between two separators contributes. -/
def segment (text : List Char) : Option Component :=
  if text = ['.', '.'] then some .parentDir
  else if plain : IsPlain text then some (.normal ⟨text, plain⟩)
  else none

/-- The components of a path after a leading separator or dot. -/
def segments (path : List Char) : List Component :=
  (path.splitOn '/').filterMap segment

def components (path : List Char) : List Component :=
  if isAbsolute path then .rootDir :: segments path
  else if (path.splitOn '/').head? = some ['.'] then .curDir :: segments path
  else segments path

/-- Append `path` to `base`, unless it starts at the root. -/
def join (base path : List Char) : List Char :=
  if isAbsolute path then path
  else if base = [] ∨ base.getLast? = some '/' then base ++ path
  else base ++ '/' :: path

/-- Follow one component from a location. -/
def visit (location : Location) : Component → Location
  | .rootDir => []
  | .curDir => location
  | .parentDir => location.dropLast
  | .normal name => location ++ [name]

/-- Where a path leads from a location. -/
def locate (start : Location) (path : List Char) : Location :=
  (components path).foldl visit start

/-- The name a path ends in, if it does not end in a pair of dots. -/
def fileName (path : List Char) : Option FileName :=
  match (components path).getLast? with
  | some (.normal name) => some name
  | _ => none

/-- A name before and after its last dot; a dot in front belongs to the
name. -/
def splitExtension (name : List Char) : List Char × Option (List Char) :=
  match name.reverse.span (· != '.') with
  | (_, []) => (name, none)
  | (_, [_]) => (name, none)
  | (after, _ :: before) => (before.reverse, some after.reverse)

def fileStem (path : List Char) : Option (List Char) :=
  (fileName path).map fun name => (splitExtension name.text).1

def extension (path : List Char) : Option (List Char) :=
  (fileName path).bind fun name => (splitExtension name.text).2

/-! ## Reading components -/

theorem segment_of_isPlain {text : List Char} (plain : IsPlain text) :
    segment text = some (.normal ⟨text, plain⟩) := by
  simp [segment, plain.2.2.2, plain]

theorem segment_nil : segment [] = none := by
  decide

theorem isAbsolute_append {base : List Char} (nonempty : base ≠ [])
    (path : List Char) : isAbsolute (base ++ path) = isAbsolute base := by
  cases base with
  | nil => exact absurd rfl nonempty
  | cons head tail => rfl

theorem not_isAbsolute_of_isPlain {name : List Char}
    (plain : IsPlain name) : isAbsolute name = false := by
  cases name with
  | nil => rfl
  | cons head tail =>
      have noSlash : head ≠ '/' := by
        intro headEq
        exact plain.2.1 (by simp [headEq])
      simp [isAbsolute, noSlash]

/-- A separator splits the segments of a path. -/
theorem segments_append_separator (base path : List Char) :
    segments (base ++ '/' :: path) = segments base ++ segments path := by
  simp [segments, List.splitOn_append_cons_self]

theorem segments_of_isPlain {name : List Char} (plain : IsPlain name) :
    segments name = [.normal ⟨name, plain⟩] := by
  have single : name.splitOn '/' = [name] :=
    List.splitOn_eq_singleton plain.2.1
  simp [segments, single, segment_of_isPlain plain]

theorem components_of_isPlain {name : List Char} (plain : IsPlain name) :
    components name = [.normal ⟨name, plain⟩] := by
  have single : name.splitOn '/' = [name] :=
    List.splitOn_eq_singleton plain.2.1
  simp [components, not_isAbsolute_of_isPlain plain, single, plain.2.2.1,
    segments_of_isPlain plain]

/-- Joining a relative path adds its segments. -/
theorem segments_join {path : List Char} (relative : isAbsolute path = false)
    (base : List Char) :
    segments (join base path) = segments base ++ segments path := by
  simp only [join, relative, Bool.false_eq_true, if_false]
  split
  case isTrue noSeparator =>
    rcases noSeparator with rfl | ends
    · simp [segments, segment_nil]
    · obtain ⟨front, rfl⟩ := List.getLast?_eq_some_iff.mp ends
      rw [List.append_assoc, List.singleton_append,
        segments_append_separator, segments_append_separator]
      simp [segments, segment_nil]
  case isFalse =>
    exact segments_append_separator base path

theorem isAbsolute_join {base path : List Char}
    (relative : isAbsolute path = false) :
    isAbsolute (join base path) = isAbsolute base := by
  simp only [join, relative, Bool.false_eq_true, if_false]
  split
  case isTrue noSeparator =>
    rcases noSeparator with rfl | ends
    · rw [List.nil_append, relative]
      rfl
    · exact isAbsolute_append (by rintro rfl; simp at ends) path
  case isFalse separated =>
    exact isAbsolute_append (fun empty => separated (Or.inl empty)) _

/-! ## Following paths -/

/-- Only the separator at the front and the segments matter. -/
theorem locate_eq (start : Location) (path : List Char) :
    locate start path =
      (segments path).foldl visit
        (if isAbsolute path then [] else start) := by
  unfold locate components
  split
  case isTrue absolute => simp [visit]
  case isFalse relative =>
    split <;> simp [visit]

/-- Following a joined path is following its parts one after the other. -/
theorem locate_join (start : Location) (base path : List Char) :
    locate start (join base path) = locate (locate start base) path := by
  cases relative : isAbsolute path with
  | true => simp [join, locate_eq, relative]
  | false =>
      rw [locate_eq, segments_join relative, isAbsolute_join relative,
        List.foldl_append, ← locate_eq, locate_eq (locate start base) path]
      simp [relative]

@[simp]
theorem locate_of_isPlain (start : Location) {name : List Char}
    (plain : IsPlain name) :
    locate start name = start ++ [⟨name, plain⟩] := by
  simp [locate, components_of_isPlain plain, visit]

/-- Components that are all names are the way down from where they start. -/
theorem exists_names_of_all_normal {path : List Char}
    (normal : (components path).all Component.isNormal = true) :
    ∃ names : Location, components path = names.map .normal ∧
      ∀ start, locate start path = start ++ names := by
  unfold locate
  generalize components path = parts at normal
  induction parts with
  | nil => exact ⟨[], rfl, by simp⟩
  | cons part parts ih =>
      simp only [List.all_cons, Bool.and_eq_true] at normal
      obtain ⟨names, rfl, reached⟩ := ih normal.2
      cases part with
      | normal name =>
          refine ⟨name :: names, rfl, fun start => ?_⟩
          simpa [visit] using reached (start ++ [name])
      | rootDir => simp [Component.isNormal] at normal
      | curDir => simp [Component.isNormal] at normal
      | parentDir => simp [Component.isNormal] at normal

theorem infix_intercalate {separator part : List Char}
    {parts : List (List Char)} (member : part ∈ parts) :
    part <:+: separator.intercalate parts := by
  induction parts with
  | nil => cases member
  | cons first rest ih =>
      cases rest with
      | nil =>
          obtain rfl := List.mem_singleton.mp member
          exact List.intercalate_singleton.symm ▸ List.infix_rfl
      | cons second rest =>
          rw [List.intercalate_cons_cons]
          rcases List.mem_cons.mp member with rfl | later
          · exact ⟨[], separator ++ separator.intercalate (second :: rest),
              by simp⟩
          · exact (ih later).trans (List.suffix_append _ _).isInfix

/-- Following names and dots stays below where it starts. -/
theorem prefix_foldl_visit {parts : List Component}
    (noRoot : Component.rootDir ∉ parts)
    (noParent : Component.parentDir ∉ parts) (start : Location) :
    start <+: parts.foldl visit start := by
  induction parts generalizing start with
  | nil => exact List.prefix_rfl
  | cons part parts ih =>
      simp only [List.mem_cons, not_or] at noRoot noParent
      have further := ih noRoot.2 noParent.2 (visit start part)
      refine List.IsPrefix.trans ?_ further
      cases part with
      | rootDir => exact absurd rfl noRoot.1
      | parentDir => exact absurd rfl noParent.1
      | curDir => exact List.prefix_rfl
      | normal name => exact List.prefix_append _ _

/-- A relative path without a pair of dots stays below where it starts. -/
theorem prefix_locate {path : List Char}
    (relative : isAbsolute path = false)
    (noParent : ¬ ['.', '.'] <:+: path) (start : Location) :
    start <+: locate start path := by
  rw [locate_eq, relative]
  apply prefix_foldl_visit
  · intro member
    obtain ⟨text, -, isRoot⟩ := List.mem_filterMap.mp member
    unfold segment at isRoot
    split at isRoot
    · cases isRoot
    · split at isRoot <;> cases isRoot
  · intro member
    obtain ⟨text, isPart, isParent⟩ := List.mem_filterMap.mp member
    have isDots : text = ['.', '.'] := by
      by_contra different
      simp only [segment, if_neg different] at isParent
      split at isParent <;> cases isParent
    subst isDots
    apply noParent
    have within : ['.', '.'] <:+: ['/'].intercalate (path.splitOn '/') :=
      infix_intercalate isPart
    rwa [List.intercalate_splitOn] at within

/-- Two entries of one directory have nothing below both of them. -/
theorem not_prefix_of_ne {base location : Location} {name other : FileName}
    (different : name ≠ other) (inside : base ++ [name] <+: location) :
    ¬ base ++ [other] <+: location := by
  intro alsoInside
  have same : base ++ [name] = base ++ [other] := by
    have ordered := List.prefix_of_prefix_length_le inside alsoInside
      (by simp)
    exact ordered.eq_of_length (by simp)
  have sameName := List.append_cancel_left same
  exact different (List.singleton_injective sameName)

/-! ## Lexical containment -/

/-- One component of the walk that drops dots and cancels pairs of dots. -/
def normalizeStep (kept : List Component) :
    Component → Option (List Component)
  | .parentDir =>
      if kept.getLast?.any Component.isNormal then some kept.dropLast
      else none
  | .curDir => some kept
  | .rootDir => some [.rootDir]
  | .normal name => some (kept ++ [.normal name])

/-- The components without dots, if every pair of dots has a name before it
to cancel. -/
def normalize (parts : List Component) : Option (List Component) :=
  parts.foldlM normalizeStep []

end UnixPath
