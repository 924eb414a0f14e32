import TorchInference.UnixPath

/-!
# Lexical resolution of paths

Dots and pairs of dots can be taken out of a path without looking at the file
system.  What is left of a path is the names that it ends in, behind the root
or behind the pairs of dots that no name in front of them cancels.  Resolution
is compared here with the locations that paths lead to, and with the walk that
gives up where a pair of dots has no name to cancel.
-/

namespace UnixPath

/-- A path without dots, and with pairs of dots in front of its names only. -/
structure Resolved where
  rooted : Bool
  ascents : Nat
  names : Location
  deriving DecidableEq

namespace Resolved

/-- Append a component.  The root is the parent of itself. -/
def visit (path : Resolved) : Component → Resolved
  | .rootDir => ⟨true, 0, []⟩
  | .curDir => path
  | .parentDir =>
      if path.names ≠ [] then { path with names := path.names.dropLast }
      else if path.rooted then path
      else { path with ascents := path.ascents + 1 }
  | .normal name => { path with names := path.names ++ [name] }

/-- Where the path leads from a location. -/
def locate (start : Location) (path : Resolved) : Location :=
  (if path.rooted then []
    else start.take (start.length - path.ascents)) ++ path.names

/-- The first path leads to the second one or below it. -/
def Within (child base : Resolved) : Prop :=
  child.rooted = base.rooted ∧ child.ascents = base.ascents ∧
    base.names <+: child.names

instance decidableWithin (child base : Resolved) :
    Decidable (child.Within base) :=
  inferInstanceAs (Decidable (_ ∧ _ ∧ _))

/-- The components of a path that has no pairs of dots. -/
def parts (path : Resolved) : List Component :=
  (if path.rooted then [.rootDir] else []) ++ path.names.map .normal

end Resolved

/-- The path with its dots taken out. -/
def resolve (path : List Char) : Resolved :=
  (components path).foldl Resolved.visit ⟨false, 0, []⟩

/-- Behind `depth` names, no pair of dots comes where all names have been
cancelled. -/
def Cancels : Nat → List Component → Prop
  | _, [] => True
  | _, .rootDir :: rest => Cancels 0 rest
  | depth, .curDir :: rest => Cancels depth rest
  | depth, .parentDir :: rest => 0 < depth ∧ Cancels (depth - 1) rest
  | depth, .normal _ :: rest => Cancels (depth + 1) rest

/-- No component is a dot or a pair of dots. -/
def HasNoDots (path : List Char) : Prop :=
  .curDir ∉ components path ∧ .parentDir ∉ components path

instance decidableCancels :
    (depth : Nat) → (parts : List Component) → Decidable (Cancels depth parts)
  | _, [] => .isTrue trivial
  | _, .rootDir :: rest => decidableCancels 0 rest
  | depth, .curDir :: rest => decidableCancels depth rest
  | depth, .parentDir :: rest =>
      have := decidableCancels (depth - 1) rest
      inferInstanceAs (Decidable (_ ∧ _))
  | depth, .normal _ :: rest => decidableCancels (depth + 1) rest

instance decidableHasNoDots (path : List Char) : Decidable (HasNoDots path) :=
  inferInstanceAs (Decidable (_ ∧ _))

/-! ## Resolution and locations -/

theorem rootDir_notMem_segments (path : List Char) :
    Component.rootDir ∉ segments path := by
  intro member
  obtain ⟨text, -, isRoot⟩ := List.mem_filterMap.mp member
  unfold segment at isRoot
  split at isRoot
  · cases isRoot
  · split at isRoot <;> cases isRoot

namespace Resolved

theorem locate_visit (start : Location) (path : Resolved)
    (part : Component) :
    (path.visit part).locate start =
      UnixPath.visit (path.locate start) part := by
  cases part with
  | rootDir => rfl
  | curDir => rfl
  | normal name => exact (List.append_assoc _ _ _).symm
  | parentDir =>
      by_cases named : path.names = []
      · cases rooted : path.rooted with
        | true => simp [visit, locate, UnixPath.visit, named, rooted]
        | false =>
            simp [visit, locate, UnixPath.visit, named, rooted,
              List.dropLast_eq_take, List.take_take]
            omega
      · simp [visit, locate, UnixPath.visit, named,
          List.dropLast_append_of_ne_nil]

theorem locate_foldl_visit (start : Location) (path : Resolved)
    (parts : List Component) :
    (parts.foldl visit path).locate start =
      parts.foldl UnixPath.visit (path.locate start) := by
  induction parts generalizing path with
  | nil => rfl
  | cons part parts ih =>
      rw [List.foldl_cons, List.foldl_cons, ih, locate_visit]

/-- Further components keep the front of a path, or climb further. -/
theorem foldl_visit_front {parts : List Component}
    (noRoot : Component.rootDir ∉ parts) (path : Resolved) :
    (parts.foldl visit path).rooted = path.rooted ∧
      path.ascents ≤ (parts.foldl visit path).ascents ∧
      (path.rooted = true →
        (parts.foldl visit path).ascents = path.ascents) := by
  induction parts generalizing path with
  | nil => exact ⟨rfl, Nat.le_refl _, fun _ => rfl⟩
  | cons part parts ih =>
      simp only [List.mem_cons, not_or] at noRoot
      obtain ⟨rooted, climbs, stays⟩ := ih noRoot.2 (path.visit part)
      have first : (path.visit part).rooted = path.rooted ∧
          path.ascents ≤ (path.visit part).ascents ∧
          (path.rooted = true →
            (path.visit part).ascents = path.ascents) := by
        cases part with
        | rootDir => exact absurd rfl noRoot.1
        | curDir => exact ⟨rfl, Nat.le_refl _, fun _ => rfl⟩
        | normal name => exact ⟨rfl, Nat.le_refl _, fun _ => rfl⟩
        | parentDir =>
            unfold visit
            by_cases named : path.names = []
            · cases rooted : path.rooted <;> simp [named, rooted]
            · simp [named]
      rw [List.foldl_cons]
      refine ⟨rooted.trans first.1, Nat.le_trans first.2.1 climbs, fun isRooted => ?_⟩
      exact (stays (first.1.trans isRooted)).trans (first.2.2 isRooted)

end Resolved

/-- A resolved path leads where the path leads. -/
theorem locate_resolve (start : Location) (path : List Char) :
    (resolve path).locate start = locate start path := by
  rw [resolve, Resolved.locate_foldl_visit]
  simp [Resolved.locate, locate]

theorem resolve_eq (path : List Char) :
    resolve path =
      (segments path).foldl Resolved.visit ⟨isAbsolute path, 0, []⟩ := by
  unfold resolve components
  cases absolute : isAbsolute path with
  | true => simp [Resolved.visit]
  | false =>
      simp only [Bool.false_eq_true, if_false]
      split <;> simp [Resolved.visit]

theorem resolve_join {path : List Char} (relative : isAbsolute path = false)
    (base : List Char) :
    resolve (join base path) =
      (segments path).foldl Resolved.visit (resolve base) := by
  rw [resolve_eq, segments_join relative, isAbsolute_join relative,
    List.foldl_append, ← resolve_eq]

theorem rooted_resolve (path : List Char) :
    (resolve path).rooted = isAbsolute path := by
  rw [resolve_eq]
  exact (Resolved.foldl_visit_front (rootDir_notMem_segments path) _).1

theorem ascents_resolve_of_isAbsolute {path : List Char}
    (absolute : isAbsolute path = true) : (resolve path).ascents = 0 := by
  rw [resolve_eq]
  exact (Resolved.foldl_visit_front (rootDir_notMem_segments path) _).2.2
    absolute

/-! ## Containment -/

/-- There is a name that a list of names does not begin with. -/
theorem exists_name_ne_head (names : Location) :
    ∃ name : FileName, names.head? ≠ some name := by
  have different : (⟨['a'], by decide⟩ : FileName) ≠ ⟨['b'], by decide⟩ := by
    decide
  by_cases isFirst : names.head? = some ⟨['a'], by decide⟩
  · refine ⟨⟨['b'], by decide⟩, fun isSecond => ?_⟩
    exact different (Option.some.inj (isFirst.symm.trans isSecond))
  · exact ⟨_, isFirst⟩

/-- A joined path is within its base exactly when it leads there from
everywhere. -/
theorem within_join_iff_forall_start {path : List Char}
    (relative : isAbsolute path = false) (base : List Char) :
    (resolve (join base path)).Within (resolve base) ↔
      ∀ start, locate start base <+: locate start (join base path) := by
  obtain ⟨rooted, climbs, stays⟩ := Resolved.foldl_visit_front
    (rootDir_notMem_segments path) (resolve base)
  rw [← resolve_join relative] at rooted climbs stays
  constructor
  · rintro ⟨-, sameAscents, begins⟩ start
    rw [← locate_resolve, ← locate_resolve, Resolved.locate,
      Resolved.locate, rooted, sameAscents]
    exact (List.prefix_append_right_inj _).mpr begins
  · intro leadsThere
    simp only [← locate_resolve, Resolved.locate, rooted] at leadsThere
    have sameAscents : (resolve (join base path)).ascents =
        (resolve base).ascents := by
      cases isRooted : (resolve base).rooted with
      | true => exact stays isRooted
      | false =>
          by_contra different
          -- From deep enough, the base keeps a name that the path leaves.
          obtain ⟨name, notHead⟩ :=
            exists_name_ne_head (resolve (join base path)).names
          have found := leadsThere
            (List.replicate (resolve (join base path)).ascents name)
          obtain ⟨kept, keeps⟩ : ∃ kept,
              (resolve (join base path)).ascents - (resolve base).ascents =
                kept + 1 :=
            ⟨_, (Nat.succ_pred_eq_of_pos (by omega)).symm⟩
          simp only [isRooted, Bool.false_eq_true, if_false,
            List.length_replicate, List.take_replicate, Nat.sub_self,
            Nat.zero_min, List.replicate_zero, List.nil_append] at found
          rw [Nat.min_eq_left (Nat.sub_le _ _), keeps,
            List.replicate_succ] at found
          obtain ⟨rest, isNames⟩ := found
          exact notHead (by rw [← isNames]; rfl)
    refine ⟨rooted, sameAscents, ?_⟩
    have found := leadsThere (List.replicate (resolve base).ascents
      ⟨['a'], by decide⟩)
    simpa [sameAscents] using found

theorem not_isAbsolute_of_components {path : List Char} {names : Location}
    (onlyNames : components path = names.map .normal) :
    isAbsolute path = false := by
  cases absolute : isAbsolute path with
  | false => rfl
  | true =>
      rw [components, if_pos absolute] at onlyNames
      cases names <;> cases onlyNames

/-- A path of names only stays within the base. -/
theorem within_join_of_names {path : List Char} {names : Location}
    (onlyNames : components path = names.map .normal) (base : List Char) :
    (resolve (join base path)).Within (resolve base) := by
  have relative := not_isAbsolute_of_components onlyNames
  have isSegments : segments path = names.map .normal := by
    simp only [components, relative, Bool.false_eq_true, if_false]
      at onlyNames
    split at onlyNames
    · cases names <;> cases onlyNames
    · exact onlyNames
  rw [within_join_iff_forall_start relative]
  intro start
  rw [locate_join, locate_eq _ path, isSegments, relative]
  apply prefix_foldl_visit
  · simp
  · simp

/-! ## The walk that cancels pairs of dots -/

theorem parentDir_mem_components (path : List Char) :
    Component.parentDir ∈ components path ↔
      Component.parentDir ∈ segments path := by
  unfold components
  split
  · simp
  · split <;> simp

/-- Without pairs of dots there is nothing to cancel. -/
theorem cancels_of_parentDir_notMem {parts : List Component}
    (noParent : Component.parentDir ∉ parts) (depth : Nat) :
    Cancels depth parts := by
  induction parts generalizing depth with
  | nil => trivial
  | cons part parts ih =>
      simp only [List.mem_cons, not_or] at noParent
      cases part with
      | parentDir => exact absurd rfl noParent.1
      | rootDir => exact ih noParent.2 _
      | curDir => exact ih noParent.2 _
      | normal name => exact ih noParent.2 _

theorem Resolved.parts_visit_normal (path : Resolved) (name : FileName) :
    (path.visit (.normal name)).parts = path.parts ++ [.normal name] := by
  rw [parts, parts, visit, List.map_append, ← List.append_assoc]
  rfl

theorem Resolved.normalizeStep_parts (path : Resolved) (part : Component)
    (level : path.ascents = 0)
    (cancelled : part = .parentDir → path.names ≠ []) :
    normalizeStep path.parts part = some (path.visit part).parts ∧
      (path.visit part).ascents = 0 := by
  cases part with
  | rootDir => exact ⟨rfl, rfl⟩
  | curDir => exact ⟨rfl, level⟩
  | normal name =>
      exact ⟨congrArg some (path.parts_visit_normal name).symm, level⟩
  | parentDir =>
      have named := cancelled rfl
      obtain ⟨front, name, isNames⟩ :
          ∃ front name, path.names = front ++ [name] :=
        ⟨_, _, (List.dropLast_append_getLast named).symm⟩
      refine ⟨?_, by simp [visit, named, level]⟩
      simp [normalizeStep, parts, visit, isNames, Component.isNormal,
        ← List.append_assoc]

theorem Resolved.normalizeStep_eq_none {path : Resolved}
    (unnamed : path.names = []) :
    normalizeStep path.parts .parentDir = none := by
  cases rooted : path.rooted <;>
    simp [normalizeStep, parts, unnamed, rooted, Component.isNormal]

theorem Resolved.foldlM_normalizeStep (path : Resolved)
    (parts : List Component) (level : path.ascents = 0) :
    (Cancels path.names.length parts →
        parts.foldlM normalizeStep path.parts =
            some (parts.foldl visit path).parts ∧
          (parts.foldl visit path).ascents = 0) ∧
      (¬ Cancels path.names.length parts →
        parts.foldlM normalizeStep path.parts = none) := by
  induction parts generalizing path with
  | nil => exact ⟨fun _ => ⟨rfl, level⟩, fun stuck => absurd trivial stuck⟩
  | cons part parts ih =>
      by_cases climbs : part = .parentDir ∧ path.names = []
      · obtain ⟨rfl, unnamed⟩ := climbs
        refine ⟨fun cancels => ?_, fun _ => ?_⟩
        · rw [unnamed] at cancels
          exact absurd cancels.1 (Nat.lt_irrefl 0)
        · rw [List.foldlM_cons, normalizeStep_eq_none unnamed]
          rfl
      · obtain ⟨stepped, levelAfter⟩ := path.normalizeStep_parts part level
          (fun isParent unnamed => climbs ⟨isParent, unnamed⟩)
        have depth : Cancels path.names.length (part :: parts) ↔
            Cancels (path.visit part).names.length parts := by
          cases part with
          | rootDir => rfl
          | curDir => rfl
          | normal name => simp [Cancels, visit]
          | parentDir =>
              have named : path.names ≠ [] := fun unnamed =>
                climbs ⟨rfl, unnamed⟩
              simp [Cancels, visit, named, List.length_pos_iff]
        rw [List.foldlM_cons, stepped, List.foldl_cons, depth]
        exact ih (path.visit part) levelAfter

theorem normalize_components_of_cancels {path : List Char}
    (cancels : Cancels 0 (components path)) :
    normalize (components path) = some (resolve path).parts ∧
      (resolve path).ascents = 0 :=
  (Resolved.foldlM_normalizeStep ⟨false, 0, []⟩ _ rfl).1 cancels

theorem normalize_components_of_not_cancels {path : List Char}
    (stuck : ¬ Cancels 0 (components path)) :
    normalize (components path) = none :=
  (Resolved.foldlM_normalizeStep ⟨false, 0, []⟩ _ rfl).2 stuck

theorem Resolved.parts_foldl_visit {parts : List Component}
    (noRoot : Component.rootDir ∉ parts) (noDot : Component.curDir ∉ parts)
    (noParent : Component.parentDir ∉ parts) (path : Resolved) :
    (parts.foldl visit path).parts = path.parts ++ parts ∧
      (parts.foldl visit path).ascents = path.ascents := by
  induction parts generalizing path with
  | nil => exact ⟨(List.append_nil _).symm, rfl⟩
  | cons part parts ih =>
      simp only [List.mem_cons, not_or] at noRoot noDot noParent
      obtain ⟨appended, level⟩ :=
        ih noRoot.2 noDot.2 noParent.2 (path.visit part)
      cases part with
      | rootDir => exact absurd rfl noRoot.1
      | curDir => exact absurd rfl noDot.1
      | parentDir => exact absurd rfl noParent.1
      | normal name =>
          rw [List.foldl_cons]
          refine ⟨?_, level⟩
          rw [appended, parts_visit_normal, List.append_assoc,
            List.singleton_append]

/-- A path without dots is what it resolves to. -/
theorem components_eq_parts {path : List Char} (clear : HasNoDots path) :
    components path = (resolve path).parts ∧ (resolve path).ascents = 0 := by
  obtain ⟨noDot, noParent⟩ := clear
  have isWritten : components path =
      (if isAbsolute path then [.rootDir] else []) ++ segments path := by
    unfold components at noDot ⊢
    split
    · rfl
    · split
      case isTrue absolute dotted => simp [absolute, dotted] at noDot
      case isFalse => rfl
  rw [isWritten, List.mem_append, not_or] at noDot noParent
  obtain ⟨appended, level⟩ := Resolved.parts_foldl_visit
    (rootDir_notMem_segments path) noDot.2 noParent.2
    ⟨isAbsolute path, 0, []⟩
  rw [← resolve_eq] at appended level
  refine ⟨?_, level⟩
  rw [isWritten, appended]
  simp [Resolved.parts]

/-- The components of a path without pairs of dots begin with those of a base
exactly when the base has no dots and the path is within it. -/
theorem components_prefix_parts_iff {path base : List Char}
    (level : (resolve path).ascents = 0)
    (sameFront : (resolve path).rooted = (resolve base).rooted) :
    components base <+: (resolve path).parts ↔
      HasNoDots base ∧ (resolve path).Within (resolve base) := by
  constructor
  · intro begins
    have clear : HasNoDots base := by
      constructor <;>
      · intro member
        have within := begins.subset member
        rw [Resolved.parts, List.mem_append] at within
        rcases within with isFront | isName
        · split at isFront <;> simp at isFront
        · simp at isName
    obtain ⟨isParts, baseLevel⟩ := components_eq_parts clear
    refine ⟨clear, sameFront, level.trans baseLevel.symm, ?_⟩
    rw [isParts, Resolved.parts, Resolved.parts, sameFront,
      List.prefix_append_right_inj] at begins
    exact (List.prefix_map_iff_of_injective
      fun _ _ same => Component.normal.inj same).mp begins
  · rintro ⟨clear, -, -, begins⟩
    obtain ⟨isParts, -⟩ := components_eq_parts clear
    rw [isParts, Resolved.parts, Resolved.parts, sameFront,
      List.prefix_append_right_inj]
    exact begins.map _

end UnixPath
