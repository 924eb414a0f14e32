import TorchInference.DownloadRequests
import TorchInference.LexicalResolution

/-!
# What the path check of a download accepts

The check resolves the path of a file and compares what is left with the
components of the target directory as they are written.  It accepts only
paths that stay inside, but a directory that is written with dots, such as
`./models`, contains nothing for it, and a path that asks for the parent of
the root is refused wherever it leads.
-/

namespace TorchInference

open UnixPath

/-- What is expected of the check where a relative path is joined to a base:
it tells whether the joined path resolves to the base or below it, it refuses
no safe path and accepts none that leaves the base. -/
def ChecksExactly (base path : List Char) : Prop :=
  (pathIsWithin (join base path) base = true ↔
    (resolve (join base path)).Within (resolve base)) ∧
  (isSafeRelativePath path = true →
    pathIsWithin (join base path) base = true) ∧
  (¬ (resolve (join base path)).Within (resolve base) →
    pathIsWithin (join base path) base = false)

theorem pathIsWithin_join_iff {path : List Char}
    (relative : isAbsolute path = false) (base : List Char) :
    pathIsWithin (join base path) base = true ↔
      HasNoDots base ∧ Cancels 0 (components (join base path)) ∧
        (resolve (join base path)).Within (resolve base) := by
  have sameFront : (resolve (join base path)).rooted =
      (resolve base).rooted := by
    rw [rooted_resolve, rooted_resolve, isAbsolute_join relative]
  by_cases cancels : Cancels 0 (components (join base path))
  · obtain ⟨normalized, level⟩ := normalize_components_of_cancels cancels
    rw [pathIsWithin, normalized, List.isPrefixOf_iff_prefix,
      components_prefix_parts_iff level sameFront]
    simp [cancels]
  · rw [pathIsWithin, normalize_components_of_not_cancels cancels]
    simp [cancels]

/-- What the check accepts stays inside the base. -/
theorem within_of_pathIsWithin {base path : List Char}
    (relative : isAbsolute path = false)
    (accepted : pathIsWithin (join base path) base = true) :
    (resolve (join base path)).Within (resolve base) :=
  ((pathIsWithin_join_iff relative base).mp accepted).2.2

theorem exists_names_of_isSafeRelativePath {path : List Char}
    (safe : isSafeRelativePath path = true) :
    ∃ names : Location, components path = names.map .normal := by
  simp only [isSafeRelativePath, Bool.and_eq_true] at safe
  obtain ⟨names, onlyNames, -⟩ := exists_names_of_all_normal safe.2
  exact ⟨names, onlyNames⟩

theorem within_of_isSafeRelativePath {path : List Char}
    (safe : isSafeRelativePath path = true) (base : List Char) :
    (resolve (join base path)).Within (resolve base) := by
  obtain ⟨names, onlyNames⟩ := exists_names_of_isSafeRelativePath safe
  exact within_join_of_names onlyNames base

/-- Whether a safe path is accepted depends on how the base is written. -/
theorem pathIsWithin_of_isSafeRelativePath {path : List Char}
    (safe : isSafeRelativePath path = true) (base : List Char) :
    pathIsWithin (join base path) base = true ↔ HasNoDots base := by
  obtain ⟨names, onlyNames⟩ := exists_names_of_isSafeRelativePath safe
  have relative := not_isAbsolute_of_components onlyNames
  rw [pathIsWithin_join_iff relative]
  refine ⟨And.left, fun clear => ⟨clear, ?_,
    within_of_isSafeRelativePath safe base⟩⟩
  apply cancels_of_parentDir_notMem
  rw [parentDir_mem_components, segments_join relative, List.mem_append,
    ← parentDir_mem_components, ← parentDir_mem_components path, onlyNames]
  simp [clear.2]

/-- The check is right about a relative path exactly when the joined path
leads out of the base, or the base is written without dots and the joined path
never asks for the parent of the root. -/
theorem checksExactly_iff {path : List Char}
    (relative : isAbsolute path = false) (base : List Char) :
    ChecksExactly base path ↔
      ¬ (resolve (join base path)).Within (resolve base) ∨
        HasNoDots base ∧ Cancels 0 (components (join base path)) := by
  have accepts := pathIsWithin_join_iff relative base
  constructor
  · rintro ⟨exactly, -, -⟩
    by_cases within : (resolve (join base path)).Within (resolve base)
    · obtain ⟨clear, cancels, -⟩ := accepts.mp (exactly.mpr within)
      exact Or.inr ⟨clear, cancels⟩
    · exact Or.inl within
  · intro condition
    refine ⟨⟨within_of_pathIsWithin relative, fun within => ?_⟩,
      fun safe => ?_, fun leaves => ?_⟩
    · obtain ⟨clear, cancels⟩ :=
        condition.resolve_left (not_not_intro within)
      exact accepts.mpr ⟨clear, cancels, within⟩
    · have within := within_of_isSafeRelativePath safe base
      obtain ⟨clear, cancels⟩ :=
        condition.resolve_left (not_not_intro within)
      exact accepts.mpr ⟨clear, cancels, within⟩
    · exact Bool.eq_false_iff.mpr fun accepted =>
        leaves (within_of_pathIsWithin relative accepted)

/-- The file of a repository, under a directory without dots. -/
theorem checksExactly_models :
    isAbsolute "sub/config.json".toList = false ∧
      (ChecksExactly "/srv/models".toList "sub/config.json".toList ↔
        ¬ (resolve (join "/srv/models".toList
            "sub/config.json".toList)).Within
            (resolve "/srv/models".toList) ∨
          HasNoDots "/srv/models".toList ∧
            Cancels 0 (components (join "/srv/models".toList
              "sub/config.json".toList))) :=
  ⟨by decide, checksExactly_iff (by decide) _⟩

/-- The same directory with a dot in front has no room for the file. -/
theorem dottedBase_refuses_config :
    isSafeRelativePath "config.json".toList = true ∧
      (resolve (join "./models".toList "config.json".toList)).Within
        (resolve "./models".toList) ∧
      pathIsWithin (join "./models".toList "config.json".toList)
        "./models".toList = false ∧
      ¬ ChecksExactly "./models".toList "config.json".toList := by
  have refused : pathIsWithin
      (join "./models".toList "config.json".toList)
      "./models".toList = false := by
    decide
  refine ⟨by decide, by decide, refused, fun exactly => ?_⟩
  have accepted := exactly.2.1 (by decide)
  rw [refused] at accepted
  cases accepted

end TorchInference
