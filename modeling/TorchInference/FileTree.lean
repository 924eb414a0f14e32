import Mathlib.Algebra.GroupWithZero.Nat
import Mathlib.Data.List.AList
import Mathlib.Data.List.Infix
import TorchInference.UnixPath

/-!
# A tree of files and directories

Every file and directory is an entry under its location; the root itself is
always there.  Files hold bytes, and a write names the offset it starts at, so
that two handles on one file can overwrite each other.
-/

namespace FileTree

open UnixPath

inductive Node where
  | file (content : List UInt8)
  | directory
  deriving DecidableEq

abbrev Tree := AList fun _ : Location => Node

/-- The bytes of the file at a location, if a file is there. -/
def contentAt (tree : Tree) (location : Location) : Option (List UInt8) :=
  match tree.lookup location with
  | some (.file content) => some content
  | _ => none

def isDirectory (tree : Tree) (location : Location) : Bool :=
  decide (location = [] ∨ tree.lookup location = some .directory)

/-- The names of the entries of a directory. -/
def children (tree : Tree) (directory : Location) : List FileName :=
  tree.keys.filterMap fun location =>
    if location.dropLast = directory then location.getLast? else none

/-- Some entry lies strictly below the location. -/
def hasDescendant (tree : Tree) (location : Location) : Bool :=
  tree.keys.any fun key => location.isPrefixOf key && key != location

def ensureDirectory (tree : Tree) (location : Location) : Tree :=
  if location = [] ∨ location ∈ tree then tree
  else tree.insert location .directory

/-- Make a directory and the ones that lead to it, unless a file is in the
way. -/
def createDirAll (tree : Tree) (location : Location) : Option Tree :=
  if location.inits.any fun above => (contentAt tree above).isSome then none
  else some (location.inits.foldl ensureDirectory tree)

/-- Open a file for writing: an existing one is truncated. -/
def createFile (tree : Tree) (location : Location) : Option Tree :=
  if isDirectory tree location.dropLast ∧ ¬ isDirectory tree location then
    some (tree.insert location (.file []))
  else none

/-- Bytes overwritten from an offset on; a gap reads as zeros. -/
def writeAt (content : List UInt8) (offset : Nat) (bytes : List UInt8) :
    List UInt8 :=
  content.take offset ++ List.replicate (offset - content.length) 0 ++
    bytes ++ content.drop (offset + bytes.length)

def write (tree : Tree) (location : Location) (offset : Nat)
    (bytes : List UInt8) : Tree :=
  match contentAt tree location with
  | some content => tree.insert location (.file (writeAt content offset bytes))
  | none => tree

/-- Remove a file or an empty directory. -/
def removeEntry (tree : Tree) (location : Location) : Option Tree :=
  if location ∈ tree ∧ ¬ hasDescendant tree location then
    some (tree.erase location)
  else none

/-- The bytes held by the files at or below a location. -/
def dirSize (tree : Tree) (directory : Location) : Nat :=
  (tree.entries.map fun entry =>
    match entry.2 with
    | .file content =>
        if directory.isPrefixOf entry.1 then content.length else 0
    | .directory => 0).sum

/-! ## Contents -/

theorem contentAt_eq_some {tree : Tree} {location : Location}
    {content : List UInt8} :
    contentAt tree location = some content ↔
      tree.lookup location = some (.file content) := by
  unfold contentAt
  split <;> simp_all

/-- Writing at the end of a file appends. -/
@[simp]
theorem writeAt_length (content bytes : List UInt8) :
    writeAt content content.length bytes = content ++ bytes := by
  simp [writeAt]

@[simp]
theorem contentAt_insert_file (tree : Tree) (location : Location)
    (content : List UInt8) :
    contentAt (tree.insert location (.file content)) location =
      some content := by
  simp [contentAt]

theorem contentAt_insert_of_ne {tree : Tree} {location other : Location}
    (different : other ≠ location) (node : Node) :
    contentAt (tree.insert location node) other = contentAt tree other := by
  simp [contentAt, AList.lookup_insert_ne different]

/-! ## Directories -/

@[simp]
theorem contentAt_ensureDirectory (tree : Tree)
    (location other : Location) :
    contentAt (ensureDirectory tree location) other =
      contentAt tree other := by
  unfold ensureDirectory
  split
  case isTrue => rfl
  case isFalse missing =>
    by_cases same : other = location
    · subst same
      have absent : tree.lookup other = none :=
        AList.lookup_eq_none.mpr (fun present => missing (Or.inr present))
      simp [contentAt, absent]
    · exact contentAt_insert_of_ne same .directory

theorem mem_ensureDirectory {tree : Tree} {location other : Location}
    (member : other ∈ ensureDirectory tree location) :
    other ∈ tree ∨ other = location ∧ location ≠ [] := by
  unfold ensureDirectory at member
  split at member
  case isTrue => exact Or.inl member
  case isFalse missing =>
    rcases AList.mem_insert tree |>.mp member with same | old
    · exact Or.inr ⟨same, fun root => missing (Or.inl root)⟩
    · exact Or.inl old

theorem contentAt_foldl_ensureDirectory (locations : List Location)
    (tree : Tree) (other : Location) :
    contentAt (locations.foldl ensureDirectory tree) other =
      contentAt tree other := by
  induction locations generalizing tree with
  | nil => rfl
  | cons location locations ih =>
      rw [List.foldl_cons, ih, contentAt_ensureDirectory]

theorem mem_foldl_ensureDirectory (locations : List Location)
    {tree : Tree} {other : Location}
    (member : other ∈ locations.foldl ensureDirectory tree) :
    other ∈ tree ∨ other ∈ locations ∧ other ≠ [] := by
  induction locations generalizing tree with
  | nil => exact Or.inl member
  | cons location locations ih =>
      rcases ih member with early | ⟨later, notRoot⟩
      · rcases mem_ensureDirectory early with old | ⟨rfl, notRoot⟩
        · exact Or.inl old
        · exact Or.inr ⟨List.mem_cons_self, notRoot⟩
      · exact Or.inr ⟨List.mem_cons_of_mem _ later, notRoot⟩

theorem mem_ensureDirectory_of_mem {tree : Tree} {other : Location}
    (member : other ∈ tree) (location : Location) :
    other ∈ ensureDirectory tree location := by
  unfold ensureDirectory
  split
  · exact member
  · exact (AList.mem_insert tree).mpr (Or.inr member)

theorem mem_foldl_ensureDirectory_of_mem (locations : List Location)
    {tree : Tree} {other : Location} (member : other ∈ tree) :
    other ∈ locations.foldl ensureDirectory tree := by
  induction locations generalizing tree with
  | nil => exact member
  | cons location locations ih =>
      exact ih (mem_ensureDirectory_of_mem member location)

/-- Making directories removes nothing. -/
theorem mem_createDirAll_of_mem {tree after : Tree}
    {location other : Location}
    (made : createDirAll tree location = some after)
    (member : other ∈ tree) : other ∈ after := by
  simp only [createDirAll, Option.ite_none_left_eq_some,
    Option.some.injEq] at made
  rw [← made.2]
  exact mem_foldl_ensureDirectory_of_mem _ member

/-- Making directories changes no file. -/
theorem contentAt_createDirAll {tree after : Tree} {location : Location}
    (made : createDirAll tree location = some after) (other : Location) :
    contentAt after other = contentAt tree other := by
  simp only [createDirAll, Option.ite_none_left_eq_some,
    Option.some.injEq] at made
  rw [← made.2, contentAt_foldl_ensureDirectory]

/-- Only the directories that lead to the location are new. -/
theorem mem_createDirAll {tree after : Tree} {location other : Location}
    (made : createDirAll tree location = some after)
    (member : other ∈ after) :
    other ∈ tree ∨ other <+: location ∧ other ≠ [] := by
  simp only [createDirAll, Option.ite_none_left_eq_some,
    Option.some.injEq] at made
  rw [← made.2] at member
  rcases mem_foldl_ensureDirectory _ member with old | ⟨above, notRoot⟩
  · exact Or.inl old
  · exact Or.inr ⟨(List.mem_inits _ _).mp above, notRoot⟩

theorem mem_children {tree : Tree} {directory : Location}
    {name : FileName} :
    name ∈ children tree directory ↔ directory ++ [name] ∈ tree := by
  simp only [children, List.mem_filterMap, Option.ite_none_right_eq_some,
    AList.mem_keys]
  constructor
  · rintro ⟨location, member, above, last⟩
    obtain ⟨front, rfl⟩ := List.getLast?_eq_some_iff.mp last
    rw [List.dropLast_concat] at above
    rwa [← above]
  · intro member
    exact ⟨directory ++ [name], member, by simp, by simp⟩

/-! ## Trees without gaps -/

/-- Every entry lies in a directory. -/
def WellFormed (tree : Tree) : Prop :=
  ∀ location ∈ tree, isDirectory tree location.dropLast = true

theorem isDirectory_ensureDirectory {tree : Tree} {other : Location}
    (present : isDirectory tree other = true) (location : Location) :
    isDirectory (ensureDirectory tree location) other = true := by
  simp only [isDirectory, decide_eq_true_eq] at present ⊢
  unfold ensureDirectory
  split
  case isTrue => exact present
  case isFalse missing =>
    refine present.imp_right fun found => ?_
    have different : other ≠ location := by
      rintro rfl
      apply missing
      right
      rw [← AList.lookup_isSome, found]
      rfl
    rw [AList.lookup_insert_ne different, found]

/-- A location where no file is in the way becomes a directory. -/
theorem isDirectory_ensureDirectory_self {tree : Tree} {location : Location}
    (noFile : contentAt tree location = none) :
    isDirectory (ensureDirectory tree location) location = true := by
  simp only [isDirectory, decide_eq_true_eq]
  unfold ensureDirectory
  split
  case isTrue present =>
    refine present.imp_right fun member => ?_
    obtain ⟨node, found⟩ := Option.isSome_iff_exists.mp
      (AList.lookup_isSome.mpr member)
    cases node with
    | directory => exact found
    | file content =>
        rw [contentAt_eq_some.mpr found] at noFile
        cases noFile
  case isFalse => simp

theorem isDirectory_foldl_ensureDirectory (locations : List Location)
    {tree : Tree} {other : Location}
    (present : isDirectory tree other = true) :
    isDirectory (locations.foldl ensureDirectory tree) other = true := by
  induction locations generalizing tree with
  | nil => exact present
  | cons location locations ih =>
      exact ih (isDirectory_ensureDirectory present location)

/-- Making directories makes the last of them and keeps the others. -/
theorem isDirectory_createDirAll {tree after : Tree} {location : Location}
    (made : createDirAll tree location = some after) :
    isDirectory after location = true ∧
      ∀ other, isDirectory tree other = true →
        isDirectory after other = true := by
  simp only [createDirAll, Option.ite_none_left_eq_some,
    Option.some.injEq, List.any_eq_true, not_exists, not_and,
    List.mem_inits, Bool.not_eq_true, Option.isSome_eq_false_iff,
    Option.isNone_iff_eq_none] at made
  obtain ⟨noFile, rfl⟩ := made
  refine ⟨?_, fun other => isDirectory_foldl_ensureDirectory _⟩
  induction location using List.reverseRecOn with
  | nil => rfl
  | append_singleton location name _ =>
      have last : (location ++ [name]).inits =
          location.inits ++ [location ++ [name]] := by
        simp [List.inits_append]
      rw [last, List.foldl_append, List.foldl_cons, List.foldl_nil]
      apply isDirectory_ensureDirectory_self
      rw [contentAt_foldl_ensureDirectory]
      exact noFile _ List.prefix_rfl

theorem wellFormed_ensureDirectory {tree : Tree} {location : Location}
    (wellFormed : WellFormed tree)
    (above : isDirectory tree location.dropLast = true) :
    WellFormed (ensureDirectory tree location) := by
  intro other member
  rcases mem_ensureDirectory member with old | ⟨rfl, -⟩
  · exact isDirectory_ensureDirectory (wellFormed other old) _
  · exact isDirectory_ensureDirectory above _

/-- Making the directories that lead somewhere leaves no gap. -/
theorem wellFormed_foldl_ensureDirectory {tree : Tree}
    (wellFormed : WellFormed tree) (location : Location)
    (noFile : ∀ above, above <+: location → contentAt tree above = none) :
    WellFormed (location.inits.foldl ensureDirectory tree) ∧
      isDirectory (location.inits.foldl ensureDirectory tree) location =
        true := by
  induction location using List.reverseRecOn with
  | nil => exact ⟨by simpa [ensureDirectory] using wellFormed, rfl⟩
  | append_singleton location name ih =>
      obtain ⟨before, isDir⟩ := ih fun above ahead =>
        noFile above (ahead.trans (List.prefix_append _ _))
      have last : (location ++ [name]).inits =
          location.inits ++ [location ++ [name]] := by
        simp [List.inits_append]
      rw [last, List.foldl_append, List.foldl_cons, List.foldl_nil]
      refine ⟨wellFormed_ensureDirectory before (by simpa using isDir), ?_⟩
      apply isDirectory_ensureDirectory_self
      rw [contentAt_foldl_ensureDirectory]
      exact noFile _ List.prefix_rfl

theorem wellFormed_createDirAll {tree after : Tree} {location : Location}
    (wellFormed : WellFormed tree)
    (made : createDirAll tree location = some after) :
    WellFormed after := by
  simp only [createDirAll, Option.ite_none_left_eq_some,
    Option.some.injEq, List.any_eq_true, not_exists, not_and,
    List.mem_inits, Bool.not_eq_true, Option.isSome_eq_false_iff,
    Option.isNone_iff_eq_none] at made
  rw [← made.2]
  exact (wellFormed_foldl_ensureDirectory wellFormed location made.1).1

/-- What is not a directory has no entries. -/
theorem children_eq_nil {tree : Tree} (wellFormed : WellFormed tree)
    {directory : Location} (notDirectory : isDirectory tree directory = false) :
    children tree directory = [] := by
  rw [List.eq_nil_iff_forall_not_mem]
  intro name member
  have above := wellFormed _ (mem_children.mp member)
  rw [List.dropLast_concat, notDirectory] at above
  cases above

/-! ## Files -/

/-- A created file is empty and nothing else changes. -/
theorem createFile_eq_some {tree after : Tree} {location : Location}
    (created : createFile tree location = some after) :
    after = tree.insert location (.file []) := by
  simp only [createFile, Option.ite_none_right_eq_some,
    Option.some.injEq] at created
  exact created.2.symm

theorem contentAt_write_of_ne {location other : Location}
    (different : other ≠ location) (tree : Tree) (offset : Nat)
    (bytes : List UInt8) :
    contentAt (write tree location offset bytes) other =
      contentAt tree other := by
  unfold write
  split
  · exact contentAt_insert_of_ne different _
  · rfl

/-- Writing at the end of what a file holds appends to it. -/
theorem contentAt_write_append {tree : Tree} {location : Location}
    {content : List UInt8} (holds : contentAt tree location = some content)
    (bytes : List UInt8) :
    contentAt (write tree location content.length bytes) location =
      some (content ++ bytes) := by
  simp [write, holds]

theorem mem_write {tree : Tree} {location other : Location} {offset : Nat}
    {bytes : List UInt8} :
    other ∈ write tree location offset bytes ↔ other ∈ tree := by
  unfold write
  split
  case h_1 content holds =>
    have present : location ∈ tree := by
      rw [← AList.lookup_isSome, contentAt_eq_some.mp holds]
      rfl
    rw [AList.mem_insert]
    constructor
    · rintro (rfl | old)
      · exact present
      · exact old
    · exact Or.inr
  case h_2 => exact Iff.rfl

/-- Replacing what is not a directory by a file keeps every directory. -/
theorem isDirectory_insert_file {tree : Tree} {location other : Location}
    (notDirectory : isDirectory tree location = false)
    (present : isDirectory tree other = true) (content : List UInt8) :
    isDirectory (tree.insert location (.file content)) other = true := by
  have different : other ≠ location := by
    rintro rfl
    rw [present] at notDirectory
    cases notDirectory
  simp only [isDirectory, decide_eq_true_eq] at present ⊢
  rw [AList.lookup_insert_ne different]
  exact present

theorem isDirectory_createFile {tree after : Tree}
    {location other : Location}
    (created : createFile tree location = some after)
    (present : isDirectory tree other = true) :
    isDirectory after other = true := by
  simp only [createFile, Option.ite_none_right_eq_some, Option.some.injEq,
    Bool.not_eq_true] at created
  obtain ⟨⟨-, notDirectory⟩, rfl⟩ := created
  exact isDirectory_insert_file notDirectory present []

theorem isDirectory_write {tree : Tree} {other : Location}
    (present : isDirectory tree other = true) (location : Location)
    (offset : Nat) (bytes : List UInt8) :
    isDirectory (write tree location offset bytes) other = true := by
  unfold write
  split
  case h_1 content holds =>
    simp only [isDirectory, decide_eq_true_eq] at present ⊢
    refine present.imp_right fun found => ?_
    have different : other ≠ location := by
      rintro rfl
      rw [contentAt_eq_some, found] at holds
      cases holds
    rw [AList.lookup_insert_ne different, found]
  case h_2 => exact present

theorem wellFormed_createFile {tree after : Tree} {location : Location}
    (wellFormed : WellFormed tree)
    (created : createFile tree location = some after) :
    WellFormed after := by
  simp only [createFile, Option.ite_none_right_eq_some, Option.some.injEq,
    Bool.not_eq_true] at created
  obtain ⟨⟨above, notDirectory⟩, rfl⟩ := created
  intro other member
  apply isDirectory_insert_file notDirectory
  rcases (AList.mem_insert tree).mp member with rfl | old
  · exact above
  · exact wellFormed other old

theorem wellFormed_write {tree : Tree} (wellFormed : WellFormed tree)
    (location : Location) (offset : Nat) (bytes : List UInt8) :
    WellFormed (write tree location offset bytes) := by
  intro other member
  have above := wellFormed other (mem_write.mp member)
  unfold write
  split
  case h_1 content holds =>
    by_cases root : location = []
    · subst root
      by_cases below : other.dropLast = []
      · simp [isDirectory, below]
      · simp only [isDirectory, decide_eq_true_eq] at above ⊢
        rw [AList.lookup_insert_ne below]
        exact above
    · have notDirectory : isDirectory tree location = false := by
        simp [isDirectory, root, contentAt_eq_some.mp holds]
      exact isDirectory_insert_file notDirectory above _
  case h_2 => exact above

/-! ## Removal -/

theorem removeEntry_eq_some {tree after : Tree} {location : Location}
    (removed : removeEntry tree location = some after) :
    location ∈ tree ∧ after = tree.erase location := by
  simp only [removeEntry, Option.ite_none_right_eq_some,
    Option.some.injEq] at removed
  exact ⟨removed.1.1, removed.2.symm⟩

/-- A removal keeps every other directory. -/
theorem isDirectory_removeEntry {tree after : Tree}
    {location other : Location}
    (removed : removeEntry tree location = some after)
    (different : other ≠ location)
    (present : isDirectory tree other = true) :
    isDirectory after other = true := by
  obtain ⟨-, rfl⟩ := removeEntry_eq_some removed
  simp only [isDirectory, decide_eq_true_eq] at present ⊢
  rw [AList.lookup_erase_ne different]
  exact present

end FileTree
