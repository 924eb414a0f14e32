import Mathlib.Data.List.AList
import Mathlib.Data.List.DropRight
import Mathlib.Data.List.Infix
import TorchInference.UnixPath

/-!
# Trees with symbolic links

The kernel reads a path one part at a time.  A part that names a symbolic link
is replaced by the parts of its target, and a path that goes through too many
links does not resolve.  Nothing but a directory can be followed by another
part, not even by an empty one.

A location is real when no link lies on the way to it.  Paths resolve to real
locations, and a real location, written as a path, resolves to itself.
-/

namespace LinkedTree

open UnixPath

inductive LinkNode where
  | file
  | directory
  | link (target : List Char)
  deriving DecidableEq

abbrev Tree := AList fun _ : Location => LinkNode

/-- The part of a path between two separators; an empty part stays where it
is. -/
def part (text : List Char) : Component :=
  if plain : IsPlain text then .normal ⟨text, plain⟩
  else if text = ['.', '.'] then .parentDir
  else .curDir

/-- The parts of a path as the kernel reads them. -/
def parts (path : List Char) : List Component :=
  (if isAbsolute path then [.rootDir] else []) ++
    (path.splitOn '/').map part

/-- Walk down the parts; `follow` goes on after a symbolic link. -/
def walkWith (tree : Tree)
    (follow : Location → List Component → Option Location) :
    Location → List Component → Option Location
  | here, [] => some here
  | _, .rootDir :: rest => walkWith tree follow [] rest
  | here, .curDir :: rest => walkWith tree follow here rest
  | here, .parentDir :: rest => walkWith tree follow here.dropLast rest
  | here, .normal name :: rest =>
      match tree.lookup (here ++ [name]) with
      | none => none
      | some .file => if rest = [] then some (here ++ [name]) else none
      | some .directory => walkWith tree follow (here ++ [name]) rest
      | some (.link target) =>
          if target = [] then none else follow here (parts target ++ rest)

/-- Walk down the parts through at most so many symbolic links. -/
def walk (tree : Tree) :
    Nat → Location → List Component → Option Location
  | 0 => walkWith tree fun _ _ => none
  | links + 1 => walkWith tree (walk tree links)

/-- Where a path leads from a location, its links followed. -/
def resolve (tree : Tree) (links : Nat) (start : Location)
    (path : List Char) : Option Location :=
  if path = [] then none else walk tree links start (parts path)

def isFile (tree : Tree) (location : Location) : Bool :=
  tree.lookup location == some .file

def isDirectory (tree : Tree) (location : Location) : Bool :=
  location = [] || tree.lookup location == some .directory

/-- The names of the entries of a directory. -/
def children (tree : Tree) (directory : Location) : List FileName :=
  tree.keys.filterMap fun location =>
    if location.dropLast = directory then location.getLast? else none

/-- A directory with directories only on the way to it. -/
def IsRealDirectory (tree : Tree) (location : Location) : Prop :=
  ∀ above, above <+: location → above ≠ [] →
    tree.lookup above = some .directory

/-- A file or directory without a link on the way to it. -/
def IsReal (tree : Tree) (location : Location) : Prop :=
  IsRealDirectory tree location ∨
    IsRealDirectory tree location.dropLast ∧
      tree.lookup location = some .file

/-- Make the directory that the parts lead to, if it is not there yet and the
one above it is. -/
def makeDir (links : Nat) (start : Location) (tree : Tree)
    (front : List Component) : Option Tree :=
  match walk tree links start front with
  | some location => if isDirectory tree location then some tree else none
  | none =>
      match front.getLast?, walk tree links start front.dropLast with
      | some (.normal name), some above =>
          if isDirectory tree above ∧ above ++ [name] ∉ tree then
            some (tree.insert (above ++ [name]) .directory)
          else none
      | _, _ => none

/-- Make a directory and the ones that lead to it.  The directories above are
taken from the components of the path, the last one from its text without
separators at the end. -/
def createDirAll (links : Nat) (start : Location) (tree : Tree)
    (path : List Char) : Option Tree :=
  if path = [] then some tree
  else
    let above := (components path).dropLast.inits.tail
    let trimmed := path.rdropWhile (· == '/')
    (above.foldlM (makeDir links start) tree).bind fun tree =>
      makeDir links start tree (parts trimmed)

/-- A location as a path. -/
def render (location : Location) : List Char :=
  if location = [] then ['/']
  else location.flatMap fun name => '/' :: name.text

/-! ## Walks -/

section Walks

variable {tree larger : Tree}
  {follow further : Location → List Component → Option Location}

/-- A larger tree resolves what a smaller one does. -/
theorem walkWith_mono
    (grows : ∀ location node, tree.lookup location = some node →
      larger.lookup location = some node)
    (follows : ∀ here rest location, follow here rest = some location →
      further here rest = some location)
    {here location : Location} {rest : List Component}
    (reaches : walkWith tree follow here rest = some location) :
    walkWith larger further here rest = some location := by
  induction rest generalizing here with
  | nil => exact reaches
  | cons first rest ih =>
      cases first with
      | rootDir => exact ih reaches
      | curDir => exact ih reaches
      | parentDir => exact ih reaches
      | normal name =>
          cases found : tree.lookup (here ++ [name]) with
          | none => simp [walkWith, found] at reaches
          | some node =>
              have stillFound := grows _ _ found
              simp only [walkWith, found] at reaches
              simp only [walkWith, stillFound]
              cases node with
              | file => exact reaches
              | directory => exact ih reaches
              | link target =>
                  by_cases empty : target = []
                  · simp [empty] at reaches
                  · simp only [empty, if_false] at reaches ⊢
                    exact follows _ _ _ reaches

theorem walk_mono
    (grows : ∀ location node, tree.lookup location = some node →
      larger.lookup location = some node)
    {links : Nat} {here location : Location} {rest : List Component}
    (reaches : walk tree links here rest = some location) :
    walk larger links here rest = some location := by
  induction links generalizing here rest location with
  | zero => exact walkWith_mono grows (fun _ _ _ => id) reaches
  | succ links ih =>
      exact walkWith_mono grows (fun _ _ _ earlier => ih earlier) reaches

theorem resolve_mono
    (grows : ∀ location node, tree.lookup location = some node →
      larger.lookup location = some node)
    {links : Nat} {start location : Location} {path : List Char}
    (reaches : resolve tree links start path = some location) :
    resolve larger links start path = some location := by
  unfold resolve at reaches ⊢
  split at reaches
  case isTrue empty => cases reaches
  case isFalse nonempty =>
    rw [if_neg nonempty]
    exact walk_mono grows reaches

end Walks

/-! ## Real locations -/

section Real

variable {tree larger : Tree} {location : Location}
  {follow : Location → List Component → Option Location}

theorem isRealDirectory_root (tree : Tree) : IsRealDirectory tree [] := by
  intro above within nonempty
  exact absurd (List.prefix_nil.mp within) nonempty

theorem IsRealDirectory.above {above : Location}
    (real : IsRealDirectory tree location) (within : above <+: location) :
    IsRealDirectory tree above :=
  fun higher beyond nonempty => real higher (beyond.trans within) nonempty

theorem IsRealDirectory.below (real : IsRealDirectory tree location)
    {name : FileName}
    (found : tree.lookup (location ++ [name]) = some .directory) :
    IsRealDirectory tree (location ++ [name]) := by
  intro above within nonempty
  rcases List.prefix_concat_iff.mp within with rfl | higher
  · exact found
  · exact real above higher nonempty

theorem IsRealDirectory.isDirectory (real : IsRealDirectory tree location) :
    isDirectory tree location = true := by
  by_cases root : location = []
  · simp [LinkedTree.isDirectory, root]
  · simp [LinkedTree.isDirectory, real location List.prefix_rfl root]

theorem IsRealDirectory.mono
    (grows : ∀ location node, tree.lookup location = some node →
      larger.lookup location = some node)
    (real : IsRealDirectory tree location) :
    IsRealDirectory larger location :=
  fun above within nonempty => grows _ _ (real above within nonempty)

/-- A walk from a real directory ends in a real location. -/
theorem isReal_of_walkWith
    (follows : ∀ here rest location, IsRealDirectory tree here →
      follow here rest = some location → IsReal tree location)
    {here : Location} {rest : List Component}
    (real : IsRealDirectory tree here)
    (reaches : walkWith tree follow here rest = some location) :
    IsReal tree location := by
  induction rest generalizing here with
  | nil =>
      cases reaches
      exact Or.inl real
  | cons first rest ih =>
      cases first with
      | rootDir => exact ih (isRealDirectory_root tree) reaches
      | curDir => exact ih real reaches
      | parentDir =>
          exact ih (real.above (List.dropLast_prefix here)) reaches
      | normal name =>
          cases found : tree.lookup (here ++ [name]) with
          | none => simp [walkWith, found] at reaches
          | some node =>
              simp only [walkWith, found] at reaches
              cases node with
              | file =>
                  by_cases last : rest = []
                  · simp only [last, if_true, Option.some.injEq] at reaches
                    subst reaches
                    exact Or.inr ⟨by simpa using real, found⟩
                  · simp [last] at reaches
              | directory => exact ih (real.below found) reaches
              | link target =>
                  by_cases empty : target = []
                  · simp [empty] at reaches
                  · simp only [empty, if_false] at reaches
                    exact follows _ _ _ real reaches

theorem isReal_of_walk {links : Nat} {here : Location}
    {rest : List Component} (real : IsRealDirectory tree here)
    (reaches : walk tree links here rest = some location) :
    IsReal tree location := by
  induction links generalizing here rest location with
  | zero =>
      apply isReal_of_walkWith _ real reaches
      intro _ _ _ _ nowhere
      cases nowhere
  | succ links ih =>
      apply isReal_of_walkWith _ real reaches
      intro _ _ _ isReal later
      exact ih isReal later

theorem isReal_of_resolve {links : Nat} {start : Location}
    {path : List Char} (real : IsRealDirectory tree start)
    (reaches : resolve tree links start path = some location) :
    IsReal tree location := by
  unfold resolve at reaches
  split at reaches
  case isTrue => cases reaches
  case isFalse => exact isReal_of_walk real reaches

theorem walk_eq_walkWith (tree : Tree) (links : Nat) :
    ∃ follow, walk tree links = walkWith tree follow := by
  cases links with
  | zero => exact ⟨_, rfl⟩
  | succ links => exact ⟨_, rfl⟩

/-- A walk goes straight down through directories. -/
theorem walkWith_down {here names : Location}
    (directories : IsRealDirectory tree (here ++ names))
    (rest : List Component) :
    walkWith tree follow here (names.map .normal ++ rest) =
      walkWith tree follow (here ++ names) rest := by
  induction names generalizing here with
  | nil => simp
  | cons name names ih =>
      have found : tree.lookup (here ++ [name]) = some .directory :=
        directories _ (by simp) (by simp)
      have below : IsRealDirectory tree ((here ++ [name]) ++ names) := by
        simpa using directories
      have further := ih below
      simp only [List.map_cons, List.cons_append, walkWith, found]
      simpa using further

/-- What is not a link resolves to itself. -/
theorem walk_real (real : IsReal tree location) (links : Nat) :
    walk tree links [] (location.map .normal) = some location := by
  obtain ⟨follow, isWalk⟩ := walk_eq_walkWith tree links
  rw [isWalk]
  rcases List.eq_nil_or_concat' location with rfl | ⟨above, name, rfl⟩
  · rfl
  · rcases real with directory | ⟨directories, found⟩
    · have whole : IsRealDirectory tree ([] ++ (above ++ [name])) :=
        directory
      rw [← List.append_nil (List.map _ _), walkWith_down whole []]
      rfl
    · have isAbove : IsRealDirectory tree above := by
        simpa using directories
      calc walkWith tree follow [] ((above ++ [name]).map .normal)
          = walkWith tree follow []
              (above.map .normal ++ [.normal name]) := by simp
        _ = walkWith tree follow above [.normal name] :=
            walkWith_down isAbove [.normal name]
        _ = some (above ++ [name]) := by simp [walkWith, found]

end Real

/-! ## Locations as paths -/

theorem splitOn_flatMap (location : Location) :
    (location.flatMap fun name => '/' :: name.text).splitOn '/' =
      [] :: location.map FileName.text := by
  induction location using List.reverseRecOn with
  | nil => rfl
  | append_singleton front name ih =>
      have single : name.text.splitOn '/' = [name.text] :=
        List.splitOn_eq_singleton name.plain.2.1
      simp [List.splitOn_append_cons_self, ih, single]

theorem part_text (name : FileName) : part name.text = .normal name := by
  simp [part, name.plain]

/-- Reading a rendered location gives its names again. -/
theorem walk_parts_render (tree : Tree) (links : Nat) (start : Location)
    (location : Location) :
    walk tree links start (parts (render location)) =
      walk tree links [] (location.map .normal) := by
  obtain ⟨follow, isWalk⟩ := walk_eq_walkWith tree links
  rw [isWalk]
  cases location with
  | nil => rfl
  | cons name names =>
      have split := splitOn_flatMap (name :: names)
      have isAbsolutePath : isAbsolute (render (name :: names)) = true := rfl
      have isText : render (name :: names) =
          (name :: names).flatMap fun name => '/' :: name.text := rfl
      have read : parts (render (name :: names)) =
          .rootDir :: .curDir :: (name :: names).map .normal := by
        rw [parts, isAbsolutePath, isText, split]
        have empty : part [] = .curDir := by decide
        simp [empty, part_text]
      rw [read]
      rfl

theorem render_ne_nil (location : Location) : render location ≠ [] := by
  cases location <;> simp [render]

theorem resolve_render (tree : Tree) (links : Nat)
    (start location : Location) :
    resolve tree links start (render location) =
      walk tree links [] (location.map .normal) := by
  rw [resolve, if_neg (render_ne_nil location), walk_parts_render]

/-- The path of an entry is the path of its directory joined with its name. -/
theorem join_render (directory : Location) (name : FileName) :
    join (render directory) name.text = render (directory ++ [name]) := by
  have relative : isAbsolute name.text = false :=
    not_isAbsolute_of_isPlain name.plain
  rcases List.eq_nil_or_concat' directory with rfl | ⟨above, last, rfl⟩
  · simp [join, relative, render]
  · have shape : render (above ++ [last]) =
        ((above.flatMap fun name => '/' :: name.text) ++ ['/']) ++
          last.text := by
      simp [render]
    have ends : (render (above ++ [last])).getLast? ≠ some '/' := by
      intro separator
      rw [shape, List.getLast?_append_of_ne_nil _ last.plain.1] at separator
      exact last.plain.2.1 (List.mem_of_getLast? separator)
    simp [join, relative, render_ne_nil, ends]
    simp [render]

/-! ## Making directories -/

section Create

variable {tree larger : Tree}

theorem makeDir_grows {links : Nat} {start : Location}
    {front : List Component}
    (made : makeDir links start tree front = some larger)
    (location : Location) (node : LinkNode)
    (found : tree.lookup location = some node) :
    larger.lookup location = some node := by
  unfold makeDir at made
  split at made
  case h_1 =>
    split at made
    · cases made
      exact found
    · cases made
  case h_2 =>
    split at made
    case h_1 name above _ _ =>
      split at made
      case isTrue free =>
        cases made
        have different : location ≠ above ++ [name] := by
          rintro rfl
          exact free.2 (AList.lookup_isSome.mp (by simp [found]))
        rwa [AList.lookup_insert_ne different]
      case isFalse => cases made
    case h_2 => cases made

theorem foldlM_makeDir_grows {links : Nat} {start : Location}
    {fronts : List (List Component)}
    (made : fronts.foldlM (makeDir links start) tree = some larger)
    (location : Location) (node : LinkNode)
    (found : tree.lookup location = some node) :
    larger.lookup location = some node := by
  induction fronts generalizing tree with
  | nil =>
      cases made
      exact found
  | cons front fronts ih =>
      rw [List.foldlM_cons] at made
      obtain ⟨next, first, rest⟩ := Option.bind_eq_some_iff.mp made
      exact ih rest (makeDir_grows first location node found)

/-- Making directories leaves what is there. -/
theorem createDirAll_grows {links : Nat} {start : Location}
    {path : List Char}
    (made : createDirAll links start tree path = some larger)
    (location : Location) (node : LinkNode)
    (found : tree.lookup location = some node) :
    larger.lookup location = some node := by
  unfold createDirAll at made
  split at made
  case isTrue =>
    cases made
    exact found
  case isFalse =>
    obtain ⟨next, above, last⟩ := Option.bind_eq_some_iff.mp made
    exact makeDir_grows last location node
      (foldlM_makeDir_grows above location node found)

end Create

end LinkedTree
