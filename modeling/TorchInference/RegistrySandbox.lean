import TorchInference.LinkedTree
import TorchInference.ModelRegistry
import TorchInference.TransitionRuns

/-!
# Models registered over the network

Two requests fill the registry.  One names a file and the other a directory,
and both resolve the path they are given and refuse it when it lies outside
the models directory.  The first stores the resolved path; the second stores
the paths of the entries it finds in the resolved directory.
-/

namespace TorchInference

open UnixPath LinkedTree TransitionRuns

/-- The files of the machine, and where the server has been started. -/
structure FileSystem where
  tree : Tree
  workingDir : Location
  /-- How many symbolic links a path may go through. -/
  linkLimit : Nat
  ready : IsRealDirectory tree workingDir

namespace FileSystem

def resolve (files : FileSystem) (path : List Char) : Option Location :=
  LinkedTree.resolve files.tree files.linkLimit files.workingDir path

def present (files : FileSystem) (path : List Char) : Bool :=
  (files.resolve path).isSome

def isFile (files : FileSystem) (path : List Char) : Bool :=
  (files.resolve path).any (LinkedTree.isFile files.tree)

def isDir (files : FileSystem) (path : List Char) : Bool :=
  (files.resolve path).any (LinkedTree.isDirectory files.tree)

def createDirAll (files : FileSystem) (path : List Char) :
    Option FileSystem :=
  match made : LinkedTree.createDirAll files.linkLimit files.workingDir
    files.tree path with
  | none => none
  | some tree => some { files with
      tree := tree
      ready := files.ready.mono (createDirAll_grows made) }

end FileSystem

inductive SandboxError where
  | unprepared (modelsDir : List Char)
  | unresolvedBase (modelsDir : List Char)
  | unresolved
  | outside (path base : Location)
  deriving DecidableEq

/-- A canonical path is given as its location.  When the models directory
cannot be prepared, no later request gets any further. -/
def ensureWithinModelsDir (files : FileSystem) (cacheDir path : List Char) :
    Except SandboxError Location × FileSystem :=
  let prepared :=
    if files.present cacheDir then some files else files.createDirAll cacheDir
  match prepared with
  | none => (.error (.unprepared cacheDir), files)
  | some files =>
      match files.resolve cacheDir with
      | none => (.error (.unresolvedBase cacheDir), files)
      | some canonicalBase =>
          match files.resolve path with
          | none => (.error .unresolved, files)
          | some canonicalPath =>
              if canonicalBase <+: canonicalPath then
                (.ok canonicalPath, files)
              else (.error (.outside canonicalPath canonicalBase), files)

structure RegisterModelRequest where
  path : String
  name : Option String

structure ScanDirectoryRequest where
  path : String

/-- What is read of a file that exists. -/
structure FileReading where
  size : Except String Nat
  config : Option (Except String Unit)

def FileSystem.probe (files : FileSystem) (path : List Char)
    (reading : FileReading) : FileProbe where
  present := files.present path
  size := reading.size
  config := reading.config

/-- The entry for a file found in a scanned directory, if it is a model that
can be registered. -/
def scannedEntry (files : FileSystem) (path : List Char)
    (reading : FileReading) : Option ModelEntry :=
  if files.isFile path then
    match (extension path).bind ModelFormat.fromExtension with
    | none => none
    | some _ =>
        (ModelRegistry.newEntry (files.probe path reading) path none).toOption
  else none

/-- In which order a directory gives its entries. -/
structure ReadOrder where
  order : List FileName → List FileName
  perm : ∀ names, (order names).Perm names

/-- A scan, with the entries of the directory it has not come to. -/
structure DirectoryScan where
  directory : Location
  remaining : List FileName
  registered : List String

inductive SandboxReply where
  | rejected (error : SandboxError)
  | failed (error : RegisterError)
  | invalidDirectory
  | registered (modelId : String)
  | scanning (scan : Nat)

structure RegistryServer where
  files : FileSystem
  cacheDir : List Char
  registry : ModelRegistry
  scans : List DirectoryScan

namespace RegistryServer

variable (server : RegistryServer)

def registerModel (request : RegisterModelRequest) (reading : FileReading) :
    SandboxReply × RegistryServer :=
  match ensureWithinModelsDir server.files server.cacheDir
    request.path.toList with
  | (.error e, files) => (.rejected e, { server with files := files })
  | (.ok location, files) =>
      let path := render location
      match server.registry.registerFromPath (files.probe path reading) path
        request.name with
      | .error e => (.failed e, { server with files := files })
      | .ok (modelId, registry) =>
          (.registered modelId,
            { server with files := files, registry := registry })

/-- `scan_directory` up to the first entry. -/
def scanDirectory (request : ScanDirectoryRequest) (read : ReadOrder) :
    SandboxReply × RegistryServer :=
  match ensureWithinModelsDir server.files server.cacheDir
    request.path.toList with
  | (.error e, files) => (.rejected e, { server with files := files })
  | (.ok location, files) =>
      if files.isDir (render location) then
        (.scanning server.scans.length, { server with
          files := files
          scans := server.scans ++
            [⟨location, read.order (children files.tree location), []⟩] })
      else (.invalidDirectory, { server with files := files })

/-- The scan goes on to the next entry. -/
def scanEntry (index : Nat) (scan : DirectoryScan) (name : FileName)
    (remaining : List FileName) (reading : FileReading) : RegistryServer :=
  let path := join (render scan.directory) name.text
  match scannedEntry server.files path reading with
  | none => { server with
      scans := server.scans.set index { scan with remaining := remaining } }
  | some entry => { server with
      registry := server.registry.insert entry.id entry
      scans := server.scans.set index { scan with
        remaining := remaining
        registered := scan.registered ++ [entry.id] } }

end RegistryServer

inductive SandboxAction where
  | register (request : RegisterModelRequest) (reading : FileReading)
  | scan (request : ScanDirectoryRequest) (read : ReadOrder)
  | scanEntry (index : Nat) (reading : FileReading)

namespace RegistryServer

def step (server : RegistryServer) : SandboxAction → Option RegistryServer
  | .register request reading => some (server.registerModel request reading).2
  | .scan request read => some (server.scanDirectory request read).2
  | .scanEntry index reading =>
      match server.scans[index]? with
      | none => none
      | some scan =>
          match scan.remaining with
          | [] => none
          | name :: remaining =>
              some (server.scanEntry index scan name remaining reading)

/-- The path leads to somewhere in the models directory. -/
def leadsInside (server : RegistryServer) (path : List Char) : Bool :=
  match server.files.resolve server.cacheDir, server.files.resolve path with
  | some base, some location => base.isPrefixOf location
  | _, _ => false

/-- Every stored path leads to a file in the models directory. -/
def Sandboxed (server : RegistryServer) : Prop :=
  ∀ modelId, ∀ entry ∈ server.registry.lookup modelId,
    server.leadsInside entry.path = true ∧
      server.files.isFile entry.path = true

/-- The entry of the directory is a symbolic link. -/
def isLink (server : RegistryServer) (directory : Location)
    (name : FileName) : Bool :=
  match server.files.tree.lookup (directory ++ [name]) with
  | some (.link _) => true
  | _ => false

/-- What a request registers is a file and not a directory, and no link that
a scan registers leads out of the models directory. -/
def LinksInside (server : RegistryServer) : SandboxAction → Prop
  | .register request reading =>
      match ensureWithinModelsDir server.files server.cacheDir
        request.path.toList with
      | (.error _, _) => True
      | (.ok location, files) =>
          match ModelRegistry.newEntry (files.probe (render location) reading)
            (render location) request.name with
          | .error _ => True
          | .ok _ => LinkedTree.isFile files.tree location = true
  | .scan _ _ => True
  | .scanEntry index reading =>
      match server.scans[index]? with
      | none => True
      | some scan =>
          match scan.remaining with
          | [] => True
          | name :: _ =>
              let path := join (render scan.directory) name.text
              server.isLink scan.directory name = true →
                (scannedEntry server.files path reading).isSome = true →
                  server.leadsInside path = true

instance (server : RegistryServer) :
    ∀ action, Decidable (server.LinksInside action)
  | .register request reading =>
      match checked : ensureWithinModelsDir server.files server.cacheDir
        request.path.toList with
      | (.error _, _) => isTrue (by simp [LinksInside, checked])
      | (.ok location, files) =>
          match registered :
            ModelRegistry.newEntry (files.probe (render location) reading)
              (render location) request.name with
          | .error _ => isTrue (by simp [LinksInside, checked, registered])
          | .ok _ =>
              decidable_of_iff (LinkedTree.isFile files.tree location = true)
                (by simp only [LinksInside, checked, registered])
  | .scan _ _ => isTrue trivial
  | .scanEntry index reading =>
      match found : server.scans[index]? with
      | none => isTrue (by simp [LinksInside, found])
      | some ⟨_, [], _⟩ => isTrue (by simp [LinksInside, found])
      | some ⟨directory, name :: _, _⟩ =>
          decidable_of_iff
            (server.isLink directory name = true →
              (scannedEntry server.files
                (join (render directory) name.text) reading).isSome = true →
                server.leadsInside (join (render directory) name.text) = true)
            (by simp only [LinksInside, found])

/-! ## The check of a path -/

section Check

variable {files next : FileSystem} {cacheDir path : List Char}
  {location : Location}

/-- The later files are the earlier ones and new directories. -/
structure Grows (files next : FileSystem) : Prop where
  kept : ∀ location node, files.tree.lookup location = some node →
    next.tree.lookup location = some node
  workingDir : next.workingDir = files.workingDir
  linkLimit : next.linkLimit = files.linkLimit

theorem Grows.refl (files : FileSystem) : Grows files files where
  kept := fun _ _ => id
  workingDir := rfl
  linkLimit := rfl

theorem Grows.resolve (grows : Grows files next)
    (resolves : files.resolve path = some location) :
    next.resolve path = some location := by
  unfold FileSystem.resolve at resolves ⊢
  rw [grows.workingDir, grows.linkLimit]
  exact resolve_mono grows.kept resolves

theorem Grows.isFile (grows : Grows files next)
    (isFile : files.isFile path = true) : next.isFile path = true := by
  obtain ⟨location, resolves, found⟩ := Option.any_eq_true _ _ |>.mp isFile
  have isStill : LinkedTree.isFile next.tree location = true := by
    have earlier : files.tree.lookup location = some .file := by
      simpa [LinkedTree.isFile] using found
    simp [LinkedTree.isFile, grows.kept _ _ earlier]
  simp [FileSystem.isFile, grows.resolve resolves, isStill]

theorem grows_of_createDirAll
    (made : files.createDirAll path = some next) : Grows files next := by
  unfold FileSystem.createDirAll at made
  split at made
  case h_1 => cases made
  case h_2 tree isMade =>
    cases made
    exact ⟨createDirAll_grows isMade, rfl, rfl⟩

theorem grows_of_ensure {result : Except SandboxError Location}
    (checked : ensureWithinModelsDir files cacheDir path = (result, next)) :
    Grows files next := by
  unfold ensureWithinModelsDir at checked
  cases prepared : (if files.present cacheDir then some files
      else files.createDirAll cacheDir) with
  | none =>
      simp only [prepared, Prod.mk.injEq] at checked
      rw [← checked.2]
      exact Grows.refl files
  | some ready =>
      have grows : Grows files ready := by
        split at prepared
        · cases prepared
          exact Grows.refl files
        · exact grows_of_createDirAll prepared
      have same : next = ready := by
        simp only [prepared] at checked
        split at checked
        · exact (Prod.mk.inj checked).2.symm
        · split at checked
          · exact (Prod.mk.inj checked).2.symm
          · split at checked <;> exact (Prod.mk.inj checked).2.symm
      rw [same]
      exact grows

/-- A path that passes the check leads into the models directory. -/
theorem inside_of_ensure
    (checked : ensureWithinModelsDir files cacheDir path =
      (.ok location, next)) :
    next.resolve path = some location ∧
      ∃ base, next.resolve cacheDir = some base ∧ base <+: location := by
  unfold ensureWithinModelsDir at checked
  cases prepared : (if files.present cacheDir then some files
      else files.createDirAll cacheDir) with
  | none => simp [prepared] at checked
  | some ready =>
      simp only [prepared] at checked
      cases isBase : ready.resolve cacheDir with
      | none => simp [isBase] at checked
      | some base =>
          cases isPath : ready.resolve path with
          | none => simp [isBase, isPath] at checked
          | some canonical =>
              simp only [isBase, isPath] at checked
              split at checked
              case isTrue within =>
                cases checked
                exact ⟨isPath, base, isBase, within⟩
              case isFalse => cases checked

end Check

/-! ## Real locations -/

section Resolve

variable {files : FileSystem} {location : Location}

/-- The path of a real location leads there. -/
theorem resolve_render_of_isReal (real : IsReal files.tree location) :
    files.resolve (render location) = some location := by
  rw [FileSystem.resolve, resolve_render, walk_real real]

theorem isReal_of_resolves {path : List Char}
    (resolves : files.resolve path = some location) :
    IsReal files.tree location :=
  isReal_of_resolve files.ready resolves

/-- A file found in a real directory that is not a link is there. -/
theorem resolve_entry {directory : Location} {name : FileName}
    (real : IsRealDirectory files.tree directory)
    (isFile : files.isFile (render (directory ++ [name])) = true)
    (noLink : ∀ target, files.tree.lookup (directory ++ [name]) ≠
      some (.link target)) :
    files.resolve (render (directory ++ [name])) =
      some (directory ++ [name]) := by
  apply resolve_render_of_isReal
  cases found : files.tree.lookup (directory ++ [name]) with
  | none =>
      obtain ⟨follow, isWalk⟩ :=
        walk_eq_walkWith files.tree files.linkLimit
      have nowhere : files.resolve (render (directory ++ [name])) = none := by
        rw [FileSystem.resolve, resolve_render, isWalk, List.map_append,
          walkWith_down (by simpa using real)]
        simp [walkWith, found]
      simp [FileSystem.isFile, nowhere] at isFile
  | some node =>
      cases node with
      | file => exact Or.inr ⟨by simpa using real, found⟩
      | directory => exact Or.inl (real.below found)
      | link target => exact absurd found (noLink target)

end Resolve

structure Inv (server : RegistryServer) : Prop where
  sandboxed : server.Sandboxed
  scanned : ∀ scan ∈ server.scans,
    IsRealDirectory server.files.tree scan.directory ∧
      ∃ base, server.files.resolve server.cacheDir = some base ∧
        base <+: scan.directory

section Steps

variable {server next : RegistryServer}

theorem leadsInside_iff {path : List Char} :
    server.leadsInside path = true ↔
      ∃ base location, server.files.resolve server.cacheDir = some base ∧
        server.files.resolve path = some location ∧ base <+: location := by
  unfold leadsInside
  split
  case h_1 base location isBase resolves =>
    rw [isBase, resolves]
    simp
  case h_2 unresolved =>
    constructor
    · intro isTrue
      cases isTrue
    · rintro ⟨base, location, isBase, resolves, -⟩
      exact absurd resolves (unresolved base location isBase)

/-- New directories change nothing for what is stored and scanned. -/
theorem Inv.grow (inv : server.Inv) (grows : Grows server.files next.files)
    (cacheDir : next.cacheDir = server.cacheDir)
    (registry : next.registry = server.registry)
    (scans : next.scans = server.scans) : next.Inv := by
  constructor
  · intro modelId entry stored
    rw [registry] at stored
    obtain ⟨inside, isFile⟩ := inv.sandboxed modelId entry stored
    obtain ⟨base, location, isBase, resolves, within⟩ :=
      leadsInside_iff.mp inside
    refine ⟨leadsInside_iff.mpr ⟨base, location, ?_,
      grows.resolve resolves, within⟩, grows.isFile isFile⟩
    rw [cacheDir]
    exact grows.resolve isBase
  · intro scan member
    rw [scans] at member
    obtain ⟨real, base, isBase, within⟩ := inv.scanned scan member
    refine ⟨real.mono grows.kept, base, ?_, within⟩
    rw [cacheDir]
    exact grows.resolve isBase

/-- A new entry that leads to a file inside keeps the registry sandboxed. -/
theorem Inv.insert (inv : server.Inv) {entry : ModelEntry}
    (inside : server.leadsInside entry.path = true)
    (isFile : server.files.isFile entry.path = true) :
    Inv { server with
      registry := server.registry.insert entry.id entry } where
  sandboxed := by
    intro modelId other stored
    by_cases same : modelId = entry.id
    · subst same
      rw [AList.lookup_insert, Option.mem_some_iff] at stored
      subst stored
      exact ⟨inside, isFile⟩
    · rw [AList.lookup_insert_ne same] at stored
      exact inv.sandboxed modelId other stored
  scanned := inv.scanned

/-- A scan that moves on within its directory. -/
theorem Inv.rescan (inv : server.Inv) {index : Nat}
    {scan : DirectoryScan} (found : server.scans[index]? = some scan)
    (remaining : List FileName) (registered : List String) :
    Inv { server with
      scans :=
        server.scans.set index ⟨scan.directory, remaining, registered⟩ } where
  sandboxed := inv.sandboxed
  scanned := by
    intro other member
    rcases List.mem_or_eq_of_mem_set member with earlier | rfl
    · exact inv.scanned other earlier
    · exact inv.scanned scan (List.mem_of_getElem? found)

theorem Inv.registerModel (inv : server.Inv)
    {request : RegisterModelRequest} {reading : FileReading}
    (linksInside : server.LinksInside (.register request reading)) :
    (server.registerModel request reading).2.Inv := by
  unfold RegistryServer.registerModel
  simp only [LinksInside] at linksInside
  cases checked : ensureWithinModelsDir server.files server.cacheDir
      request.path.toList with
  | mk result files =>
      have grows : Grows server.files files := grows_of_ensure checked
      cases result with
      | error e => exact inv.grow grows rfl rfl rfl
      | ok location =>
          have grown : Inv { server with files := files } :=
            inv.grow grows rfl rfl rfl
          simp only [checked] at linksInside
          cases registered : ModelRegistry.newEntry
              (files.probe (render location) reading) (render location)
              request.name with
          | error e =>
              simpa only [ModelRegistry.registerFromPath, registered,
                Except.map] using grown
          | ok entry =>
              simp only [registered] at linksInside
              obtain ⟨-, samePath, -⟩ :=
                ModelRegistry.newEntry_eq_ok registered
              obtain ⟨resolves, base, isBase, within⟩ :=
                inside_of_ensure checked
              have again : files.resolve (render location) = some location :=
                resolve_render_of_isReal (isReal_of_resolves resolves)
              simp only [ModelRegistry.registerFromPath, registered,
                Except.map]
              apply grown.insert
              · rw [samePath]
                exact leadsInside_iff.mpr
                  ⟨base, location, isBase, again, within⟩
              · rw [samePath]
                simpa [FileSystem.isFile, again] using linksInside

/-- A registration that keeps the registry sandboxed registers a file. -/
theorem registers_file {request : RegisterModelRequest}
    {reading : FileReading}
    (sandboxed : (server.registerModel request reading).2.Sandboxed) :
    server.LinksInside (.register request reading) := by
  simp only [LinksInside]
  unfold RegistryServer.registerModel at sandboxed
  cases checked : ensureWithinModelsDir server.files server.cacheDir
      request.path.toList with
  | mk result files =>
      cases result with
      | error e => trivial
      | ok location =>
          simp only
          cases registered : ModelRegistry.newEntry
              (files.probe (render location) reading) (render location)
              request.name with
          | error e => trivial
          | ok entry =>
              simp only [checked, ModelRegistry.registerFromPath, registered,
                Except.map] at sandboxed
              obtain ⟨-, samePath, -⟩ :=
                ModelRegistry.newEntry_eq_ok registered
              obtain ⟨resolves, -⟩ := inside_of_ensure checked
              have again : files.resolve (render location) = some location :=
                resolve_render_of_isReal (isReal_of_resolves resolves)
              have stored := sandboxed entry.id entry (by simp)
              have isFile := stored.2
              rw [samePath] at isFile
              simpa [FileSystem.isFile, again] using isFile

theorem Inv.scanDirectory (inv : server.Inv)
    (request : ScanDirectoryRequest) (read : ReadOrder) :
    (server.scanDirectory request read).2.Inv := by
  unfold RegistryServer.scanDirectory
  cases checked : ensureWithinModelsDir server.files server.cacheDir
      request.path.toList with
  | mk result files =>
      have grows : Grows server.files files := grows_of_ensure checked
      have grown : Inv { server with files := files } :=
        inv.grow grows rfl rfl rfl
      cases result with
      | error e => exact grown
      | ok location =>
          simp only
          split
          case isTrue isDir =>
            refine ⟨grown.sandboxed, ?_⟩
            intro scan member
            rcases List.mem_append.mp member with earlier | added
            · exact grown.scanned scan earlier
            · obtain rfl := List.mem_singleton.mp added
              obtain ⟨resolves, base, isBase, within⟩ :=
                inside_of_ensure checked
              refine ⟨?_, base, isBase, within⟩
              have real := isReal_of_resolves resolves
              have again : files.resolve (render location) = some location :=
                resolve_render_of_isReal real
              rcases real with directory | ⟨-, found⟩
              · exact directory
              · simp [FileSystem.isDir, again, isDirectory, found] at isDir
                subst isDir
                exact isRealDirectory_root files.tree
          case isFalse => exact grown

/-- A scanned entry keeps the path of its file, which leads to a file. -/
theorem scannedEntry_eq_some {files : FileSystem} {path : List Char}
    {reading : FileReading} {entry : ModelEntry}
    (scanned : scannedEntry files path reading = some entry) :
    entry.path = path ∧ files.isFile path = true := by
  unfold scannedEntry at scanned
  split at scanned
  case isTrue isFile =>
    split at scanned
    case h_1 => cases scanned
    case h_2 =>
      cases registered : ModelRegistry.newEntry (files.probe path reading)
          path none with
      | error e => simp [registered, Except.toOption] at scanned
      | ok found =>
          simp only [registered, Except.toOption, Option.some.injEq]
            at scanned
          subst scanned
          exact ⟨(ModelRegistry.newEntry_eq_ok registered).2.1, isFile⟩
  case isFalse => cases scanned

theorem Inv.scanEntry (inv : server.Inv) {index : Nat}
    {scan : DirectoryScan} {name : FileName} {remaining : List FileName}
    {reading : FileReading} (found : server.scans[index]? = some scan)
    (isNext : scan.remaining = name :: remaining)
    (linksInside : server.LinksInside (.scanEntry index reading)) :
    (server.scanEntry index scan name remaining reading).Inv := by
  simp only [LinksInside, found, isNext] at linksInside
  obtain ⟨real, base, isBase, within⟩ :=
    inv.scanned scan (List.mem_of_getElem? found)
  unfold RegistryServer.scanEntry
  cases scanned : scannedEntry server.files
      (join (render scan.directory) name.text) reading with
  | none =>
      simp only [scanned]
      exact inv.rescan found remaining scan.registered
  | some entry =>
      simp only [scanned]
      obtain ⟨samePath, isFile⟩ := scannedEntry_eq_some scanned
      have moved := inv.rescan found remaining
        (scan.registered ++ [entry.id])
      apply moved.insert
      · rw [samePath]
        by_cases link : server.isLink scan.directory name = true
        · exact linksInside link (by simp [scanned])
        · have noLink : ∀ target,
              server.files.tree.lookup (scan.directory ++ [name]) ≠
                some (.link target) := by
            intro target isLink
            exact link (by simp [RegistryServer.isLink, isLink])
          rw [join_render] at isFile ⊢
          exact leadsInside_iff.mpr ⟨base, scan.directory ++ [name], isBase,
            resolve_entry real isFile noLink,
            within.trans (List.prefix_append _ _)⟩
      · rw [samePath]
        exact isFile

/-- A scanned entry that keeps the registry sandboxed leads inside. -/
theorem scans_inside {index : Nat} {scan : DirectoryScan} {name : FileName}
    {remaining : List FileName} {reading : FileReading}
    (found : server.scans[index]? = some scan)
    (isNext : scan.remaining = name :: remaining)
    (sandboxed :
      (server.scanEntry index scan name remaining reading).Sandboxed) :
    server.LinksInside (.scanEntry index reading) := by
  simp only [LinksInside, found, isNext]
  intro _ registers
  unfold RegistryServer.scanEntry at sandboxed
  cases scanned : scannedEntry server.files
      (join (render scan.directory) name.text) reading with
  | none => simp [scanned] at registers
  | some entry =>
      simp only [scanned] at sandboxed
      obtain ⟨samePath, -⟩ := scannedEntry_eq_some scanned
      have stored := sandboxed entry.id entry (by simp)
      rw [samePath] at stored
      exact stored.1

/-- The entry of a directory that a scan goes on with. -/
theorem step_scanEntry_eq_some {index : Nat} {reading : FileReading}
    (stepTo : server.step (.scanEntry index reading) = some next) :
    ∃ scan name remaining, server.scans[index]? = some scan ∧
      scan.remaining = name :: remaining ∧
      next = server.scanEntry index scan name remaining reading := by
  unfold RegistryServer.step at stepTo
  cases found : server.scans[index]? with
  | none => simp [found] at stepTo
  | some scan =>
      cases isNext : scan.remaining with
      | nil => simp [found, isNext] at stepTo
      | cons name remaining =>
          simp only [found, isNext, Option.some.injEq] at stepTo
          exact ⟨scan, name, remaining, rfl, isNext, stepTo.symm⟩

theorem Inv.step {action : SandboxAction} (inv : server.Inv)
    (linksInside : server.LinksInside action)
    (stepTo : server.step action = some next) : next.Inv := by
  cases action with
  | register request reading =>
      cases stepTo
      exact inv.registerModel linksInside
  | scan request read =>
      cases stepTo
      exact inv.scanDirectory request read
  | scanEntry index reading =>
      obtain ⟨scan, name, remaining, found, isNext, rfl⟩ :=
        step_scanEntry_eq_some stepTo
      exact inv.scanEntry found isNext linksInside

/-- A step that keeps the registry sandboxed meets the condition. -/
theorem linksInside_of_sandboxed {action : SandboxAction}
    (stepTo : server.step action = some next)
    (sandboxed : next.Sandboxed) : server.LinksInside action := by
  cases action with
  | register request reading =>
      cases stepTo
      exact registers_file sandboxed
  | scan request read => trivial
  | scanEntry index reading =>
      obtain ⟨scan, name, remaining, found, isNext, rfl⟩ :=
        step_scanEntry_eq_some stepTo
      exact scans_inside found isNext sandboxed

end Steps

/-- A server that has not registered anything. -/
def start (files : FileSystem) (cacheDir : List Char) : RegistryServer where
  files := files
  cacheDir := cacheDir
  registry := ∅
  scans := []

theorem inv_start (files : FileSystem) (cacheDir : List Char) :
    (start files cacheDir).Inv where
  sandboxed := by
    intro modelId entry stored
    simp [start] at stored
  scanned := by
    intro scan member
    simp [start] at member

/-- Every path in the registry leads to a file in the models directory, all
through a run of requests, exactly when every request that registers something
registers a file and no scan registers a link that leads out. -/
theorem sandboxed_iff_linksInside (files : FileSystem) (cacheDir : List Char)
    {actions : List SandboxAction} {last : RegistryServer}
    (reaches : run step (start files cacheDir) actions = some last) :
    (∀ reached ∈ visited step (start files cacheDir) actions,
      reached.Sandboxed) ↔
      Meets step LinksInside (start files cacheDir) actions :=
  forall_visited_iff_meets (fun _ inv => inv.sandboxed)
    (fun _ _ _ inv linksInside stepTo => inv.step linksInside stepTo)
    (fun _ _ _ _ leadsOut stepTo sandboxed =>
      leadsOut (linksInside_of_sandboxed stepTo sandboxed))
    (inv_start files cacheDir) reaches

section Example

def treeOf (entries : List (String × LinkNode)) : Tree :=
  entries.foldl (fun tree entry =>
    tree.insert (locate [] entry.1.toList) entry.2) ∅

/-- Models with a link that stays inside, a link that leads out and a
directory with the name of a model. -/
def exampleFiles : FileSystem where
  tree := treeOf [
    ("/etc", .directory), ("/etc/key.onnx", .file),
    ("/srv", .directory), ("/srv/models", .directory),
    ("/srv/models/inner", .directory), ("/srv/models/inner/a.onnx", .file),
    ("/srv/models/inner/b.onnx", .link "a.onnx".toList),
    ("/srv/models/leak.onnx", .link "/etc/key.onnx".toList),
    ("/srv/models/folder.onnx", .directory)]
  workingDir := []
  linkLimit := 40
  ready := isRealDirectory_root _

def exampleServer : RegistryServer :=
  start exampleFiles "srv/models".toList

def modelReading : FileReading where
  size := .ok 8
  config := none

def inOrder : ReadOrder where
  order := id
  perm := fun _ => .refl _

/-- A model is registered through a link, a path outside is refused and a
directory with links that stay inside is scanned. -/
def insideRun : List SandboxAction :=
  [.register ⟨"/srv/../srv/models//inner/b.onnx", none⟩ modelReading,
    .register ⟨"srv/models/leak.onnx", none⟩ modelReading,
    .scan ⟨"srv/models/inner/"⟩ inOrder,
    .scanEntry 0 modelReading, .scanEntry 0 modelReading]

theorem insideRun_sandboxed :
    (run step exampleServer insideRun).isSome = true ∧
      ∀ reached ∈ visited step exampleServer insideRun,
        reached.Sandboxed := by
  have possible : (run step exampleServer insideRun).isSome = true := by
    decide +kernel
  have reaches := (Option.some_get possible).symm
  exact ⟨possible, (sandboxed_iff_linksInside exampleFiles
    "srv/models".toList reaches).mpr (by decide +kernel)⟩

/-- The whole models directory is scanned. -/
def leakRun : List SandboxAction :=
  .scan ⟨"srv/models"⟩ inOrder :: List.replicate 3 (.scanEntry 0 modelReading)

def leakServer : RegistryServer :=
  (run step exampleServer leakRun).get (by decide +kernel)

/-- A directory is registered by its path. -/
def folderRun : List SandboxAction :=
  [.register ⟨"srv/models/folder.onnx", none⟩ modelReading]

def folderServer : RegistryServer :=
  (run step exampleServer folderRun).get (by decide +kernel)

/-- The scan stores a link to a file that the check of paths refuses, and a
directory is stored as a model. -/
theorem scan_stores_leak :
    (run step exampleServer leakRun = some leakServer ∧
      ¬ leakServer.Sandboxed) ∧
    run step exampleServer folderRun = some folderServer ∧
      ¬ folderServer.Sandboxed := by
  refine ⟨⟨(Option.some_get _).symm, ?_⟩, (Option.some_get _).symm, ?_⟩
  · intro sandboxed
    have stored : (leakServer.registry.lookup "leak").any
        (fun entry => !leakServer.leadsInside entry.path) = true := by
      decide +kernel
    obtain ⟨entry, isEntry, outside⟩ := Option.any_eq_true _ _ |>.mp stored
    simp [(sandboxed "leak" entry isEntry).1] at outside
  · intro sandboxed
    have stored : (folderServer.registry.lookup "folder").any
        (fun entry => !folderServer.files.isFile entry.path) = true := by
      decide +kernel
    obtain ⟨entry, isEntry, noFile⟩ := Option.any_eq_true _ _ |>.mp stored
    simp [(sandboxed "folder" entry isEntry).2] at noFile

end Example

end RegistryServer

end TorchInference
