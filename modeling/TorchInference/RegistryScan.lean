import TorchInference.ModelRegistry
import TorchInference.LossyUtf8

/-!
# Scanning a directory

A scan registers every model file of a directory under the stem of its name.
The registry keeps one entry for each id, so of two files with one stem the
later one stays, and a model that was registered under a stem from elsewhere is
replaced.  A scan loses no model exactly when neither happens.

Names and paths are bytes here: a name need not be text, and a stem that is not
becomes the id `unknown`.
-/

namespace TorchInference

open ExceptSteps

/-- A path or name as the file system has it. -/
abbrev OsText := List UInt8

namespace OsText

def separator : UInt8 := 0x2F

def dot : UInt8 := 0x2E

def toStr (text : OsText) : Option (List Char) :=
  LossyUtf8.fromUtf8 text

/-- The last component of a path, unless it is a pair of dots. -/
def fileName (path : OsText) : Option OsText :=
  let names := (path.splitOn separator).filter fun name =>
    decide (name ≠ [] ∧ name ≠ [dot])
  names.getLast?.filter fun name => decide (name ≠ [dot, dot])

/-- A name before and after its last dot; a dot in front belongs to the
name. -/
def splitExtension (name : OsText) : OsText × Option OsText :=
  match name.reverse.span (· != dot) with
  | (_, []) => (name, none)
  | (_, [_]) => (name, none)
  | (after, _ :: before) => (before.reverse, some after.reverse)

def fileStem (path : OsText) : Option OsText :=
  (fileName path).map fun name => (splitExtension name).1

def extension (path : OsText) : Option OsText :=
  (fileName path).bind fun name => (splitExtension name).2

/-- The path of an entry of a directory. -/
def join (directory name : OsText) : OsText :=
  if directory = [] ∨ directory.getLast? = some separator then directory ++ name
  else directory ++ separator :: name

end OsText

namespace RegistryScan

/-- A `ModelEntry` whose path is kept as the file system has it. -/
structure Entry where
  id : String
  metadata : ModelMetadata
  path : OsText
  fileSize : Nat
  isLoaded : Bool
  loadCount : Nat

abbrev Registry := AList fun _ : String => Entry

/-- An entry of a directory: whether it is a file, and what is read of it. -/
structure DirEntry where
  name : OsText
  isFile : Bool
  probe : FileProbe

/-- What the file system says of the path that is scanned; reading an entry may
fail. -/
structure Directory where
  path : OsText
  present : Bool
  isDir : Bool
  listing : Except String (List (Except String DirEntry))

inductive RegisterFailure where
  | missing (path : OsText)
  | invalidExtension
  | unsupportedFormat (extension : List Char)
  | unreadable (error : String)
  | invalidConfig (error : String)

/-- `register_from_path` with no name up to the insertion of the entry. -/
def newEntry (probe : FileProbe) (path : OsText) :
    Except RegisterFailure Entry := do
  (if probe.present then .ok () else .error (.missing path) :
    Except RegisterFailure Unit)
  let extension ← ((OsText.extension path).bind OsText.toStr).elim
    (.error .invalidExtension) .ok
  let format ← (ModelFormat.fromExtension extension).elim
    (.error (.unsupportedFormat extension)) .ok
  let modelId := (((OsText.fileStem path).bind OsText.toStr).map
    String.ofList).getD "unknown"
  let fileSize ← probe.size.mapError .unreadable
  (probe.config.getD (.ok ())).mapError .invalidConfig
  return {
    id := modelId
    metadata := { name := modelId, format := format }
    path := path
    fileSize := fileSize
    isLoaded := false
    loadCount := 0 }

def registerFromPath (registry : Registry) (probe : FileProbe)
    (path : OsText) : Except RegisterFailure String × Registry :=
  match newEntry probe path with
  | .error failure => (.error failure, registry)
  | .ok entry => (.ok entry.id, registry.insert entry.id entry)

def getModel (registry : Registry) (modelId : String) :
    Except InferenceError Entry :=
  match registry.lookup modelId with
  | some entry => .ok entry
  | none => .error (.modelNotFound modelId)

inductive ScanError where
  | invalidDirectory (path : OsText)
  | unreadable (error : String)
  | entry (error : String)

/-- The path is that of a file with the extension of a model. -/
def isModelFile (entry : DirEntry) (path : OsText) : Bool :=
  entry.isFile && (((OsText.extension path).bind OsText.toStr).bind
    ModelFormat.fromExtension).isSome

/-- The loop over the entries. -/
def scanEntries (directory : OsText) :
    List (Except String DirEntry) → List String → Registry →
      Except ScanError (List String) × Registry
  | [], registered, registry => (.ok registered, registry)
  | .error e :: _, _, registry => (.error (.entry e), registry)
  | .ok entry :: entries, registered, registry =>
      let path := OsText.join directory entry.name
      if isModelFile entry path then
        match registerFromPath registry entry.probe path with
        | (.ok modelId, registry) =>
            scanEntries directory entries (registered ++ [modelId]) registry
        | (.error _, registry) =>
            scanEntries directory entries registered registry
      else scanEntries directory entries registered registry

def scanDirectory (registry : Registry) (directory : Directory) :
    Except ScanError (List String) × Registry :=
  if !directory.present || !directory.isDir then
    (.error (.invalidDirectory directory.path), registry)
  else
    match directory.listing with
    | .error e => (.error (.unreadable e), registry)
    | .ok entries => scanEntries directory.path entries [] registry

/-! ## What a scan is to keep -/

/-- The entry a file of the directory gets, if it can be registered. -/
def registrable (directory : OsText) : Except String DirEntry → Option Entry
  | .error _ => none
  | .ok entry =>
      let path := OsText.join directory entry.name
      if isModelFile entry path then (newEntry entry.probe path).toOption
      else none

/-- The entries of the files that can be registered, in the order of the
listing. -/
def Directory.models (directory : Directory) : List Entry :=
  match directory.listing with
  | .error _ => []
  | .ok entries => entries.filterMap (registrable directory.path)

/-- The ids are distinct, one for each file, and lead to the files; a model
from another file than the one with its id stays as it is. -/
structure LosesNothing (before : Registry) (directory : Directory)
    (ids : List String) (after : Registry) : Prop where
  distinct : ids.Nodup
  leadToFiles : List.Forall₂ (fun modelId model => ∃ entry,
    getModel after modelId = .ok entry ∧ entry.path = model.path)
    ids directory.models
  keepsOthers : ∀ modelId, ∀ earlier ∈ before.lookup modelId,
    (∀ entry ∈ directory.models, entry.id = modelId →
      entry.path ≠ earlier.path) →
    ∃ entry ∈ after.lookup modelId,
      entry.path = earlier.path ∧ entry.isLoaded = earlier.isLoaded

/-- No two files that can be registered have one stem, and a model that was
registered under such a stem came from the same file. -/
def StemsFree (before : Registry) (directory : Directory) : Prop :=
  (directory.models.map Entry.id).Nodup ∧
    ∀ entry ∈ directory.models, ∀ earlier ∈ before.lookup entry.id,
      earlier.path = entry.path

/-! ## What a scan does -/

/-- The registry after some entries were put into it. -/
def registerAll (entries : List Entry) (registry : Registry) : Registry :=
  entries.foldl (fun registry entry => registry.insert entry.id entry) registry

theorem lookup_registerAll_of_not_mem {entries : List Entry}
    {registry : Registry} {modelId : String}
    (other : modelId ∉ entries.map Entry.id) :
    (registerAll entries registry).lookup modelId =
      registry.lookup modelId := by
  induction entries generalizing registry with
  | nil => rfl
  | cons entry entries ih =>
      rw [List.map_cons, List.mem_cons, not_or] at other
      calc
        (registerAll (entry :: entries) registry).lookup modelId =
            (registry.insert entry.id entry).lookup modelId := ih other.2
        _ = registry.lookup modelId := AList.lookup_insert_ne other.1

/-- Entries with distinct ids are all found again. -/
theorem lookup_registerAll {entries : List Entry} (registry : Registry)
    (distinct : (entries.map Entry.id).Nodup) {entry : Entry}
    (mem : entry ∈ entries) :
    (registerAll entries registry).lookup entry.id = some entry := by
  induction entries generalizing registry with
  | nil => cases mem
  | cons first entries ih =>
      obtain ⟨fresh, distinctRest⟩ := List.nodup_cons.mp distinct
      rcases List.mem_cons.mp mem with rfl | later
      · calc
          (registerAll (entry :: entries) registry).lookup entry.id =
              (registry.insert entry.id entry).lookup entry.id :=
            lookup_registerAll_of_not_mem fresh
          _ = some entry := AList.lookup_insert registry
      · exact ih _ distinctRest later

/-- A scan that goes through registers the files that can be registered. -/
theorem scanEntries_eq_ok {directory : OsText}
    {entries : List (Except String DirEntry)} {registered ids : List String}
    {registry after : Registry}
    (scans : scanEntries directory entries registered registry =
      (.ok ids, after)) :
    ids = registered ++
        (entries.filterMap (registrable directory)).map Entry.id ∧
      after = registerAll (entries.filterMap (registrable directory))
        registry := by
  induction entries generalizing registered registry with
  | nil =>
      cases scans
      exact ⟨(List.append_nil _).symm, rfl⟩
  | cons listed entries ih =>
      cases listed with
      | error e => cases scans
      | ok entry =>
          unfold scanEntries at scans
          by_cases isModel :
              isModelFile entry (OsText.join directory entry.name) = true
          · rw [if_pos isModel] at scans
            cases registers :
                newEntry entry.probe (OsText.join directory entry.name) with
            | error failure =>
                have skipped : registrable directory (.ok entry) = none := by
                  simp only [registrable, isModel, registers, if_true,
                    Except.toOption]
                rw [List.filterMap_cons_none skipped]
                simp only [registerFromPath, registers] at scans
                exact ih scans
            | ok made =>
                have kept : registrable directory (.ok entry) = some made := by
                  simp only [registrable, isModel, registers, if_true,
                    Except.toOption]
                rw [List.filterMap_cons_some kept]
                simp only [registerFromPath, registers] at scans
                obtain ⟨isIds, isAfter⟩ := ih scans
                refine ⟨?_, isAfter⟩
                rw [isIds, List.map_cons, List.append_assoc,
                  List.singleton_append]
          · have skipped : registrable directory (.ok entry) = none := by
              simp only [registrable, isModel, Bool.false_eq_true, if_false]
            rw [if_neg isModel] at scans
            rw [List.filterMap_cons_none skipped]
            exact ih scans

theorem scanDirectory_eq_ok {directory : Directory} {ids : List String}
    {registry after : Registry}
    (scans : scanDirectory registry directory = (.ok ids, after)) :
    ids = directory.models.map Entry.id ∧
      after = registerAll directory.models registry := by
  unfold scanDirectory at scans
  split at scans
  case isTrue => cases scans
  case isFalse =>
    unfold Directory.models
    cases listed : directory.listing with
    | error e =>
        rw [listed] at scans
        cases scans
    | ok entries =>
        rw [listed] at scans
        exact scanEntries_eq_ok scans

/-- A scan loses no model exactly when the stems of the files it registers are
distinct and not taken by models from other files. -/
theorem losesNothing_iff_stemsFree {before after : Registry}
    {directory : Directory} {ids : List String}
    (scans : scanDirectory before directory = (.ok ids, after)) :
    LosesNothing before directory ids after ↔
      StemsFree before directory := by
  obtain ⟨rfl, rfl⟩ := scanDirectory_eq_ok scans
  constructor
  · intro keeps
    refine ⟨keeps.distinct, ?_⟩
    intro entry mem earlier isEarlier
    by_contra other
    have found := lookup_registerAll before keeps.distinct mem
    have unrelated : ∀ made ∈ directory.models, made.id = entry.id →
        made.path ≠ earlier.path := by
      intro made isMade sameId
      have same : made = entry :=
        List.inj_on_of_nodup_map keeps.distinct isMade mem sameId
      rw [same]
      exact Ne.symm other
    obtain ⟨kept, isKept, samePath, -⟩ :=
      keeps.keepsOthers entry.id earlier isEarlier unrelated
    rw [found, Option.mem_def, Option.some.injEq] at isKept
    exact other (isKept ▸ samePath).symm
  · rintro ⟨distinct, free⟩
    refine ⟨distinct, ?_, ?_⟩
    · rw [List.forall₂_map_left_iff, List.forall₂_same]
      intro entry mem
      have found := lookup_registerAll before distinct mem
      exact ⟨entry, by rw [getModel, found], rfl⟩
    · intro modelId earlier isEarlier unrelated
      have unused : modelId ∉ directory.models.map Entry.id := by
        intro mem
        obtain ⟨entry, isEntry, rfl⟩ := List.mem_map.mp mem
        exact unrelated entry isEntry rfl
          (free entry isEntry earlier isEarlier).symm
      refine ⟨earlier, ?_, rfl, rfl⟩
      rw [lookup_registerAll_of_not_mem unused]
      exact isEarlier

/-- A directory of readable files with these names. -/
def plainDirectory (names : List String) : Directory where
  path := LossyUtf8.encode "models".toList
  present := true
  isDir := true
  listing := .ok (names.map fun name =>
    .ok ⟨LossyUtf8.encode name.toList, true, ⟨true, .ok 1, none⟩⟩)

theorem plainDirectory_losesNothing :
    ∃ ids after, scanDirectory ∅ (plainDirectory ["a.onnx", "b.pt"]) =
        (.ok ids, after) ∧
      (LosesNothing ∅ (plainDirectory ["a.onnx", "b.pt"]) ids after ↔
        StemsFree ∅ (plainDirectory ["a.onnx", "b.pt"])) :=
  ⟨_, _, rfl, losesNothing_iff_stemsFree rfl⟩

/-- Of `model.onnx` and `model.pt` only the one listed last is kept, and its id
is returned twice. -/
theorem sameStem_loses_model :
    ¬ ∀ (before after : Registry) (directory : Directory)
      (ids : List String),
      scanDirectory before directory = (.ok ids, after) →
        LosesNothing before directory ids after := by
  intro always
  have keeps := always ∅ _ (plainDirectory ["model.onnx", "model.pt"])
    ["model", "model"] rfl
  exact absurd keeps.distinct (by decide)

end RegistryScan

end TorchInference
