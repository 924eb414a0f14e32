import Mathlib.Data.List.AList
import TorchInference.ExceptSteps
import TorchInference.InferenceEngine
import TorchInference.UnixPath

/-!
# The model registry

A model is registered under a name given with it or under the stem of its
file.  Registration reads the file and its configuration, and then replaces
whatever is registered under the same id.
-/

namespace TorchInference

open UnixPath ExceptSteps

/-- Extensions are compared in lower case; only ASCII letters have a lower
case among the letters of the known ones. -/
def ModelFormat.fromExtension (extension : List Char) : Option ModelFormat :=
  let extension := String.ofList (extension.map Char.toLower)
  if extension = "pt" ∨ extension = "pth" then some .pyTorch
  else if extension = "onnx" then some .onnx
  else if extension = "safetensors" then some .safeTensors
  else none

/-- What the file system says about a path that is being registered. -/
structure FileProbe where
  present : Bool
  size : Except String Nat
  /-- The configuration file beside it, if there is one. -/
  config : Option (Except String Unit)

inductive RegisterError where
  | missing (path : List Char)
  | invalidExtension
  | unsupportedFormat (extension : List Char)
  | unreadable (error : String)
  | invalidConfig (error : String)
  deriving DecidableEq

structure ModelEntry where
  id : String
  metadata : ModelMetadata
  path : List Char
  fileSize : Nat
  isLoaded : Bool
  loadCount : Nat

abbrev ModelRegistry := AList fun _ : String => ModelEntry

namespace ModelRegistry

/-- The id under which a path is registered. -/
def modelIdOf (path : List Char) (modelName : Option String) : String :=
  modelName.getD (((fileStem path).map String.ofList).getD "unknown")

/-- `register_from_path` up to the insertion of the entry. -/
def newEntry (probe : FileProbe) (path : List Char)
    (modelName : Option String) : Except RegisterError ModelEntry := do
  (if probe.present then .ok () else .error (.missing path) :
    Except RegisterError Unit)
  let extension ← (extension path).elim (.error .invalidExtension) .ok
  let format ← (ModelFormat.fromExtension extension).elim
    (.error (.unsupportedFormat extension)) .ok
  let modelId := modelIdOf path modelName
  let fileSize ← probe.size.mapError .unreadable
  (probe.config.getD (.ok ())).mapError .invalidConfig
  return {
    id := modelId
    metadata := { name := modelName.getD modelId, format := format }
    path := path
    fileSize := fileSize
    isLoaded := false
    loadCount := 0 }

def registerFromPath (registry : ModelRegistry) (probe : FileProbe)
    (path : List Char) (modelName : Option String) :
    Except RegisterError (String × ModelRegistry) :=
  (newEntry probe path modelName).map fun entry =>
    (entry.id, registry.insert entry.id entry)

def getModel (registry : ModelRegistry) (modelId : String) :
    Except InferenceError ModelEntry :=
  match registry.lookup modelId with
  | some entry => .ok entry
  | none => .error (.modelNotFound modelId)

def updateModel (registry : ModelRegistry) (modelId : String)
    (update : ModelEntry → ModelEntry) :
    Except InferenceError ModelRegistry :=
  match registry.lookup modelId with
  | some entry => .ok (registry.insert modelId (update entry))
  | none => .error (.modelNotFound modelId)

def markLoaded (registry : ModelRegistry) (modelId : String) :
    Except InferenceError ModelRegistry :=
  registry.updateModel modelId fun entry =>
    { entry with isLoaded := true, loadCount := entry.loadCount + 1 }

/-- A new entry has the path it was registered from and is not loaded. -/
theorem newEntry_eq_ok {probe : FileProbe} {path : List Char}
    {modelName : Option String} {entry : ModelEntry}
    (registered : newEntry probe path modelName = .ok entry) :
    probe.present = true ∧ entry.path = path ∧ entry.isLoaded = false ∧
      entry.id = modelIdOf path modelName ∧
      ∃ text format, extension path = some text ∧
        ModelFormat.fromExtension text = some format ∧
        entry.metadata.format = format := by
  unfold newEntry at registered
  obtain ⟨_, present, registered⟩ := bind_eq_ok registered
  obtain ⟨text, isExtension, registered⟩ := bind_eq_ok registered
  obtain ⟨format, isFormat, registered⟩ := bind_eq_ok registered
  obtain ⟨fileSize, -, registered⟩ := bind_eq_ok registered
  obtain ⟨_, -, registered⟩ := bind_eq_ok registered
  cases registered
  have isPresent : probe.present = true := by
    by_contra missing
    simp [missing] at present
  exact ⟨isPresent, rfl, rfl, rfl, text, format, elim_eq_ok isExtension,
    elim_eq_ok isFormat, rfl⟩

end ModelRegistry

end TorchInference
