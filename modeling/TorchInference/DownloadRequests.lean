import Mathlib.Data.List.Infix
import TorchInference.DownloadHosts
import TorchInference.JsonValue
import TorchInference.UnixPath

/-!
# Download requests

The tasks of the download manager, the two routes that start one, and the
checks on paths that a repository or a URL names.  `download_model` checks the
model name it is sent; `download_sota_model` takes the name from the model
registry as it is.
-/

namespace TorchInference

open UnixPath

inductive DownloadStatus where
  | pending
  | downloading
  | completed
  | failed
  | cancelled
  deriving DecidableEq

def DownloadStatus.isTerminal : DownloadStatus → Bool
  | completed | failed | cancelled => true
  | pending | downloading => false

inductive ModelSource where
  | huggingFace (repoId : String) (revision : Option String)
  | torchHub (repo model : String)
  | url (url : String)
  | localModel (path : String)
  deriving DecidableEq

structure DownloadTask where
  modelName : String
  source : ModelSource
  status : DownloadStatus
  totalSize : Option Nat
  downloadedSize : Nat
  error : Option String
  deriving DecidableEq

/-- The task `download_model` of the manager inserts. -/
def DownloadTask.new (modelName : String) (source : ModelSource) :
    DownloadTask where
  modelName := modelName
  source := source
  status := .pending
  totalSize := none
  downloadedSize := 0
  error := none

inductive ApiError where
  | badRequest (message : String)
  | notFound (message : String)
  | internalError (message : String)
  | payloadTooLarge (message : String)
  deriving DecidableEq

/-! ## Routes -/

/-- `char::is_whitespace`, the Unicode property White_Space. -/
def isWhitespace (character : Char) : Bool :=
  let code := character.toNat
  (9 ≤ code && code ≤ 13) || code == 0x20 || code == 0x85 ||
    code == 0xA0 || code == 0x1680 || (0x2000 ≤ code && code ≤ 0x200A) ||
    code == 0x2028 || code == 0x2029 || code == 0x202F ||
    code == 0x205F || code == 0x3000

structure DownloadModelRequest where
  modelName : String
  sourceType : String
  repoId : Option String
  revision : Option String
  url : Option String

/-- The name checks of the `download_model` route. -/
def checkModelName (modelName : String) : Except ApiError Unit :=
  if modelName.toList.all isWhitespace then
    .error (.badRequest "model_name must not be empty")
  else if '/' ∈ modelName.toList ∨ ['.', '.'] <:+: modelName.toList then
    .error (.badRequest
      "model_name must not contain path separators or '..'")
  else .ok ()

def requestSource (request : DownloadModelRequest) :
    Except ApiError ModelSource :=
  if request.sourceType = "huggingface" then
    match request.repoId with
    | none =>
        .error (.badRequest "repo_id required for HuggingFace source")
    | some repoId => .ok (.huggingFace repoId request.revision)
  else if request.sourceType = "url" then
    match request.url with
    | none => .error (.badRequest "url required for URL source")
    | some url =>
        if "http://".toList.isPrefixOf url.toList ∨
            "https://".toList.isPrefixOf url.toList then
          .ok (.url url)
        else
          .error (.badRequest "url must start with http:// or https://")
  else .error (.badRequest s!"Unknown source type: {request.sourceType}")

/-- What the `download_model` route hands to the manager. -/
def downloadModelRoute (request : DownloadModelRequest) :
    Except ApiError (String × ModelSource) := do
  checkModelName request.modelName
  let source ← requestSource request
  return (request.modelName, source)

/-- The contents of `model_registry.json`, if the file is there. -/
inductive RegistryFile where
  | missing
  | unreadable (error : String)
  | malformed (error : String)
  | parsed (registry : JsonValue)

def JsonValue.asObject : JsonValue → Option (List (String × JsonValue))
  | .object entries => some entries
  | _ => none

/-- The source read off a registry URL. -/
def sotaSource (url : String) : Except ApiError ModelSource :=
  if "huggingface.co".toList <:+: url.toList then
    match (url.toList.splitOn '/').drop 3 with
    | owner :: repo :: _ =>
        .ok (.huggingFace
          (String.ofList owner ++ "/" ++ String.ofList repo) none)
    | _ => .ok (.url url)
  else if url ≠ "Built-in" then .ok (.url url)
  else .error (.badRequest "Built-in models cannot be downloaded")

/-- What the `download_sota_model` route hands to the manager. -/
def downloadSotaModelRoute (file : RegistryFile) (modelId : String) :
    Except ApiError (String × ModelSource) := do
  let registry ← match file with
    | .missing => .error (.notFound "Model registry not found")
    | .unreadable error =>
        .error (.internalError s!"Failed to read registry: {error}")
    | .malformed error =>
        .error (.internalError s!"Failed to parse registry: {error}")
    | .parsed registry => .ok registry
  let models ← ((registry.field "models").bind JsonValue.asObject).elim
    (.error (.internalError "Invalid registry format")) .ok
  let model ← (models.lookup modelId).elim
    (.error (.notFound s!"Model {modelId} not found in registry")) .ok
  let entries ← model.asObject.elim
    (.error (.internalError "Invalid model data")) .ok
  let url ← ((entries.lookup "url").bind JsonValue.asStr).elim
    (.error (.badRequest "Model URL not found")) .ok
  let name :=
    ((entries.lookup "name").bind JsonValue.asStr).getD modelId
  let source ← sotaSource url
  return (name, source)

/-! ## Paths named by repositories and URLs -/

/-- A relative path made of names only. -/
def isSafeRelativePath (path : List Char) : Bool :=
  !path.isEmpty && !path.contains (Char.ofNat 0) &&
    (components path).all Component.isNormal

/-- The path stays inside the base when both are read as text. -/
def pathIsWithin (child base : List Char) : Bool :=
  match normalize (components child) with
  | some kept => (components base).isPrefixOf kept
  | none => false

/-- The paths of a file list that are downloaded. -/
def filesToDownload (files : List JsonValue) : List String :=
  ((files.filterMap fun file => (file.field "path").bind JsonValue.asStr).filter
    fun path => !(path.toList.getLast? == some '/')).filter
      fun path => isSafeRelativePath path.toList

/-- The name under which a file fetched from a URL is stored. -/
def rawFilename (url : Url) : String :=
  match url.pathSegments with
  | none => "model.bin"
  | some segments =>
      match segments.getLast? with
      | some last => if last = "" then "model.bin" else last
      | none => "model.bin"

def isSafeFilename (name : String) : Bool :=
  isSafeRelativePath name.toList && !name.toList.contains '/' &&
    !name.toList.contains '\\'

/-! ## Names the routes accept -/

theorem checkModelName_eq_ok {modelName : String}
    (accepted : checkModelName modelName = .ok ()) :
    modelName ≠ "" ∧ '/' ∉ modelName.toList ∧ modelName ≠ ".." := by
  unfold checkModelName at accepted
  split at accepted
  case isTrue => cases accepted
  case isFalse visible =>
    split at accepted
    case isTrue => cases accepted
    case isFalse separated =>
      refine ⟨?_, fun slash => separated (Or.inl slash), ?_⟩
      · rintro rfl
        exact visible (by decide)
      · rintro rfl
        exact separated (Or.inr (by decide))

/-- The route refuses every name that is not plain, except the dot. -/
theorem isPlain_of_checkModelName {modelName : String}
    (accepted : checkModelName modelName = .ok ())
    (notDot : modelName ≠ ".") : IsPlain modelName.toList := by
  obtain ⟨nonempty, noSlash, notParent⟩ := checkModelName_eq_ok accepted
  refine ⟨?_, noSlash, ?_, ?_⟩
  · intro empty
    exact nonempty (String.toList_injective empty)
  · intro dot
    exact notDot (String.toList_injective dot)
  · intro parent
    exact notParent (String.toList_injective parent)

end TorchInference
