import TorchInference.DownloadManager

/-!
# Downloads of catalogue models

The model catalogue is a fixed table.  A request to download an entry is
answered at once: with `already_downloaded` if the entry's cache directory
holds anything, otherwise by a download that runs on its own.  A download
makes the directory and streams each file to its final name.  The files of a
repository are fetched up to eight at a time and their failures are only
logged.

Bytes of a file reach the disk when they are received: a file is flushed
before its fetch ends, so nothing waits for an outstanding write afterwards.
-/

namespace TorchInference

open UnixPath FileTree

/-- An entry of the catalogue. -/
structure CatalogueModel where
  name : String
  url : String
  status : String
  note : Option String
  modelType : String

/-- Built-in and active models are available whatever is on disk. -/
def CatalogueModel.isProvided (model : CatalogueModel) : Bool :=
  model.url == "Built-in" || model.status == "Active"

def cacheBase (modelType : String) : String :=
  if modelType = "tts" ∨ modelType = "" then "models/tts"
  else if modelType = "image-classification" then "models/classification"
  else if modelType = "object-detection" then "models/detection"
  else if modelType = "segmentation" then "models/segmentation"
  else if modelType = "neural-network" then "models/neural"
  else if modelType = "speech-to-text" then "models/stt"
  else if modelType = "text-classification" ∨
      modelType = "feature-extraction" ∨ modelType = "nlp" then "models/nlp"
  else "models/other"

def modelCacheDir (modelId modelType : String) : List Char :=
  join (cacheBase modelType).toList modelId.toList

/-! ## What is fetched -/

inductive FetchState where
  | queued
  | requested
  | writing (received : List UInt8)
  | stored (body : List UInt8)
  | failed (error : String)
  /-- The server has no configuration file. -/
  | unavailable
  deriving DecidableEq

namespace FetchState

def isWriting : FetchState → Bool
  | writing _ => true
  | _ => false

def inFlight : FetchState → Bool
  | requested | writing _ => true
  | _ => false

def hasEnded : FetchState → Bool
  | stored _ | failed _ | unavailable => true
  | _ => false

/-- All of the file is there, or there is none. -/
def isStored : FetchState → Bool
  | stored _ | unavailable => true
  | _ => false

end FetchState

/-- A file that a download has set out to fetch. -/
structure FileFetch where
  url : String
  dest : List Char
  state : FetchState
  /-- Its file, or a directory that leads to it, has been made. -/
  made : Bool

namespace FileFetch

def new (url : String) (dest : List Char) (state : FetchState) :
    FileFetch where
  url := url
  dest := dest
  state := state
  made := false

def location (workingDir : Location) (fetch : FileFetch) : Location :=
  locate workingDir fetch.dest

def isWriting (fetch : FileFetch) : Bool :=
  fetch.state.isWriting

end FileFetch

/-- `trim_start_matches` for a text; each round removes one occurrence. -/
def trimStartMatches (pattern : List Char) : Nat → List Char → List Char
  | 0, text => text
  | rounds + 1, text =>
      if pattern.isPrefixOf text then
        trimStartMatches pattern rounds (text.drop pattern.length)
      else text

def repoIdOf (url : String) : String :=
  let path := trimStartMatches "https://huggingface.co/".toList
    url.toList.length url.toList
  String.ofList (path.reverse.dropWhile (· == '/')).reverse

def endsWith (text suffix : String) : Bool :=
  suffix.toList.isSuffixOf text.toList

def startsWith (text start : String) : Bool :=
  start.toList.isPrefixOf text.toList

def containsText (text part : String) : Bool :=
  decide (part.toList <:+: text.toList)

/-- The extension under which a resolved file is stored. -/
def resolvedExtension (url : String) : String :=
  if endsWith url ".pth" then "pth"
  else if endsWith url ".onnx" then "onnx"
  else "bin"

/-- The endings of direct links, which are the extensions they are stored
under. -/
def directExtensions : List String :=
  ["pt", "pth", "onnx", "bin", "safetensors", "gguf"]

def directExtension (url : String) : Option String :=
  directExtensions.find? fun extension => endsWith url ("." ++ extension)

/-- The paths of a repository listing that are fetched. -/
def catalogueFiles (files : List JsonValue) : List String :=
  ((files.filterMap fun file =>
    if (file.field "type").bind JsonValue.asStr = some "file" then
      (file.field "path").bind JsonValue.asStr
    else none).filter fun path =>
      !startsWith path ".git" && !endsWith path ".md" &&
        !endsWith path ".txt" && !containsText path "test" &&
        !containsText path "example").filter fun path =>
          !containsText path ".." && !startsWith path "/"

/-- Where a download stands in `download_model_async`. -/
inductive CatalogueStage where
  | makingDir
  | fetchingFile (config : Option String)
  | fetchingConfig
  | writingConfig (body : List UInt8)
  | fetchingList (repoId : String)
  | fetchingFiles
  | ended
  deriving DecidableEq

structure CatalogueDownload where
  modelId : String
  model : CatalogueModel
  stage : CatalogueStage
  fetches : List FileFetch

inductive CatalogueEvent where
  /-- A failure names how many of the directories were made. -/
  | makeDir (failure : Option (Nat × String))
  | listReply (reply : FetchReply) (json : Except String (List JsonValue))
  | startFile (index : Nat) (failure : Option (Nat × String))
  | fileReply (index : Nat) (reply : FetchReply)
      (createFailure : Option String)
  | chunk (index : Nat) (bytes : List UInt8)
  /-- The stream breaks off, or a write fails after some bytes. -/
  | breakOff (index : Nat) (stored : List UInt8) (error : String)
  | endOfStream (index : Nat)
  | configReply (index : Nat) (reply : FetchReply)
      (body : Except String (List UInt8)) (createFailure : Option String)
  | writeConfig (index : Nat) (failure : Option (Nat × String))
  | collect

namespace CatalogueDownload

def new (modelId : String) (model : CatalogueModel) :
    CatalogueDownload where
  modelId := modelId
  model := model
  stage := .makingDir
  fetches := []

def cacheDir (download : CatalogueDownload) : List Char :=
  modelCacheDir download.modelId download.model.modelType

/-- Where the files of the download are. -/
def directory (workingDir : Location) (download : CatalogueDownload) :
    Location :=
  locate workingDir download.cacheDir

/-- Where a file of the download is stored. -/
def filePath (download : CatalogueDownload) (name : String) : List Char :=
  join download.cacheDir name.toList

/-- The address of a configuration file, if the note holds one. -/
def configUrl (model : CatalogueModel) : Option String :=
  model.note.filter fun note => containsText note "http"

/-- What follows once the directory is there. -/
def enterSource (download : CatalogueDownload) : CatalogueDownload :=
  let url := download.model.url
  if url = "Built-in" then { download with stage := .ended }
  else if containsText url "resolve" then
    { download with
      stage := .fetchingFile (configUrl download.model)
      fetches := download.fetches ++
        [.new url (download.filePath ("model." ++ resolvedExtension url))
          .requested] }
  else if startsWith url "https://huggingface.co/" then
    { download with stage := .fetchingList (repoIdOf url) }
  else
    match directExtension url with
    | some extension =>
        { download with
          stage := .fetchingFile none
          fetches := download.fetches ++
            [.new url (download.filePath ("model." ++ extension))
              .requested] }
    | none => { download with stage := .ended }

def listReply (download : CatalogueDownload) (repoId : String)
    (reply : FetchReply) (json : Except String (List JsonValue)) :
    CatalogueDownload :=
  match reply, json with
  | .answered status _, .ok files =>
      if isSuccess status then
        { download with
          stage := .fetchingFiles
          fetches := download.fetches ++
            (catalogueFiles files).map fun path =>
              .new ("https://huggingface.co/" ++ repoId ++
                "/resolve/main/" ++ path) (download.filePath path) .queued }
      else { download with stage := .ended }
  | _, _ => { download with stage := .ended }

def setFetch (download : CatalogueDownload) (index : Nat)
    (fetch : FileFetch) : CatalogueDownload :=
  { download with fetches := download.fetches.set index fetch }

/-- The fetch of a single file decides how the download goes on; the files of
a repository do not. -/
def fetchEnded (download : CatalogueDownload) (success : Bool) :
    CatalogueDownload :=
  match download.stage with
  | .fetchingFile config =>
      match success, config with
      | true, some url =>
          { download with
            stage := .fetchingConfig
            fetches := download.fetches ++
              [.new url (download.filePath "config.json") .requested] }
      | _, _ => { download with stage := .ended }
  | .fetchingConfig | .writingConfig _ => { download with stage := .ended }
  | _ => download

def failFetch (download : CatalogueDownload) (index : Nat)
    (fetch : FileFetch) (error : String) : CatalogueDownload :=
  (download.setFetch index { fetch with state := .failed error }).fetchEnded
    false

/-- The next file of a repository: the directories that lead to it are made
and its request is sent. -/
def startFile (download : CatalogueDownload) (workingDir : Location)
    (index : Nat) (fetch : FileFetch) (failure : Option (Nat × String))
    (disk : Tree) : Option (CatalogueDownload × Tree) :=
  let parent := (fetch.location workingDir).dropLast
  let nested (location : Location) : Bool :=
    fetch.made ||
      decide ((download.directory workingDir).length < location.length)
  match failure with
  | some (made, error) =>
      (createDirAll disk (parent.take made)).map fun disk =>
        (download.failFetch index
          { fetch with made := nested (parent.take made) } error, disk)
  | none =>
      (createDirAll disk parent).map fun disk =>
        (download.setFetch index
          { fetch with state := .requested, made := nested parent }, disk)

/-- An answer to the request of a file: its file is opened if the answer is a
success. -/
def fileReply (download : CatalogueDownload) (workingDir : Location)
    (index : Nat) (fetch : FileFetch) (reply : FetchReply)
    (createFailure : Option String) (disk : Tree) :
    Option (CatalogueDownload × Tree) :=
  match reply with
  | .failed error => some (download.failFetch index fetch error, disk)
  | .answered status _ =>
      if isSuccess status then
        match createFailure with
        | some error => some (download.failFetch index fetch error, disk)
        | none =>
            (createFile disk
              (fetch.location workingDir)).map fun disk =>
                (download.setFetch index
                  { fetch with state := .writing [], made := true }, disk)
      else
        some (download.failFetch index fetch
          s!"HTTP {status} downloading {fetch.url}", disk)

/-- An answer to the request of the configuration, which may be missing. -/
def configReply (download : CatalogueDownload) (workingDir : Location)
    (index : Nat) (fetch : FileFetch) (reply : FetchReply)
    (body : Except String (List UInt8)) (createFailure : Option String)
    (disk : Tree) : Option (CatalogueDownload × Tree) :=
  match reply with
  | .failed error => some (download.failFetch index fetch error, disk)
  | .answered status _ =>
      if isSuccess status then
        match body, createFailure with
        | .error error, _ => some (download.failFetch index fetch error, disk)
        | .ok _, some error =>
            some (download.failFetch index fetch error, disk)
        | .ok body, none =>
            (createFile disk
              (fetch.location workingDir)).map fun disk =>
                ({ download.setFetch index
                    { fetch with state := .writing [], made := true } with
                  stage := .writingConfig body }, disk)
      else
        some ((download.setFetch index
          { fetch with state := .unavailable }).fetchEnded true, disk)

def advance (workingDir : Location) (download : CatalogueDownload)
    (disk : Tree) : CatalogueEvent → Option (CatalogueDownload × Tree)
  | .makeDir failure =>
      let directory := download.directory workingDir
      match download.stage, failure with
      | .makingDir, some (made, _) =>
          (createDirAll disk (directory.take made)).map fun disk =>
            ({ download with stage := .ended }, disk)
      | .makingDir, none =>
          (createDirAll disk directory).map fun disk =>
            (download.enterSource, disk)
      | _, _ => none
  | .listReply reply json =>
      match download.stage with
      | .fetchingList repoId =>
          some (download.listReply repoId reply json, disk)
      | _ => none
  | .startFile index failure =>
      match download.stage, download.fetches[index]? with
      | .fetchingFiles, some fetch =>
          if fetch.state = .queued ∧
              ((download.fetches.take index).all fun earlier =>
                earlier.state != .queued) ∧
              download.fetches.countP (fun other => other.state.inFlight) < 8
          then download.startFile workingDir index fetch failure disk
          else none
      | _, _ => none
  | .fileReply index reply createFailure =>
      match download.stage, download.fetches[index]? with
      | .fetchingConfig, _ => none
      | _, some fetch =>
          if fetch.state = .requested then
            download.fileReply workingDir index fetch reply createFailure disk
          else none
      | _, none => none
  | .chunk index bytes =>
      match download.stage, download.fetches[index]? with
      | .writingConfig _, _ => none
      | _, some fetch =>
          match fetch.state with
          | .writing received =>
              some (download.setFetch index
                  { fetch with state := .writing (received ++ bytes) },
                write disk (fetch.location workingDir)
                  received.length bytes)
          | _ => none
      | _, none => none
  | .breakOff index stored error =>
      match download.stage, download.fetches[index]? with
      | .writingConfig _, _ => none
      | _, some fetch =>
          match fetch.state with
          | .writing received =>
              some (download.failFetch index fetch error,
                write disk (fetch.location workingDir)
                  received.length stored)
          | _ => none
      | _, none => none
  | .endOfStream index =>
      match download.stage, download.fetches[index]? with
      | .writingConfig _, _ => none
      | _, some fetch =>
          match fetch.state with
          | .writing received =>
              some ((download.setFetch index
                { fetch with state := .stored received }).fetchEnded true,
                disk)
          | _ => none
      | _, none => none
  | .configReply index reply body createFailure =>
      match download.stage, download.fetches[index]? with
      | .fetchingConfig, some fetch =>
          if fetch.state = .requested then
            download.configReply workingDir index fetch reply body
              createFailure disk
          else none
      | _, _ => none
  | .writeConfig index failure =>
      match download.stage, download.fetches[index]? with
      | .writingConfig body, some fetch =>
          if fetch.state = .writing [] then
            let location := fetch.location workingDir
            match failure with
            | none =>
                some ((download.setFetch index
                    { fetch with state := .stored body }).fetchEnded true,
                  write disk location 0 body)
            | some (stored, error) =>
                some (download.failFetch index fetch error,
                  write disk location 0 (body.take stored))
          else none
      | _, _ => none
  | .collect =>
      match download.stage with
      | .fetchingFiles =>
          if download.fetches.all fun fetch => fetch.state.hasEnded then
            some ({ download with stage := .ended }, disk)
          else none
      | _ => none

end CatalogueDownload

/-! ## The service -/

structure Catalogue where
  workingDir : Location
  registry : List (String × CatalogueModel)
  downloads : List CatalogueDownload
  disk : Tree

inductive CatalogueAction where
  | downloadModel (modelId : String)
  | isAvailable (modelId : String)
  | download (index : Nat) (event : CatalogueEvent)

namespace Catalogue

def new (workingDir : Location) (registry : List (String × CatalogueModel))
    (disk : Tree) : Catalogue where
  workingDir := workingDir
  registry := registry
  downloads := []
  disk := disk

def getModel (catalogue : Catalogue) (modelId : String) :
    Option CatalogueModel :=
  catalogue.registry.lookup modelId

/-- The directory that is looked into for an entry. -/
def directoryOf (catalogue : Catalogue) (modelId : String)
    (model : CatalogueModel) : Location :=
  locate catalogue.workingDir (modelCacheDir modelId model.modelType)

/-- `ModelInfo::is_available`: some entry is in the cache directory. -/
def isAvailable (catalogue : Catalogue) (modelId : String)
    (model : CatalogueModel) : Bool :=
  model.isProvided ||
    isDirectory catalogue.disk (catalogue.directoryOf modelId model) &&
      !(children catalogue.disk
        (catalogue.directoryOf modelId model)).isEmpty

def step (catalogue : Catalogue) : CatalogueAction → Option Catalogue
  | .downloadModel modelId =>
      match catalogue.getModel modelId with
      | none => some catalogue
      | some model =>
          if catalogue.isAvailable modelId model then some catalogue
          else some { catalogue with
            downloads := catalogue.downloads ++ [.new modelId model] }
  | .isAvailable _ => some catalogue
  | .download index event =>
      match catalogue.downloads[index]? with
      | none => none
      | some download =>
          (download.advance catalogue.workingDir catalogue.disk event).map
            fun (after, disk) =>
              { catalogue with
                downloads := catalogue.downloads.set index after
                disk := disk }

end Catalogue

end TorchInference
