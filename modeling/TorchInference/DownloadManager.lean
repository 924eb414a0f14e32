import TorchInference.DownloadRequests
import TorchInference.FileTree

/-!
# The model download manager

One worker serves each download task.  Between two awaits of a worker anything
else may happen, so each await is a step of its own and carries its outcome:
the answer of a request, the failure of a file operation, the next chunk of a
body.  A task is addressed by its index in the order of creation.

A file handle of the asynchronous runtime hands each chunk to a background
write and reports the failure of that write at the next one.  The worker drops
its handles without flushing them, so the last write of a file may still be
outstanding when its download has ended, and a failure of it is lost.
-/

namespace TorchInference

open UnixPath FileTree

/-! ## Files being written -/

/-- A file opened for writing. -/
structure OpenFile where
  location : Location
  totalSize : Option Nat
  /-- All chunks handed to `write_all`; the length is `downloaded`. -/
  received : List UInt8
  /-- The end of `received` that is not on disk yet. -/
  unwritten : List UInt8
  writeError : Option String

namespace OpenFile

def opened (location : Location) (totalSize : Option Nat) : OpenFile where
  location := location
  totalSize := totalSize
  received := []
  unwritten := []
  writeError := none

def offset (file : OpenFile) : Nat :=
  file.received.length - file.unwritten.length

/-- The outstanding write ends, in full or with an error after some bytes. -/
def settle (file : OpenFile) (failure : Option (Nat × String))
    (disk : Tree) : OpenFile × Tree :=
  match failure with
  | none =>
      ({ file with unwritten := [] },
        write disk file.location file.offset file.unwritten)
  | some (stored, error) =>
      ({ file with unwritten := [], writeError := some error },
        write disk file.location file.offset (file.unwritten.take stored))

/-- A dropped handle outlives its transfer while a write is outstanding. -/
def drop (file : OpenFile) : List OpenFile :=
  if file.unwritten = [] then [] else [file]

end OpenFile

/-! ## Workers -/

structure ActiveTransfer where
  path : String
  /-- Absent until the request is answered. -/
  file : Option OpenFile

/-- Where a worker stands in `execute_download`. -/
inductive WorkerStage where
  | waiting
  | makingDir
  | fetchingInfo (repoId : String)
  | fetchingList
  | fetchingUrl (url : String) (parsed : Url)
  | transferring (queued : List String) (active : List ActiveTransfer)
      (results : List (Except String Unit))
  | fetched
  | measuring
  | registering (size : Nat)
  | failing (error : String)
  | done

def WorkerStage.holdsPermit : WorkerStage → Bool
  | waiting | failing _ | done => false
  | _ => true

structure ModelInfo where
  name : String
  source : ModelSource
  localPath : List Char
  sizeBytes : Nat

structure DownloadJob where
  task : DownloadTask
  stage : WorkerStage

/-- How a request ends: without an answer, or with a status. -/
inductive FetchReply where
  | failed (error : String)
  | answered (status : Nat) (contentLength : Option Nat)

def isSuccess (status : Nat) : Bool :=
  200 ≤ status && status < 300

inductive WorkerEvent where
  | acquire
  /-- A failure names how many of the directories were made. -/
  | makeModelDir (failure : Option (Nat × String))
  | infoReply (reply : FetchReply) (json : Except String Unit)
  | listReply (reply : FetchReply) (json : Except String (List JsonValue))
  | startFile (failure : Option (Nat × String))
  | fileReply (index : Nat) (reply : FetchReply)
      (createFailure : Option String)
  | urlReply (reply : FetchReply) (createFailure : Option String)
  | chunk (index : Nat) (bytes : List UInt8)
  | streamError (index : Nat) (error : String)
  | endOfStream (index : Nat)
  | settle (index : Nat) (failure : Option (Nat × String))
  | finishTransfers
  | writeCompleted
  | measured (outcome : Except String Nat)
  | register
  | reportError

/-- What a step of a worker changes. -/
structure WorkerEffect where
  job : DownloadJob
  disk : Tree
  /-- Handles dropped with a write outstanding. -/
  dropped : List OpenFile
  registered : Option ModelInfo

namespace DownloadJob

/-- The job moves on and nothing else changes. -/
def moved (job : DownloadJob) (stage : WorkerStage) (disk : Tree) :
    WorkerEffect where
  job := { job with stage := stage }
  disk := disk
  dropped := []
  registered := none

def updateTaskStatus (job : DownloadJob) (status : DownloadStatus) :
    DownloadJob :=
  { job with task := { job.task with status := status } }

def updateTaskError (job : DownloadJob) (error : String) : DownloadJob :=
  { job with
    task := { job.task with status := .failed, error := some error } }

/-- Reported only when the length of the body is known. -/
def updateTaskProgress (job : DownloadJob) (downloaded : Nat)
    (total : Option Nat) : DownloadJob :=
  match total with
  | none => job
  | some _ =>
      { job with
        task := { job.task with
          downloadedSize := downloaded
          totalSize := total } }

/-- The directory a job downloads into, as the worker spells it. -/
def modelDir (cacheDir : List Char) (job : DownloadJob) : List Char :=
  join cacheDir job.task.modelName.toList

/-- What follows once the directory is there. -/
def enterSource (parse : String → Option Url) :
    ModelSource → WorkerStage
  | .huggingFace repoId _ => .fetchingInfo repoId
  | .url url =>
      match parse url with
      | none => .failing "invalid model URL"
      | some parsed =>
          match parsed.check with
          | .error reason => .failing reason
          | .ok () => .fetchingUrl url parsed
  | .torchHub _ _ =>
      .failing "TorchHub downloads not yet implemented"
  | .localModel _ => .failing "Local models don't need downloading"

/-- Up to this many files of a repository are fetched at a time. -/
def maxFilesInFlight : Nat := 8

/-- A transfer of the job ends with a result. -/
def endTransfer (job : DownloadJob) (queued : List String)
    (active : List ActiveTransfer) (results : List (Except String Unit))
    (index : Nat) (result : Except String Unit) (disk : Tree)
    (dropped : List OpenFile) : WorkerEffect where
  job := { job with
    stage := .transferring queued (active.eraseIdx index)
      (results ++ [result]) }
  disk := disk
  dropped := dropped
  registered := none

/-- The next queued file: its path is checked, the directories that lead to it
are made and its request is sent. -/
def startFile (job : DownloadJob) (workingDir : Location)
    (cacheDir : List Char) (path : String) (queued : List String)
    (active : List ActiveTransfer) (results : List (Except String Unit))
    (failure : Option (Nat × String)) (disk : Tree) : Option WorkerEffect :=
  let target := job.modelDir cacheDir
  let filePath := join target path.toList
  let parent := (locate workingDir filePath).dropLast
  if pathIsWithin filePath target then
    match failure with
    | some (made, error) =>
        (createDirAll disk (parent.take made)).map fun disk =>
          job.moved (.transferring queued active
            (results ++ [.error error])) disk
    | none =>
        (createDirAll disk parent).map fun disk =>
          job.moved (.transferring queued
            (active ++ [⟨path, none⟩]) results) disk
  else
    some (job.moved (.transferring queued active
      (results ++
        [.error s!"rejected path escaping target dir: {path}"])) disk)

/-- The answer to the request of one file.  An answer that is no success is
only logged. -/
def fileReply (job : DownloadJob) (workingDir : Location)
    (cacheDir : List Char) (queued : List String)
    (active : List ActiveTransfer) (results : List (Except String Unit))
    (index : Nat) (path : String) (reply : FetchReply)
    (createFailure : Option String) (disk : Tree) : Option WorkerEffect :=
  match reply with
  | .failed _ =>
      some (job.endTransfer queued active results index
        (.error s!"Failed to download file: {path}") disk [])
  | .answered status contentLength =>
      if isSuccess status then
        match createFailure with
        | some error =>
            some (job.endTransfer queued active results index
              (.error error) disk [])
        | none =>
            let location := locate workingDir
              (join (job.modelDir cacheDir) path.toList)
            (createFile disk location).map fun disk =>
              job.moved (.transferring queued
                (active.set index
                  ⟨path, some (.opened location contentLength)⟩)
                results) disk
      else
        some (job.endTransfer queued active results index (.ok ()) disk [])

/-- The answer to the request of a URL download. -/
def urlReply (job : DownloadJob) (workingDir : Location)
    (cacheDir : List Char) (url : String) (parsed : Url)
    (reply : FetchReply) (createFailure : Option String) (disk : Tree) :
    Option WorkerEffect :=
  let target := job.modelDir cacheDir
  let name := rawFilename parsed
  let filePath := join target name.toList
  match reply with
  | .failed error => some (job.moved (.failing error) disk)
  | .answered status contentLength =>
      if ¬ isSuccess status then
        some (job.moved
          (.failing s!"Failed to download from URL: {url}") disk)
      else if ¬ isSafeFilename name then
        some (job.moved
          (.failing s!"rejected unsafe filename in URL: {name}") disk)
      else if ¬ pathIsWithin filePath target then
        some (job.moved
          (.failing s!"resolved filename escapes target dir: {name}") disk)
      else
        match createFailure with
        | some error => some (job.moved (.failing error) disk)
        | none =>
            let location := locate workingDir filePath
            (createFile disk location).map fun disk =>
              job.moved (.transferring []
                [⟨name, some (.opened location contentLength)⟩] []) disk

/-- One chunk of a body.  Nothing is written while the previous write is
outstanding, and its failure is reported here. -/
def chunk (job : DownloadJob) (queued : List String)
    (active : List ActiveTransfer) (results : List (Except String Unit))
    (index : Nat) (path : String) (file : OpenFile) (bytes : List UInt8)
    (disk : Tree) : Option WorkerEffect :=
  if bytes = [] then
    some ((job.updateTaskProgress file.received.length file.totalSize).moved
      (.transferring queued active results) disk)
  else if file.unwritten ≠ [] then none
  else
    match file.writeError with
    | some error =>
        some (job.endTransfer queued active results index (.error error)
          disk [])
    | none =>
        let received := file.received ++ bytes
        let file := { file with received := received, unwritten := bytes }
        some ((job.updateTaskProgress received.length file.totalSize).moved
          (.transferring queued (active.set index ⟨path, some file⟩)
            results) disk)

/-- The first failure among the results, in the order they came in. -/
def firstError : List (Except String Unit) → Option String
  | [] => none
  | .error error :: _ => some error
  | .ok () :: results => firstError results

/-- What a job puts into the table of models. -/
def modelInfo (job : DownloadJob) (cacheDir : List Char) (size : Nat) :
    ModelInfo where
  name := job.task.modelName
  source := job.task.source
  localPath := job.modelDir cacheDir
  sizeBytes := size

/-- A step of a worker that fetches files. -/
def onTransfer (job : DownloadJob) (workingDir : Location)
    (cacheDir : List Char) (queued : List String)
    (active : List ActiveTransfer) (results : List (Except String Unit))
    (disk : Tree) : WorkerEvent → Option WorkerEffect
  | .startFile failure =>
      match queued with
      | [] => none
      | path :: queued =>
          if active.length < maxFilesInFlight then
            job.startFile workingDir cacheDir path queued active results
              failure disk
          else none
  | .fileReply index reply createFailure =>
      match active[index]? with
      | some ⟨path, none⟩ =>
          job.fileReply workingDir cacheDir queued active results index path
            reply createFailure disk
      | _ => none
  | .chunk index bytes =>
      match active[index]? with
      | some ⟨path, some file⟩ =>
          job.chunk queued active results index path file bytes disk
      | _ => none
  | .streamError index error =>
      match active[index]? with
      | some ⟨_, some file⟩ =>
          some (job.endTransfer queued active results index (.error error)
            disk file.drop)
      | _ => none
  | .endOfStream index =>
      match active[index]? with
      | some ⟨_, some file⟩ =>
          some (job.endTransfer queued active results index (.ok ()) disk
            file.drop)
      | _ => none
  | .settle index failure =>
      match active[index]? with
      | some ⟨path, some file⟩ =>
          if file.unwritten = [] then none
          else
            some (job.moved (.transferring queued
              (active.set index ⟨path, some (file.settle failure disk).1⟩)
              results) (file.settle failure disk).2)
      | _ => none
  | .finishTransfers =>
      if queued.isEmpty && active.isEmpty then
        match firstError results with
        | some error => some (job.moved (.failing error) disk)
        | none => some (job.moved .fetched disk)
      else none
  | _ => none

/-- The directory of the model is made, or some of those that lead to it. -/
def onMakeModelDir (parse : String → Option Url) (workingDir : Location)
    (cacheDir : List Char) (job : DownloadJob) (disk : Tree) :
    Option (Nat × String) → Option WorkerEffect
  | some (made, error) =>
      (createDirAll disk
        ((locate workingDir (job.modelDir cacheDir)).take made)).map
          (job.moved (.failing error))
  | none =>
      (createDirAll disk (locate workingDir (job.modelDir cacheDir))).map
        (job.moved (enterSource parse job.task.source))

/-- The answer about the repository itself. -/
def onInfoReply (repoId : String) (reply : FetchReply)
    (json : Except String Unit) : WorkerStage :=
  match reply with
  | .failed _ => .failing "Failed to fetch model info"
  | .answered status _ =>
      if isSuccess status then
        match json with
        | .error error => .failing error
        | .ok () => .fetchingList
      else .failing s!"Model not found: {repoId}"

/-- The list of files, whatever the status of the answer. -/
def onListReply (reply : FetchReply)
    (json : Except String (List JsonValue)) : WorkerStage :=
  match reply, json with
  | .failed _, _ => .failing "Failed to fetch file list"
  | .answered _ _, .error error => .failing error
  | .answered _ _, .ok files => .transferring (filesToDownload files) [] []

def onMeasured : Except String Nat → WorkerStage
  | .error error => .failing error
  | .ok size => .registering size

/-- One step of the worker of a job. -/
def advance (parse : String → Option Url) (workingDir : Location)
    (cacheDir : List Char) (job : DownloadJob) (disk : Tree)
    (event : WorkerEvent) : Option WorkerEffect :=
  match job.stage, event with
  | .waiting, .acquire =>
      some ((job.updateTaskStatus .downloading).moved .makingDir disk)
  | .makingDir, .makeModelDir failure =>
      job.onMakeModelDir parse workingDir cacheDir disk failure
  | .fetchingInfo repoId, .infoReply reply json =>
      some (job.moved (onInfoReply repoId reply json) disk)
  | .fetchingList, .listReply reply json =>
      some (job.moved (onListReply reply json) disk)
  | .fetchingUrl url parsed, .urlReply reply createFailure =>
      job.urlReply workingDir cacheDir url parsed reply createFailure disk
  | .transferring queued active results, event =>
      job.onTransfer workingDir cacheDir queued active results disk event
  | .fetched, .writeCompleted =>
      some ((job.updateTaskStatus .completed).moved .measuring disk)
  | .measuring, .measured outcome =>
      some (job.moved (onMeasured outcome) disk)
  | .registering size, .register =>
      some { job.moved .done disk with
        registered := some (job.modelInfo cacheDir size) }
  | .failing error, .reportError =>
      some ((job.updateTaskError error).moved .done disk)
  | _, _ => none

end DownloadJob

/-! ## The manager -/

/-- A call of `delete_model` that is removing files. -/
structure Deletion where
  name : String
  root : Location

abbrev ModelTable := AList fun _ : String => ModelInfo

structure DownloadManager where
  workingDir : Location
  cacheDir : List Char
  jobs : List DownloadJob
  models : ModelTable
  deletions : List Deletion
  dropped : List OpenFile
  disk : Tree

inductive DownloadAction where
  | request (name : String) (source : ModelSource)
  | worker (job : Nat) (event : WorkerEvent)
  | settleDropped (index : Nat) (failure : Option (Nat × String))
  | readStatus (job : Nat)
  | deleteModel (name : String)
  | removeEntry (index : Nat) (location : Location)
  | endDeletion (index : Nat) (failure : Option String)
  /-- The process ends and starts again; a scan that fails has seen only some
  of the directories. -/
  | restart (seen : List String)

namespace DownloadManager

def maxConcurrentDownloads : Nat := 3

/-- A manager before its first `initialize`. -/
def new (workingDir : Location) (cacheDir : List Char) (disk : Tree) :
    DownloadManager where
  workingDir := workingDir
  cacheDir := cacheDir
  jobs := []
  models := ∅
  deletions := []
  dropped := []
  disk := disk

def cacheLocation (manager : DownloadManager) : Location :=
  locate manager.workingDir manager.cacheDir

def getModel (manager : DownloadManager) (name : String) :
    Option ModelInfo :=
  manager.models.lookup name

def listModels (manager : DownloadManager) : List ModelInfo :=
  manager.models.entries.map fun entry => entry.2

def getTaskStatus (manager : DownloadManager) (job : Nat) :
    Option DownloadStatus :=
  manager.jobs[job]?.map fun job => job.task.status

/-- What the scan registers for one directory. -/
def scannedModel (manager : DownloadManager) (name : FileName) :
    ModelInfo where
  name := String.ofList name.text
  source := .localModel (String.ofList (join manager.cacheDir name.text))
  localPath := join manager.cacheDir name.text
  sizeBytes := dirSize manager.disk (manager.cacheLocation ++ [name])

/-- The names of the directories in the cache directory. -/
def cachedNames (manager : DownloadManager) : List FileName :=
  (children manager.disk manager.cacheLocation).filter fun name =>
    isDirectory manager.disk (manager.cacheLocation ++ [name])

/-- The models registered by a scan that has seen some directories. -/
def scanCache (manager : DownloadManager) (seen : List String) :
    ModelTable :=
  (manager.cachedNames.filter fun name =>
    seen.contains (String.ofList name.text)).foldl
      (fun models name => models.insert (String.ofList name.text)
        (manager.scannedModel name)) ∅

/-- The cache directory is made and scanned by a new process. -/
def restarted (manager : DownloadManager) (seen : List String) :
    DownloadManager :=
  let manager := { manager with
    jobs := []
    models := ∅
    deletions := []
    dropped := []
    disk := (createDirAll manager.disk manager.cacheLocation).getD
      manager.disk }
  { manager with models := manager.scanCache seen }

/-- Whether `acquire` gets one of the permits. -/
def permitAvailable (manager : DownloadManager) : Bool :=
  manager.jobs.countP (fun job => job.stage.holdsPermit) <
    maxConcurrentDownloads

def apply (manager : DownloadManager) (index : Nat)
    (effect : WorkerEffect) : DownloadManager :=
  { manager with
    jobs := manager.jobs.set index effect.job
    disk := effect.disk
    dropped := manager.dropped ++ effect.dropped
    models := match effect.registered with
      | none => manager.models
      | some info => manager.models.insert info.name info }

def workerStep (parse : String → Option Url) (manager : DownloadManager)
    (index : Nat) (event : WorkerEvent) : Option DownloadManager :=
  match manager.jobs[index]? with
  | none => none
  | some job =>
      if event matches .acquire ∧ ¬ manager.permitAvailable then none
      else
        (job.advance parse manager.workingDir manager.cacheDir manager.disk
          event).map (manager.apply index)

/-- `delete_model` up to its first await: the entry is taken out of the table
and the removal of its directory begins. -/
def deleteModel (manager : DownloadManager) (name : String) :
    DownloadManager :=
  match manager.models.lookup name with
  | none => manager
  | some info =>
      let root := locate manager.workingDir info.localPath
      let models := manager.models.erase name
      if root = [] ∨ root ∈ manager.disk then
        { manager with
          models := models
          deletions := manager.deletions ++ [⟨name, root⟩] }
      else { manager with models := models }

def step (parse : String → Option Url) (manager : DownloadManager) :
    DownloadAction → Option DownloadManager
  | .request name source =>
      some { manager with
        jobs := manager.jobs ++ [⟨.new name source, .waiting⟩] }
  | .worker job event => manager.workerStep parse job event
  | .settleDropped index failure =>
      match manager.dropped[index]? with
      | none => none
      | some file =>
          some { manager with
            dropped := manager.dropped.eraseIdx index
            disk := (file.settle failure manager.disk).2 }
  | .readStatus job =>
      if job < manager.jobs.length then some manager else none
  | .deleteModel name => some (manager.deleteModel name)
  | .removeEntry index location =>
      match manager.deletions[index]? with
      | none => none
      | some deletion =>
          if deletion.root <+: location then
            (removeEntry manager.disk location).map fun disk =>
              { manager with disk := disk }
          else none
  | .endDeletion index failure =>
      match manager.deletions[index]? with
      | none => none
      | some deletion =>
          if failure = none ∧ deletion.root ∈ manager.disk then none
          else some { manager with
            deletions := manager.deletions.eraseIdx index }
  | .restart seen => some (manager.restarted seen)

end DownloadManager

end TorchInference
