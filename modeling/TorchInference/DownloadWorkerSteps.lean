import TorchInference.DownloadManager

/-!
# What a step of a download worker can do

One inversion lemma for the worker as a whole and one for its transfers.  The
properties of downloads are proved from these relations; the definitions of
the worker are not unfolded again.
-/

namespace TorchInference

open UnixPath FileTree

namespace DownloadJob

@[simp]
theorem moved_job (job : DownloadJob) (stage : WorkerStage) (disk : Tree) :
    (job.moved stage disk).job = { job with stage := stage } :=
  rfl

@[simp]
theorem moved_registered (job : DownloadJob) (stage : WorkerStage)
    (disk : Tree) : (job.moved stage disk).registered = none :=
  rfl

@[simp]
theorem moved_disk (job : DownloadJob) (stage : WorkerStage)
    (disk : Tree) : (job.moved stage disk).disk = disk :=
  rfl

@[simp]
theorem moved_dropped (job : DownloadJob) (stage : WorkerStage)
    (disk : Tree) : (job.moved stage disk).dropped = [] :=
  rfl

/-- Where the job's directory is. -/
def modelLocation (workingDir : Location) (cacheDir : List Char)
    (job : DownloadJob) : Location :=
  locate workingDir (job.modelDir cacheDir)

/-- Where the job stores a file of its repository. -/
def fileLocation (workingDir : Location) (cacheDir : List Char)
    (job : DownloadJob) (path : String) : Location :=
  locate workingDir (join (job.modelDir cacheDir) path.toList)

/-- What follows the creation of the directory. -/
theorem enterSource_cases (parse : String → Option Url)
    (source : ModelSource) :
    (∃ repoId, enterSource parse source = .fetchingInfo repoId) ∨
      (∃ url parsed, enterSource parse source = .fetchingUrl url parsed) ∨
      ∃ error, enterSource parse source = .failing error := by
  cases source with
  | huggingFace repoId revision => exact Or.inl ⟨repoId, rfl⟩
  | torchHub => exact Or.inr (Or.inr ⟨_, rfl⟩)
  | localModel => exact Or.inr (Or.inr ⟨_, rfl⟩)
  | url url =>
      simp only [enterSource]
      split
      · exact Or.inr (Or.inr ⟨_, rfl⟩)
      · split
        · exact Or.inr (Or.inr ⟨_, rfl⟩)
        · exact Or.inr (Or.inl ⟨url, _, rfl⟩)

theorem onInfoReply_cases (repoId : String) (reply : FetchReply)
    (json : Except String Unit) :
    onInfoReply repoId reply json = .fetchingList ∨
      ∃ error, onInfoReply repoId reply json = .failing error := by
  cases reply with
  | failed => exact Or.inr ⟨_, rfl⟩
  | answered status contentLength =>
      simp only [onInfoReply]
      split
      · cases json with
        | error => exact Or.inr ⟨_, rfl⟩
        | ok => exact Or.inl rfl
      · exact Or.inr ⟨_, rfl⟩

/-- The steps of a worker that fetches files. -/
inductive TransferStep (workingDir : Location) (cacheDir : List Char)
    (job : DownloadJob) (disk : Tree) (queued : List String)
    (active : List ActiveTransfer) (results : List (Except String Unit)) :
    WorkerEvent → WorkerEffect → Prop
  | refuses (path : String) (rest : List String) (error : String)
      (after : Tree) (failure : Option (Nat × String))
      (head : queued = path :: rest)
      (refused : failure.isSome = true ∨
        pathIsWithin (join (job.modelDir cacheDir) path.toList)
          (job.modelDir cacheDir) = false)
      (made : after = disk ∨ ∃ count, createDirAll disk
        ((job.fileLocation workingDir cacheDir path).dropLast.take count) =
          some after) :
      TransferStep workingDir cacheDir job disk queued active results
        (.startFile failure)
        (job.moved (.transferring rest active (results ++ [.error error]))
          after)
  | starts (path : String) (rest : List String) (after : Tree)
      (head : queued = path :: rest)
      (within : pathIsWithin (join (job.modelDir cacheDir) path.toList)
        (job.modelDir cacheDir) = true)
      (made : createDirAll disk
        (job.fileLocation workingDir cacheDir path).dropLast = some after) :
      TransferStep workingDir cacheDir job disk queued active results
        (.startFile none)
        (job.moved (.transferring rest (active ++ [⟨path, none⟩]) results)
          after)
  | unanswered (index : Nat) (path error : String) (reply : FetchReply)
      (createFailure : Option String)
      (found : active[index]? = some ⟨path, none⟩)
      (failed : (∃ reason, reply = .failed reason) ∨
        createFailure.isSome = true ∧ ∃ status contentLength,
          reply = .answered status contentLength ∧
            isSuccess status = true) :
      TransferStep workingDir cacheDir job disk queued active results
        (.fileReply index reply createFailure)
        (job.endTransfer queued active results index (.error error) disk [])
  | skips (index : Nat) (path : String) (status : Nat)
      (contentLength : Option Nat) (createFailure : Option String)
      (found : active[index]? = some ⟨path, none⟩)
      (refused : isSuccess status = false) :
      TransferStep workingDir cacheDir job disk queued active results
        (.fileReply index (.answered status contentLength) createFailure)
        (job.endTransfer queued active results index (.ok ()) disk [])
  | opens (index : Nat) (path : String) (status : Nat)
      (contentLength : Option Nat) (after : Tree)
      (found : active[index]? = some ⟨path, none⟩)
      (success : isSuccess status = true)
      (created : createFile disk
        (job.fileLocation workingDir cacheDir path) = some after) :
      TransferStep workingDir cacheDir job disk queued active results
        (.fileReply index (.answered status contentLength) none)
        (job.moved (.transferring queued
          (active.set index ⟨path, some (.opened
            (job.fileLocation workingDir cacheDir path) contentLength)⟩)
          results) after)
  | ignores (index : Nat) (path : String) (file : OpenFile)
      (found : active[index]? = some ⟨path, some file⟩) :
      TransferStep workingDir cacheDir job disk queued active results
        (.chunk index [])
        ((job.updateTaskProgress file.received.length file.totalSize).moved
          (.transferring queued active results) disk)
  | receives (index : Nat) (path : String) (file : OpenFile)
      (bytes : List UInt8)
      (found : active[index]? = some ⟨path, some file⟩)
      (nonempty : bytes ≠ []) (settled : file.unwritten = [])
      (sound : file.writeError = none) :
      TransferStep workingDir cacheDir job disk queued active results
        (.chunk index bytes)
        ((job.updateTaskProgress (file.received ++ bytes).length
            file.totalSize).moved
          (.transferring queued (active.set index
            ⟨path, some { file with received := file.received ++ bytes,
                                    unwritten := bytes }⟩)
            results) disk)
  | writeFails (index : Nat) (path : String) (file : OpenFile)
      (error : String) (bytes : List UInt8)
      (found : active[index]? = some ⟨path, some file⟩)
      (nonempty : bytes ≠ []) (settled : file.unwritten = [])
      (failed : file.writeError = some error) :
      TransferStep workingDir cacheDir job disk queued active results
        (.chunk index bytes)
        (job.endTransfer queued active results index (.error error) disk [])
  | breaksOff (index : Nat) (path : String) (file : OpenFile)
      (error : String) (found : active[index]? = some ⟨path, some file⟩) :
      TransferStep workingDir cacheDir job disk queued active results
        (.streamError index error)
        (job.endTransfer queued active results index (.error error) disk
          file.drop)
  | ends (index : Nat) (path : String) (file : OpenFile)
      (found : active[index]? = some ⟨path, some file⟩) :
      TransferStep workingDir cacheDir job disk queued active results
        (.endOfStream index)
        (job.endTransfer queued active results index (.ok ()) disk file.drop)
  | settles (index : Nat) (path : String) (file : OpenFile)
      (failure : Option (Nat × String))
      (found : active[index]? = some ⟨path, some file⟩)
      (outstanding : file.unwritten ≠ []) :
      TransferStep workingDir cacheDir job disk queued active results
        (.settle index failure)
        (job.moved (.transferring queued
          (active.set index ⟨path, some (file.settle failure disk).1⟩)
          results) (file.settle failure disk).2)
  | collectsError (error : String) (noneQueued : queued = [])
      (noneActive : active = [])
      (first : firstError results = some error) :
      TransferStep workingDir cacheDir job disk queued active results
        .finishTransfers (job.moved (.failing error) disk)
  | collects (noneQueued : queued = []) (noneActive : active = [])
      (noError : firstError results = none) :
      TransferStep workingDir cacheDir job disk queued active results
        .finishTransfers (job.moved .fetched disk)

section Inversion

variable {workingDir : Location} {cacheDir : List Char} {job : DownloadJob}
  {disk : Tree} {queued : List String} {active : List ActiveTransfer}
  {results : List (Except String Unit)} {effect : WorkerEffect}

theorem startFile_step {path : String} {rest : List String}
    {failure : Option (Nat × String)} (head : queued = path :: rest)
    (started : job.startFile workingDir cacheDir path rest active results
      failure disk = some effect) :
    TransferStep workingDir cacheDir job disk queued active results
      (.startFile failure) effect := by
  simp only [startFile] at started
  split at started
  case isTrue within =>
    cases failure with
    | some failed =>
        obtain ⟨made, error⟩ := failed
        obtain ⟨after, dirs, rfl⟩ := Option.map_eq_some_iff.mp started
        exact .refuses path rest error after _ head (Or.inl rfl)
          (Or.inr ⟨made, dirs⟩)
    | none =>
        obtain ⟨after, dirs, rfl⟩ := Option.map_eq_some_iff.mp started
        exact .starts path rest after head within dirs
  case isFalse outside =>
    simp only [Option.some.injEq] at started
    subst started
    exact .refuses path rest _ disk failure head
      (Or.inr (by simpa using outside)) (Or.inl rfl)

theorem fileReply_step {index : Nat} {path : String} {reply : FetchReply}
    {createFailure : Option String}
    (found : active[index]? = some ⟨path, none⟩)
    (replied : job.fileReply workingDir cacheDir queued active results index
      path reply createFailure disk = some effect) :
    TransferStep workingDir cacheDir job disk queued active results
      (.fileReply index reply createFailure) effect := by
  cases reply with
  | failed error =>
      simp only [fileReply, Option.some.injEq] at replied
      subst replied
      exact .unanswered index path _ _ createFailure found
        (Or.inl ⟨error, rfl⟩)
  | answered status contentLength =>
      cases success : isSuccess status with
      | false =>
          simp only [fileReply, success, Bool.false_eq_true, if_false,
            Option.some.injEq] at replied
          subst replied
          exact .skips index path status contentLength createFailure found
            success
      | true =>
          simp only [fileReply, success, if_true] at replied
          cases createFailure with
          | some error =>
              simp only [Option.some.injEq] at replied
              subst replied
              exact .unanswered index path _ _ _ found
                (Or.inr ⟨rfl, status, contentLength, rfl, success⟩)
          | none =>
              obtain ⟨after, created, rfl⟩ :=
                Option.map_eq_some_iff.mp replied
              exact .opens index path status contentLength after found
                success created

theorem chunk_step {index : Nat} {path : String} {file : OpenFile}
    {bytes : List UInt8} (found : active[index]? = some ⟨path, some file⟩)
    (received : job.chunk queued active results index path file bytes disk =
      some effect) :
    TransferStep workingDir cacheDir job disk queued active results
      (.chunk index bytes) effect := by
  simp only [chunk] at received
  split at received
  case isTrue empty =>
    simp only [Option.some.injEq] at received
    subst received
    subst empty
    exact .ignores index path file found
  case isFalse nonempty =>
    split at received
    case isTrue => cases received
    case isFalse settled =>
      have nothingLeft : file.unwritten = [] := by
        simpa using settled
      cases sound : file.writeError with
      | some error =>
          simp only [sound, Option.some.injEq] at received
          subst received
          exact .writeFails index path file error bytes found nonempty
            nothingLeft sound
      | none =>
          simp only [sound, Option.some.injEq] at received
          subst received
          exact sound ▸ .receives index path file bytes found nonempty
            nothingLeft sound

/-- Everything a step on the transfers of a worker can do. -/
theorem onTransfer_step {event : WorkerEvent}
    (moves : job.onTransfer workingDir cacheDir queued active results disk
      event = some effect) :
    TransferStep workingDir cacheDir job disk queued active results event
      effect := by
  cases event with
  | startFile failure =>
      simp only [onTransfer] at moves
      cases head : queued with
      | nil => simp [head] at moves
      | cons path rest =>
          simp only [head, Option.ite_none_right_eq_some] at moves
          exact head ▸ startFile_step head moves.2
  | fileReply index reply createFailure =>
      simp only [onTransfer] at moves
      split at moves
      case h_1 path found => exact fileReply_step found moves
      case h_2 => cases moves
  | chunk index bytes =>
      simp only [onTransfer] at moves
      split at moves
      case h_1 path file found => exact chunk_step found moves
      case h_2 => cases moves
  | streamError index error =>
      simp only [onTransfer] at moves
      split at moves
      case h_1 path file found =>
        simp only [Option.some.injEq] at moves
        subst moves
        exact .breaksOff index path file error found
      case h_2 => cases moves
  | endOfStream index =>
      simp only [onTransfer] at moves
      split at moves
      case h_1 path file found =>
        simp only [Option.some.injEq] at moves
        subst moves
        exact .ends index path file found
      case h_2 => cases moves
  | settle index failure =>
      simp only [onTransfer] at moves
      split at moves
      case h_1 path file found =>
        simp only [Option.ite_none_left_eq_some, Option.some.injEq] at moves
        obtain ⟨outstanding, rfl⟩ := moves
        exact .settles index path file failure found outstanding
      case h_2 => cases moves
  | finishTransfers =>
      simp only [onTransfer, Option.ite_none_right_eq_some,
        Bool.and_eq_true, List.isEmpty_iff] at moves
      obtain ⟨⟨noneQueued, noneActive⟩, moves⟩ := moves
      cases first : firstError results with
      | some error =>
          simp only [first, Option.some.injEq] at moves
          subst moves
          exact .collectsError error noneQueued noneActive first
      | none =>
          simp only [first, Option.some.injEq] at moves
          subst moves
          exact .collects noneQueued noneActive first
  | acquire => cases moves
  | makeModelDir failure => cases moves
  | infoReply reply json => cases moves
  | listReply reply json => cases moves
  | urlReply reply createFailure => cases moves
  | writeCompleted => cases moves
  | measured outcome => cases moves
  | register => cases moves
  | reportError => cases moves

end Inversion

/-- The steps of a worker. -/
inductive WorkerStep (parse : String → Option Url) (workingDir : Location)
    (cacheDir : List Char) (job : DownloadJob) (disk : Tree) :
    WorkerEvent → WorkerEffect → Prop
  | acquires (stage : job.stage = .waiting) :
      WorkerStep parse workingDir cacheDir job disk .acquire
        ((job.updateTaskStatus .downloading).moved .makingDir disk)
  | missesDir (made : Nat) (error : String) (after : Tree)
      (stage : job.stage = .makingDir)
      (dirs : createDirAll disk
        ((job.modelLocation workingDir cacheDir).take made) = some after) :
      WorkerStep parse workingDir cacheDir job disk
        (.makeModelDir (some (made, error)))
        (job.moved (.failing error) after)
  | makesDir (after : Tree) (stage : job.stage = .makingDir)
      (dirs : createDirAll disk (job.modelLocation workingDir cacheDir) =
        some after) :
      WorkerStep parse workingDir cacheDir job disk (.makeModelDir none)
        (job.moved (enterSource parse job.task.source) after)
  | readsInfo (repoId : String) (reply : FetchReply)
      (json : Except String Unit) (stage : job.stage = .fetchingInfo repoId) :
      WorkerStep parse workingDir cacheDir job disk (.infoReply reply json)
        (job.moved (onInfoReply repoId reply json) disk)
  | readsList (reply : FetchReply) (json : Except String (List JsonValue))
      (stage : job.stage = .fetchingList) :
      WorkerStep parse workingDir cacheDir job disk (.listReply reply json)
        (job.moved (onListReply reply json) disk)
  | refusesUrl (url : String) (parsed : Url) (reply : FetchReply)
      (createFailure : Option String) (error : String)
      (stage : job.stage = .fetchingUrl url parsed) :
      WorkerStep parse workingDir cacheDir job disk
        (.urlReply reply createFailure) (job.moved (.failing error) disk)
  | opensUrl (url : String) (parsed : Url) (status : Nat)
      (contentLength : Option Nat) (after : Tree)
      (stage : job.stage = .fetchingUrl url parsed)
      (safe : isSafeFilename (rawFilename parsed) = true)
      (created : createFile disk (job.fileLocation workingDir cacheDir
        (rawFilename parsed)) = some after) :
      WorkerStep parse workingDir cacheDir job disk
        (.urlReply (.answered status contentLength) none)
        (job.moved (.transferring [] [⟨rawFilename parsed, some (.opened
          (job.fileLocation workingDir cacheDir (rawFilename parsed))
          contentLength)⟩] []) after)
  | transfers (queued : List String) (active : List ActiveTransfer)
      (results : List (Except String Unit)) (event : WorkerEvent)
      (effect : WorkerEffect)
      (stage : job.stage = .transferring queued active results)
      (moves : TransferStep workingDir cacheDir job disk queued active
        results event effect) :
      WorkerStep parse workingDir cacheDir job disk event effect
  | completes (stage : job.stage = .fetched) :
      WorkerStep parse workingDir cacheDir job disk .writeCompleted
        ((job.updateTaskStatus .completed).moved .measuring disk)
  | measures (outcome : Except String Nat) (stage : job.stage = .measuring) :
      WorkerStep parse workingDir cacheDir job disk (.measured outcome)
        (job.moved (onMeasured outcome) disk)
  | registers (size : Nat) (stage : job.stage = .registering size) :
      WorkerStep parse workingDir cacheDir job disk .register
        { job.moved .done disk with
          registered := some (job.modelInfo cacheDir size) }
  | reports (error : String) (stage : job.stage = .failing error) :
      WorkerStep parse workingDir cacheDir job disk .reportError
        ((job.updateTaskError error).moved .done disk)

section Inversion

variable {parse : String → Option Url} {workingDir : Location}
  {cacheDir : List Char} {job : DownloadJob} {disk : Tree}
  {effect : WorkerEffect}

theorem urlReply_step {url : String} {parsed : Url} {reply : FetchReply}
    {createFailure : Option String}
    (stage : job.stage = .fetchingUrl url parsed)
    (replied : job.urlReply workingDir cacheDir url parsed reply
      createFailure disk = some effect) :
    WorkerStep parse workingDir cacheDir job disk
      (.urlReply reply createFailure) effect := by
  have refuses (error : String)
      (same : some (job.moved (.failing error) disk) = some effect) :
      WorkerStep parse workingDir cacheDir job disk
        (.urlReply reply createFailure) effect := by
    simp only [Option.some.injEq] at same
    subst same
    exact .refusesUrl url parsed reply createFailure error stage
  cases reply with
  | failed error => exact refuses error replied
  | answered status contentLength =>
      simp only [urlReply] at replied
      split at replied
      case isTrue => exact refuses _ replied
      case isFalse =>
        split at replied
        case isTrue => exact refuses _ replied
        case isFalse safe =>
          split at replied
          case isTrue => exact refuses _ replied
          case isFalse =>
            cases createFailure with
            | some error => exact refuses error replied
            | none =>
                obtain ⟨after, created, rfl⟩ :=
                  Option.map_eq_some_iff.mp replied
                exact .opensUrl url parsed status contentLength after stage
                  (by simpa using safe) created

theorem onMakeModelDir_step {failure : Option (Nat × String)}
    (stage : job.stage = .makingDir)
    (made : job.onMakeModelDir parse workingDir cacheDir disk failure =
      some effect) :
    WorkerStep parse workingDir cacheDir job disk (.makeModelDir failure)
      effect := by
  cases failure with
  | some failed =>
      obtain ⟨count, error⟩ := failed
      obtain ⟨after, dirs, rfl⟩ := Option.map_eq_some_iff.mp made
      exact .missesDir count error after stage dirs
  | none =>
      obtain ⟨after, dirs, rfl⟩ := Option.map_eq_some_iff.mp made
      exact .makesDir after stage dirs

/-- Everything a step of a worker can do. -/
theorem advance_step {event : WorkerEvent}
    (moves : job.advance parse workingDir cacheDir disk event =
      some effect) :
    WorkerStep parse workingDir cacheDir job disk event effect := by
  unfold advance at moves
  split at moves
  case h_1 stage =>
    simp only [Option.some.injEq] at moves
    exact moves ▸ .acquires stage
  case h_2 failure stage => exact onMakeModelDir_step stage moves
  case h_3 repoId reply json stage =>
    simp only [Option.some.injEq] at moves
    exact moves ▸ .readsInfo repoId reply json stage
  case h_4 reply json stage =>
    simp only [Option.some.injEq] at moves
    exact moves ▸ .readsList reply json stage
  case h_5 url parsed reply createFailure stage =>
    exact urlReply_step stage moves
  case h_6 _ queued active results stage =>
    exact .transfers queued active results _ effect stage
      (onTransfer_step moves)
  case h_7 stage =>
    simp only [Option.some.injEq] at moves
    exact moves ▸ .completes stage
  case h_8 outcome stage =>
    simp only [Option.some.injEq] at moves
    exact moves ▸ .measures outcome stage
  case h_9 size stage =>
    simp only [Option.some.injEq] at moves
    exact moves ▸ .registers size stage
  case h_10 error stage =>
    simp only [Option.some.injEq] at moves
    exact moves ▸ .reports error stage
  case h_11 => cases moves

end Inversion

end DownloadJob

namespace DownloadManager

open DownloadJob

/-- A step of a worker at the manager: the step of its job, applied. -/
theorem workerStep_eq_some {parse : String → Option Url}
    {manager next : DownloadManager} {index : Nat} {event : WorkerEvent}
    (moves : manager.workerStep parse index event = some next) :
    ∃ job effect, manager.jobs[index]? = some job ∧
      WorkerStep parse manager.workingDir manager.cacheDir job manager.disk
        event effect ∧ next = manager.apply index effect := by
  unfold workerStep at moves
  cases found : manager.jobs[index]? with
  | none => simp [found] at moves
  | some job =>
      simp only [found, Option.ite_none_left_eq_some,
        Option.map_eq_some_iff] at moves
      obtain ⟨-, effect, advanced, rfl⟩ := moves
      exact ⟨job, effect, rfl, advance_step advanced, rfl⟩

theorem apply_jobs (manager : DownloadManager) (index : Nat)
    (effect : WorkerEffect) :
    (manager.apply index effect).jobs = manager.jobs.set index effect.job :=
  rfl

/-- The other jobs are as they were. -/
theorem apply_jobs_of_ne (manager : DownloadManager) {index other : Nat}
    (different : other ≠ index) (effect : WorkerEffect) :
    (manager.apply index effect).jobs[other]? = manager.jobs[other]? := by
  rw [apply_jobs, List.getElem?_set_ne (Ne.symm different)]

theorem apply_jobs_self {manager : DownloadManager} {index : Nat}
    {job : DownloadJob} (found : manager.jobs[index]? = some job)
    (effect : WorkerEffect) :
    (manager.apply index effect).jobs[index]? = some effect.job := by
  obtain ⟨bound, -⟩ := List.getElem?_eq_some_iff.mp found
  rw [apply_jobs, List.getElem?_set_self bound]

theorem getModel_apply_of_none (manager : DownloadManager) (index : Nat)
    {effect : WorkerEffect} (registered : effect.registered = none)
    (name : String) :
    (manager.apply index effect).getModel name = manager.getModel name := by
  simp [getModel, apply, registered]

/-- Registration adds one model and removes none. -/
theorem getModel_apply_of_some (manager : DownloadManager) (index : Nat)
    {effect : WorkerEffect} {info : ModelInfo}
    (registered : effect.registered = some info) (name : String) :
    (manager.apply index effect).getModel name =
      if name = info.name then some info else manager.getModel name := by
  by_cases same : name = info.name
  · subst same
    simp [getModel, apply, registered]
  · simp [getModel, apply, registered, same,
      AList.lookup_insert_ne same]

theorem deleteModel_jobs (manager : DownloadManager) (name : String) :
    (manager.deleteModel name).jobs = manager.jobs := by
  cases found : manager.models.lookup name with
  | none => simp only [deleteModel, found]
  | some info =>
      simp only [deleteModel, found]
      split <;> rfl

theorem lookup_erase_eq (models : ModelTable) (name other : String) :
    (models.erase name).lookup other =
      if other = name then none else models.lookup other := by
  by_cases same : other = name
  · subst same
    rw [if_pos rfl, AList.lookup_erase]
  · rw [if_neg same, AList.lookup_erase_ne same]

/-- After `delete_model` the model is not listed; the others are. -/
theorem getModel_deleteModel (manager : DownloadManager)
    (name other : String) :
    (manager.deleteModel name).getModel other =
      if other = name then none else manager.getModel other := by
  cases found : manager.models.lookup name with
  | none =>
      simp only [deleteModel, getModel, found]
      by_cases same : other = name
      · rw [if_pos same, same, found]
      · rw [if_neg same]
  | some info =>
      simp only [deleteModel, getModel, found]
      split <;> exact lookup_erase_eq manager.models name other

/-- Everything a step of the manager can do. -/
inductive ManagerStep (parse : String → Option Url)
    (manager : DownloadManager) : DownloadAction → DownloadManager → Prop
  | requests (name : String) (source : ModelSource) :
      ManagerStep parse manager (.request name source)
        { manager with
          jobs := manager.jobs ++ [⟨.new name source, .waiting⟩] }
  | works (index : Nat) (event : WorkerEvent) (job : DownloadJob)
      (effect : WorkerEffect) (found : manager.jobs[index]? = some job)
      (moves : WorkerStep parse manager.workingDir manager.cacheDir job
        manager.disk event effect) :
      ManagerStep parse manager (.worker index event)
        (manager.apply index effect)
  | settles (index : Nat) (failure : Option (Nat × String))
      (file : OpenFile) (found : manager.dropped[index]? = some file) :
      ManagerStep parse manager (.settleDropped index failure)
        { manager with
          dropped := manager.dropped.eraseIdx index
          disk := (file.settle failure manager.disk).2 }
  | reads (index : Nat) :
      ManagerStep parse manager (.readStatus index) manager
  | deletes (name : String) :
      ManagerStep parse manager (.deleteModel name)
        (manager.deleteModel name)
  | removes (index : Nat) (location : Location) (deletion : Deletion)
      (disk : Tree) (found : manager.deletions[index]? = some deletion)
      (inside : deletion.root <+: location)
      (removed : removeEntry manager.disk location = some disk) :
      ManagerStep parse manager (.removeEntry index location)
        { manager with disk := disk }
  | ends (index : Nat) (failure : Option String) (deletion : Deletion)
      (found : manager.deletions[index]? = some deletion) :
      ManagerStep parse manager (.endDeletion index failure)
        { manager with deletions := manager.deletions.eraseIdx index }
  | restarts (seen : List String) :
      ManagerStep parse manager (.restart seen) (manager.restarted seen)

theorem managerStep_of_step {parse : String → Option Url}
    {manager next : DownloadManager} {action : DownloadAction}
    (moves : manager.step parse action = some next) :
    ManagerStep parse manager action next := by
  cases action with
  | request name source =>
      simp only [step, Option.some.injEq] at moves
      exact moves ▸ .requests name source
  | worker index event =>
      obtain ⟨job, effect, found, workerMoves, rfl⟩ :=
        workerStep_eq_some moves
      exact .works index event job effect found workerMoves
  | settleDropped index failure =>
      simp only [step] at moves
      cases found : manager.dropped[index]? with
      | none => simp [found] at moves
      | some file =>
          simp only [found, Option.some.injEq] at moves
          exact moves ▸ .settles index failure file found
  | readStatus index =>
      simp only [step, Option.ite_none_right_eq_some,
        Option.some.injEq] at moves
      exact moves.2 ▸ .reads index
  | deleteModel name =>
      simp only [step, Option.some.injEq] at moves
      exact moves ▸ .deletes name
  | removeEntry index location =>
      simp only [step] at moves
      cases found : manager.deletions[index]? with
      | none => simp [found] at moves
      | some deletion =>
          simp only [found, Option.ite_none_right_eq_some,
            Option.map_eq_some_iff] at moves
          obtain ⟨inside, disk, removed, rfl⟩ := moves
          exact .removes index location deletion disk found inside removed
  | endDeletion index failure =>
      simp only [step] at moves
      cases found : manager.deletions[index]? with
      | none => simp [found] at moves
      | some deletion =>
          simp only [found, Option.ite_none_left_eq_some,
            Option.some.injEq] at moves
          exact moves.2 ▸ .ends index failure deletion found
  | restart seen =>
      simp only [step, Option.some.injEq] at moves
      exact moves ▸ .restarts seen

/-- Every job after a step was there before, is new, or has been moved on by
its worker. -/
theorem mem_jobs_of_step {parse : String → Option Url}
    {manager next : DownloadManager} {action : DownloadAction}
    (moves : manager.step parse action = some next) {job : DownloadJob}
    (member : job ∈ next.jobs) :
    job ∈ manager.jobs ∨
      (∃ name source, action = .request name source ∧
        job = ⟨.new name source, .waiting⟩) ∨
      ∃ before ∈ manager.jobs, ∃ event effect,
        WorkerStep parse manager.workingDir manager.cacheDir before
          manager.disk event effect ∧ job = effect.job := by
  cases managerStep_of_step moves with
  | requests name source =>
      rcases List.mem_append.mp member with old | new
      · exact Or.inl old
      · exact Or.inr (Or.inl ⟨name, source, rfl, List.mem_singleton.mp new⟩)
  | works index event before effect found workerMoves =>
      rcases List.mem_or_eq_of_mem_set member with old | rfl
      · exact Or.inl old
      · exact Or.inr (Or.inr ⟨before, List.mem_of_getElem? found, event,
          effect, workerMoves, rfl⟩)
  | settles => exact Or.inl member
  | reads => exact Or.inl member
  | deletes name =>
      rw [deleteModel_jobs] at member
      exact Or.inl member
  | removes => exact Or.inl member
  | ends => exact Or.inl member
  | restarts => simp [restarted] at member

end DownloadManager

end TorchInference
