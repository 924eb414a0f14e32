import TorchInference.DownloadDirectories
import TorchInference.DownloadTransfers

/-!
# Completed downloads are complete

A completed repository download should hold every listed file with the bytes
that were served, and a restart, which rebuilds the table of models from the
directories it finds, should list no download that did not complete.  The code
keeps neither promise: an answer that is no success is only logged, the last
write of a file is not waited for, and an unfinished download leaves its
directory behind.  In runs without these the promises hold.
-/

namespace TorchInference

open TransitionRuns UnixPath FileTree DownloadJob

/-- A listed file of a completed download, with the body served for it. -/
structure FilePromise where
  name : String
  directory : Location
  location : Location
  body : Option (List UInt8)

/-- A manager with what its past promises: the files of each job, the names
requested so far, the downloads that made their directory, those that were
completed, and the files these should hold. -/
structure RecordedDownloads where
  manager : DownloadManager
  ledgers : List TransferLedger
  lost : List Location
  requested : List String
  created : List String
  completed : List String
  promises : List FilePromise

namespace RecordedDownloads

def start (manager : DownloadManager) : RecordedDownloads where
  manager := manager
  ledgers := []
  lost := []
  requested := []
  created := []
  completed := []
  promises := []

def store (recorded : RecordedDownloads) : FileStore where
  disk := recorded.manager.disk
  dropped := recorded.manager.dropped
  lost := recorded.lost

/-- The body delivered for a path. -/
def deliveredBody (ledger : TransferLedger) (path : String) :
    Option (List UInt8) :=
  match ledger.ended.lookup path with
  | some (.delivered body) => some body
  | _ => none

/-- What a job promises when it is completed. -/
def promisesOf (manager : DownloadManager) (job : DownloadJob)
    (ledger : TransferLedger) : List FilePromise :=
  ledger.listed.map fun path =>
    { name := job.task.modelName
      directory := job.modelLocation manager.workingDir manager.cacheDir
      location :=
        job.fileLocation manager.workingDir manager.cacheDir path
      body := deliveredBody ledger path }

def isCompletion : WorkerEvent → Bool
  | .writeCompleted => true
  | _ => false

/-- The record of a step of one worker. -/
def recordWorker (recorded : RecordedDownloads) (next : DownloadManager)
    (index : Nat) (event : WorkerEvent) (job after : DownloadJob)
    (ledger : TransferLedger) : RecordedDownloads :=
  let location := job.modelLocation next.workingDir next.cacheDir
  { manager := next
    ledgers := recorded.ledgers.set index
      (ledger.after next.cacheDir job event after.stage)
    lost := recorded.lost ++
      TransferLedger.lostBy (activeTransfers job.stage) event
    requested := recorded.requested
    created :=
      if location ∉ recorded.manager.disk ∧ location ∈ next.disk then
        job.task.modelName :: recorded.created
      else recorded.created
    completed :=
      if isCompletion event then job.task.modelName :: recorded.completed
      else recorded.completed
    promises :=
      if isCompletion event then
        promisesOf next job ledger ++ recorded.promises
      else recorded.promises }

def record (recorded : RecordedDownloads) (next : DownloadManager) :
    DownloadAction → RecordedDownloads
  | .request name _ =>
      { recorded with
        manager := next
        ledgers := recorded.ledgers ++ [.empty]
        requested := name :: recorded.requested }
  | .worker index event =>
      match recorded.manager.jobs[index]?, next.jobs[index]?,
          recorded.ledgers[index]? with
      | some job, some after, some ledger =>
          recorded.recordWorker next index event job after ledger
      | _, _, _ => { recorded with manager := next }
  | .settleDropped index failure =>
      match recorded.manager.dropped[index]? with
      | some file =>
          { recorded with
            manager := next
            lost := recorded.lost ++
              if failure.isSome then [file.location] else [] }
      | none => { recorded with manager := next }
  | .restart _ => { recorded with manager := next, ledgers := [] }
  | _ => { recorded with manager := next }

def step (parse : String → Option Url) (recorded : RecordedDownloads)
    (action : DownloadAction) : Option RecordedDownloads :=
  (recorded.manager.step parse action).map fun next =>
    recorded.record next action

/-- Completed downloads hold what they promised, and no model is listed whose
directory was made by a download that did not complete. -/
structure CompletedWhole (recorded : RecordedDownloads) : Prop where
  files : ∀ promise ∈ recorded.promises,
    promise.directory <+: promise.location ∧ ∃ body,
      promise.body = some body ∧
        contentAt recorded.manager.disk promise.location = some body
  models : ∀ name ∈ recorded.created,
    (recorded.manager.getModel name).isSome → name ∈ recorded.completed

/-- Nothing was refused for a job that is about to be completed, and none of
its files has its last write outstanding or lost. -/
def EndedWell (recorded : RecordedDownloads) (job : DownloadJob)
    (ledger : TransferLedger) : Prop :=
  (∀ entry ∈ ledger.ended, entry.2 ≠ .refused) ∧
    (∀ file ∈ recorded.manager.dropped,
      ¬ job.modelLocation recorded.manager.workingDir
        recorded.manager.cacheDir <+: file.location) ∧
    ∀ location ∈ recorded.lost,
      ¬ job.modelLocation recorded.manager.workingDir
        recorded.manager.cacheDir <+: location

/-- The listed paths address different files, and a download is completed
only when its files ended well. -/
def WorkerSound (recorded : RecordedDownloads) (index : Nat) :
    WorkerEvent → Prop
  | .listReply _ (.ok files) =>
      ∀ job ∈ recorded.manager.jobs[index]?,
        ((filesToDownload files).map (job.fileLocation
          recorded.manager.workingDir recorded.manager.cacheDir)).Nodup
  | .writeCompleted =>
      ∀ job ∈ recorded.manager.jobs[index]?,
        ∀ ledger ∈ recorded.ledgers[index]?,
          recorded.EndedWell job ledger
  | _ => True

/-- Downloads have plain names that differ from each other, none is deleted,
and the process restarts only when every download that made its directory has
completed. -/
def SoundRun (recorded : RecordedDownloads) : DownloadAction → Prop
  | .request name _ =>
      IsPlain name.toList ∧ name ∉ recorded.requested
  | .worker index event => recorded.WorkerSound index event
  | .deleteModel _ => False
  | .restart _ => ∀ name ∈ recorded.created, name ∈ recorded.completed
  | _ => True

instance (recorded : RecordedDownloads) (job : DownloadJob)
    (ledger : TransferLedger) : Decidable (recorded.EndedWell job ledger) :=
  inferInstanceAs (Decidable (_ ∧ _ ∧ _))

instance (recorded : RecordedDownloads) (index : Nat) :
    ∀ event, Decidable (recorded.WorkerSound index event)
  | .listReply _ (.ok files) => inferInstanceAs
      (Decidable (∀ job ∈ recorded.manager.jobs[index]?,
        ((filesToDownload files).map (job.fileLocation
          recorded.manager.workingDir recorded.manager.cacheDir)).Nodup))
  | .writeCompleted => inferInstanceAs
      (Decidable (∀ job ∈ recorded.manager.jobs[index]?,
        ∀ ledger ∈ recorded.ledgers[index]?,
          recorded.EndedWell job ledger))
  | .listReply _ (.error _) | .acquire | .makeModelDir _ | .infoReply _ _
  | .startFile _ | .fileReply _ _ _ | .urlReply _ _ | .chunk _ _
  | .streamError _ _ | .endOfStream _ | .settle _ _ | .finishTransfers
  | .measured _ | .register | .reportError =>
      inferInstanceAs (Decidable True)

instance (recorded : RecordedDownloads) :
    ∀ action, Decidable (recorded.SoundRun action)
  | .request name _ => inferInstanceAs
      (Decidable (IsPlain name.toList ∧ name ∉ recorded.requested))
  | .worker index event =>
      inferInstanceAs (Decidable (recorded.WorkerSound index event))
  | .deleteModel _ => inferInstanceAs (Decidable False)
  | .restart _ => inferInstanceAs
      (Decidable (∀ name ∈ recorded.created, name ∈ recorded.completed))
  | .settleDropped _ _ | .readStatus _ | .removeEntry _ _
  | .endDeletion _ _ => inferInstanceAs (Decidable True)

/-! ## The invariant -/

variable {recorded : RecordedDownloads}

/-- A promise that is kept and that no download can break any more. -/
structure Kept (recorded : RecordedDownloads) (promise : FilePromise) :
    Prop where
  requested : promise.name ∈ recorded.requested
  plain : ∃ plain : IsPlain promise.name.toList, promise.directory =
    recorded.manager.cacheLocation ++ [⟨promise.name.toList, plain⟩]
  under : promise.directory <+: promise.location
  content : ∃ body, promise.body = some body ∧
    contentAt recorded.manager.disk promise.location = some body
  isOver : ∀ job ∈ recorded.manager.jobs,
    job.task.modelName = promise.name →
      job.stage.phase ≠ .waiting ∧ job.stage.phase ≠ .working
  quiet : ∀ file ∈ recorded.manager.dropped,
    ¬ promise.directory <+: file.location

structure Inv (recorded : RecordedDownloads) : Prop where
  length : recorded.ledgers.length = recorded.manager.jobs.length
  plain : ∀ job ∈ recorded.manager.jobs, IsPlain job.task.modelName.toList
  requested : ∀ job ∈ recorded.manager.jobs,
    job.task.modelName ∈ recorded.requested
  distinct : (recorded.manager.jobs.map fun job =>
    job.task.modelName).Nodup
  accounts : ∀ (index : Nat) (job : DownloadJob) (ledger : TransferLedger),
    recorded.manager.jobs[index]? = some job →
      recorded.ledgers[index]? = some ledger →
        Accounts
          (job.modelLocation recorded.manager.workingDir
            recorded.manager.cacheDir)
          (job.fileLocation recorded.manager.workingDir
            recorded.manager.cacheDir)
          recorded.store ledger job.stage
  droppedIn : ∀ file ∈ recorded.manager.dropped,
    ∃ job ∈ recorded.manager.jobs,
      job.modelLocation recorded.manager.workingDir
        recorded.manager.cacheDir <+: file.location
  droppedNodup : (recorded.manager.dropped.map OpenFile.location).Nodup
  completing : ∀ job ∈ recorded.manager.jobs,
    job.stage.phase = .completing → job.task.modelName ∈ recorded.completed
  kept : ∀ promise ∈ recorded.promises, Kept recorded promise
  known : ∀ name, (recorded.manager.getModel name).isSome →
    name ∈ recorded.completed ∨ ∃ plain : IsPlain name.toList,
      recorded.manager.cacheLocation ++ [⟨name.toList, plain⟩] ∈
        recorded.manager.disk
  models : ∀ name ∈ recorded.created,
    (recorded.manager.getModel name).isSome → name ∈ recorded.completed
  undeleted : recorded.manager.deletions = []

theorem Inv.completedWhole (inv : recorded.Inv) :
    recorded.CompletedWhole where
  files promise member :=
    ⟨(inv.kept promise member).under, (inv.kept promise member).content⟩
  models := inv.models

theorem inv_start {manager : DownloadManager} (jobs : manager.jobs = [])
    (models : manager.models = ∅) (dropped : manager.dropped = [])
    (deletions : manager.deletions = []) : (start manager).Inv where
  length := by simp [start, jobs]
  plain := by simp [start, jobs]
  requested := by simp [start, jobs]
  distinct := by simp [start, jobs]
  accounts := by simp [start, jobs]
  droppedIn := by simp [start, dropped]
  droppedNodup := by simp [start, dropped]
  completing := by simp [start, jobs]
  kept := by simp [start]
  known name listed := by
    simp [start, DownloadManager.getModel, models] at listed
  models := by simp [start]
  undeleted := deletions

/-- Two jobs of one name are one job. -/
theorem Inv.index_eq (inv : recorded.Inv) {index other : Nat}
    {job otherJob : DownloadJob}
    (found : recorded.manager.jobs[index]? = some job)
    (otherFound : recorded.manager.jobs[other]? = some otherJob)
    (same : job.task.modelName = otherJob.task.modelName) :
    index = other := by
  obtain ⟨bound, -⟩ := List.getElem?_eq_some_iff.mp found
  refine (List.getElem?_inj ?_ inv.distinct).mp ?_
  · rwa [List.length_map]
  · rw [List.getElem?_map, List.getElem?_map, found, otherFound,
      Option.map_some, Option.map_some, same]

/-! ## Steps that leave the files alone -/

/-- A new download has a directory of its own. -/
theorem Inv.request (inv : recorded.Inv) {name : String}
    (plain : IsPlain name.toList) (unused : name ∉ recorded.requested)
    (source : ModelSource) :
    Inv { recorded with
      manager := { recorded.manager with
        jobs := recorded.manager.jobs ++ [⟨.new name source, .waiting⟩] }
      ledgers := recorded.ledgers ++ [.empty]
      requested := name :: recorded.requested } := by
  have memCases {job : DownloadJob} (member : job ∈
      recorded.manager.jobs ++ [⟨.new name source, .waiting⟩]) :
      job ∈ recorded.manager.jobs ∨ job = ⟨.new name source, .waiting⟩ :=
    (List.mem_append.mp member).imp_right List.mem_singleton.mp
  have clear : ∀ file ∈ recorded.manager.dropped,
      ¬ (DownloadJob.mk (.new name source) .waiting).modelLocation
        recorded.manager.workingDir recorded.manager.cacheDir <+:
          file.location := by
    intro file member
    obtain ⟨job, jobMember, inside⟩ := inv.droppedIn file member
    apply modelLocation_apart (inv.plain job jobMember) plain _ inside
    rintro rfl
    exact unused (inv.requested job jobMember)
  refine { inv with
    length := by simp [inv.length]
    plain := ?_, requested := ?_, distinct := ?_, accounts := ?_
    droppedIn := ?_, completing := ?_, kept := ?_ }
  · intro job member
    rcases memCases member with old | rfl
    · exact inv.plain job old
    · exact plain
  · intro job member
    rcases memCases member with old | rfl
    · exact List.mem_cons_of_mem _ (inv.requested job old)
    · exact List.mem_cons_self
  · rw [List.map_append]
    apply List.nodup_append.mpr
    refine ⟨inv.distinct, by simp, ?_⟩
    intro old oldMember new newMember same
    obtain ⟨job, member, rfl⟩ := List.mem_map.mp oldMember
    have isNew : new = name := List.mem_singleton.mp newMember
    exact unused (isNew ▸ same ▸ inv.requested job member)
  · intro index job ledger found ledgerFound
    rcases getElem?_concat_cases found with old | ⟨beyond, rfl⟩
    · have bound : index < recorded.ledgers.length := by
        rw [inv.length]
        exact (List.getElem?_eq_some_iff.mp old).1
      rw [List.getElem?_append_left bound] at ledgerFound
      exact inv.accounts index job ledger old ledgerFound
    · have isEmpty : ledger = .empty := by
        rcases getElem?_concat_cases ledgerFound with old | ⟨-, empty⟩
        · have bound := (List.getElem?_eq_some_iff.mp old).1
          rw [inv.length] at bound
          omega
        · exact empty
      exact ⟨isEmpty, clear⟩
  · intro file member
    obtain ⟨job, jobMember, inside⟩ := inv.droppedIn file member
    exact ⟨job, List.mem_append_left _ jobMember, inside⟩
  · intro job member completing
    rcases memCases member with old | rfl
    · exact inv.completing job old completing
    · cases completing
  · intro promise member
    have kept := inv.kept promise member
    refine { kept with
      requested := List.mem_cons_of_mem _ kept.requested
      isOver := ?_ }
    intro job jobMember sameName
    rcases memCases jobMember with old | rfl
    · exact kept.isOver job old sameName
    · have sameNames : name = promise.name := sameName
      exact absurd (sameNames ▸ kept.requested) unused

/-- The end of an outstanding write concerns no promise. -/
theorem Inv.settleDropped (inv : recorded.Inv) {index : Nat}
    {file : OpenFile}
    (found : recorded.manager.dropped[index]? = some file)
    (failure : Option (Nat × String)) :
    Inv { recorded with
      manager := { recorded.manager with
        dropped := recorded.manager.dropped.eraseIdx index
        disk := (file.settle failure recorded.manager.disk).2 }
      lost := recorded.lost ++
        if failure.isSome then [file.location] else [] } := by
  have still {other : OpenFile} (member : other ∈
      recorded.manager.dropped.eraseIdx index) :
      other ∈ recorded.manager.dropped := List.mem_of_mem_eraseIdx member
  refine { inv with
    accounts := ?_, droppedIn := ?_, droppedNodup := ?_, kept := ?_
    known := ?_ }
  · intro position job ledger jobFound ledgerFound
    exact (inv.accounts position job ledger jobFound ledgerFound).settleDropped
      found inv.droppedNodup failure
  · intro other member
    exact inv.droppedIn other (still member)
  · exact inv.droppedNodup.sublist
      ((List.eraseIdx_sublist _ _).map OpenFile.location)
  · intro promise member
    have kept := inv.kept promise member
    have elsewhere : promise.location ≠ file.location := by
      intro same
      exact kept.quiet file (List.mem_of_getElem? found)
        (same ▸ kept.under)
    refine { kept with
      content := ?_
      quiet := fun other member => kept.quiet other (still member) }
    obtain ⟨body, promised, content⟩ := kept.content
    refine ⟨body, promised, ?_⟩
    rw [← content]
    cases failure with
    | none => exact contentAt_write_of_ne elsewhere _ _ _
    | some failed => exact contentAt_write_of_ne elsewhere _ _ _
  · intro name listed
    rcases inv.known name listed with completed | ⟨plain, present⟩
    · exact Or.inl completed
    · exact Or.inr ⟨plain, mem_settle present⟩

/-! ## Steps of workers -/

section Worker

variable {parse : String → Option Url} {index : Nat} {event : WorkerEvent}
  {job : DownloadJob} {effect : WorkerEffect} {ledger : TransferLedger}

/-- Past its transfers a worker writes nothing. -/
theorem idle_of_late {workingDir : Location} {cacheDir : List Char}
    {disk : Tree}
    (moves : WorkerStep parse workingDir cacheDir job disk event effect)
    (late : job.stage.phase ≠ .waiting ∧ job.stage.phase ≠ .working) :
    effect.disk = disk ∧ effect.dropped = [] := by
  cases moves with
  | acquires stage => exact absurd (by rw [stage]; rfl) late.1
  | missesDir made error after stage =>
      exact absurd (by rw [stage]; rfl) late.2
  | makesDir after stage => exact absurd (by rw [stage]; rfl) late.2
  | readsInfo repoId reply json stage =>
      exact absurd (by rw [stage]; rfl) late.2
  | readsList reply json stage => exact absurd (by rw [stage]; rfl) late.2
  | refusesUrl url parsed reply createFailure error stage =>
      exact absurd (by rw [stage]; rfl) late.2
  | opensUrl url parsed status contentLength after stage =>
      exact absurd (by rw [stage]; rfl) late.2
  | transfers queued active results event effect stage =>
      exact absurd (by rw [stage]; rfl) late.2
  | completes stage => exact absurd (by rw [stage]; rfl) late.2
  | measures => exact ⟨rfl, rfl⟩
  | registers => exact ⟨rfl, rfl⟩
  | reports => exact ⟨rfl, rfl⟩

theorem writeCompleted_step {workingDir : Location} {cacheDir : List Char}
    {disk : Tree}
    (moves : WorkerStep parse workingDir cacheDir job disk .writeCompleted
      effect) :
    job.stage = .fetched ∧ effect =
      (job.updateTaskStatus .completed).moved .measuring disk := by
  cases moves with
  | completes stage => exact ⟨stage, rfl⟩
  | transfers queued active results event effect stage moves => cases moves

theorem mem_completed_recordWorker {name : String}
    (member : name ∈ recorded.completed) :
    name ∈ (recorded.recordWorker (recorded.manager.apply index effect)
      index event job effect.job ledger).completed := by
  simp only [recordWorker]
  split
  · exact List.mem_cons_of_mem _ member
  · exact member

/-- A late worker stays late. -/
theorem late_of_late (step : LifecycleStep job event effect)
    (late : job.stage.phase ≠ .waiting ∧ job.stage.phase ≠ .working) :
    effect.job.stage.phase ≠ .waiting ∧
      effect.job.stage.phase ≠ .working := by
  cases step with
  | begins before => exact absurd before late.1
  | works before => exact absurd before late.2
  | givesUp before => exact absurd before late.2
  | completes written before => exact absurd before late.2
  | measures size isWalk before after => rw [after]; decide
  | walkFails error isWalk before after => rw [after]; decide
  | registers info before after => rw [after]; decide
  | fails before after => rw [after]; decide

/-- The files of the other jobs are as they were. -/
theorem sameOn_of_staysInside {directory other : Location}
    {store : FileStore} (inside : StaysInside directory store effect)
    (apart : ∀ location, other <+: location → ¬ directory <+: location)
    (active : List ActiveTransfer) (event : WorkerEvent) :
    SameOn (other <+: ·) store (store.after active event effect) where
  content location under := inside.content location (apart location under)
  dropped file under := by
    constructor
    · intro member
      rcases List.mem_append.mp member with old | new
      · exact old
      · exact absurd (inside.drops.under file new)
          (apart _ under)
    · exact List.mem_append_left _
  lost _ _ := List.mem_append_left _

theorem lookup_of_mem {Value : Type*} {entries : List (String × Value)}
    {key : String} {value : Value} (member : (key, value) ∈ entries)
    (nodup : (entries.map Prod.fst).Nodup) :
    entries.lookup key = some value := by
  induction entries with
  | nil => cases member
  | cons entry entries ih =>
      obtain ⟨other, otherValue⟩ := entry
      rw [List.map_cons, List.nodup_cons] at nodup
      rcases List.mem_cons.mp member with same | later
      · cases same
        simp
      · have different : key ≠ other := by
          rintro rfl
          exact nodup.1 (List.mem_map.mpr ⟨_, later, rfl⟩)
        rw [List.lookup_cons, beq_eq_false_iff_ne.mpr different]
        exact ih later nodup.2

/-- When a download is completed and its files ended well, each listed file
is on disk with the body that was delivered. -/
theorem listed_on_disk {directory : Location} {place : String → Location}
    {store : FileStore}
    (account : Accounts directory place store ledger .fetched)
    (notRefused : ∀ entry ∈ ledger.ended, entry.2 ≠ .refused)
    (settled : ∀ file ∈ store.dropped, ¬ directory <+: file.location)
    (stored : ∀ location ∈ store.lost, ¬ directory <+: location)
    {path : String} (listed : path ∈ ledger.listed) :
    directory <+: place path ∧ ∃ body,
      deliveredBody ledger path = some body ∧
        contentAt store.disk (place path) = some body := by
  obtain ⟨results, noError, transferring⟩ := account
  have under := transferring.under path listed
  have ended : path ∈ ledger.ended.map Prod.fst := by
    have member := transferring.accounted.mem_iff.mpr listed
    simpa using member
  obtain ⟨entry, member, rfl⟩ := List.mem_map.mp ended
  obtain ⟨path, fileEnd⟩ := entry
  cases fileEnd with
  | refused => exact absurd rfl (notRefused _ member)
  | failed =>
      have failure := transferring.errors path member
      rw [noError] at failure
      cases failure
  | delivered body =>
      have nodup : (ledger.ended.map Prod.fst).Nodup := by
        have all := transferring.paths_nodup
        simpa using all
      refine ⟨under, body, ?_, ?_⟩
      · rw [deliveredBody, lookup_of_mem member nodup]
      · rcases transferring.delivered path body member with
          lost | ⟨content, -⟩ | ⟨file, dropped, writing, -, -⟩
        · exact absurd under (stored _ lost)
        · exact content
        · exact absurd (writing.atLocation ▸ under)
            (settled file dropped)

section Step

variable (inv : recorded.Inv)
  (found : recorded.manager.jobs[index]? = some job)
  (ledgerFound : recorded.ledgers[index]? = some ledger)
  (moves : WorkerStep parse recorded.manager.workingDir
    recorded.manager.cacheDir job recorded.manager.disk event effect)

include inv found

theorem mem_jobs_apply {other : DownloadJob}
    (member : other ∈ (recorded.manager.apply index effect).jobs) :
    other = effect.job ∨ other ∈ recorded.manager.jobs ∧
      other.task.modelName ≠ job.task.modelName := by
  obtain ⟨position, atPosition⟩ := List.getElem?_of_mem member
  by_cases own : position = index
  · subst own
    rw [DownloadManager.apply_jobs_self found,
      Option.some.injEq] at atPosition
    exact Or.inl atPosition.symm
  · rw [DownloadManager.apply_jobs_of_ne _ own] at atPosition
    refine Or.inr ⟨List.mem_of_getElem? atPosition, fun same => ?_⟩
    exact own (inv.index_eq atPosition found same)

theorem plain_of_found : IsPlain job.task.modelName.toList :=
  inv.plain job (List.mem_of_getElem? found)

include moves

/-- A model that is listed after the step was listed before, or its download
is completed. -/
theorem listed_of_apply {name : String}
    (listed : ((recorded.manager.apply index effect).getModel
      name).isSome) :
    (recorded.manager.getModel name).isSome ∨
      name ∈ recorded.completed := by
  cases registered : effect.registered with
  | none =>
      rw [DownloadManager.getModel_apply_of_none _ _ registered] at listed
      exact Or.inl listed
  | some info =>
      rw [DownloadManager.getModel_apply_of_some _ _ registered] at listed
      by_cases same : name = info.name
      · right
        have completing := moves.lifecycle.of_registered registered
        rw [same, completing.2]
        exact inv.completing job (List.mem_of_getElem? found) completing.1
      · rw [if_neg same] at listed
        exact Or.inl listed

/-- A download that is completing has been noted as completed. -/
theorem completing_apply (completing : effect.job.stage.phase = .completing) :
    job.task.modelName ∈
      (recorded.recordWorker (recorded.manager.apply index effect) index
        event job effect.job ledger).completed := by
  cases moves.lifecycle with
  | completes written => subst written; exact List.mem_cons_self
  | measures size isWalk before =>
      exact mem_completed_recordWorker
        (inv.completing job (List.mem_of_getElem? found) before)
  | begins before after => rw [after] at completing; cases completing
  | works before after => rw [after] at completing; cases completing
  | givesUp before after => rw [after] at completing; cases completing
  | walkFails error isWalk before after =>
      rw [after] at completing
      cases completing
  | registers info before after => rw [after] at completing; cases completing
  | fails before after => rw [after] at completing; cases completing

include ledgerFound

theorem staysInside_of_inv :
    StaysInside
      (job.modelLocation recorded.manager.workingDir
        recorded.manager.cacheDir) recorded.store effect :=
  staysInside_of_workerStep
    (inv.accounts index job ledger found ledgerFound) moves

/-- What one worker does leaves the other directories as they are. -/
theorem sameOn_of_other {other : DownloadJob}
    (plain : IsPlain other.task.modelName.toList)
    (different : other.task.modelName ≠ job.task.modelName) :
    SameOn (other.modelLocation recorded.manager.workingDir
        recorded.manager.cacheDir <+: ·) recorded.store
      (recorded.store.after (activeTransfers job.stage) event effect) :=
  sameOn_of_staysInside (staysInside_of_inv inv found ledgerFound moves)
    (fun _ inside => modelLocation_apart plain (plain_of_found inv found)
      different inside) _ _

/-- Every account is kept by a step of a worker. -/
theorem accounts_recordWorker
    (sound : recorded.WorkerSound index event) (position : Nat)
    (task : DownloadJob) (account : TransferLedger)
    (taskFound : (recorded.manager.apply index effect).jobs[position]? =
      some task)
    (accountFound : (recorded.ledgers.set index (ledger.after
      recorded.manager.cacheDir job event effect.job.stage))[position]? =
        some account) :
    Accounts
      (task.modelLocation recorded.manager.workingDir
        recorded.manager.cacheDir)
      (task.fileLocation recorded.manager.workingDir
        recorded.manager.cacheDir)
      (recorded.store.after (activeTransfers job.stage) event effect)
      account task.stage := by
  have sameName := moves.keepsName.1
  by_cases own : position = index
  · subst own
    have bound := (List.getElem?_eq_some_iff.mp ledgerFound).1
    rw [DownloadManager.apply_jobs_self found,
      Option.some.injEq] at taskFound
    rw [List.getElem?_set_self bound, Option.some.injEq] at accountFound
    subst taskFound
    subst accountFound
    rw [modelLocation_congr sameName, fileLocation_congr sameName]
    apply accounts_of_workerStep
      (inv.accounts position job ledger found ledgerFound) moves
    rintro reply files rfl
    exact sound job found
  · rw [DownloadManager.apply_jobs_of_ne _ own] at taskFound
    rw [List.getElem?_set_ne (Ne.symm own)] at accountFound
    apply (inv.accounts position task account taskFound
      accountFound).of_sameOn
    apply sameOn_of_other inv found ledgerFound moves
      (inv.plain task (List.mem_of_getElem? taskFound))
    intro same
    exact own (inv.index_eq taskFound found same)

/-- A promise made earlier is not touched by a worker. -/
theorem content_of_kept {promise : FilePromise}
    (kept : Kept recorded promise) :
    (∃ body, promise.body = some body ∧
      contentAt effect.disk promise.location = some body) ∧
      ∀ file ∈ recorded.manager.dropped ++ effect.dropped,
        ¬ promise.directory <+: file.location := by
  obtain ⟨body, promised, content⟩ := kept.content
  by_cases same : job.task.modelName = promise.name
  · obtain ⟨sameDisk, noneDropped⟩ := idle_of_late moves
      (kept.isOver job (List.mem_of_getElem? found) same)
    refine ⟨⟨body, promised, sameDisk ▸ content⟩, ?_⟩
    rw [noneDropped, List.append_nil]
    exact kept.quiet
  · have inside := staysInside_of_inv inv found ledgerFound moves
    obtain ⟨plain, directory⟩ := kept.plain
    have apart : ∀ location, promise.directory <+: location →
        ¬ job.modelLocation recorded.manager.workingDir
          recorded.manager.cacheDir <+: location := by
      intro location under
      rw [directory] at under
      rw [modelLocation_of_isPlain (plain_of_found inv found)]
      apply not_prefix_of_ne _ under
      intro sameFile
      exact same (String.toList_injective
        (congrArg FileName.text sameFile)).symm
    refine ⟨⟨body, promised, ?_⟩, ?_⟩
    · exact (inside.content promise.location
        (apart _ kept.under)).trans content
    · intro file member under
      rcases List.mem_append.mp member with old | new
      · exact kept.quiet file old under
      · exact apart _ under (inside.drops.under file new)

/-- A completion promises what is on disk. -/
theorem kept_of_completion (sound : recorded.WorkerSound index event)
    (written : isCompletion event = true) (promise : FilePromise)
    (member : promise ∈
      promisesOf (recorded.manager.apply index effect) job ledger) :
    Kept (recorded.recordWorker (recorded.manager.apply index effect) index
      event job effect.job ledger) promise := by
  have isCompleted : event = .writeCompleted := by
    cases event <;> first | rfl | cases written
  subst isCompleted
  obtain ⟨stage, rfl⟩ := writeCompleted_step moves
  obtain ⟨notRefused, settled, stored⟩ := sound job found ledger ledgerFound
  have account := inv.accounts index job ledger found ledgerFound
  rw [stage] at account
  obtain ⟨path, listed, rfl⟩ := List.mem_map.mp member
  obtain ⟨under, onDisk⟩ :=
    listed_on_disk account notRefused settled stored listed
  exact {
    requested := inv.requested job (List.mem_of_getElem? found)
    plain := ⟨plain_of_found inv found, modelLocation_of_isPlain _⟩
    under := under
    content := onDisk
    isOver := by
      intro other otherMember sameName
      rcases mem_jobs_apply inv found otherMember with rfl | ⟨-, different⟩
      · exact ⟨nofun, nofun⟩
      · exact absurd sameName different
    quiet := by
      intro file fileMember
      apply settled file
      simpa [recordWorker, DownloadManager.apply] using fileMember }

/-- Promises made earlier stay kept. -/
theorem kept_recordWorker {promise : FilePromise}
    (kept : Kept recorded promise) :
    Kept (recorded.recordWorker (recorded.manager.apply index effect) index
      event job effect.job ledger) promise where
  requested := kept.requested
  plain := kept.plain
  under := kept.under
  content := (content_of_kept inv found ledgerFound moves kept).1
  quiet := (content_of_kept inv found ledgerFound moves kept).2
  isOver other member sameName := by
    rcases mem_jobs_apply inv found member with rfl | ⟨old, -⟩
    · exact late_of_late moves.lifecycle (kept.isOver job
        (List.mem_of_getElem? found) (moves.keepsName.1 ▸ sameName))
    · exact kept.isOver other old sameName

theorem droppedNodup_apply :
    ((recorded.manager.dropped ++ effect.dropped).map
      OpenFile.location).Nodup := by
  have drops := (staysInside_of_inv inv found ledgerFound moves).drops
  rw [List.map_append]
  apply List.nodup_append.mpr
  refine ⟨inv.droppedNodup, ?_, ?_⟩
  · apply List.Nodup.of_map id
    have short := drops.single
    match effect.dropped, short with
    | [], _ => simp
    | [file], _ => simp
  · intro location member other otherMember same
    obtain ⟨file, fileMember, rfl⟩ := List.mem_map.mp member
    obtain ⟨otherFile, otherFileMember, rfl⟩ := List.mem_map.mp otherMember
    exact drops.fresh otherFile otherFileMember file fileMember same

theorem droppedIn_apply (file : OpenFile)
    (member : file ∈ recorded.manager.dropped ++ effect.dropped) :
    ∃ other ∈ (recorded.manager.apply index effect).jobs,
      other.modelLocation recorded.manager.workingDir
        recorded.manager.cacheDir <+: file.location := by
  have ownInside : effect.job ∈
      (recorded.manager.apply index effect).jobs :=
    List.mem_of_getElem? (DownloadManager.apply_jobs_self found effect)
  have sameDirectory : effect.job.modelLocation recorded.manager.workingDir
      recorded.manager.cacheDir = job.modelLocation
        recorded.manager.workingDir recorded.manager.cacheDir :=
    modelLocation_congr moves.keepsName.1
  rcases List.mem_append.mp member with old | new
  · obtain ⟨other, otherMember, inside⟩ := inv.droppedIn file old
    obtain ⟨position, atPosition⟩ := List.getElem?_of_mem otherMember
    by_cases own : position = index
    · subst own
      rw [found, Option.some.injEq] at atPosition
      exact ⟨effect.job, ownInside, by rw [sameDirectory, atPosition]; exact
        inside⟩
    · have stillThere : (recorded.manager.apply index effect).jobs[
          position]? = some other := by
        rwa [DownloadManager.apply_jobs_of_ne _ own]
      exact ⟨other, List.mem_of_getElem? stillThere, inside⟩
  · refine ⟨effect.job, ownInside, ?_⟩
    rw [sameDirectory]
    exact (staysInside_of_inv inv found ledgerFound moves).drops.under
      file new

end Step

/-- A sound step of a worker keeps the invariant. -/
theorem Inv.worker (inv : recorded.Inv)
    (found : recorded.manager.jobs[index]? = some job)
    (ledgerFound : recorded.ledgers[index]? = some ledger)
    (moves : WorkerStep parse recorded.manager.workingDir
      recorded.manager.cacheDir job recorded.manager.disk event effect)
    (sound : recorded.WorkerSound index event) :
    (recorded.recordWorker (recorded.manager.apply index effect) index event
      job effect.job ledger).Inv := by
  have sameName := moves.keepsName.1
  have member := List.mem_of_getElem? found
  refine ⟨?_, ?_, ?_, ?_,
    accounts_recordWorker inv found ledgerFound moves sound,
    droppedIn_apply inv found ledgerFound moves,
    droppedNodup_apply inv found ledgerFound moves, ?_, ?_, ?_, ?_,
    inv.undeleted⟩
  · simp [recordWorker, DownloadManager.apply, inv.length]
  · intro other otherMember
    rcases mem_jobs_apply inv found otherMember with rfl | ⟨old, -⟩
    · rw [sameName]
      exact inv.plain job member
    · exact inv.plain other old
  · intro other otherMember
    rcases mem_jobs_apply inv found otherMember with rfl | ⟨old, -⟩
    · rw [sameName]
      exact inv.requested job member
    · exact inv.requested other old
  · have sameNames : ((recorded.manager.apply index effect).jobs.map
        fun other => other.task.modelName) =
          recorded.manager.jobs.map fun other => other.task.modelName := by
      obtain ⟨bound, atIndex⟩ := List.getElem?_eq_some_iff.mp found
      have mapBound : index < (recorded.manager.jobs.map
          fun other => other.task.modelName).length := by
        rwa [List.length_map]
      have nameAt : (recorded.manager.jobs.map
          fun other => other.task.modelName)[index] =
            effect.job.task.modelName := by
        rw [List.getElem_map, atIndex, sameName]
      rw [DownloadManager.apply_jobs, List.map_set, ← nameAt,
        List.set_getElem_self]
    exact sameNames ▸ inv.distinct
  · intro other otherMember completing
    rcases mem_jobs_apply inv found otherMember with rfl | ⟨old, -⟩
    · rw [sameName]
      exact completing_apply inv found moves completing
    · exact mem_completed_recordWorker (inv.completing other old completing)
  · intro promise promiseMember
    have earlier (old : promise ∈ recorded.promises) :=
      kept_recordWorker inv found ledgerFound moves (inv.kept promise old)
    cases written : isCompletion event with
    | false =>
        rw [recordWorker, written] at promiseMember
        exact earlier promiseMember
    | true =>
        simp only [recordWorker, written, if_true] at promiseMember
        rcases List.mem_append.mp promiseMember with new | old
        · exact kept_of_completion inv found ledgerFound moves sound written
            promise new
        · exact earlier old
  · intro name listed
    rcases listed_of_apply inv found moves listed with before | completed
    · rcases inv.known name before with completed | ⟨plain, present⟩
      · exact Or.inl (mem_completed_recordWorker completed)
      · exact Or.inr ⟨plain, mem_disk_of_workerStep moves present⟩
    · exact Or.inl (mem_completed_recordWorker completed)
  · intro name nameCreated listed
    apply mem_completed_recordWorker
    rcases listed_of_apply inv found moves listed with before | completed
    · simp only [recordWorker] at nameCreated
      split at nameCreated
      case isTrue newlyMade =>
        rcases List.mem_cons.mp nameCreated with rfl | old
        · rcases inv.known _ before with completed | ⟨plain, present⟩
          · exact completed
          · rw [modelLocation_of_isPlain plain] at newlyMade
            exact absurd present newlyMade.1
        · exact inv.models name old before
      case isFalse => exact inv.models name nameCreated before
    · exact completed

end Worker

/-! ## Restarts and runs -/

theorem Inv.restart (inv : recorded.Inv) (seen : List String)
    (finished : ∀ name ∈ recorded.created, name ∈ recorded.completed) :
    Inv { recorded with
      manager := recorded.manager.restarted seen
      ledgers := [] } := by
  have disk := DownloadManager.restarted_disk recorded.manager seen
  refine ⟨rfl, by simp [DownloadManager.restarted],
    by simp [DownloadManager.restarted], by simp [DownloadManager.restarted],
    by simp, by simp [DownloadManager.restarted],
    by simp [DownloadManager.restarted], by simp [DownloadManager.restarted],
    ?_, ?_, fun name created _ => finished name created, rfl⟩
  · intro promise member
    have kept := inv.kept promise member
    exact {
      requested := kept.requested
      plain := kept.plain
      under := kept.under
      content := by
        obtain ⟨body, promised, content⟩ := kept.content
        exact ⟨body, promised, (disk.1 promise.location).trans content⟩
      isOver := by simp [DownloadManager.restarted]
      quiet := by simp [DownloadManager.restarted] }
  · intro name listed
    exact Or.inr (DownloadManager.directory_of_restarted listed)

/-- One sound step keeps the invariant. -/
theorem Inv.step {parse : String → Option Url} (inv : recorded.Inv)
    {action : DownloadAction} {next : RecordedDownloads}
    (sound : recorded.SoundRun action)
    (moves : recorded.step parse action = some next) : next.Inv := by
  obtain ⟨manager, stepTo, rfl⟩ := Option.map_eq_some_iff.mp moves
  cases DownloadManager.managerStep_of_step stepTo with
  | requests name source => exact inv.request sound.1 sound.2 source
  | works index event job effect found workerMoves =>
      have bound : index < recorded.ledgers.length := by
        rw [inv.length]
        exact (List.getElem?_eq_some_iff.mp found).1
      have ledgerFound := List.getElem?_eq_getElem bound
      simp only [record, found, ledgerFound,
        DownloadManager.apply_jobs_self found]
      exact inv.worker found ledgerFound workerMoves sound
  | settles index failure file found =>
      simp only [record, found]
      exact inv.settleDropped found failure
  | reads => exact inv
  | deletes name => exact sound.elim
  | removes index location deletion disk found =>
      simp [inv.undeleted] at found
  | ends index failure deletion found => simp [inv.undeleted] at found
  | restarts seen => exact inv.restart seen sound

/-- In a sound run of a new manager, completed downloads hold every listed
file as it was served, and only completed downloads are listed after a
restart. -/
theorem completedWhole_of_soundRun (parse : String → Option Url)
    (workingDir : Location) (cacheDir : List Char) (disk : Tree)
    (actions : List DownloadAction)
    (sound : Meets (step parse) SoundRun
      (start (.new workingDir cacheDir disk)) actions) :
    ∀ reached ∈ visited (step parse)
      (start (.new workingDir cacheDir disk)) actions,
      reached.CompletedWhole := by
  have invariant := invariant_of_meets
    (fun recorded action next inv sound moves => Inv.step inv sound moves)
    (inv_start rfl rfl rfl rfl) sound
  intro reached member
  exact (invariant reached member).completedWhole

/-- A manager before its first start. -/
def freshManager : DownloadManager :=
  .new [] "/cache".toList ∅

/-- The first steps of a download of a repository with one file. -/
def listOneFile : List DownloadAction :=
  [.restart [],
    .request "bert" (.huggingFace "org/bert" none),
    .worker 0 .acquire,
    .worker 0 (.makeModelDir none),
    .worker 0 (.infoReply (.answered 200 none) (.ok ())),
    .worker 0 (.listReply (.answered 200 none)
      (.ok [.object [("path", .string "w")]])),
    .worker 0 (.startFile none)]

/-- The file is served and written, and the process restarts later. -/
def wholeRun : List DownloadAction :=
  listOneFile ++
    [.worker 0 (.fileReply 0 (.answered 200 none) none),
      .worker 0 (.chunk 0 [7]),
      .worker 0 (.settle 0 none),
      .worker 0 (.endOfStream 0),
      .worker 0 .finishTransfers,
      .worker 0 .writeCompleted,
      .worker 0 (.measured (.ok 1)),
      .worker 0 .register,
      .restart ["bert"]]

theorem wholeRun_completedWhole :
    (run (step fun _ => none) (start freshManager) wholeRun).isSome ∧
      ∀ reached ∈ visited (step fun _ => none) (start freshManager) wholeRun,
        reached.CompletedWhole :=
  ⟨by decide, completedWhole_of_soundRun _ _ _ _ _ (by decide)⟩

/-- The request of the file is answered with 404. -/
def missingFileRun : List DownloadAction :=
  listOneFile ++
    [.worker 0 (.fileReply 0 (.answered 404 none) none),
      .worker 0 .finishTransfers,
      .worker 0 .writeCompleted]

/-- The task completes while the last write of the file is outstanding. -/
def outstandingWriteRun : List DownloadAction :=
  listOneFile ++
    [.worker 0 (.fileReply 0 (.answered 200 none) none),
      .worker 0 (.chunk 0 [7]),
      .worker 0 (.endOfStream 0),
      .worker 0 .finishTransfers,
      .worker 0 .writeCompleted]

/-- The download fails and the process restarts. -/
def failedDownloadRun : List DownloadAction :=
  listOneFile ++
    [.worker 0 (.fileReply 0 (.failed "connection reset") none),
      .worker 0 .finishTransfers,
      .worker 0 .reportError,
      .restart ["bert"]]

/-- What a run leaves of its promises: the bodies promised, and the files. -/
def promisedAndStored (recorded : RecordedDownloads) :
    List (Option (List UInt8) × Option (List UInt8)) :=
  recorded.promises.map fun promise =>
    (promise.body, contentAt recorded.manager.disk promise.location)

/-- A completed download lacks a file that was refused, another one has not
been written yet, and a failed download is listed after a restart. -/
theorem completed_not_whole :
    (¬ ∀ reached ∈ visited (step fun _ => none) (start freshManager)
        missingFileRun, reached.CompletedWhole) ∧
      (¬ ∀ reached ∈ visited (step fun _ => none) (start freshManager)
        outstandingWriteRun, reached.CompletedWhole) ∧
      ¬ ∀ reached ∈ visited (step fun _ => none) (start freshManager)
        failedDownloadRun, reached.CompletedWhole := by
  have broken {recorded : RecordedDownloads}
      {body stored : Option (List UInt8)}
      (promised : promisedAndStored recorded = [(body, stored)])
      (whole : recorded.CompletedWhole) : body.isSome ∧ body = stored := by
    obtain ⟨promise, rest, promises, same, -⟩ :=
      List.map_eq_cons_iff.mp promised
    obtain ⟨-, bytes, hasBody, content⟩ := whole.files promise
      (promises ▸ List.mem_cons_self)
    rw [hasBody, content] at same
    cases same
    exact ⟨rfl, rfl⟩
  refine ⟨fun whole => ?_, fun whole => ?_, fun whole => ?_⟩
  · have files : (run (step fun _ => none) (start freshManager)
        missingFileRun).map promisedAndStored = some [(none, none)] := by
      decide
    obtain ⟨last, reaches, promised⟩ := Option.map_eq_some_iff.mp files
    exact nomatch (broken promised (whole last (last_mem_visited reaches))).1
  · have files : (run (step fun _ => none) (start freshManager)
        outstandingWriteRun).map promisedAndStored =
          some [(some [7], some [])] := by
      decide
    obtain ⟨last, reaches, promised⟩ := Option.map_eq_some_iff.mp files
    have same := (broken promised (whole last (last_mem_visited reaches))).2
    revert same
    decide
  · have listed : (run (step fun _ => none) (start freshManager)
        failedDownloadRun).map (fun last => (last.created, last.completed,
          (last.manager.getModel "bert").isSome)) =
            some (["bert"], [], true) := by
      decide
    obtain ⟨last, reaches, observed⟩ := Option.map_eq_some_iff.mp listed
    simp only [Prod.mk.injEq] at observed
    obtain ⟨created, completed, isListed⟩ := observed
    have finished := (whole last (last_mem_visited reaches)).models "bert"
      (by simp [created]) isListed
    simp [completed] at finished

end RecordedDownloads

end TorchInference
