import TorchInference.DownloadWorkerSteps
import TorchInference.TransitionRuns

/-!
# The life of a download task

A task is pending, then downloading, then completed or failed.  The worker
writes `Completed` before it measures the directory and before it registers
the model, so an error of the measurement turns a completed task into a failed
one, and a reader of the status can be ahead of the table of models.  In runs
without either, the status a reader sees is final and the model is there.
-/

namespace TorchInference

open TransitionRuns FileTree

/-- An element of a list with one more at its end. -/
theorem getElem?_concat_cases {Element : Type*} {elements : List Element}
    {last element : Element} {index : Nat}
    (found : (elements ++ [last])[index]? = some element) :
    elements[index]? = some element ∨
      elements.length ≤ index ∧ element = last := by
  by_cases bound : index < elements.length
  · rw [List.getElem?_append_left bound] at found
    exact Or.inl found
  · have beyond : elements.length ≤ index := by omega
    rw [List.getElem?_append_right beyond] at found
    have member : element ∈ [last] := List.mem_of_getElem? found
    exact Or.inr ⟨beyond, List.mem_singleton.mp member⟩

/-! ## Phases of a worker -/

inductive WorkerPhase where
  | waiting
  | working
  | completing
  | failing
  | finished
  deriving DecidableEq

def WorkerStage.phase : WorkerStage → WorkerPhase
  | waiting => .waiting
  | measuring | registering _ => .completing
  | failing _ => .failing
  | done => .finished
  | _ => .working

/-- What a step of a worker does to the phase and the status of its job, and
to the table of models. -/
inductive LifecycleStep (job : DownloadJob) (event : WorkerEvent)
    (effect : WorkerEffect) : Prop
  | begins (before : job.stage.phase = .waiting)
      (after : effect.job.stage.phase = .working)
      (status : effect.job.task.status = .downloading)
      (registered : effect.registered = none)
  | works (before : job.stage.phase = .working)
      (after : effect.job.stage.phase = .working)
      (status : effect.job.task.status = job.task.status)
      (registered : effect.registered = none)
  | givesUp (before : job.stage.phase = .working)
      (after : effect.job.stage.phase = .failing)
      (status : effect.job.task.status = job.task.status)
      (registered : effect.registered = none)
  | completes (written : event = .writeCompleted)
      (before : job.stage.phase = .working)
      (after : effect.job.stage.phase = .completing)
      (status : effect.job.task.status = .completed)
      (registered : effect.registered = none)
  | measures (size : Nat) (walked : event = .measured (.ok size))
      (before : job.stage.phase = .completing)
      (after : effect.job.stage.phase = .completing)
      (status : effect.job.task.status = job.task.status)
      (registered : effect.registered = none)
  | walkFails (error : String) (walked : event = .measured (.error error))
      (before : job.stage.phase = .completing)
      (after : effect.job.stage.phase = .failing)
      (status : effect.job.task.status = job.task.status)
      (registered : effect.registered = none)
  | registers (info : ModelInfo) (before : job.stage.phase = .completing)
      (after : effect.job.stage.phase = .finished)
      (status : effect.job.task.status = job.task.status)
      (registered : effect.registered = some info)
      (name : info.name = job.task.modelName)
  | fails (before : job.stage.phase = .failing)
      (after : effect.job.stage.phase = .finished)
      (status : effect.job.task.status = .failed)
      (registered : effect.registered = none)

namespace DownloadJob

/-- Progress changes neither the name, the source nor the status. -/
theorem updateTaskProgress_task (job : DownloadJob) (downloaded : Nat)
    (total : Option Nat) :
    (job.updateTaskProgress downloaded total).task.modelName =
        job.task.modelName ∧
      (job.updateTaskProgress downloaded total).task.source =
        job.task.source ∧
      (job.updateTaskProgress downloaded total).task.status =
        job.task.status := by
  cases total <;> exact ⟨rfl, rfl, rfl⟩

section Steps

variable {parse : String → Option Url} {workingDir : UnixPath.Location}
  {cacheDir : List Char} {job : DownloadJob} {disk : Tree}
  {event : WorkerEvent} {effect : WorkerEffect}

/-- A transfer step keeps the task and registers nothing. -/
theorem TransferStep.keeps {queued : List String}
    {active : List ActiveTransfer} {results : List (Except String Unit)}
    (moves : TransferStep workingDir cacheDir job disk queued active results
      event effect) :
    effect.job.task.modelName = job.task.modelName ∧
      effect.job.task.source = job.task.source ∧
      effect.job.task.status = job.task.status ∧
      effect.registered = none ∧
      (effect.job.stage.phase = .working ∨
        effect.job.stage.phase = .failing) := by
  cases moves with
  | refuses => exact ⟨rfl, rfl, rfl, rfl, Or.inl rfl⟩
  | starts => exact ⟨rfl, rfl, rfl, rfl, Or.inl rfl⟩
  | unanswered => exact ⟨rfl, rfl, rfl, rfl, Or.inl rfl⟩
  | skips => exact ⟨rfl, rfl, rfl, rfl, Or.inl rfl⟩
  | opens => exact ⟨rfl, rfl, rfl, rfl, Or.inl rfl⟩
  | ignores index path file found =>
      obtain ⟨name, source, status⟩ := job.updateTaskProgress_task
        file.received.length file.totalSize
      exact ⟨name, source, status, rfl, Or.inl rfl⟩
  | receives index path file bytes found nonempty settled sound =>
      obtain ⟨name, source, status⟩ := job.updateTaskProgress_task
        (file.received ++ bytes).length file.totalSize
      exact ⟨name, source, status, rfl, Or.inl rfl⟩
  | writeFails => exact ⟨rfl, rfl, rfl, rfl, Or.inl rfl⟩
  | breaksOff => exact ⟨rfl, rfl, rfl, rfl, Or.inl rfl⟩
  | ends => exact ⟨rfl, rfl, rfl, rfl, Or.inl rfl⟩
  | settles => exact ⟨rfl, rfl, rfl, rfl, Or.inl rfl⟩
  | collectsError => exact ⟨rfl, rfl, rfl, rfl, Or.inr rfl⟩
  | collects => exact ⟨rfl, rfl, rfl, rfl, Or.inl rfl⟩

/-- No step changes the name or the source of a task. -/
theorem WorkerStep.keepsName
    (moves : WorkerStep parse workingDir cacheDir job disk event effect) :
    effect.job.task.modelName = job.task.modelName ∧
      effect.job.task.source = job.task.source := by
  cases moves with
  | transfers queued active results event effect stage moves =>
      exact ⟨moves.keeps.1, moves.keeps.2.1⟩
  | acquires => exact ⟨rfl, rfl⟩
  | missesDir => exact ⟨rfl, rfl⟩
  | makesDir => exact ⟨rfl, rfl⟩
  | readsInfo => exact ⟨rfl, rfl⟩
  | readsList => exact ⟨rfl, rfl⟩
  | refusesUrl => exact ⟨rfl, rfl⟩
  | opensUrl => exact ⟨rfl, rfl⟩
  | completes => exact ⟨rfl, rfl⟩
  | measures => exact ⟨rfl, rfl⟩
  | registers => exact ⟨rfl, rfl⟩
  | reports => exact ⟨rfl, rfl⟩

theorem enterSource_phase (source : ModelSource) :
    (enterSource parse source).phase = .working ∨
      (enterSource parse source).phase = .failing := by
  rcases enterSource_cases parse source with ⟨repoId, entered⟩ |
    ⟨url, parsed, entered⟩ | ⟨error, entered⟩
  · exact Or.inl (by rw [entered]; rfl)
  · exact Or.inl (by rw [entered]; rfl)
  · exact Or.inr (by rw [entered]; rfl)

theorem onInfoReply_phase (repoId : String) (reply : FetchReply)
    (json : Except String Unit) :
    (onInfoReply repoId reply json).phase = .working ∨
      (onInfoReply repoId reply json).phase = .failing := by
  rcases onInfoReply_cases repoId reply json with next | ⟨error, next⟩
  · exact Or.inl (by rw [next]; rfl)
  · exact Or.inr (by rw [next]; rfl)

theorem onListReply_phase (reply : FetchReply)
    (json : Except String (List JsonValue)) :
    (onListReply reply json).phase = .working ∨
      (onListReply reply json).phase = .failing := by
  cases reply with
  | failed => exact Or.inr rfl
  | answered =>
      cases json with
      | error => exact Or.inr rfl
      | ok => exact Or.inl rfl

/-- A step that keeps the status of a working job and registers nothing. -/
theorem lifecycle_of_working (before : job.stage.phase = .working)
    (status : effect.job.task.status = job.task.status)
    (registered : effect.registered = none)
    (after : effect.job.stage.phase = .working ∨
      effect.job.stage.phase = .failing) :
    LifecycleStep job event effect := by
  rcases after with working | failing
  · exact .works before working status registered
  · exact .givesUp before failing status registered

/-- Every step of a worker is a step of the life of its task. -/
theorem WorkerStep.lifecycle
    (moves : WorkerStep parse workingDir cacheDir job disk event effect) :
    LifecycleStep job event effect := by
  cases moves with
  | acquires stage => exact .begins (by rw [stage]; rfl) rfl rfl rfl
  | missesDir made error after stage dirs =>
      exact .givesUp (by rw [stage]; rfl) rfl rfl rfl
  | makesDir after stage dirs =>
      exact lifecycle_of_working (by rw [stage]; rfl) rfl rfl
        (enterSource_phase job.task.source)
  | readsInfo repoId reply json stage =>
      exact lifecycle_of_working (by rw [stage]; rfl) rfl rfl
        (onInfoReply_phase repoId reply json)
  | readsList reply json stage =>
      exact lifecycle_of_working (by rw [stage]; rfl) rfl rfl
        (onListReply_phase reply json)
  | refusesUrl url parsed reply createFailure error stage =>
      exact .givesUp (by rw [stage]; rfl) rfl rfl rfl
  | opensUrl url parsed status contentLength after stage =>
      exact .works (by rw [stage]; rfl) rfl rfl rfl
  | transfers queued active results event effect stage moves =>
      obtain ⟨-, -, status, registered, after⟩ := moves.keeps
      exact lifecycle_of_working (by rw [stage]; rfl) status registered after
  | completes stage => exact .completes rfl (by rw [stage]; rfl) rfl rfl rfl
  | measures outcome stage =>
      cases outcome with
      | error error =>
          exact .walkFails error rfl (by rw [stage]; rfl) rfl rfl rfl
      | ok size => exact .measures size rfl (by rw [stage]; rfl) rfl rfl rfl
  | registers size stage =>
      exact .registers (job.modelInfo cacheDir size) (by rw [stage]; rfl)
        rfl rfl rfl rfl
  | reports error stage => exact .fails (by rw [stage]; rfl) rfl rfl rfl

end Steps

end DownloadJob

/-- Only a worker that has measured its directory registers a model, under the
name of its task. -/
theorem LifecycleStep.of_registered {job : DownloadJob}
    {event : WorkerEvent} {effect : WorkerEffect} {info : ModelInfo}
    (step : LifecycleStep job event effect)
    (registered : effect.registered = some info) :
    job.stage.phase = .completing ∧ info.name = job.task.modelName := by
  have notNone (isNone : effect.registered = none) : False := by
    rw [registered] at isNone
    cases isNone
  cases step with
  | registers other before after status isSome name =>
      rw [registered, Option.some.injEq] at isSome
      exact ⟨before, isSome ▸ name⟩
  | begins before after status isNone => exact (notNone isNone).elim
  | works before after status isNone => exact (notNone isNone).elim
  | givesUp before after status isNone => exact (notNone isNone).elim
  | completes written before after status isNone =>
      exact (notNone isNone).elim
  | measures size isWalk before after status isNone =>
      exact (notNone isNone).elim
  | walkFails error isWalk before after status isNone =>
      exact (notNone isNone).elim
  | fails before after status isNone => exact (notNone isNone).elim

/-! ## What users see of a run -/

/-- A manager together with the history of each status, the tasks that have
been seen completed, and those whose model was deleted after completion. -/
structure WatchedDownloads where
  manager : DownloadManager
  histories : List (List DownloadStatus)
  seenCompleted : List Nat
  deletedSince : List Nat

namespace WatchedDownloads

/-- A status joins the history when it changes. -/
def recordStatus (history : List DownloadStatus) (status : DownloadStatus) :
    List DownloadStatus :=
  if history.getLast? = some status then history else history ++ [status]

def recordHistories (histories : List (List DownloadStatus))
    (jobs : List DownloadJob) : List (List DownloadStatus) :=
  jobs.mapIdx fun index job =>
    recordStatus (histories.getD index []) job.task.status

/-- The completed tasks of a model. -/
def completedTasks (manager : DownloadManager) (name : String) : List Nat :=
  (List.range manager.jobs.length).filter fun index =>
    manager.jobs[index]?.any fun job =>
      job.task.modelName == name && job.task.status == .completed

def noteRead (watched : WatchedDownloads) : DownloadAction → List Nat
  | .readStatus job =>
      if watched.manager.getTaskStatus job = some .completed then
        job :: watched.seenCompleted
      else watched.seenCompleted
  | .restart _ => []
  | _ => watched.seenCompleted

/-- A deletion counts when it takes a model out of the table. -/
def noteDeletion (watched : WatchedDownloads) : DownloadAction → List Nat
  | .deleteModel name =>
      if (watched.manager.getModel name).isSome then
        watched.deletedSince ++ completedTasks watched.manager name
      else watched.deletedSince
  | .restart _ => []
  | _ => watched.deletedSince

def step (parse : String → Option Url) (watched : WatchedDownloads)
    (action : DownloadAction) : Option WatchedDownloads :=
  (watched.manager.step parse action).map fun manager =>
    { manager := manager
      histories := recordHistories watched.histories manager.jobs
      seenCompleted := watched.noteRead action
      deletedSince := watched.noteDeletion action }

def start (manager : DownloadManager) : WatchedDownloads where
  manager := manager
  histories := []
  seenCompleted := []
  deletedSince := []

/-- Terminal statuses are final, and a task seen completed has its model
unless that was deleted since. -/
structure TerminalTruthful (watched : WatchedDownloads) : Prop where
  final : ∀ history ∈ watched.histories,
    history <+: [.pending, .downloading, .completed] ∨
      history <+: [.pending, .downloading, .failed]
  found : ∀ index ∈ watched.seenCompleted, ∀ job,
    watched.manager.jobs[index]? = some job →
      index ∈ watched.deletedSince ∨
        (watched.manager.getModel job.task.modelName).isSome

def walkSucceeds : WorkerEvent → Bool
  | .measured (.error _) => false
  | _ => true

/-- The task is being registered and its model is not there yet. -/
def awaitsRegistration (manager : DownloadManager) (index : Nat) : Bool :=
  manager.jobs[index]?.any fun job =>
    job.stage.phase == .completing &&
      (manager.getModel job.task.modelName).isNone

/-- No walk over a downloaded directory fails, and no status is read between
the completion of a download and the registration of its model. -/
def QuietCompletion (watched : WatchedDownloads) : DownloadAction → Prop
  | .worker _ event => walkSucceeds event = true
  | .readStatus index => awaitsRegistration watched.manager index = false
  | _ => True

instance (watched : WatchedDownloads) :
    ∀ action, Decidable (watched.QuietCompletion action)
  | .worker _ event =>
      inferInstanceAs (Decidable (walkSucceeds event = true))
  | .readStatus index => inferInstanceAs
      (Decidable (awaitsRegistration watched.manager index = false))
  | .request _ _ | .settleDropped _ _ | .deleteModel _ | .removeEntry _ _
  | .endDeletion _ _ | .restart _ => inferInstanceAs (Decidable True)

/-- Phase, status and history of a task whose walks succeed. -/
inductive Lived :
    WorkerPhase → DownloadStatus → List DownloadStatus → Prop
  | waiting : Lived .waiting .pending [.pending]
  | working : Lived .working .downloading [.pending, .downloading]
  | completing :
      Lived .completing .completed [.pending, .downloading, .completed]
  | failing : Lived .failing .downloading [.pending, .downloading]
  | completed :
      Lived .finished .completed [.pending, .downloading, .completed]
  | failed : Lived .finished .failed [.pending, .downloading, .failed]

structure Inv (watched : WatchedDownloads) : Prop where
  lived : ∀ (index : Nat) (job : DownloadJob),
    watched.manager.jobs[index]? = some job →
      ∃ history, watched.histories[index]? = some history ∧
        Lived job.stage.phase job.task.status history
  length : watched.histories.length = watched.manager.jobs.length
  seen : ∀ index ∈ watched.seenCompleted, ∃ job,
    watched.manager.jobs[index]? = some job ∧ job.task.status = .completed
  found : ∀ (index : Nat) (job : DownloadJob),
    watched.manager.jobs[index]? = some job →
      job.task.status = .completed →
        job.stage.phase = .finished ∨ index ∈ watched.seenCompleted →
          index ∈ watched.deletedSince ∨
            (watched.manager.getModel job.task.modelName).isSome

theorem Lived.legal {phase : WorkerPhase} {status : DownloadStatus}
    {history : List DownloadStatus} (lived : Lived phase status history) :
    history <+: [.pending, .downloading, .completed] ∨
      history <+: [.pending, .downloading, .failed] := by
  cases lived <;> decide

theorem Lived.last {phase : WorkerPhase} {status : DownloadStatus}
    {history : List DownloadStatus} (lived : Lived phase status history) :
    history.getLast? = some status := by
  cases lived <;> rfl

/-- The invariant gives the property. -/
theorem Inv.terminalTruthful {watched : WatchedDownloads}
    (inv : watched.Inv) : watched.TerminalTruthful where
  final history member := by
    obtain ⟨index, bound, same⟩ := List.mem_iff_getElem.mp member
    have inJobs : index < watched.manager.jobs.length := inv.length ▸ bound
    obtain ⟨recorded, atIndex, lived⟩ :=
      inv.lived index _ (List.getElem?_eq_getElem inJobs)
    rw [List.getElem?_eq_getElem bound, Option.some.injEq] at atIndex
    rw [← same, atIndex]
    exact lived.legal
  found index member job atIndex := by
    obtain ⟨other, atOther, completed⟩ := inv.seen index member
    rw [atIndex, Option.some.injEq] at atOther
    subst atOther
    exact inv.found index job atIndex completed (Or.inr member)

theorem getElem?_recordHistories (histories : List (List DownloadStatus))
    (jobs : List DownloadJob) (index : Nat) :
    (recordHistories histories jobs)[index]? =
      jobs[index]?.map fun job =>
        recordStatus (histories.getD index []) job.task.status := by
  simp [recordHistories]

/-- A status that has not changed leaves the history as it is. -/
theorem Lived.recordStatus_eq {phase : WorkerPhase}
    {status : DownloadStatus} {history : List DownloadStatus}
    (lived : Lived phase status history) :
    recordStatus history status = history := by
  simp [recordStatus, lived.last]

/-- A worker step continues the life of its task, unless it is a walk that
fails. -/
theorem Lived.step {job : DownloadJob} {event : WorkerEvent}
    {effect : WorkerEffect} {history : List DownloadStatus}
    (lived : Lived job.stage.phase job.task.status history)
    (moves : LifecycleStep job event effect)
    (walked : ∀ error, event ≠ .measured (.error error)) :
    Lived effect.job.stage.phase effect.job.task.status
      (recordStatus history effect.job.task.status) := by
  cases moves with
  | begins before after status registered =>
      rw [before] at lived
      rw [after, status]
      generalize job.task.status = old at lived
      cases lived
      exact .working
  | works before after status registered =>
      rw [after, status, lived.recordStatus_eq]
      rwa [before] at lived
  | givesUp before after status registered =>
      rw [after, status, lived.recordStatus_eq]
      rw [before] at lived
      generalize job.task.status = old at lived
      cases lived
      exact .failing
  | completes written before after status registered =>
      rw [before] at lived
      rw [after, status]
      generalize job.task.status = old at lived
      cases lived
      exact .completing
  | measures size isWalk before after status registered =>
      rw [after, status, lived.recordStatus_eq]
      rwa [before] at lived
  | walkFails error isWalk before after status registered =>
      exact absurd isWalk (walked error)
  | registers info before after status registered name =>
      rw [after, status, lived.recordStatus_eq]
      rw [before] at lived
      generalize job.task.status = old at lived
      cases lived
      exact .completed
  | fails before after status registered =>
      rw [before] at lived
      rw [after, status]
      generalize job.task.status = old at lived
      cases lived
      exact .failed

variable {watched : WatchedDownloads}

/-- Jobs that are not touched keep their histories. -/
theorem Inv.recordStatus_getD (inv : watched.Inv) {index : Nat}
    {job : DownloadJob} (found : watched.manager.jobs[index]? = some job) :
    ∃ history, watched.histories.getD index [] = history ∧
      Lived job.stage.phase job.task.status history := by
  obtain ⟨history, atIndex, lived⟩ := inv.lived index job found
  exact ⟨history, by simp [List.getD_eq_getElem?_getD, atIndex], lived⟩

/-- A step that touches neither jobs nor models. -/
theorem Inv.of_same_jobs (inv : watched.Inv) {manager : DownloadManager}
    {seen deleted : List Nat} (jobs : manager.jobs = watched.manager.jobs)
    (seenJobs : ∀ index ∈ seen, ∃ job,
      watched.manager.jobs[index]? = some job ∧
        job.task.status = .completed)
    (found : ∀ (index : Nat) (job : DownloadJob),
      watched.manager.jobs[index]? = some job →
        job.task.status = .completed →
          job.stage.phase = .finished ∨ index ∈ seen →
            index ∈ deleted ∨
              (manager.getModel job.task.modelName).isSome) :
    Inv { manager := manager
          histories := recordHistories watched.histories manager.jobs
          seenCompleted := seen
          deletedSince := deleted } where
  lived index job atIndex := by
    simp only [jobs] at atIndex
    obtain ⟨history, same, lived⟩ := inv.recordStatus_getD atIndex
    refine ⟨history, ?_, lived⟩
    rw [getElem?_recordHistories, jobs, atIndex, Option.map_some, same,
      lived.recordStatus_eq]
  length := by simp [recordHistories]
  seen index member := by
    simp only [jobs]
    exact seenJobs index member
  found index job atIndex := by
    simp only [jobs] at atIndex
    exact found index job atIndex

/-- A new task is pending and has not been seen. -/
theorem Inv.request (inv : watched.Inv) (name : String)
    (source : ModelSource) :
    Inv { manager := { watched.manager with
            jobs := watched.manager.jobs ++ [⟨.new name source, .waiting⟩] }
          histories := recordHistories watched.histories
            (watched.manager.jobs ++ [⟨.new name source, .waiting⟩])
          seenCompleted := watched.seenCompleted
          deletedSince := watched.deletedSince } where
  lived index job atIndex := by
    rw [getElem?_recordHistories, atIndex]
    rcases getElem?_concat_cases atIndex with old | ⟨bound, rfl⟩
    · obtain ⟨history, same, lived⟩ := inv.recordStatus_getD old
      exact ⟨history, by rw [Option.map_some, same, lived.recordStatus_eq],
        lived⟩
    · have absent : watched.histories.getD index [] = [] := by
        rw [List.getD_eq_getElem?_getD, List.getElem?_eq_none
          (inv.length ▸ bound), Option.getD_none]
      refine ⟨[.pending], ?_, .waiting⟩
      rw [Option.map_some, absent]
      rfl
  length := by simp [recordHistories]
  seen index member := by
    obtain ⟨job, atIndex, completed⟩ := inv.seen index member
    obtain ⟨bound, -⟩ := List.getElem?_eq_some_iff.mp atIndex
    exact ⟨job, by rw [List.getElem?_append_left bound]; exact atIndex,
      completed⟩
  found index job atIndex completed reported := by
    rcases getElem?_concat_cases atIndex with old | ⟨-, rfl⟩
    · exact inv.found index job old completed reported
    · cases completed

/-- A task that is completed stays completed when no walk fails. -/
theorem Lived.completed_of_completed {job : DownloadJob}
    {event : WorkerEvent} {effect : WorkerEffect}
    {history : List DownloadStatus}
    (lived : Lived job.stage.phase job.task.status history)
    (moves : LifecycleStep job event effect)
    (walked : ∀ error, event ≠ .measured (.error error))
    (completed : job.task.status = .completed) :
    effect.job.task.status = .completed := by
  rw [completed] at lived
  cases moves with
  | begins before => rw [before] at lived; cases lived
  | works before => rw [before] at lived; cases lived
  | givesUp before => rw [before] at lived; cases lived
  | completes written before => rw [before] at lived; cases lived
  | measures size isWalk before after status => exact status.trans completed
  | walkFails error isWalk => exact absurd isWalk (walked error)
  | registers info before after status => exact status.trans completed
  | fails before => rw [before] at lived; cases lived

/-- A worker step after which its task is completed: the status has just been
written, the directory has been measured, or the model is registered. -/
theorem Lived.completing_or_registered {job : DownloadJob}
    {event : WorkerEvent} {effect : WorkerEffect}
    {history : List DownloadStatus}
    (lived : Lived job.stage.phase job.task.status history)
    (moves : LifecycleStep job event effect)
    (walked : ∀ error, event ≠ .measured (.error error))
    (completed : effect.job.task.status = .completed) :
    (effect.job.stage.phase = .completing) ∨
      ∃ info, effect.registered = some info ∧
        info.name = job.task.modelName := by
  cases moves with
  | begins before after status => rw [status] at completed; cases completed
  | works before after status =>
      rw [before, ← status, completed] at lived
      cases lived
  | givesUp before after status =>
      rw [before, ← status, completed] at lived
      cases lived
  | completes written before after => exact Or.inl after
  | measures size isWalk before after => exact Or.inl after
  | walkFails error isWalk => exact absurd isWalk (walked error)
  | registers info before after status registered name =>
      exact Or.inr ⟨info, registered, name⟩
  | fails before after status => rw [status] at completed; cases completed

/-- No worker step takes a model out of the table. -/
theorem getModel_apply_isSome {manager : DownloadManager} {name : String}
    (known : (manager.getModel name).isSome) (index : Nat)
    (effect : WorkerEffect) :
    ((manager.apply index effect).getModel name).isSome := by
  cases registered : effect.registered with
  | none => rwa [DownloadManager.getModel_apply_of_none _ _ registered]
  | some info =>
      rw [DownloadManager.getModel_apply_of_some _ _ registered]
      split
      · rfl
      · exact known

/-- A worker step keeps what is known of the other tasks, and its own task
lives on. -/
theorem Inv.worker (inv : watched.Inv) {parse : String → Option Url}
    {index : Nat} {event : WorkerEvent} {job : DownloadJob}
    {effect : WorkerEffect}
    (atIndex : watched.manager.jobs[index]? = some job)
    (moves : DownloadJob.WorkerStep parse watched.manager.workingDir
      watched.manager.cacheDir job watched.manager.disk event effect)
    (walked : walkSucceeds event = true) :
    Inv { manager := watched.manager.apply index effect
          histories := recordHistories watched.histories
            (watched.manager.apply index effect).jobs
          seenCompleted := watched.seenCompleted
          deletedSince := watched.deletedSince } := by
  have succeeds : ∀ error, event ≠ .measured (.error error) := by
    rintro error rfl
    cases walked
  have atSelf := DownloadManager.apply_jobs_self atIndex effect
  obtain ⟨history, same, lived⟩ := inv.recordStatus_getD atIndex
  have life := moves.lifecycle
  refine ⟨?_, by simp [recordHistories], ?_, ?_⟩
  · intro other task atOther
    rw [getElem?_recordHistories]
    by_cases own : other = index
    · subst own
      rw [atSelf, Option.some.injEq] at atOther
      subst atOther
      exact ⟨recordStatus history effect.job.task.status,
        by rw [atSelf, Option.map_some, same], lived.step life succeeds⟩
    · rw [DownloadManager.apply_jobs_of_ne _ own] at atOther ⊢
      obtain ⟨older, sameOlder, livedOther⟩ :=
        inv.recordStatus_getD atOther
      exact ⟨older, by rw [atOther, Option.map_some, sameOlder,
        livedOther.recordStatus_eq], livedOther⟩
  · intro other member
    obtain ⟨task, atOther, completed⟩ := inv.seen other member
    by_cases own : other = index
    · subst own
      rw [atIndex, Option.some.injEq] at atOther
      subst atOther
      exact ⟨effect.job, atSelf,
        lived.completed_of_completed life succeeds completed⟩
    · exact ⟨task, by rw [DownloadManager.apply_jobs_of_ne _ own]; exact
        atOther, completed⟩
  · intro other task atOther completed reported
    by_cases own : other = index
    · subst own
      rw [atSelf, Option.some.injEq] at atOther
      subst atOther
      have sameName := moves.keepsName.1
      rcases lived.completing_or_registered life succeeds completed with
        completing | ⟨info, registered, name⟩
      · rcases reported with finished | member
        · rw [completing] at finished
          cases finished
        · obtain ⟨old, atOld, oldCompleted⟩ := inv.seen other member
          rw [atIndex, Option.some.injEq] at atOld
          rcases inv.found other job atIndex (atOld ▸ oldCompleted)
            (Or.inr member) with deleted | known
          · exact Or.inl deleted
          · exact Or.inr (sameName ▸ getModel_apply_isSome known _ _)
      · right
        rw [DownloadManager.getModel_apply_of_some _ _ registered,
          sameName, if_pos name.symm]
        rfl
    · rw [DownloadManager.apply_jobs_of_ne _ own] at atOther
      rcases inv.found other task atOther completed reported with
        deleted | known
      · exact Or.inl deleted
      · exact Or.inr (getModel_apply_isSome known _ _)

theorem mem_completedTasks {manager : DownloadManager} {name : String}
    {index : Nat} {job : DownloadJob}
    (atIndex : manager.jobs[index]? = some job)
    (sameName : job.task.modelName = name)
    (completed : job.task.status = .completed) :
    index ∈ completedTasks manager name := by
  obtain ⟨bound, -⟩ := List.getElem?_eq_some_iff.mp atIndex
  apply List.mem_filter.mpr
  refine ⟨List.mem_range.mpr bound, ?_⟩
  rw [atIndex]
  simp [sameName, completed]

/-- A task seen completed is finished, or its model is listed already. -/
theorem Inv.readStatus (inv : watched.Inv) {index : Nat}
    (quiet : awaitsRegistration watched.manager index = false) :
    Inv { manager := watched.manager
          histories := recordHistories watched.histories
            watched.manager.jobs
          seenCompleted := watched.noteRead (.readStatus index)
          deletedSince := watched.deletedSince } := by
  have newlySeen : ∀ other ∈ watched.noteRead (.readStatus index),
      other ∈ watched.seenCompleted ∨ other = index ∧
        watched.manager.getTaskStatus index = some .completed := by
    intro other member
    simp only [noteRead] at member
    split at member
    case isTrue completed =>
      rcases List.mem_cons.mp member with rfl | old
      · exact Or.inr ⟨rfl, completed⟩
      · exact Or.inl old
    case isFalse => exact Or.inl member
  apply inv.of_same_jobs rfl
  · intro other member
    rcases newlySeen other member with old | ⟨rfl, completed⟩
    · exact inv.seen other old
    · exact Option.map_eq_some_iff.mp completed
  · intro other job atOther completed reported
    rcases reported with finished | member
    · exact inv.found other job atOther completed (Or.inl finished)
    · rcases newlySeen other member with old | ⟨rfl, -⟩
      · exact inv.found other job atOther completed (Or.inr old)
      · obtain ⟨history, -, lived⟩ := inv.lived other job atOther
        simp only [awaitsRegistration, atOther, Option.any_some,
          Bool.and_eq_false_iff, beq_eq_false_iff_ne] at quiet
        rcases quiet with notCompleting | known
        · apply inv.found other job atOther completed
          rw [completed] at lived
          generalize job.stage.phase = phase at lived notCompleting
          cases lived with
          | completing => exact absurd rfl notCompleting
          | completed => exact Or.inl rfl
        · exact Or.inr (by simpa using known)

/-- A deletion is noted for every completed task of the model. -/
theorem Inv.deleteModel (inv : watched.Inv) (name : String) :
    Inv { manager := watched.manager.deleteModel name
          histories := recordHistories watched.histories
            (watched.manager.deleteModel name).jobs
          seenCompleted := watched.seenCompleted
          deletedSince := watched.noteDeletion (.deleteModel name) } := by
  have grows : ∀ index ∈ watched.deletedSince,
      index ∈ watched.noteDeletion (.deleteModel name) := by
    intro index member
    simp only [noteDeletion]
    split
    · exact List.mem_append_left _ member
    · exact member
  apply inv.of_same_jobs (DownloadManager.deleteModel_jobs _ _) inv.seen
  intro index job atIndex completed reported
  rcases inv.found index job atIndex completed reported with
    deleted | known
  · exact Or.inl (grows index deleted)
  · by_cases sameName : job.task.modelName = name
    · left
      simp only [noteDeletion]
      rw [if_pos (sameName ▸ known)]
      exact List.mem_append_right _
        (mem_completedTasks atIndex sameName completed)
    · right
      rw [DownloadManager.getModel_deleteModel, if_neg sameName]
      exact known

/-- One quiet step keeps the invariant. -/
theorem Inv.step {parse : String → Option Url} (inv : watched.Inv)
    {action : DownloadAction} {next : WatchedDownloads}
    (quiet : watched.QuietCompletion action)
    (moves : watched.step parse action = some next) : next.Inv := by
  obtain ⟨manager, stepTo, rfl⟩ := Option.map_eq_some_iff.mp moves
  have unchanged (same : manager.jobs = watched.manager.jobs)
      (models : manager.models = watched.manager.models) :
      Inv { manager := manager
            histories := recordHistories watched.histories manager.jobs
            seenCompleted := watched.seenCompleted
            deletedSince := watched.deletedSince } := by
    apply inv.of_same_jobs same inv.seen
    intro index job atIndex completed reported
    rw [DownloadManager.getModel, models]
    exact inv.found index job atIndex completed reported
  cases DownloadManager.managerStep_of_step stepTo with
  | requests name source => exact inv.request name source
  | works index event job effect atIndex workerMoves =>
      exact inv.worker atIndex workerMoves quiet
  | settles => exact unchanged rfl rfl
  | reads => exact inv.readStatus quiet
  | deletes name => exact inv.deleteModel name
  | removes => exact unchanged rfl rfl
  | ends => exact unchanged rfl rfl
  | restarts seen =>
      exact ⟨by simp [DownloadManager.restarted], rfl,
        by simp [noteRead], by simp [DownloadManager.restarted]⟩

theorem inv_start {manager : DownloadManager} (idle : manager.jobs = []) :
    (start manager).Inv :=
  ⟨by simp [start, idle], by simp [start, idle], by simp [start],
    by simp [start, idle]⟩

/-- In a run whose directory walks succeed, and in which no status is read
between a completion and its registration, terminal statuses are final and a
task seen completed has its model unless that was deleted. -/
theorem terminalTruthful_of_quietCompletion (parse : String → Option Url)
    (manager : DownloadManager) (idle : manager.jobs = [])
    (actions : List DownloadAction)
    (quiet : Meets (step parse) QuietCompletion (start manager) actions) :
    ∀ reached ∈ visited (step parse) (start manager) actions,
      reached.TerminalTruthful := by
  have invariant := invariant_of_meets
    (fun watched action next inv quiet moves => Inv.step inv quiet moves)
    (inv_start idle) quiet
  intro reached member
  exact (invariant reached member).terminalTruthful

/-- A manager over an empty disk. -/
def emptyCache : DownloadManager :=
  .new [] "/cache".toList ∅

/-- A repository with one file is downloaded up to the written status. -/
def downloadToCompleted : List DownloadAction :=
  [.request "bert" (.huggingFace "org/bert" none),
    .worker 0 .acquire,
    .worker 0 (.makeModelDir none),
    .worker 0 (.infoReply (.answered 200 none) (.ok ())),
    .worker 0 (.listReply (.answered 200 none)
      (.ok [.object [("path", .string "w")]])),
    .worker 0 (.startFile none),
    .worker 0 (.fileReply 0 (.answered 200 none) none),
    .worker 0 (.chunk 0 [7]),
    .worker 0 (.settle 0 none),
    .worker 0 (.endOfStream 0),
    .worker 0 .finishTransfers,
    .worker 0 .writeCompleted]

def quietRun : List DownloadAction :=
  downloadToCompleted ++
    [.worker 0 (.measured (.ok 1)), .worker 0 .register, .readStatus 0,
      .deleteModel "bert", .readStatus 0]

theorem quietRun_terminalTruthful :
    (run (step fun _ => none) (start emptyCache) quietRun).isSome ∧
      ∀ reached ∈ visited (step fun _ => none) (start emptyCache) quietRun,
        reached.TerminalTruthful :=
  ⟨by decide, terminalTruthful_of_quietCompletion _ _ rfl _ (by decide)⟩

/-- The walk over the finished download fails. -/
def failedWalkRun : List DownloadAction :=
  downloadToCompleted ++
    [.worker 0 (.measured (.error "permission denied")),
      .worker 0 .reportError]

/-- The status is read before the model is registered. -/
def earlyReadRun : List DownloadAction :=
  downloadToCompleted ++ [.readStatus 0]

/-- A completed task fails afterwards, and a task is seen completed while its
model is unknown and was never deleted. -/
theorem completed_not_truthful :
    (¬ ∀ reached ∈ visited (step fun _ => none) (start emptyCache)
        failedWalkRun, reached.TerminalTruthful) ∧
      ¬ ∀ reached ∈ visited (step fun _ => none) (start emptyCache)
        earlyReadRun, reached.TerminalTruthful := by
  constructor
  · intro truthful
    have histories : (run (step fun _ => none) (start emptyCache)
        failedWalkRun).map histories =
          some [[.pending, .downloading, .completed, .failed]] := by
      decide
    obtain ⟨last, reaches, recorded⟩ := Option.map_eq_some_iff.mp histories
    have legal := (truthful last (last_mem_visited reaches)).final _
      (recorded ▸ List.mem_singleton_self _)
    revert legal
    decide
  · intro truthful
    have seen : (run (step fun _ => none) (start emptyCache)
        earlyReadRun).map (fun last => (last.seenCompleted,
          last.deletedSince,
          last.manager.jobs.map fun job => job.task.modelName,
          (last.manager.getModel "bert").isSome)) =
          some ([0], [], ["bert"], false) := by
      decide
    obtain ⟨last, reaches, observed⟩ := Option.map_eq_some_iff.mp seen
    simp only [Prod.mk.injEq] at observed
    obtain ⟨seenFirst, noneDeleted, names, unknown⟩ := observed
    obtain ⟨job, jobs, sameName⟩ : ∃ job, last.manager.jobs = [job] ∧
        job.task.modelName = "bert" := by
      obtain ⟨job, rest, jobs, sameName, noMore⟩ :=
        List.map_eq_cons_iff.mp names
      exact ⟨job, by rw [jobs, List.map_eq_nil_iff.mp noMore], sameName⟩
    have found := (truthful last (last_mem_visited reaches)).found 0
      (by simp [seenFirst]) job (by simp [jobs])
    rw [noneDeleted, sameName, unknown] at found
    simp at found

end WatchedDownloads

end TorchInference
