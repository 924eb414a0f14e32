import TorchInference.DownloadLifecycle
import TorchInference.BoundedChannel

/-!
# Subscriptions to a download

A worker announces every change of its task in two steps: the entry in the
table of tasks is changed, then the progress channel of the task is looked up
and the new entry is sent on it.  `subscribe_task` opens the channel when the
first subscriber comes, in three steps: it looks for a channel, clones the
entry and puts a new channel into the map.  Each subscriber is the writer of a
server-sent event stream, which ends after a terminal event.

One task is modelled, with the updates its worker is still going to make.  The
sender of a channel is owned by the map, so a channel that has been replaced
there has lost its sender.
-/

namespace TorchInference

open TransitionRuns

/-- A change of a task by its worker. -/
inductive TaskUpdate where
  | status (status : DownloadStatus)
  | progress (downloaded : Nat) (total : Option Nat)
  | error (error : String)

def TaskUpdate.apply (task : DownloadTask) : TaskUpdate → DownloadTask
  | .status next => { task with status := next }
  | .progress downloaded total =>
      { task with downloadedSize := downloaded, totalSize := total }
  | .error reason => { task with status := .failed, error := some reason }

structure TaskReceiver where
  channel : Nat
  seen : Nat

/-- Where a request for the events of the task stands: in `subscribe_task`, in
the loop of its writer, or past it. -/
inductive EventStage where
  | lookingUp
  | cloning
  | inserting (snapshot : DownloadTask)
  | reading (receiver : TaskReceiver)
  | sending (receiver : TaskReceiver) (task : DownloadTask)
  | waiting (receiver : TaskReceiver)
  | ended
  | disconnected

namespace EventStage

/-- The receiver held by a writer; a writer that is done has dropped it. -/
def receiver? : EventStage → Option TaskReceiver
  | reading receiver | sending receiver _ | waiting receiver => some receiver
  | _ => none

def inCall : EventStage → Bool
  | lookingUp | cloning | inserting _ => true
  | _ => false

end EventStage

structure EventStream where
  stage : EventStage
  events : List DownloadTask

structure TaskBoard where
  entry : DownloadTask
  /-- The updates the worker has not made yet. -/
  script : List TaskUpdate
  /-- An entry that has been changed and not been announced. -/
  unsent : Option DownloadTask
  channels : List (WatchChannel DownloadTask)
  /-- The channel in the map. -/
  current : Option Nat
  streams : List EventStream

inductive BoardAction where
  | update
  | notify
  | request
  | call (stream : Nat)
  /-- The client takes the event or has disconnected. -/
  | writer (stream : Nat) (accepted : Bool)

/-! ## The updates of a worker -/

namespace DownloadJob

/-- A step of a worker changes its task by one update or not at all. -/
theorem task_of_workerStep {parse : String → Option Url}
    {workingDir : UnixPath.Location} {cacheDir : List Char}
    {job : DownloadJob} {disk : FileTree.Tree} {event : WorkerEvent}
    {effect : WorkerEffect}
    (moves : WorkerStep parse workingDir cacheDir job disk event effect) :
    effect.job.task = job.task ∨
      ∃ update : TaskUpdate, effect.job.task = update.apply job.task := by
  have progressed (job : DownloadJob) (downloaded : Nat)
      (total : Option Nat) :
      (job.updateTaskProgress downloaded total).task = job.task ∨
        ∃ update : TaskUpdate,
          (job.updateTaskProgress downloaded total).task =
            update.apply job.task := by
    cases total with
    | none => exact Or.inl rfl
    | some total => exact Or.inr ⟨.progress downloaded (some total), rfl⟩
  cases moves with
  | acquires => exact Or.inr ⟨.status .downloading, rfl⟩
  | completes => exact Or.inr ⟨.status .completed, rfl⟩
  | reports error => exact Or.inr ⟨.error error, rfl⟩
  | transfers queued active results event effect stage moves =>
      cases moves with
      | ignores index path file =>
          exact progressed job file.received.length file.totalSize
      | receives index path file bytes =>
          exact progressed job (file.received ++ bytes).length file.totalSize
      | _ => exact Or.inl rfl
  | _ => exact Or.inl rfl

/-- The updates made to a task since it was new, and what they have come to
when its worker is done. -/
structure Scripted (job : DownloadJob) : Prop where
  script : ∃ name source, ∃ script : List TaskUpdate,
    job.task = script.foldl TaskUpdate.apply (.new name source)
  completing : job.stage.phase = .completing → job.task.status = .completed
  finished : job.stage.phase = .finished → job.task.status.isTerminal = true

theorem Scripted.step {job : DownloadJob} {event : WorkerEvent}
    {effect : WorkerEffect} (scripted : job.Scripted)
    (changes : effect.job.task = job.task ∨
      ∃ update : TaskUpdate, effect.job.task = update.apply job.task)
    (step : LifecycleStep job event effect) : effect.job.Scripted where
  script := by
    obtain ⟨name, source, script, isTask⟩ := scripted.script
    rcases changes with same | ⟨update, updated⟩
    · exact ⟨name, source, script, same.trans isTask⟩
    · refine ⟨name, source, script ++ [update], ?_⟩
      rw [updated, isTask, List.foldl_append]
      rfl
  completing after := by
    cases step with
    | completes written before isCompleting status => exact status
    | measures size isWalk before isCompleting status =>
        exact status.trans (scripted.completing before)
    | begins before working => simp [working] at after
    | works before working => simp [working] at after
    | givesUp before failing => simp [failing] at after
    | walkFails error isWalk before failing => simp [failing] at after
    | registers info before done => simp [done] at after
    | fails before done => simp [done] at after
  finished after := by
    cases step with
    | registers info before done status =>
        rw [status, scripted.completing before]
        rfl
    | fails before done status =>
        rw [status]
        rfl
    | begins before working => simp [working] at after
    | works before working => simp [working] at after
    | givesUp before failing => simp [failing] at after
    | completes written before completing => simp [completing] at after
    | measures size isWalk before completing => simp [completing] at after
    | walkFails error isWalk before failing => simp [failing] at after

/-- In every run each task is what the updates of its worker have made of a
new task, and a worker that is done has left it in a terminal state. -/
theorem scripted_of_run (parse : String → Option Url)
    (workingDir : UnixPath.Location) (cacheDir : List Char)
    (disk : FileTree.Tree) (actions : List DownloadAction) :
    ∀ reached ∈ visited (DownloadManager.step parse)
      (.new workingDir cacheDir disk) actions,
      ∀ job ∈ reached.jobs, job.Scripted := by
  apply invariant_of_run
  · intro manager action next scripted moves job member
    rcases DownloadManager.mem_jobs_of_step moves member with
      old | ⟨name, source, -, rfl⟩ | ⟨before, isJob, event, effect,
        workerMoves, rfl⟩
    · exact scripted job old
    · exact ⟨⟨name, source, [], rfl⟩, (nomatch ·), (nomatch ·)⟩
    · exact (scripted before isJob).step (task_of_workerStep workerMoves)
        workerMoves.lifecycle
  · intro job member
    simp [DownloadManager.new] at member

end DownloadJob

namespace TaskBoard

def start (task : DownloadTask) (script : List TaskUpdate) : TaskBoard where
  entry := task
  script := script
  unsent := none
  channels := []
  current := none
  streams := []

/-- Whether anyone holds a receiver of a channel. -/
def listening (board : TaskBoard) (channel : Nat) : Bool :=
  board.streams.any fun stream =>
    stream.stage.receiver?.any fun receiver => receiver.channel == channel

def setStream (board : TaskBoard) (index : Nat) (stage : EventStage)
    (events : List DownloadTask) : TaskBoard :=
  { board with streams := board.streams.set index ⟨stage, events⟩ }

def notifyTaskSubscribers (board : TaskBoard) (task : DownloadTask) :
    TaskBoard :=
  match board.current with
  | none => { board with unsent := none }
  | some channel =>
      { board with
        unsent := none
        channels := board.channels.modify channel fun opened =>
          opened.send (board.listening channel) task }

/-- A step of `subscribe_task`. -/
def call (board : TaskBoard) (index : Nat) (stream : EventStream) :
    Option TaskBoard :=
  match stream.stage with
  | .lookingUp =>
      match board.current with
      | none => some (board.setStream index .cloning stream.events)
      | some channel =>
          board.channels[channel]?.map fun opened =>
            board.setStream index (.reading ⟨channel, opened.version⟩)
              stream.events
  | .cloning =>
      some (board.setStream index (.inserting board.entry) stream.events)
  | .inserting snapshot =>
      let channel := board.channels.length
      some ({ board with
        channels := board.channels ++ [WatchChannel.opened snapshot]
        current := some channel }.setStream index (.reading ⟨channel, 0⟩)
          stream.events)
  | _ => none

/-- A step of the writer of `get_download_events`. -/
def writer (board : TaskBoard) (index : Nat) (stream : EventStream)
    (accepted : Bool) : Option TaskBoard :=
  match stream.stage with
  | .reading receiver =>
      board.channels[receiver.channel]?.map fun opened =>
        board.setStream index (.sending receiver opened.value) stream.events
  | .sending receiver task =>
      if accepted then
        some (board.setStream index
          (if task.status.isTerminal then .ended else .waiting receiver)
          (stream.events ++ [task]))
      else some (board.setStream index .disconnected stream.events)
  | .waiting receiver =>
      match board.channels[receiver.channel]? with
      | none => none
      | some opened =>
          match opened.poll receiver.seen
              (board.current != some receiver.channel) with
          | .changed => some (board.setStream index
              (.reading ⟨receiver.channel, opened.version⟩) stream.events)
          | .closed => some (board.setStream index .ended stream.events)
          | .waiting => none
  | _ => none

def step (board : TaskBoard) : BoardAction → Option TaskBoard
  | .update =>
      match board.unsent, board.script with
      | none, update :: script =>
          some { board with
            entry := update.apply board.entry
            script := script
            unsent := some (update.apply board.entry) }
      | _, _ => none
  | .notify => board.unsent.map board.notifyTaskSubscribers
  | .request =>
      some { board with streams := board.streams ++ [⟨.lookingUp, []⟩] }
  | .call index =>
      match board.streams[index]? with
      | none => none
      | some stream => board.call index stream
  | .writer index accepted =>
      match board.streams[index]? with
      | none => none
      | some stream => board.writer index stream accepted

/-- The task as its worker will leave it. -/
def finalTask (board : TaskBoard) : DownloadTask :=
  board.script.foldl TaskUpdate.apply board.entry

/-- The worker has made and announced all its updates. -/
def Finished (board : TaskBoard) : Prop :=
  board.script = [] ∧ board.unsent = none

instance (board : TaskBoard) : Decidable board.Finished :=
  decidable_of_iff (board.script.isEmpty = true ∧ board.unsent = none)
    (by rw [Finished, List.isEmpty_iff])

/-- The worker has finished and no call of `subscribe_task` is in progress. -/
def Settled (board : TaskBoard) : Prop :=
  board.Finished ∧ ∀ stream ∈ board.streams, stream.stage.inCall = false

instance (board : TaskBoard) : Decidable board.Settled :=
  inferInstanceAs (Decidable (_ ∧ _))

/-- The value a receiver reads. -/
def latest (board : TaskBoard) (receiver : TaskReceiver) :
    Option DownloadTask :=
  board.channels[receiver.channel]?.map WatchChannel.value

/-- With its next steps the writer of a stream ends it after a terminal
event. -/
def WriterEnds (board : TaskBoard) (index : Nat) : Prop :=
  ∃ count last events,
    run step board (List.replicate count (.writer index true)) = some last ∧
      last.streams[index]? = some ⟨.ended, events⟩ ∧
      ∃ task, events.getLast? = some task ∧ task.status.isTerminal = true

/-- Subscribers see the end of the download. -/
structure SubscribersSeeEnd (board : TaskBoard) : Prop where
  latest : board.Settled → ∀ stream ∈ board.streams,
    ∀ receiver ∈ stream.stage.receiver?,
      board.latest receiver = some board.entry
  terminal : board.Settled → board.entry.status.isTerminal = true
  delivered : ∀ stream ∈ board.streams,
    ∀ receiver ∈ stream.stage.receiver?,
      board.current ≠ some receiver.channel →
        board.latest receiver = some board.finalTask
  ended : ∀ stream ∈ board.streams, stream.stage = .ended →
    ∃ task, stream.events.getLast? = some task ∧
      task.status.isTerminal = true
  finishes : board.Settled → ∀ index stream,
    board.streams[index]? = some stream → stream.stage.receiver?.isSome →
      board.WriterEnds index

/-- The value of a channel is that of the final task, or it is in the map and
will be sent further values. -/
def WillDeliver (board : TaskBoard) (value : DownloadTask) : Prop :=
  value = board.finalTask ∨ ¬ board.Finished

instance (board : TaskBoard) (value : DownloadTask) :
    Decidable (board.WillDeliver value) :=
  inferInstanceAs (Decidable (_ ∨ _))

/-- A call finds a channel, or inserts one, that holds the final task or will
be sent it; and a channel that is replaced has no listener left or holds the
final task. -/
def TimelyCall (board : TaskBoard) : EventStage → Prop
  | .lookingUp => ∀ channel ∈ board.current,
      ∀ opened ∈ board.channels[channel]?, board.WillDeliver opened.value
  | .inserting snapshot => board.WillDeliver snapshot ∧
      ∀ channel ∈ board.current, ∀ opened ∈ board.channels[channel]?,
        board.listening channel = false ∨ opened.value = board.finalTask
  | _ => True

def Timely (board : TaskBoard) : BoardAction → Prop
  | .call index =>
      ∀ stream ∈ board.streams[index]?, board.TimelyCall stream.stage
  | _ => True

instance (board : TaskBoard) : ∀ stage, Decidable (board.TimelyCall stage)
  | .lookingUp => inferInstanceAs (Decidable (∀ channel ∈ board.current,
      ∀ opened ∈ board.channels[channel]?, board.WillDeliver opened.value))
  | .inserting snapshot => inferInstanceAs (Decidable
      (board.WillDeliver snapshot ∧
        ∀ channel ∈ board.current, ∀ opened ∈ board.channels[channel]?,
          board.listening channel = false ∨ opened.value = board.finalTask))
  | .cloning | .reading _ | .sending _ _ | .waiting _ | .ended
  | .disconnected => inferInstanceAs (Decidable True)

instance (board : TaskBoard) : ∀ action, Decidable (board.Timely action)
  | .call index => inferInstanceAs (Decidable
      (∀ stream ∈ board.streams[index]?, board.TimelyCall stream.stage))
  | .update | .notify | .request | .writer _ _ =>
      inferInstanceAs (Decidable True)

/-! ## The invariant -/

variable {board : TaskBoard}

/-- A receiver either can read the final task or will be sent it. -/
def Watches (board : TaskBoard) (receiver : TaskReceiver) : Prop :=
  ∃ opened, board.channels[receiver.channel]? = some opened ∧
    receiver.seen ≤ opened.version ∧
    (opened.value = board.finalTask ∨
      board.current = some receiver.channel ∧ ¬ board.Finished)

/-- What a writer knows of the value its receiver has seen. -/
def HasRead (board : TaskBoard) (receiver : TaskReceiver)
    (seen : DownloadTask → Prop) : Prop :=
  ∀ opened, board.channels[receiver.channel]? = some opened →
    opened.version = receiver.seen → seen opened.value

def StageSound (board : TaskBoard) (events : List DownloadTask) :
    EventStage → Prop
  | .reading receiver => board.Watches receiver
  | .sending receiver task =>
      board.Watches receiver ∧ board.HasRead receiver (· = task)
  | .waiting receiver => board.Watches receiver ∧
      board.HasRead receiver (·.status.isTerminal = false)
  | .ended => ∃ task, events.getLast? = some task ∧
      task.status.isTerminal = true
  | _ => True

structure Inv (final : DownloadTask) (board : TaskBoard) : Prop where
  final : board.finalTask = final
  unsent : ∀ task ∈ board.unsent, task = board.entry
  streams : ∀ stream ∈ board.streams,
    board.StageSound stream.events stream.stage

theorem StageSound.watches {stage : EventStage} {events : List DownloadTask}
    {receiver : TaskReceiver} (sound : board.StageSound events stage)
    (held : receiver ∈ stage.receiver?) : board.Watches receiver := by
  cases stage with
  | reading => cases held; exact sound
  | sending => cases held; exact sound.1
  | waiting => cases held; exact sound.1
  | lookingUp => cases held
  | cloning => cases held
  | inserting => cases held
  | ended => cases held
  | disconnected => cases held

theorem finalTask_of_finished (finished : board.Finished) :
    board.finalTask = board.entry := by
  simp [finalTask, finished.1]

/-- A stage stays sound when its receiver still watches and its channel is
either unchanged or has a value the receiver has not seen. -/
theorem StageSound.of_channels {next : TaskBoard} {stage : EventStage}
    {events : List DownloadTask} (sound : board.StageSound events stage)
    (watches : ∀ receiver ∈ stage.receiver?, next.Watches receiver)
    (channels : ∀ receiver ∈ stage.receiver?, ∀ opened,
      next.channels[receiver.channel]? = some opened →
        opened.version = receiver.seen →
          board.channels[receiver.channel]? = some opened) :
    next.StageSound events stage := by
  cases stage with
  | reading receiver => exact watches receiver rfl
  | sending receiver task =>
      refine ⟨watches receiver rfl, fun opened found same => ?_⟩
      exact sound.2 opened (channels receiver rfl opened found same) same
  | waiting receiver =>
      refine ⟨watches receiver rfl, fun opened found same => ?_⟩
      exact sound.2 opened (channels receiver rfl opened found same) same
  | ended => exact sound
  | lookingUp => trivial
  | cloning => trivial
  | inserting => trivial
  | disconnected => trivial

/-- The entry is changed: another announcement is to come. -/
theorem Inv.update {final : DownloadTask} (inv : board.Inv final)
    {update : TaskUpdate} {script : List TaskUpdate}
    (todo : board.script = update :: script) :
    Inv final { board with
      entry := update.apply board.entry
      script := script
      unsent := some (update.apply board.entry) } where
  final := by
    rw [← inv.final, finalTask, finalTask, todo, List.foldl_cons]
  unsent task member := by
    cases member
    rfl
  streams stream member := by
    have busy : ¬ board.Finished := by
      rintro ⟨noScript, -⟩
      simp [todo] at noScript
    have sound := inv.streams stream member
    refine sound.of_channels ?_ fun receiver held opened found _ => found
    intro receiver held
    obtain ⟨opened, found, seen, delivers⟩ := sound.watches held
    refine ⟨opened, found, seen, ?_⟩
    rcases delivers with isFinal | ⟨isCurrent, -⟩
    · left
      rw [isFinal, finalTask, finalTask, todo, List.foldl_cons]
    · right
      exact ⟨isCurrent, fun finished => nomatch finished.2⟩

theorem listening_of_held {stream : EventStream} {receiver : TaskReceiver}
    (member : stream ∈ board.streams)
    (held : receiver ∈ stream.stage.receiver?) :
    board.listening receiver.channel = true := by
  apply List.any_eq_true.mpr
  refine ⟨stream, member, ?_⟩
  rw [Option.mem_def.mp held]
  simp

/-- The entry is sent to all who listen on the channel in the map. -/
theorem Inv.notify {final : DownloadTask} (inv : board.Inv final)
    {task : DownloadTask} (isUnsent : board.unsent = some task) :
    Inv final (board.notifyTaskSubscribers task) := by
  have isEntry : task = board.entry := inv.unsent task isUnsent
  have busy : ¬ board.Finished := by
    rintro ⟨-, nothingUnsent⟩
    rw [isUnsent] at nothingUnsent
    cases nothingUnsent
  unfold notifyTaskSubscribers
  split
  case h_1 inMap =>
    refine ⟨inv.final, by simp, fun stream member => ?_⟩
    have sound := inv.streams stream member
    refine sound.of_channels ?_ fun receiver held opened found _ => found
    intro receiver held
    obtain ⟨opened, found, seen, delivers⟩ := sound.watches held
    refine ⟨opened, found, seen, Or.inl ?_⟩
    rcases delivers with isFinal | ⟨isCurrent, -⟩
    · exact isFinal
    · rw [inMap] at isCurrent
      cases isCurrent
  case h_2 channel inMap =>
    refine ⟨inv.final, by simp, fun stream member => ?_⟩
    have sound := inv.streams stream member
    -- On the channel in the map the value is new to everybody.
    by_cases onChannel : ∃ receiver ∈ stream.stage.receiver?,
        receiver.channel = channel
    · obtain ⟨receiver, held, rfl⟩ := onChannel
      obtain ⟨opened, found, seen, -⟩ := sound.watches held
      have listens : board.listening receiver.channel = true :=
        listening_of_held member held
      have sent : (board.channels.modify receiver.channel fun opened =>
          opened.send (board.listening receiver.channel) task)[
            receiver.channel]? = some ⟨task, opened.version + 1⟩ := by
        simp [found, listens]
      have onlyOne {other : TaskReceiver}
          (otherHeld : other ∈ stream.stage.receiver?) :
          other = receiver :=
        Option.mem_unique otherHeld held
      refine sound.of_channels ?_ ?_
      · intro other otherHeld
        rw [onlyOne otherHeld]
        refine ⟨_, sent, Nat.le_succ_of_le seen, ?_⟩
        by_cases isOver : board.script = []
        · left
          simp [finalTask, isOver, isEntry]
        · right
          exact ⟨inMap, fun finished => isOver finished.1⟩
      · intro other otherHeld after found' same
        rw [onlyOne otherHeld] at found' same
        rw [sent, Option.some.injEq] at found'
        subst found'
        simp only at same
        omega
    · have elsewhere {receiver : TaskReceiver}
          (held : receiver ∈ stream.stage.receiver?) :
          (board.channels.modify channel fun opened =>
            opened.send (board.listening channel) task)[
              receiver.channel]? = board.channels[receiver.channel]? := by
        have different : channel ≠ receiver.channel :=
          fun same => onChannel ⟨receiver, held, same.symm⟩
        rw [List.getElem?_modify]
        simp [different]
      refine sound.of_channels ?_ ?_
      · intro receiver held
        obtain ⟨opened, found, seen, delivers⟩ := sound.watches held
        refine ⟨opened, (elsewhere held).trans found, seen, Or.inl ?_⟩
        rcases delivers with isFinal | ⟨isCurrent, -⟩
        · exact isFinal
        · rw [inMap, Option.some.injEq] at isCurrent
          exact absurd ⟨receiver, held, isCurrent.symm⟩ onChannel
      · intro receiver held opened found _
        rwa [elsewhere held] at found

theorem Inv.setStream {final : DownloadTask} (inv : board.Inv final)
    {stage : EventStage} {events : List DownloadTask}
    (sound : board.StageSound events stage) (index : Nat) :
    Inv final (board.setStream index stage events) where
  final := inv.final
  unsent := inv.unsent
  streams stream member := by
    rcases List.mem_or_eq_of_mem_set member with old | rfl
    · exact inv.streams stream old
    · exact sound

/-- A new channel takes the place of one that nobody needs any more. -/
theorem Inv.insert {final : DownloadTask} (inv : board.Inv final)
    {snapshot : DownloadTask}
    (timely : ∀ channel ∈ board.current,
      ∀ opened ∈ board.channels[channel]?,
        board.listening channel = false ∨ opened.value = board.finalTask) :
    Inv final { board with
      channels := board.channels ++ [.opened snapshot]
      current := some board.channels.length } where
  final := inv.final
  unsent := inv.unsent
  streams stream member := by
    have sound := inv.streams stream member
    have kept {receiver : TaskReceiver} {opened : WatchChannel DownloadTask}
        (found : board.channels[receiver.channel]? = some opened) :
        (board.channels ++ [.opened snapshot])[receiver.channel]? =
          some opened := by
      obtain ⟨bound, -⟩ := List.getElem?_eq_some_iff.mp found
      rw [List.getElem?_append_left bound]
      exact found
    refine sound.of_channels ?_ ?_
    · intro receiver held
      obtain ⟨opened, found, seen, delivers⟩ := sound.watches held
      refine ⟨opened, kept found, seen, Or.inl ?_⟩
      rcases delivers with isFinal | ⟨isCurrent, -⟩
      · exact isFinal
      · rcases timely receiver.channel isCurrent opened found with
          unheard | isFinal
        · have heard : board.listening receiver.channel = true :=
            listening_of_held member held
          rw [heard] at unheard
          cases unheard
        · exact isFinal
    · intro receiver held opened found _
      obtain ⟨old, oldFound, -⟩ := sound.watches held
      have same : opened = old := by
        have after := kept oldFound
        rw [found, Option.some.injEq] at after
        exact after
      rwa [same]

/-- A timely step of `subscribe_task`. -/
theorem Inv.call {final : DownloadTask} (inv : board.Inv final)
    {index : Nat} {stream : EventStream} {next : TaskBoard}
    (timely : board.TimelyCall stream.stage)
    (moves : board.call index stream = some next) : Inv final next := by
  unfold TaskBoard.call at moves
  cases stage : stream.stage with
  | lookingUp =>
      simp only [stage] at moves timely
      cases inMap : board.current with
      | none =>
          simp only [inMap, Option.some.injEq] at moves
          subst moves
          apply inv.setStream
          trivial
      | some channel =>
          simp only [inMap, Option.map_eq_some_iff] at moves
          obtain ⟨opened, found, rfl⟩ := moves
          apply inv.setStream
          refine ⟨opened, found, le_rfl, ?_⟩
          rcases timely channel inMap opened found with isFinal | busy
          · exact Or.inl isFinal
          · exact Or.inr ⟨inMap, busy⟩
  | cloning =>
      simp only [stage, Option.some.injEq] at moves
      subst moves
      apply inv.setStream
      trivial
  | inserting snapshot =>
      simp only [stage, Option.some.injEq] at moves timely
      subst moves
      apply (inv.insert timely.2).setStream
      refine ⟨.opened snapshot, by simp, le_rfl, ?_⟩
      rcases timely.1 with isFinal | busy
      · exact Or.inl isFinal
      · exact Or.inr ⟨rfl, busy⟩
  | reading receiver => simp [stage] at moves
  | sending receiver task => simp [stage] at moves
  | waiting receiver => simp [stage] at moves
  | ended => simp [stage] at moves
  | disconnected => simp [stage] at moves

/-- A receiver whose sender is gone has the final task. -/
theorem Watches.final_of_dropped {receiver : TaskReceiver}
    (watches : board.Watches receiver)
    (dropped : board.current ≠ some receiver.channel)
    {opened : WatchChannel DownloadTask}
    (found : board.channels[receiver.channel]? = some opened) :
    opened.value = board.finalTask := by
  obtain ⟨other, otherFound, -, delivers⟩ := watches
  rw [found, Option.some.injEq] at otherFound
  subst otherFound
  rcases delivers with isFinal | ⟨isCurrent, -⟩
  · exact isFinal
  · exact absurd isCurrent dropped

theorem Inv.writer {final : DownloadTask} (inv : board.Inv final)
    (terminal : final.status.isTerminal = true) {index : Nat}
    {stream : EventStream} {accepted : Bool} {next : TaskBoard}
    (member : stream ∈ board.streams)
    (moves : board.writer index stream accepted = some next) :
    Inv final next := by
  have sound := inv.streams stream member
  unfold TaskBoard.writer at moves
  cases stage : stream.stage with
  | reading receiver =>
      simp only [stage, Option.map_eq_some_iff] at moves sound
      obtain ⟨opened, found, rfl⟩ := moves
      apply inv.setStream
      refine ⟨sound, fun other otherFound _ => ?_⟩
      rw [found, Option.some.injEq] at otherFound
      rw [otherFound]
  | sending receiver task =>
      simp only [stage] at moves sound
      cases accepted with
      | false =>
          simp only [Bool.false_eq_true, if_false, Option.some.injEq] at moves
          subst moves
          apply inv.setStream
          trivial
      | true =>
          simp only [if_true, Option.some.injEq] at moves
          subst moves
          apply inv.setStream
          cases isLast : task.status.isTerminal with
          | true => exact ⟨task, by simp, isLast⟩
          | false =>
              refine ⟨sound.1, fun opened found same => ?_⟩
              rw [sound.2 opened found same]
              exact isLast
  | waiting receiver =>
      simp only [stage] at moves sound
      cases found : board.channels[receiver.channel]? with
      | none => simp [found] at moves
      | some opened =>
          simp only [found] at moves
          split at moves
          case h_1 =>
            simp only [Option.some.injEq] at moves
            subst moves
            obtain ⟨other, otherFound, -, delivers⟩ := sound.1
            rw [found, Option.some.injEq] at otherFound
            subst otherFound
            apply inv.setStream
            exact ⟨opened, found, le_rfl, delivers⟩
          case h_2 closed =>
            -- The value it has read would be terminal, and it is not.
            obtain ⟨same, dropped⟩ := WatchChannel.poll_eq_closed closed
            have isFinal := sound.1.final_of_dropped
              (by simpa using dropped) found
            have notTerminal := sound.2 opened found same
            rw [isFinal, inv.final, terminal] at notTerminal
            cases notTerminal
          case h_3 => cases moves
  | lookingUp => simp [stage] at moves
  | cloning => simp [stage] at moves
  | inserting snapshot => simp [stage] at moves
  | ended => simp [stage] at moves
  | disconnected => simp [stage] at moves

theorem Inv.step {final : DownloadTask} (inv : board.Inv final)
    (terminal : final.status.isTerminal = true) {action : BoardAction}
    {next : TaskBoard} (timely : board.Timely action)
    (moves : board.step action = some next) : Inv final next := by
  cases action with
  | update =>
      simp only [TaskBoard.step] at moves
      split at moves
      case h_1 update script _ todo =>
        simp only [Option.some.injEq] at moves
        subst moves
        exact inv.update todo
      case h_2 => cases moves
  | notify =>
      simp only [TaskBoard.step, Option.map_eq_some_iff] at moves
      obtain ⟨task, isUnsent, rfl⟩ := moves
      exact inv.notify isUnsent
  | request =>
      simp only [TaskBoard.step, Option.some.injEq] at moves
      subst moves
      refine { inv with streams := ?_ }
      intro stream member
      rcases List.mem_append.mp member with old | new
      · exact inv.streams stream old
      · rw [List.mem_singleton.mp new]
        trivial
  | call index =>
      simp only [TaskBoard.step] at moves
      cases found : board.streams[index]? with
      | none => simp [found] at moves
      | some stream =>
          simp only [found] at moves
          exact inv.call (timely stream found) moves
  | writer index accepted =>
      simp only [TaskBoard.step] at moves
      cases found : board.streams[index]? with
      | none => simp [found] at moves
      | some stream =>
          simp only [found] at moves
          exact inv.writer terminal (List.mem_of_getElem? found) moves

/-! ## Streams end -/

theorem streams_setStream {index : Nat} {stream : EventStream}
    (found : board.streams[index]? = some stream) (stage : EventStage)
    (events : List DownloadTask) :
    (board.setStream index stage events).streams[index]? =
      some ⟨stage, events⟩ := by
  obtain ⟨bound, -⟩ := List.getElem?_eq_some_iff.mp found
  exact List.getElem?_set_self bound

theorem writerEnds_of_step {next : TaskBoard} {index : Nat}
    (moves : board.step (.writer index true) = some next)
    (ends : next.WriterEnds index) : board.WriterEnds index := by
  obtain ⟨count, last, events, reaches, ended, task, isLast, terminal⟩ := ends
  refine ⟨count + 1, last, events, ?_, ended, task, isLast, terminal⟩
  rw [List.replicate_succ, run_cons_of_step moves]
  exact reaches

theorem writerEnds_of_sending {index : Nat} {receiver : TaskReceiver}
    {task : DownloadTask} {events : List DownloadTask}
    (found : board.streams[index]? = some ⟨.sending receiver task, events⟩)
    (terminal : task.status.isTerminal = true) : board.WriterEnds index := by
  have moves : board.step (.writer index true) =
      some (board.setStream index .ended (events ++ [task])) := by
    simp [TaskBoard.step, found, TaskBoard.writer, terminal]
  exact writerEnds_of_step moves
    ⟨0, _, _, rfl, streams_setStream found _ _, task, by simp, terminal⟩

theorem writerEnds_of_reading {index : Nat} {receiver : TaskReceiver}
    {events : List DownloadTask} {opened : WatchChannel DownloadTask}
    (found : board.streams[index]? = some ⟨.reading receiver, events⟩)
    (channel : board.channels[receiver.channel]? = some opened)
    (terminal : opened.value.status.isTerminal = true) :
    board.WriterEnds index := by
  have moves : board.step (.writer index true) = some (board.setStream index
      (.sending receiver opened.value) events) := by
    simp [TaskBoard.step, found, TaskBoard.writer, channel]
  exact writerEnds_of_step moves
    (writerEnds_of_sending (streams_setStream found _ _) terminal)

/-- A writer that has not seen the final task is woken up. -/
theorem writerEnds_of_waiting {index : Nat} {receiver : TaskReceiver}
    {events : List DownloadTask} {opened : WatchChannel DownloadTask}
    (found : board.streams[index]? = some ⟨.waiting receiver, events⟩)
    (channel : board.channels[receiver.channel]? = some opened)
    (terminal : opened.value.status.isTerminal = true)
    (missed : opened.version ≠ receiver.seen) : board.WriterEnds index := by
  have moves : board.step (.writer index true) = some (board.setStream index
      (.reading ⟨receiver.channel, opened.version⟩) events) := by
    simp [TaskBoard.step, found, TaskBoard.writer, channel,
      WatchChannel.poll_of_ne missed]
  exact writerEnds_of_step moves
    (writerEnds_of_reading (streams_setStream found _ _) channel terminal)

/-- What a receiver reads once the worker has finished. -/
theorem Watches.entry_of_finished {receiver : TaskReceiver}
    (watches : board.Watches receiver) (finished : board.Finished) :
    ∃ opened, board.channels[receiver.channel]? = some opened ∧
      opened.value = board.entry := by
  obtain ⟨opened, found, -, delivers⟩ := watches
  refine ⟨opened, found, ?_⟩
  rcases delivers with isFinal | ⟨-, busy⟩
  · rw [isFinal, finalTask_of_finished finished]
  · exact absurd finished busy

theorem Inv.writerEnds {final : DownloadTask} (inv : board.Inv final)
    (finished : board.Finished)
    (terminal : board.entry.status.isTerminal = true) {index : Nat}
    {stream : EventStream} (found : board.streams[index]? = some stream)
    (held : stream.stage.receiver?.isSome) : board.WriterEnds index := by
  have sound := inv.streams stream (List.mem_of_getElem? found)
  obtain ⟨stage, events⟩ := stream
  cases stage with
  | reading receiver =>
      obtain ⟨opened, channel, isEntry⟩ :=
        Watches.entry_of_finished sound finished
      exact writerEnds_of_reading found channel (isEntry ▸ terminal)
  | sending receiver task =>
      cases isLast : task.status.isTerminal with
      | true => exact writerEnds_of_sending found isLast
      | false =>
          obtain ⟨opened, channel, isEntry⟩ :=
            sound.1.entry_of_finished finished
          have missed : opened.version ≠ receiver.seen := by
            intro same
            have isTask := sound.2 opened channel same
            rw [← isTask, isEntry, terminal] at isLast
            cases isLast
          have moves : board.step (.writer index true) =
              some (board.setStream index (.waiting receiver)
                (events ++ [task])) := by
            simp [TaskBoard.step, found, TaskBoard.writer, isLast]
          exact writerEnds_of_step moves
            (writerEnds_of_waiting (streams_setStream found _ _) channel
              (isEntry ▸ terminal) missed)
  | waiting receiver =>
      obtain ⟨opened, channel, isEntry⟩ :=
        sound.1.entry_of_finished finished
      have missed : opened.version ≠ receiver.seen := by
        intro same
        have notTerminal := sound.2 opened channel same
        rw [isEntry, terminal] at notTerminal
        cases notTerminal
      exact writerEnds_of_waiting found channel (isEntry ▸ terminal) missed
  | lookingUp => cases held
  | cloning => cases held
  | inserting => cases held
  | ended => cases held
  | disconnected => cases held

theorem Inv.subscribersSeeEnd {final : DownloadTask}
    (inv : board.Inv final) (terminal : final.status.isTerminal = true) :
    board.SubscribersSeeEnd where
  latest settled stream member receiver held := by
    obtain ⟨opened, found, isEntry⟩ :=
      ((inv.streams stream member).watches held).entry_of_finished settled.1
    simp [TaskBoard.latest, found, isEntry]
  terminal settled := by
    rw [← finalTask_of_finished settled.1, inv.final]
    exact terminal
  delivered stream member receiver held dropped := by
    have watches := (inv.streams stream member).watches held
    obtain ⟨opened, found, -⟩ := watches
    have isFinal := ((inv.streams stream member).watches held).final_of_dropped
      dropped found
    simp [TaskBoard.latest, found, isFinal]
  ended stream member isEnded := by
    have sound := inv.streams stream member
    rw [isEnded] at sound
    exact sound
  finishes settled index stream found held := by
    have isTerminal : board.entry.status.isTerminal = true := by
      rw [← finalTask_of_finished settled.1, inv.final]
      exact terminal
    exact inv.writerEnds settled.1 isTerminal found held

/-- In every interleaving of a worker that leaves its task in a terminal
state with calls of `subscribe_task` that are timely, subscribers see the end
of the download. -/
theorem subscribersSeeEnd_of_timely (task : DownloadTask)
    (script : List TaskUpdate)
    (terminal : (start task script).finalTask.status.isTerminal = true)
    (actions : List BoardAction)
    (timely : Meets step Timely (start task script) actions) :
    ∀ reached ∈ visited step (start task script) actions,
      reached.SubscribersSeeEnd := by
  intro reached member
  have atStart : (start task script).Inv (start task script).finalTask :=
    ⟨rfl, by simp [start], by simp [start]⟩
  have invariant := invariant_of_meets
    (fun board action next inv timely moves =>
      Inv.step inv terminal timely moves) atStart timely
  exact (invariant reached member).subscribersSeeEnd terminal

/-- A download that fails. -/
def failingScript : List TaskUpdate :=
  [.status .downloading, .error "disk full"]

def newTask : DownloadTask :=
  .new "bert" (.huggingFace "org/bert" none)

/-- One client subscribes before the failure and one after it. -/
def timelyRun : List BoardAction :=
  [.request, .call 0, .call 0, .call 0, .writer 0 true, .writer 0 true,
    .update, .notify, .update, .request, .call 1, .notify, .writer 0 true]

theorem timelyRun_subscribersSeeEnd :
    (run step (start newTask failingScript) timelyRun).isSome ∧
      ∀ reached ∈ visited step (start newTask failingScript) timelyRun,
        reached.SubscribersSeeEnd :=
  ⟨by decide, subscribersSeeEnd_of_timely _ _ (by decide) _ (by decide)⟩

/-- A subscriber clones the entry, the worker fails, and the new channel never
gets the news. -/
def lateInsertRun : List BoardAction :=
  [.request, .call 0, .call 0, .update, .notify, .update, .notify, .call 0]

/-- Two subscribers find no channel, and the second one's replaces that of the
first. -/
def replacedChannelRun : List BoardAction :=
  [.request, .request, .call 0, .call 1, .call 0, .call 1, .call 0, .call 1,
    .update, .notify, .update, .notify, .writer 0 true, .writer 0 true,
    .writer 0 true]

/-- The only client disconnects, the news is sent to nobody, and the next
client is given the channel. -/
def unheardRun : List BoardAction :=
  [.request, .call 0, .call 0, .call 0, .writer 0 true, .writer 0 false,
    .update, .notify, .update, .notify, .request, .call 1]

/-- Nothing is to come any more, and a receiver does not read the entry. -/
def leavesBehind (board : TaskBoard) : Bool :=
  decide board.Settled && board.streams.any fun stream =>
    stream.stage.receiver?.any fun receiver =>
      board.latest receiver != some board.entry

/-- A stream has ended, and not after a terminal event. -/
def endsEarly (board : TaskBoard) : Bool :=
  board.streams.any fun stream =>
    stream.stage matches .ended &&
      !(stream.events.getLast?.any fun task => task.status.isTerminal)

theorem not_seeEnd_of_leavesBehind (behind : board.leavesBehind = true) :
    ¬ board.SubscribersSeeEnd := by
  intro seen
  simp only [leavesBehind, Bool.and_eq_true, decide_eq_true_eq,
    List.any_eq_true, Option.any_eq_true, bne_iff_ne] at behind
  obtain ⟨settled, stream, member, receiver, held, differs⟩ := behind
  exact differs (seen.latest settled stream member receiver held)

theorem not_seeEnd_of_endsEarly (early : board.endsEarly = true) :
    ¬ board.SubscribersSeeEnd := by
  intro seen
  simp only [endsEarly, List.any_eq_true, Bool.and_eq_true] at early
  obtain ⟨stream, member, ended, noTerminal⟩ := early
  have isEnded : stream.stage = .ended := by
    cases stage : stream.stage with
    | ended => rfl
    | _ => simp [stage] at ended
  obtain ⟨task, isLast, terminal⟩ := seen.ended stream member isEnded
  simp [isLast, terminal] at noTerminal

/-- After each of the three runs a subscriber is left without the terminal
task, in the second one by a stream that has ended. -/
theorem subscribers_miss_end :
    (¬ ∀ reached ∈ visited step (start newTask failingScript)
        lateInsertRun, reached.SubscribersSeeEnd) ∧
      (¬ ∀ reached ∈ visited step (start newTask failingScript)
        replacedChannelRun, reached.SubscribersSeeEnd) ∧
      ¬ ∀ reached ∈ visited step (start newTask failingScript)
        unheardRun, reached.SubscribersSeeEnd := by
  have ends {actions : List BoardAction} {bad : TaskBoard → Bool}
      (fails : ∀ board, bad board = true → ¬ board.SubscribersSeeEnd)
      (isBad : (run step (start newTask failingScript) actions).any bad =
        true) :
      ¬ ∀ reached ∈ visited step (start newTask failingScript) actions,
        reached.SubscribersSeeEnd := by
    obtain ⟨last, reaches, isBad⟩ := Option.any_eq_true _ _ |>.mp isBad
    exact fun seen =>
      fails last isBad (seen last (last_mem_visited reaches))
  exact ⟨ends (fun _ => not_seeEnd_of_leavesBehind) (by decide),
    ends (fun _ => not_seeEnd_of_endsEarly) (by decide),
    ends (fun _ => not_seeEnd_of_leavesBehind) (by decide)⟩

end TaskBoard

end TorchInference
