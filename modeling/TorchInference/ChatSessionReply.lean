import TorchInference.ChatCompletions

/-!
# Every run of a chat session makes one reply

The tokens of the engine are in transit through the channel until the reader
has seen its end, and until the reader has replied some party can move.  So a
session can always be run to its reply, no run goes on for ever, and the reply
depends on the behaviour of the engine only, not on the order of the steps.
-/

namespace TorchInference

open TransitionRuns BoundedChannel

/-- The reply of the streaming branch, or of the other. -/
def ChatJob.reply (job : ChatJob) (stream : Bool) : ChatResponse :=
  if stream then
    ChatJob.streamResponse (job.behaviour.tokens.map job.chunk ++ [sseDone])
  else job.answer (String.join job.behaviour.tokens)

/-- The tokens the engine has still to send. -/
def ChatTask.pending (tokens : List String) : ChatTask → List String
  | .waiting => tokens
  | .running pending => pending
  | .returned => []
  | .finished => []

/-- The engine has dropped the sender. -/
def ChatTask.hasReturned : ChatTask → Bool
  | .waiting => false
  | .running _ => false
  | .returned => true
  | .finished => true

/-- The reader holds what it made of the tokens received so far. -/
def ChatReader.Holds (job : ChatJob) (stream : Bool) (received : List String) :
    ChatReader → Prop
  | .streaming events => stream = true ∧ events = received.map job.chunk
  | .collecting content => stream = false ∧ content = String.join received
  | .joining content =>
      stream = false ∧ content = String.join job.behaviour.tokens
  | .replied response => response = job.reply stream

namespace ChatSession

/-- The tokens are in transit from the engine to the reader, and nothing can
keep them from arriving. -/
structure Inv (job : ChatJob) (stream : Bool) (session : ChatSession) :
    Prop where
  arriving : ∃ received,
    Transit job.behaviour.tokens received session.channel
        (session.task.pending job.behaviour.tokens) ∧
      session.reader.Holds job stream received
  senderDropped : session.channel.senderDropped = session.task.hasReturned
  joining : ∀ content, session.reader = .joining content →
    session.task.hasReturned = true
  capacity : 0 < session.channel.buffer.capacity
  leased : session.task = .waiting →
    0 < session.lease.available + session.otherRuns

/-- The steps that are left to the task. -/
def taskWeight (tokens : List String) : ChatTask → Nat
  | .waiting => 2 * tokens.length + 3
  | .running pending => 2 * pending.length + 2
  | .returned => 1
  | .finished => 0

def readerWeight : ChatReader → Nat
  | .streaming _ => 1
  | .collecting _ => 2
  | .joining _ => 1
  | .replied _ => 0

/-- A bound on the steps that are left to all parties. -/
def weight (job : ChatJob) (session : ChatSession) : Nat :=
  2 * session.queuedAhead + session.otherRuns +
    taskWeight job.behaviour.tokens session.task +
    session.channel.buffer.items.length + readerWeight session.reader

variable {job : ChatJob} {stream : Bool} {session next : ChatSession}

/-- What every step does. -/
structure Advance (job : ChatJob) (stream : Bool)
    (session next : ChatSession) : Prop where
  inv : Inv job stream next
  lighter : next.weight job < session.weight job

/-- The reader takes a message. -/
theorem message_advance {token : String} {rest : BoundedChannel String}
    {after : ChatReader} (inv : Inv job stream session)
    (arrived : session.channel.recv = .message token rest)
    (holds : ∀ received, session.reader.Holds job stream received →
      after.Holds job stream (received ++ [token]))
    (notJoining : ∀ content, after ≠ .joining content)
    (sameWeight : readerWeight after = readerWeight session.reader) :
    Advance job stream session
      { session with channel := rest, reader := after } := by
  obtain ⟨⟨received, transit, soFar⟩, senderDropped, _, capacity, leased⟩ := inv
  obtain ⟨items, sameCapacity, sameSender⟩ := recv_eq_message arrived
  constructor
  · refine ⟨⟨received ++ [token], transit.recv arrived, holds received soFar⟩,
      sameSender.trans senderDropped, ?_, ?_, leased⟩
    · intro content isJoining
      exact absurd isJoining (notJoining content)
    · simpa [sameCapacity] using capacity
  · simp [weight, sameWeight, items]

/-- The reader goes on without the channel. -/
theorem reader_advance {after : ChatReader} (inv : Inv job stream session)
    (holds : ∀ received,
      Transit job.behaviour.tokens received session.channel
        (session.task.pending job.behaviour.tokens) →
      session.reader.Holds job stream received →
      after.Holds job stream received)
    (returned : ∀ content, after = .joining content →
      session.task.hasReturned = true)
    (lighter : readerWeight after < readerWeight session.reader) :
    Advance job stream session { session with reader := after } := by
  obtain ⟨⟨received, transit, soFar⟩, senderDropped, _, capacity, leased⟩ := inv
  constructor
  · exact ⟨⟨received, transit, holds received transit soFar⟩, senderDropped,
      returned, capacity, leased⟩
  · simpa [weight] using lighter

/-- In the streaming branch a token becomes a chunk, and the end of the channel
the reply. -/
theorem streaming_advance {events : List SseEvent}
    (inv : Inv job stream session) (reader : session.reader = .streaming events)
    (stepTo : session.read job = some next) :
    Advance job stream session next := by
  unfold read at stepTo
  cases arrived : session.channel.recv with
  | waiting => simp [reader, arrived] at stepTo
  | message token rest =>
      simp only [reader, arrived, Option.some.injEq] at stepTo
      subst stepTo
      apply message_advance inv arrived
      · rw [reader]
        rintro received ⟨isStream, soFar⟩
        exact ⟨isStream, by simp [soFar]⟩
      · rintro content ⟨⟩
      · rw [reader]
        rfl
  | ended =>
      simp only [reader, arrived, Option.some.injEq] at stepTo
      subst stepTo
      apply reader_advance inv
      · rw [reader]
        rintro received transit ⟨isStream, soFar⟩
        have all := transit.received_eq arrived
        simp [ChatReader.Holds, ChatJob.reply, isStream, soFar, all]
      · rintro content ⟨⟩
      · rw [reader]
        exact Nat.zero_lt_one

/-- In the other branch a token is appended, and at the end of the channel the
task is joined. -/
theorem collecting_advance {content : String} (inv : Inv job stream session)
    (reader : session.reader = .collecting content)
    (stepTo : session.read job = some next) :
    Advance job stream session next := by
  unfold read at stepTo
  cases arrived : session.channel.recv with
  | waiting => simp [reader, arrived] at stepTo
  | message token rest =>
      simp only [reader, arrived, Option.some.injEq] at stepTo
      subst stepTo
      apply message_advance inv arrived
      · rw [reader]
        rintro received ⟨isStream, soFar⟩
        refine ⟨isStream, ?_⟩
        rw [soFar, String.join_append, String.join_cons, String.join_nil,
          String.append_empty]
      · rintro content ⟨⟩
      · rw [reader]
        rfl
  | ended =>
      simp only [reader, arrived, Option.some.injEq] at stepTo
      subst stepTo
      apply reader_advance inv
      · rw [reader]
        rintro received transit ⟨isStream, soFar⟩
        refine ⟨isStream, ?_⟩
        rw [soFar, transit.received_eq arrived]
      · intro _ _
        rw [← inv.senderDropped]
        exact (recv_eq_ended arrived).2
      · rw [reader]
        exact Nat.one_lt_two

theorem joining_advance {content : String} (inv : Inv job stream session)
    (reader : session.reader = .joining content)
    (stepTo : session.read job = some next) :
    Advance job stream session next := by
  unfold read at stepTo
  cases task : session.task with
  | finished =>
      simp only [reader, task, Option.some.injEq] at stepTo
      subst stepTo
      rw [← task]
      apply reader_advance inv
      · rw [reader]
        rintro received _ ⟨isStream, soFar⟩
        simp [ChatReader.Holds, ChatJob.reply, isStream, soFar]
      · rintro content ⟨⟩
      · rw [reader]
        exact Nat.zero_lt_one
  | waiting => simp [reader, task] at stepTo
  | running pending => simp [reader, task] at stepTo
  | returned => simp [reader, task] at stepTo

theorem read_advance (inv : Inv job stream session)
    (stepTo : session.read job = some next) :
    Advance job stream session next := by
  cases reader : session.reader with
  | streaming events => exact streaming_advance inv reader stepTo
  | collecting content => exact collecting_advance inv reader stepTo
  | joining content => exact joining_advance inv reader stepTo
  | replied response => simp [read, reader] at stepTo

/-- A run ahead of this one takes a permit or gives it back. -/
theorem others_advance {lease : CountingSemaphore} {otherRuns queuedAhead : Nat}
    (inv : Inv job stream session) (leased : 0 < lease.available + otherRuns)
    (lighter : 2 * queuedAhead + otherRuns <
      2 * session.queuedAhead + session.otherRuns) :
    Advance job stream session
      { session with
        lease := lease
        otherRuns := otherRuns
        queuedAhead := queuedAhead } := by
  constructor
  · exact ⟨inv.arriving, inv.senderDropped, inv.joining, inv.capacity,
      fun _ => leased⟩
  · simp only [weight]
    omega

/-- The task goes on: it has the lease from now on, and what it has still to
send is in transit as before. -/
theorem task_advance {lease : CountingSemaphore} {task : ChatTask}
    {channel : BoundedChannel String} (inv : Inv job stream session)
    (transit : ∀ received,
      Transit job.behaviour.tokens received session.channel
        (session.task.pending job.behaviour.tokens) →
      Transit job.behaviour.tokens received channel
        (task.pending job.behaviour.tokens))
    (senderDropped : channel.senderDropped = task.hasReturned)
    (returned : session.task.hasReturned = true → task.hasReturned = true)
    (capacity : channel.buffer.capacity = session.channel.buffer.capacity)
    (leased : task ≠ .waiting)
    (lighter :
      taskWeight job.behaviour.tokens task + channel.buffer.items.length <
        taskWeight job.behaviour.tokens session.task +
          session.channel.buffer.items.length) :
    Advance job stream session
      { session with lease := lease, task := task, channel := channel } := by
  obtain ⟨received, arriving, holds⟩ := inv.arriving
  constructor
  · refine ⟨⟨received, transit received arriving, holds⟩, senderDropped, ?_, ?_,
      fun waiting => absurd waiting leased⟩
    · exact fun content isJoining => returned (inv.joining content isJoining)
    · simpa [capacity] using inv.capacity
  · simp only [weight]
    omega

/-- Every step of every party keeps the tokens in transit, and none can be
made for ever. -/
theorem step_advance (action : ChatAction) (inv : Inv job stream session)
    (stepTo : session.step job action = some next) :
    Advance job stream session next := by
  have sender := inv.senderDropped
  cases action with
  | othersAcquire =>
      simp only [step] at stepTo
      split at stepTo
      · rename_i queuedAhead lease queued acquired
        obtain rfl := Option.some.inj stepTo
        apply others_advance inv
        · exact Nat.add_pos_right _ (Nat.succ_pos _)
        · omega
      · cases stepTo
  | othersRelease =>
      simp only [step] at stepTo
      split at stepTo
      · cases stepTo
      · rename_i otherRuns running
        obtain rfl := Option.some.inj stepTo
        apply others_advance inv
        · exact Nat.add_pos_left (Nat.succ_pos _) _
        · omega
  | acquire =>
      simp only [step] at stepTo
      split at stepTo
      · rename_i lease waiting _ acquired
        obtain rfl := Option.some.inj stepTo
        rw [waiting] at sender
        apply task_advance inv
        · rw [waiting]
          exact fun received transit => transit
        · exact sender
        · rw [waiting]
          rintro ⟨⟩
        · rfl
        · rintro ⟨⟩
        · simp [waiting, taskWeight]
      · cases stepTo
  | send =>
      simp only [step] at stepTo
      split at stepTo
      · rename_i token pending running
        cases sent : session.channel.send token with
        | none => simp [sent] at stepTo
        | some rest =>
            simp only [sent, Option.some.injEq] at stepTo
            subst stepTo
            obtain ⟨items, sameCapacity, sameSender⟩ := send_eq_some sent
            rw [running] at sender
            apply task_advance inv
            · rw [running]
              exact fun received transit => transit.send sent
            · exact sameSender.trans sender
            · rw [running]
              rintro ⟨⟩
            · exact sameCapacity
            · rintro ⟨⟩
            · simp only [running, taskWeight, items, List.length_cons,
                List.length_append, List.length_nil]
              omega
      · cases stepTo
  | finishChat =>
      simp only [step] at stepTo
      split at stepTo
      · rename_i running
        obtain rfl := Option.some.inj stepTo
        apply task_advance inv
        · rw [running]
          exact fun received transit => transit.dropSender
        · rfl
        · exact fun _ => rfl
        · rfl
        · rintro ⟨⟩
        · simp [running, taskWeight, dropSender]
      · cases stepTo
  | release =>
      simp only [step] at stepTo
      split at stepTo
      · rename_i returned
        obtain rfl := Option.some.inj stepTo
        rw [returned] at sender
        apply task_advance inv
        · rw [returned]
          exact fun received transit => transit
        · exact sender
        · exact fun _ => rfl
        · rfl
        · rintro ⟨⟩
        · simp [returned, taskWeight]
      · cases stepTo
  | read => exact read_advance inv stepTo

/-- The lease is given to this run or to one ahead of it. -/
theorem exists_step_of_waiting (inv : Inv job stream session)
    (waiting : session.task = .waiting) :
    ∃ action next, session.step job action = some next := by
  have leased := inv.leased waiting
  cases available : session.lease.available with
  | zero =>
      obtain ⟨otherRuns, running⟩ :
          ∃ otherRuns, session.otherRuns = otherRuns + 1 :=
        ⟨session.otherRuns - 1, by omega⟩
      refine ⟨.othersRelease, ?_⟩
      simp only [step, running]
      exact ⟨_, rfl⟩
  | succ rest =>
      have acquired : session.lease.tryAcquire = some ⟨rest⟩ :=
        CountingSemaphore.tryAcquire_eq_some.mpr available
      cases queued : session.queuedAhead with
      | zero =>
          refine ⟨.acquire, ?_⟩
          simp only [step, waiting, queued, acquired]
          exact ⟨_, rfl⟩
      | succ queuedAhead =>
          refine ⟨.othersAcquire, ?_⟩
          simp only [step, queued, acquired]
          exact ⟨_, rfl⟩

/-- A reader that is not waiting for the channel or the task can move. -/
theorem exists_read
    (unfinished : ¬ ∃ response, session.reader = .replied response)
    (ready : (∃ content, session.reader = .joining content) →
      session.task = .finished)
    (arrives : (∀ content, session.reader ≠ .joining content) →
      session.channel.recv ≠ .waiting) :
    ∃ action next, session.step job action = some next := by
  refine ⟨.read, ?_⟩
  simp only [step, read]
  cases reader : session.reader with
  | streaming events =>
      rw [reader] at arrives
      cases arrived : session.channel.recv with
      | waiting => exact absurd arrived (arrives (by rintro content ⟨⟩))
      | message token rest => exact ⟨_, rfl⟩
      | ended => exact ⟨_, rfl⟩
  | collecting content =>
      rw [reader] at arrives
      cases arrived : session.channel.recv with
      | waiting => exact absurd arrived (arrives (by rintro content ⟨⟩))
      | message token rest => exact ⟨_, rfl⟩
      | ended => exact ⟨_, rfl⟩
  | joining content =>
      rw [ready ⟨content, reader⟩]
      exact ⟨_, rfl⟩
  | replied response => exact absurd ⟨response, reader⟩ unfinished

/-- Until the reader has replied, some party can move. -/
theorem exists_step (inv : Inv job stream session)
    (unfinished : ¬ ∃ response, session.reader = .replied response) :
    ∃ action next, session.step job action = some next := by
  cases task : session.task with
  | waiting => exact exists_step_of_waiting inv task
  | running pending =>
      have notJoining : ∀ content, session.reader ≠ .joining content := by
        intro content isJoining
        have returned := inv.joining content isJoining
        rw [task] at returned
        cases returned
      cases pending with
      | nil =>
          refine ⟨.finishChat, ?_⟩
          simp only [step, task]
          exact ⟨_, rfl⟩
      | cons token pending =>
          rcases send_or_recv inv.capacity token with
            ⟨after, sent⟩ | ⟨first, after, arrived⟩
          · refine ⟨.send, ?_⟩
            simp only [step, task, sent]
            exact ⟨_, rfl⟩
          · apply exists_read unfinished
            · rintro ⟨content, isJoining⟩
              exact absurd isJoining (notJoining content)
            · rw [arrived]
              rintro _ ⟨⟩
  | returned =>
      refine ⟨.release, ?_⟩
      simp only [step, task]
      exact ⟨_, rfl⟩
  | finished =>
      apply exists_read unfinished
      · exact fun _ => task
      · intro _ waiting
        have open_ := (recv_eq_waiting waiting).2
        rw [inv.senderDropped, task] at open_
        cases open_

/-- A session that keeps the invariant can be run to its reply. -/
theorem exists_reply (inv : Inv job stream session) :
    ∃ actions last, run (step job) session actions = some last ∧
      ∃ response, last.reader = .replied response :=
  exists_run_to_final (weight job)
    (fun _ action _ inv stepTo => (step_advance action inv stepTo).inv)
    (fun _ action _ inv stepTo => (step_advance action inv stepTo).lighter)
    (fun _ inv unfinished => exists_step inv unfinished) session inv

/-- Every run that replies makes the same reply. -/
theorem reply_of_run {last : ChatSession} {actions : List ChatAction}
    {response : ChatResponse} (inv : Inv job stream session)
    (reaches : run (step job) session actions = some last)
    (replied : last.reader = .replied response) :
    response = job.reply stream := by
  have kept := invariant_of_run_eq_some
    (fun _ action _ inv stepTo => (step_advance action inv stepTo).inv)
    inv reaches
  obtain ⟨received, _, holds⟩ := kept.arriving
  rw [replied] at holds
  exact holds

/-- No run of a session is longer than its weight. -/
theorem length_le_weight {last : ChatSession} {actions : List ChatAction}
    (inv : Inv job stream session)
    (reaches : run (step job) session actions = some last) :
    actions.length ≤ session.weight job :=
  length_le_measure (weight job)
    (fun _ action _ inv stepTo => (step_advance action inv stepTo).inv)
    (fun _ action _ inv stepTo => (step_advance action inv stepTo).lighter)
    inv reaches

end ChatSession

end TorchInference
