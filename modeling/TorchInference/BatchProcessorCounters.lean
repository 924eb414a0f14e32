import TorchInference.BatchProcessor
import TorchInference.CountingSemaphore
import TorchInference.TransitionRuns

/-!
# When the counters of the batch processor agree with its batch

The stores of `add_request` and `get_batch` are made after the lock has been
released, so a call may store a value that is out of date.  A stale value does
no harm while another call has a store to the same counter left.  The counters
agree with the batch whenever no call is in progress if the last outstanding
store to a counter is always made by a call after whose locked section the
batch has not changed.
-/

namespace TorchInference

open TransitionRuns

/-! ## The locked sections -/

namespace BatchQueue

@[simp]
theorem push_heap_ne_nil (queue : BatchQueue) (request : BatchRequest) :
    (queue.push request).heap ≠ [] := by
  simp [push]

@[simp]
theorem drainAll_heap (queue : BatchQueue) : queue.drainAll.2.heap = [] :=
  PriorityHeap.popUpTo_length_self _ _

theorem len_eq_zero (queue : BatchQueue) :
    queue.len = 0 ↔ queue.heap = [] :=
  List.length_eq_zero_iff

end BatchQueue

namespace BatchProcessor

/-- An accepted request is pushed, and the length is read under the lock. -/
theorem addLocked_eq_ok {processor after : BatchProcessor}
    {request : BatchRequest} {len oldestTs : Nat}
    (accepted : processor.addLocked request = .ok ((len, oldestTs), after)) :
    len = after.currentBatch.len ∧
      after = { processor with
        currentBatch := processor.currentBatch.push request } := by
  simp only [addLocked] at accepted
  split at accepted
  · cases accepted
  · cases accepted
    exact ⟨rfl, rfl⟩

theorem oldestNanos_ne_zero (oldestTs batchEpoch : Nat) :
    oldestNanos oldestTs batchEpoch ≠ 0 := by
  change (if UInt64.ofNat (oldestTs - batchEpoch) ≤ 1 then 1
    else UInt64.ofNat (oldestTs - batchEpoch)) ≠ 0
  split_ifs with small
  · decide
  · intro isZero
    rw [isZero] at small
    exact small (by decide)

end BatchProcessor

/-! ## Counters and pending stores -/

/-- The two counters published outside the lock. -/
inductive BatchCounter where
  | queueDepth
  | oldestEnqueueNanos
  deriving DecidableEq

/-- The counter has the value the batch calls for. -/
def BatchProcessor.Agrees (processor : BatchProcessor) : BatchCounter → Prop
  | .queueDepth => processor.queueDepth = processor.currentBatch.len
  | .oldestEnqueueNanos =>
      processor.oldestEnqueueNanos = 0 ↔ processor.currentBatch.heap = []

/-- Both counters agree with the batch, and a waiting request is never behind a
depth of zero. -/
structure BatchProcessor.CountersAgree (processor : BatchProcessor) : Prop where
  queueDepth : processor.queueDepth = processor.currentBatch.heap.length
  oldestEnqueueNanos :
    processor.oldestEnqueueNanos = 0 ↔ processor.currentBatch.heap = []
  noLostWakeUp : processor.currentBatch.heap ≠ [] → processor.queueDepth ≠ 0

theorem BatchProcessor.countersAgree_of_agrees {processor : BatchProcessor}
    (agrees : ∀ counter, processor.Agrees counter) : processor.CountersAgree := by
  have depth := agrees .queueDepth
  refine ⟨depth, agrees .oldestEnqueueNanos, fun waiting empty => waiting ?_⟩
  rw [← BatchQueue.len_eq_zero]
  exact depth.symm.trans empty

namespace BatchOperation

/-- The counter an operation prepares or stores. -/
def counter : BatchOperation → Option BatchCounter
  | storeQueueDepth _ => some .queueDepth
  | readEpoch _ => some .oldestEnqueueNanos
  | storeOldestEnqueueNanos _ => some .oldestEnqueueNanos
  | notifyFull => none
  | countBatch => none
  | unlock => none

def isStore : BatchOperation → Bool
  | storeQueueDepth _ => true
  | storeOldestEnqueueNanos _ => true
  | _ => false

/-- What the operation is going to publish agrees with the batch. -/
def UpToDate (batch : BatchQueue) : BatchOperation → Prop
  | storeQueueDepth len => len = batch.len
  | readEpoch _ => batch.heap ≠ []
  | storeOldestEnqueueNanos nanos => nanos = 0 ↔ batch.heap = []
  | notifyFull => True
  | countBatch => True
  | unlock => True

end BatchOperation

/-- The call has a store to `counter` left. -/
def BatchCall.Pending (call : BatchCall) (counter : BatchCounter) : Prop :=
  ∃ operation ∈ call.operations, operation.counter = some counter

/-- What the call is going to publish agrees with the batch. -/
def BatchCall.UpToDate (batch : BatchQueue) (call : BatchCall) : Prop :=
  ∀ operation ∈ call.operations, operation.UpToDate batch

/-- Only the heap of the batch matters. -/
theorem BatchCall.UpToDate.of_heap_eq {batch other : BatchQueue}
    {call : BatchCall} (upToDate : call.UpToDate batch)
    (sameHeap : other.heap = batch.heap) : call.UpToDate other := by
  intro operation member
  have known := upToDate operation member
  cases operation <;>
    simp_all [BatchOperation.UpToDate, BatchQueue.len]

theorem addRequestCall_upToDate {batch : BatchQueue} (nonempty : batch.heap ≠ [])
    (maxBatchSize oldestTs version : Nat) :
    (addRequestCall maxBatchSize batch.len oldestTs version).UpToDate batch := by
  intro operation member
  simp only [addRequestCall, List.mem_cons] at member
  rcases member with rfl | rfl | notified
  · rfl
  · exact nonempty
  · split at notified
    · rw [List.mem_singleton.mp notified]
      trivial
    · cases notified

theorem addRequestCall_pending (maxBatchSize len oldestTs version : Nat)
    (counter : BatchCounter) :
    (addRequestCall maxBatchSize len oldestTs version).Pending counter := by
  cases counter with
  | queueDepth => exact ⟨_, List.mem_cons_self, rfl⟩
  | oldestEnqueueNanos =>
      exact ⟨_, List.mem_cons_of_mem _ List.mem_cons_self, rfl⟩

/-- The two stores that follow a drain or a clear. -/
theorem upToDate_of_zero_stores {batch : BatchQueue} (empty : batch.heap = [])
    (last : BatchOperation) (silent : last.UpToDate batch)
    {outcome : BatchOutcome} {version : Nat} :
    BatchCall.UpToDate batch
      ⟨[.storeQueueDepth 0, .storeOldestEnqueueNanos 0, last], outcome,
        version⟩ := by
  intro operation member
  simp only [List.mem_cons, List.not_mem_nil, or_false] at member
  rcases member with rfl | rfl | rfl
  · exact ((BatchQueue.len_eq_zero batch).mpr empty).symm
  · exact ⟨fun _ => empty, fun _ => rfl⟩
  · exact silent

theorem pending_of_zero_stores {last : BatchOperation} {outcome : BatchOutcome}
    {version : Nat} (counter : BatchCounter) :
    BatchCall.Pending
      ⟨[.storeQueueDepth 0, .storeOldestEnqueueNanos 0, last], outcome, version⟩
      counter := by
  cases counter with
  | queueDepth => exact ⟨_, List.mem_cons_self, rfl⟩
  | oldestEnqueueNanos =>
      exact ⟨_, List.mem_cons_of_mem _ List.mem_cons_self, rfl⟩

namespace BatchProcessorUse

variable {use next : BatchProcessorUse}

/-! ## One atomic operation -/

theorem perform_unchanged (now : Nat) (operation : BatchOperation)
    (rest : List BatchOperation) :
    (use.perform now operation rest).1.processor.currentBatch =
        use.processor.currentBatch ∧
      (use.perform now operation rest).1.version = use.version := by
  cases operation <;> exact ⟨rfl, rfl⟩

/-- What is left of an up-to-date call stays so. -/
theorem perform_upToDate (now : Nat) {batch : BatchQueue}
    {operation : BatchOperation} {rest : List BatchOperation}
    (upToDate : ∀ other ∈ operation :: rest, other.UpToDate batch) :
    ∀ other ∈ (use.perform now operation rest).2, other.UpToDate batch := by
  have later : ∀ other ∈ rest, other.UpToDate batch :=
    fun other member => upToDate other (List.mem_cons_of_mem _ member)
  cases operation with
  | readEpoch oldestTs =>
      intro other member
      rcases List.mem_cons.mp member with rfl | inRest
      · have nonempty : batch.heap ≠ [] := upToDate _ List.mem_cons_self
        have positive := BatchProcessor.oldestNanos_ne_zero oldestTs
          (use.batchEpoch.getD now)
        exact ⟨fun isZero => absurd isZero positive,
          fun empty => absurd empty nonempty⟩
      · exact later other inRest
  | storeQueueDepth len => exact later
  | storeOldestEnqueueNanos nanos => exact later
  | notifyFull => exact later
  | countBatch => exact later
  | unlock => exact later

/-- An operation that does not store to a counter leaves it as it is, and
leaves the store in place. -/
theorem perform_of_not_store (now : Nat) {operation : BatchOperation}
    (rest : List BatchOperation) {counter : BatchCounter}
    (notStore : ¬ (operation.isStore ∧ operation.counter = some counter)) :
    ((use.perform now operation rest).1.processor.Agrees counter ↔
        use.processor.Agrees counter) ∧
      ((∃ other ∈ operation :: rest, other.counter = some counter) →
        ∃ other ∈ (use.perform now operation rest).2,
          other.counter = some counter) := by
  cases operation <;> cases counter <;>
    simp_all [perform, BatchProcessor.Agrees, BatchOperation.isStore,
      BatchOperation.counter]

/-- A store of an up-to-date value brings the counter in line. -/
theorem perform_of_store (now : Nat) {operation : BatchOperation}
    (rest : List BatchOperation) {counter : BatchCounter}
    (isStore : operation.isStore) (toCounter : operation.counter = some counter)
    (upToDate : operation.UpToDate use.processor.currentBatch) :
    (use.perform now operation rest).1.processor.Agrees counter := by
  cases operation with
  | storeQueueDepth len =>
      cases toCounter
      exact upToDate
  | storeOldestEnqueueNanos nanos =>
      cases toCounter
      exact upToDate
  | readEpoch oldestTs => cases isStore
  | notifyFull => cases isStore
  | countBatch => cases isStore
  | unlock => cases isStore

/-! ## The invariant -/

/-- Calls whose locked section saw the present batch publish values that agree
with it, and a counter with no store outstanding agrees with it. -/
structure Inv (use : BatchProcessorUse) : Prop where
  versions : ∀ call ∈ use.calls, call.version ≤ use.version
  current : ∀ call ∈ use.calls, call.version = use.version →
    call.UpToDate use.processor.currentBatch
  settled : ∀ counter, (∀ call ∈ use.calls, ¬ call.Pending counter) →
    use.processor.Agrees counter

/-- The last outstanding store to a counter is made by a call after whose
locked section the batch has not changed. -/
def LastStoreIsCurrent (use : BatchProcessorUse) :
    BatchProcessorAction → Prop
  | .proceed index _ =>
      match use.calls[index]? with
      | some ⟨operation :: _, _, version⟩ =>
          operation.isStore →
            (∀ other ∈ use.calls.eraseIdx index, ∀ left ∈ other.operations,
              left.counter ≠ operation.counter) →
            version = use.version
      | _ => True
  | _ => True

instance (use : BatchProcessorUse) (action : BatchProcessorAction) :
    Decidable (LastStoreIsCurrent use action) := by
  unfold LastStoreIsCurrent
  split
  · split <;> infer_instance
  · exact instDecidableTrue

theorem inv_start (maxBatchSize : Nat) (batchTimeoutMs : UInt64)
    (adaptive : Bool) (minBatchSize : Nat) (batchEpoch : Option Nat) :
    Inv (start maxBatchSize batchTimeoutMs adaptive minBatchSize
      batchEpoch) := by
  refine ⟨by simp [start], by simp [start], fun counter _ => ?_⟩
  cases counter with
  | queueDepth => rfl
  | oldestEnqueueNanos => exact ⟨fun _ => rfl, fun _ => rfl⟩

/-- The version stays only when the batch was empty and still is. -/
theorem heap_eq_of_nextVersion {processor : BatchProcessor}
    (stays : use.nextVersion processor = use.version) :
    processor.currentBatch.heap = use.processor.currentBatch.heap := by
  unfold nextVersion at stays
  split_ifs at stays with bothEmpty
  · simp only [Bool.and_eq_true, List.isEmpty_iff] at bothEmpty
    rw [bothEmpty.1, bothEmpty.2]
  · omega

/-- A call that has just left its locked section with up-to-date stores. -/
theorem Inv.enter (inv : Inv use) {processor : BatchProcessor}
    {call : Nat → BatchCall}
    (hasVersion : ∀ version, (call version).version = version)
    (upToDate : ∀ version, (call version).UpToDate processor.currentBatch)
    (pending : ∀ version counter, (call version).Pending counter) :
    Inv (use.enter processor call) := by
  have grows : use.version ≤ use.nextVersion processor := by
    unfold nextVersion
    split_ifs <;> omega
  refine ⟨fun other member => ?_, fun other member sameVersion => ?_,
    fun counter nothing => ?_⟩
  · rcases List.mem_append.mp member with before | added
    · exact Nat.le_trans (inv.versions other before) grows
    · rw [List.mem_singleton.mp added, hasVersion]
      exact Nat.le_refl _
  · rcases List.mem_append.mp member with before | added
    · have oldVersion := inv.versions other before
      have stays : use.nextVersion processor = use.version := by
        change other.version = use.nextVersion processor at sameVersion
        omega
      exact (inv.current other before (sameVersion.trans stays)).of_heap_eq
        (heap_eq_of_nextVersion stays)
    · rw [List.mem_singleton.mp added]
      exact upToDate _
  · exact absurd (pending _ counter)
      (nothing _ (List.mem_append_right _ (List.mem_singleton_self _)))

theorem Inv.proceed (inv : Inv use) {index now : Nat}
    (condition : LastStoreIsCurrent use (.proceed index now))
    (stepTo : use.step (.proceed index now) = some next) : Inv next := by
  simp only [BatchProcessorUse.step] at stepTo
  split at stepTo
  · cases stepTo
  · next outcome version atIndex =>
      cases stepTo
      obtain ⟨front, back, split⟩ := CallTable.split_of_getElem? atIndex
      refine ⟨fun call member => inv.versions call
          (List.mem_of_mem_eraseIdx member),
        fun call member => inv.current call (List.mem_of_mem_eraseIdx member),
        fun counter nothing => inv.settled counter fun call member => ?_⟩
      rw [split.calls_eq, List.mem_append, List.mem_cons] at member
      simp only [split.eraseIdx_eq, List.mem_append] at nothing
      rcases member with before | rfl | after
      · exact nothing call (Or.inl before)
      · simp [BatchCall.Pending]
      · exact nothing call (Or.inr after)
  · next operation rest outcome version atIndex =>
      cases stepTo
      obtain ⟨front, back, split⟩ := CallTable.split_of_getElem? atIndex
      obtain ⟨sameBatch, sameVersion⟩ :=
        use.perform_unchanged now operation rest
      have atCall := List.mem_of_getElem? atIndex
      refine ⟨fun call member => ?_, fun call member isCurrent => ?_,
        fun counter nothing => ?_⟩
      · simp only [sameVersion]
        rcases List.mem_or_eq_of_mem_set member with before | rfl
        · exact inv.versions call before
        · exact inv.versions ⟨operation :: rest, outcome, version⟩ atCall
      · simp only [sameVersion] at isCurrent
        simp only [sameBatch]
        rcases List.mem_or_eq_of_mem_set member with before | rfl
        · exact inv.current call before isCurrent
        · exact use.perform_upToDate now (inv.current _ atCall isCurrent)
      · simp only [split.set_eq, List.mem_append, List.mem_cons] at nothing
        have othersDone : ∀ other ∈ use.calls.eraseIdx index,
            ¬ other.Pending counter := by
          intro other member
          rw [split.eraseIdx_eq, List.mem_append] at member
          rcases member with before | after
          · exact nothing other (Or.inl before)
          · exact nothing other (Or.inr (Or.inr after))
        by_cases stores : operation.isStore ∧
            operation.counter = some counter
        · have isCurrent : version = use.version := by
            simp only [LastStoreIsCurrent, atIndex] at condition
            apply condition stores.1
            intro other member left inside sameCounter
            exact othersDone other member
              ⟨left, inside, sameCounter.trans stores.2⟩
          exact use.perform_of_store now rest stores.1 stores.2
            (inv.current _ atCall isCurrent operation List.mem_cons_self)
        · obtain ⟨sameAgreement, stillPending⟩ :=
            use.perform_of_not_store now rest stores
          refine sameAgreement.mpr (inv.settled counter fun call member => ?_)
          rw [split.calls_eq, List.mem_append, List.mem_cons] at member
          rcases member with before | rfl | after
          · exact nothing call (Or.inl before)
          · intro pending
            exact nothing _ (Or.inr (Or.inl rfl)) (stillPending pending)
          · exact nothing call (Or.inr (Or.inr after))

theorem Inv.step (inv : Inv use) {action : BatchProcessorAction}
    (condition : LastStoreIsCurrent use action)
    (stepTo : use.step action = some next) : Inv next := by
  cases action with
  | addRequest request =>
      simp only [BatchProcessorUse.step] at stepTo
      split at stepTo
      · cases stepTo
      · split at stepTo
        · cases stepTo
          exact ⟨inv.versions, inv.current, inv.settled⟩
        · next len oldestTs after accepted =>
            cases stepTo
            obtain ⟨rfl, pushed⟩ := BatchProcessor.addLocked_eq_ok accepted
            refine inv.enter (fun _ => rfl)
              (fun version => addRequestCall_upToDate ?_ _ _ _)
              (fun version => addRequestCall_pending _ _ _ _)
            simp [pushed]
  | getBatch =>
      simp only [BatchProcessorUse.step] at stepTo
      split at stepTo
      · cases stepTo
      · cases stepTo
        exact inv.enter (fun _ => rfl)
          (fun _ => upToDate_of_zero_stores
            (BatchQueue.drainAll_heap _) .countBatch trivial)
          (fun _ => pending_of_zero_stores)
  | clearBatch =>
      simp only [BatchProcessorUse.step] at stepTo
      split at stepTo
      · cases stepTo
      · cases stepTo
        exact inv.enter (fun _ => rfl)
          (fun _ => upToDate_of_zero_stores rfl .unlock trivial)
          (fun _ => pending_of_zero_stores)
  | proceed index now => exact inv.proceed condition stepTo

/-- In every run of any number of calls whose last outstanding stores are up to
date, the counters agree with the batch whenever no call is in progress. -/
theorem countersAgree_of_lastStoreIsCurrent (maxBatchSize : Nat)
    (batchTimeoutMs : UInt64) (adaptive : Bool) (minBatchSize : Nat)
    (batchEpoch : Option Nat) (actions : List BatchProcessorAction)
    (meets : Meets step LastStoreIsCurrent
      (start maxBatchSize batchTimeoutMs adaptive minBatchSize batchEpoch)
      actions) :
    ∀ use ∈ visited step
      (start maxBatchSize batchTimeoutMs adaptive minBatchSize batchEpoch)
      actions,
      use.calls = [] → use.processor.CountersAgree := by
  intro use member idle
  have inv := invariant_of_meets (fun _ _ _ inv => inv.step)
    (inv_start maxBatchSize batchTimeoutMs adaptive minBatchSize batchEpoch)
    meets use member
  apply BatchProcessor.countersAgree_of_agrees
  intro counter
  apply inv.settled
  simp [idle]

def sampleRequest : BatchRequest :=
  ⟨"a", "m", [], 0, 7⟩

/-- A request is drained before its depth is stored, and the drain stores
last. -/
def orderlyRun : List BatchProcessorAction :=
  [.addRequest sampleRequest, .getBatch, .proceed 0 9, .proceed 0 9,
    .proceed 0 9, .proceed 0 9, .proceed 0 9, .proceed 0 9, .proceed 0 9,
    .proceed 0 9]

theorem orderlyRun_countersAgree :
    (run step (start 4 100 true 1 none) orderlyRun).isSome ∧
      ∀ use ∈ visited step (start 4 100 true 1 none) orderlyRun,
        use.calls = [] → use.processor.CountersAgree :=
  ⟨rfl, countersAgree_of_lastStoreIsCurrent 4 100 true 1 none orderlyRun
    (by decide)⟩

/-- A batch is drained; before the drain stores its zeros, another request is
added and published. -/
def lateStoreRun : List BatchProcessorAction :=
  [.addRequest sampleRequest, .proceed 0 9, .proceed 0 9, .proceed 0 9,
    .proceed 0 9, .getBatch, .addRequest sampleRequest, .proceed 1 9,
    .proceed 1 9, .proceed 1 9, .proceed 1 9, .proceed 0 9, .proceed 0 9,
    .proceed 0 9, .proceed 0 9]

/-- The second request waits behind a depth of zero, so that no later check
asks for its batch. -/
theorem lateStoreRun_loses_wakeUp :
    ∃ use, run step (start 4 100 true 1 none) lateStoreRun = some use ∧
      use.calls = [] ∧ use.processor.currentBatch.heap.length = 1 ∧
      use.processor.queueDepth = 0 ∧
      ¬ use.processor.CountersAgree ∧
      ∀ batchEpoch now,
        use.processor.shouldProcessBatch batchEpoch now = false := by
  refine ⟨_, rfl, rfl, rfl, rfl, fun agree => ?_, fun _ _ => rfl⟩
  have depth := agree.queueDepth
  cases depth

end BatchProcessorUse

end TorchInference
