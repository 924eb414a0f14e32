import TorchInference.BatchProcessorCounters

/-!
# When a batch is ready

`should_process_batch` decides by the published depth and the published
oldest instant, in nanoseconds since the batch epoch, instead of by the heap.
The epoch is set by the first `add_request` of the process, an instant before
it counts as the epoch, and zero is kept for an empty batch.  For one call
after another the decision is the one by the heap, with the smallest timestamp
moved to one nanosecond after the epoch if it is earlier.
-/

namespace TorchInference

open TransitionRuns

namespace BatchProcessor

/-- The timeout `get_adaptive_timeout` gives for a number of requests. -/
def adaptiveTimeout (batchTimeoutMs : UInt64) (enabled : Bool) (depth : Nat) :
    UInt64 :=
  if !enabled then batchTimeoutMs
  else if depth ≤ 2 then batchTimeoutMs
  else if depth ≤ 5 then batchTimeoutMs / 2
  else if depth ≤ 10 then batchTimeoutMs / 4
  else batchTimeoutMs / 8

theorem getAdaptiveTimeout_eq (processor : BatchProcessor) :
    processor.getAdaptiveTimeout =
      adaptiveTimeout processor.batchTimeoutMs
        processor.adaptiveTimeoutEnabled processor.queueDepth :=
  rfl

/-- The instant the published nanoseconds stand for. -/
def recordedInstant (oldestTs batchEpoch : Nat) : Nat :=
  batchEpoch + (oldestNanos oldestTs batchEpoch).toNat

theorem oldestNanos_toNat (oldestTs batchEpoch : Nat) :
    (oldestNanos oldestTs batchEpoch).toNat =
      max ((oldestTs - batchEpoch) % 2 ^ 64) 1 := by
  change (if UInt64.ofNat (oldestTs - batchEpoch) ≤ 1 then 1
    else UInt64.ofNat (oldestTs - batchEpoch)).toNat = _
  have one : UInt64.toNat 1 = 1 := rfl
  split_ifs with small
  · have bound := UInt64.le_iff_toNat_le.mp small
    rw [UInt64.toNat_ofNat', one] at bound
    rw [one]
    omega
  · rw [UInt64.le_iff_toNat_le, UInt64.toNat_ofNat', one] at small
    rw [UInt64.toNat_ofNat']
    omega

/-- A timestamp after the epoch, and not 584 years later, is recorded as it
is. -/
theorem recordedInstant_of_later {oldestTs batchEpoch : Nat}
    (later : batchEpoch < oldestTs) (inRange : oldestTs < batchEpoch + 2 ^ 64) :
    recordedInstant oldestTs batchEpoch = oldestTs := by
  rw [recordedInstant, oldestNanos_toNat, Nat.mod_eq_of_lt (by omega)]
  omega

/-- Any other timestamp in range counts as one nanosecond after the epoch. -/
theorem recordedInstant_of_earlier {oldestTs batchEpoch : Nat}
    (earlier : oldestTs ≤ batchEpoch) :
    recordedInstant oldestTs batchEpoch = batchEpoch + 1 := by
  rw [recordedInstant, oldestNanos_toNat]
  have nothing : oldestTs - batchEpoch = 0 := by omega
  rw [nothing]
  rfl

/-! ## Whole calls -/

/-- `add_request` from its start to its end, with the epoch it leaves. -/
def addRequest (processor : BatchProcessor) (batchEpoch : Option Nat)
    (request : BatchRequest) (now : Nat) :
    Except String Bool × BatchProcessor × Option Nat :=
  match processor.addLocked request with
  | .error message => (.error message, processor, batchEpoch)
  | .ok ((len, oldestTs), pushed) =>
      let epoch := batchEpoch.getD now
      let isFull : Bool := processor.maxBatchSize ≤ len
      (.ok isFull,
        { pushed with
          queueDepth := len
          oldestEnqueueNanos := oldestNanos oldestTs epoch
          batchFullNotify := isFull || pushed.batchFullNotify },
        some epoch)

/-- `get_batch` from its start to its end. -/
def getBatch (processor : BatchProcessor) :
    List BatchRequest × BatchProcessor :=
  let (requests, drained) := processor.drainLocked
  (requests,
    { drained with
      queueDepth := 0
      oldestEnqueueNanos := 0
      processedBatches := drained.processedBatches + 1 })

def clearBatch (processor : BatchProcessor) : BatchProcessor :=
  { processor.clearLocked with queueDepth := 0, oldestEnqueueNanos := 0 }

/-- The timestamps of the requests in the heap. -/
def timestamps (processor : BatchProcessor) : List Nat :=
  processor.currentBatch.heap.map fun entry => entry.request.timestamp

end BatchProcessor

/-! ## Whole calls as runs -/

namespace BatchProcessorUse

/-- A `get_batch` that nothing comes between. -/
theorem run_getBatch (processor : BatchProcessor) (batchEpoch : Option Nat)
    (outcomes : List BatchOutcome) (version now : Nat) :
    ∃ later, run step ⟨processor, batchEpoch, [], outcomes, version⟩
        (.getBatch :: List.replicate 4 (.proceed 0 now)) =
      some ⟨processor.getBatch.2, batchEpoch, [],
        outcomes ++ [.drained processor.getBatch.1], later⟩ :=
  ⟨_, rfl⟩

theorem run_clearBatch (processor : BatchProcessor) (batchEpoch : Option Nat)
    (outcomes : List BatchOutcome) (version now : Nat) :
    ∃ later, run step ⟨processor, batchEpoch, [], outcomes, version⟩
        (.clearBatch :: List.replicate 4 (.proceed 0 now)) =
      some ⟨processor.clearBatch, batchEpoch, [], outcomes ++ [.cleared],
        later⟩ :=
  ⟨_, rfl⟩

/-- An `add_request` that nothing comes between, refused, or accepted with or
without a notification. -/
theorem run_addRequest (processor : BatchProcessor) (batchEpoch : Option Nat)
    (outcomes : List BatchOutcome) (version : Nat) (request : BatchRequest)
    (now : Nat) :
    let (result, after, epoch) := processor.addRequest batchEpoch request now
    ∃ count later, run step ⟨processor, batchEpoch, [], outcomes, version⟩
        (.addRequest request :: List.replicate count (.proceed 0 now)) =
      some ⟨after, epoch, [], outcomes ++ [.added result], later⟩ := by
  cases entered : processor.addLocked request with
  | error message =>
      simp only [BatchProcessor.addRequest, entered]
      refine ⟨0, version, ?_⟩
      simp [run, step, entered, locked]
  | ok accepted =>
      obtain ⟨⟨len, oldestTs⟩, pushed⟩ := accepted
      simp only [BatchProcessor.addRequest, entered]
      let use : BatchProcessorUse :=
        ⟨processor, batchEpoch, [], outcomes, version⟩
      by_cases isFull : processor.maxBatchSize ≤ len
      · refine ⟨5, use.nextVersion pushed, ?_⟩
        simp [run, step, entered, locked, enter,
          addRequestCall, perform, isFull, List.replicate, use]
      · refine ⟨4, use.nextVersion pushed, ?_⟩
        simp [run, step, entered, locked, enter,
          addRequestCall, perform, isFull, List.replicate, use]

end BatchProcessorUse

/-! ## One call after another -/

/-- The processor and the epoch of the process, between two calls. -/
structure BatchProcessorState where
  processor : BatchProcessor
  batchEpoch : Option Nat

/-- One whole call, or another processor's first `add_request`, which sets the
epoch of the process. -/
inductive BatchProcessorCall where
  | addRequest (request : BatchRequest) (now : Nat)
  | getBatch
  | clearBatch
  | setEpoch (now : Nat)

namespace BatchProcessorState

/-- A configured processor nobody has used yet. -/
def start (maxBatchSize : Nat) (batchTimeoutMs : UInt64) (adaptive : Bool)
    (minBatchSize : Nat) (batchEpoch : Option Nat) : BatchProcessorState :=
  let processor := BatchProcessor.new maxBatchSize batchTimeoutMs
  ⟨(processor.withAdaptiveBatching adaptive).withMinBatchSize minBatchSize,
    batchEpoch⟩

def call (state : BatchProcessorState) : BatchProcessorCall →
    BatchProcessorState
  | .addRequest request now =>
      let (_, processor, batchEpoch) :=
        state.processor.addRequest state.batchEpoch request now
      ⟨processor, batchEpoch⟩
  | .getBatch => { state with processor := state.processor.getBatch.2 }
  | .clearBatch => { state with processor := state.processor.clearBatch }
  | .setEpoch now =>
      { state with batchEpoch := some (state.batchEpoch.getD now) }

def calls (state : BatchProcessorState) (made : List BatchProcessorCall) :
    BatchProcessorState :=
  made.foldl call state

/-- What `should_process_batch` answers at an instant. -/
def ready (state : BatchProcessorState) (now : Nat) : Bool :=
  state.processor.shouldProcessBatch (state.batchEpoch.getD now) now

/-- The batch is full, or large enough and its oldest request, as `instant`
gives it, has waited for the timeout. -/
def Due (processor : BatchProcessor) (instant : Nat → Nat) (now : Nat) : Prop :=
  let depth := processor.currentBatch.heap.length
  0 < depth ∧
    (processor.maxBatchSize ≤ depth ∨
      processor.minBatchSize ≤ depth ∧
        ∃ oldest ∈ processor.timestamps.min?,
          (BatchProcessor.adaptiveTimeout processor.batchTimeoutMs
            processor.adaptiveTimeoutEnabled depth).toNat * 1000000 ≤
              now - instant oldest)

/-- The counters say what the heap says. -/
structure Published (state : BatchProcessorState) : Prop where
  queueDepth :
    state.processor.queueDepth = state.processor.currentBatch.heap.length
  oldestEnqueue : state.processor.currentBatch.oldestEnqueue =
    state.processor.timestamps.min?
  oldestNanos : ∀ oldest ∈ state.processor.timestamps.min?,
    ∃ epoch ∈ state.batchEpoch, state.processor.oldestEnqueueNanos =
      BatchProcessor.oldestNanos oldest epoch

theorem published_start (maxBatchSize : Nat) (batchTimeoutMs : UInt64)
    (adaptive : Bool) (minBatchSize : Nat) (batchEpoch : Option Nat) :
    Published
      (start maxBatchSize batchTimeoutMs adaptive minBatchSize batchEpoch) where
  queueDepth := rfl
  oldestEnqueue := rfl
  oldestNanos := fun _ absent => nomatch absent

theorem push_oldestEnqueue {queue : BatchQueue}
    (tracked : queue.oldestEnqueue =
      (queue.heap.map fun entry => entry.request.timestamp).min?)
    (request : BatchRequest) :
    (queue.push request).oldestEnqueue =
      ((queue.push request).heap.map
        fun entry => entry.request.timestamp).min? := by
  simp only [BatchQueue.push, tracked, List.map_cons, List.min?_cons]
  cases (queue.heap.map fun entry => entry.request.timestamp).min? with
  | none => rfl
  | some oldest =>
      simp only [Option.elim_some]
      split_ifs with earlier
      · rw [Nat.min_eq_left (Nat.le_of_lt earlier)]
      · rw [Nat.min_eq_right (Nat.le_of_not_lt earlier)]

namespace Published

variable {state : BatchProcessorState}

theorem addRequest (published : Published state) (request : BatchRequest)
    (now : Nat) : Published (state.call (.addRequest request now)) := by
  by_cases full :
      state.processor.maxBatchSize ≤ state.processor.currentBatch.len
  · simp only [call, BatchProcessor.addRequest, BatchProcessor.addLocked,
      if_pos full]
    exact published
  simp only [call, BatchProcessor.addRequest, BatchProcessor.addLocked,
    if_neg full]
  have tracked := push_oldestEnqueue published.oldestEnqueue request
  constructor
  · rfl
  · exact tracked
  · intro oldest smallest
    refine ⟨_, rfl, ?_⟩
    have read : (state.processor.currentBatch.push request).oldestEnqueue =
        some oldest :=
      tracked.trans smallest
    rw [read]
    rfl

theorem getBatch : Published (state.call .getBatch) := by
  have empty : state.processor.getBatch.2.currentBatch.heap = [] :=
    BatchQueue.drainAll_heap _
  constructor
  · simp only [call, empty]
    rfl
  · simp only [call, BatchProcessor.timestamps, empty]
    rfl
  · intro oldest smallest
    simp only [call, BatchProcessor.timestamps, empty] at smallest
    cases smallest

theorem clearBatch : Published (state.call .clearBatch) where
  queueDepth := rfl
  oldestEnqueue := rfl
  oldestNanos := fun _ absent => nomatch absent

theorem setEpoch (published : Published state) (now : Nat) :
    Published (state.call (.setEpoch now)) := by
  refine ⟨published.queueDepth, published.oldestEnqueue, ?_⟩
  intro oldest smallest
  obtain ⟨epoch, known, nanos⟩ := published.oldestNanos oldest smallest
  refine ⟨epoch, ?_, nanos⟩
  have epochEq : state.batchEpoch = some epoch := known
  simp [call, epochEq]

/-- One call keeps the counters in step with the heap. -/
theorem call (published : Published state) (made : BatchProcessorCall) :
    Published (state.call made) := by
  cases made with
  | addRequest request now => exact published.addRequest request now
  | getBatch => exact getBatch
  | clearBatch => exact clearBatch
  | setEpoch now => exact published.setEpoch now

theorem calls (published : Published state) (made : List BatchProcessorCall) :
    Published (state.calls made) := by
  induction made generalizing state with
  | nil => exact published
  | cons first made ih => exact ih (published.call first)

/-- A waiting request has its oldest instant published. -/
theorem exists_recorded (published : Published state)
    (waiting : state.processor.currentBatch.heap.length ≠ 0) :
    ∃ oldest epoch, state.processor.timestamps.min? = some oldest ∧
      state.batchEpoch = some epoch ∧
      state.processor.oldestEnqueueNanos =
        BatchProcessor.oldestNanos oldest epoch := by
  cases smallest : state.processor.timestamps.min? with
  | none =>
      have nothing := List.min?_eq_none_iff.mp smallest
      exact absurd (by simpa [BatchProcessor.timestamps] using nothing) waiting
  | some oldest =>
      obtain ⟨epoch, known, nanos⟩ := published.oldestNanos oldest smallest
      exact ⟨oldest, epoch, rfl, known, nanos⟩

/-- `should_process_batch` decides by the heap, its smallest timestamp taken as
recorded. -/
theorem ready_iff (published : Published state) (now : Nat) :
    state.ready now = true ↔
      Due state.processor
        (BatchProcessor.recordedInstant · (state.batchEpoch.getD now)) now := by
  have depth := published.queueDepth
  simp only [ready, BatchProcessor.shouldProcessBatch, Due]
  rw [BatchProcessor.getAdaptiveTimeout_eq, depth]
  by_cases empty : state.processor.currentBatch.heap.length = 0
  · simp [empty]
  obtain ⟨oldest, epoch, smallest, known, nanos⟩ :=
    published.exists_recorded empty
  have positive : 0 < state.processor.oldestEnqueueNanos := by
    rw [nanos, UInt64.lt_iff_toNat_lt, BatchProcessor.oldestNanos_toNat]
    exact Nat.lt_of_lt_of_le Nat.one_pos (Nat.le_max_right _ _)
  have recorded : state.batchEpoch.getD now +
      state.processor.oldestEnqueueNanos.toNat =
        BatchProcessor.recordedInstant oldest (state.batchEpoch.getD now) := by
    rw [known, nanos]
    rfl
  rw [if_neg empty, if_pos positive, recorded]
  split_ifs with full small
  · simp only [true_iff]
    exact ⟨Nat.pos_of_ne_zero empty, .inl full⟩
  · simp only [false_iff]
    rintro ⟨_, isFull | ⟨large, _⟩⟩
    · exact full isFull
    · exact Nat.not_lt_of_le large small
  · rw [decide_eq_true_iff]
    constructor
    · intro waited
      exact ⟨Nat.pos_of_ne_zero empty,
        .inr ⟨Nat.le_of_not_lt small, oldest, smallest, waited⟩⟩
    · rintro ⟨_, isFull | ⟨_, other, otherSmallest, waited⟩⟩
      · exact absurd isFull full
      · rw [smallest] at otherSmallest
        cases otherSmallest
        exact waited

end Published

/-- After any calls, one after another, `should_process_batch` answers that the
batch is due, its oldest request counted from its timestamp in the encoding of
the atomic. -/
theorem ready_iff_due (maxBatchSize : Nat) (batchTimeoutMs : UInt64)
    (adaptive : Bool) (minBatchSize : Nat) (batchEpoch : Option Nat)
    (made : List BatchProcessorCall) (now : Nat) :
    let state := (start maxBatchSize batchTimeoutMs adaptive minBatchSize
      batchEpoch).calls made
    let epoch := state.batchEpoch.getD now
    state.ready now = true ↔
      Due state.processor
        (fun oldest => epoch + max ((oldest - epoch) % 2 ^ 64) 1) now := by
  intro state epoch
  have published : Published state :=
    (published_start maxBatchSize batchTimeoutMs adaptive minBatchSize
      batchEpoch).calls made
  simp only [published.ready_iff, BatchProcessor.recordedInstant,
    BatchProcessor.oldestNanos_toNat, epoch]

/-- The answer is the one by the heap when the smallest timestamp comes after
the epoch. -/
theorem ready_iff_due_of_later {state : BatchProcessorState}
    (published : Published state) {now : Nat}
    (later : ∀ oldest ∈ state.processor.timestamps.min?,
      ∀ epoch ∈ state.batchEpoch,
        epoch < oldest ∧ oldest < epoch + 2 ^ 64) :
    state.ready now = true ↔ Due state.processor id now := by
  rw [published.ready_iff]
  apply and_congr_right
  intro waiting
  obtain ⟨oldest, epoch, smallest, known, _⟩ :=
    published.exists_recorded (Nat.ne_of_gt waiting)
  obtain ⟨after, inRange⟩ := later oldest smallest epoch known
  have recorded : BatchProcessor.recordedInstant oldest epoch = oldest :=
    BatchProcessor.recordedInstant_of_later after inRange
  simp [smallest, known, recorded]

/-- A request five seconds old is the first of the process. -/
def lateRequest : List BatchProcessorCall :=
  [.addRequest ⟨"late", "resnet", [], 0, 0⟩ 5000000000]

/-- Its age counts from the epoch, so it is not ready when it is due. -/
theorem lateRequest_notReady :
    let state := (start 10 100 false 1 none).calls lateRequest
    state.ready 5050000000 = false ∧ Due state.processor id 5050000000 := by
  refine ⟨by decide +kernel, by decide, .inr ⟨by decide, 0, rfl, ?_⟩⟩
  decide +kernel

end BatchProcessorState

end TorchInference
