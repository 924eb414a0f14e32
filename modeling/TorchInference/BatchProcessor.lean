import TorchInference.JsonValue
import TorchInference.PriorityHeap

/-!
# The batch processor

`BatchProcessor` collects requests in a priority heap under a mutex and
publishes the depth of the heap and its oldest timestamp in atomics, so that
`should_process_batch` needs no lock.  `add_request` and `get_batch` store to
the atomics after their locked section, `clear_batch` inside it.

A call in progress is the list of atomic operations it has left.  Instants are
in nanoseconds.
-/

namespace TorchInference

structure BatchRequest where
  id : String
  modelName : String
  inputs : List JsonValue
  priority : Int32
  timestamp : Nat

abbrev OrderedBatchRequest :=
  PriorityHeap.Entry BatchRequest

structure BatchQueue where
  heap : List OrderedBatchRequest
  nextSeq : UInt64
  oldestEnqueue : Option Nat

namespace BatchQueue

/-- `BatchQueue::new`. -/
def new : BatchQueue :=
  ⟨[], 0, none⟩

def push (queue : BatchQueue) (request : BatchRequest) : BatchQueue :=
  let ts := request.timestamp
  { heap := ⟨request.priority, queue.nextSeq, request⟩ :: queue.heap
    nextSeq := queue.nextSeq + 1
    oldestEnqueue :=
      match queue.oldestEnqueue with
      | none => some ts
      | some prev => if ts < prev then some ts else some prev }

def len (queue : BatchQueue) : Nat :=
  queue.heap.length

def drainAll (queue : BatchQueue) : List BatchRequest × BatchQueue :=
  let (out, rest) :=
    PriorityHeap.popUpTo PriorityHeap.Entry.cmp queue.heap.length queue.heap
  (out.map PriorityHeap.Entry.request,
    { queue with heap := rest, oldestEnqueue := none })

def clear (queue : BatchQueue) : BatchQueue :=
  { queue with heap := [], oldestEnqueue := none }

end BatchQueue

structure BatchProcessor where
  maxBatchSize : Nat
  minBatchSize : Nat
  batchTimeoutMs : UInt64
  adaptiveTimeoutEnabled : Bool
  currentBatch : BatchQueue
  processedBatches : UInt64
  queueDepth : Nat
  oldestEnqueueNanos : UInt64
  /-- `batch_full_notify` stores a wake-up. -/
  batchFullNotify : Bool

namespace BatchProcessor

/-- `BatchProcessor::new`. -/
def new (maxBatchSize : Nat) (batchTimeoutMs : UInt64) : BatchProcessor where
  maxBatchSize := maxBatchSize
  minBatchSize := 1
  batchTimeoutMs := batchTimeoutMs
  adaptiveTimeoutEnabled := true
  currentBatch := BatchQueue.new
  processedBatches := 0
  queueDepth := 0
  oldestEnqueueNanos := 0
  batchFullNotify := false

def withAdaptiveBatching (processor : BatchProcessor) (enabled : Bool) :
    BatchProcessor :=
  { processor with adaptiveTimeoutEnabled := enabled }

def withMinBatchSize (processor : BatchProcessor) (size : Nat) :
    BatchProcessor :=
  { processor with minBatchSize := size }

def getAdaptiveTimeout (processor : BatchProcessor) : UInt64 :=
  if !processor.adaptiveTimeoutEnabled then processor.batchTimeoutMs
  else if processor.queueDepth ≤ 2 then processor.batchTimeoutMs
  else if processor.queueDepth ≤ 5 then processor.batchTimeoutMs / 2
  else if processor.queueDepth ≤ 10 then processor.batchTimeoutMs / 4
  else processor.batchTimeoutMs / 8

def shouldProcessBatch (processor : BatchProcessor) (batchEpoch now : Nat) :
    Bool :=
  let len := processor.queueDepth
  if len = 0 then false
  else if processor.maxBatchSize ≤ len then true
  else if len < processor.minBatchSize then false
  else
    let nanos := processor.oldestEnqueueNanos
    if 0 < nanos then
      let oldest := batchEpoch + nanos.toNat
      decide (processor.getAdaptiveTimeout.toNat * 1000000 ≤ now - oldest)
    else false

/-! ## The parts of a call -/

/-- The locked section of `add_request`: the new length of the batch and its
oldest timestamp. -/
def addLocked (processor : BatchProcessor) (request : BatchRequest) :
    Except String ((Nat × Nat) × BatchProcessor) :=
  let batch := processor.currentBatch
  if processor.maxBatchSize ≤ batch.len then .error "Batch is full"
  else
    let ts := request.timestamp
    let pushed := batch.push request
    .ok ((pushed.len, pushed.oldestEnqueue.getD ts),
      { processor with currentBatch := pushed })

/-- The locked section of `get_batch`. -/
def drainLocked (processor : BatchProcessor) :
    List BatchRequest × BatchProcessor :=
  let (requests, drained) := processor.currentBatch.drainAll
  (requests, { processor with currentBatch := drained })

/-- What `clear_batch` does to the batch. -/
def clearLocked (processor : BatchProcessor) : BatchProcessor :=
  { processor with currentBatch := processor.currentBatch.clear }

/-- The epoch-nanos `add_request` publishes; zero is kept for an empty batch. -/
def oldestNanos (oldestTs batchEpoch : Nat) : UInt64 :=
  max (UInt64.ofNat (oldestTs - batchEpoch)) 1

end BatchProcessor

/-- One atomic operation of a call after its locked section. -/
inductive BatchOperation where
  | storeQueueDepth (len : Nat)
  | readEpoch (oldestTs : Nat)
  | storeOldestEnqueueNanos (nanos : UInt64)
  | notifyFull
  | countBatch
  | unlock

/-- What a call returns. -/
inductive BatchOutcome where
  | added (result : Except String Bool)
  | drained (requests : List BatchRequest)
  | cleared

/-- A call in progress.  `version` tells how often the batch had changed when
the call left its locked section; no code reads it. -/
structure BatchCall where
  operations : List BatchOperation
  outcome : BatchOutcome
  version : Nat

/-- What is left of `add_request` after its locked section. -/
def addRequestCall (maxBatchSize len oldestTs version : Nat) : BatchCall :=
  let isFull : Bool := maxBatchSize ≤ len
  { operations :=
      .storeQueueDepth len :: .readEpoch oldestTs ::
        if isFull then [.notifyFull] else []
    outcome := .added (.ok isFull)
    version := version }

/-- What is left of `get_batch` after its locked section. -/
def getBatchCall (requests : List BatchRequest) (version : Nat) : BatchCall where
  operations := [.storeQueueDepth 0, .storeOldestEnqueueNanos 0, .countBatch]
  outcome := .drained requests
  version := version

/-- What is left of `clear_batch` once it has cleared the batch; the lock is
held to its end. -/
def clearBatchCall (version : Nat) : BatchCall where
  operations := [.storeQueueDepth 0, .storeOldestEnqueueNanos 0, .unlock]
  outcome := .cleared
  version := version

/-- The processor, the epoch of the process, the calls in progress and what
finished calls returned. -/
structure BatchProcessorUse where
  processor : BatchProcessor
  batchEpoch : Option Nat
  calls : List BatchCall
  outcomes : List BatchOutcome
  version : Nat

/-- A call enters its locked section, or a call in progress goes on. -/
inductive BatchProcessorAction where
  | addRequest (request : BatchRequest)
  | getBatch
  | clearBatch
  | proceed (call : Nat) (now : Nat)

namespace BatchProcessorUse

/-- A configured processor nobody has used yet. -/
def start (maxBatchSize : Nat) (batchTimeoutMs : UInt64) (adaptive : Bool)
    (minBatchSize : Nat) (batchEpoch : Option Nat) : BatchProcessorUse :=
  let processor := BatchProcessor.new maxBatchSize batchTimeoutMs
  ⟨(processor.withAdaptiveBatching adaptive).withMinBatchSize minBatchSize,
    batchEpoch, [], [], 0⟩

/-- Some call in progress holds the mutex. -/
def locked (use : BatchProcessorUse) : Bool :=
  use.calls.any fun call =>
    call.operations.any fun operation =>
      match operation with
      | .unlock => true
      | _ => false

/-- The version after a locked section that leaves `processor`. -/
def nextVersion (use : BatchProcessorUse) (processor : BatchProcessor) : Nat :=
  if processor.currentBatch.heap.isEmpty &&
      use.processor.currentBatch.heap.isEmpty then use.version
  else use.version + 1

/-- A call leaves its locked section. -/
def enter (use : BatchProcessorUse) (processor : BatchProcessor)
    (call : Nat → BatchCall) : BatchProcessorUse :=
  let version := use.nextVersion processor
  { use with
    processor := processor
    calls := use.calls ++ [call version]
    version := version }

/-- The effect of an atomic operation and the operations it leaves. -/
def perform (use : BatchProcessorUse) (now : Nat) :
    BatchOperation → List BatchOperation →
      BatchProcessorUse × List BatchOperation
  | .storeQueueDepth len, rest =>
      ({ use with processor := { use.processor with queueDepth := len } }, rest)
  | .readEpoch oldestTs, rest =>
      let batchEpoch := use.batchEpoch.getD now
      ({ use with batchEpoch := some batchEpoch },
        .storeOldestEnqueueNanos
          (BatchProcessor.oldestNanos oldestTs batchEpoch) :: rest)
  | .storeOldestEnqueueNanos nanos, rest =>
      ({ use with
          processor := { use.processor with oldestEnqueueNanos := nanos } },
        rest)
  | .notifyFull, rest =>
      ({ use with processor := { use.processor with batchFullNotify := true } },
        rest)
  | .countBatch, rest =>
      ({ use with
          processor := { use.processor with
            processedBatches := use.processor.processedBatches + 1 } },
        rest)
  | .unlock, rest => (use, rest)

def step (use : BatchProcessorUse) :
    BatchProcessorAction → Option BatchProcessorUse
  | .addRequest request =>
      if use.locked then none
      else
        match use.processor.addLocked request with
        | .error message =>
            some { use with
              outcomes := use.outcomes ++ [.added (.error message)] }
        | .ok ((len, oldestTs), processor) =>
            some (use.enter processor
              (addRequestCall use.processor.maxBatchSize len oldestTs))
  | .getBatch =>
      if use.locked then none
      else
        let (requests, processor) := use.processor.drainLocked
        some (use.enter processor (getBatchCall requests))
  | .clearBatch =>
      if use.locked then none
      else some (use.enter use.processor.clearLocked clearBatchCall)
  | .proceed call now =>
      match use.calls[call]? with
      | none => none
      | some ⟨[], outcome, _⟩ =>
          some { use with
            calls := use.calls.eraseIdx call
            outcomes := use.outcomes ++ [outcome] }
      | some ⟨operation :: rest, outcome, version⟩ =>
          let (after, left) := use.perform now operation rest
          some { after with calls := use.calls.set call ⟨left, outcome, version⟩ }

end BatchProcessorUse

end TorchInference
