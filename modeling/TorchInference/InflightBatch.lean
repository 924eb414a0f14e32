import TorchInference.CountingSemaphore
import TorchInference.JsonValue
import TorchInference.PriorityHeap
import Mathlib.Logic.Function.Basic

/-!
# Inflight batching

`InflightBatchProcessor` lets batches form while others are processed.
`add_request` pushes under the write lock; `try_form_batch` peeks under the
read lock, takes a permit without waiting and drains under the write lock; the
guard it returns gives its slot back when it is completed or dropped.  Each
locked section and each later atomic operation is one step, and the steps of
any number of tasks interleave.  Instants are in nanoseconds.
-/

namespace TorchInference

/-- A request and the channel its result is sent through. -/
structure InflightRequest where
  id : String
  modelName : String
  inputs : List JsonValue
  priority : Int32
  timestamp : Nat
  responseTx : Nat

abbrev OrderedRequest :=
  PriorityHeap.Entry InflightRequest

structure PriorityQueue where
  heap : List OrderedRequest
  nextSeq : UInt64
  oldestEnqueue : Option Nat

namespace PriorityQueue

def new : PriorityQueue :=
  ⟨[], 0, none⟩

def push (queue : PriorityQueue) (request : InflightRequest) : PriorityQueue :=
  let ts := request.timestamp
  { heap := ⟨request.priority, queue.nextSeq, request⟩ :: queue.heap
    nextSeq := queue.nextSeq + 1
    oldestEnqueue := some
      (match queue.oldestEnqueue with
      | none => ts
      | some prev => if prev ≤ ts then prev else ts) }

/-- The requests in the order `drain_all` hands them to its callback. -/
def drainAll (queue : PriorityQueue) : List InflightRequest × PriorityQueue :=
  let (items, rest) :=
    PriorityHeap.popUpTo PriorityHeap.Entry.cmp queue.heap.length queue.heap
  (items.map PriorityHeap.Entry.request,
    { queue with heap := rest, oldestEnqueue := none })

def drainUpTo (queue : PriorityQueue) (max : Nat) :
    List InflightRequest × PriorityQueue :=
  let (items, rest) :=
    PriorityHeap.popUpTo PriorityHeap.Entry.cmp max queue.heap
  (items.map PriorityHeap.Entry.request,
    { queue with
      heap := rest
      oldestEnqueue :=
        if rest.isEmpty then none
        else (rest.map fun entry => entry.request.timestamp).min? })

def len (queue : PriorityQueue) : Nat :=
  queue.heap.length

def isEmpty (queue : PriorityQueue) : Bool :=
  queue.heap.isEmpty

def oldestAge (queue : PriorityQueue) (now : Nat) : Option Nat :=
  queue.oldestEnqueue.map fun oldest => now - oldest

/-- The pending requests. -/
def requests (queue : PriorityQueue) : List InflightRequest :=
  queue.heap.map PriorityHeap.Entry.request

end PriorityQueue

structure InflightBatchProcessor where
  maxBatchSize : Nat
  maxInflightBatches : Nat
  batchTimeoutMs : UInt64
  pendingQueue : PriorityQueue
  inflightSemaphore : CountingSemaphore
  processedBatches : UInt64
  processedRequests : UInt64
  totalLatencyMs : UInt64
  currentQueueDepth : Nat
  peakQueueDepth : Nat
  inflightBatches : UInt64

namespace InflightBatchProcessor

/-- `InflightBatchProcessor::new`; `none` is the panic of the semaphore. -/
def new (maxBatchSize maxInflightBatches : Nat) (batchTimeoutMs : UInt64) :
    Option InflightBatchProcessor :=
  if maxInflightBatches ≤ CountingSemaphore.maxPermits then
    some
      { maxBatchSize := maxBatchSize
        maxInflightBatches := maxInflightBatches
        batchTimeoutMs := batchTimeoutMs
        pendingQueue := PriorityQueue.new
        inflightSemaphore := ⟨maxInflightBatches⟩
        processedBatches := 0
        processedRequests := 0
        totalLatencyMs := 0
        currentQueueDepth := 0
        peakQueueDepth := 0
        inflightBatches := 0 }
  else none

/-- The locked section of `add_request`. -/
def pushLocked (processor : InflightBatchProcessor) (request : InflightRequest) :
    InflightBatchProcessor :=
  { processor with pendingQueue := processor.pendingQueue.push request }

/-- The peek of `try_form_batch`: whether a batch should be formed. -/
def shouldForm (processor : InflightBatchProcessor) (now : Nat) : Bool :=
  let queue := processor.pendingQueue
  if queue.isEmpty then false
  else
    let oldestAge := (queue.oldestAge now).getD 0
    let full := decide (processor.maxBatchSize ≤ queue.len)
    full || decide (processor.batchTimeoutMs.toNat * 1000000 ≤ oldestAge)

/-- The write-locked section of `try_form_batch`; nothing is drained when the
queue was emptied since the peek. -/
def drainLocked (processor : InflightBatchProcessor) :
    Option (List InflightRequest × InflightBatchProcessor) :=
  let queue := processor.pendingQueue
  if queue.isEmpty then none
  else
    let batchSize := min queue.len processor.maxBatchSize
    let (batch, rest) := queue.drainUpTo batchSize
    some (batch,
      { processor with
        pendingQueue := rest
        currentQueueDepth := rest.len
        inflightBatches := processor.inflightBatches + 1 })

/-- `clear_queue`, and the requests whose senders get `Queue cleared`. -/
def clearQueue (processor : InflightBatchProcessor) :
    List InflightRequest × InflightBatchProcessor :=
  let (requests, rest) := processor.pendingQueue.drainAll
  (requests, { processor with pendingQueue := rest, currentQueueDepth := 0 })

end InflightBatchProcessor

/-- Where a guard stands between `try_form_batch` and its end. -/
inductive GuardStage where
  | live
  | countBatch (processingTimeMs : UInt64)
  | countRequests (processingTimeMs : UInt64)
  | addLatency (processingTimeMs : UInt64)
  | decrementInflight
  /-- `Drop::drop` runs, with the flag it finds. -/
  | drop (completed : Bool)
  /-- The fields are dropped, the permit among them. -/
  | releasePermit
  deriving DecidableEq

/-- A guard; its `completed` flag is set when `complete` begins and read by the
drop, so the stage tells it. -/
structure InflightBatchGuard where
  batch : List InflightRequest
  stage : GuardStage

/-- `InflightBatchGuard::new`. -/
def InflightBatchGuard.new (batch : List InflightRequest) :
    InflightBatchGuard :=
  ⟨batch, .live⟩

/-- What a peek saw, and how often requests had been removed until then. -/
structure Peek where
  queue : PriorityQueue
  at_ : Nat
  removals : Nat

/-- A call in progress.  The record of the peek is not read by the code. -/
inductive InflightCall where
  | storeDepth (queueSize : Nat)
  | updatePeak (queueSize : Nat)
  | acquirePermit (peek : Peek)
  | drainBatch (peek : Peek)
  /-- The queue was empty again: the permit goes out of scope. -/
  | abandonPermit
  | returnGuard (batch : List InflightRequest)

/-- A batch with the peek of its call and the queue it was drained from. -/
structure FormedBatch where
  peek : Peek
  drained : Peek
  batch : List InflightRequest

/-- The processor and its users.  `finished`, `cleared`, `accepted`, `formed`
and `removals` record what happened; no code reads them. -/
structure InflightUse where
  processor : InflightBatchProcessor
  clock : Nat
  calls : List InflightCall
  guards : List InflightBatchGuard
  /-- What the processor sent through the response channels. -/
  responses : Nat → Option (Except String JsonValue)
  nextChannel : Nat
  finished : List (List InflightRequest)
  cleared : List InflightRequest
  accepted : List InflightRequest
  formed : List FormedBatch
  removals : Nat

/-- One step of a task. -/
inductive InflightAction where
  | advance (nanos : Nat)
  | addRequest (id modelName : String) (inputs : List JsonValue)
      (priority : Int32) (timestamp : Nat)
  | tryFormBatch
  | clearQueue
  | proceed (call : Nat)
  | complete (guard_ : Nat) (processingTimeMs : UInt64)
  | dropGuard (guard_ : Nat)
  | proceedGuard (guard_ : Nat)

namespace InflightUse

/-- A processor nobody has used yet. -/
def start (processor : InflightBatchProcessor) : InflightUse where
  processor := processor
  clock := 0
  calls := []
  guards := []
  responses := fun _ => none
  nextChannel := 0
  finished := []
  cleared := []
  accepted := []
  formed := []
  removals := 0

/-- What a peek sees now. -/
def peek (use : InflightUse) : Peek :=
  ⟨use.processor.pendingQueue, use.clock, use.removals⟩

/-- A request is pushed with a channel of its own. -/
def addRequest (use : InflightUse) (request : InflightRequest) : InflightUse :=
  let processor := use.processor.pushLocked request
  { use with
    processor := processor
    calls := use.calls ++ [.storeDepth processor.pendingQueue.len]
    nextChannel := use.nextChannel + 1
    accepted := use.accepted ++ [request] }

/-- `response_tx.send(Err("Queue cleared"))` for each of the requests. -/
def sendCleared (responses : Nat → Option (Except String JsonValue))
    (requests : List InflightRequest) : Nat → Option (Except String JsonValue) :=
  requests.foldl
    (fun sent request =>
      Function.update sent request.responseTx (some (.error "Queue cleared")))
    responses

def clearQueue (use : InflightUse) : InflightUse :=
  let (requests, processor) := use.processor.clearQueue
  { use with
    processor := processor
    responses := sendCleared use.responses requests
    cleared := use.cleared ++ requests
    removals := use.removals + if requests.isEmpty then 0 else 1 }

/-- The drain of a call that holds a permit. -/
def drain (use : InflightUse) (call : Nat) (peek : Peek) : InflightUse :=
  match use.processor.drainLocked with
  | none => { use with calls := use.calls.set call .abandonPermit }
  | some (batch, processor) =>
      { use with
        processor := processor
        calls := use.calls.set call (.returnGuard batch)
        formed := ⟨peek, use.peek, batch⟩ :: use.formed
        removals := use.removals + if batch.isEmpty then 0 else 1 }

/-- A call in progress goes on. -/
def proceed (use : InflightUse) (call : Nat) : InflightCall → InflightUse
  | .storeDepth queueSize =>
      { use with
        processor := { use.processor with currentQueueDepth := queueSize }
        calls := use.calls.set call (.updatePeak queueSize) }
  | .updatePeak queueSize =>
      { use with
        processor := { use.processor with
          peakQueueDepth := max use.processor.peakQueueDepth queueSize }
        calls := use.calls.eraseIdx call }
  | .acquirePermit peek =>
      match use.processor.inflightSemaphore.tryAcquire with
      | none => { use with calls := use.calls.eraseIdx call }
      | some semaphore =>
          { use with
            processor := { use.processor with inflightSemaphore := semaphore }
            calls := use.calls.set call (.drainBatch peek) }
  | .drainBatch peek => use.drain call peek
  | .abandonPermit =>
      { use with
        processor := { use.processor with
          inflightSemaphore := use.processor.inflightSemaphore.release }
        calls := use.calls.eraseIdx call }
  | .returnGuard batch =>
      { use with
        calls := use.calls.eraseIdx call
        guards := use.guards ++ [InflightBatchGuard.new batch] }

/-- The next operation of `complete` or of the drop of a guard. -/
def proceedGuard (use : InflightUse) (index : Nat)
    (current : InflightBatchGuard) : Option InflightUse :=
  let processor := use.processor
  let stage (next : GuardStage) (after : InflightBatchProcessor) :=
    some { use with
      processor := after
      guards := use.guards.set index { current with stage := next } }
  match current.stage with
  | .live => none
  | .countBatch ms =>
      stage (.countRequests ms)
        { processor with processedBatches := processor.processedBatches + 1 }
  | .countRequests ms =>
      stage (.addLatency ms)
        { processor with
          processedRequests := processor.processedRequests +
            UInt64.ofNat current.batch.length }
  | .addLatency ms =>
      stage .decrementInflight
        { processor with totalLatencyMs := processor.totalLatencyMs + ms }
  | .decrementInflight =>
      stage (.drop true)
        { processor with inflightBatches := processor.inflightBatches - 1 }
  | .drop completed =>
      stage .releasePermit
        (if !completed then
          { processor with inflightBatches := processor.inflightBatches - 1 }
        else processor)
  | .releasePermit =>
      some { use with
        processor := { processor with
          inflightSemaphore := processor.inflightSemaphore.release }
        guards := use.guards.eraseIdx index
        finished := use.finished ++ [current.batch] }

def step (use : InflightUse) : InflightAction → Option InflightUse
  | .advance nanos => some { use with clock := use.clock + nanos }
  | .addRequest id modelName inputs priority timestamp =>
      some (use.addRequest
        ⟨id, modelName, inputs, priority, timestamp, use.nextChannel⟩)
  | .tryFormBatch =>
      if use.processor.shouldForm use.clock then
        some { use with calls := use.calls ++ [.acquirePermit use.peek] }
      else some use
  | .clearQueue => some use.clearQueue
  | .proceed call => (use.calls[call]?).map (use.proceed call)
  | .complete index ms =>
      match use.guards[index]? with
      | some ⟨batch, .live⟩ =>
          some { use with
            guards := use.guards.set index ⟨batch, .countBatch ms⟩ }
      | _ => none
  | .dropGuard index =>
      match use.guards[index]? with
      | some ⟨batch, .live⟩ =>
          some { use with
            guards := use.guards.set index ⟨batch, .drop false⟩ }
      | _ => none
  | .proceedGuard index =>
      (use.guards[index]?).bind (use.proceedGuard index)

end InflightUse

end TorchInference
