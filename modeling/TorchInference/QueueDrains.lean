import TorchInference.BatchReadiness
import TorchInference.InflightBatchConservation
import TorchInference.InflightBatchCriterion
import TorchInference.StableDrain

/-!
# What the priority queues drain

Both batchers keep their requests in a heap whose comparison breaks ties by
the number of the push, next to a cached minimum of the timestamps.  Under any
calls the drains list the requests as a stable sort by descending priority
does, each pushed request is drained once or still queued, and the cached
minimum is that of the queued requests.
-/

namespace TorchInference

open PriorityHeap

/-- What callers see of a queue after some calls: the answers of the drains,
the queued requests and the cached minimum. -/
structure DrainLaw {Request : Type} (priority : Request → Int32)
    (timestamp : Request → Nat) (calls : List (QueueCall Request))
    (answers : List (List Request)) (queued : List Request)
    (oldestEnqueue : Option Nat) : Prop where
  ordered : answers = (serveAll (Pending.serve priority) calls Pending.new).1
  complete : (answers.flatten ++ queued).Perm (calls.flatMap QueueCall.pushed)
  oldest : oldestEnqueue = (queued.map timestamp).min?
  oldest_eq_none : oldestEnqueue = none ↔ queued = []

/-- The law holds of a queue whose calls track the minimum, lose nothing, and
answer as the pending requests do. -/
theorem DrainLaw.of_serve {Request Queue Call : Type}
    {priority : Request → Int32} {timestamp : Request → Nat}
    {serve : Call → Queue → List (List Request) × Queue}
    (embed : Call → QueueCall Request) (heap : Queue → List (Entry Request))
    (nextSeq : Queue → UInt64) (requests : Queue → List Request)
    (oldest : Queue → Option Nat) (new : Queue)
    (fresh : Pending.new.Holds priority (heap new) (nextSeq new))
    (empty : requests new = [] ∧ oldest new = none)
    (tracked : ∀ call queue,
      oldest queue = ((requests queue).map timestamp).min? →
        oldest (serve call queue).2 =
          ((requests (serve call queue).2).map timestamp).min?)
    (perm : ∀ call queue,
      ((serve call queue).1.flatten ++ requests (serve call queue).2).Perm
        (requests queue ++ (embed call).pushed))
    (serves : ∀ call calls queue (pending : Pending Request),
      pending.Serves priority (embed call :: calls) (heap queue)
          (nextSeq queue) →
        (serve call queue).1 = (pending.serve priority (embed call)).1 ∧
          (pending.serve priority (embed call)).2.Serves priority calls
            (heap (serve call queue).2) (nextSeq (serve call queue).2))
    (calls : List Call)
    (few : ((calls.map embed).flatMap QueueCall.pushed).length < 2 ^ 64) :
    DrainLaw priority timestamp (calls.map embed)
      (serveAll serve calls new).1 (requests (serveAll serve calls new).2)
      (oldest (serveAll serve calls new).2) := by
  have oldestTracked := serveAll_invariant tracked calls (by
    rw [empty.1, empty.2]
    rfl)
  have ordered := serveAll_eq embed
    (fun calls queue (pending : Pending Request) =>
      pending.Serves priority (calls.map embed) (heap queue) (nextSeq queue))
    (fun call calls queue pending => serves call (calls.map embed) queue pending)
    calls ⟨fresh, by simpa only [Pending.new, Nat.zero_add] using few⟩
  have complete := serveAll_perm perm calls new
  rw [empty.1, List.nil_append, ← List.flatMap_map] at complete
  exact
    { ordered := ordered
      complete := complete
      oldest := oldestTracked
      oldest_eq_none := by
        rw [oldestTracked, List.min?_eq_none_iff, List.map_eq_nil_iff] }

namespace PriorityQueue

def serve : QueueCall InflightRequest → PriorityQueue →
    List (List InflightRequest) × PriorityQueue
  | .push request, queue => ([], queue.push request)
  | .drainUpTo max, queue =>
      let (batch, queue) := queue.drainUpTo max
      ([batch], queue)
  | .drainAll, queue =>
      let (batch, queue) := queue.drainAll
      ([batch], queue)

theorem tracked_serve (call : QueueCall InflightRequest) (queue : PriorityQueue)
    (tracked : queue.Tracked) : (serve call queue).2.Tracked := by
  cases call with
  | push request => exact tracked_push tracked request
  | drainUpTo max => exact tracked_drainUpTo queue max
  | drainAll => exact tracked_drainAll queue

theorem serve_perm (call : QueueCall InflightRequest) (queue : PriorityQueue) :
    ((serve call queue).1.flatten ++ (serve call queue).2.requests).Perm
      (queue.requests ++ call.pushed) := by
  cases call with
  | push request =>
      exact (List.perm_append_singleton request queue.requests).symm
  | drainUpTo max =>
      simp only [serve, List.flatten_singleton, QueueCall.pushed,
        List.append_nil]
      exact drainUpTo_perm queue max
  | drainAll =>
      simp only [serve, List.flatten_singleton, QueueCall.pushed,
        List.append_nil, drainAll_requests]
      exact drainAll_perm queue

theorem serve_serves (call : QueueCall InflightRequest)
    (calls : List (QueueCall InflightRequest)) (queue : PriorityQueue)
    (pending : Pending InflightRequest)
    (serves : pending.Serves InflightRequest.priority (call :: calls) queue.heap
      queue.nextSeq) :
    (serve call queue).1 = (pending.serve InflightRequest.priority call).1 ∧
      (pending.serve InflightRequest.priority call).2.Serves
        InflightRequest.priority calls (serve call queue).2.heap
        (serve call queue).2.nextSeq := by
  cases call with
  | push request => exact ⟨rfl, serves.push⟩
  | drainUpTo max =>
      obtain ⟨same, next⟩ := serves.drain max
      exact ⟨congrArg (fun batch => [batch]) same, next⟩
  | drainAll =>
      obtain ⟨same, next⟩ := serves.drain queue.heap.length
      simp only [Pending.serve, ← serves.holds.length_heap]
      exact ⟨congrArg (fun batch => [batch]) same, next⟩

theorem drainLaw (calls : List (QueueCall InflightRequest))
    (few : (calls.flatMap QueueCall.pushed).length < 2 ^ 64) :
    DrainLaw InflightRequest.priority InflightRequest.timestamp calls
      (serveAll serve calls new).1 (serveAll serve calls new).2.requests
      (serveAll serve calls new).2.oldestEnqueue := by
  have law := DrainLaw.of_serve id heap nextSeq requests oldestEnqueue new
    Pending.holds_new ⟨rfl, rfl⟩ tracked_serve serve_perm serve_serves calls
  rw [List.map_id] at law
  exact law few

end PriorityQueue

/-- The calls of a `BatchQueue`, which is only ever drained as a whole. -/
inductive BatchQueueCall where
  | push (request : BatchRequest)
  | drainAll

def BatchQueueCall.toQueueCall : BatchQueueCall → QueueCall BatchRequest
  | push request => .push request
  | drainAll => .drainAll

namespace BatchQueue

def serve : BatchQueueCall → BatchQueue → List (List BatchRequest) × BatchQueue
  | .push request, queue => ([], queue.push request)
  | .drainAll, queue =>
      let (batch, queue) := queue.drainAll
      ([batch], queue)

/-- The queued requests. -/
def requests (queue : BatchQueue) : List BatchRequest :=
  queue.heap.map Entry.request

theorem serve_oldestEnqueue (call : BatchQueueCall) (queue : BatchQueue)
    (tracked : queue.oldestEnqueue =
      (queue.requests.map BatchRequest.timestamp).min?) :
    (serve call queue).2.oldestEnqueue =
      ((serve call queue).2.requests.map BatchRequest.timestamp).min? := by
  cases call with
  | push request =>
      simp only [requests, List.map_map] at tracked ⊢
      exact BatchProcessorState.push_oldestEnqueue tracked request
  | drainAll =>
      simp only [serve, drainAll, requests, popUpTo_length_self]
      rfl

theorem serve_perm (call : BatchQueueCall) (queue : BatchQueue) :
    ((serve call queue).1.flatten ++ (serve call queue).2.requests).Perm
      (queue.requests ++ call.toQueueCall.pushed) := by
  cases call with
  | push request =>
      exact (List.perm_append_singleton request queue.requests).symm
  | drainAll =>
      simp only [serve, drainAll, requests, BatchQueueCall.toQueueCall,
        QueueCall.pushed, List.append_nil, List.flatten_singleton,
        ← List.map_append]
      exact (popUpTo_perm Entry.cmp queue.heap.length queue.heap).map _

theorem serve_serves (call : BatchQueueCall) (calls : List (QueueCall BatchRequest))
    (queue : BatchQueue) (pending : Pending BatchRequest)
    (serves : pending.Serves BatchRequest.priority (call.toQueueCall :: calls)
      queue.heap queue.nextSeq) :
    (serve call queue).1 =
        (pending.serve BatchRequest.priority call.toQueueCall).1 ∧
      (pending.serve BatchRequest.priority call.toQueueCall).2.Serves
        BatchRequest.priority calls (serve call queue).2.heap
        (serve call queue).2.nextSeq := by
  cases call with
  | push request => exact ⟨rfl, serves.push⟩
  | drainAll =>
      obtain ⟨same, next⟩ := serves.drain queue.heap.length
      simp only [BatchQueueCall.toQueueCall, Pending.serve,
        ← serves.holds.length_heap]
      exact ⟨congrArg (fun batch => [batch]) same, next⟩

theorem drainLaw (calls : List BatchQueueCall)
    (few : ((calls.map BatchQueueCall.toQueueCall).flatMap
      QueueCall.pushed).length < 2 ^ 64) :
    DrainLaw BatchRequest.priority BatchRequest.timestamp
      (calls.map BatchQueueCall.toQueueCall)
      (serveAll serve calls new).1 (serveAll serve calls new).2.requests
      (serveAll serve calls new).2.oldestEnqueue :=
  DrainLaw.of_serve BatchQueueCall.toQueueCall heap nextSeq requests
    oldestEnqueue new Pending.holds_new ⟨rfl, rfl⟩ serve_oldestEnqueue serve_perm
    serve_serves calls few

end BatchQueue

/-- Both queues drain by priority, first pushed first, and lose nothing. -/
theorem drains_by_priority :
    (∀ calls : List (QueueCall InflightRequest),
      (calls.flatMap QueueCall.pushed).length < 2 ^ 64 →
        DrainLaw InflightRequest.priority InflightRequest.timestamp calls
          (serveAll PriorityQueue.serve calls PriorityQueue.new).1
          (serveAll PriorityQueue.serve calls PriorityQueue.new).2.requests
          (serveAll PriorityQueue.serve calls
            PriorityQueue.new).2.oldestEnqueue) ∧
    (∀ calls : List BatchQueueCall,
      ((calls.map BatchQueueCall.toQueueCall).flatMap
          QueueCall.pushed).length < 2 ^ 64 →
        DrainLaw BatchRequest.priority BatchRequest.timestamp
          (calls.map BatchQueueCall.toQueueCall)
          (serveAll BatchQueue.serve calls BatchQueue.new).1
          (serveAll BatchQueue.serve calls BatchQueue.new).2.requests
          (serveAll BatchQueue.serve calls BatchQueue.new).2.oldestEnqueue) :=
  ⟨PriorityQueue.drainLaw, BatchQueue.drainLaw⟩

/-- A request of no model that only differs in its priority and its time. -/
def InflightRequest.plain (priority : Int32) (timestamp : Nat) : InflightRequest :=
  ⟨"", "", [], priority, timestamp, 0⟩

def BatchRequest.plain (priority : Int32) (timestamp : Nat) : BatchRequest :=
  ⟨"", "", [], priority, timestamp⟩

/-- Two requests of one priority and a more urgent one. -/
def threeRequests : List (QueueCall InflightRequest) :=
  [.push (.plain 1 30), .push (.plain 5 40), .push (.plain 1 20),
    .drainUpTo 2, .push (.plain 0 50), .drainAll]

theorem threeRequests_drained :
    DrainLaw InflightRequest.priority InflightRequest.timestamp threeRequests
        (serveAll PriorityQueue.serve threeRequests PriorityQueue.new).1
        (serveAll PriorityQueue.serve threeRequests PriorityQueue.new).2.requests
        (serveAll PriorityQueue.serve threeRequests
          PriorityQueue.new).2.oldestEnqueue ∧
      (serveAll PriorityQueue.serve threeRequests PriorityQueue.new).1 =
        [[.plain 5 40, .plain 1 30], [.plain 1 20, .plain 0 50]] ∧
      (serveAll BatchQueue.serve
          [.push (.plain 1 30), .push (.plain 5 40), .push (.plain 1 20)]
          BatchQueue.new).2.oldestEnqueue = some 20 :=
  ⟨drains_by_priority.1 threeRequests (by decide), rfl, by
    rw [(drains_by_priority.2
      [.push (.plain 1 30), .push (.plain 5 40), .push (.plain 1 20)]
      (by decide)).oldest]
    decide⟩

end TorchInference
