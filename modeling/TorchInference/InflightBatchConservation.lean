import TorchInference.BatchLedger
import TorchInference.InflightBatch
import TorchInference.TransitionRuns

/-!
# Inflight batching loses nothing

The processor and its users refine a ledger of items, batches and slots: every
step of every task is one step of the ledger or leaves it as it is.  What the
ledger conserves therefore holds in every reachable state, and the atomic
`inflight_batches` counts the slots the ledger counts.
-/

namespace TorchInference

open TransitionRuns BatchLedger CallTable

/-! ## The queue -/

namespace PriorityQueue

@[simp]
theorem push_requests (queue : PriorityQueue) (request : InflightRequest) :
    (queue.push request).requests = request :: queue.requests :=
  rfl

theorem drainAll_perm (queue : PriorityQueue) :
    queue.drainAll.1.Perm queue.requests :=
  (PriorityHeap.popUpTo_all_perm _ _).map _

@[simp]
theorem drainAll_requests (queue : PriorityQueue) :
    queue.drainAll.2.requests = [] := by
  simp [requests, drainAll, PriorityHeap.popUpTo_length_self]

theorem drainUpTo_perm (queue : PriorityQueue) (max : Nat) :
    ((queue.drainUpTo max).1 ++ (queue.drainUpTo max).2.requests).Perm
      queue.requests := by
  have items := (PriorityHeap.popUpTo_perm PriorityHeap.Entry.cmp max
    queue.heap).map PriorityHeap.Entry.request
  rwa [List.map_append] at items

theorem drainUpTo_length (queue : PriorityQueue) (max : Nat) :
    (queue.drainUpTo max).1.length = min max queue.len := by
  simp [drainUpTo, PriorityHeap.popUpTo_length, len]

end PriorityQueue

/-- What the locked drain of a non-empty queue does. -/
theorem InflightBatchProcessor.drainLocked_eq_some
    {processor after : InflightBatchProcessor} {batch : List InflightRequest}
    (drains : processor.drainLocked = some (batch, after)) :
    ∃ rest : PriorityQueue,
      (batch ++ rest.requests).Perm processor.pendingQueue.requests ∧
        batch.length ≤ processor.maxBatchSize ∧
        after = { processor with
          pendingQueue := rest
          currentQueueDepth := rest.len
          inflightBatches := processor.inflightBatches + 1 } := by
  simp only [drainLocked] at drains
  split at drains
  · cases drains
  · cases drains
    refine ⟨_, PriorityQueue.drainUpTo_perm _ _, ?_, rfl⟩
    rw [PriorityQueue.drainUpTo_length]
    omega

/-! ## The ledger of a state -/

/-- The batch of a guard that is about to be returned. -/
@[simp]
def InflightCall.batches : InflightCall → Multiset (List InflightRequest)
  | .returnGuard batch => {batch}
  | _ => 0

/-- A permit held without a batch. -/
@[simp]
def InflightCall.reserved : InflightCall → Nat
  | .drainBatch _ => 1
  | .abandonPermit => 1
  | _ => 0

/-- A permit held with a batch. -/
@[simp]
def InflightCall.returning : InflightCall → Nat
  | .returnGuard _ => 1
  | _ => 0

/-- The guard is still to be taken off `inflight_batches`. -/
def GuardStage.isCounted : GuardStage → Bool
  | .drop completed => !completed
  | .releasePermit => false
  | _ => true

@[simp]
def InflightBatchGuard.counted (guard_ : InflightBatchGuard) : Nat :=
  if guard_.stage.isCounted then 1 else 0

@[simp]
def InflightBatchGuard.uncounted (guard_ : InflightBatchGuard) : Nat :=
  if guard_.stage.isCounted then 0 else 1

namespace InflightUse

variable {use next : InflightUse}

/-- Every batch ever formed, with a guard that is being returned, a guard, or a
guard that is gone. -/
def batches (use : InflightUse) : Multiset (List InflightRequest) :=
  total InflightCall.batches use.calls +
    total (fun guard_ => {guard_.batch}) use.guards + use.finished

def ledger (use : InflightUse) : Ledger InflightRequest where
  accepted := use.accepted
  pending := use.processor.pendingQueue.requests
  batches := use.batches
  cleared := use.cleared
  free := use.processor.inflightSemaphore.available
  reserved := total InflightCall.reserved use.calls
  counted := total InflightCall.returning use.calls +
    total InflightBatchGuard.counted use.guards
  uncounted := total InflightBatchGuard.uncounted use.guards

/-! ## What one step does -/

/-- The atomic counter follows a count: it stays, or both move by one. -/
inductive Follows : UInt64 → Nat → UInt64 → Nat → Prop
  | stays (counter : UInt64) (count : Nat) :
      Follows counter count counter count
  | increments (counter : UInt64) (count : Nat) :
      Follows counter count (counter + 1) (count + 1)
  | decrements (counter : UInt64) (count : Nat) :
      Follows counter (count + 1) (counter - 1) count

theorem Follows.of_eq {before after : UInt64} {countBefore countAfter : Nat}
    (counter : after = before) (count : countAfter = countBefore) :
    Follows before countBefore after countAfter := by
  rw [counter, count]
  exact stays before countBefore

theorem Follows.toNat_eq {before after : UInt64} {countBefore countAfter : Nat}
    (follows : Follows before countBefore after countAfter)
    (exact_ : before.toNat = countBefore) (bounded : countAfter < 2 ^ 64) :
    after.toNat = countAfter := by
  cases follows with
  | stays => exact exact_
  | increments =>
      rw [UInt64.toNat_add, exact_]
      exact Nat.mod_eq_of_lt bounded
  | decrements =>
      have positive : (1 : UInt64) ≤ before := by
        rw [UInt64.le_iff_toNat_le, exact_]
        exact Nat.le_add_left 1 countAfter
      rw [UInt64.toNat_sub_of_le _ _ positive, exact_]
      rfl

/-- All that conservation needs to know about a step. -/
structure Effect (use next : InflightUse) : Prop where
  maxBatchSize : next.processor.maxBatchSize = use.processor.maxBatchSize
  ledger : Step use.processor.maxBatchSize use.ledger next.ledger
  inflightBatches :
    Follows use.processor.inflightBatches use.ledger.counted
      next.processor.inflightBatches next.ledger.counted
  channels :
    next.accepted = use.accepted ∧ next.nextChannel = use.nextChannel ∨
      ∃ request, next.accepted = use.accepted ++ [request] ∧
        request.responseTx = use.nextChannel ∧
        next.nextChannel = use.nextChannel + 1
  answers : ∃ requests, next.cleared = use.cleared ++ requests ∧
    next.responses = sendCleared use.responses requests

/-- A step that neither accepts nor clears requests. -/
theorem Effect.of_internal
    (maxBatchSize : next.processor.maxBatchSize = use.processor.maxBatchSize)
    (ledger : Step use.processor.maxBatchSize use.ledger next.ledger)
    (inflightBatches :
      Follows use.processor.inflightBatches use.ledger.counted
        next.processor.inflightBatches next.ledger.counted)
    (accepted : next.accepted = use.accepted)
    (nextChannel : next.nextChannel = use.nextChannel)
    (cleared : next.cleared = use.cleared)
    (responses : next.responses = use.responses) : Effect use next where
  maxBatchSize := maxBatchSize
  ledger := ledger
  inflightBatches := inflightBatches
  channels := Or.inl ⟨accepted, nextChannel⟩
  answers := ⟨[], by rw [cleared, List.append_nil], responses⟩

/-- A step that leaves the ledger and the counter as they are. -/
theorem Effect.of_same_ledger
    (maxBatchSize : next.processor.maxBatchSize = use.processor.maxBatchSize)
    (ledger : next.ledger = use.ledger)
    (inflightBatches :
      next.processor.inflightBatches = use.processor.inflightBatches)
    (accepted : next.accepted = use.accepted)
    (nextChannel : next.nextChannel = use.nextChannel)
    (cleared : next.cleared = use.cleared)
    (responses : next.responses = use.responses) : Effect use next := by
  refine Effect.of_internal maxBatchSize ?_ ?_ accepted nextChannel cleared
    responses
  · rw [ledger]
    exact Step.stay _
  · exact Follows.of_eq inflightBatches (by rw [ledger])

section Calls

variable {index : Nat} {call : InflightCall}

theorem drain_effect {peek : Peek}
    (atIndex : use.calls[index]? = some (.drainBatch peek)) :
    Effect use (use.drain index peek) := by
  obtain ⟨front, back, split⟩ := split_of_getElem? atIndex
  unfold drain
  split
  · apply Effect.of_same_ledger <;> try rfl
    simp [ledger, batches, split.total_eq, split.total_set]
  · next batch after drains =>
      obtain ⟨rest, conserved, small, rfl⟩ :=
        InflightBatchProcessor.drainLocked_eq_some drains
      have taken : use.ledger.pending =
          (batch : Multiset InflightRequest) + rest.requests :=
        (Multiset.coe_eq_coe.mpr conserved).symm
      have one : use.ledger.reserved =
          total InflightCall.reserved (front ++ back) + 1 := by
        simp [ledger, split.total_eq, add_comm]
      apply Effect.of_internal <;> try rfl
      · convert Step.form use.ledger batch rest.requests _ taken small one
          using 1
        ext1 <;> simp [ledger, batches, split.total_eq, split.total_set]
        omega
      · convert Follows.increments use.processor.inflightBatches
          use.ledger.counted using 1
        simp [ledger, split.total_eq, split.total_set]
        omega

/-- A call in progress refines the ledger. -/
theorem proceed_effect (atIndex : use.calls[index]? = some call) :
    Effect use (use.proceed index call) := by
  obtain ⟨front, back, split⟩ := split_of_getElem? atIndex
  cases call with
  | storeDepth queueSize =>
      apply Effect.of_same_ledger <;> try rfl
      simp [ledger, batches, proceed, split.total_eq, split.total_set]
  | updatePeak queueSize =>
      apply Effect.of_same_ledger <;> try rfl
      simp [ledger, batches, proceed, split.total_eq, split.total_eraseIdx]
  | acquirePermit peek =>
      simp only [proceed]
      split
      · apply Effect.of_same_ledger <;> try rfl
        simp [ledger, batches, split.total_eq, split.total_eraseIdx]
      · next semaphore acquired =>
          rw [CountingSemaphore.tryAcquire_eq_some] at acquired
          apply Effect.of_internal <;> try rfl
          · convert Step.reserve use.ledger _ acquired using 1
            ext1 <;> simp [ledger, batches, split.total_eq, split.total_set]
            omega
          · apply Follows.of_eq rfl
            simp [ledger, split.total_eq, split.total_set]
  | drainBatch peek => exact drain_effect atIndex
  | abandonPermit =>
      have one : use.ledger.reserved =
          total InflightCall.reserved (front ++ back) + 1 := by
        simp [ledger, split.total_eq, add_comm]
      apply Effect.of_internal <;> try rfl
      · convert Step.cancel use.ledger _ one using 1
        ext1 <;> simp [ledger, batches, proceed, split.total_eq,
          split.total_eraseIdx]
      · apply Follows.of_eq rfl
        simp [ledger, proceed, split.total_eq, split.total_eraseIdx]
  | returnGuard batch =>
      apply Effect.of_same_ledger <;> try rfl
      ext1 <;> simp [ledger, batches, proceed, InflightBatchGuard.new,
        GuardStage.isCounted, split.total_eq, split.total_eraseIdx]
      omega

end Calls

section Guards

variable {index : Nat} {current : InflightBatchGuard}

/-- Moving a guard from one counted stage to another changes nothing. -/
theorem guard_effect_of_counted {stage : GuardStage}
    {processor : InflightBatchProcessor}
    (atIndex : use.guards[index]? = some current)
    (before : current.stage.isCounted) (after : stage.isCounted)
    (pendingQueue : processor.pendingQueue = use.processor.pendingQueue)
    (semaphore :
      processor.inflightSemaphore = use.processor.inflightSemaphore)
    (maxBatchSize : processor.maxBatchSize = use.processor.maxBatchSize)
    (inflightBatches :
      processor.inflightBatches = use.processor.inflightBatches) :
    Effect use { use with
      processor := processor
      guards := use.guards.set index { current with stage := stage } } := by
  obtain ⟨front, back, split⟩ := split_of_getElem? atIndex
  apply Effect.of_same_ledger maxBatchSize _ inflightBatches <;> try rfl
  simp [ledger, batches, split.total_eq, split.total_set, before, after,
    pendingQueue, semaphore]

/-- Taking a guard off the counter. -/
theorem guard_effect_of_decrement {stage : GuardStage}
    (atIndex : use.guards[index]? = some current)
    (before : current.stage.isCounted) (after : stage.isCounted = false) :
    Effect use { use with
      processor := { use.processor with
        inflightBatches := use.processor.inflightBatches - 1 }
      guards := use.guards.set index { current with stage := stage } } := by
  obtain ⟨front, back, split⟩ := split_of_getElem? atIndex
  have one : use.ledger.counted =
      total InflightCall.returning use.calls +
        total InflightBatchGuard.counted (front ++ back) + 1 := by
    simp [ledger, split.total_eq, before]
    omega
  apply Effect.of_internal <;> try rfl
  · convert Step.uncount use.ledger _ one using 1
    ext1 <;> simp [ledger, batches, split.total_eq, split.total_set, before,
      after]
    omega
  · rw [one]
    convert Follows.decrements use.processor.inflightBatches _ using 1
    simp [ledger, split.total_set, after]

/-- The next operation of a guard refines the ledger. -/
theorem proceedGuard_effect (atIndex : use.guards[index]? = some current)
    (proceeds : use.proceedGuard index current = some next) :
    Effect use next := by
  obtain ⟨batch, stage⟩ := current
  cases stage with
  | live => cases proceeds
  | countBatch ms =>
      cases proceeds
      exact guard_effect_of_counted atIndex rfl rfl rfl rfl rfl rfl
  | countRequests ms =>
      cases proceeds
      exact guard_effect_of_counted atIndex rfl rfl rfl rfl rfl rfl
  | addLatency ms =>
      cases proceeds
      exact guard_effect_of_counted atIndex rfl rfl rfl rfl rfl rfl
  | decrementInflight =>
      cases proceeds
      exact guard_effect_of_decrement atIndex rfl rfl
  | drop completed =>
      cases completed with
      | false =>
          cases proceeds
          exact guard_effect_of_decrement atIndex rfl rfl
      | true =>
          cases proceeds
          obtain ⟨front, back, split⟩ := split_of_getElem? atIndex
          apply Effect.of_same_ledger <;> try rfl
          simp [ledger, batches, split.total_eq, split.total_set,
            GuardStage.isCounted]
  | releasePermit =>
      cases proceeds
      obtain ⟨front, back, split⟩ := split_of_getElem? atIndex
      have one : use.ledger.uncounted =
          total InflightBatchGuard.uncounted (front ++ back) + 1 := by
        simp [ledger, split.total_eq, GuardStage.isCounted, add_comm]
      apply Effect.of_internal <;> try rfl
      · convert Step.finish use.ledger _ one using 1
        ext1 <;> simp [ledger, batches, split.total_eq, split.total_eraseIdx,
          GuardStage.isCounted]
        rw [← Multiset.coe_add, Multiset.coe_singleton,
          ← Multiset.singleton_add]
        ac_rfl
      · apply Follows.of_eq rfl
        simp [ledger, split.total_eq, split.total_eraseIdx,
          GuardStage.isCounted]

end Guards

theorem addRequest_effect {request : InflightRequest}
    (fresh : request.responseTx = use.nextChannel) :
    Effect use (use.addRequest request) where
  maxBatchSize := rfl
  ledger := by
    convert Step.accept use.ledger request using 1
    ext1 <;> simp [ledger, batches, addRequest,
      InflightBatchProcessor.pushLocked]
  inflightBatches := by
    apply Follows.of_eq rfl
    simp [ledger, addRequest]
  channels := Or.inr ⟨request, rfl, fresh, rfl⟩
  answers := ⟨[], (List.append_nil _).symm, rfl⟩

theorem clearQueue_effect : Effect use use.clearQueue where
  maxBatchSize := rfl
  ledger := by
    convert Step.clear use.ledger using 1
    ext1 <;> simp [ledger, batches, clearQueue,
      InflightBatchProcessor.clearQueue]
    exact (PriorityQueue.drainAll_perm _).append_left _
  inflightBatches := Follows.of_eq rfl rfl
  channels := Or.inl ⟨rfl, rfl⟩
  answers := ⟨_, rfl, rfl⟩

theorem step_effect {action : InflightAction}
    (stepTo : use.step action = some next) : Effect use next := by
  cases action with
  | advance nanos =>
      cases stepTo
      apply Effect.of_same_ledger <;> rfl
  | addRequest id modelName inputs priority timestamp =>
      cases stepTo
      exact addRequest_effect rfl
  | tryFormBatch =>
      simp only [step] at stepTo
      split at stepTo
      · cases stepTo
        apply Effect.of_same_ledger <;> try rfl
        simp [ledger, batches]
      · cases stepTo
        apply Effect.of_same_ledger <;> rfl
  | clearQueue =>
      cases stepTo
      exact clearQueue_effect
  | proceed index =>
      obtain ⟨call, atIndex, rfl⟩ := Option.map_eq_some_iff.mp stepTo
      exact proceed_effect atIndex
  | complete index ms =>
      simp only [step] at stepTo
      split at stepTo
      · next batch atIndex =>
          cases stepTo
          exact guard_effect_of_counted atIndex rfl rfl rfl rfl rfl rfl
      · cases stepTo
  | dropGuard index =>
      simp only [step] at stepTo
      split at stepTo
      · next batch atIndex =>
          cases stepTo
          exact guard_effect_of_counted atIndex rfl rfl rfl rfl rfl rfl
      · cases stepTo
  | proceedGuard index =>
      obtain ⟨current, atIndex, proceeds⟩ :=
        Option.bind_eq_some_iff.mp stepTo
      exact proceedGuard_effect atIndex proceeds

/-! ## Every reachable state -/

theorem sendCleared_apply (responses : Nat → Option (Except String JsonValue))
    (requests : List InflightRequest) (channel : Nat) :
    sendCleared responses requests channel =
      if channel ∈ requests.map InflightRequest.responseTx then
        some (.error "Queue cleared")
      else responses channel := by
  induction requests generalizing responses with
  | nil => simp [sendCleared]
  | cons request requests ih =>
      change sendCleared (Function.update responses request.responseTx
        (some (.error "Queue cleared"))) requests channel = _
      rw [ih]
      by_cases later : channel ∈ requests.map InflightRequest.responseTx
      · simp [later]
      · by_cases same : channel = request.responseTx
        · simp [same]
        · simp [later, same]

/-- The invariant: the ledger is conserved, the counter counts, channels are
handed out in order and exactly the cleared requests got an answer. -/
structure Inv (processor : InflightBatchProcessor) (use : InflightUse) :
    Prop where
  maxBatchSize : use.processor.maxBatchSize = processor.maxBatchSize
  conserved : Conserved processor.maxBatchSize processor.maxInflightBatches
    use.ledger
  inflightBatches : use.processor.inflightBatches.toNat = use.ledger.counted
  channels : use.accepted.map InflightRequest.responseTx =
    List.range use.nextChannel
  answers : ∀ channel, use.responses channel =
    if channel ∈ use.cleared.map InflightRequest.responseTx then
      some (.error "Queue cleared")
    else none

variable {processor : InflightBatchProcessor}

theorem inv_start {maxBatchSize maxInflightBatches : Nat}
    {batchTimeoutMs : UInt64}
    (created : InflightBatchProcessor.new maxBatchSize maxInflightBatches
      batchTimeoutMs = some processor) : Inv processor (start processor) := by
  simp only [InflightBatchProcessor.new, Option.ite_none_right_eq_some,
    Option.some.injEq] at created
  obtain ⟨_, rfl⟩ := created
  refine ⟨rfl, ⟨rfl, ?_, rfl⟩, rfl, rfl, fun _ => rfl⟩
  intro batch member
  simp [ledger, batches, start] at member

theorem maxInflightBatches_le {maxBatchSize maxInflightBatches : Nat}
    {batchTimeoutMs : UInt64}
    (created : InflightBatchProcessor.new maxBatchSize maxInflightBatches
      batchTimeoutMs = some processor) :
    processor.maxBatchSize = maxBatchSize ∧
      processor.maxInflightBatches = maxInflightBatches ∧
      processor.maxInflightBatches < 2 ^ 64 := by
  simp only [InflightBatchProcessor.new, Option.ite_none_right_eq_some,
    Option.some.injEq] at created
  obtain ⟨within, rfl⟩ := created
  refine ⟨rfl, rfl, ?_⟩
  unfold CountingSemaphore.maxPermits at within
  simp only
  omega

theorem Inv.effect (bounded : processor.maxInflightBatches < 2 ^ 64)
    (inv : Inv processor use) (effect : Effect use next) :
    Inv processor next := by
  have ledgerStep := effect.ledger
  rw [inv.maxBatchSize] at ledgerStep
  have conserved := inv.conserved.step ledgerStep
  refine ⟨effect.maxBatchSize.trans inv.maxBatchSize, conserved, ?_, ?_, ?_⟩
  · apply effect.inflightBatches.toNat_eq inv.inflightBatches
    have slots := conserved.slots
    omega
  · rcases effect.channels with ⟨accepted, nextChannel⟩ |
      ⟨request, accepted, fresh, nextChannel⟩
    · rw [accepted, nextChannel]
      exact inv.channels
    · rw [accepted, nextChannel, List.map_append, inv.channels,
        List.range_succ, List.map_singleton, fresh]
  · intro channel
    obtain ⟨requests, cleared, responses⟩ := effect.answers
    rw [cleared, responses, sendCleared_apply, inv.answers]
    by_cases now : channel ∈ requests.map InflightRequest.responseTx
    · simp [now]
    · simp only [now, if_false, List.map_append, List.mem_append, or_false]

/-- Guards nobody has begun to complete or drop. -/
def liveGuards (use : InflightUse) : Nat :=
  use.guards.countP fun guard_ => guard_.stage = .live

/-- Guards in the middle of `complete` or of their drop. -/
def endingGuards (use : InflightUse) : Nat :=
  use.guards.countP fun guard_ => guard_.stage ≠ .live

/-- Calls that have drained a batch and not yet returned its guard. -/
def drainsInProgress (use : InflightUse) : Nat :=
  total InflightCall.returning use.calls

/-- Permits held by calls of `try_form_batch` in progress. -/
def permitsInCalls (use : InflightUse) : Nat :=
  total InflightCall.reserved use.calls + use.drainsInProgress

/-- Nothing is lost, duplicated or leaked. -/
structure NothingLost (maxBatchSize maxInflightBatches : Nat)
    (use : InflightUse) : Prop where
  /-- The places of requests add up to the accepted ones. -/
  placed : (use.accepted : Multiset InflightRequest) =
    use.processor.pendingQueue.requests +
      (use.batches.map fun batch : List InflightRequest =>
        (batch : Multiset InflightRequest)).sum + use.cleared
  distinct : use.accepted.Nodup
  errorSent : ∀ request ∈ use.cleared,
    use.responses request.responseTx = some (.error "Queue cleared")
  notAnswered : ∀ request ∈ use.accepted, request ∉ use.cleared →
    use.responses request.responseTx = none
  batchSizes : ∀ batch ∈ use.batches, batch.length ≤ maxBatchSize
  permits : use.processor.inflightSemaphore.available + use.permitsInCalls +
    use.guards.length = maxInflightBatches
  inflightBounded : use.processor.inflightBatches.toNat ≤
    use.liveGuards + use.drainsInProgress + use.endingGuards
  inflightExact : use.calls = [] → use.endingGuards = 0 →
    use.processor.inflightBatches.toNat = use.liveGuards

theorem counted_add_uncounted (guards : List InflightBatchGuard) :
    total InflightBatchGuard.counted guards +
      total InflightBatchGuard.uncounted guards = guards.length := by
  induction guards with
  | nil => rfl
  | cons guard_ guards ih =>
      have one : guard_.counted + guard_.uncounted = 1 := by
        simp only [InflightBatchGuard.counted, InflightBatchGuard.uncounted]
        split_ifs <;> rfl
      simp only [total, List.map_cons, List.sum_cons, List.length_cons]
        at ih ⊢
      omega

theorem liveGuards_add_endingGuards :
    use.liveGuards + use.endingGuards = use.guards.length := by
  rw [List.length_eq_countP_add_countP fun guard_ : InflightBatchGuard =>
    decide (guard_.stage = .live)]
  simp [liveGuards, endingGuards]

/-- A live guard is counted. -/
theorem liveGuards_le_counted :
    use.liveGuards ≤ total InflightBatchGuard.counted use.guards := by
  unfold liveGuards
  induction use.guards with
  | nil => exact Nat.zero_le _
  | cons guard_ guards ih =>
      rw [List.countP_cons]
      have one : (if decide (guard_.stage = .live) then 1 else 0) ≤
          guard_.counted := by
        split_ifs with live
        · simp [of_decide_eq_true live, GuardStage.isCounted]
        · exact Nat.zero_le _
      simp only [total, List.map_cons, List.sum_cons] at ih ⊢
      omega

theorem Inv.nothingLost (inv : Inv processor use) :
    NothingLost processor.maxBatchSize processor.maxInflightBatches use := by
  have slots := inv.conserved.slots
  have counter := inv.inflightBatches
  simp only [ledger] at slots counter
  have guards := counted_add_uncounted use.guards
  have ending := use.liveGuards_add_endingGuards
  have live := use.liveGuards_le_counted
  have channelsDistinct :
      (use.accepted.map InflightRequest.responseTx).Nodup := by
    rw [inv.channels]
    exact List.nodup_range
  refine ⟨inv.conserved.items, channelsDistinct.of_map, ?_, ?_,
    inv.conserved.sizes, ?_, ?_, ?_⟩
  · intro request member
    rw [inv.answers, if_pos (List.mem_map_of_mem member)]
  · intro request member notCleared
    rw [inv.answers, if_neg]
    intro answered
    obtain ⟨other, cleared, sameChannel⟩ := List.mem_map.mp answered
    have otherAccepted : other ∈ use.accepted := by
      have placed : other ∈ use.ledger.accepted := by
        rw [inv.conserved.items]
        exact Multiset.mem_add.mpr (Or.inr cleared)
      exact placed
    have same := List.inj_on_of_nodup_map channelsDistinct otherAccepted
      member sameChannel
    exact notCleared (same ▸ cleared)
  · simp only [permitsInCalls, drainsInProgress]
    omega
  · simp only [drainsInProgress]
    omega
  · intro idle noEnding
    rw [idle, total_nil] at counter
    omega

/-- In every state reached by any number of tasks, whatever the order of their
steps, no request is lost or duplicated and no slot leaks. -/
theorem nothingLost_of_run (maxBatchSize maxInflightBatches : Nat)
    (batchTimeoutMs : UInt64) (processor : InflightBatchProcessor)
    (created : InflightBatchProcessor.new maxBatchSize maxInflightBatches
      batchTimeoutMs = some processor)
    (actions : List InflightAction) :
    ∀ use ∈ visited step (start processor) actions,
      NothingLost maxBatchSize maxInflightBatches use := by
  obtain ⟨rfl, rfl, bounded⟩ := maxInflightBatches_le created
  intro use member
  have inv := invariant_of_run
    (fun _ _ _ inv stepTo => Inv.effect bounded inv (step_effect stepTo))
    (inv_start created) actions use member
  exact inv.nothingLost

/-- Two requests in a batch that is completed while a third one is cleared. -/
def clearingRun : List InflightAction :=
  [.addRequest "a" "m" [] 0 0, .proceed 0, .proceed 0,
    .addRequest "b" "m" [] 1 0, .tryFormBatch, .proceed 1, .proceed 1,
    .proceed 1, .addRequest "c" "m" [] 0 0, .clearQueue, .complete 0 3,
    .proceedGuard 0, .proceedGuard 0, .proceedGuard 0, .proceedGuard 0,
    .proceedGuard 0, .proceedGuard 0]

theorem clearingRun_nothingLost :
    ∃ processor, InflightBatchProcessor.new 2 1 100 = some processor ∧
      (run step (start processor) clearingRun).isSome ∧
      ∀ use ∈ visited step (start processor) clearingRun,
        NothingLost 2 1 use :=
  ⟨_, rfl, rfl, nothingLost_of_run 2 1 100 _ rfl clearingRun⟩

end InflightUse

end TorchInference
