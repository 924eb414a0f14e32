import TorchInference.InflightBatch
import TorchInference.TransitionRuns
import Mathlib.Data.Nat.Basic

/-!
# The criterion a batch is formed by

`try_form_batch` decides under the read lock and acts under a later write lock,
where it only checks that the queue is not empty.  Between the two the queue
can grow, and another call can remove requests; a batch may then be formed from
requests that meet the criterion no more.  When nothing was removed since the
peek, the criterion still holds at the drain.
-/

namespace TorchInference

open TransitionRuns

/-- A queue that calls for a batch: it is full, or a request is old enough. -/
def Peek.Meets (peek : Peek) (maxBatchSize : Nat) (batchTimeoutMs : UInt64) :
    Prop :=
  maxBatchSize ≤ peek.queue.len ∨
    ∃ request ∈ peek.queue.requests,
      batchTimeoutMs.toNat * 1000000 ≤ peek.at_ - request.timestamp

/-- Time passes, removals are counted, and without a removal a queue only
grows. -/
structure Peek.Before (earlier later : Peek) : Prop where
  at_ : earlier.at_ ≤ later.at_
  removals : earlier.removals ≤ later.removals
  grown : earlier.removals = later.removals →
    earlier.queue.requests <:+ later.queue.requests

namespace Peek

variable {earlier middle later : Peek}

theorem Before.of_same (at_ : earlier.at_ ≤ later.at_)
    (removals : earlier.removals = later.removals)
    (queue : earlier.queue.requests = later.queue.requests) :
    Before earlier later :=
  ⟨at_, removals.le, fun _ => queue ▸ List.suffix_rfl⟩

theorem Before.trans (first : Before earlier middle)
    (second : Before middle later) : Before earlier later := by
  refine ⟨first.at_.trans second.at_, first.removals.trans second.removals,
    fun same => ?_⟩
  have between := first.removals
  have after := second.removals
  exact (first.grown (by omega)).trans (second.grown (by omega))

/-- A criterion met before is still met when nothing was removed. -/
theorem Before.meets (before : Before earlier later) {maxBatchSize : Nat}
    {batchTimeoutMs : UInt64} (met : earlier.Meets maxBatchSize batchTimeoutMs)
    (same : earlier.removals = later.removals) :
    later.Meets maxBatchSize batchTimeoutMs := by
  have grown := before.grown same
  rcases met with full | ⟨request, member, old⟩
  · left
    have longer := grown.length_le
    simp only [PriorityQueue.requests, List.length_map] at longer
    exact full.trans longer
  · right
    refine ⟨request, grown.subset member, old.trans ?_⟩
    have passed := before.at_
    omega

end Peek

/-! ## The tracked timestamp -/

namespace PriorityQueue

/-- `oldest_enqueue` is the smallest timestamp of the queue. -/
def Tracked (queue : PriorityQueue) : Prop :=
  queue.oldestEnqueue =
    (queue.requests.map InflightRequest.timestamp).min?

theorem tracked_push {queue : PriorityQueue} (tracked : queue.Tracked)
    (request : InflightRequest) : (queue.push request).Tracked := by
  unfold Tracked at tracked ⊢
  have requests : (queue.push request).requests = request :: queue.requests :=
    rfl
  rw [requests, List.map_cons, List.min?_cons, ← tracked]
  cases known : queue.oldestEnqueue with
  | none => simp [push, known]
  | some prev =>
      simp only [push, known, Option.elim_some, Option.some.injEq]
      split_ifs <;> omega

theorem tracked_drainUpTo (queue : PriorityQueue) (max : Nat) :
    (queue.drainUpTo max).2.Tracked := by
  unfold Tracked
  simp only [drainUpTo, requests, List.map_map]
  split_ifs with empty
  · rw [List.isEmpty_iff.mp empty]
    rfl
  · rfl

theorem tracked_drainAll (queue : PriorityQueue) :
    queue.drainAll.2.Tracked := by
  simp [Tracked, drainAll, requests, PriorityHeap.popUpTo_length_self]

end PriorityQueue

/-- A peek that decides to form a batch saw a queue that meets the
criterion. -/
theorem InflightUse.meets_of_shouldForm {use : InflightUse}
    (tracked : use.processor.pendingQueue.Tracked)
    (shouldForm : use.processor.shouldForm use.clock) :
    use.peek.queue.requests ≠ [] ∧
      use.peek.Meets use.processor.maxBatchSize
        use.processor.batchTimeoutMs := by
  simp only [InflightBatchProcessor.shouldForm] at shouldForm
  split at shouldForm
  · cases shouldForm
  · next nonempty =>
      have present : use.processor.pendingQueue.requests ≠ [] := by
        simpa [PriorityQueue.requests, PriorityQueue.isEmpty] using nonempty
      refine ⟨present, ?_⟩
      rw [Bool.or_eq_true, decide_eq_true_eq, decide_eq_true_eq] at shouldForm
      rcases shouldForm with full | aged
      · exact Or.inl full
      · right
        cases known : use.processor.pendingQueue.oldestEnqueue with
        | none =>
            rw [PriorityQueue.Tracked, known] at tracked
            have noTimestamps := List.min?_eq_none_iff.mp tracked.symm
            exact absurd (List.map_eq_nil_iff.mp noTimestamps) present
        | some oldest =>
            rw [PriorityQueue.Tracked, known] at tracked
            obtain ⟨request, member, rfl⟩ :=
              List.mem_map.mp (List.min?_mem tracked.symm)
            refine ⟨request, member, ?_⟩
            simpa [PriorityQueue.oldestAge, known, peek] using aged

/-! ## What one step does -/

/-- The peek a call of `try_form_batch` acts on. -/
def InflightCall.peek? : InflightCall → Option Peek
  | .acquirePermit peek => some peek
  | .drainBatch peek => some peek
  | _ => none

namespace InflightUse

variable {use next : InflightUse}

/-- All that the criterion depends on in a step. -/
structure Advances (use next : InflightUse) : Prop where
  maxBatchSize : next.processor.maxBatchSize = use.processor.maxBatchSize
  batchTimeoutMs :
    next.processor.batchTimeoutMs = use.processor.batchTimeoutMs
  tracked : use.processor.pendingQueue.Tracked →
    next.processor.pendingQueue.Tracked
  before : use.peek.Before next.peek
  peeks : ∀ call ∈ next.calls, ∀ peek, call.peek? = some peek →
    (∃ earlier ∈ use.calls, earlier.peek? = some peek) ∨
      peek = use.peek ∧ use.processor.shouldForm use.clock
  formed : next.formed = use.formed ∨
    ∃ call ∈ use.calls, ∃ peek batch, call.peek? = some peek ∧
      use.peek.queue.requests ≠ [] ∧
      next.formed = ⟨peek, use.peek, batch⟩ :: use.formed

/-- A step that touches neither the queue nor a call of `try_form_batch`. -/
theorem Advances.of_quiet
    (maxBatchSize : next.processor.maxBatchSize = use.processor.maxBatchSize)
    (batchTimeoutMs :
      next.processor.batchTimeoutMs = use.processor.batchTimeoutMs)
    (pendingQueue :
      next.processor.pendingQueue = use.processor.pendingQueue)
    (clock : next.clock = use.clock) (removals : next.removals = use.removals)
    (calls : ∀ call ∈ next.calls, call ∈ use.calls ∨ call.peek? = none ∨
      ∃ earlier ∈ use.calls, earlier.peek? = call.peek?)
    (formed : next.formed = use.formed) : Advances use next where
  maxBatchSize := maxBatchSize
  batchTimeoutMs := batchTimeoutMs
  tracked := fun tracked => pendingQueue ▸ tracked
  before := Peek.Before.of_same clock.ge removals.symm
    (congrArg PriorityQueue.requests pendingQueue).symm
  peeks := by
    intro call member peek acts
    rcases calls call member with before | silent | ⟨earlier, before, same⟩
    · exact Or.inl ⟨call, before, acts⟩
    · rw [silent] at acts
      cases acts
    · exact Or.inl ⟨earlier, before, same.trans acts⟩
  formed := Or.inl formed

/-- What a call of `try_form_batch` that is past its peek can rely on. -/
structure PeekedWell (processor : InflightBatchProcessor) (use : InflightUse)
    (peek : Peek) : Prop where
  nonempty : peek.queue.requests ≠ []
  met : peek.Meets processor.maxBatchSize processor.batchTimeoutMs
  before : peek.Before use.peek

/-- What is known of a batch that was formed. -/
structure FormedWell (maxBatchSize : Nat) (batchTimeoutMs : UInt64)
    (formed : FormedBatch) : Prop where
  /-- The queue was not empty at the drain. -/
  nonempty : formed.drained.queue.requests ≠ []
  /-- The call's own peek came before and saw the criterion met. -/
  peeked : formed.peek.queue.requests ≠ [] ∧
    formed.peek.at_ ≤ formed.drained.at_ ∧
    formed.peek.Meets maxBatchSize batchTimeoutMs
  /-- It is met at the drain when nothing was removed in between. -/
  undisturbed : formed.peek.removals = formed.drained.removals →
    formed.drained.Meets maxBatchSize batchTimeoutMs

/-- The invariant of a run. -/
structure CriterionInv (processor : InflightBatchProcessor)
    (use : InflightUse) : Prop where
  maxBatchSize : use.processor.maxBatchSize = processor.maxBatchSize
  batchTimeoutMs : use.processor.batchTimeoutMs = processor.batchTimeoutMs
  tracked : use.processor.pendingQueue.Tracked
  peeks : ∀ call ∈ use.calls, ∀ peek, call.peek? = some peek →
    PeekedWell processor use peek
  formed : ∀ batch ∈ use.formed,
    FormedWell processor.maxBatchSize processor.batchTimeoutMs batch

theorem CriterionInv.advance {processor : InflightBatchProcessor}
    (inv : CriterionInv processor use) (advances : Advances use next) :
    CriterionInv processor next where
  maxBatchSize := advances.maxBatchSize.trans inv.maxBatchSize
  batchTimeoutMs := advances.batchTimeoutMs.trans inv.batchTimeoutMs
  tracked := advances.tracked inv.tracked
  peeks := by
    intro call member peek acts
    rcases advances.peeks call member peek acts with
      ⟨earlier, before, same⟩ | ⟨rfl, shouldForm⟩
    · have well := inv.peeks earlier before peek same
      exact ⟨well.nonempty, well.met, well.before.trans advances.before⟩
    · obtain ⟨nonempty, met⟩ := meets_of_shouldForm inv.tracked shouldForm
      rw [inv.maxBatchSize, inv.batchTimeoutMs] at met
      exact ⟨nonempty, met, advances.before⟩
  formed := by
    rcases advances.formed with same |
      ⟨call, member, peek, batch, acts, nonempty, added⟩
    · rw [same]
      exact inv.formed
    · have well := inv.peeks call member peek acts
      rw [added]
      intro other inFormed
      rcases List.mem_cons.mp inFormed with rfl | before
      · exact ⟨nonempty, ⟨well.nonempty, well.before.at_, well.met⟩,
          well.before.meets well.met⟩
      · exact inv.formed other before

end InflightUse

end TorchInference
