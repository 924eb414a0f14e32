import TorchInference.WorkerPool
import TorchInference.TransitionRuns

/-!
# The idle queue of the worker pool

As long as every worker is released while it still sits at the index that
equals its `id`, the idle queue is exact: it names the current index of each
worker that no caller holds, once, and nothing else.  This file proves that
each operation of the pool keeps that invariant.
-/

namespace TorchInference

open FreeIndexQueue

namespace WorkerPool

variable {pool : WorkerPool}

@[simp]
theorem modifyWorker_self (ref : WorkerRef) (change : Worker → Worker) :
    (pool.modifyWorker ref change).arcs ref = change (pool.arcs ref) := by
  simp [modifyWorker]

theorem modifyWorker_of_ne {ref other : WorkerRef} (different : other ≠ ref)
    (change : Worker → Worker) :
    (pool.modifyWorker ref change).arcs other = pool.arcs other := by
  simp [modifyWorker, different]

@[simp]
theorem modifyWorker_idleWorkers (ref : WorkerRef)
    (change : Worker → Worker) :
    (pool.modifyWorker ref change).idleWorkers = pool.idleWorkers :=
  rfl

@[simp]
theorem withIdleWorkers_self :
    pool.withIdleWorkers pool.idleWorkers = pool :=
  rfl

theorem acquireWorker_of_nil (nil : pool.idleWorkers.items = [])
    (now : Nat) : pool.acquireWorker now = (none, pool) := by
  simp [acquireWorker, ArrayQueue.pop_of_nil nil]

/-- The pool after the worker at the head of the idle queue is acquired. -/
def acquired (pool : WorkerPool) (ref : WorkerRef) (now : Nat) : WorkerPool :=
  { pool with
    arcs := Function.update pool.arcs ref
      (((pool.arcs ref).setState .processing).updateLastActive now)
    idleWorkers := pool.idleWorkers.pop.2
    activeCount := pool.activeCount + 1 }

theorem acquireWorker_of_cons {id : Nat} {rest : List Nat}
    (items : pool.idleWorkers.items = id :: rest) {ref : WorkerRef}
    (atId : pool.workers[id]? = some ref) (now : Nat) :
    pool.acquireWorker now = (some ref, pool.acquired ref now) := by
  have popped : pool.idleWorkers.pop.1 = some id := by
    rw [ArrayQueue.pop_fst, items, List.head?_cons]
  simp [acquireWorker, popped, acquireLocked, withIdleWorkers, atId, acquired,
    modifyWorker]

theorem stateAt_eq_some {index : Nat} {state : WorkerState} :
    pool.stateAt index = some state ↔
      ∃ ref, pool.workers[index]? = some ref ∧
        (pool.arcs ref).state = state := by
  simp [stateAt]

/-- The slow path finds nothing when no worker is idle. -/
theorem lastIdle_eq_none : pool.lastIdle = none ↔
    ∀ ref ∈ pool.workers, (pool.arcs ref).state ≠ .idle := by
  rw [lastIdle, List.find?_eq_none]
  constructor
  · intro nothing ref member idle
    obtain ⟨index, atIndex⟩ := List.getElem?_of_mem member
    have inside := (List.getElem?_eq_some_iff.mp atIndex).1
    apply nothing index (List.mem_reverse.mpr (List.mem_range.mpr inside))
    exact decide_eq_true (stateAt_eq_some.mpr ⟨ref, atIndex, idle⟩)
  · intro noIdle index _ found
    obtain ⟨ref, atIndex, idle⟩ := stateAt_eq_some.mp (of_decide_eq_true found)
    exact noIdle ref (List.mem_of_getElem? atIndex) idle

@[simp]
theorem removeAt_config (index : Nat) :
    (pool.removeAt index).config = pool.config := by
  unfold removeAt
  cases pool.workers[index]? <;> rfl

@[simp]
theorem removeAt_nextAddress (index : Nat) :
    (pool.removeAt index).nextAddress = pool.nextAddress := by
  unfold removeAt
  cases pool.workers[index]? <;> rfl

@[simp]
theorem removeAt_workers (index : Nat) :
    (pool.removeAt index).workers = pool.workers.eraseIdx index := by
  unfold removeAt
  cases pool.workers[index]? <;> rfl

theorem removeAt_idleWorkers (index : Nat) :
    (pool.removeAt index).idleWorkers =
      pool.idleWorkers.drain.2.pushAll
        (reindex index pool.idleWorkers.drain.1) := by
  unfold removeAt
  cases pool.workers[index]? <;> rfl

@[simp]
theorem removeAt_idleWorkers_capacity (index : Nat) :
    (pool.removeAt index).idleWorkers.capacity =
      pool.idleWorkers.capacity := by
  rw [removeAt_idleWorkers, ArrayQueue.pushAll_capacity]
  rfl

/-- The corrected entries always fit back into the queue. -/
@[simp]
theorem removeAt_idleWorkers_items (index : Nat) :
    (pool.removeAt index).idleWorkers.items =
      reindex index pool.idleWorkers.items := by
  rw [removeAt_idleWorkers, ArrayQueue.pushAll_items_of_room]
  · rfl
  · have shorter := length_reindex_le index pool.idleWorkers.items
    have bounded := pool.idleWorkers.bounded
    simp only [ArrayQueue.drain, ArrayQueue.empty_items,
      ArrayQueue.empty_capacity, List.length_nil]
    omega

/-- Taking the entry at the head of the idle queue and removing its worker. -/
theorem removeIdleWorker_of_cons {id : Nat} {rest : List Nat}
    (items : pool.idleWorkers.items = id :: rest)
    (idle : pool.stateAt id = some .idle)
    (aboveMinimum : ¬ pool.workers.length ≤
      if pool.config.enableZeroScaling then 0 else pool.config.minWorkers) :
    pool.removeIdleWorker =
      (.ok (), (pool.withIdleWorkers pool.idleWorkers.pop.2).removeAt id) := by
  have popped : pool.idleWorkers.pop.1 = some id := by
    rw [ArrayQueue.pop_fst, items, List.head?_cons]
  obtain ⟨ref, atId, _⟩ := stateAt_eq_some.mp idle
  have inside := (List.getElem?_eq_some_iff.mp atId).1
  have chosen : (pool.withIdleWorkers pool.idleWorkers.pop.2).removalIndex
      (some id) = some id :=
    if_pos ⟨inside, idle⟩
  simp [removeIdleWorker, aboveMinimum, popped, chosen]

theorem removeIdleWorker_of_minimum
    (minimum : pool.workers.length ≤
      if pool.config.enableZeroScaling then 0 else pool.config.minWorkers) :
    pool.removeIdleWorker = (.error "Minimum workers reached", pool) := by
  simp [removeIdleWorker, minimum]

theorem removeIdleWorker_of_nil (nil : pool.idleWorkers.items = [])
    (busy : ∀ ref ∈ pool.workers, (pool.arcs ref).state ≠ .idle)
    (aboveMinimum : ¬ pool.workers.length ≤
      if pool.config.enableZeroScaling then 0 else pool.config.minWorkers) :
    pool.removeIdleWorker = (.error "No idle workers to remove", pool) := by
  simp [removeIdleWorker, aboveMinimum, ArrayQueue.pop_of_nil nil,
    removalIndex, lastIdle_eq_none.mpr busy]

theorem removeAt_arcs_of_ne {index : Nat} {ref other : WorkerRef}
    (atIndex : pool.workers[index]? = some ref) (different : other ≠ ref) :
    (pool.removeAt index).arcs other = pool.arcs other := by
  simp only [removeAt, atIndex]
  exact modifyWorker_of_ne different _

theorem releaseWorker_arcs_of_ne {ref other : WorkerRef}
    (different : other ≠ ref) (processingTimeMs : UInt64) (now : Nat) :
    (pool.releaseWorker ref processingTimeMs now).arcs other =
      pool.arcs other := by
  simp [releaseWorker, modifyWorker_of_ne different]

theorem releaseWorker_state (ref : WorkerRef) (processingTimeMs : UInt64)
    (now : Nat) :
    ((pool.releaseWorker ref processingTimeMs now).arcs ref).state =
      .idle := by
  simp [releaseWorker, Worker.updateLastActive, Worker.setState]

/-- What a release pushes is the worker's `id`, not its index. -/
theorem releaseWorker_idleWorkers (ref : WorkerRef)
    (processingTimeMs : UInt64) (now : Nat) :
    (pool.releaseWorker ref processingTimeMs now).idleWorkers =
      pool.idleWorkers.push (pool.arcs ref).id := by
  simp [releaseWorker, Worker.updateLastActive, Worker.setState,
    Worker.recordTask]

end WorkerPool

namespace WorkerPoolUse

/-- The pool invariant: the workers are distinct allocations, the held ones are
the processing ones, and the idle queue is exact for the others. -/
structure Inv (use : WorkerPoolUse) : Prop where
  distinct : use.pool.workers.Nodup
  allocated : ∀ ref ∈ use.pool.workers,
    ref.address < use.pool.nextAddress
  heldDistinct : use.held.Nodup
  heldInPool : ∀ ref ∈ use.held, ref ∈ use.pool.workers
  processing : ∀ ref ∈ use.held, (use.pool.arcs ref).state = .processing
  idle : ∀ ref ∈ use.pool.workers, ref ∉ use.held →
    (use.pool.arcs ref).state = .idle
  exact : Exact use.pool.workers (fun ref => ref ∉ use.held)
    use.pool.idleWorkers.items
  sizeBound : use.pool.workers.length ≤ use.pool.config.maxWorkers
  capacity : use.pool.idleWorkers.capacity = max use.pool.config.maxWorkers 1

/-- A release gives back a worker whose `id` is still its index. -/
def ReleasesAtOwnIndex (use : WorkerPoolUse) : WorkerPoolAction → Prop
  | .releaseWorker ref _ _ =>
      use.pool.workers[(use.pool.arcs ref).id]? = some ref
  | _ => True

theorem inv_new (config : WorkerPoolConfig) : Inv (new config) where
  distinct := List.nodup_nil
  allocated := by simp [new, WorkerPool.new]
  heldDistinct := List.nodup_nil
  heldInPool := by simp [new]
  processing := by simp [new]
  idle := by simp [new, WorkerPool.new]
  exact := Exact.of_nil _
  sizeBound := Nat.zero_le _
  capacity := rfl

namespace Inv

variable {use : WorkerPoolUse}

theorem free_ne_held {ref other : WorkerRef} (free : ref ∉ use.held)
    (held : other ∈ use.held) : other ≠ ref := by
  rintro rfl
  exact free held

/-- Adding a worker appends a fresh idle one and its index. -/
theorem addWorker (inv : Inv use) :
    Inv { use with pool := use.pool.addWorker.2 } := by
  by_cases full : use.pool.workers.length ≥ use.pool.config.maxWorkers
  · simpa only [WorkerPool.addWorker, if_pos full] using inv
  simp only [WorkerPool.addWorker, if_neg full]
  have size : use.pool.workers.length < use.pool.config.maxWorkers := by
    omega
  have fresh : (⟨use.pool.nextAddress⟩ : WorkerRef) ∉ use.pool.workers := by
    intro member
    exact Nat.lt_irrefl _ (inv.allocated _ member)
  have freshHeld : (⟨use.pool.nextAddress⟩ : WorkerRef) ∉ use.held :=
    fun held => fresh (inv.heldInPool _ held)
  have old : ∀ ref ∈ use.pool.workers, ref ≠ ⟨use.pool.nextAddress⟩ := by
    rintro ref member rfl
    exact fresh member
  have room : use.pool.idleWorkers.items.length <
      use.pool.idleWorkers.capacity := by
    have := inv.exact.length_le
    have := inv.capacity
    omega
  constructor
  · exact List.nodup_append.mpr ⟨inv.distinct, List.nodup_singleton _, by
      intro ref member other otherMem
      rw [List.mem_singleton.mp otherMem]
      exact old ref member⟩
  · intro ref member
    rcases List.mem_append.mp member with before | added
    · exact Nat.lt_succ_of_lt (inv.allocated ref before)
    · rw [List.mem_singleton.mp added]
      exact Nat.lt_succ_self _
  · exact inv.heldDistinct
  · intro ref held
    exact List.mem_append_left _ (inv.heldInPool ref held)
  · intro ref held
    simp only [Function.update_of_ne (old ref (inv.heldInPool ref held))]
    exact inv.processing ref held
  · intro ref member free
    rcases List.mem_append.mp member with before | added
    · simp only [Function.update_of_ne (old ref before)]
      exact inv.idle ref before free
    · rw [List.mem_singleton.mp added]
      simp [Worker.new]
  · simp only [ArrayQueue.push_items_of_room room]
    exact inv.exact.append freshHeld
  · simp only [List.length_append, List.length_singleton]
    omega
  · simpa only [ArrayQueue.push_capacity] using inv.capacity

theorem addWorkers (count : Nat) (inv : Inv use) :
    Inv { use with pool := (WorkerPool.addWorkers count use.pool).2 } := by
  induction count generalizing use with
  | zero => exact inv
  | succ count ih =>
      have added := inv.addWorker
      unfold WorkerPool.addWorkers
      rcases result : use.pool.addWorker with ⟨_ | _, pool⟩
      · simpa only [result] using added
      · rw [result] at added
        exact ih added

theorem initializePool (inv : Inv use) :
    Inv { use with pool := use.pool.initializePool.2 } :=
  inv.addWorkers _

/-- The worker named by the head of the idle queue. -/
theorem head_free (inv : Inv use) {id : Nat} {rest : List Nat}
    (items : use.pool.idleWorkers.items = id :: rest) :
    ∃ ref, use.pool.workers[id]? = some ref ∧ ref ∉ use.held := by
  apply (inv.exact.mem_iff id).mp
  rw [items]
  exact List.mem_cons_self

/-- An empty idle queue means that every worker is held. -/
theorem all_held_of_nil (inv : Inv use)
    (nil : use.pool.idleWorkers.items = []) :
    ∀ ref ∈ use.pool.workers, ref ∈ use.held := by
  intro ref member
  by_contra free
  obtain ⟨index, inside, atIndex⟩ := List.mem_iff_getElem.mp member
  have queued : index ∈ use.pool.idleWorkers.items :=
    (inv.exact.mem_iff index).mpr
      ⟨ref, List.getElem?_eq_some_iff.mpr ⟨inside, atIndex⟩, free⟩
  rw [nil] at queued
  exact List.not_mem_nil queued

theorem acquireWorker (inv : Inv use) (now : Nat) :
    Inv ⟨(use.pool.acquireWorker now).2,
      (use.pool.acquireWorker now).1.toList ++ use.held⟩ := by
  cases items : use.pool.idleWorkers.items with
  | nil =>
      rw [WorkerPool.acquireWorker_of_nil items]
      exact inv
  | cons id rest =>
      obtain ⟨ref, atId, free⟩ := inv.head_free items
      rw [WorkerPool.acquireWorker_of_cons items atId]
      have exactBefore := inv.exact
      rw [items] at exactBefore
      constructor
      · exact inv.distinct
      · exact inv.allocated
      · exact List.nodup_cons.mpr ⟨free, inv.heldDistinct⟩
      · intro other held
        rcases List.mem_cons.mp held with rfl | before
        · exact List.mem_of_getElem? atId
        · exact inv.heldInPool other before
      · intro other held
        rcases List.mem_cons.mp held with rfl | before
        · simp [WorkerPool.acquired, Worker.updateLastActive,
            Worker.setState]
        · simp only [WorkerPool.acquired,
            Function.update_of_ne (free_ne_held free before)]
          exact inv.processing other before
      · intro other member notHeld
        have notTaken : other ≠ ref ∧ other ∉ use.held := by
          simpa [not_or] using notHeld
        simp only [WorkerPool.acquired, Function.update_of_ne notTaken.1]
        exact inv.idle other member notTaken.2
      · simp only [WorkerPool.acquired, ArrayQueue.pop_items, items,
          List.tail_cons]
        refine (exactBefore.take inv.distinct atId).congr_free ?_
        intro other _
        simp [not_or, and_comm]
      · exact inv.sizeBound
      · simpa only [WorkerPool.acquired, ArrayQueue.pop_capacity] using
          inv.capacity

/-- Removing the worker at the head of the idle queue. -/
theorem removeAt (inv : Inv use) {id : Nat} {rest : List Nat}
    (items : use.pool.idleWorkers.items = id :: rest) :
    Inv { use with pool :=
      (use.pool.withIdleWorkers use.pool.idleWorkers.pop.2).removeAt id } := by
  obtain ⟨ref, atId, free⟩ := inv.head_free items
  have exactBefore := inv.exact
  rw [items] at exactBefore
  have survives : ∀ other ∈ use.held,
      other ∈ use.pool.workers.eraseIdx id := by
    intro other held
    exact mem_of_ne_erased atId (inv.heldInPool other held)
      (free_ne_held free held)
  have sameArcs : ∀ other ∈ use.pool.workers.eraseIdx id,
      ((use.pool.withIdleWorkers use.pool.idleWorkers.pop.2).removeAt id).arcs
        other = use.pool.arcs other := by
    intro other member
    exact WorkerPool.removeAt_arcs_of_ne atId
      (ne_erased_of_mem inv.distinct atId member)
  constructor
  · rw [WorkerPool.removeAt_workers]
    exact inv.distinct.eraseIdx id
  · intro other member
    rw [WorkerPool.removeAt_workers] at member
    rw [WorkerPool.removeAt_nextAddress]
    exact inv.allocated other (List.mem_of_mem_eraseIdx member)
  · exact inv.heldDistinct
  · intro other held
    rw [WorkerPool.removeAt_workers]
    exact survives other held
  · intro other held
    rw [sameArcs other (survives other held)]
    exact inv.processing other held
  · intro other member notHeld
    rw [WorkerPool.removeAt_workers] at member
    rw [sameArcs other member]
    exact inv.idle other (List.mem_of_mem_eraseIdx member) notHeld
  · rw [WorkerPool.removeAt_workers, WorkerPool.removeAt_idleWorkers_items]
    simp only [WorkerPool.withIdleWorkers, ArrayQueue.pop_items, items,
      List.tail_cons]
    exact exactBefore.eraseIdx
  · rw [WorkerPool.removeAt_workers, WorkerPool.removeAt_config]
    exact Nat.le_trans (List.length_eraseIdx_le _ _) inv.sizeBound
  · rw [WorkerPool.removeAt_idleWorkers_capacity, WorkerPool.removeAt_config]
    simpa only [WorkerPool.withIdleWorkers, ArrayQueue.pop_capacity] using
      inv.capacity

theorem removeIdleWorker (inv : Inv use) :
    Inv { use with pool := use.pool.removeIdleWorker.2 } := by
  by_cases atMinimum : use.pool.workers.length ≤
      if use.pool.config.enableZeroScaling then 0
      else use.pool.config.minWorkers
  · rw [WorkerPool.removeIdleWorker_of_minimum atMinimum]
    exact inv
  cases items : use.pool.idleWorkers.items with
  | nil =>
      have busy : ∀ ref ∈ use.pool.workers,
          (use.pool.arcs ref).state ≠ .idle := by
        intro ref member isIdle
        rw [inv.processing ref (inv.all_held_of_nil items ref member)]
          at isIdle
        cases isIdle
      rw [WorkerPool.removeIdleWorker_of_nil items busy atMinimum]
      exact inv
  | cons id rest =>
      obtain ⟨ref, atId, free⟩ := inv.head_free items
      have idle : use.pool.stateAt id = some .idle :=
        WorkerPool.stateAt_eq_some.mpr
          ⟨ref, atId, inv.idle ref (List.mem_of_getElem? atId) free⟩
      rw [WorkerPool.removeIdleWorker_of_cons items idle atMinimum]
      exact inv.removeAt items

/-- Releasing a worker at its own index keeps the queue exact. -/
theorem releaseWorker (inv : Inv use) {ref : WorkerRef}
    (held : ref ∈ use.held)
    (ownIndex : use.pool.workers[(use.pool.arcs ref).id]? = some ref)
    (processingTimeMs : UInt64) (now : Nat) :
    Inv ⟨use.pool.releaseWorker ref processingTimeMs now,
      use.held.erase ref⟩ := by
  have stillHeld (other : WorkerRef) :
      other ∈ use.held.erase ref ↔ other ≠ ref ∧ other ∈ use.held :=
    inv.heldDistinct.mem_erase_iff
  have absent : (use.pool.arcs ref).id ∉ use.pool.idleWorkers.items := by
    intro queued
    obtain ⟨other, atId, free⟩ := (inv.exact.mem_iff _).mp queued
    rw [ownIndex, Option.some.injEq] at atId
    exact free (atId ▸ held)
  have room : use.pool.idleWorkers.items.length <
      use.pool.idleWorkers.capacity := by
    have := inv.exact.length_lt
      (List.getElem?_eq_some_iff.mp ownIndex).1 absent
    have := inv.sizeBound
    have := inv.capacity
    omega
  constructor
  · exact inv.distinct
  · exact inv.allocated
  · exact inv.heldDistinct.erase ref
  · intro other otherHeld
    exact inv.heldInPool other ((stillHeld other).mp otherHeld).2
  · intro other otherHeld
    obtain ⟨different, before⟩ := (stillHeld other).mp otherHeld
    rw [WorkerPool.releaseWorker_arcs_of_ne different]
    exact inv.processing other before
  · intro other member notHeld
    by_cases same : other = ref
    · subst other
      exact WorkerPool.releaseWorker_state ref processingTimeMs now
    · rw [WorkerPool.releaseWorker_arcs_of_ne same]
      exact inv.idle other member fun before =>
        notHeld ((stillHeld other).mpr ⟨same, before⟩)
  · rw [WorkerPool.releaseWorker_idleWorkers,
      ArrayQueue.push_items_of_room room]
    refine (inv.exact.giveBack inv.distinct ownIndex
      (fun free => free held)).congr_free ?_
    intro other _
    rw [stillHeld]
    tauto
  · exact inv.sizeBound
  · rw [WorkerPool.releaseWorker_idleWorkers, ArrayQueue.push_capacity]
    exact inv.capacity

/-- One operation keeps the invariant, provided a released worker sits at the
index that equals its `id`. -/
theorem step (inv : Inv use) {action : WorkerPoolAction}
    (condition : ReleasesAtOwnIndex use action) {next : WorkerPoolUse}
    (stepTo : use.step action = some next) : Inv next := by
  cases action with
  | initializePool =>
      cases stepTo
      exact inv.initializePool
  | addWorker =>
      cases stepTo
      exact inv.addWorker
  | acquireWorker now =>
      cases stepTo
      exact inv.acquireWorker now
  | releaseWorker ref processingTimeMs now =>
      simp only [WorkerPoolUse.step, Option.ite_none_right_eq_some,
        Option.some.injEq] at stepTo
      obtain ⟨held, rfl⟩ := stepTo
      exact inv.releaseWorker held condition processingTimeMs now
  | removeIdleWorker =>
      cases stepTo
      exact inv.removeIdleWorker

end Inv

end WorkerPoolUse

end TorchInference
