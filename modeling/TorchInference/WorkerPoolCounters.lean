import Mathlib.Algebra.Group.Nat.Defs
import TorchInference.WorkerPoolStates

/-!
# The counters of the worker pool

The statistics and the auto-scaler subtract counters that no common lock
protects.  `acquire_worker` takes an index from the idle queue before it takes
the lock on the workers, and a removal in between that finds the queue empty
looks for any worker that is idle: it may take the one that is just being
acquired, and then the index leads to another worker, which is acquired twice.
As long as no removal does so, every active worker has a place in the pool.
-/

namespace TorchInference

open TransitionRuns

/-- The statistics of a worker, without its uptime. -/
structure WorkerStats where
  workerId : Nat
  state : WorkerState
  tasksProcessed : UInt64
  totalProcessingTimeMs : UInt64
  avgProcessingTimeMs : UInt64
  lastActive : Option UInt64

def Worker.getStats (worker : Worker) : WorkerStats where
  workerId := worker.id
  state := worker.state
  tasksProcessed := worker.tasksProcessed
  totalProcessingTimeMs := worker.totalProcessingTimeMs
  avgProcessingTimeMs :=
    if worker.tasksProcessed > 0 then
      worker.totalProcessingTimeMs / worker.tasksProcessed
    else 0
  lastActive :=
    if worker.lastActive = 0 then none else some worker.lastActive

structure WorkerPoolStats where
  totalWorkers : UInt64
  activeWorkers : UInt64
  idleWorkers : UInt64
  totalTasks : UInt64
  failedTasks : UInt64
  successRate : Float
  queueSize : UInt64
  workerStats : List WorkerStats

/-- The pool in use, with the indices popped by acquisitions that wait for the
lock, the counters beside the pool, and how often workers were released and
failures recorded. -/
structure WorkerPoolRun where
  use : WorkerPoolUse
  popped : List Nat
  failedTasks : UInt64
  queueSize : UInt64
  releases : Nat
  failures : Nat

inductive WorkerPoolRunAction where
  | initializePool
  | addWorker
  | removeIdleWorker
  /-- The first step of `acquire_worker`. -/
  | popIdle
  /-- The locked section of `acquire_worker`, with an index it popped. -/
  | lockPopped (id now : Nat)
  | releaseWorker (ref : WorkerRef) (processingTimeMs : UInt64) (now : Nat)
  | recordFailure
  | setQueueSize (size : UInt64)
  | getStats
  /-- An iteration of the auto-scaler. -/
  | autoScale
  deriving DecidableEq

namespace WorkerPool

def minLimit (pool : WorkerPool) : Nat :=
  if pool.config.enableZeroScaling then 0 else pool.config.minWorkers

/-- The first half of an iteration of the auto-scaler. -/
def scaleUp (pool : WorkerPool) (queue : UInt64) : WorkerPool :=
  if pool.config.scaleUpThreshold < queue.toNat ∧
      pool.workers.length < pool.config.maxWorkers then pool.addWorker.2
  else pool

/-- Whether the second half compares the workers counted at the beginning with
the active ones. -/
def scalesDown (pool : WorkerPool) (queue : UInt64) : Bool :=
  queue.toNat < pool.config.scaleDownThreshold &&
    pool.minLimit < pool.workers.length

/-- Whether the second half removes a worker. -/
def removesWorker (pool : WorkerPool) (queue : UInt64) : Bool :=
  pool.scalesDown queue &&
    decide (1 < UInt64.ofNat pool.workers.length -
      (pool.scaleUp queue).activeCount)

def autoScale (pool : WorkerPool) (queue : UInt64) : WorkerPool :=
  if pool.removesWorker queue then (pool.scaleUp queue).removeIdleWorker.2
  else pool.scaleUp queue

/-- How many workers are processing. -/
def processing (pool : WorkerPool) : Nat :=
  pool.workers.countP fun ref => decide ((pool.arcs ref).state = .processing)

def getStats (pool : WorkerPool) (failedTasks queueSize : UInt64) :
    WorkerPoolStats where
  totalWorkers := UInt64.ofNat pool.workers.length
  activeWorkers := UInt64.ofNat pool.processing
  idleWorkers :=
    UInt64.ofNat pool.workers.length - UInt64.ofNat pool.processing
  totalTasks := pool.totalTasks
  failedTasks := failedTasks
  successRate :=
    if pool.totalTasks > 0 then
      (pool.totalTasks - failedTasks).toFloat / pool.totalTasks.toFloat * 100.0
    else 100.0
  queueSize := queueSize
  workerStats := pool.workers.map fun ref => (pool.arcs ref).getStats

end WorkerPool

namespace WorkerPoolRun

def new (config : WorkerPoolConfig) : WorkerPoolRun :=
  ⟨WorkerPoolUse.new config, [], 0, 0, 0, 0⟩

def withPool (run : WorkerPoolRun) (pool : WorkerPool) : WorkerPoolRun :=
  { run with use := { run.use with pool := pool } }

def step (run : WorkerPoolRun) : WorkerPoolRunAction → Option WorkerPoolRun
  | .initializePool => some (run.withPool run.use.pool.initializePool.2)
  | .addWorker => some (run.withPool run.use.pool.addWorker.2)
  | .removeIdleWorker => some (run.withPool run.use.pool.removeIdleWorker.2)
  | .popIdle =>
      let (popped, idleWorkers) := run.use.pool.idleWorkers.pop
      some { run.withPool (run.use.pool.withIdleWorkers idleWorkers) with
        popped := run.popped ++ popped.toList }
  | .lockPopped id now =>
      if id ∈ run.popped then
        let (acquired, pool) := run.use.pool.acquireLocked now id
        some { run with
          use := ⟨pool, acquired.toList ++ run.use.held⟩
          popped := run.popped.erase id }
      else none
  | .releaseWorker ref processingTimeMs now =>
      if ref ∈ run.use.held then
        some { run with
          use := ⟨run.use.pool.releaseWorker ref processingTimeMs now,
            run.use.held.erase ref⟩
          releases := run.releases + 1 }
      else none
  | .recordFailure =>
      some { run with
        failedTasks := run.failedTasks + 1
        failures := run.failures + 1 }
  | .setQueueSize size => some { run with queueSize := size }
  | .getStats => some run
  | .autoScale =>
      some (run.withPool (run.use.pool.autoScale run.queueSize))

/-- The active count is that of the acquisitions that have not been released,
and there is a worker for each. -/
structure CountsHeld (run : WorkerPoolRun) : Prop where
  active_eq : run.use.pool.activeCount.toNat = run.use.held.length
  active_le : run.use.pool.activeCount.toNat ≤ run.use.pool.workers.length

/-- The subtractions of a step do not underflow. -/
def NoUnderflow (run : WorkerPoolRun) : WorkerPoolRunAction → Prop
  | .releaseWorker ref _ _ =>
      ref ∈ run.use.held → 1 ≤ run.use.pool.activeCount.toNat
  | .getStats =>
      run.use.pool.processing ≤ run.use.pool.workers.length ∧
        (0 < run.use.pool.totalTasks →
          run.failedTasks ≤ run.use.pool.totalTasks)
  | .autoScale =>
      run.use.pool.scalesDown run.queueSize = true →
        (run.use.pool.scaleUp run.queueSize).activeCount.toNat ≤
          run.use.pool.workers.length
  | _ => True

/-- A removal finds no worker to spare, an index in the idle queue, no idle
worker, or one that is neither held nor being acquired. -/
def SparesPopped (pool : WorkerPool) (taken : Nat) : Prop :=
  pool.workers.length ≤ pool.minLimit ∨ pool.idleWorkers.items ≠ [] ∨
    pool.lastIdle = none ∨ taken < pool.workers.length

/-- How many workers are held or being acquired. -/
def taken (run : WorkerPoolRun) : Nat :=
  run.popped.length + run.use.held.length

/-- No removal takes a worker that is being acquired, and statistics are taken
when no more failures were recorded than workers released, if any was. -/
def Careful (run : WorkerPoolRun) : WorkerPoolRunAction → Prop
  | .removeIdleWorker => SparesPopped run.use.pool run.taken
  | .autoScale =>
      run.use.pool.removesWorker run.queueSize = true →
        SparesPopped (run.use.pool.scaleUp run.queueSize) run.taken
  | .getStats =>
      run.releases = 0 ∨
        run.failures ≤ run.releases ∧ run.releases < 2 ^ 64
  | _ => True

instance (pool : WorkerPool) (taken : Nat) :
    Decidable (SparesPopped pool taken) :=
  inferInstanceAs (Decidable (_ ∨ _ ∨ _ ∨ _))

instance (run : WorkerPoolRun) : ∀ action, Decidable (Careful run action)
  | .removeIdleWorker =>
      inferInstanceAs (Decidable (SparesPopped run.use.pool run.taken))
  | .autoScale =>
      inferInstanceAs (Decidable
        (run.use.pool.removesWorker run.queueSize = true →
          SparesPopped (run.use.pool.scaleUp run.queueSize) run.taken))
  | .getStats =>
      inferInstanceAs (Decidable (run.releases = 0 ∨
        run.failures ≤ run.releases ∧ run.releases < 2 ^ 64))
  | .initializePool => inferInstanceAs (Decidable True)
  | .addWorker => inferInstanceAs (Decidable True)
  | .popIdle => inferInstanceAs (Decidable True)
  | .lockPopped _ _ => inferInstanceAs (Decidable True)
  | .releaseWorker _ _ _ => inferInstanceAs (Decidable True)
  | .recordFailure => inferInstanceAs (Decidable True)
  | .setQueueSize _ => inferInstanceAs (Decidable True)

end WorkerPoolRun

/-! ## Places in the pool -/

namespace WorkerPool

variable {pool next : WorkerPool}

/-- The number of workers changes at most, within the limit. -/
structure Resizes (pool next : WorkerPool) : Prop where
  config : next.config = pool.config
  active : next.activeCount = pool.activeCount
  total : next.totalTasks = pool.totalTasks
  limit : pool.workers.length ≤ pool.config.maxWorkers →
    next.workers.length ≤ pool.config.maxWorkers

theorem Resizes.refl (pool : WorkerPool) : Resizes pool pool :=
  ⟨rfl, rfl, rfl, id⟩

theorem Resizes.trans {last : WorkerPool} (first : Resizes pool next)
    (second : Resizes next last) : Resizes pool last where
  config := second.config.trans first.config
  active := second.active.trans first.active
  total := second.total.trans first.total
  limit := fun within => first.config ▸
    second.limit (first.config.symm ▸ first.limit within)

theorem length_push_le (queue : ArrayQueue Nat) (item : Nat) :
    (queue.push item).items.length ≤ queue.items.length + 1 := by
  rcases queue.push_items_cases item with pushed | full
  · simp [pushed]
  · simp [full]

/-- A new worker brings at most one index. -/
theorem addWorker_resizes (pool : WorkerPool) :
    Resizes pool pool.addWorker.2 ∧
      pool.workers.length ≤ pool.addWorker.2.workers.length ∧
      pool.addWorker.2.idleWorkers.items.length + pool.workers.length ≤
        pool.idleWorkers.items.length + pool.addWorker.2.workers.length := by
  by_cases full : pool.workers.length ≥ pool.config.maxWorkers
  · simp only [addWorker, if_pos full]
    exact ⟨Resizes.refl pool, Nat.le_refl _, Nat.le_refl _⟩
  · simp only [addWorker, if_neg full, List.length_append,
      List.length_singleton]
    have pushed := length_push_le pool.idleWorkers pool.workers.length
    refine ⟨⟨rfl, rfl, rfl, fun _ => ?_⟩, by omega, by omega⟩
    simp only [List.length_append, List.length_singleton]
    omega

theorem addWorkers_resizes (count : Nat) (pool : WorkerPool) :
    Resizes pool (addWorkers count pool).2 ∧
      (addWorkers count pool).2.idleWorkers.items.length +
          pool.workers.length ≤
        pool.idleWorkers.items.length +
          (addWorkers count pool).2.workers.length := by
  induction count generalizing pool with
  | zero => exact ⟨Resizes.refl pool, Nat.le_refl _⟩
  | succ count ih =>
      obtain ⟨first, -, places⟩ := addWorker_resizes pool
      unfold addWorkers
      rcases result : pool.addWorker with ⟨_ | _, added⟩
      · rw [result] at first places
        exact ⟨first, places⟩
      · rw [result] at first places
        obtain ⟨later, placesLater⟩ := ih added
        refine ⟨first.trans later, ?_⟩
        dsimp only at places ⊢
        omega

theorem scaleUp_resizes (pool : WorkerPool) (queue : UInt64) :
    Resizes pool (pool.scaleUp queue) ∧
      pool.workers.length ≤ (pool.scaleUp queue).workers.length ∧
      (pool.scaleUp queue).idleWorkers.items.length + pool.workers.length ≤
        pool.idleWorkers.items.length +
          (pool.scaleUp queue).workers.length := by
  unfold scaleUp
  split
  · exact addWorker_resizes pool
  · exact ⟨Resizes.refl pool, Nat.le_refl _, Nat.le_refl _⟩

theorem removeAt_resizes (pool : WorkerPool) (index : Nat) :
    Resizes pool (pool.removeAt index) := by
  refine ⟨removeAt_config index, ?_, ?_, fun within => ?_⟩
  · unfold removeAt
    cases pool.workers[index]? <;> rfl
  · unfold removeAt
    cases pool.workers[index]? <;> rfl
  · rw [removeAt_workers]
    exact Nat.le_trans (List.length_eraseIdx_le _ _) within

theorem removeAt_places {taken index : Nat}
    (places : pool.idleWorkers.items.length + taken ≤ pool.workers.length)
    (spares : WorkerPoolRun.SparesPopped pool taken)
    (above : ¬ pool.workers.length ≤ pool.minLimit)
    (chosen : (pool.withIdleWorkers pool.idleWorkers.pop.2).removalIndex
      pool.idleWorkers.pop.1 = some index) :
    ((pool.withIdleWorkers pool.idleWorkers.pop.2).removeAt
        index).idleWorkers.items.length + taken ≤
      ((pool.withIdleWorkers pool.idleWorkers.pop.2).removeAt
        index).workers.length := by
  obtain ⟨ref, atIndex, idle⟩ := stateAt_eq_some.mp (removalIndex_idle chosen)
  have inside : index < pool.workers.length :=
    (List.getElem?_eq_some_iff.mp atIndex).1
  have erased : (pool.workers.eraseIdx index).length =
      pool.workers.length - 1 := List.length_eraseIdx_of_lt inside
  have shorter := FreeIndexQueue.length_reindex_le index
    pool.idleWorkers.pop.2.items
  rw [removeAt_idleWorkers_items, removeAt_workers]
  change (FreeIndexQueue.reindex index
    pool.idleWorkers.pop.2.items).length + taken ≤
      (pool.workers.eraseIdx index).length
  rw [erased]
  rw [ArrayQueue.pop_items, List.length_tail] at shorter
  rcases spares with atLimit | queued | noIdle | spare
  · exact absurd atLimit above
  · have positive := List.length_pos_iff.mpr queued
    rw [ArrayQueue.pop_items]
    omega
  · exact absurd idle (lastIdle_eq_none.mp noIdle ref
      (List.mem_of_getElem? atIndex))
  · rw [ArrayQueue.pop_items]
    omega

/-- A removal that spares the workers being acquired leaves a place for each of
them and for each index. -/
theorem removeIdleWorker_places {taken : Nat}
    (places : pool.idleWorkers.items.length + taken ≤ pool.workers.length)
    (spares : WorkerPoolRun.SparesPopped pool taken) :
    Resizes pool pool.removeIdleWorker.2 ∧
      pool.removeIdleWorker.2.idleWorkers.items.length + taken ≤
        pool.removeIdleWorker.2.workers.length := by
  by_cases atMinimum : pool.workers.length ≤ pool.minLimit
  · rw [removeIdleWorker_of_minimum atMinimum]
    exact ⟨Resizes.refl pool, places⟩
  have above : ¬ pool.workers.length ≤
      if pool.config.enableZeroScaling then 0 else pool.config.minWorkers :=
    atMinimum
  have popped : pool.idleWorkers.pop.2.items.length ≤
      pool.idleWorkers.items.length := by
    rw [ArrayQueue.pop_items, List.length_tail]
    omega
  cases chosen : (pool.withIdleWorkers pool.idleWorkers.pop.2).removalIndex
      pool.idleWorkers.pop.1 with
  | none =>
      have failed : pool.removeIdleWorker.2 =
          pool.withIdleWorkers pool.idleWorkers.pop.2 := by
        simp [removeIdleWorker, above, chosen]
      rw [failed]
      exact ⟨⟨rfl, rfl, rfl, id⟩,
        Nat.le_trans (Nat.add_le_add_right popped _) places⟩
  | some index =>
      have removed : pool.removeIdleWorker.2 =
          (pool.withIdleWorkers pool.idleWorkers.pop.2).removeAt index := by
        simp [removeIdleWorker, above, chosen]
      have popOnly : Resizes pool
          (pool.withIdleWorkers pool.idleWorkers.pop.2) :=
        ⟨rfl, rfl, rfl, id⟩
      rw [removed]
      exact ⟨popOnly.trans (removeAt_resizes _ index),
        removeAt_places places spares atMinimum chosen⟩

end WorkerPool

namespace WorkerPoolRun

/-- Each index in the idle queue, each index being acquired and each worker held
has a place of its own in the pool. -/
structure Inv (run : WorkerPoolRun) : Prop where
  places : run.use.pool.idleWorkers.items.length + run.taken ≤
    run.use.pool.workers.length
  limit : run.use.pool.workers.length ≤ run.use.pool.config.maxWorkers
  maxWorkers : run.use.pool.config.maxWorkers < 2 ^ 64
  active : run.use.pool.activeCount.toNat = run.use.held.length
  total : run.use.pool.totalTasks = UInt64.ofNat run.releases
  failed : run.failedTasks = UInt64.ofNat run.failures

theorem inv_new {config : WorkerPoolConfig}
    (small : config.maxWorkers < 2 ^ 64) : Inv (new config) where
  places := Nat.le_refl 0
  limit := Nat.zero_le _
  maxWorkers := small
  active := rfl
  total := rfl
  failed := rfl

namespace Inv

variable {run next : WorkerPoolRun}

theorem countsHeld (inv : Inv run) : CountsHeld run := by
  refine ⟨inv.active, ?_⟩
  have places := inv.places
  rw [taken] at places
  rw [inv.active]
  omega

/-- Another pool with the same counters and a place for everyone. -/
theorem withPool (inv : Inv run) {pool : WorkerPool}
    (resizes : WorkerPool.Resizes run.use.pool pool)
    (places : pool.idleWorkers.items.length + run.taken ≤
      pool.workers.length) : Inv (run.withPool pool) where
  places := places
  limit := by
    change pool.workers.length ≤ pool.config.maxWorkers
    rw [resizes.config]
    exact resizes.limit inv.limit
  maxWorkers := by
    change pool.config.maxWorkers < 2 ^ 64
    rw [resizes.config]
    exact inv.maxWorkers
  active := (congrArg UInt64.toNat resizes.active).trans inv.active
  total := resizes.total.trans inv.total
  failed := inv.failed

theorem initializePool (inv : Inv run) :
    Inv (run.withPool run.use.pool.initializePool.2) := by
  obtain ⟨resizes, places⟩ := WorkerPool.addWorkers_resizes
    (if run.use.pool.config.enableZeroScaling then 0
      else run.use.pool.config.minWorkers) run.use.pool
  have before := inv.places
  refine inv.withPool resizes ?_
  unfold WorkerPool.initializePool
  dsimp only
  omega

theorem addWorker (inv : Inv run) :
    Inv (run.withPool run.use.pool.addWorker.2) := by
  obtain ⟨resizes, -, places⟩ := WorkerPool.addWorker_resizes run.use.pool
  have before := inv.places
  exact inv.withPool resizes (by omega)

theorem scaleUp (inv : Inv run) (queue : UInt64) :
    Inv (run.withPool (run.use.pool.scaleUp queue)) := by
  obtain ⟨resizes, -, places⟩ :=
    WorkerPool.scaleUp_resizes run.use.pool queue
  have before := inv.places
  exact inv.withPool resizes (by omega)

theorem removeIdleWorker (inv : Inv run)
    (spares : SparesPopped run.use.pool run.taken) :
    Inv (run.withPool run.use.pool.removeIdleWorker.2) := by
  obtain ⟨resizes, places⟩ :=
    WorkerPool.removeIdleWorker_places inv.places spares
  exact inv.withPool resizes places

theorem autoScale (inv : Inv run)
    (spares : run.use.pool.removesWorker run.queueSize = true →
      SparesPopped (run.use.pool.scaleUp run.queueSize) run.taken) :
    Inv (run.withPool (run.use.pool.autoScale run.queueSize)) := by
  have scaled := inv.scaleUp run.queueSize
  unfold WorkerPool.autoScale
  by_cases removes : run.use.pool.removesWorker run.queueSize = true
  · rw [if_pos removes]
    exact scaled.removeIdleWorker (spares removes)
  · rw [if_neg removes]
    exact scaled

theorem popIdle (inv : Inv run) :
    Inv { run.withPool
        (run.use.pool.withIdleWorkers run.use.pool.idleWorkers.pop.2) with
      popped := run.popped ++ run.use.pool.idleWorkers.pop.1.toList } := by
  refine ⟨?_, inv.limit, inv.maxWorkers, inv.active, inv.total, inv.failed⟩
  have before := inv.places
  simp only [taken, WorkerPoolRun.withPool, WorkerPool.withIdleWorkers,
    ArrayQueue.pop_items, ArrayQueue.pop_fst, List.length_append] at before ⊢
  cases items : run.use.pool.idleWorkers.items with
  | nil => simpa [items] using before
  | cons id rest =>
      simp only [items, List.length_cons, List.tail_cons, List.head?_cons,
        Option.toList_some, List.length_nil] at before ⊢
      omega

/-- The locked section takes the place of the index, or gives it up. -/
theorem lockPopped (inv : Inv run) {id : Nat} (isPopped : id ∈ run.popped)
    (now : Nat) :
    Inv { run with
      use := ⟨(run.use.pool.acquireLocked now id).2,
        (run.use.pool.acquireLocked now id).1.toList ++ run.use.held⟩
      popped := run.popped.erase id } := by
  have before := inv.places
  have shorter := List.length_erase_of_mem isPopped
  have positive := List.length_pos_of_mem isPopped
  rw [taken] at before
  cases found : run.use.pool.workers[id]? with
  | none =>
      have lost : run.use.pool.acquireLocked now id = (none, run.use.pool) := by
        simp [WorkerPool.acquireLocked, found]
      rw [lost]
      refine ⟨?_, inv.limit, inv.maxWorkers, inv.active, inv.total,
        inv.failed⟩
      simp only [taken, Option.toList_none, List.nil_append]
      omega
  | some ref =>
      have acquired : run.use.pool.acquireLocked now id =
          (some ref, { run.use.pool.modifyWorker ref fun worker =>
              (worker.setState .processing).updateLastActive now with
            activeCount := run.use.pool.activeCount + 1 }) := by
        simp [WorkerPool.acquireLocked, found, WorkerPool.modifyWorker]
      rw [acquired]
      refine ⟨?_, inv.limit, inv.maxWorkers, ?_, inv.total, inv.failed⟩
      · change run.use.pool.idleWorkers.items.length +
          ((run.popped.erase id).length + (ref :: run.use.held).length) ≤
            run.use.pool.workers.length
        rw [List.length_cons]
        omega
      · have limit := inv.limit
        have small := inv.maxWorkers
        change (run.use.pool.activeCount + 1).toNat =
          (ref :: run.use.held).length
        rw [UInt64.toNat_add, inv.active, UInt64.toNat_one,
          List.length_cons, Nat.mod_eq_of_lt (by omega)]

theorem releaseWorker (inv : Inv run) {ref : WorkerRef}
    (held : ref ∈ run.use.held) (processingTimeMs : UInt64) (now : Nat) :
    Inv { run with
      use := ⟨run.use.pool.releaseWorker ref processingTimeMs now,
        run.use.held.erase ref⟩
      releases := run.releases + 1 } := by
  have before := inv.places
  have shorter := List.length_erase_of_mem held
  have positive := List.length_pos_of_mem held
  rw [taken] at before
  refine ⟨?_, inv.limit, inv.maxWorkers, ?_, ?_, inv.failed⟩
  · have pushed := WorkerPool.length_push_le run.use.pool.idleWorkers
      (run.use.pool.arcs ref).id
    simp only [taken, WorkerPool.releaseWorker_idleWorkers]
    change _ ≤ run.use.pool.workers.length
    omega
  · have active := inv.active
    change (run.use.pool.activeCount - 1).toNat =
      (run.use.held.erase ref).length
    have least : (1 : UInt64) ≤ run.use.pool.activeCount := by
      rw [UInt64.le_iff_toNat_le, UInt64.toNat_one]
      omega
    rw [UInt64.toNat_sub_of_le _ _ least, UInt64.toNat_one]
    omega
  · change run.use.pool.totalTasks + 1 = UInt64.ofNat (run.releases + 1)
    rw [inv.total, UInt64.ofNat_add]
    rfl

/-- A step that spares the workers being acquired keeps every place. -/
theorem step (inv : Inv run) {action : WorkerPoolRunAction}
    (careful : Careful run action) (stepTo : run.step action = some next) :
    Inv next := by
  cases action with
  | initializePool =>
      cases stepTo
      exact inv.initializePool
  | addWorker =>
      cases stepTo
      exact inv.addWorker
  | removeIdleWorker =>
      cases stepTo
      exact inv.removeIdleWorker careful
  | popIdle =>
      cases stepTo
      exact inv.popIdle
  | lockPopped id now =>
      simp only [WorkerPoolRun.step, Option.ite_none_right_eq_some,
        Option.some.injEq] at stepTo
      obtain ⟨isPopped, rfl⟩ := stepTo
      exact inv.lockPopped isPopped now
  | releaseWorker ref processingTimeMs now =>
      simp only [WorkerPoolRun.step, Option.ite_none_right_eq_some,
        Option.some.injEq] at stepTo
      obtain ⟨held, rfl⟩ := stepTo
      exact inv.releaseWorker held processingTimeMs now
  | recordFailure =>
      cases stepTo
      refine ⟨inv.places, inv.limit, inv.maxWorkers, inv.active, inv.total, ?_⟩
      change run.failedTasks + 1 = UInt64.ofNat (run.failures + 1)
      rw [inv.failed, UInt64.ofNat_add]
      rfl
  | setQueueSize size =>
      cases stepTo
      exact ⟨inv.places, inv.limit, inv.maxWorkers, inv.active, inv.total,
        inv.failed⟩
  | getStats =>
      cases stepTo
      exact inv
  | autoScale =>
      cases stepTo
      exact inv.autoScale careful

/-- Nothing underflows in a step from such a state. -/
theorem noUnderflow (inv : Inv run) {action : WorkerPoolRunAction}
    (careful : Careful run action) : NoUnderflow run action := by
  cases action with
  | releaseWorker ref processingTimeMs now =>
      intro held
      rw [inv.active]
      exact List.length_pos_of_mem held
  | getStats =>
      refine ⟨List.countP_le_length, fun someTasks => ?_⟩
      rcases careful with none | ⟨fewer, small⟩
      · rw [inv.total, none] at someTasks
        exact absurd someTasks (by decide)
      · rw [inv.total, inv.failed, UInt64.le_iff_toNat_le,
          UInt64.toNat_ofNat', UInt64.toNat_ofNat',
          Nat.mod_eq_of_lt small, Nat.mod_eq_of_lt (by omega)]
        exact fewer
  | autoScale =>
      intro _
      rw [(WorkerPool.scaleUp_resizes run.use.pool run.queueSize).1.active]
      exact inv.countsHeld.active_le
  | _ => trivial

end Inv

/-- In every run in which no removal takes a worker that is being acquired, and
in which statistics are taken when no more failures were recorded than workers
released, the active count is exact and nothing underflows. -/
theorem counters_of_careful {config : WorkerPoolConfig}
    (small : config.maxWorkers < 2 ^ 64)
    {actions : List WorkerPoolRunAction}
    (careful : Meets step Careful (new config) actions) :
    (∀ run ∈ visited step (new config) actions, CountsHeld run) ∧
      Meets step NoUnderflow (new config) actions :=
  ⟨fun run isVisited => (invariant_of_meets
      (fun _ _ _ inv careful stepTo => inv.step careful stepTo)
      (inv_new small) careful run isVisited).countsHeld,
    meets_of_invariant
      (fun _ _ _ inv careful stepTo => inv.step careful stepTo)
      (fun _ _ inv careful => inv.noUnderflow careful)
      (inv_new small) careful⟩

/-- A failed task, statistics, and an iteration of the auto-scaler while a
worker is being acquired. -/
def plainRun : List WorkerPoolRunAction :=
  [.initializePool, .addWorker, .popIdle, .lockPopped 0 1, .recordFailure,
    .releaseWorker ⟨0⟩ 5 2, .getStats, .popIdle, .autoScale,
    .lockPopped 1 3]

theorem plainRun_counters :
    (run step (new .default) plainRun).isSome = true ∧
      (∀ run ∈ visited step (new .default) plainRun, CountsHeld run) ∧
      Meets step NoUnderflow (new .default) plainRun :=
  ⟨by decide, counters_of_careful (by decide) (by decide)⟩

/-- Of two workers that are being acquired one is removed, and the other is
acquired under both indices. -/
def popRace : List WorkerPoolRunAction :=
  [.initializePool, .addWorker, .popIdle, .popIdle, .lockPopped 1 1,
    .removeIdleWorker, .lockPopped 0 2]

/-- Two failures are recorded and one worker is released. -/
def earlyFailures : List WorkerPoolRunAction :=
  [.initializePool, .popIdle, .lockPopped 0 1, .recordFailure,
    .recordFailure, .releaseWorker ⟨0⟩ 5 2, .getStats]

/-- After `popRace` two workers are active in a pool of one, and the statistics
at the end of `earlyFailures` subtract two from one. -/
theorem popRace_earlyFailures_miscount :
    (¬ ∀ (config : WorkerPoolConfig), config.maxWorkers < 2 ^ 64 →
      ∀ actions, ∀ run ∈ visited step (new config) actions,
        CountsHeld run) ∧
    ¬ ∀ (config : WorkerPoolConfig), config.maxWorkers < 2 ^ 64 →
      ∀ actions, Meets step NoUnderflow (new config) actions := by
  constructor
  · intro always
    obtain ⟨last, reaches, active, workers⟩ : ∃ last,
        run step (new ⟨1, 10, 10, 2, false, false⟩) popRace = some last ∧
          last.use.pool.activeCount.toNat = 2 ∧
          last.use.pool.workers.length = 1 :=
      ⟨_, rfl, rfl, rfl⟩
    have counts := always ⟨1, 10, 10, 2, false, false⟩ (by decide) popRace
      last (last_mem_visited reaches)
    have places := counts.active_le
    rw [active, workers] at places
    exact absurd places (by decide)
  · intro always
    have meets := always .default (by decide) earlyFailures
    obtain ⟨last, reaches, failed, total⟩ : ∃ last,
        run step (new .default) (earlyFailures.take 6) = some last ∧
          last.failedTasks = 2 ∧ last.use.pool.totalTasks = 1 :=
      ⟨_, rfl, rfl, rfl⟩
    have fewer := (condition_of_meets reaches meets).2
    rw [failed, total] at fewer
    exact absurd (fewer (by decide)) (by decide)

end WorkerPoolRun

end TorchInference
