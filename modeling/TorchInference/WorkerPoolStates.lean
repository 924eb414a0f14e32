import TorchInference.WorkerPoolIdleQueue

/-!
# Paused and stopped workers

`pause_all`, `resume_all` and `shutdown` change the states of the workers and
leave the idle queue alone, and `acquire_worker` takes an index from the queue
without a look at the state.  The workers handed out are idle ones as long as
no worker is acquired while a queued one is paused or the pool is shut down,
and workers are released before the shutdown, at the index that equals their
`id`.
-/

namespace TorchInference

open FreeIndexQueue TransitionRuns

namespace WorkerPool

/-- A loop over the workers that changes each of them. -/
def forEachWorker (pool : WorkerPool) (change : Worker → Worker) : WorkerPool :=
  pool.workers.foldl (fun pool ref => pool.modifyWorker ref change) pool

def pauseAll (pool : WorkerPool) : WorkerPool :=
  pool.forEachWorker fun worker =>
    if worker.state = .idle then worker.setState .paused else worker

def resumeAll (pool : WorkerPool) : WorkerPool :=
  pool.forEachWorker fun worker =>
    if worker.state = .paused then worker.setState .idle else worker

/-- The loop of `shutdown`. -/
def stopAll (pool : WorkerPool) : WorkerPool :=
  pool.forEachWorker (·.setState .stopped)

end WorkerPool

/-- The pool in use, the workers that were paused since `resume_all` last ran,
and the shutdown flag. -/
structure WorkerPoolLife where
  use : WorkerPoolUse
  paused : List WorkerRef
  shutDown : Bool

inductive WorkerPoolLifeAction where
  | operate (action : WorkerPoolAction)
  | pauseAll
  | resumeAll
  | shutdown
  deriving DecidableEq

namespace WorkerPoolLife

/-- A new pool. -/
def new (config : WorkerPoolConfig) : WorkerPoolLife :=
  ⟨WorkerPoolUse.new config, [], false⟩

/-- The same callers with another pool. -/
def withPool (life : WorkerPoolLife) (pool : WorkerPool) : WorkerPoolLife :=
  { life with use := { life.use with pool := pool } }

/-- The workers `pause_all` finds idle. -/
def idleNow (life : WorkerPoolLife) : List WorkerRef :=
  life.use.pool.workers.filter fun ref =>
    decide ((life.use.pool.arcs ref).state = .idle)

def step (life : WorkerPoolLife) : WorkerPoolLifeAction → Option WorkerPoolLife
  | .operate action =>
      (life.use.step action).map fun use => { life with use := use }
  | .pauseAll =>
      some { life.withPool life.use.pool.pauseAll with
        paused := life.paused ++ life.idleNow }
  | .resumeAll =>
      some { life.withPool life.use.pool.resumeAll with paused := [] }
  | .shutdown =>
      some { life.withPool life.use.pool.stopAll with shutDown := true }

/-- What a step owes to the states of the workers: a worker that is handed out
was idle, had not been paused since the last `resume_all`, and the pool was not
shut down; after a shutdown a stopped worker stays so. -/
structure KeepsStates (life : WorkerPoolLife) (action : WorkerPoolLifeAction) :
    Prop where
  acquiresIdle : ∀ now, action = .operate (.acquireWorker now) →
    ∀ ref, (life.use.pool.acquireWorker now).1 = some ref →
      (life.use.pool.arcs ref).state = .idle ∧ ref ∉ life.paused ∧
        life.shutDown = false
  staysStopped : life.shutDown = true →
    ∀ next, life.step action = some next →
      ∀ ref, ref.address < life.use.pool.nextAddress →
        (life.use.pool.arcs ref).state = .stopped →
          (next.use.pool.arcs ref).state = .stopped

/-- Workers are acquired while the idle queue names no paused worker and, after
a shutdown, nothing at all; they are released before a shutdown, at the index
that equals their `id`. -/
def AcquiresRunning (life : WorkerPoolLife) : WorkerPoolLifeAction → Prop
  | .operate (.acquireWorker _) =>
      ∀ index ∈ life.use.pool.idleWorkers.items,
        life.shutDown = false ∧ life.use.pool.stateAt index ≠ some .paused
  | .operate (.releaseWorker ref processingTimeMs now) =>
      life.shutDown = false ∧
        WorkerPoolUse.ReleasesAtOwnIndex life.use
          (.releaseWorker ref processingTimeMs now)
  | _ => True

instance (life : WorkerPoolLife) :
    ∀ action, Decidable (AcquiresRunning life action)
  | .operate (.acquireWorker _) =>
      inferInstanceAs (Decidable (∀ index ∈ life.use.pool.idleWorkers.items,
        life.shutDown = false ∧ life.use.pool.stateAt index ≠ some .paused))
  | .operate (.releaseWorker ref _ _) =>
      inferInstanceAs (Decidable (life.shutDown = false ∧
        life.use.pool.workers[(life.use.pool.arcs ref).id]? = some ref))
  | .operate .initializePool => inferInstanceAs (Decidable True)
  | .operate .addWorker => inferInstanceAs (Decidable True)
  | .operate .removeIdleWorker => inferInstanceAs (Decidable True)
  | .pauseAll => inferInstanceAs (Decidable True)
  | .resumeAll => inferInstanceAs (Decidable True)
  | .shutdown => inferInstanceAs (Decidable True)

end WorkerPoolLife

/-! ## What the loops and the removal do -/

namespace WorkerPool

variable {pool : WorkerPool}

theorem forEach_frame (change : Worker → Worker) (refs : List WorkerRef) :
    let changed :=
      refs.foldl (fun pool ref => pool.modifyWorker ref change) pool
    changed.workers = pool.workers ∧ changed.idleWorkers = pool.idleWorkers ∧
      changed.nextAddress = pool.nextAddress := by
  induction refs generalizing pool with
  | nil => exact ⟨rfl, rfl, rfl⟩
  | cons ref refs ih => exact @ih (pool.modifyWorker ref change)

@[simp]
theorem forEachWorker_workers (change : Worker → Worker) :
    (pool.forEachWorker change).workers = pool.workers :=
  (forEach_frame change pool.workers).1

@[simp]
theorem forEachWorker_idleWorkers (change : Worker → Worker) :
    (pool.forEachWorker change).idleWorkers = pool.idleWorkers :=
  (forEach_frame change pool.workers).2.1

@[simp]
theorem forEachWorker_nextAddress (change : Worker → Worker) :
    (pool.forEachWorker change).nextAddress = pool.nextAddress :=
  (forEach_frame change pool.workers).2.2

theorem forEach_arcs (change : Worker → Worker) {refs : List WorkerRef}
    (distinct : refs.Nodup) (ref : WorkerRef) :
    (refs.foldl (fun pool ref => pool.modifyWorker ref change) pool).arcs ref =
      if ref ∈ refs then change (pool.arcs ref) else pool.arcs ref := by
  induction refs generalizing pool with
  | nil => rfl
  | cons first refs ih =>
      obtain ⟨fresh, distinctRest⟩ := List.nodup_cons.mp distinct
      rw [List.foldl_cons, ih distinctRest]
      by_cases same : ref = first
      · subst same
        rw [if_neg fresh, if_pos List.mem_cons_self, modifyWorker_self]
      · simp only [modifyWorker_of_ne same, List.mem_cons, same, false_or]

theorem forEachWorker_arcs (change : Worker → Worker)
    (distinct : pool.workers.Nodup) (ref : WorkerRef) :
    (pool.forEachWorker change).arcs ref =
      if ref ∈ pool.workers then change (pool.arcs ref)
      else pool.arcs ref :=
  forEach_arcs change distinct ref

theorem lastIdle_idle {index : Nat} (found : pool.lastIdle = some index) :
    pool.stateAt index = some .idle := by
  rw [lastIdle] at found
  have idle := List.find?_some found
  exact of_decide_eq_true idle

theorem removalIndex_idle {candidate : Option Nat} {index : Nat}
    (chosen : pool.removalIndex candidate = some index) :
    pool.stateAt index = some .idle := by
  cases candidate with
  | none => exact lastIdle_idle chosen
  | some id =>
      simp only [removalIndex] at chosen
      split at chosen
      · next valid =>
          cases chosen
          exact valid.2
      · exact lastIdle_idle chosen

/-- `remove_idle_worker` leaves the pool as it is, loses the index it popped,
or also removes an idle worker. -/
theorem removeIdleWorker_cases (pool : WorkerPool) :
    pool.removeIdleWorker.2 = pool ∨
      pool.removeIdleWorker.2 =
        pool.withIdleWorkers pool.idleWorkers.pop.2 ∨
      ∃ index ref, pool.workers[index]? = some ref ∧
        (pool.arcs ref).state = .idle ∧
        pool.removeIdleWorker.2 =
          (pool.withIdleWorkers pool.idleWorkers.pop.2).removeAt index := by
  by_cases atMinimum : pool.workers.length ≤
      if pool.config.enableZeroScaling then 0 else pool.config.minWorkers
  · rw [removeIdleWorker_of_minimum atMinimum]
    exact .inl rfl
  right
  cases chosen : (pool.withIdleWorkers pool.idleWorkers.pop.2).removalIndex
      pool.idleWorkers.pop.1 with
  | none =>
      left
      simp [removeIdleWorker, atMinimum, chosen]
  | some index =>
      right
      obtain ⟨ref, atIndex, idle⟩ :=
        stateAt_eq_some.mp (removalIndex_idle chosen)
      refine ⟨index, ref, atIndex, idle, ?_⟩
      simp [removeIdleWorker, atMinimum, chosen]

end WorkerPool

namespace WorkerPoolLife

/-- The invariant of careful runs: the idle queue names workers nobody holds, a
held worker is processing or stopped, a worker nobody holds is idle or paused
as long as the pool runs, and the workers that `pause_all` paused are. -/
structure Inv (life : WorkerPoolLife) : Prop where
  distinct : life.use.pool.workers.Nodup
  allocated : ∀ ref ∈ life.use.pool.workers,
    ref.address < life.use.pool.nextAddress
  heldInPool : ∀ ref ∈ life.use.held, ref ∈ life.use.pool.workers
  heldDistinct : life.use.held.Nodup
  heldState : ∀ ref ∈ life.use.held, (life.use.pool.arcs ref).state =
    if life.shutDown then .stopped else .processing
  freeState : life.shutDown = false → ∀ ref ∈ life.use.pool.workers,
    ref ∉ life.use.held → (life.use.pool.arcs ref).state = .idle ∨
      (life.use.pool.arcs ref).state = .paused
  names : Names life.use.pool.workers (fun ref => ref ∉ life.use.held)
    life.use.pool.idleWorkers.items
  pausedState : life.shutDown = false → ∀ ref ∈ life.paused,
    ref.address < life.use.pool.nextAddress ∧
      (life.use.pool.arcs ref).state = .paused

theorem inv_new (config : WorkerPoolConfig) : Inv (new config) where
  distinct := List.nodup_nil
  allocated := by simp [new, WorkerPoolUse.new, WorkerPool.new]
  heldInPool := by simp [new, WorkerPoolUse.new]
  heldDistinct := List.nodup_nil
  heldState := by simp [new, WorkerPoolUse.new]
  freeState := by simp [new, WorkerPoolUse.new, WorkerPool.new]
  names := Names.of_nil _ _
  pausedState := by simp [new]

namespace Inv

variable {life : WorkerPoolLife}

theorem held_not_idle (inv : Inv life) {ref : WorkerRef}
    (held : ref ∈ life.use.held) : (life.use.pool.arcs ref).state ≠ .idle := by
  rw [inv.heldState ref held]
  cases life.shutDown <;> decide

theorem addWorker (inv : Inv life) :
    Inv (life.withPool life.use.pool.addWorker.2) := by
  by_cases full :
      life.use.pool.workers.length ≥ life.use.pool.config.maxWorkers
  · simp only [WorkerPool.addWorker, if_pos full]
    exact inv
  simp only [WorkerPool.addWorker, if_neg full]
  have old : ∀ ref : WorkerRef, ref.address < life.use.pool.nextAddress →
      ref ≠ ⟨life.use.pool.nextAddress⟩ := by
    rintro ref before rfl
    exact Nat.lt_irrefl _ before
  have fresh : (⟨life.use.pool.nextAddress⟩ : WorkerRef) ∉
      life.use.pool.workers :=
    fun member => old _ (inv.allocated _ member) rfl
  constructor
  · refine List.nodup_append.mpr ⟨inv.distinct, List.nodup_singleton _, ?_⟩
    intro ref member other otherMem
    rw [List.mem_singleton.mp otherMem]
    exact old ref (inv.allocated ref member)
  · intro ref member
    obtain before | added := List.mem_append.mp member
    · exact Nat.lt_succ_of_lt (inv.allocated ref before)
    · rw [List.mem_singleton.mp added]
      exact Nat.lt_succ_self _
  · intro ref held
    exact List.mem_append_left _ (inv.heldInPool ref held)
  · exact inv.heldDistinct
  · intro ref held
    have before := inv.allocated ref (inv.heldInPool ref held)
    simp only [withPool, Function.update_of_ne (old ref before)]
    exact inv.heldState ref held
  · intro running ref member free
    obtain before | added := List.mem_append.mp member
    · simp only [withPool,
        Function.update_of_ne (old ref (inv.allocated ref before))]
      exact inv.freeState running ref before free
    · rw [List.mem_singleton.mp added]
      left
      simp [withPool, Worker.new]
  · obtain pushed | rejected := ArrayQueue.push_items_cases
      life.use.pool.idleWorkers life.use.pool.workers.length
    · simp only [withPool, pushed]
      exact inv.names.append fun held => fresh (inv.heldInPool _ held)
    · simp only [withPool, rejected]
      exact inv.names.more_slots _
  · intro running ref paused
    obtain ⟨before, state⟩ := inv.pausedState running ref paused
    simp only [withPool, Function.update_of_ne (old ref before)]
    exact ⟨Nat.lt_succ_of_lt before, state⟩

theorem addWorkers (count : Nat) (inv : Inv life) :
    Inv (life.withPool (WorkerPool.addWorkers count life.use.pool).2) := by
  induction count generalizing life with
  | zero => exact inv
  | succ count ih =>
      have added := inv.addWorker
      unfold WorkerPool.addWorkers
      rcases result : life.use.pool.addWorker with ⟨_ | _, pool⟩
      · simpa only [result] using added
      · rw [result] at added
        exact ih added

/-- The worker named first is idle when workers may be acquired. -/
theorem head_idle (inv : Inv life) {id : Nat} {rest : List Nat}
    (items : life.use.pool.idleWorkers.items = id :: rest)
    (running : life.shutDown = false)
    (notPaused : life.use.pool.stateAt id ≠ some .paused) :
    ∃ ref, life.use.pool.workers[id]? = some ref ∧ ref ∉ life.use.held ∧
      (life.use.pool.arcs ref).state = .idle ∧ ref ∉ life.paused := by
  obtain ⟨ref, atId, free⟩ :=
    inv.names.free_of_mem id (by rw [items]; exact List.mem_cons_self)
  have state : (life.use.pool.arcs ref).state ≠ .paused := fun paused =>
    notPaused (WorkerPool.stateAt_eq_some.mpr ⟨ref, atId, paused⟩)
  obtain idle | paused :=
    inv.freeState running ref (List.mem_of_getElem? atId) free
  · exact ⟨ref, atId, free, idle, fun paused =>
      state (inv.pausedState running ref paused).2⟩
  · exact absurd paused state

theorem acquireWorker (inv : Inv life) (now : Nat)
    (acquires : AcquiresRunning life (.operate (.acquireWorker now))) :
    Inv { life with use := ⟨(life.use.pool.acquireWorker now).2,
      (life.use.pool.acquireWorker now).1.toList ++ life.use.held⟩ } := by
  cases items : life.use.pool.idleWorkers.items with
  | nil =>
      rw [WorkerPool.acquireWorker_of_nil items]
      exact inv
  | cons id rest =>
      obtain ⟨running, notPaused⟩ :=
        acquires id (by rw [items]; exact List.mem_cons_self)
      obtain ⟨ref, atId, free, idle, notPausedBefore⟩ :=
        inv.head_idle items running notPaused
      rw [WorkerPool.acquireWorker_of_cons items atId]
      have others : ∀ other, other ≠ ref →
          (life.use.pool.acquired ref now).arcs other =
            life.use.pool.arcs other :=
        fun other different => Function.update_of_ne different _ _
      constructor
      · exact inv.distinct
      · exact inv.allocated
      · intro other held
        obtain rfl | before := List.mem_cons.mp held
        · exact List.mem_of_getElem? atId
        · exact inv.heldInPool other before
      · exact List.nodup_cons.mpr ⟨free, inv.heldDistinct⟩
      · intro other held
        obtain rfl | before := List.mem_cons.mp held
        · simp [WorkerPool.acquired, Worker.updateLastActive, Worker.setState,
            running]
        · rw [others other (by rintro rfl; exact free before)]
          exact inv.heldState other before
      · intro _ other member notHeld
        have notTaken : other ≠ ref ∧ other ∉ life.use.held := by
          simpa [not_or] using notHeld
        rw [others other notTaken.1]
        exact inv.freeState running other member notTaken.2
      · have names := inv.names
        rw [items] at names
        simp only [WorkerPool.acquired, ArrayQueue.pop_items, items,
          List.tail_cons]
        apply (names.take inv.distinct atId).imp_free
        rintro other ⟨notHeld, different⟩
        simp [notHeld, different]
      · intro _ other paused
        rw [others other (by rintro rfl; exact notPausedBefore paused)]
        exact inv.pausedState running other paused

theorem releaseWorker (inv : Inv life) (running : life.shutDown = false)
    {ref : WorkerRef} (held : ref ∈ life.use.held)
    (ownIndex :
      life.use.pool.workers[(life.use.pool.arcs ref).id]? = some ref)
    (processingTimeMs : UInt64) (now : Nat) :
    Inv { life with use :=
      ⟨life.use.pool.releaseWorker ref processingTimeMs now,
        life.use.held.erase ref⟩ } := by
  have stillHeld (other : WorkerRef) :
      other ∈ life.use.held.erase ref ↔
        other ≠ ref ∧ other ∈ life.use.held :=
    inv.heldDistinct.mem_erase_iff
  constructor
  · exact inv.distinct
  · exact inv.allocated
  · intro other otherHeld
    exact inv.heldInPool other ((stillHeld other).mp otherHeld).2
  · exact inv.heldDistinct.erase ref
  · intro other otherHeld
    obtain ⟨different, before⟩ := (stillHeld other).mp otherHeld
    rw [WorkerPool.releaseWorker_arcs_of_ne different]
    exact inv.heldState other before
  · intro _ other member notHeld
    by_cases same : other = ref
    · subst other
      exact .inl (WorkerPool.releaseWorker_state ref processingTimeMs now)
    · rw [WorkerPool.releaseWorker_arcs_of_ne same]
      exact inv.freeState running other member fun before =>
        notHeld ((stillHeld other).mpr ⟨same, before⟩)
  · rw [WorkerPool.releaseWorker_idleWorkers]
    have freed : ∀ other, other ∉ life.use.held ∨ other = ref →
        other ∉ life.use.held.erase ref := by
      rintro other free member
      obtain ⟨different, before⟩ := (stillHeld other).mp member
      exact free.elim (fun free => free before) different
    obtain pushed | rejected := ArrayQueue.push_items_cases
      life.use.pool.idleWorkers (life.use.pool.arcs ref).id
    · rw [pushed]
      exact (inv.names.giveBack ownIndex fun free => free held).imp_free freed
    · rw [rejected]
      exact inv.names.imp_free fun other free => freed other (.inl free)
  · intro _ other paused
    obtain ⟨before, state⟩ := inv.pausedState running other paused
    have different : other ≠ ref := by
      rintro rfl
      have processing := inv.heldState other held
      rw [state, running] at processing
      cases processing
    rw [WorkerPool.releaseWorker_arcs_of_ne different]
    exact ⟨before, state⟩

/-- Losing the first entry of the idle queue. -/
theorem popIdle (inv : Inv life) :
    Inv (life.withPool
      (life.use.pool.withIdleWorkers life.use.pool.idleWorkers.pop.2)) := by
  constructor
  · exact inv.distinct
  · exact inv.allocated
  · exact inv.heldInPool
  · exact inv.heldDistinct
  · exact inv.heldState
  · exact inv.freeState
  · simp only [withPool, WorkerPool.withIdleWorkers, ArrayQueue.pop_items]
    exact inv.names.tail
  · exact inv.pausedState

/-- Removing an idle worker. -/
theorem removeAt (inv : Inv life) {index : Nat} {ref : WorkerRef}
    (atIndex : life.use.pool.workers[index]? = some ref)
    (idle : (life.use.pool.arcs ref).state = .idle) :
    Inv (life.withPool (life.use.pool.removeAt index)) := by
  have heldOther : ∀ other ∈ life.use.held, other ≠ ref := by
    rintro other held rfl
    exact inv.held_not_idle held idle
  have sameArcs : ∀ other, other ≠ ref →
      (life.use.pool.removeAt index).arcs other = life.use.pool.arcs other :=
    fun other different => WorkerPool.removeAt_arcs_of_ne atIndex different
  have kept : ∀ other ∈ life.use.pool.workers.eraseIdx index,
      other ∈ life.use.pool.workers ∧ other ≠ ref := by
    intro other member
    exact ⟨List.mem_of_mem_eraseIdx member,
      ne_erased_of_mem inv.distinct atIndex member⟩
  constructor
  · simp only [withPool, WorkerPool.removeAt_workers]
    exact inv.distinct.eraseIdx index
  · intro other member
    simp only [withPool, WorkerPool.removeAt_workers,
      WorkerPool.removeAt_nextAddress] at member ⊢
    exact inv.allocated other (kept other member).1
  · intro other held
    simp only [withPool, WorkerPool.removeAt_workers]
    exact mem_of_ne_erased atIndex (inv.heldInPool other held)
      (heldOther other held)
  · exact inv.heldDistinct
  · intro other held
    simp only [withPool, sameArcs other (heldOther other held)]
    exact inv.heldState other held
  · intro running other member free
    simp only [withPool, WorkerPool.removeAt_workers] at member
    obtain ⟨before, different⟩ := kept other member
    simp only [withPool, sameArcs other different]
    exact inv.freeState running other before free
  · simp only [withPool, WorkerPool.removeAt_workers,
      WorkerPool.removeAt_idleWorkers_items]
    exact inv.names.eraseIdx index
  · intro running other paused
    obtain ⟨before, state⟩ := inv.pausedState running other paused
    have different : other ≠ ref := by
      rintro rfl
      rw [idle] at state
      cases state
    simp only [withPool, WorkerPool.removeAt_nextAddress,
      sameArcs other different]
    exact ⟨before, state⟩

theorem removeIdleWorker (inv : Inv life) :
    Inv (life.withPool life.use.pool.removeIdleWorker.2) := by
  obtain same | popped | ⟨index, ref, atIndex, idle, removed⟩ :=
    WorkerPool.removeIdleWorker_cases life.use.pool
  · rw [same]
    exact inv
  · rw [popped]
    exact inv.popIdle
  · rw [removed]
    exact inv.popIdle.removeAt atIndex idle

/-- A loop that changes the states of all workers. -/
theorem forEachWorker (inv : Inv life) {change : Worker → Worker}
    {paused : List WorkerRef} {shutDown : Bool}
    (heldState : ∀ worker : Worker,
      (worker.state = if life.shutDown then .stopped else .processing) →
        (change worker).state = if shutDown then .stopped else .processing)
    (freeState : shutDown = false → life.shutDown = false ∧
      ∀ worker : Worker, worker.state = .idle ∨ worker.state = .paused →
        (change worker).state = .idle ∨ (change worker).state = .paused)
    (pausedState : shutDown = false → ∀ ref ∈ paused,
      ref.address < life.use.pool.nextAddress ∧
        ((life.use.pool.forEachWorker change).arcs ref).state = .paused) :
    Inv ⟨(life.withPool (life.use.pool.forEachWorker change)).use, paused,
      shutDown⟩ := by
  have changed : ∀ ref ∈ life.use.pool.workers,
      (life.use.pool.forEachWorker change).arcs ref =
        change (life.use.pool.arcs ref) := by
    intro ref member
    rw [WorkerPool.forEachWorker_arcs change inv.distinct, if_pos member]
  constructor
  · simpa only [withPool, WorkerPool.forEachWorker_workers] using inv.distinct
  · simpa only [withPool, WorkerPool.forEachWorker_workers,
      WorkerPool.forEachWorker_nextAddress] using inv.allocated
  · simpa only [withPool, WorkerPool.forEachWorker_workers] using
      inv.heldInPool
  · exact inv.heldDistinct
  · intro ref held
    simp only [withPool, changed ref (inv.heldInPool ref held)]
    exact heldState _ (inv.heldState ref held)
  · intro running ref member free
    obtain ⟨runningBefore, kept⟩ := freeState running
    simp only [withPool, WorkerPool.forEachWorker_workers] at member
    simp only [withPool, changed ref member]
    exact kept _ (inv.freeState runningBefore ref member free)
  · simpa only [withPool, WorkerPool.forEachWorker_workers,
      WorkerPool.forEachWorker_idleWorkers] using inv.names
  · intro running ref isPaused
    simpa only [withPool, WorkerPool.forEachWorker_nextAddress] using
      pausedState running ref isPaused

theorem pauseAll (inv : Inv life) :
    Inv { life.withPool life.use.pool.pauseAll with
      paused := life.paused ++ life.idleNow } := by
  apply inv.forEachWorker
  · intro worker state
    have busy : worker.state ≠ .idle := by
      rw [state]
      cases life.shutDown <;> decide
    rw [if_neg busy]
    exact state
  · intro running
    refine ⟨running, fun worker state => ?_⟩
    split
    · exact .inr rfl
    · exact state
  · intro running ref isPaused
    rw [WorkerPool.forEachWorker_arcs _ inv.distinct]
    obtain before | idle := List.mem_append.mp isPaused
    · obtain ⟨allocated, state⟩ := inv.pausedState running ref before
      refine ⟨allocated, ?_⟩
      simp [state]
    · obtain ⟨member, state⟩ := List.mem_filter.mp idle
      refine ⟨inv.allocated ref member, ?_⟩
      rw [if_pos member, if_pos (of_decide_eq_true state)]
      rfl

theorem resumeAll (inv : Inv life) :
    Inv { life.withPool life.use.pool.resumeAll with paused := [] } := by
  apply inv.forEachWorker
  · intro worker state
    have busy : worker.state ≠ .paused := by
      rw [state]
      cases life.shutDown <;> decide
    rw [if_neg busy]
    exact state
  · intro running
    refine ⟨running, fun worker state => ?_⟩
    split
    · exact .inl rfl
    · exact state
  · intro _ ref absent
    exact absurd absent List.not_mem_nil

theorem shutdown (inv : Inv life) :
    Inv { life.withPool life.use.pool.stopAll with shutDown := true } := by
  apply inv.forEachWorker
  · intro worker _
    rfl
  · intro running
    cases running
  · intro running
    cases running

/-- One careful step keeps the invariant. -/
theorem step (inv : Inv life) {action : WorkerPoolLifeAction}
    (acquires : AcquiresRunning life action) {next : WorkerPoolLife}
    (stepTo : life.step action = some next) : Inv next := by
  cases action with
  | operate action =>
      obtain ⟨use, useStep, rfl⟩ := Option.map_eq_some_iff.mp stepTo
      cases action with
      | initializePool =>
          cases useStep
          exact inv.addWorkers _
      | addWorker =>
          cases useStep
          exact inv.addWorker
      | acquireWorker now =>
          cases useStep
          exact inv.acquireWorker now acquires
      | releaseWorker ref processingTimeMs now =>
          simp only [WorkerPoolUse.step, Option.ite_none_right_eq_some,
            Option.some.injEq] at useStep
          obtain ⟨held, rfl⟩ := useStep
          exact inv.releaseWorker acquires.1 held acquires.2 processingTimeMs
            now
      | removeIdleWorker =>
          cases useStep
          exact inv.removeIdleWorker
  | pauseAll =>
      cases stepTo
      exact inv.pauseAll
  | resumeAll =>
      cases stepTo
      exact inv.resumeAll
  | shutdown =>
      cases stepTo
      exact inv.shutdown

end Inv

/-! ## What a careful step does to the states -/

theorem addWorker_arcs {pool : WorkerPool} {ref : WorkerRef}
    (allocated : ref.address < pool.nextAddress) :
    pool.addWorker.2.arcs ref = pool.arcs ref ∧
      pool.nextAddress ≤ pool.addWorker.2.nextAddress := by
  unfold WorkerPool.addWorker
  dsimp only
  split
  · exact ⟨rfl, Nat.le_refl _⟩
  · refine ⟨Function.update_of_ne ?_ _ _, Nat.le_succ _⟩
    rintro rfl
    exact Nat.lt_irrefl _ allocated

theorem addWorkers_arcs (count : Nat) {pool : WorkerPool} {ref : WorkerRef}
    (allocated : ref.address < pool.nextAddress) :
    (WorkerPool.addWorkers count pool).2.arcs ref = pool.arcs ref := by
  induction count generalizing pool with
  | zero => rfl
  | succ count ih =>
      obtain ⟨sameWorker, grown⟩ := addWorker_arcs allocated
      unfold WorkerPool.addWorkers
      rcases result : pool.addWorker with ⟨_ | _, next⟩
      · rw [result] at sameWorker
        exact sameWorker
      · rw [result] at sameWorker grown
        exact (ih (Nat.lt_of_lt_of_le allocated grown)).trans sameWorker

theorem removeIdleWorker_stopped {pool : WorkerPool} {ref : WorkerRef}
    (stopped : (pool.arcs ref).state = .stopped) :
    (pool.removeIdleWorker.2.arcs ref).state = .stopped := by
  obtain same | popped | ⟨index, removed, atIndex, idle, result⟩ :=
    WorkerPool.removeIdleWorker_cases pool
  · rw [same]
    exact stopped
  · rw [popped]
    exact stopped
  · have different : ref ≠ removed := by
      rintro rfl
      rw [idle] at stopped
      cases stopped
    have other : ((pool.withIdleWorkers pool.idleWorkers.pop.2).removeAt
        index).arcs ref = pool.arcs ref :=
      WorkerPool.removeAt_arcs_of_ne atIndex different
    rw [result, other]
    exact stopped

theorem forEachWorker_stopped {pool : WorkerPool} {ref : WorkerRef}
    (distinct : pool.workers.Nodup) {change : Worker → Worker}
    (kept : ∀ worker : Worker, worker.state = .stopped →
      (change worker).state = .stopped)
    (stopped : (pool.arcs ref).state = .stopped) :
    ((pool.forEachWorker change).arcs ref).state = .stopped := by
  rw [WorkerPool.forEachWorker_arcs change distinct]
  split
  · exact kept _ stopped
  · exact stopped

/-- A careful step keeps stopped workers stopped after a shutdown. -/
theorem Inv.staysStopped {life : WorkerPoolLife} (inv : Inv life)
    {action : WorkerPoolLifeAction} (acquires : AcquiresRunning life action)
    (shutDown : life.shutDown = true) {next : WorkerPoolLife}
    (stepTo : life.step action = some next) {ref : WorkerRef}
    (allocated : ref.address < life.use.pool.nextAddress)
    (stopped : (life.use.pool.arcs ref).state = .stopped) :
    (next.use.pool.arcs ref).state = .stopped := by
  cases action with
  | operate action =>
      obtain ⟨use, useStep, rfl⟩ := Option.map_eq_some_iff.mp stepTo
      cases action with
      | initializePool =>
          cases useStep
          simp only [WorkerPool.initializePool, addWorkers_arcs _ allocated]
          exact stopped
      | addWorker =>
          cases useStep
          simp only [(addWorker_arcs allocated).1]
          exact stopped
      | acquireWorker now =>
          have empty : life.use.pool.idleWorkers.items = [] := by
            apply List.eq_nil_iff_forall_not_mem.mpr
            intro index member
            have running := (acquires index member).1
            rw [shutDown] at running
            cases running
          cases useStep
          change ((life.use.pool.acquireWorker now).2.arcs ref).state =
            .stopped
          rw [WorkerPool.acquireWorker_of_nil empty]
          exact stopped
      | releaseWorker ref processingTimeMs now =>
          have running := acquires.1
          rw [shutDown] at running
          cases running
      | removeIdleWorker =>
          cases useStep
          exact removeIdleWorker_stopped stopped
  | pauseAll =>
      cases stepTo
      apply forEachWorker_stopped inv.distinct _ stopped
      intro worker state
      simp [state]
  | resumeAll =>
      cases stepTo
      apply forEachWorker_stopped inv.distinct _ stopped
      intro worker state
      simp [state]
  | shutdown =>
      cases stepTo
      exact forEachWorker_stopped inv.distinct (fun _ _ => rfl) stopped

theorem Inv.keepsStates {life : WorkerPoolLife} (inv : Inv life)
    {action : WorkerPoolLifeAction} (acquires : AcquiresRunning life action) :
    KeepsStates life action where
  acquiresIdle := by
    rintro now rfl ref acquired
    cases items : life.use.pool.idleWorkers.items with
    | nil =>
        rw [WorkerPool.acquireWorker_of_nil items] at acquired
        cases acquired
    | cons id rest =>
        obtain ⟨running, notPaused⟩ :=
          acquires id (by rw [items]; exact List.mem_cons_self)
        obtain ⟨head, atId, _, idle, notPausedBefore⟩ :=
          inv.head_idle items running notPaused
        rw [WorkerPool.acquireWorker_of_cons items atId] at acquired
        cases acquired
        exact ⟨idle, notPausedBefore, running⟩
  staysStopped := fun shutDown _ stepTo _ allocated stopped =>
    inv.staysStopped acquires shutDown stepTo allocated stopped

/-- In a run that acquires workers only while no queued worker is paused or
stopped and releases them before the shutdown, at their own index, every step
keeps to the states of the workers. -/
theorem keepsStates_of_acquiresRunning (config : WorkerPoolConfig)
    (actions : List WorkerPoolLifeAction)
    (acquires : Meets step AcquiresRunning (new config) actions) :
    Meets step KeepsStates (new config) actions :=
  meets_of_invariant
    (fun _ _ _ inv acquires stepTo => inv.step acquires stepTo)
    (fun _ _ inv acquires => inv.keepsStates acquires)
    (inv_new config) acquires

/-- A pause between two acquisitions, a release, and a shutdown. -/
def pausedRun : List WorkerPoolLifeAction :=
  [.operate .initializePool, .operate (.acquireWorker 1), .pauseAll,
    .resumeAll, .operate (.acquireWorker 2),
    .operate (.releaseWorker ⟨0⟩ 5 3), .shutdown, .operate .removeIdleWorker]

theorem pausedRun_keepsStates :
    (run step (new WorkerPoolConfig.default) pausedRun).isSome ∧
      Meets step KeepsStates (new WorkerPoolConfig.default) pausedRun :=
  ⟨rfl, keepsStates_of_acquiresRunning WorkerPoolConfig.default pausedRun
    (by decide)⟩

/-- A worker is acquired while it is paused, one is acquired after a shutdown,
and one that was stopped by a shutdown is given back as an idle one. -/
theorem pausedAndStopped_handedOut :
    ¬ Meets step KeepsStates (new WorkerPoolConfig.default)
        [.operate .initializePool, .pauseAll, .operate (.acquireWorker 1)] ∧
      ¬ Meets step KeepsStates (new WorkerPoolConfig.default)
        [.operate .initializePool, .shutdown, .operate (.acquireWorker 1)] ∧
      ¬ Meets step KeepsStates (new WorkerPoolConfig.default)
        [.operate .initializePool, .operate (.acquireWorker 1), .shutdown,
          .operate (.releaseWorker ⟨0⟩ 5 2)] := by
  refine ⟨?_, ?_, ?_⟩
  · intro keeps
    have acquired := keeps.2.2.1.acquiresIdle 1 rfl ⟨0⟩ rfl
    exact absurd acquired.1 (by decide)
  · intro keeps
    have acquired := keeps.2.2.1.acquiresIdle 1 rfl ⟨0⟩ rfl
    exact absurd acquired.2.2 (by decide)
  · intro keeps
    have kept := keeps.2.2.2.1.staysStopped rfl _ rfl ⟨0⟩ (by decide) rfl
    exact absurd kept (by decide)

end WorkerPoolLife

end TorchInference
