import TorchInference.WorkerPoolIdleQueue

/-!
# Exclusive hand-out of workers

`release_worker` pushes the `id` a worker was created with, while the idle
queue is read as a list of indices; `remove_idle_worker` shifts the indices and
leaves the ids alone.  A run of the pool therefore hands out workers
exclusively exactly when every release gives back a worker that still sits at
the index equal to its `id`.
-/

namespace TorchInference

open FreeIndexQueue TransitionRuns

namespace WorkerPoolUse

/-- What callers of the pool rely on in a state: nobody shares a worker, the
next worker handed out is held by nobody, the idle queue is exact, and an
acquisition fails only when every worker is held. -/
structure ExclusiveHandOut (use : WorkerPoolUse) : Prop where
  holdersDistinct : use.held.Nodup
  acquiresFree : ∀ now ref, (use.pool.acquireWorker now).1 = some ref →
    ref ∉ use.held
  idleQueue : Exact use.pool.workers (fun ref => ref ∉ use.held)
    use.pool.idleWorkers.items
  noneWhenAllHeld : ∀ now, (use.pool.acquireWorker now).1 = none →
    ∀ ref ∈ use.pool.workers, ref ∈ use.held

theorem Inv.exclusiveHandOut {use : WorkerPoolUse} (inv : Inv use) :
    ExclusiveHandOut use where
  holdersDistinct := inv.heldDistinct
  acquiresFree := by
    intro now ref acquires
    cases items : use.pool.idleWorkers.items with
    | nil =>
        rw [WorkerPool.acquireWorker_of_nil items] at acquires
        cases acquires
    | cons id rest =>
        obtain ⟨head, atId, free⟩ := inv.head_free items
        rw [WorkerPool.acquireWorker_of_cons items atId] at acquires
        cases acquires
        exact free
  idleQueue := inv.exact
  noneWhenAllHeld := by
    intro now fails
    cases items : use.pool.idleWorkers.items with
    | nil => exact inv.all_held_of_nil items
    | cons id rest =>
        obtain ⟨head, atId, free⟩ := inv.head_free items
        rw [WorkerPool.acquireWorker_of_cons items atId] at fails
        cases fails

/-- Releasing a worker under an `id` that is not its index leaves it out of the
idle queue. -/
theorem Inv.stale_release_breaks {use next : WorkerPoolUse} (inv : Inv use)
    {action : WorkerPoolAction} (stale : ¬ ReleasesAtOwnIndex use action)
    (stepTo : use.step action = some next) : ¬ ExclusiveHandOut next := by
  cases action with
  | releaseWorker ref processingTimeMs now =>
      simp only [WorkerPoolUse.step, Option.ite_none_right_eq_some,
        Option.some.injEq] at stepTo
      obtain ⟨held, rfl⟩ := stepTo
      intro handOut
      obtain ⟨index, atIndex⟩ :=
        List.mem_iff_getElem?.mp (inv.heldInPool ref held)
      have queued : index ∈ (use.pool.releaseWorker ref processingTimeMs
          now).idleWorkers.items :=
        (handOut.idleQueue.mem_iff index).mpr
          ⟨ref, atIndex, fun still =>
            (inv.heldDistinct.mem_erase_iff.mp still).1 rfl⟩
      have notBefore : index ∉ use.pool.idleWorkers.items := by
        intro before
        obtain ⟨other, atOther, free⟩ := (inv.exact.mem_iff index).mp before
        rw [atIndex, Option.some.injEq] at atOther
        exact free (atOther ▸ held)
      rw [WorkerPool.releaseWorker_idleWorkers] at queued
      rcases ArrayQueue.push_items_cases use.pool.idleWorkers
        (use.pool.arcs ref).id with pushed | rejected
      · rw [pushed, List.mem_append, List.mem_singleton] at queued
        rcases queued with before | rfl
        · exact notBefore before
        · exact stale atIndex
      · rw [rejected] at queued
        exact notBefore queued
  | initializePool => exact absurd trivial stale
  | addWorker => exact absurd trivial stale
  | acquireWorker now => exact absurd trivial stale
  | removeIdleWorker => exact absurd trivial stale

/-- A run of the pool hands out workers exclusively in every state it visits
exactly when each of its releases gives back a worker whose `id` is still its
index. -/
theorem exclusiveHandOut_iff_releasesAtOwnIndex (config : WorkerPoolConfig)
    (actions : List WorkerPoolAction) (last : WorkerPoolUse)
    (reaches : run step (new config) actions = some last) :
    (∀ use ∈ visited step (new config) actions, ExclusiveHandOut use) ↔
      Meets step ReleasesAtOwnIndex (new config) actions :=
  forall_visited_iff_meets
    (fun _ inv => inv.exclusiveHandOut)
    (fun _ _ _ inv condition stepTo => inv.step condition stepTo)
    (fun _ _ _ inv stale stepTo => inv.stale_release_breaks stale stepTo)
    (inv_new config) reaches

/-- A worker of a pool that never shrank, acquired and given back. -/
def balancedRun : List WorkerPoolAction :=
  [.initializePool, .acquireWorker 1, .releaseWorker ⟨0⟩ 5 2]

theorem balancedRun_exclusiveHandOut :
    (run step (new WorkerPoolConfig.default) balancedRun).isSome ∧
      ∀ use ∈ visited step (new WorkerPoolConfig.default) balancedRun,
        ExclusiveHandOut use :=
  ⟨rfl, (exclusiveHandOut_iff_releasesAtOwnIndex WorkerPoolConfig.default
    balancedRun _ rfl).mpr ⟨trivial, trivial, rfl, trivial⟩⟩

/-- Three workers, the first one removed; the second, now at index 0, is
acquired and released under its `id` 1, so index 1 is queued twice. -/
def staleIdRun : List WorkerPoolAction :=
  [.initializePool, .addWorker, .addWorker, .removeIdleWorker,
    .acquireWorker 1, .releaseWorker ⟨1⟩ 5 2, .acquireWorker 3,
    .acquireWorker 4]

/-- The last two acquisitions of `staleIdRun` hand out the same worker. -/
theorem staleIdRun_shares_worker :
    ¬ ∀ (config : WorkerPoolConfig) (actions : List WorkerPoolAction),
      ∀ use ∈ visited step (new config) actions, ExclusiveHandOut use := by
  intro exclusive
  obtain ⟨last, reaches, held⟩ : ∃ last,
      run step (new ⟨1, 10, 10, 2, false, false⟩) staleIdRun = some last ∧
        last.held = [⟨2⟩, ⟨2⟩] :=
    ⟨_, rfl, rfl⟩
  have handOut := exclusive ⟨1, 10, 10, 2, false, false⟩ staleIdRun last
    (last_mem_visited reaches)
  have distinct := handOut.holdersDistinct
  rw [held] at distinct
  exact absurd distinct (by decide)

end WorkerPoolUse

end TorchInference
