import TorchInference.WorkerPoolStates

/-!
# Removals that fail

`remove_idle_worker` takes a candidate from the idle queue before it looks for
an idle worker.  When it finds none it fails and does not put the candidate
back, so the worker of that index is acquired no more, not even after
`resume_all`.
-/

namespace TorchInference

open TransitionRuns

namespace WorkerPool

/-- A removal that fails leaves the vector, the states of the workers and the
idle queue as they are. -/
def FailsAtomically (pool : WorkerPool) : Prop :=
  ∀ message, pool.removeIdleWorker.1 = .error message →
    pool.removeIdleWorker.2.workers = pool.workers ∧
      (∀ ref, (pool.removeIdleWorker.2.arcs ref).state =
        (pool.arcs ref).state) ∧
      pool.removeIdleWorker.2.idleWorkers.items = pool.idleWorkers.items

/-- No worker may be removed, or one of them can be, or there is no candidate to
lose. -/
def KeepsCandidate (pool : WorkerPool) : Prop :=
  (pool.workers.length ≤
      if pool.config.enableZeroScaling then 0 else pool.config.minWorkers) ∨
    (∃ ref ∈ pool.workers, (pool.arcs ref).state = .idle) ∨
    pool.idleWorkers.items = []

instance (pool : WorkerPool) : Decidable pool.KeepsCandidate :=
  inferInstanceAs (Decidable (_ ∨ _ ∨ _))

variable {pool : WorkerPool}

/-- Whatever has been popped, a worker is found if there is an idle one. -/
theorem removalIndex_eq_none {candidate : Option Nat} :
    pool.removalIndex candidate = none ↔
      ∀ ref ∈ pool.workers, (pool.arcs ref).state ≠ .idle := by
  cases candidate with
  | none => exact lastIdle_eq_none
  | some id =>
      simp only [removalIndex]
      split
      · next valid =>
          obtain ⟨ref, atIndex, idle⟩ := stateAt_eq_some.mp valid.2
          exact iff_of_false (Option.some_ne_none _) fun noIdle =>
            noIdle ref (List.mem_of_getElem? atIndex) idle
      · exact lastIdle_eq_none

/-- A removal loses its candidate exactly when it may remove a worker, finds
none that is idle, and has a candidate. -/
theorem failsAtomically_iff (pool : WorkerPool) :
    pool.FailsAtomically ↔ pool.KeepsCandidate := by
  unfold FailsAtomically KeepsCandidate
  by_cases atMinimum : pool.workers.length ≤
      if pool.config.enableZeroScaling then 0 else pool.config.minWorkers
  · rw [removeIdleWorker_of_minimum atMinimum]
    exact iff_of_true (fun _ _ => ⟨rfl, fun _ => rfl, rfl⟩) (.inl atMinimum)
  · rw [or_iff_right atMinimum]
    cases chosen : (pool.withIdleWorkers pool.idleWorkers.pop.2).removalIndex
        pool.idleWorkers.pop.1 with
    | some index =>
        have removed : pool.removeIdleWorker.1 = .ok () := by
          simp [removeIdleWorker, atMinimum, chosen]
        have found : ∃ ref ∈ pool.workers, (pool.arcs ref).state = .idle := by
          by_contra noIdle
          push Not at noIdle
          have nothing : (pool.withIdleWorkers pool.idleWorkers.pop.2
              ).removalIndex pool.idleWorkers.pop.1 = none :=
            removalIndex_eq_none.mpr noIdle
          rw [nothing] at chosen
          cases chosen
        refine iff_of_true (fun message failed => ?_) (.inl found)
        rw [removed] at failed
        cases failed
    | none =>
        have noIdle := removalIndex_eq_none.mp chosen
        have failed : pool.removeIdleWorker =
            (.error "No idle workers to remove",
              pool.withIdleWorkers pool.idleWorkers.pop.2) := by
          simp [removeIdleWorker, atMinimum, chosen]
        have noneFound : ¬∃ ref ∈ pool.workers, (pool.arcs ref).state = .idle := by
          push Not
          exact noIdle
        rw [failed, or_iff_right noneFound]
        constructor
        · intro atomic
          have kept := (atomic _ rfl).2.2
          change pool.idleWorkers.pop.2.items = _ at kept
          rw [ArrayQueue.pop_items] at kept
          cases items : pool.idleWorkers.items with
          | nil => rfl
          | cons id rest =>
              rw [items] at kept
              exact absurd kept (List.cons_ne_self id rest).symm
        · intro empty message _
          refine ⟨rfl, fun _ => rfl, ?_⟩
          change pool.idleWorkers.pop.2.items = _
          rw [ArrayQueue.pop_items, empty]
          rfl

end WorkerPool

namespace WorkerPoolLife

/-- A step that removes a worker does nothing when it fails. -/
def RemovesAtomically (life : WorkerPoolLife) : WorkerPoolLifeAction → Prop
  | .operate .removeIdleWorker => life.use.pool.FailsAtomically
  | _ => True

/-- A removal comes when it cannot lose its candidate. -/
def KeepsCandidate (life : WorkerPoolLife) : WorkerPoolLifeAction → Prop
  | .operate .removeIdleWorker => life.use.pool.KeepsCandidate
  | _ => True

/-- In every run of a pool, the removals that fail change nothing exactly when
each removal comes to a pool with no worker to spare, with an idle worker, or
with an empty idle queue. -/
theorem removesAtomically_iff_keepsCandidate (config : WorkerPoolConfig)
    (actions : List WorkerPoolLifeAction) :
    Meets step RemovesAtomically (new config) actions ↔
      Meets step KeepsCandidate (new config) actions := by
  apply meets_congr
  intro life action
  cases action with
  | operate action =>
      cases action with
      | removeIdleWorker => exact life.use.pool.failsAtomically_iff
      | _ => exact Iff.rfl
  | _ => exact Iff.rfl

/-- Three workers are paused, one of them is to be removed, and they are
resumed. -/
def pausedRemoval : List WorkerPoolLifeAction :=
  [.operate .initializePool, .operate .addWorker, .pauseAll,
    .operate .removeIdleWorker, .resumeAll, .operate (.acquireWorker 1),
    .operate (.acquireWorker 2)]

/-- The removal fails, and of the three idle workers one is never acquired
again. -/
theorem pausedRemoval_loses_worker :
    (∃ life, run step (new .default) (pausedRemoval.take 3) = some life ∧
      life.use.pool.removeIdleWorker.1 =
        .error "No idle workers to remove" ∧
      life.use.pool.idleWorkers.items = [0, 1, 2] ∧
      life.use.pool.removeIdleWorker.2.idleWorkers.items = [1, 2]) ∧
    (∃ life, run step (new .default) pausedRemoval = some life ∧
      life.use.pool.stateAt 0 = some .idle ∧
      (life.use.pool.acquireWorker 3).1 = none) ∧
    ¬ Meets step RemovesAtomically (new .default) pausedRemoval := by
  refine ⟨⟨_, rfl, rfl, rfl, rfl⟩, ⟨_, rfl, rfl, rfl⟩, ?_⟩
  intro atomic
  have kept := (atomic.2.2.2.1 _ rfl).2.2
  exact absurd kept (by decide)

end WorkerPoolLife

end TorchInference
