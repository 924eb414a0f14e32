import TorchInference.ArrayQueue
import TorchInference.FreeIndexQueue
import Mathlib.Logic.Function.Basic

/-!
# The worker pool

`WorkerPool` keeps its workers in a vector and the indices of the idle ones in
a separate lock-free queue.  A worker is shared between the vector and the
caller that acquired it, so it lives behind a reference: `arcs` is the heap of
allocated workers and the vector holds references into it.  Each operation is
one atomic step; instants are nanoseconds since the worker epoch.
-/

namespace TorchInference

/-- Worker state. -/
inductive WorkerState where
  | idle
  | processing
  | paused
  | stopping
  | stopped
  deriving DecidableEq, Repr

/-- A worker.  `id` is fixed when the worker is created. -/
structure Worker where
  id : Nat
  state : WorkerState
  tasksProcessed : UInt64
  totalProcessingTimeMs : UInt64
  /-- Nanoseconds since the worker epoch, or 0 for a worker never active. -/
  lastActive : UInt64

namespace Worker

/-- `Worker::new`. -/
def new (id : Nat) : Worker :=
  ⟨id, .idle, 0, 0, 0⟩

def setState (worker : Worker) (newState : WorkerState) : Worker :=
  { worker with state := newState }

def recordTask (worker : Worker) (processingTimeMs : UInt64) : Worker :=
  { worker with
    tasksProcessed := worker.tasksProcessed + 1
    totalProcessingTimeMs := worker.totalProcessingTimeMs + processingTimeMs }

def updateLastActive (worker : Worker) (now : Nat) : Worker :=
  { worker with lastActive := max (UInt64.ofNat now) 1 }

end Worker

/-- The address of a shared worker. -/
structure WorkerRef where
  address : Nat
  deriving DecidableEq, Repr

/-- The configuration fields the pool operations read. -/
structure WorkerPoolConfig where
  minWorkers : Nat
  maxWorkers : Nat
  scaleUpThreshold : Nat
  scaleDownThreshold : Nat
  enableAutoScaling : Bool
  enableZeroScaling : Bool
  deriving DecidableEq, Repr

/-- `WorkerPoolConfig::default`. -/
def WorkerPoolConfig.default : WorkerPoolConfig where
  minWorkers := 2
  maxWorkers := 16
  scaleUpThreshold := 10
  scaleDownThreshold := 2
  enableAutoScaling := true
  enableZeroScaling := false

/-- The pool with the heap its workers live in. -/
structure WorkerPool where
  config : WorkerPoolConfig
  arcs : WorkerRef → Worker
  /-- The address of the next allocation. -/
  nextAddress : Nat
  workers : List WorkerRef
  idleWorkers : ArrayQueue Nat
  totalTasks : UInt64
  activeCount : UInt64

namespace WorkerPool

/-- `WorkerPool::new`. -/
def new (config : WorkerPoolConfig) : WorkerPool where
  config := config
  arcs := fun _ => Worker.new 0
  nextAddress := 0
  workers := []
  idleWorkers := ArrayQueue.empty (max config.maxWorkers 1)
  totalTasks := 0
  activeCount := 0

def withIdleWorkers (pool : WorkerPool) (idleWorkers : ArrayQueue Nat) :
    WorkerPool :=
  { pool with idleWorkers := idleWorkers }

/-- Write through a shared reference. -/
def modifyWorker (pool : WorkerPool) (ref : WorkerRef)
    (change : Worker → Worker) : WorkerPool :=
  { pool with arcs := Function.update pool.arcs ref (change (pool.arcs ref)) }

def addWorker (pool : WorkerPool) : Except String Unit × WorkerPool :=
  let workerId := pool.workers.length
  if workerId ≥ pool.config.maxWorkers then
    (.error "Maximum workers reached", pool)
  else
    let ref : WorkerRef := ⟨pool.nextAddress⟩
    (.ok (),
      { pool with
        arcs := Function.update pool.arcs ref (Worker.new workerId)
        nextAddress := pool.nextAddress + 1
        workers := pool.workers ++ [ref]
        idleWorkers := pool.idleWorkers.push workerId })

/-- The loop of `WorkerPool::initialize`: stop at the first worker that cannot
be added. -/
def addWorkers : Nat → WorkerPool → Except String Unit × WorkerPool
  | 0, pool => (.ok (), pool)
  | count + 1, pool =>
      match pool.addWorker with
      | (.error message, pool) => (.error message, pool)
      | (.ok (), pool) => addWorkers count pool

/-- `WorkerPool::initialize` without the background tasks it spawns: what those
do to the pool are further operations of the run. -/
def initializePool (pool : WorkerPool) : Except String Unit × WorkerPool :=
  let initialWorkers :=
    if pool.config.enableZeroScaling then 0 else pool.config.minWorkers
  addWorkers initialWorkers pool

/-- The state of the worker at an index of the vector. -/
def stateAt (pool : WorkerPool) (index : Nat) : Option WorkerState :=
  pool.workers[index]?.map fun ref => (pool.arcs ref).state

/-- The slow path of `remove_idle_worker`: the last idle worker. -/
def lastIdle (pool : WorkerPool) : Option Nat :=
  (List.range pool.workers.length).reverse.find? fun index =>
    decide (pool.stateAt index = some .idle)

/-- The index `remove_idle_worker` removes, given what it popped. -/
def removalIndex (pool : WorkerPool) (candidate : Option Nat) : Option Nat :=
  match candidate with
  | some id =>
      if id < pool.workers.length ∧ pool.stateAt id = some .idle then some id
      else pool.lastIdle
  | none => pool.lastIdle

/-- The vector and the queue after the worker at `index` is taken out: the
vector shifts down, and the queue is drained, corrected and pushed again. -/
def removeAt (pool : WorkerPool) (index : Nat) : WorkerPool :=
  let pool := match pool.workers[index]? with
    | some ref => pool.modifyWorker ref (·.setState .stopping)
    | none => pool
  let (drained, idleWorkers) := pool.idleWorkers.drain
  let pending := FreeIndexQueue.reindex index drained
  { pool with
    workers := pool.workers.eraseIdx index
    idleWorkers := idleWorkers.pushAll pending }

def removeIdleWorker (pool : WorkerPool) : Except String Unit × WorkerPool :=
  let minLimit :=
    if pool.config.enableZeroScaling then 0 else pool.config.minWorkers
  if pool.workers.length ≤ minLimit then
    (.error "Minimum workers reached", pool)
  else
    let (candidate, idleWorkers) := pool.idleWorkers.pop
    let pool := pool.withIdleWorkers idleWorkers
    match pool.removalIndex candidate with
    | none => (.error "No idle workers to remove", pool)
    | some index => (.ok (), pool.removeAt index)

/-- The part of `acquire_worker` under the read lock, after an index came out
of the idle queue. -/
def acquireLocked (pool : WorkerPool) (now id : Nat) :
    Option WorkerRef × WorkerPool :=
  match pool.workers[id]? with
  | none => (none, pool)
  | some ref =>
      let pool := pool.modifyWorker ref fun worker =>
        (worker.setState .processing).updateLastActive now
      (some ref, { pool with activeCount := pool.activeCount + 1 })

def acquireWorker (pool : WorkerPool) (now : Nat) :
    Option WorkerRef × WorkerPool :=
  let (popped, idleWorkers) := pool.idleWorkers.pop
  let pool := pool.withIdleWorkers idleWorkers
  match popped with
  | none => (none, pool)
  | some id => pool.acquireLocked now id

def releaseWorker (pool : WorkerPool) (ref : WorkerRef)
    (processingTimeMs : UInt64) (now : Nat) : WorkerPool :=
  let pool := pool.modifyWorker ref fun worker =>
    ((worker.recordTask processingTimeMs).setState .idle).updateLastActive now
  { pool with
    activeCount := pool.activeCount - 1
    idleWorkers := pool.idleWorkers.push (pool.arcs ref).id
    totalTasks := pool.totalTasks + 1 }

end WorkerPool

/-! ## Runs of the pool -/

/-- The pool together with the workers its callers currently hold. -/
structure WorkerPoolUse where
  pool : WorkerPool
  held : List WorkerRef

/-- One operation on the pool. -/
inductive WorkerPoolAction where
  | initializePool
  | addWorker
  | acquireWorker (now : Nat)
  | releaseWorker (ref : WorkerRef) (processingTimeMs : UInt64) (now : Nat)
  | removeIdleWorker
  deriving DecidableEq

namespace WorkerPoolUse

/-- A new pool, with no worker handed out. -/
def new (config : WorkerPoolConfig) : WorkerPoolUse :=
  ⟨WorkerPool.new config, []⟩

/-- One operation; only a worker that is held can be released. -/
def step (use : WorkerPoolUse) : WorkerPoolAction → Option WorkerPoolUse
  | .initializePool => some { use with pool := use.pool.initializePool.2 }
  | .addWorker => some { use with pool := use.pool.addWorker.2 }
  | .acquireWorker now =>
      let (acquired, pool) := use.pool.acquireWorker now
      some ⟨pool, acquired.toList ++ use.held⟩
  | .releaseWorker ref processingTimeMs now =>
      if ref ∈ use.held then
        some ⟨use.pool.releaseWorker ref processingTimeMs now,
          use.held.erase ref⟩
      else
        none
  | .removeIdleWorker => some { use with pool := use.pool.removeIdleWorker.2 }

end WorkerPoolUse

end TorchInference
