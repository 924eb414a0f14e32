import TorchInference.CountingSemaphore
import Mathlib.Data.List.MinMax
import Mathlib.Logic.Function.Basic

/-!
# The model instance pool

`ModelPool` holds up to `max_instances_per_model` instances of each model and
hands them out by load.  `acquire` is asynchronous: it looks up the model's
semaphore, waits for a permit, and then selects an instance; these are three
separate steps of a client, and the steps of any number of clients interleave.
Metrics are shared between the pool and the caller, so they live on a heap.
-/

namespace TorchInference

/-- Metrics of one model instance. -/
structure InstanceMetrics where
  activeRequests : UInt64
  totalRequests : UInt64
  avgLatencyMs : UInt64
  deriving DecidableEq

namespace InstanceMetrics

/-- `InstanceMetrics::new`. -/
def new : InstanceMetrics :=
  ⟨0, 0, 0⟩

def startRequest (metrics : InstanceMetrics) : InstanceMetrics :=
  { metrics with
    activeRequests := metrics.activeRequests + 1
    totalRequests := metrics.totalRequests + 1 }

/-- Exponential moving average of the latency, started by the first sample. -/
def endRequest (metrics : InstanceMetrics) (latencyMs : UInt64) :
    InstanceMetrics :=
  let currentAvg := metrics.avgLatencyMs
  let newAvg :=
    if currentAvg = 0 then latencyMs else (currentAvg * 9 + latencyMs) / 10
  { metrics with
    activeRequests := metrics.activeRequests - 1
    avgLatencyMs := newAvg }

def loadScore (metrics : InstanceMetrics) : UInt64 :=
  metrics.activeRequests * 500 + metrics.avgLatencyMs

end InstanceMetrics

/-- The address of shared metrics. -/
structure MetricsRef where
  address : Nat
  deriving DecidableEq, Repr

/-- A model instance with its metrics. -/
structure InstanceWrapper (T : Type*) where
  instance_ : T
  metrics : MetricsRef

/-- The pool with the heap its metrics live in. -/
structure ModelPool (T : Type*) where
  instances : String → Option (List (InstanceWrapper T))
  maxInstancesPerModel : Nat
  semaphores : String → Option CountingSemaphore
  metrics : MetricsRef → InstanceMetrics
  /-- The address of the next allocation. -/
  nextMetrics : Nat

namespace ModelPool

variable {T : Type*}

/-- `ModelPool::new`. -/
def new (maxInstancesPerModel : Nat) : ModelPool T where
  instances := fun _ => none
  maxInstancesPerModel := maxInstancesPerModel
  semaphores := fun _ => none
  metrics := fun _ => InstanceMetrics.new
  nextMetrics := 0

/-- An instance beyond the limit is dropped, but the model's entry stays. -/
def addInstance (pool : ModelPool T) (modelName : String) (model : T) :
    ModelPool T :=
  let instances := (pool.instances modelName).getD []
  if instances.length < pool.maxInstancesPerModel then
    let ref : MetricsRef := ⟨pool.nextMetrics⟩
    { pool with
      instances := Function.update pool.instances modelName
        (some (instances ++ [⟨model, ref⟩]))
      metrics := Function.update pool.metrics ref InstanceMetrics.new
      nextMetrics := pool.nextMetrics + 1 }
  else
    { pool with
      instances := Function.update pool.instances modelName (some instances) }

/-- The first instance with the smallest load score. -/
def selectLeastLoadedInstance (pool : ModelPool T)
    (instances : List (InstanceWrapper T)) : Nat :=
  if instances.length = 1 then 0
  else
    match instances.zipIdx.argmin fun entry =>
        (pool.metrics entry.1.metrics).loadScore.toNat with
    | none => 0
    | some entry => entry.2

/-- The semaphore of a model, created with the instance limit on first use. -/
def semaphoreEntry (pool : ModelPool T) (modelName : String) : ModelPool T :=
  match pool.semaphores modelName with
  | some _ => pool
  | none =>
      { pool with
        semaphores := Function.update pool.semaphores modelName
          (some ⟨pool.maxInstancesPerModel⟩) }

/-- Take a permit of a model's semaphore, if there is one. -/
def takePermit (pool : ModelPool T) (modelName : String) :
    Option (ModelPool T) :=
  match (pool.semaphores modelName).bind CountingSemaphore.tryAcquire with
  | none => none
  | some semaphore =>
      some { pool with
        semaphores := Function.update pool.semaphores modelName
          (some semaphore) }

/-- A permit that goes out of scope returns to the model's semaphore. -/
def dropPermit (pool : ModelPool T) (modelName : String) : ModelPool T :=
  { pool with
    semaphores := Function.update pool.semaphores modelName
      ((pool.semaphores modelName).map CountingSemaphore.release) }

/-- The instance `acquire` selects, if the model has any. -/
def selectInstance (pool : ModelPool T) (modelName : String) :
    Option (InstanceWrapper T) :=
  match pool.instances modelName with
  | none => none
  | some instances =>
      if instances.isEmpty then none
      else instances[pool.selectLeastLoadedInstance instances]?

/-- What `acquire` does once it has its permit: select an instance, count the
request and return.  The permit guard is a local of `acquire`, so the permit
returns here, on every path. -/
def acquireInstance (pool : ModelPool T) (modelName : String) :
    Option (InstanceWrapper T) × ModelPool T :=
  match pool.selectInstance modelName with
  | none => (none, pool.dropPermit modelName)
  | some wrapper =>
      let metrics := Function.update pool.metrics wrapper.metrics
        (pool.metrics wrapper.metrics).startRequest
      (some wrapper, { pool with metrics := metrics }.dropPermit modelName)

/-- `release` of a hand-out that started at `start`. -/
def release (pool : ModelPool T) (ref : MetricsRef) (start now : Nat) :
    ModelPool T :=
  let latencyMs := UInt64.ofNat (now - start)
  { pool with
    metrics := Function.update pool.metrics ref
      ((pool.metrics ref).endRequest latencyMs) }

end ModelPool

/-! ## Clients of the pool -/

/-- A call of `acquire` in progress. -/
structure AcquireCall where
  model : String
  permitted : Bool
  deriving DecidableEq, Repr

/-- What a successful `acquire` returned; instants are in milliseconds. -/
structure HandOut where
  model : String
  metrics : MetricsRef
  start : Nat
  deriving DecidableEq, Repr

/-- The pool, the calls of `acquire` in progress and the hand-outs that have
not been released. -/
structure ModelPoolUse (T : Type*) where
  pool : ModelPool T
  calls : List AcquireCall
  handOuts : List HandOut

/-- One step of a client: calls and hand-outs are named by their position. -/
inductive ModelPoolAction (T : Type*) where
  | addInstance (model : String) (instance_ : T)
  | callAcquire (model : String)
  | acquirePermit (call : Nat)
  | acquireInstance (call : Nat) (now : Nat)
  | release (handOut : Nat) (now : Nat)

namespace ModelPoolUse

variable {T : Type*}

/-- A new pool without clients. -/
def new (maxInstancesPerModel : Nat) : ModelPoolUse T :=
  ⟨ModelPool.new maxInstancesPerModel, [], []⟩

def step (use : ModelPoolUse T) : ModelPoolAction T → Option (ModelPoolUse T)
  | .addInstance model instance_ =>
      some { use with pool := use.pool.addInstance model instance_ }
  | .callAcquire model =>
      some { use with
        pool := use.pool.semaphoreEntry model
        calls := use.calls ++ [⟨model, false⟩] }
  | .acquirePermit call =>
      match use.calls[call]? with
      | some ⟨model, false⟩ =>
          (use.pool.takePermit model).map fun pool =>
            { use with pool := pool, calls := use.calls.set call ⟨model, true⟩ }
      | _ => none
  | .acquireInstance call now =>
      match use.calls[call]? with
      | some ⟨model, true⟩ =>
          let (acquired, pool) := use.pool.acquireInstance model
          some ⟨pool, use.calls.eraseIdx call,
            (acquired.map fun wrapper =>
              (⟨model, wrapper.metrics, now⟩ : HandOut)).toList ++
              use.handOuts⟩
      | _ => none
  | .release handOut now =>
      match use.handOuts[handOut]? with
      | some taken =>
          some { use with
            pool := use.pool.release taken.metrics taken.start now
            handOuts := use.handOuts.eraseIdx handOut }
      | none => none

/-- The hand-outs of one model that have not been released. -/
def outstanding (use : ModelPoolUse T) (model : String) : Nat :=
  use.handOuts.countP fun handOut => handOut.model = model

end ModelPoolUse

end TorchInference
