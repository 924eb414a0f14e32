import TorchInference.CountingSemaphore
import TorchInference.KeyedDefaults
import TorchInference.TransitionRuns
import Mathlib.Data.UInt

/-!
# The request monitor

Requests report their start and their end to a monitor of 64-bit counters and
a table with one entry for each endpoint.  A report makes its updates one after
another without a lock, and so does a reset, so a call in progress is given by
the updates it still has to make.
-/

namespace TorchInference

/-- What the end of a request reports, and the time it reads. -/
structure RequestOutcome where
  latencyMs : UInt64
  endpoint : String
  success : Bool
  calledAt : Nat
  deriving DecidableEq

structure EndpointStats where
  path : String
  calls : UInt64
  errors : UInt64
  avgLatencyMs : Float
  lastCalled : Nat

namespace EndpointStats

/-- The entry of an endpoint with one more request. -/
def record (stats : EndpointStats) (outcome : RequestOutcome) :
    EndpointStats :=
  let calls := stats.calls + 1
  { stats with
    calls := calls
    avgLatencyMs := stats.avgLatencyMs +
      (outcome.latencyMs.toFloat - stats.avgLatencyMs) / calls.toFloat
    lastCalled := outcome.calledAt
    errors := if outcome.success then stats.errors else stats.errors + 1 }

def first (outcome : RequestOutcome) : EndpointStats where
  path := outcome.endpoint
  calls := 1
  errors := if outcome.success then 0 else 1
  avgLatencyMs := outcome.latencyMs.toFloat
  lastCalled := outcome.calledAt

end EndpointStats

structure Monitor where
  totalRequests : UInt64
  totalErrors : UInt64
  totalProcessed : UInt64
  activeRequests : UInt64
  totalLatency : UInt64
  minLatency : UInt64
  maxLatency : UInt64
  endpointStats : AList fun _ : String => EndpointStats

/-- The updates that calls make, each of them atomic.  The table of endpoints
is cleared shard by shard. -/
inductive MonitorUpdate where
  | countRequest
  | enter
  | leave
  | countProcessed
  | addLatency (latencyMs : UInt64)
  | lowerMin (latencyMs : UInt64)
  | raiseMax (latencyMs : UInt64)
  | findEndpoint (outcome : RequestOutcome)
  | insertEndpoint (outcome : RequestOutcome)
  | countError
  | clearRequests
  | clearErrors
  | clearProcessed
  | clearActive
  | clearLatency
  | clearMin
  | clearMax
  | clearShard (shard : Nat)
  deriving DecidableEq

/-- How the table of endpoints is divided into shards. -/
structure Sharding where
  count : Nat
  shardOf : String → Nat

namespace Monitor

def new : Monitor where
  totalRequests := 0
  totalErrors := 0
  totalProcessed := 0
  activeRequests := 0
  totalLatency := 0
  minLatency := 18446744073709551615
  maxLatency := 0
  endpointStats := ∅

def recordRequestStart : List MonitorUpdate :=
  [.countRequest, .enter]

def recordRequestEnd (outcome : RequestOutcome) : List MonitorUpdate :=
  [.leave, .countProcessed, .addLatency outcome.latencyMs,
    .lowerMin outcome.latencyMs, .raiseMax outcome.latencyMs,
    .findEndpoint outcome] ++
    if outcome.success then [] else [.countError]

def reset (sharding : Sharding) : List MonitorUpdate :=
  [.clearRequests, .clearErrors, .clearProcessed, .clearActive,
    .clearLatency, .clearMin, .clearMax] ++
    (List.range sharding.count).map .clearShard

/-- The entry of an endpoint is updated, or inserted if there is none. -/
def track (monitor : Monitor) (outcome : RequestOutcome) : Monitor :=
  let stats := match monitor.endpointStats.lookup outcome.endpoint with
    | some stats => stats.record outcome
    | none => .first outcome
  { monitor with
    endpointStats := monitor.endpointStats.insert outcome.endpoint stats }

/-- The entries of the other shards. -/
def withoutShard (sharding : Sharding) (shard : Nat)
    (table : AList fun _ : String => EndpointStats) :
    AList fun _ : String => EndpointStats where
  entries := table.entries.filter fun entry =>
    sharding.shardOf entry.1 ≠ shard
  nodupKeys := List.NodupKeys.sublist List.filter_sublist table.nodupKeys

/-- One update, and what the call has to do because of it: an endpoint that
was not found is inserted in a later step. -/
def update (sharding : Sharding) (monitor : Monitor) :
    MonitorUpdate → Monitor × List MonitorUpdate
  | .countRequest =>
      ({ monitor with totalRequests := monitor.totalRequests + 1 }, [])
  | .enter =>
      ({ monitor with activeRequests := monitor.activeRequests + 1 }, [])
  | .leave =>
      ({ monitor with activeRequests := monitor.activeRequests - 1 }, [])
  | .countProcessed =>
      ({ monitor with totalProcessed := monitor.totalProcessed + 1 }, [])
  | .addLatency latencyMs =>
      ({ monitor with totalLatency := monitor.totalLatency + latencyMs }, [])
  | .lowerMin latencyMs =>
      ({ monitor with minLatency := min monitor.minLatency latencyMs }, [])
  | .raiseMax latencyMs =>
      ({ monitor with maxLatency := max monitor.maxLatency latencyMs }, [])
  | .findEndpoint outcome =>
      if outcome.endpoint ∈ monitor.endpointStats then
        (monitor.track outcome, [])
      else (monitor, [.insertEndpoint outcome])
  | .insertEndpoint outcome => (monitor.track outcome, [])
  | .countError =>
      ({ monitor with totalErrors := monitor.totalErrors + 1 }, [])
  | .clearRequests => ({ monitor with totalRequests := 0 }, [])
  | .clearErrors => ({ monitor with totalErrors := 0 }, [])
  | .clearProcessed => ({ monitor with totalProcessed := 0 }, [])
  | .clearActive => ({ monitor with activeRequests := 0 }, [])
  | .clearLatency => ({ monitor with totalLatency := 0 }, [])
  | .clearMin =>
      ({ monitor with minLatency := 18446744073709551615 }, [])
  | .clearMax => ({ monitor with maxLatency := 0 }, [])
  | .clearShard shard =>
      ({ monitor with
        endpointStats :=
          withoutShard sharding shard monitor.endpointStats }, [])

/-- What an update must find for the number of active requests to stay right
and for the number of processed ones not to overflow. -/
def KeepsActive (monitor : Monitor) : MonitorUpdate → Prop
  | .clearActive => monitor.activeRequests = 0
  | .enter => monitor.activeRequests.toNat + 1 < 2 ^ 64
  | .countProcessed => monitor.totalProcessed.toNat + 1 < 2 ^ 64
  | _ => True

instance (monitor : Monitor) :
    ∀ update, Decidable (monitor.KeepsActive update) := by
  intro update
  cases update <;> dsimp only [KeepsActive] <;> infer_instance

/-- The calls of all endpoints. -/
def endpointCalls (monitor : Monitor) : Nat :=
  KeyedTotals.total (fun stats => stats.calls.toNat) monitor.endpointStats

def endpointErrors (monitor : Monitor) : Nat :=
  KeyedTotals.total (fun stats => stats.errors.toNat) monitor.endpointStats

end Monitor

/-- A monitor with the calls in progress, the number of requests that have
been started and not yet ended, and that of the resets so far.  A request has
been started with the last update of its start, and the end of a request
follows its start. -/
structure MonitorUse where
  monitor : Monitor
  calls : List (List MonitorUpdate)
  openRequests : Nat
  resets : Nat

inductive MonitorAction where
  | start
  | finish (outcome : RequestOutcome)
  | reset
  | advance (index : Nat)

namespace MonitorUse

def init : MonitorUse :=
  ⟨.new, [], 0, 0⟩

/-- A call goes on, or is removed when it has nothing left to do. -/
def replaceCall (calls : List (List MonitorUpdate)) (index : Nat) :
    List MonitorUpdate → List (List MonitorUpdate)
  | [] => calls.eraseIdx index
  | updates => calls.set index updates

def step (sharding : Sharding) (use : MonitorUse) :
    MonitorAction → Option MonitorUse
  | .start => some { use with
      calls := use.calls ++ [Monitor.recordRequestStart] }
  | .finish outcome =>
      if use.openRequests = 0 then none
      else some { use with
        calls := use.calls ++ [Monitor.recordRequestEnd outcome]
        openRequests := use.openRequests - 1 }
  | .reset => some { use with
      calls := use.calls ++ [Monitor.reset sharding]
      resets := use.resets + 1 }
  | .advance index =>
      match use.calls[index]? with
      | some (update :: rest) =>
          let updated := use.monitor.update sharding update
          some { use with
            monitor := updated.1
            calls := replaceCall use.calls index (updated.2 ++ rest)
            openRequests := if update = .enter then use.openRequests + 1
              else use.openRequests }
      | _ => none

/-- When no call is in progress the monitor knows how many requests are open,
and without a reset the endpoints add up to what was processed and what
failed. -/
def Accounted (use : MonitorUse) : Prop :=
  use.calls = [] →
    use.monitor.activeRequests.toNat = use.openRequests ∧
      (use.resets = 0 →
        use.monitor.endpointCalls = use.monitor.totalProcessed.toNat ∧
          use.monitor.endpointErrors = use.monitor.totalErrors.toNat)

instance (use : MonitorUse) : Decidable use.Accounted :=
  inferInstanceAs (Decidable (_ → _ ∧ (_ → _ ∧ _)))

/-- A reset sets the number of active requests back only when it is zero
already, and no counter of requests is full when it is raised. -/
def KeepsActive (use : MonitorUse) : MonitorAction → Prop
  | .advance index =>
      ∀ update ∈ use.calls[index]?.bind List.head?,
        use.monitor.KeepsActive update
  | .start | .finish _ | .reset => True

instance (use : MonitorUse) : ∀ action, Decidable (use.KeepsActive action)
  | .advance index => inferInstanceAs (Decidable
      (∀ update ∈ use.calls[index]?.bind List.head?,
        use.monitor.KeepsActive update))
  | .start | .finish _ | .reset => inferInstanceAs (Decidable True)

end MonitorUse

end TorchInference
