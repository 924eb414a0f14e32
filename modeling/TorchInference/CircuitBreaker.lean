import Mathlib.Order.Basic

/-!
# The circuit breaker

A breaker admits calls while it is closed, rejects them while it is open, and
lets them probe the backend once the timeout since the last failure is over.
Instants are nanoseconds since `CB_EPOCH`.
-/

namespace TorchInference

structure CircuitBreakerConfig where
  failureThreshold : UInt32
  successThreshold : UInt32
  /-- In nanoseconds. -/
  timeout : Nat
  deriving DecidableEq

namespace CircuitBreakerConfig

def default : CircuitBreakerConfig :=
  ⟨5, 2, 60 * 1000000000⟩

end CircuitBreakerConfig

inductive CircuitState where
  | closed
  | open_
  | halfOpen
  deriving DecidableEq

structure CircuitBreaker where
  state : CircuitState
  failureCount : UInt32
  successCount : UInt32
  /-- Zero when no failure is recorded. -/
  lastFailureNanos : UInt64
  config : CircuitBreakerConfig
  deriving DecidableEq

namespace CircuitBreaker

def new (config : CircuitBreakerConfig) : CircuitBreaker :=
  ⟨.closed, 0, 0, 0, config⟩

/-- The timeout since the last failure is over. -/
def shouldRetry (breaker : CircuitBreaker) (now : Nat) : Bool :=
  decide (0 < breaker.lastFailureNanos) &&
    decide (breaker.config.timeout ≤ now - breaker.lastFailureNanos.toNat)

/-- The breaker after an admission; a rejection leaves it as it is. -/
def tryAcquire (breaker : CircuitBreaker) (now : Nat) :
    Except String CircuitBreaker :=
  if breaker.state = .open_ then
    if breaker.shouldRetry now then .ok { breaker with state := .halfOpen }
    else .error "Circuit breaker is open"
  else .ok breaker

def onSuccess (breaker : CircuitBreaker) : CircuitBreaker :=
  match breaker.state with
  | .halfOpen =>
      let successCount := breaker.successCount + 1
      if breaker.config.successThreshold ≤ successCount then
        { breaker with state := .closed, failureCount := 0, successCount := 0 }
      else { breaker with successCount := successCount }
  | .closed => { breaker with failureCount := 0 }
  | .open_ => breaker

/-- The nanoseconds `on_failure` stores; zero is kept for no failure. -/
def failureNanos (now : Nat) : UInt64 :=
  max (UInt64.ofNat now) 1

def onFailure (breaker : CircuitBreaker) (now : Nat) : CircuitBreaker :=
  let failureCount := breaker.failureCount + 1
  let counted :=
    { breaker with
      successCount := 0
      lastFailureNanos := failureNanos now
      failureCount := failureCount }
  match breaker.state with
  | .closed =>
      if breaker.config.failureThreshold ≤ failureCount then
        { counted with state := .open_ }
      else counted
  | .halfOpen => { counted with state := .open_ }
  | .open_ => counted

def recordSuccess (breaker : CircuitBreaker) : CircuitBreaker :=
  breaker.onSuccess

def recordFailure (breaker : CircuitBreaker) (now : Nat) : CircuitBreaker :=
  breaker.onFailure now

end CircuitBreaker

end TorchInference
