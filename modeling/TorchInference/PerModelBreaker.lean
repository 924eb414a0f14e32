import TorchInference.CircuitBreaker
import TorchInference.TransitionRuns
import Mathlib.Data.UInt

/-!
# The circuit breaker of a model

The breaker of a model is shared by concurrent calls.  An admission and a
success are handled under its lock.  A failure is counted and its instant is
stored before the lock is taken, so a success may set the counter back in
between.  A half-open breaker has no rule of its own for failures; it opens
when the counter is at the threshold already.
-/

namespace TorchInference

open TransitionRuns

namespace PerModelBreaker

structure CircuitBreakerConfig where
  failureThreshold : UInt64
  successThreshold : UInt64
  /-- In nanoseconds. -/
  timeout : Nat
  deriving DecidableEq

structure CircuitBreaker where
  state : CircuitState
  failureCount : UInt64
  successCount : UInt64
  /-- Nanoseconds since `PER_MODEL_EPOCH`; zero when no failure is recorded. -/
  lastFailureNanos : UInt64
  config : CircuitBreakerConfig
  deriving DecidableEq

namespace CircuitBreaker

def new (config : CircuitBreakerConfig) : CircuitBreaker :=
  ⟨.closed, 0, 0, 0, config⟩

/-- The first phase of `call`; `none` is a rejection. -/
def admission (breaker : CircuitBreaker) (now : Nat) :
    Option CircuitBreaker :=
  if breaker.state = .open_ then
    if 0 < breaker.lastFailureNanos ∧
        breaker.config.timeout < now - breaker.lastFailureNanos.toNat then
      some { breaker with state := .halfOpen }
    else none
  else some breaker

def onSuccess (breaker : CircuitBreaker) : CircuitBreaker :=
  match breaker.state with
  | .halfOpen =>
      let successes := breaker.successCount + 1
      if breaker.config.successThreshold ≤ successes then
        { breaker with state := .closed, failureCount := 0, successCount := 0 }
      else { breaker with successCount := successes }
  | .closed => { breaker with failureCount := 0 }
  | .open_ => breaker

/-- `on_failure` begins by counting the failure. -/
def countFailure (breaker : CircuitBreaker) : CircuitBreaker :=
  { breaker with failureCount := breaker.failureCount + 1 }

/-- It goes on to store its instant. -/
def stampFailure (breaker : CircuitBreaker) (now : Nat) : CircuitBreaker :=
  { breaker with lastFailureNanos := max (UInt64.ofNat now) 1 }

/-- It ends by opening the breaker, with what it has counted. -/
def finishFailure (breaker : CircuitBreaker) (failures : UInt64) :
    CircuitBreaker :=
  if breaker.config.failureThreshold ≤ failures ∧ breaker.state ≠ .open_ then
    { breaker with state := .open_, successCount := 0 }
  else breaker

/-- A success that sets the failure counter back. -/
def Resets (breaker : CircuitBreaker) : Prop :=
  breaker.state = .closed ∨
    breaker.state = .halfOpen ∧
      breaker.config.successThreshold ≤ breaker.successCount + 1

instance (breaker : CircuitBreaker) : Decidable breaker.Resets := by
  unfold Resets
  infer_instance

end CircuitBreaker

/-- A breaker, the number of admitted calls that have not ended, and the
counts of the failures that are being reported, before and after their instant
is stored. -/
structure BreakerCalls where
  breaker : CircuitBreaker
  running : Nat
  counted : List UInt64
  stamped : List UInt64
  deriving DecidableEq

inductive BreakerAction where
  | call (now : Nat)
  | succeed
  | fail
  | stamp (index : Nat) (now : Nat)
  | finish (index : Nat)

namespace BreakerCalls

def start (config : CircuitBreakerConfig) : BreakerCalls :=
  ⟨.new config, 0, [], []⟩

def step (calls : BreakerCalls) : BreakerAction → Option BreakerCalls
  | .call now =>
      match calls.breaker.admission now with
      | none => some calls
      | some breaker =>
          some { calls with breaker := breaker, running := calls.running + 1 }
  | .succeed =>
      if calls.running = 0 then none
      else some { calls with
        breaker := calls.breaker.onSuccess
        running := calls.running - 1 }
  | .fail =>
      if calls.running = 0 then none
      else some { calls with
        breaker := calls.breaker.countFailure
        running := calls.running - 1
        counted := calls.counted ++ [calls.breaker.failureCount + 1] }
  | .stamp index now =>
      match calls.counted[index]? with
      | none => none
      | some failures => some { calls with
          breaker := calls.breaker.stampFailure now
          counted := calls.counted.eraseIdx index
          stamped := calls.stamped ++ [failures] }
  | .finish index =>
      match calls.stamped[index]? with
      | none => none
      | some failures => some { calls with
          breaker := calls.breaker.finishFailure failures
          stamped := calls.stamped.eraseIdx index }

/-- A half-open breaker opens at the next failure, and a breaker that is not
closed has counted as many failures as its threshold. -/
structure ReopensAtOnce (calls : BreakerCalls) : Prop where
  counted : calls.breaker.state ≠ .closed →
    calls.breaker.config.failureThreshold ≤ calls.breaker.failureCount
  reopens : calls.breaker.state = .halfOpen → calls.counted = [] →
    calls.stamped = [] → ∀ now after,
      run step calls [.fail, .stamp 0 now, .finish 0] = some after →
        after.breaker.state = .open_

/-- No success sets the counter back while a failure that has reached the
threshold is being reported, and the counter does not wrap around. -/
def KeepsCount (calls : BreakerCalls) : BreakerAction → Prop
  | .succeed => calls.breaker.Resets →
      ∀ failures ∈ calls.counted ++ calls.stamped,
        ¬ calls.breaker.config.failureThreshold ≤ failures
  | .fail => calls.breaker.failureCount.toNat + 1 < 2 ^ 64 - 1
  | _ => True

instance (calls : BreakerCalls) :
    ∀ action, Decidable (KeepsCount calls action)
  | .succeed =>
      have : Decidable (∀ failures ∈ calls.counted ++ calls.stamped,
          ¬ calls.breaker.config.failureThreshold ≤ failures) :=
        List.decidableBAll _ _
      inferInstanceAs (Decidable (calls.breaker.Resets →
        ∀ failures ∈ calls.counted ++ calls.stamped,
          ¬ calls.breaker.config.failureThreshold ≤ failures))
  | .fail => inferInstanceAs
      (Decidable (calls.breaker.failureCount.toNat + 1 < 2 ^ 64 - 1))
  | .call _ | .stamp _ _ | .finish _ => inferInstanceAs (Decidable True)

structure Inv (calls : BreakerCalls) : Prop where
  counted : calls.breaker.state ≠ .closed →
    calls.breaker.config.failureThreshold ≤ calls.breaker.failureCount
  reported : ∀ failures ∈ calls.counted ++ calls.stamped,
    calls.breaker.config.failureThreshold ≤ failures →
      calls.breaker.config.failureThreshold ≤ calls.breaker.failureCount
  small : calls.breaker.failureCount.toNat < 2 ^ 64 - 1

variable {calls next : BreakerCalls}

theorem zero_small : (0 : UInt64).toNat < 2 ^ 64 - 1 := by
  decide

theorem inv_start (config : CircuitBreakerConfig) : (start config).Inv where
  counted notClosed := absurd rfl notClosed
  reported _ member := by cases member
  small := zero_small

theorem le_add_one {threshold count : UInt64}
    (small : count.toNat < 2 ^ 64 - 1) (reached : threshold ≤ count) :
    threshold ≤ count + 1 := by
  rw [UInt64.le_iff_toNat_le] at reached ⊢
  rw [UInt64.toNat_add, UInt64.toNat_one]
  omega

theorem mem_eraseIdx_append {counted stamped : List UInt64} {index : Nat}
    {failures other : UInt64} (found : counted[index]? = some failures)
    (member : other ∈ counted.eraseIdx index ++ (stamped ++ [failures])) :
    other ∈ counted ++ stamped := by
  simp only [List.mem_append, List.mem_singleton] at member ⊢
  rcases member with before | after | rfl
  · exact Or.inl (List.mem_of_mem_eraseIdx before)
  · exact Or.inr after
  · exact Or.inl (List.mem_of_getElem? found)

/-- An admission leaves the counter alone, and changes nothing but an open
breaker. -/
theorem admission_eq_some {breaker after : CircuitBreaker} {now : Nat}
    (admitted : breaker.admission now = some after) :
    after.config = breaker.config ∧
      after.failureCount = breaker.failureCount ∧
      (after.state ≠ .closed → breaker.state ≠ .closed) := by
  unfold CircuitBreaker.admission at admitted
  split at admitted
  case isTrue isOpen =>
    split at admitted
    case isTrue =>
      cases admitted
      refine ⟨rfl, rfl, fun _ => ?_⟩
      rw [isOpen]
      decide
    case isFalse => cases admitted
  case isFalse =>
    cases admitted
    exact ⟨rfl, rfl, fun same => same⟩

theorem Inv.succeed (inv : calls.Inv)
    (keeps : KeepsCount calls .succeed) (running : Nat) :
    Inv { calls with
      breaker := calls.breaker.onSuccess
      running := running } := by
  cases state : calls.breaker.state with
  | open_ =>
      have same : calls.breaker.onSuccess = calls.breaker := by
        simp [CircuitBreaker.onSuccess, state]
      rw [same]
      exact ⟨inv.counted, inv.reported, inv.small⟩
  | closed =>
      have nothing := keeps (Or.inl state)
      have same : calls.breaker.onSuccess =
          { calls.breaker with failureCount := 0 } := by
        simp [CircuitBreaker.onSuccess, state]
      rw [same]
      refine ⟨fun notClosed => absurd state notClosed, ?_, zero_small⟩
      intro failures member reached
      exact absurd reached (nothing failures member)
  | halfOpen =>
      by_cases enough : calls.breaker.config.successThreshold ≤
          calls.breaker.successCount + 1
      · have nothing := keeps (Or.inr ⟨state, enough⟩)
        have same : calls.breaker.onSuccess = { calls.breaker with
            state := .closed
            failureCount := 0
            successCount := 0 } := by
          simp [CircuitBreaker.onSuccess, state, enough]
        rw [same]
        refine ⟨fun notClosed => absurd rfl notClosed, ?_, zero_small⟩
        intro failures member reached
        exact absurd reached (nothing failures member)
      · have same : calls.breaker.onSuccess = { calls.breaker with
            successCount := calls.breaker.successCount + 1 } := by
          simp [CircuitBreaker.onSuccess, state, enough]
        rw [same]
        exact ⟨inv.counted, inv.reported, inv.small⟩

theorem Inv.step (inv : calls.Inv) {action : BreakerAction}
    (keeps : KeepsCount calls action)
    (stepTo : calls.step action = some next) : next.Inv := by
  cases action with
  | call now =>
      cases admitted : calls.breaker.admission now with
      | none =>
          simp only [BreakerCalls.step, admitted, Option.some.injEq] at stepTo
          exact stepTo ▸ inv
      | some breaker =>
          simp only [BreakerCalls.step, admitted, Option.some.injEq] at stepTo
          subst stepTo
          obtain ⟨config, count, wasOpen⟩ := admission_eq_some admitted
          constructor
          · intro notClosed
            rw [config, count]
            exact inv.counted (wasOpen notClosed)
          · simp only [config, count]
            exact inv.reported
          · rw [count]
            exact inv.small
  | succeed =>
      simp only [BreakerCalls.step] at stepTo
      split at stepTo
      case isTrue => cases stepTo
      case isFalse =>
        cases stepTo
        exact inv.succeed keeps _
  | fail =>
      simp only [BreakerCalls.step] at stepTo
      split at stepTo
      case isTrue => cases stepTo
      case isFalse =>
        cases stepTo
        have small := inv.small
        refine ⟨fun notClosed => le_add_one small (inv.counted notClosed),
          ?_, ?_⟩
        · intro failures member reached
          simp only [List.mem_append, List.mem_singleton] at member
          rcases member with (before | rfl) | stamped
          · exact le_add_one small
              (inv.reported _ (List.mem_append_left _ before) reached)
          · exact reached
          · exact le_add_one small
              (inv.reported _ (List.mem_append_right _ stamped) reached)
        · have bound : calls.breaker.failureCount.toNat + 1 < 2 ^ 64 - 1 :=
            keeps
          rw [CircuitBreaker.countFailure, UInt64.toNat_add,
            UInt64.toNat_one]
          omega
  | stamp index now =>
      cases found : calls.counted[index]? with
      | none => simp [BreakerCalls.step, found] at stepTo
      | some failures =>
          simp only [BreakerCalls.step, found, Option.some.injEq] at stepTo
          subst stepTo
          exact ⟨inv.counted, fun other member =>
            inv.reported other (mem_eraseIdx_append found member), inv.small⟩
  | finish index =>
      cases found : calls.stamped[index]? with
      | none => simp [BreakerCalls.step, found] at stepTo
      | some failures =>
          simp only [BreakerCalls.step, found, Option.some.injEq] at stepTo
          subst stepTo
          have isReported : failures ∈ calls.counted ++ calls.stamped :=
            List.mem_append_right _ (List.mem_of_getElem? found)
          have fewer : ∀ other ∈
              calls.counted ++ calls.stamped.eraseIdx index,
              other ∈ calls.counted ++ calls.stamped := by
            intro other member
            rcases List.mem_append.mp member with before | after
            · exact List.mem_append_left _ before
            · exact List.mem_append_right _ (List.mem_of_mem_eraseIdx after)
          unfold CircuitBreaker.finishFailure
          split
          case isTrue opens =>
            exact ⟨fun _ => inv.reported failures isReported opens.1,
              fun other member => inv.reported other (fewer other member),
              inv.small⟩
          case isFalse =>
            exact ⟨inv.counted,
              fun other member => inv.reported other (fewer other member),
              inv.small⟩

theorem Inv.reopensAtOnce (inv : calls.Inv) : calls.ReopensAtOnce where
  counted := inv.counted
  reopens := by
    intro halfOpen noneCounted noneStamped now after reaches
    have reached : calls.breaker.config.failureThreshold ≤
        calls.breaker.failureCount + 1 := by
      refine le_add_one inv.small (inv.counted ?_)
      rw [halfOpen]
      decide
    obtain ⟨failed, failTo, rest⟩ := run_cons_eq_some reaches
    simp only [BreakerCalls.step] at failTo
    split at failTo
    case isTrue => cases failTo
    case isFalse =>
      cases failTo
      simp only [run, BreakerCalls.step, noneCounted, noneStamped,
        List.nil_append, List.getElem?_cons_zero, Option.some.injEq] at rest
      subst rest
      simp [CircuitBreaker.finishFailure, CircuitBreaker.stampFailure,
        CircuitBreaker.countFailure, reached, halfOpen]

/-- A breaker whose successes never set back what a reported failure has
counted opens at the first failure of a probe. -/
theorem reopensAtOnce_of_keepsCount {config : CircuitBreakerConfig}
    {actions : List BreakerAction}
    (keeps : Meets BreakerCalls.step KeepsCount (start config) actions) :
    ∀ reached ∈ visited BreakerCalls.step (start config) actions,
      reached.ReopensAtOnce := by
  intro reached isReached
  have inv : reached.Inv :=
    invariant_of_meets (fun _ _ _ inv keeps stepTo => inv.step keeps stepTo)
      (inv_start config) keeps reached isReached
  exact inv.reopensAtOnce

def twoFailures : CircuitBreakerConfig :=
  ⟨2, 2, 10⟩

/-- Two failures open the breaker, and a success comes late. -/
def lateSuccess : List BreakerAction :=
  [.call 0, .call 0, .call 0, .fail, .stamp 0 1, .finish 0, .fail, .stamp 0 2,
    .finish 0, .succeed, .call 100]

theorem lateSuccess_reopensAtOnce :
    (∃ last, run BreakerCalls.step (start twoFailures) lateSuccess =
      some last ∧ last.breaker.state = .halfOpen) ∧
      ∀ reached ∈ visited BreakerCalls.step (start twoFailures) lateSuccess,
        reached.ReopensAtOnce :=
  ⟨⟨_, rfl, rfl⟩, reopensAtOnce_of_keepsCount (by decide)⟩

/-- A success sets the counter back between the count of the second failure
and its locked section. -/
def resetBetween : List BreakerAction :=
  [.call 0, .call 0, .call 0, .fail, .stamp 0 1, .finish 0, .fail, .succeed,
    .stamp 0 2, .finish 0, .call 100]

/-- The breaker that probes stays half-open at its next failure. -/
theorem resetBetween_stays_halfOpen :
    ∃ last, run BreakerCalls.step (start twoFailures) resetBetween =
        some last ∧
      last.breaker.state = .halfOpen ∧ last.breaker.failureCount = 0 ∧
      (∃ after, run BreakerCalls.step last
        [.fail, .stamp 0 101, .finish 0] = some after ∧
          after.breaker.state = .halfOpen) ∧
      ¬ last.ReopensAtOnce := by
  refine ⟨_, rfl, rfl, rfl, ⟨_, rfl, rfl⟩, fun holds => ?_⟩
  exact absurd (holds.counted (by decide)) (by decide)

end BreakerCalls

end PerModelBreaker

end TorchInference
