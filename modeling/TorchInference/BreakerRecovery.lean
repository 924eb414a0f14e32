import TorchInference.CircuitBreaker
import TorchInference.TransitionRuns
import Mathlib.Data.UInt

/-!
# Recovery of the shared circuit breaker

Concurrent callers report to one breaker.  Its state changes under a lock, but
a failure clears the successes, stores its instant and counts itself before it
takes the lock, and then decides with the count it has read.  A recovery is the
instant at which a probe or a reset stores the closed state; the failure counter
is set back by a later store.
-/

namespace TorchInference

open TransitionRuns

namespace CircuitBreaker

def clearSuccesses (breaker : CircuitBreaker) : CircuitBreaker :=
  { breaker with successCount := 0 }

def stampFailure (breaker : CircuitBreaker) (now : Nat) : CircuitBreaker :=
  { breaker with lastFailureNanos := failureNanos now }

def countFailure (breaker : CircuitBreaker) : CircuitBreaker :=
  { breaker with failureCount := breaker.failureCount + 1 }

/-- The locked section of `on_failure`, with the count read before. -/
def finishFailure (breaker : CircuitBreaker) (failureCount : UInt32) :
    CircuitBreaker :=
  match breaker.state with
  | .closed =>
      if breaker.config.failureThreshold ≤ failureCount then
        { breaker with state := .open_ }
      else breaker
  | .halfOpen => { breaker with state := .open_ }
  | .open_ => breaker

@[simp]
theorem finishFailure_config (breaker : CircuitBreaker)
    (failureCount : UInt32) :
    (breaker.finishFailure failureCount).config = breaker.config := by
  unfold finishFailure
  split
  · split <;> rfl
  · rfl
  · rfl

@[simp]
theorem finishFailure_failureCount (breaker : CircuitBreaker)
    (failureCount : UInt32) :
    (breaker.finishFailure failureCount).failureCount =
      breaker.failureCount := by
  unfold finishFailure
  split
  · split <;> rfl
  · rfl
  · rfl

theorem onFailure_eq_steps (breaker : CircuitBreaker) (now : Nat) :
    breaker.onFailure now =
      ((breaker.clearSuccesses.stampFailure now).countFailure).finishFailure
        (breaker.failureCount + 1) := by
  cases state : breaker.state <;>
    simp [onFailure, clearSuccesses, stampFailure, countFailure, finishFailure,
      state]

def storeClosed (breaker : CircuitBreaker) : CircuitBreaker :=
  { breaker with state := .closed }

def clearFailures (breaker : CircuitBreaker) : CircuitBreaker :=
  { breaker with failureCount := 0 }

def clearNanos (breaker : CircuitBreaker) : CircuitBreaker :=
  { breaker with lastFailureNanos := 0 }

def reset (breaker : CircuitBreaker) : CircuitBreaker :=
  breaker.storeClosed.clearFailures.clearSuccesses.clearNanos

/-- The next success closes the breaker. -/
def Closes (breaker : CircuitBreaker) : Prop :=
  breaker.state = .halfOpen ∧
    breaker.config.successThreshold ≤ breaker.successCount + 1

instance (breaker : CircuitBreaker) : Decidable breaker.Closes :=
  inferInstanceAs (Decidable (_ ∧ _))

/-- The success that closes, before it sets the counters back. -/
def closeState (breaker : CircuitBreaker) : CircuitBreaker :=
  { breaker with
    successCount := breaker.successCount + 1
    state := .closed }

theorem onSuccess_eq_steps {breaker : CircuitBreaker}
    (closes : breaker.Closes) :
    breaker.onSuccess = breaker.closeState.clearFailures.clearSuccesses := by
  simp [onSuccess, closes.1, closes.2, closeState, clearFailures,
    clearSuccesses]

theorem onSuccess_of_not_closes {breaker : CircuitBreaker}
    (stays : ¬ breaker.Closes) :
    breaker.onSuccess.config = breaker.config ∧
      (breaker.onSuccess.failureCount = breaker.failureCount ∨
        breaker.onSuccess.failureCount = 0) := by
  cases state : breaker.state with
  | closed => simp [onSuccess, state]
  | open_ => simp [onSuccess, state]
  | halfOpen =>
      have few : ¬ breaker.config.successThreshold ≤
          breaker.successCount + 1 :=
        fun enough => stays ⟨state, enough⟩
      simp [onSuccess, state, few]

theorem tryAcquire_eq_ok {breaker acquired : CircuitBreaker} {now : Nat}
    (acquires : breaker.tryAcquire now = .ok acquired) :
    acquired.config = breaker.config ∧
      acquired.failureCount = breaker.failureCount := by
  unfold tryAcquire at acquires
  split at acquires
  case isTrue =>
    split at acquires
    case isTrue =>
      cases acquires
      exact ⟨rfl, rfl⟩
    case isFalse => cases acquires
  case isFalse =>
    cases acquires
    exact ⟨rfl, rfl⟩

end CircuitBreaker

/-- What a success that has closed the breaker still has to clear under the
lock. -/
inductive Closing where
  | failures
  | successes
  deriving DecidableEq

/-- The breaker with the calls in progress: failures that have cleared the
successes, that have stored their instant, and that have counted themselves;
resets before each of their three stores.  Two fields record history: the
increments of the failure counter since the last recovery, and how many there
were at each change from closed to open. -/
structure SharedBreaker where
  breaker : CircuitBreaker
  closing : Option Closing
  cleared : Nat
  stamped : Nat
  counted : List UInt32
  resettingFailures : Nat
  resettingSuccesses : Nat
  resettingNanos : Nat
  increments : Nat
  openings : List Nat
  deriving DecidableEq

inductive SharedBreakerAction where
  | acquire (now : Nat)
  | succeed
  | clearFailures
  | clearSuccesses
  | fail
  | stamp (now : Nat)
  | count
  | finish (index : Nat)
  | reset
  | resetFailures
  | resetSuccesses
  | resetNanos

namespace SharedBreaker

def start (config : CircuitBreakerConfig) : SharedBreaker :=
  ⟨.new config, none, 0, 0, [], 0, 0, 0, 0, []⟩

def locked (calls : SharedBreaker) : Bool :=
  calls.closing.isSome

def succeed (calls : SharedBreaker) : SharedBreaker :=
  if calls.breaker.Closes then
    { calls with
      breaker := calls.breaker.closeState
      closing := some .failures
      increments := 0 }
  else { calls with breaker := calls.breaker.onSuccess }

def finish (calls : SharedBreaker) (index : Nat) (failureCount : UInt32) :
    SharedBreaker :=
  { calls with
    breaker := calls.breaker.finishFailure failureCount
    counted := calls.counted.eraseIdx index
    openings :=
      if calls.breaker.state = .closed ∧
          calls.breaker.config.failureThreshold ≤ failureCount then
        calls.openings ++ [calls.increments]
      else calls.openings }

def step (calls : SharedBreaker) :
    SharedBreakerAction → Option SharedBreaker
  | .acquire now =>
      if calls.locked then none
      else match calls.breaker.tryAcquire now with
        | .error _ => some calls
        | .ok breaker => some { calls with breaker := breaker }
  | .succeed => if calls.locked then none else some calls.succeed
  | .clearFailures =>
      if calls.closing = some .failures then
        some { calls with
          breaker := calls.breaker.clearFailures
          closing := some .successes }
      else none
  | .clearSuccesses =>
      if calls.closing = some .successes then
        some { calls with
          breaker := calls.breaker.clearSuccesses
          closing := none }
      else none
  | .fail => some { calls with
      breaker := calls.breaker.clearSuccesses
      cleared := calls.cleared + 1 }
  | .stamp now =>
      if calls.cleared = 0 then none
      else some { calls with
        breaker := calls.breaker.stampFailure now
        cleared := calls.cleared - 1
        stamped := calls.stamped + 1 }
  | .count =>
      if calls.stamped = 0 then none
      else some { calls with
        breaker := calls.breaker.countFailure
        stamped := calls.stamped - 1
        counted := calls.counted ++ [calls.breaker.failureCount + 1]
        increments := calls.increments + 1 }
  | .finish index =>
      if calls.locked then none
      else match calls.counted[index]? with
        | none => none
        | some failureCount => some (calls.finish index failureCount)
  | .reset =>
      if calls.locked then none
      else some { calls with
        breaker := calls.breaker.storeClosed
        resettingFailures := calls.resettingFailures + 1
        increments := 0 }
  | .resetFailures =>
      if calls.resettingFailures = 0 then none
      else some { calls with
        breaker := calls.breaker.clearFailures
        resettingFailures := calls.resettingFailures - 1
        resettingSuccesses := calls.resettingSuccesses + 1 }
  | .resetSuccesses =>
      if calls.resettingSuccesses = 0 then none
      else some { calls with
        breaker := calls.breaker.clearSuccesses
        resettingSuccesses := calls.resettingSuccesses - 1
        resettingNanos := calls.resettingNanos + 1 }
  | .resetNanos =>
      if calls.resettingNanos = 0 then none
      else some { calls with
        breaker := calls.breaker.clearNanos
        resettingNanos := calls.resettingNanos - 1 }

/-- Every change from closed to open comes after at least as many increments
since the last recovery as the threshold. -/
def OpensAfterThreshold (calls : SharedBreaker) : Prop :=
  ∀ increments ∈ calls.openings,
    calls.breaker.config.failureThreshold.toNat ≤ increments

/-- No failure that has counted itself up to the threshold awaits the lock. -/
def NonePending (calls : SharedBreaker) : Prop :=
  ∀ failureCount ∈ calls.counted,
    ¬ calls.breaker.config.failureThreshold ≤ failureCount

/-- A recovery has stored the closed state and not yet set the failure counter
back. -/
def Recovering (calls : SharedBreaker) : Prop :=
  calls.resettingFailures ≠ 0 ∨ calls.closing = some .failures

/-- A recovery meets no failure that has reached the threshold and awaits the
lock, and none reaches it before the recovery has set the counter back. -/
def LeavesNoneStale (calls : SharedBreaker) : SharedBreakerAction → Prop
  | .succeed => calls.breaker.Closes → calls.NonePending
  | .reset => calls.NonePending
  | .count => calls.Recovering →
      ¬ calls.breaker.config.failureThreshold ≤ calls.breaker.failureCount + 1
  | _ => True

instance (calls : SharedBreaker) : Decidable calls.NonePending :=
  List.decidableBAll _ _

instance (calls : SharedBreaker) : Decidable calls.Recovering :=
  inferInstanceAs (Decidable (_ ∨ _))

instance (calls : SharedBreaker) :
    ∀ action, Decidable (LeavesNoneStale calls action)
  | .succeed =>
      inferInstanceAs (Decidable (calls.breaker.Closes → calls.NonePending))
  | .reset => inferInstanceAs (Decidable calls.NonePending)
  | .count => inferInstanceAs (Decidable (calls.Recovering →
      ¬ calls.breaker.config.failureThreshold ≤
        calls.breaker.failureCount + 1))
  | .acquire _ | .clearFailures | .clearSuccesses | .fail | .stamp _ |
    .finish _ | .resetFailures | .resetSuccesses | .resetNanos =>
      inferInstanceAs (Decidable True)

structure Inv (calls : SharedBreaker) : Prop where
  pending : ∀ failureCount ∈ calls.counted,
    calls.breaker.config.failureThreshold ≤ failureCount →
      calls.breaker.config.failureThreshold.toNat ≤ calls.increments
  counter : ¬ calls.Recovering →
    calls.breaker.failureCount.toNat ≤ calls.increments
  opened : calls.OpensAfterThreshold

theorem inv_start (config : CircuitBreakerConfig) : (start config).Inv where
  pending _ member := by cases member
  counter _ := le_refl 0
  opened _ member := by cases member

variable {calls next : SharedBreaker}

/-- A recovery starts the count of the increments anew. -/
theorem Inv.recovers (inv : calls.Inv) (none : calls.NonePending)
    {after : SharedBreaker}
    (config : after.breaker.config = calls.breaker.config)
    (counted : after.counted = calls.counted)
    (openings : after.openings = calls.openings)
    (recovering : after.Recovering) : after.Inv := by
  refine ⟨?_, fun notRecovering => absurd recovering notRecovering, ?_⟩
  · intro failureCount member reached
    rw [config] at reached
    rw [counted] at member
    exact absurd reached (none failureCount member)
  · intro increments member
    rw [config]
    rw [openings] at member
    exact inv.opened increments member

theorem Inv.succeed (inv : calls.Inv)
    (leavesNone : LeavesNoneStale calls .succeed) : calls.succeed.Inv := by
  unfold SharedBreaker.succeed
  split
  case isTrue closes =>
    exact inv.recovers (leavesNone closes) rfl rfl rfl (Or.inr rfl)
  case isFalse stays =>
    obtain ⟨config, counter⟩ := CircuitBreaker.onSuccess_of_not_closes stays
    refine ⟨?_, ?_, ?_⟩
    · simp only [config]
      exact inv.pending
    · intro notRecovering
      rcases counter with same | zero
      · simp only [same]
        exact inv.counter notRecovering
      · simp [zero]
    · simp only [OpensAfterThreshold, config]
      exact inv.opened

theorem Inv.finish (inv : calls.Inv) {index : Nat} {failureCount : UInt32}
    (found : calls.counted[index]? = some failureCount) :
    (calls.finish index failureCount).Inv := by
  refine ⟨?_, ?_, ?_⟩
  · intro other member reached
    simp only [SharedBreaker.finish, CircuitBreaker.finishFailure_config]
      at reached ⊢
    exact inv.pending other (List.mem_of_mem_eraseIdx member) reached
  · intro notRecovering
    simp only [SharedBreaker.finish, CircuitBreaker.finishFailure_failureCount]
    exact inv.counter notRecovering
  · intro increments member
    simp only [SharedBreaker.finish, CircuitBreaker.finishFailure_config]
      at member ⊢
    split at member
    case isTrue opens =>
      rcases List.mem_append.mp member with before | last
      · exact inv.opened increments before
      · rw [List.mem_singleton.mp last]
        exact inv.pending failureCount (List.mem_of_getElem? found) opens.2
    case isFalse => exact inv.opened increments member

theorem Inv.count (inv : calls.Inv)
    (leavesNone : LeavesNoneStale calls .count) (stamped : Nat) :
    Inv { calls with
      breaker := calls.breaker.countFailure
      stamped := stamped
      counted := calls.counted ++ [calls.breaker.failureCount + 1]
      increments := calls.increments + 1 } := by
  have counts : (calls.breaker.failureCount + 1).toNat ≤
      calls.breaker.failureCount.toNat + 1 := by
    rw [UInt32.toNat_add, UInt32.toNat_one]
    exact Nat.mod_le _ _
  refine ⟨?_, ?_, inv.opened⟩
  · intro failureCount member reached
    rcases List.mem_append.mp member with before | last
    · exact Nat.le_succ_of_le (inv.pending failureCount before reached)
    · rw [List.mem_singleton.mp last] at reached
      have notRecovering : ¬ calls.Recovering :=
        fun recovering => leavesNone recovering reached
      calc calls.breaker.config.failureThreshold.toNat
          ≤ (calls.breaker.failureCount + 1).toNat :=
            UInt32.le_iff_toNat_le.mp reached
        _ ≤ calls.breaker.failureCount.toNat + 1 := counts
        _ ≤ calls.increments + 1 :=
            Nat.succ_le_succ (inv.counter notRecovering)
  · intro notRecovering
    exact le_trans counts (Nat.succ_le_succ (inv.counter notRecovering))

theorem Inv.step (inv : calls.Inv) {action : SharedBreakerAction}
    (leavesNone : LeavesNoneStale calls action)
    (stepTo : calls.step action = some next) : next.Inv := by
  cases action with
  | acquire now =>
      simp only [SharedBreaker.step] at stepTo
      split at stepTo
      case isTrue => cases stepTo
      case isFalse =>
        split at stepTo
        case h_1 =>
          cases stepTo
          exact inv
        case h_2 acquired acquires =>
          cases stepTo
          obtain ⟨config, counter⟩ := CircuitBreaker.tryAcquire_eq_ok acquires
          refine ⟨?_, ?_, ?_⟩
          · simp only [config]
            exact inv.pending
          · simp only [counter]
            exact inv.counter
          · simp only [OpensAfterThreshold, config]
            exact inv.opened
  | succeed =>
      simp only [SharedBreaker.step] at stepTo
      split at stepTo
      case isTrue => cases stepTo
      case isFalse =>
        cases stepTo
        exact inv.succeed leavesNone
  | clearFailures =>
      simp only [SharedBreaker.step] at stepTo
      split at stepTo
      case isTrue =>
        cases stepTo
        exact ⟨inv.pending, fun _ => Nat.zero_le _, inv.opened⟩
      case isFalse => cases stepTo
  | clearSuccesses =>
      simp only [SharedBreaker.step] at stepTo
      split at stepTo
      case isTrue closing =>
        cases stepTo
        refine ⟨inv.pending, fun notRecovering => inv.counter ?_, inv.opened⟩
        rintro (resetting | failures)
        · exact notRecovering (Or.inl resetting)
        · rw [closing] at failures
          cases failures
      case isFalse => cases stepTo
  | fail =>
      cases stepTo
      exact ⟨inv.pending, inv.counter, inv.opened⟩
  | stamp now =>
      simp only [SharedBreaker.step] at stepTo
      split at stepTo
      case isTrue => cases stepTo
      case isFalse =>
        cases stepTo
        exact ⟨inv.pending, inv.counter, inv.opened⟩
  | count =>
      simp only [SharedBreaker.step] at stepTo
      split at stepTo
      case isTrue => cases stepTo
      case isFalse =>
        cases stepTo
        exact inv.count leavesNone _
  | finish index =>
      simp only [SharedBreaker.step] at stepTo
      split at stepTo
      case isTrue => cases stepTo
      case isFalse =>
        split at stepTo
        case h_1 => cases stepTo
        case h_2 failureCount found =>
          cases stepTo
          exact inv.finish found
  | reset =>
      simp only [SharedBreaker.step] at stepTo
      split at stepTo
      case isTrue => cases stepTo
      case isFalse =>
        cases stepTo
        exact inv.recovers leavesNone rfl rfl rfl
          (Or.inl (Nat.succ_ne_zero _))
  | resetFailures =>
      simp only [SharedBreaker.step] at stepTo
      split at stepTo
      case isTrue => cases stepTo
      case isFalse =>
        cases stepTo
        exact ⟨inv.pending, fun _ => Nat.zero_le _, inv.opened⟩
  | resetSuccesses =>
      simp only [SharedBreaker.step] at stepTo
      split at stepTo
      case isTrue => cases stepTo
      case isFalse =>
        cases stepTo
        exact ⟨inv.pending, inv.counter, inv.opened⟩
  | resetNanos =>
      simp only [SharedBreaker.step] at stepTo
      split at stepTo
      case isTrue => cases stepTo
      case isFalse =>
        cases stepTo
        exact ⟨inv.pending, inv.counter, inv.opened⟩

/-- A breaker whose recoveries leave no failure behind opens again only after
as many new failures as its threshold. -/
theorem opensAfterThreshold_of_leavesNoneStale {config : CircuitBreakerConfig}
    {actions : List SharedBreakerAction}
    (leavesNone : Meets SharedBreaker.step LeavesNoneStale (start config)
      actions) :
    ∀ reached ∈ visited SharedBreaker.step (start config) actions,
      reached.OpensAfterThreshold := by
  intro reached isReached
  have inv : reached.Inv :=
    invariant_of_meets (fun _ _ _ inv meets stepTo => inv.step meets stepTo)
      (inv_start config) leavesNone reached isReached
  exact inv.opened

def twoFailuresOneSuccess : CircuitBreakerConfig :=
  ⟨2, 1, 10⟩

def recordedFailure (now : Nat) : List SharedBreakerAction :=
  [.fail, .stamp now, .count]

/-- Two failures, a probe that closes the breaker, and two new failures. -/
def recoveryThenFailures : List SharedBreakerAction :=
  recordedFailure 5 ++ [.finish 0] ++ recordedFailure 6 ++ [.finish 0] ++
    [.acquire 20, .succeed, .clearFailures, .clearSuccesses] ++
    recordedFailure 21 ++ [.finish 0] ++ recordedFailure 22 ++ [.finish 0]

theorem recoveryThenFailures_opensAfterThreshold :
    (run SharedBreaker.step (start twoFailuresOneSuccess)
        recoveryThenFailures).isSome ∧
      ∀ reached ∈ visited SharedBreaker.step (start twoFailuresOneSuccess)
          recoveryThenFailures,
        reached.OpensAfterThreshold :=
  ⟨rfl, opensAfterThreshold_of_leavesNoneStale (by decide)⟩

/-- Three failures count themselves, the second one opens the breaker, and the
third takes the lock only after a probe has closed it. -/
def lateThirdFailure : List SharedBreakerAction :=
  recordedFailure 5 ++ recordedFailure 5 ++ recordedFailure 5 ++
    [.finish 1, .acquire 20, .succeed, .clearFailures, .clearSuccesses,
      .finish 1]

theorem lateThirdFailure_reopens :
    ∃ last,
      run SharedBreaker.step (start twoFailuresOneSuccess)
          lateThirdFailure = some last ∧
        last.breaker.state = .open_ ∧ last.openings = [3, 0] ∧
        ¬ last.OpensAfterThreshold := by
  refine ⟨_, rfl, rfl, rfl, fun holds => ?_⟩
  exact absurd (holds 0 (by decide)) (by decide)

end SharedBreaker

end TorchInference
