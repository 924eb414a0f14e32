import TorchInference.CircuitBreaker
import TorchInference.PerModelBreaker

/-!
# Two circuit breakers

The shared breaker and the breaker of a model follow the same plan: they count
consecutive failures while closed, wait after the last failure while open, and
count consecutive successes while half-open.  The plan is a small machine of
its own, and a sequence of calls drives both breakers through it.  Each breaker
keeps the instant of its last failure in nanoseconds since an epoch of its own,
and never as zero.
-/

namespace TorchInference

/-- A call of a breaker: its start, what the called function returns, and the
instant at which that is reported. -/
structure TimedCall (Result : Type*) where
  start : Nat
  outcome : Except String Result
  finish : Nat

/-- Whether a call is let through, and the state it leaves. -/
structure CallReport where
  accepted : Bool
  state : CircuitState
  deriving DecidableEq

variable {Result : Type*}

namespace CircuitBreaker

def call (epoch : Nat) (breaker : CircuitBreaker) (timed : TimedCall Result) :
    Except String Result × CircuitBreaker :=
  match breaker.tryAcquire (timed.start - epoch) with
  | .error refusal => (.error refusal, breaker)
  | .ok acquired =>
      match timed.outcome with
      | .ok result => (.ok result, acquired.onSuccess)
      | .error error => (.error error, acquired.onFailure (timed.finish - epoch))

def reports (epoch : Nat) :
    CircuitBreaker → List (TimedCall Result) → List CallReport
  | _, [] => []
  | breaker, timed :: calls =>
      let after := (breaker.call epoch timed).2
      ⟨(breaker.tryAcquire (timed.start - epoch)).isOk, after.state⟩ ::
        after.reports epoch calls

end CircuitBreaker

namespace PerModelBreaker

inductive CircuitBreakerError (Error : Type*) where
  | open_
  | inner (error : Error)

namespace CircuitBreaker

/-- `on_failure` when nothing else runs in between. -/
def onFailure (breaker : CircuitBreaker) (now : Nat) : CircuitBreaker :=
  let counted := breaker.countFailure
  (counted.stampFailure now).finishFailure counted.failureCount

def call (epoch : Nat) (breaker : CircuitBreaker) (timed : TimedCall Result) :
    Except (CircuitBreakerError String) Result × CircuitBreaker :=
  match breaker.admission (timed.start - epoch) with
  | none => (.error .open_, breaker)
  | some admitted =>
      match timed.outcome with
      | .ok result => (.ok result, admitted.onSuccess)
      | .error error =>
          (.error (.inner error), admitted.onFailure (timed.finish - epoch))

def reports (epoch : Nat) :
    CircuitBreaker → List (TimedCall Result) → List CallReport
  | _, [] => []
  | breaker, timed :: calls =>
      let after := (breaker.call epoch timed).2
      ⟨(breaker.admission (timed.start - epoch)).isSome, after.state⟩ ::
        after.reports epoch calls

end CircuitBreaker

/-- The configuration with the same thresholds and timeout. -/
def configOf (config : TorchInference.CircuitBreakerConfig) :
    CircuitBreakerConfig :=
  ⟨config.failureThreshold.toUInt64, config.successThreshold.toUInt64,
    config.timeout⟩

end PerModelBreaker

/-- The plan of a breaker: the failures in a row while closed, the instant of
the last failure while open, the successes in a row while half-open. -/
inductive BreakerPhase where
  | closed (failures : Nat)
  | open_ (since : Nat)
  | halfOpen (successes : Nat)

namespace BreakerPhase

def state : BreakerPhase → CircuitState
  | .closed _ => .closed
  | .open_ _ => .open_
  | .halfOpen _ => .halfOpen

/-- An open breaker admits a probe when its timeout is over. -/
def admission (config : CircuitBreakerConfig) (start : Nat) :
    BreakerPhase → Option BreakerPhase
  | .open_ since =>
      if config.timeout < start - since then some (.halfOpen 0) else none
  | phase => some phase

/-- The failure threshold opens a closed breaker, any failure opens a half-open
one, and the success threshold closes it. -/
def conclude (config : CircuitBreakerConfig) (finish : Nat) (fails : Bool) :
    BreakerPhase → BreakerPhase
  | .closed failures =>
      if fails then
        if failures + 1 = config.failureThreshold.toNat then .open_ finish
        else .closed (failures + 1)
      else .closed 0
  | .halfOpen successes =>
      if fails then .open_ finish
      else if successes + 1 = config.successThreshold.toNat then .closed 0
      else .halfOpen (successes + 1)
  | .open_ since => .open_ since

theorem state_of_admission {config : CircuitBreakerConfig} {start : Nat}
    {phase admitted : BreakerPhase}
    (isAdmitted : phase.admission config start = some admitted) :
    admitted.state ≠ .open_ := by
  cases phase with
  | closed failures =>
      cases isAdmitted
      exact fun same => nomatch same
  | halfOpen successes =>
      cases isAdmitted
      exact fun same => nomatch same
  | open_ since =>
      simp only [admission] at isAdmitted
      split at isAdmitted
      case isTrue =>
        cases isAdmitted
        exact fun same => nomatch same
      case isFalse => cases isAdmitted

def fails (timed : TimedCall Result) : Bool :=
  !timed.outcome.isOk

def after (config : CircuitBreakerConfig) (phase : BreakerPhase)
    (timed : TimedCall Result) : BreakerPhase :=
  match phase.admission config timed.start with
  | none => phase
  | some admitted => admitted.conclude config timed.finish (fails timed)

def reports (config : CircuitBreakerConfig) :
    BreakerPhase → List (TimedCall Result) → List CallReport
  | _, [] => []
  | phase, timed :: calls =>
      let next := phase.after config timed
      ⟨(phase.admission config timed.start).isSome, next.state⟩ ::
        next.reports config calls

end BreakerPhase

/-- The epochs of the two breakers; each is set when its breaker is created at
the latest. -/
structure BreakerClocks where
  plainEpoch : Nat
  perModelEpoch : Nat
  created : Nat
  plainSet : plainEpoch ≤ created
  perModelSet : perModelEpoch ≤ created

/-- The calls are made one after the other. -/
def Sequential : Nat → List (TimedCall Result) → Prop
  | _, [] => True
  | clock, timed :: calls =>
      clock ≤ timed.start ∧ timed.start ≤ timed.finish ∧
        Sequential timed.finish calls

instance decidableSequential :
    ∀ (clock : Nat) (calls : List (TimedCall Result)),
      Decidable (Sequential clock calls)
  | _, [] => inferInstanceAs (Decidable True)
  | _, timed :: calls =>
      have : Decidable (Sequential timed.finish calls) :=
        decidableSequential timed.finish calls
      inferInstanceAs (Decidable (_ ∧ _ ∧ _))

/-- An open breaker is not called at the very instant at which its timeout is
over, counted from what is recorded of its last failure. -/
def BreakerPhase.OffTimeout (config : CircuitBreakerConfig)
    (recorded : Nat → Nat) (start : Nat) : BreakerPhase → Prop
  | .open_ since => start - recorded since ≠ config.timeout
  | _ => True

instance (config : CircuitBreakerConfig) (recorded : Nat → Nat) (start : Nat) :
    ∀ phase : BreakerPhase, Decidable (phase.OffTimeout config recorded start)
  | .open_ since =>
      inferInstanceAs (Decidable (start - recorded since ≠ config.timeout))
  | .closed _ | .halfOpen _ => inferInstanceAs (Decidable True)

/-- No call starts at such an instant. -/
def OffTimeout (config : CircuitBreakerConfig) (recorded : Nat → Nat) :
    BreakerPhase → List (TimedCall Result) → Prop
  | _, [] => True
  | phase, timed :: calls =>
      phase.OffTimeout config recorded timed.start ∧
        OffTimeout config recorded (phase.after config timed) calls

instance decidableOffTimeout (config : CircuitBreakerConfig)
    (recorded : Nat → Nat) :
    ∀ (phase : BreakerPhase) (calls : List (TimedCall Result)),
      Decidable (OffTimeout config recorded phase calls)
  | _, [] => inferInstanceAs (Decidable True)
  | phase, timed :: calls =>
      have : Decidable
          (OffTimeout config recorded (phase.after config timed) calls) :=
        decidableOffTimeout config recorded (phase.after config timed) calls
      inferInstanceAs (Decidable (_ ∧ _))

/-- The instant that a breaker records for a failure: an offset of zero from
its epoch stands for no failure. -/
def recordedInstant (epoch finish : Nat) : Nat :=
  max finish (epoch + 1)

/-- The calls end before the clocks of 64 bits are full; the failure counter
of a model's breaker takes the room of its threshold as well. -/
def WithinClocks (config : CircuitBreakerConfig) (clocks : BreakerClocks)
    (calls : List (TimedCall Result)) : Prop :=
  ∀ timed ∈ calls,
    timed.finish < clocks.plainEpoch + 2 ^ 64 ∧
      timed.finish + config.failureThreshold.toNat ≤
        clocks.perModelEpoch + 2 ^ 64

namespace CircuitBreaker

/-- A breaker carries out its plan. -/
structure Follows (config : CircuitBreakerConfig) (epoch clock : Nat)
    (breaker : CircuitBreaker) (phase : BreakerPhase) : Prop where
  configured : breaker.config = config
  state : breaker.state = phase.state
  counts : match phase with
    | .closed failures =>
        breaker.failureCount.toNat = failures ∧
          failures < config.failureThreshold.toNat ∧ breaker.successCount = 0
    | .open_ since =>
        epoch ≤ since ∧ since ≤ clock ∧ breaker.successCount = 0 ∧
          breaker.lastFailureNanos.toNat = max 1 (since - epoch)
    | .halfOpen successes =>
        breaker.successCount.toNat = successes ∧
          successes < config.successThreshold.toNat

theorem failureNanos_toNat {now : Nat} (small : now < 2 ^ 64) :
    (failureNanos now).toNat = max 1 now := by
  have stored : (UInt64.ofNat now).toNat = now := by
    rw [UInt64.toNat_ofNat']
    exact Nat.mod_eq_of_lt small
  unfold failureNanos
  rw [show max (UInt64.ofNat now) 1 =
    if UInt64.ofNat now ≤ 1 then 1 else UInt64.ofNat now from rfl]
  split
  case isTrue le =>
    rw [UInt64.le_iff_toNat_le, stored] at le
    rw [UInt64.toNat_one] at le ⊢
    omega
  case isFalse gt =>
    rw [UInt64.le_iff_toNat_le, stored, UInt64.toNat_one] at gt
    rw [stored]
    omega

variable {config : CircuitBreakerConfig} {epoch clock : Nat}
  {breaker : CircuitBreaker} {phase : BreakerPhase}

theorem follows_new (positive : 1 ≤ config.failureThreshold) :
    (new config).Follows config epoch clock (.closed 0) where
  configured := rfl
  state := rfl
  counts := by
    refine ⟨rfl, ?_, rfl⟩
    rw [UInt32.le_iff_toNat_le] at positive
    exact positive

theorem Follows.later (follows : breaker.Follows config epoch clock phase)
    {later : Nat} (notBefore : clock ≤ later) :
    breaker.Follows config epoch later phase := by
  refine ⟨follows.configured, follows.state, ?_⟩
  have counts := follows.counts
  cases phase with
  | closed failures => exact counts
  | open_ since =>
      obtain ⟨epochBefore, before, rest⟩ := counts
      exact ⟨epochBefore, le_trans before notBefore, rest⟩
  | halfOpen successes => exact counts

/-- The breaker admits the probes that its plan admits. -/
theorem Follows.tryAcquire (follows : breaker.Follows config epoch clock phase)
    (successPositive : 1 ≤ config.successThreshold)
    {start : Nat} (notBefore : clock ≤ start)
    (offTimeout : phase.OffTimeout config id start) :
    match phase.admission config start with
    | none => breaker.tryAcquire (start - epoch) =
        .error "Circuit breaker is open"
    | some admitted => ∃ acquired,
        breaker.tryAcquire (start - epoch) = .ok acquired ∧
          acquired.Follows config epoch start admitted := by
  have later := follows.later notBefore
  cases phase with
  | closed failures =>
      have closed : breaker.state = .closed := follows.state
      refine ⟨breaker, ?_, later⟩
      simp [CircuitBreaker.tryAcquire, closed]
  | halfOpen successes =>
      have halfOpen : breaker.state = .halfOpen := follows.state
      refine ⟨breaker, ?_, later⟩
      simp [CircuitBreaker.tryAcquire, halfOpen]
  | open_ since =>
      have isOpen : breaker.state = .open_ := follows.state
      obtain ⟨epochBefore, sinceBefore, noSuccess, recorded⟩ := follows.counts
      have positive : 0 < breaker.lastFailureNanos := by
        rw [UInt64.lt_iff_toNat_lt, UInt64.toNat_zero]
        omega
      have retries : breaker.shouldRetry (start - epoch) = true ↔
          config.timeout < start - since := by
        simp only [CircuitBreaker.shouldRetry, positive, decide_true,
          Bool.true_and, decide_eq_true_eq, follows.configured, recorded]
        simp only [BreakerPhase.OffTimeout, id] at offTimeout
        omega
      simp only [BreakerPhase.admission]
      by_cases elapsed : config.timeout < start - since
      · simp only [elapsed, if_true]
        refine ⟨{ breaker with state := .halfOpen }, ?_, ?_⟩
        · simp [CircuitBreaker.tryAcquire, isOpen, retries.mpr elapsed]
        · refine ⟨follows.configured, rfl, ?_, ?_⟩
          · rw [noSuccess]
            rfl
          · rw [UInt32.le_iff_toNat_le] at successPositive
            exact successPositive
      · simp only [elapsed, if_false]
        have refused : breaker.shouldRetry (start - epoch) = false := by
          cases retry : breaker.shouldRetry (start - epoch) with
          | false => rfl
          | true => exact absurd (retries.mp retry) elapsed
        simp [CircuitBreaker.tryAcquire, isOpen, refused]

theorem toNat_add_one_of_lt {count bound : UInt32}
    (below : count.toNat < bound.toNat) :
    (count + 1).toNat = count.toNat + 1 := by
  have small := bound.toNat_lt
  rw [UInt32.toNat_add, UInt32.toNat_one]
  omega

/-- A success of an admitted call. -/
theorem Follows.onSuccess (follows : breaker.Follows config epoch clock phase)
    (failurePositive : 1 ≤ config.failureThreshold) (finish : Nat) :
    breaker.onSuccess.Follows config epoch clock
      (phase.conclude config finish false) := by
  have positive : 0 < config.failureThreshold.toNat := by
    rw [UInt32.le_iff_toNat_le] at failurePositive
    exact failurePositive
  cases phase with
  | closed failures =>
      have closed : breaker.state = .closed := follows.state
      obtain ⟨-, -, noSuccess⟩ := follows.counts
      simp only [CircuitBreaker.onSuccess, closed, BreakerPhase.conclude,
        Bool.false_eq_true, if_false]
      exact ⟨follows.configured, rfl, rfl, positive, noSuccess⟩
  | open_ since =>
      have isOpen : breaker.state = .open_ := follows.state
      simp only [CircuitBreaker.onSuccess, isOpen, BreakerPhase.conclude]
      exact follows
  | halfOpen successes =>
      have halfOpen : breaker.state = .halfOpen := follows.state
      obtain ⟨count, below⟩ := follows.counts
      have next : (breaker.successCount + 1).toNat = successes + 1 := by
        rw [← count] at below ⊢
        exact toNat_add_one_of_lt below
      simp only [CircuitBreaker.onSuccess, halfOpen, BreakerPhase.conclude,
        Bool.false_eq_true, if_false, follows.configured,
        UInt32.le_iff_toNat_le, next]
      by_cases enough : successes + 1 = config.successThreshold.toNat
      · rw [if_pos (le_of_eq enough.symm), if_pos enough]
        exact ⟨rfl, rfl, rfl, positive, rfl⟩
      · have fewer : successes + 1 < config.successThreshold.toNat :=
          lt_of_le_of_ne below enough
        rw [if_neg (not_le_of_gt fewer), if_neg enough]
        exact ⟨rfl, rfl, next, fewer⟩

/-- A failure of an admitted call. -/
theorem Follows.onFailure (follows : breaker.Follows config epoch clock phase)
    (admitted : phase.state ≠ .open_) {finish : Nat}
    (afterEpoch : epoch ≤ finish) (small : finish - epoch < 2 ^ 64) :
    (breaker.onFailure (finish - epoch)).Follows config epoch finish
      (phase.conclude config finish true) := by
  have stamp := failureNanos_toNat small
  cases phase with
  | closed failures =>
      have closed : breaker.state = .closed := follows.state
      obtain ⟨count, below, noSuccess⟩ := follows.counts
      have next : (breaker.failureCount + 1).toNat = failures + 1 := by
        rw [← count] at below ⊢
        exact toNat_add_one_of_lt below
      simp only [CircuitBreaker.onFailure, closed, BreakerPhase.conclude,
        if_true, follows.configured, UInt32.le_iff_toNat_le, next]
      by_cases enough : failures + 1 = config.failureThreshold.toNat
      · rw [if_pos (le_of_eq enough.symm), if_pos enough]
        exact ⟨rfl, rfl, afterEpoch, le_refl _, rfl, stamp⟩
      · have fewer : failures + 1 < config.failureThreshold.toNat :=
          lt_of_le_of_ne below enough
        rw [if_neg (not_le_of_gt fewer), if_neg enough]
        exact ⟨rfl, rfl, next, fewer, rfl⟩
  | open_ since => exact absurd rfl admitted
  | halfOpen successes =>
      have halfOpen : breaker.state = .halfOpen := follows.state
      simp only [CircuitBreaker.onFailure, halfOpen, BreakerPhase.conclude,
        if_true]
      exact ⟨follows.configured, rfl, afterEpoch, le_refl _, rfl, stamp⟩

/-- A call takes a breaker and its plan along together. -/
theorem Follows.call (follows : breaker.Follows config epoch clock phase)
    (failurePositive : 1 ≤ config.failureThreshold)
    (successPositive : 1 ≤ config.successThreshold)
    {timed : TimedCall Result} (afterEpoch : epoch ≤ clock)
    (notBefore : clock ≤ timed.start) (ends : timed.start ≤ timed.finish)
    (offTimeout : phase.OffTimeout config id timed.start)
    (small : timed.finish < epoch + 2 ^ 64) :
    (breaker.tryAcquire (timed.start - epoch)).isOk =
        (phase.admission config timed.start).isSome ∧
      (breaker.call epoch timed).2.Follows config epoch timed.finish
        (phase.after config timed) := by
  have acquisition := follows.tryAcquire successPositive notBefore offTimeout
  cases isAdmitted : phase.admission config timed.start with
  | none =>
      rw [isAdmitted] at acquisition
      simp only at acquisition
      simp only [CircuitBreaker.call, BreakerPhase.after, isAdmitted,
        acquisition]
      exact ⟨rfl, follows.later (le_trans notBefore ends)⟩
  | some admitted =>
      rw [isAdmitted] at acquisition
      obtain ⟨acquired, acquires, acquiredFollows⟩ := acquisition
      simp only [CircuitBreaker.call, BreakerPhase.after, isAdmitted, acquires]
      refine ⟨rfl, ?_⟩
      cases outcome : timed.outcome with
      | ok result =>
          have later := acquiredFollows.later ends
          simpa [BreakerPhase.fails, outcome, Except.isOk, Except.toBool] using
            later.onSuccess failurePositive timed.finish
      | error error =>
          simpa [BreakerPhase.fails, outcome, Except.isOk, Except.toBool] using
            acquiredFollows.onFailure (BreakerPhase.state_of_admission isAdmitted)
              (by omega) (by omega)

/-- A breaker that carries out its plan does so in every sequence of calls. -/
theorem Follows.reports {calls : List (TimedCall Result)}
    (follows : breaker.Follows config epoch clock phase)
    (failurePositive : 1 ≤ config.failureThreshold)
    (successPositive : 1 ≤ config.successThreshold)
    (afterEpoch : epoch ≤ clock) (sequential : Sequential clock calls)
    (offTimeout : OffTimeout config id phase calls)
    (small : ∀ timed ∈ calls, timed.finish < epoch + 2 ^ 64) :
    breaker.reports epoch calls = phase.reports config calls := by
  induction calls generalizing breaker phase clock with
  | nil => rfl
  | cons timed calls ih =>
      obtain ⟨notBefore, ends, rest⟩ := sequential
      obtain ⟨accepted, next⟩ := follows.call failurePositive successPositive
        afterEpoch notBefore ends offTimeout.1
        (small timed (List.mem_cons_self ..))
      simp only [CircuitBreaker.reports, BreakerPhase.reports, accepted,
        next.state]
      rw [ih next (by omega) rest offTimeout.2
        (fun other member => small other (List.mem_cons_of_mem _ member))]

end CircuitBreaker

namespace PerModelBreaker.CircuitBreaker

/-- A breaker carries out its plan.  While it is not closed its failure counter
is at the threshold, and only the clock bounds how far it is beyond. -/
structure Follows (config : TorchInference.CircuitBreakerConfig)
    (epoch clock : Nat) (breaker : CircuitBreaker) (phase : BreakerPhase) :
    Prop where
  configured : breaker.config = configOf config
  state : breaker.state = phase.state
  counts : match phase with
    | .closed failures =>
        breaker.failureCount.toNat = failures ∧
          failures < config.failureThreshold.toNat ∧ breaker.successCount = 0
    | .open_ since =>
        epoch ≤ since ∧ since ≤ clock ∧ breaker.successCount = 0 ∧
          breaker.lastFailureNanos.toNat = max 1 (since - epoch) ∧
          config.failureThreshold.toNat ≤ breaker.failureCount.toNat ∧
          breaker.failureCount.toNat <
            config.failureThreshold.toNat + max 1 (since - epoch)
    | .halfOpen successes =>
        breaker.successCount.toNat = successes ∧
          successes < config.successThreshold.toNat ∧
          config.failureThreshold.toNat ≤ breaker.failureCount.toNat ∧
          breaker.failureCount.toNat + 1 <
            config.failureThreshold.toNat + (clock - epoch)

variable {config : TorchInference.CircuitBreakerConfig} {epoch clock : Nat}
  {breaker : CircuitBreaker} {phase : BreakerPhase}

theorem follows_new (positive : 1 ≤ config.failureThreshold) :
    (new (configOf config)).Follows config epoch clock (.closed 0) where
  configured := rfl
  state := rfl
  counts := by
    refine ⟨rfl, ?_, rfl⟩
    rw [UInt32.le_iff_toNat_le] at positive
    exact positive

theorem Follows.later (follows : breaker.Follows config epoch clock phase)
    {later : Nat} (notBefore : clock ≤ later) :
    breaker.Follows config epoch later phase := by
  refine ⟨follows.configured, follows.state, ?_⟩
  have counts := follows.counts
  cases phase with
  | closed failures => exact counts
  | open_ since =>
      obtain ⟨epochBefore, before, rest⟩ := counts
      exact ⟨epochBefore, le_trans before notBefore, rest⟩
  | halfOpen successes =>
      obtain ⟨count, below, reached, bounded⟩ := counts
      exact ⟨count, below, reached, by omega⟩

/-- The breaker admits the probes that its plan admits. -/
theorem Follows.admission (follows : breaker.Follows config epoch clock phase)
    (successPositive : 1 ≤ config.successThreshold)
    {start : Nat} (notBefore : clock ≤ start)
    (offTimeout : phase.OffTimeout config (recordedInstant epoch) start) :
    match phase.admission config start with
    | none => breaker.admission (start - epoch) = none
    | some admitted => ∃ after,
        breaker.admission (start - epoch) = some after ∧
          after.Follows config epoch start admitted := by
  have later := follows.later notBefore
  cases phase with
  | closed failures =>
      have closed : breaker.state = .closed := follows.state
      refine ⟨breaker, ?_, later⟩
      simp [CircuitBreaker.admission, closed]
  | halfOpen successes =>
      have halfOpen : breaker.state = .halfOpen := follows.state
      refine ⟨breaker, ?_, later⟩
      simp [CircuitBreaker.admission, halfOpen]
  | open_ since =>
      have isOpen : breaker.state = .open_ := follows.state
      obtain ⟨epochBefore, sinceBefore, noSuccess, recorded, reached,
        bounded⟩ := follows.counts
      have positive : 0 < breaker.lastFailureNanos := by
        rw [UInt64.lt_iff_toNat_lt, UInt64.toNat_zero]
        omega
      have timeout : breaker.config.timeout = config.timeout := by
        rw [follows.configured]
        rfl
      have recovers : config.timeout <
            start - epoch - breaker.lastFailureNanos.toNat ↔
          config.timeout < start - since := by
        rw [recorded]
        simp only [BreakerPhase.OffTimeout, recordedInstant] at offTimeout
        omega
      simp only [BreakerPhase.admission, CircuitBreaker.admission, isOpen,
        if_true, positive, true_and, timeout, recovers]
      by_cases elapsed : config.timeout < start - since
      · simp only [elapsed, if_true]
        refine ⟨_, rfl, follows.configured, rfl, ?_, ?_, reached, ?_⟩
        · rw [noSuccess]
          rfl
        · rw [UInt32.le_iff_toNat_le] at successPositive
          exact successPositive
        · simp only
          omega
      · simp [elapsed]

/-- A success of an admitted call. -/
theorem Follows.onSuccess (follows : breaker.Follows config epoch clock phase)
    (failurePositive : 1 ≤ config.failureThreshold) (finish : Nat) :
    breaker.onSuccess.Follows config epoch clock
      (phase.conclude config finish false) := by
  have positive : 0 < config.failureThreshold.toNat := by
    rw [UInt32.le_iff_toNat_le] at failurePositive
    exact failurePositive
  cases phase with
  | closed failures =>
      have closed : breaker.state = .closed := follows.state
      obtain ⟨-, -, noSuccess⟩ := follows.counts
      simp only [CircuitBreaker.onSuccess, closed, BreakerPhase.conclude,
        Bool.false_eq_true, if_false]
      exact ⟨follows.configured, rfl, rfl, positive, noSuccess⟩
  | open_ since =>
      have isOpen : breaker.state = .open_ := follows.state
      simp only [CircuitBreaker.onSuccess, isOpen, BreakerPhase.conclude]
      exact follows
  | halfOpen successes =>
      have halfOpen : breaker.state = .halfOpen := follows.state
      obtain ⟨count, below, reached, bounded⟩ := follows.counts
      have small := config.successThreshold.toNat_lt
      have next : (breaker.successCount + 1).toNat = successes + 1 := by
        rw [UInt64.toNat_add, UInt64.toNat_one, count]
        omega
      have threshold : (configOf config).successThreshold.toNat =
          config.successThreshold.toNat :=
        UInt32.toNat_toUInt64 _
      simp only [CircuitBreaker.onSuccess, halfOpen, BreakerPhase.conclude,
        Bool.false_eq_true, if_false, follows.configured,
        UInt64.le_iff_toNat_le, next, threshold]
      by_cases enough : successes + 1 = config.successThreshold.toNat
      · rw [if_pos (le_of_eq enough.symm), if_pos enough]
        exact ⟨rfl, rfl, rfl, positive, rfl⟩
      · have fewer : successes + 1 < config.successThreshold.toNat :=
          lt_of_le_of_ne below enough
        rw [if_neg (not_le_of_gt fewer), if_neg enough]
        exact ⟨rfl, rfl, next, fewer, reached, bounded⟩

theorem onFailure_of_reached {now : Nat} (notOpen : breaker.state ≠ .open_)
    (reached : breaker.config.failureThreshold ≤ breaker.failureCount + 1) :
    breaker.onFailure now =
      ⟨.open_, breaker.failureCount + 1, 0, max (UInt64.ofNat now) 1,
        breaker.config⟩ := by
  simp [CircuitBreaker.onFailure, countFailure, stampFailure, finishFailure,
    reached, notOpen]

theorem onFailure_of_below {now : Nat}
    (below : ¬ breaker.config.failureThreshold ≤ breaker.failureCount + 1) :
    breaker.onFailure now =
      ⟨breaker.state, breaker.failureCount + 1, breaker.successCount,
        max (UInt64.ofNat now) 1, breaker.config⟩ := by
  simp [CircuitBreaker.onFailure, countFailure, stampFailure, finishFailure,
    below]

/-- A failure of an admitted call.  The running counter takes the place of a
rule for half-open breakers. -/
theorem Follows.onFailure (follows : breaker.Follows config epoch clock phase)
    (failurePositive : 1 ≤ config.failureThreshold)
    (admitted : phase.state ≠ .open_) {finish : Nat}
    (afterEpoch : epoch ≤ finish) (notBefore : clock ≤ finish)
    (small : finish + config.failureThreshold.toNat ≤ epoch + 2 ^ 64) :
    (breaker.onFailure (finish - epoch)).Follows config epoch finish
      (phase.conclude config finish true) := by
  have positive : 0 < config.failureThreshold.toNat := by
    rw [UInt32.le_iff_toNat_le] at failurePositive
    exact failurePositive
  have stamp := CircuitBreaker.failureNanos_toNat
    (show finish - epoch < 2 ^ 64 by omega)
  have notOpen : breaker.state ≠ .open_ := by
    rw [follows.state]
    exact admitted
  have threshold : breaker.config.failureThreshold.toNat =
      config.failureThreshold.toNat := by
    rw [follows.configured]
    exact UInt32.toNat_toUInt64 _
  cases phase with
  | closed failures =>
      obtain ⟨count, below, noSuccess⟩ := follows.counts
      have thresholdSmall := config.failureThreshold.toNat_lt
      have next : (breaker.failureCount + 1).toNat = failures + 1 := by
        rw [UInt64.toNat_add, UInt64.toNat_one, count]
        omega
      simp only [BreakerPhase.conclude, if_true]
      by_cases enough : failures + 1 = config.failureThreshold.toNat
      · rw [if_pos enough, onFailure_of_reached notOpen (by
          rw [UInt64.le_iff_toNat_le, next, threshold, enough])]
        refine ⟨follows.configured, rfl, afterEpoch, le_refl _, rfl, stamp,
          ?_, ?_⟩
        · rw [next, enough]
        · rw [next, enough]
          omega
      · have fewer : failures + 1 < config.failureThreshold.toNat :=
          lt_of_le_of_ne below enough
        rw [if_neg enough, onFailure_of_below (by
          rw [UInt64.le_iff_toNat_le, next, threshold]
          exact not_le_of_gt fewer)]
        exact ⟨follows.configured, follows.state, next, fewer, noSuccess⟩
  | open_ since => exact absurd rfl admitted
  | halfOpen successes =>
      obtain ⟨-, -, reached, bounded⟩ := follows.counts
      have next : (breaker.failureCount + 1).toNat =
          breaker.failureCount.toNat + 1 := by
        rw [UInt64.toNat_add, UInt64.toNat_one]
        omega
      simp only [BreakerPhase.conclude, if_true]
      rw [onFailure_of_reached notOpen (by
        rw [UInt64.le_iff_toNat_le, next, threshold]
        omega)]
      refine ⟨follows.configured, rfl, afterEpoch, le_refl _, rfl, stamp,
        ?_, ?_⟩
      · rw [next]
        omega
      · rw [next]
        omega

/-- A call takes a breaker and its plan along together. -/
theorem Follows.call (follows : breaker.Follows config epoch clock phase)
    (failurePositive : 1 ≤ config.failureThreshold)
    (successPositive : 1 ≤ config.successThreshold)
    {timed : TimedCall Result} (afterEpoch : epoch ≤ clock)
    (notBefore : clock ≤ timed.start) (ends : timed.start ≤ timed.finish)
    (offTimeout : phase.OffTimeout config (recordedInstant epoch) timed.start)
    (small : timed.finish + config.failureThreshold.toNat ≤ epoch + 2 ^ 64) :
    (breaker.admission (timed.start - epoch)).isSome =
        (phase.admission config timed.start).isSome ∧
      (breaker.call epoch timed).2.Follows config epoch timed.finish
        (phase.after config timed) := by
  have acquisition := follows.admission successPositive notBefore offTimeout
  cases isAdmitted : phase.admission config timed.start with
  | none =>
      rw [isAdmitted] at acquisition
      simp only at acquisition
      simp only [CircuitBreaker.call, BreakerPhase.after, isAdmitted,
        acquisition]
      exact ⟨rfl, follows.later (le_trans notBefore ends)⟩
  | some admitted =>
      rw [isAdmitted] at acquisition
      obtain ⟨acquired, acquires, acquiredFollows⟩ := acquisition
      simp only [CircuitBreaker.call, BreakerPhase.after, isAdmitted, acquires]
      refine ⟨rfl, ?_⟩
      cases outcome : timed.outcome with
      | ok result =>
          have later := acquiredFollows.later ends
          simpa [BreakerPhase.fails, outcome, Except.isOk, Except.toBool] using
            later.onSuccess failurePositive timed.finish
      | error error =>
          simpa [BreakerPhase.fails, outcome, Except.isOk, Except.toBool] using
            acquiredFollows.onFailure failurePositive
              (BreakerPhase.state_of_admission isAdmitted) (by omega) ends small

/-- A breaker that carries out its plan does so in every sequence of calls. -/
theorem Follows.reports {calls : List (TimedCall Result)}
    (follows : breaker.Follows config epoch clock phase)
    (failurePositive : 1 ≤ config.failureThreshold)
    (successPositive : 1 ≤ config.successThreshold)
    (afterEpoch : epoch ≤ clock) (sequential : Sequential clock calls)
    (offTimeout : OffTimeout config (recordedInstant epoch) phase calls)
    (small : ∀ timed ∈ calls,
      timed.finish + config.failureThreshold.toNat ≤ epoch + 2 ^ 64) :
    breaker.reports epoch calls = phase.reports config calls := by
  induction calls generalizing breaker phase clock with
  | nil => rfl
  | cons timed calls ih =>
      obtain ⟨notBefore, ends, rest⟩ := sequential
      obtain ⟨accepted, next⟩ := follows.call failurePositive successPositive
        afterEpoch notBefore ends offTimeout.1
        (small timed (List.mem_cons_self ..))
      simp only [CircuitBreaker.reports, BreakerPhase.reports, accepted,
        next.state]
      rw [ih next (by omega) rest offTimeout.2
        (fun other member => small other (List.mem_cons_of_mem _ member))]

end PerModelBreaker.CircuitBreaker

/-- Two breakers of one configuration, called one after the other, admit and
reject the same calls and are in the same state after each; both carry out the
plan that counts failures and successes in a row. -/
theorem reports_agree {config : CircuitBreakerConfig}
    (clocks : BreakerClocks) {calls : List (TimedCall Result)}
    (failurePositive : 1 ≤ config.failureThreshold)
    (successPositive : 1 ≤ config.successThreshold)
    (sequential : Sequential clocks.created calls)
    (offTimeout : OffTimeout config id (.closed 0) calls)
    (offRecorded : OffTimeout config (recordedInstant clocks.perModelEpoch)
      (.closed 0) calls)
    (within : WithinClocks config clocks calls) :
    (CircuitBreaker.new config).reports clocks.plainEpoch calls =
        (PerModelBreaker.CircuitBreaker.new
          (PerModelBreaker.configOf config)).reports
            clocks.perModelEpoch calls ∧
      (CircuitBreaker.new config).reports clocks.plainEpoch calls =
        (BreakerPhase.closed 0).reports config calls := by
  have plain : (CircuitBreaker.new config).reports clocks.plainEpoch calls =
      (BreakerPhase.closed 0).reports config calls :=
    (CircuitBreaker.follows_new failurePositive).reports failurePositive
      successPositive clocks.plainSet sequential offTimeout
      (fun timed member => (within timed member).1)
  have perModel : (PerModelBreaker.CircuitBreaker.new
        (PerModelBreaker.configOf config)).reports clocks.perModelEpoch calls =
      (BreakerPhase.closed 0).reports config calls :=
    (PerModelBreaker.CircuitBreaker.follows_new failurePositive).reports
      failurePositive successPositive clocks.perModelSet sequential offRecorded
      (fun timed member => (within timed member).2)
  exact ⟨plain.trans perModel.symm, plain⟩

def oneFailure : CircuitBreakerConfig :=
  ⟨1, 1, 10⟩

def epochsApart : BreakerClocks :=
  ⟨0, 5, 5, by decide, by decide⟩

def failsThenSucceeds (failed next : Nat) : List (TimedCall Unit) :=
  [⟨failed, .error "unavailable", failed⟩, ⟨next, .ok (), next⟩]

theorem reports_agree_failsThenSucceeds :
    (CircuitBreaker.new oneFailure).reports epochsApart.plainEpoch
          (failsThenSucceeds 6 17) =
        (PerModelBreaker.CircuitBreaker.new
          (PerModelBreaker.configOf oneFailure)).reports
            epochsApart.perModelEpoch (failsThenSucceeds 6 17) ∧
      (CircuitBreaker.new oneFailure).reports epochsApart.plainEpoch
          (failsThenSucceeds 6 17) =
        (BreakerPhase.closed 0).reports oneFailure (failsThenSucceeds 6 17) :=
  reports_agree epochsApart (by decide) (by decide) (by decide) (by decide)
    (by decide) (by
      intro timed member
      simp only [failsThenSucceeds, List.mem_cons, List.not_mem_nil,
        or_false] at member
      rcases member with rfl | rfl <;> decide)

/-- A failure in the very nanosecond of an epoch is recorded one nanosecond
late, and a clock that is full starts again from zero. -/
theorem reports_differ :
    (Sequential epochsApart.created (failsThenSucceeds 5 16) ∧
      OffTimeout oneFailure id (.closed 0) (failsThenSucceeds 5 16) ∧
      (CircuitBreaker.new oneFailure).reports epochsApart.plainEpoch
          (failsThenSucceeds 5 16) ≠
        (PerModelBreaker.CircuitBreaker.new
          (PerModelBreaker.configOf oneFailure)).reports
            epochsApart.perModelEpoch (failsThenSucceeds 5 16)) ∧
    (Sequential epochsApart.created
        (failsThenSucceeds (2 ^ 64 + 2) (2 ^ 64 + 3)) ∧
      OffTimeout oneFailure id (.closed 0)
        (failsThenSucceeds (2 ^ 64 + 2) (2 ^ 64 + 3)) ∧
      (CircuitBreaker.new oneFailure).reports epochsApart.plainEpoch
          (failsThenSucceeds (2 ^ 64 + 2) (2 ^ 64 + 3)) ≠
        (PerModelBreaker.CircuitBreaker.new
          (PerModelBreaker.configOf oneFailure)).reports
            epochsApart.perModelEpoch
              (failsThenSucceeds (2 ^ 64 + 2) (2 ^ 64 + 3))) := by
  decide

end TorchInference
