import TorchInference.PredictAccounting

/-!
# When a client error leaves the breaker alone

A request that fails by a mistake of its client is reported to the breaker as a
success.  A success clears the failures counted so far, and it counts as a
proof of recovery while the breaker is half open.  A run is the same without
its client errors when each of them finds the breaker closed without counted
failures, or does not get past the breaker, the limiter or the cache.
-/

namespace TorchInference

open TransitionRuns

/-- A mistake of the client. -/
def isClientError : InferenceError → Bool
  | .invalidInput _ => true
  | .modelNotFound _ => true
  | .authenticationFailed _ => true
  | _ => false

/-- A request with the answer the engine has for it. -/
structure HandledRequest where
  request : PredictRequest
  outcome : Except InferenceError JsonValue

namespace HandledRequest

def isClientError (handled : HandledRequest) : Bool :=
  match handled.outcome with
  | .ok _ => false
  | .error e => TorchInference.isClientError e

/-- The request reaches the breaker. -/
def asksBreaker (handled : HandledRequest) : Bool :=
  handled.request.limited.isNone && handled.request.cached.isNone

end HandledRequest

theorem reportOf_clientError {handled : HandledRequest}
    (clientError : handled.isClientError) :
    reportOf handled.outcome = .recordSuccess := by
  unfold HandledRequest.isClientError at clientError
  split at clientError
  · cases clientError
  · next e isError =>
      rw [isError]
      cases e <;> first | rfl | cases clientError

namespace CircuitBreaker

/-- The breaker after a request of `/predict`. -/
def handle (breaker : CircuitBreaker) (handled : HandledRequest) :
    CircuitBreaker :=
  (predict breaker handled.request handled.outcome).breaker

/-- What the breaker decides about a request, if it is asked. -/
def admission (breaker : CircuitBreaker) (handled : HandledRequest) :
    Option Bool :=
  if handled.asksBreaker then
    some (breaker.tryAcquire handled.request.admittedAt).isOk
  else none

def step (breaker : CircuitBreaker) (handled : HandledRequest) :
    Option CircuitBreaker :=
  some (breaker.handle handled)

/-- The breaker does not notice the request: it is not asked, it rejects, or it
is closed and has counted no failure. -/
def Unaffected (breaker : CircuitBreaker) (handled : HandledRequest) : Prop :=
  handled.asksBreaker = false ∨
    breaker.state = .open_ ∧
      breaker.shouldRetry handled.request.admittedAt = false ∨
    breaker.state = .closed ∧ breaker.failureCount = 0

/-- Every client error finds a breaker that does not notice it. -/
def ClientErrorsUnaffecting (breaker : CircuitBreaker)
    (handled : HandledRequest) : Prop :=
  handled.isClientError → breaker.Unaffected handled

instance (breaker : CircuitBreaker) (handled : HandledRequest) :
    Decidable (breaker.Unaffected handled) :=
  inferInstanceAs (Decidable (_ ∨ _ ∧ _ ∨ _ ∧ _))

instance (breaker : CircuitBreaker) (handled : HandledRequest) :
    Decidable (breaker.ClientErrorsUnaffecting handled) :=
  inferInstanceAs (Decidable (_ → _))

variable {breaker : CircuitBreaker} {handled : HandledRequest}

theorem handle_of_not_asked (notAsked : handled.asksBreaker = false) :
    breaker.handle handled = breaker := by
  unfold handle predict
  split
  · rfl
  · next notLimited =>
      split
      · rfl
      · next notCached =>
          rw [HandledRequest.asksBreaker, notLimited, notCached] at notAsked
          cases notAsked

/-- An asked breaker rejects, or it is told about the outcome. -/
theorem handle_of_asked (asked : handled.asksBreaker) :
    breaker.handle handled =
      match breaker.tryAcquire handled.request.admittedAt with
      | .error _ => breaker
      | .ok admitted =>
          admitted.record (reportOf handled.outcome)
            handled.request.reportedAt := by
  rw [HandledRequest.asksBreaker, Bool.and_eq_true, Option.isNone_iff_eq_none,
    Option.isNone_iff_eq_none] at asked
  cases acquired : breaker.tryAcquire handled.request.admittedAt with
  | error msg => simp only [handle, predict, asked.1, asked.2, acquired]
  | ok admitted => simp only [handle, predict, asked.1, asked.2, acquired]

/-- A success changes a half open breaker. -/
theorem onSuccess_ne_of_halfOpen (halfOpen : breaker.state = .halfOpen) :
    breaker.onSuccess ≠ breaker := by
  intro same
  simp only [onSuccess, halfOpen] at same
  split_ifs at same
  · have state := congrArg CircuitBreaker.state same
    rw [halfOpen] at state
    cases state
  · have count := congrArg CircuitBreaker.successCount same
    have counted : (breaker.successCount + 1).toNat =
        breaker.successCount.toNat := congrArg UInt32.toNat count
    have small := breaker.successCount.toNat_lt
    rw [UInt32.toNat_add, UInt32.toNat_one] at counted
    omega

/-- A success never opens a breaker. -/
theorem onSuccess_state_ne_open (notOpen : breaker.state ≠ .open_) :
    breaker.onSuccess.state ≠ .open_ := by
  cases state : breaker.state with
  | open_ => exact absurd state notOpen
  | closed =>
      rw [onSuccess_of_closed state]
      exact notOpen
  | halfOpen =>
      simp only [onSuccess, state]
      split_ifs <;> simp

/-- A client error leaves the breaker as it is exactly when the breaker does
not notice it. -/
theorem handle_eq_self_iff (clientError : handled.isClientError) :
    breaker.handle handled = breaker ↔ breaker.Unaffected handled := by
  cases asked : handled.asksBreaker with
  | false =>
      exact ⟨fun _ => Or.inl asked, fun _ => handle_of_not_asked asked⟩
  | true =>
      rw [handle_of_asked asked, reportOf_clientError clientError]
      simp only [Unaffected, asked, Bool.true_eq_false, false_or]
      cases state : breaker.state with
      | closed =>
          rw [tryAcquire_of_closed state]
          change breaker.onSuccess = breaker ↔ _
          rw [onSuccess_of_closed state]
          constructor
          · intro same
            have count := congrArg CircuitBreaker.failureCount same
            exact Or.inr ⟨rfl, count.symm⟩
          · rintro (⟨isOpen, _⟩ | ⟨_, noFailure⟩)
            · cases isOpen
            · rw [← noFailure]
      | halfOpen =>
          have admitted : breaker.tryAcquire handled.request.admittedAt =
              .ok breaker := by
            simp [tryAcquire, state]
          rw [admitted]
          have changes : breaker.record .recordSuccess
              handled.request.reportedAt ≠ breaker :=
            onSuccess_ne_of_halfOpen state
          simpa using changes
      | open_ =>
          cases retry : breaker.shouldRetry handled.request.admittedAt with
          | false => simp [tryAcquire, state, retry]
          | true =>
              simp only [tryAcquire, state, retry, if_true, true_and,
                Bool.true_eq_false, reduceCtorEq, false_and, or_self,
                iff_false]
              intro same
              have notOpen : ({ breaker with state := .halfOpen } :
                  CircuitBreaker).onSuccess.state ≠ .open_ :=
                onSuccess_state_ne_open (by simp)
              apply notOpen
              exact (congrArg CircuitBreaker.state same).trans state

/-! ## Two runs -/

/-- What is seen of a request: the decision of the breaker and the breaker
afterwards. -/
structure Observation where
  handled : HandledRequest
  admission : Option Bool
  breaker : CircuitBreaker

/-- The observations of a run. -/
def observe : CircuitBreaker → List HandledRequest → List Observation
  | _, [] => []
  | breaker, handled :: requests =>
      ⟨handled, breaker.admission handled, breaker.handle handled⟩ ::
        observe (breaker.handle handled) requests

/-- The requests are handled one after the other. -/
def Chronological (requests : List HandledRequest) : Prop :=
  (∀ handled ∈ requests,
      handled.request.admittedAt ≤ handled.request.reportedAt) ∧
    requests.IsChain fun earlier later =>
      earlier.request.reportedAt ≤ later.request.admittedAt

/-- Deleting the client errors changes nothing for the other requests. -/
theorem observe_filter_of_unaffecting (config : CircuitBreakerConfig)
    (requests : List HandledRequest)
    (unaffecting : Meets step ClientErrorsUnaffecting (new config) requests) :
    (observe (new config) requests).filter
        (fun observation => !observation.handled.isClientError) =
      observe (new config)
        (requests.filter fun handled => !handled.isClientError) := by
  generalize new config = breaker at unaffecting ⊢
  induction requests generalizing breaker with
  | nil => rfl
  | cons handled requests ih =>
      obtain ⟨first, later⟩ := unaffecting
      have rest := ih (breaker.handle handled) later
      cases clientError : handled.isClientError with
      | true =>
          have same := (handle_eq_self_iff clientError).mpr (first clientError)
          rw [same] at rest
          simp only [observe, clientError, same, List.filter_cons,
            Bool.not_true, Bool.false_eq_true, if_false]
          exact rest
      | false =>
          simp only [observe, clientError, List.filter_cons, Bool.not_false,
            if_true, rest]

def failingRequest (now : Nat) : HandledRequest :=
  ⟨⟨"m", .null, none, none, now, now⟩, .error .timeout⟩

def mistakenRequest (now : Nat) : HandledRequest :=
  ⟨⟨"m", .null, none, none, now, now⟩, .error (.invalidInput "no")⟩

theorem earlyMistake_unaffecting :
    (observe (new CircuitBreakerConfig.default)
        [mistakenRequest 1, failingRequest 2]).filter
        (fun observation => !observation.handled.isClientError) =
      observe (new CircuitBreakerConfig.default)
        ([mistakenRequest 1, failingRequest 2].filter fun handled =>
          !handled.isClientError) :=
  observe_filter_of_unaffecting CircuitBreakerConfig.default
    [mistakenRequest 1, failingRequest 2]
    (by decide)

/-- Two timeouts open a breaker with a threshold of two, unless a client
mistake comes between them. -/
theorem mistake_hides_failures :
    ¬ ∀ (config : CircuitBreakerConfig) (requests : List HandledRequest),
      Chronological requests →
        ((observe (new config) requests).filter
          (fun observation => !observation.handled.isClientError)).map
            (fun observation => observation.breaker.state) =
          (observe (new config)
            (requests.filter fun handled => !handled.isClientError)).map
              (fun observation => observation.breaker.state) := by
  intro neutral
  have same := neutral ⟨2, 2, 60⟩
    [failingRequest 1, mistakenRequest 2, failingRequest 3]
    ⟨by decide, by decide⟩
  exact absurd same (by decide)

end CircuitBreaker

end TorchInference
