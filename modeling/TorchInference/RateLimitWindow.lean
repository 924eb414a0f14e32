import TorchInference.RateLimiter
import TorchInference.SpendingBudget
import TorchInference.TransitionRuns

/-!
# The rate limit of a peer within one window

Within a window the limiter spends a budget for each key, and one key never
touches the budget of another.  The middleware derives the key from headers the
client writes, so a peer keeps to its own budget exactly as long as its headers
name no other address.  The clock is a wall clock; a reading before the start
of a key's window would wrap around and start a new one.
-/

namespace TorchInference

open TransitionRuns SpendingBudget

namespace RateLimiter

variable {limiter other : RateLimiter} {key : String} {now : UInt64}

@[simp]
theorem withEntry_self (entry : UInt64 × UInt64) :
    (limiter.withEntry key entry).requestCounts key = some entry := by
  simp [withEntry]

theorem withEntry_of_ne {entry : UInt64 × UInt64} {otherKey : String}
    (different : otherKey ≠ key) :
    (limiter.withEntry key entry).requestCounts otherKey =
      limiter.requestCounts otherKey := by
  simp [withEntry, different]

theorem isAllowed_cases (limiter : RateLimiter) (key : String) (now : UInt64) :
    (limiter.isAllowed key now).2 = limiter ∨
      ∃ entry, (limiter.isAllowed key now).2 = limiter.withEntry key entry := by
  unfold isAllowed
  split
  · split_ifs
    · exact Or.inr ⟨_, rfl⟩
    · exact Or.inr ⟨_, rfl⟩
    · exact Or.inl rfl
  · split_ifs
    · exact Or.inr ⟨_, rfl⟩
    · exact Or.inl rfl

/-- Charging a key keeps the configuration. -/
theorem isAllowed_config (limiter : RateLimiter) (key : String)
    (now : UInt64) :
    (limiter.isAllowed key now).2.maxRequests = limiter.maxRequests ∧
      (limiter.isAllowed key now).2.windowSeconds = limiter.windowSeconds := by
  rcases limiter.isAllowed_cases key now with same | ⟨entry, stored⟩
  · rw [same]
    exact ⟨rfl, rfl⟩
  · rw [stored]
    exact ⟨rfl, rfl⟩

/-- Charging a key leaves every other key alone. -/
theorem isAllowed_of_ne {otherKey : String} (different : otherKey ≠ key) :
    (limiter.isAllowed key now).2.requestCounts otherKey =
      limiter.requestCounts otherKey := by
  rcases limiter.isAllowed_cases key now with same | ⟨entry, stored⟩
  · rw [same]
  · rw [stored, withEntry_of_ne different]

/-! ## One key as a budget -/

/-- The key has used `used` units of its window, if it has one. -/
def Spent (limiter : RateLimiter) (key : String) (used : Nat) : Prop :=
  match limiter.requestCounts key with
  | none => used = 0
  | some (count, _) => count.toNat = used ∧ used ≤ limiter.maxRequests.toNat

/-- The clock reads a time within the window of the key, if it has one. -/
def WithinWindow (limiter : RateLimiter) (key : String) (now : UInt64) :
    Prop :=
  ∀ count timestamp, limiter.requestCounts key = some (count, timestamp) →
    timestamp ≤ now ∧ now.toNat ≤ timestamp.toNat + limiter.windowSeconds.toNat

theorem not_expired {timestamp window : UInt64} (started : timestamp ≤ now)
    (recent : now.toNat ≤ timestamp.toNat + window.toNat) :
    ¬ window < now - timestamp := by
  rw [UInt64.lt_iff_toNat_lt, UInt64.toNat_sub_of_le _ _ started]
  omega

theorem Spent.le {used : Nat} (spent : limiter.Spent key used) :
    used ≤ limiter.maxRequests.toNat := by
  unfold Spent at spent
  split at spent
  · omega
  · exact spent.2

theorem spent_withEntry {count timestamp : UInt64}
    (small : count ≤ limiter.maxRequests) :
    (limiter.withEntry key (count, timestamp)).Spent key count.toNat := by
  unfold Spent
  rw [withEntry_self]
  exact ⟨rfl, UInt64.le_iff_toNat_le.mp small⟩

/-- Within its window a key is charged like a budget. -/
theorem isAllowed_eq_charge {used : Nat} (spent : limiter.Spent key used)
    (within : limiter.WithinWindow key now) :
    (limiter.isAllowed key now).1.isOk =
        (charge limiter.maxRequests.toNat used).1 ∧
      (limiter.isAllowed key now).2.Spent key
        (charge limiter.maxRequests.toNat used).2 := by
  unfold isAllowed charge
  cases known : limiter.requestCounts key with
  | none =>
      have unused : used = 0 := by simpa [Spent, known] using spent
      by_cases room : 0 < limiter.maxRequests
      · have positive := UInt64.lt_iff_toNat_lt.mp room
        rw [UInt64.toNat_zero] at positive
        simp only [unused, if_pos room, if_pos positive]
        refine ⟨rfl, spent_withEntry ?_⟩
        rw [UInt64.le_iff_toNat_le, UInt64.toNat_one]
        exact positive
      · have none_ : ¬ 0 < limiter.maxRequests.toNat := by
          rw [UInt64.lt_iff_toNat_lt, UInt64.toNat_zero] at room
          exact room
        simp only [unused, if_neg room, if_neg none_]
        exact ⟨rfl, by simp [Spent, known]⟩
  | some entry =>
      obtain ⟨count, timestamp⟩ := entry
      obtain ⟨started, recent⟩ := within count timestamp known
      have counted : count.toNat = used ∧
          used ≤ limiter.maxRequests.toNat := by
        simpa [Spent, known] using spent
      simp only [if_neg (not_expired started recent)]
      by_cases room : count < limiter.maxRequests
      · have smaller := UInt64.lt_iff_toNat_lt.mp room
        rw [counted.1] at smaller
        have exact_ : (count + 1).toNat = used + 1 := by
          have bound := limiter.maxRequests.toNat_lt
          rw [UInt64.toNat_add, UInt64.toNat_one, counted.1]
          omega
        simp only [if_pos room, if_pos smaller]
        refine ⟨rfl, exact_ ▸ spent_withEntry ?_⟩
        rw [UInt64.le_iff_toNat_le, exact_]
        exact smaller
      · have full : ¬ used < limiter.maxRequests.toNat := by
          rw [UInt64.lt_iff_toNat_lt, counted.1] at room
          exact room
        simp only [if_neg room, if_neg full]
        exact ⟨rfl, spent⟩

/-- A charge within the window keeps the start of the window, or starts the
first one. -/
theorem isAllowed_timestamp (within : limiter.WithinWindow key now)
    {count timestamp : UInt64}
    (stored : (limiter.isAllowed key now).2.requestCounts key =
      some (count, timestamp)) :
    (timestamp = now ∧ limiter.requestCounts key = none ∧
        0 < limiter.maxRequests) ∨
      ∃ earlier, limiter.requestCounts key = some (earlier, timestamp) := by
  unfold isAllowed at stored
  cases known : limiter.requestCounts key with
  | none =>
      simp only [known] at stored
      split_ifs at stored with room
      · simp only [withEntry_self, Option.some.injEq, Prod.mk.injEq] at stored
        exact Or.inl ⟨stored.2.symm, rfl, room⟩
      · rw [known] at stored
        cases stored
  | some entry =>
      obtain ⟨earlier, started⟩ := entry
      obtain ⟨before, recent⟩ := within earlier started known
      simp only [known, if_neg (not_expired before recent)] at stored
      right
      split_ifs at stored
      · simp only [withEntry_self, Option.some.injEq, Prod.mk.injEq] at stored
        exact ⟨earlier, by rw [stored.2]⟩
      · rw [known, Option.some.injEq, Prod.mk.injEq] at stored
        exact ⟨earlier, by rw [stored.2]⟩

/-! ## The middleware over a sequence of requests -/

/-- The same limit, and the same entry for a key. -/
structure AgreesAt (key : String) (limiter other : RateLimiter) : Prop where
  requestCounts : limiter.requestCounts key = other.requestCounts key
  maxRequests : limiter.maxRequests = other.maxRequests
  windowSeconds : limiter.windowSeconds = other.windowSeconds

/-- What a key is answered depends on its entry only. -/
theorem AgreesAt.isAllowed (agrees : AgreesAt key limiter other)
    (now : UInt64) :
    (limiter.isAllowed key now).1 = (other.isAllowed key now).1 ∧
      AgreesAt key (limiter.isAllowed key now).2
        (other.isAllowed key now).2 := by
  obtain ⟨requestCounts, maxRequests, windowSeconds⟩ := agrees
  unfold RateLimiter.isAllowed
  rw [requestCounts, maxRequests, windowSeconds]
  split
  · split_ifs
    all_goals
      refine ⟨rfl, ?_, ?_, ?_⟩ <;>
      simp [withEntry, requestCounts, maxRequests, windowSeconds]
  · split_ifs
    all_goals
      refine ⟨rfl, ?_, ?_, ?_⟩ <;>
      simp [withEntry, requestCounts, maxRequests, windowSeconds]

section Middleware

variable (named : ForwardingHeaders → Option String)

/-- The limiter after one request. -/
def step (limiter : RateLimiter) (request : ServiceRequest) :
    Option RateLimiter :=
  some (limiter.call named request).2

/-- Whether each request reaches the inner service. -/
def observe : RateLimiter → List ServiceRequest → List (ServiceRequest × Bool)
  | _, [] => []
  | limiter, request :: requests =>
      (request, (limiter.call named request).1.isNone) ::
        observe (limiter.call named request).2 requests

/-- The request is charged to its own peer, by a clock that does not read
before the start of the peer's window. -/
def OwnBucket (limiter : RateLimiter) (request : ServiceRequest) : Prop :=
  request.isExempt = false →
    request.realipKey named = request.peerKey ∧
      ∀ count timestamp,
        limiter.requestCounts request.peerKey = some (count, timestamp) →
          timestamp ≤ request.now

/-- A charged request of the peer that reaches the inner service. -/
def isPassOf (peer : String) (observation : ServiceRequest × Bool) : Bool :=
  !observation.1.isExempt && observation.1.peerKey == peer && observation.2

variable {named}

theorem call_of_exempt {request : ServiceRequest} (exempt : request.isExempt) :
    limiter.call named request = (none, limiter) := by
  simp [call, exempt]

/-- A charged request is answered by the limiter. -/
theorem call_of_charged (limiter : RateLimiter)
    (named : ForwardingHeaders → Option String) {request : ServiceRequest}
    (charged : request.isExempt = false) :
    (limiter.call named request).1.isNone =
        (limiter.isAllowed (request.realipKey named) request.now).1.isOk ∧
      (limiter.call named request).2 =
        (limiter.isAllowed (request.realipKey named) request.now).2 := by
  unfold call
  rw [charged]
  simp only [Bool.false_eq_true, if_false]
  split <;> rename_i answer <;> rw [answer] <;> exact ⟨rfl, rfl⟩

theorem call_config (limiter : RateLimiter)
    (named : ForwardingHeaders → Option String) (request : ServiceRequest) :
    (limiter.call named request).2.maxRequests = limiter.maxRequests ∧
      (limiter.call named request).2.windowSeconds = limiter.windowSeconds := by
  cases exempt : request.isExempt with
  | true =>
      rw [call_of_exempt exempt]
      exact ⟨rfl, rfl⟩
  | false =>
      rw [(call_of_charged _ _ exempt).2]
      exact isAllowed_config _ _ _

/-- A request leaves the entries of other peers alone. -/
theorem call_of_ne {request : ServiceRequest} {peer : String}
    (own : OwnBucket named limiter request) (different : request.peerKey ≠ peer) :
    (limiter.call named request).2.requestCounts peer =
      limiter.requestCounts peer := by
  cases exempt : request.isExempt with
  | true => rw [call_of_exempt exempt]
  | false =>
      have ownKey := (own exempt).1
      rw [(call_of_charged _ _ exempt).2, ownKey]
      exact isAllowed_of_ne (Ne.symm different)

/-- Limiters that agree at the key of a request answer it in the same way. -/
theorem AgreesAt.call {request : ServiceRequest}
    (agrees : AgreesAt key limiter other)
    (keyed : request.isExempt = false → request.realipKey named = key) :
    (limiter.call named request).1.isNone =
        (other.call named request).1.isNone ∧
      AgreesAt key (limiter.call named request).2
        (other.call named request).2 := by
  cases exempt : request.isExempt with
  | true =>
      rw [call_of_exempt exempt, call_of_exempt exempt]
      exact ⟨rfl, agrees⟩
  | false =>
      obtain ⟨answer, after⟩ := limiter.call_of_charged named exempt
      obtain ⟨otherAnswer, otherAfter⟩ := call_of_charged other named exempt
      rw [answer, otherAnswer, after, otherAfter, keyed exempt]
      obtain ⟨same, agreesAfter⟩ := agrees.isAllowed request.now
      exact ⟨congrArg Except.isOk same, agreesAfter⟩

/-- What a peer is answered does not depend on the other peers. -/
theorem observe_filter_of_agrees {peer : String} {requests : List ServiceRequest}
    (agrees : AgreesAt peer limiter other)
    (own : Meets (step named) (OwnBucket named) limiter requests) :
    (observe named limiter requests).filter (fun o => o.1.peerKey == peer) =
      observe named other
        (requests.filter fun request => request.peerKey == peer) := by
  induction requests generalizing limiter other with
  | nil => rfl
  | cons request requests ih =>
      obtain ⟨ownHere, ownLater⟩ := own
      by_cases same : request.peerKey = peer
      · have isPeer : (request.peerKey == peer) = true := by simp [same]
        simp only [observe, List.filter_cons, isPeer, if_true]
        obtain ⟨answer, after⟩ := agrees.call
          fun exempt => (ownHere exempt).1.trans same
        rw [answer, ih after ownLater]
      · have notPeer : (request.peerKey == peer) = false := by simp [same]
        simp only [observe, List.filter_cons, notPeer, Bool.false_eq_true,
          if_false]
        apply ih _ ownLater
        obtain ⟨maxRequests, windowSeconds⟩ :=
          limiter.call_config named request
        exact ⟨(call_of_ne ownHere same).trans agrees.requestCounts,
          maxRequests.trans agrees.maxRequests,
          windowSeconds.trans agrees.windowSeconds⟩

/-- A charged request spends one unit of its own peer's budget, and leaves the
start of the peer's window in the window. -/
theorem call_spends {request : ServiceRequest} {start : UInt64} {used : Nat}
    (charged : request.isExempt = false) (own : OwnBucket named limiter request)
    (spent : limiter.Spent request.peerKey used)
    (started : ∀ count timestamp,
      limiter.requestCounts request.peerKey = some (count, timestamp) →
        start ≤ timestamp)
    (inWindow : start ≤ request.now ∧
      request.now.toNat ≤ start.toNat + limiter.windowSeconds.toNat) :
    (limiter.call named request).1.isNone =
        (charge limiter.maxRequests.toNat used).1 ∧
      (limiter.call named request).2.Spent request.peerKey
        (charge limiter.maxRequests.toNat used).2 ∧
      ∀ count timestamp,
        (limiter.call named request).2.requestCounts request.peerKey =
          some (count, timestamp) → start ≤ timestamp := by
  obtain ⟨answer, after⟩ := limiter.call_of_charged named charged
  obtain ⟨ownKey, ownClock⟩ := own charged
  have within : limiter.WithinWindow request.peerKey request.now := by
    intro count timestamp known
    have opened := UInt64.le_iff_toNat_le.mp (started count timestamp known)
    have recent := inWindow.2
    exact ⟨ownClock count timestamp known, by omega⟩
  obtain ⟨granted, spentAfter⟩ := isAllowed_eq_charge spent within
  rw [answer, after, ownKey]
  refine ⟨granted, spentAfter, ?_⟩
  intro count timestamp stored
  rcases isAllowed_timestamp within stored with ⟨rfl, _⟩ | ⟨earlier, known⟩
  · exact inWindow.1
  · exact started earlier timestamp known

/-- Within one window a peer's requests that reach the inner service are paid
from its budget. -/
theorem passes_le {peer : String} {start : UInt64} {used : Nat}
    {requests : List ServiceRequest} (spent : limiter.Spent peer used)
    (started : ∀ count timestamp,
      limiter.requestCounts peer = some (count, timestamp) → start ≤ timestamp)
    (inWindow : ∀ request ∈ requests, start ≤ request.now ∧
      request.now.toNat ≤ start.toNat + limiter.windowSeconds.toNat)
    (own : Meets (step named) (OwnBucket named) limiter requests) :
    used + (observe named limiter requests).countP (isPassOf peer) ≤
      limiter.maxRequests.toNat := by
  induction requests generalizing limiter used with
  | nil =>
      simp only [observe, List.countP_nil, Nat.add_zero]
      exact spent.le
  | cons request requests ih =>
      obtain ⟨ownHere, ownLater⟩ := own
      obtain ⟨maxRequests, windowSeconds⟩ :=
        limiter.call_config named request
      have windowLater : ∀ later ∈ requests, start ≤ later.now ∧
          later.now.toNat ≤ start.toNat +
            (limiter.call named request).2.windowSeconds.toNat := by
        rw [windowSeconds]
        exact fun later member => inWindow later (List.mem_cons_of_mem _ member)
      have later : ∀ usedAfter : Nat,
          (limiter.call named request).2.Spent peer usedAfter →
            (∀ count timestamp,
              (limiter.call named request).2.requestCounts peer =
                some (count, timestamp) → start ≤ timestamp) →
              usedAfter + (observe named (limiter.call named request).2
                requests).countP (isPassOf peer) ≤
                limiter.maxRequests.toNat := by
        intro _ spentAfter startedAfter
        rw [← maxRequests]
        exact ih spentAfter startedAfter windowLater ownLater
      simp only [observe, List.countP_cons]
      cases exempt : request.isExempt with
      | true =>
          rw [call_of_exempt exempt] at later ⊢
          simpa [isPassOf, exempt] using later used spent started
      | false =>
          by_cases same : request.peerKey = peer
          · subst same
            obtain ⟨answer, spentAfter, startedAfter⟩ := call_spends exempt
              ownHere spent started (inWindow request List.mem_cons_self)
            have bound := later _ spentAfter startedAfter
            simp only [isPassOf, exempt, answer, beq_self_eq_true,
              Bool.not_false, Bool.true_and]
            by_cases room : used < limiter.maxRequests.toNat
            · simp only [charge, if_pos room, if_true] at bound ⊢
              omega
            · simp only [charge, if_neg room, Bool.false_eq_true, if_false]
                at bound ⊢
              exact bound
          · have entry := call_of_ne ownHere same
            have bound := later used
              (by rwa [Spent, entry, maxRequests]) (by rwa [entry])
            have otherPeer : (request.peerKey == peer) = false := by
              simp [same]
            simpa [isPassOf, otherPeer] using bound

/-- When every charged request is keyed by its own peer, at most `maxRequests`
requests of a peer reach the inner service within a window, and what a peer is
answered does not depend on the requests of the others. -/
theorem perPeer_of_ownBucket (named : ForwardingHeaders → Option String)
    (maxRequests windowSeconds start : UInt64) (requests : List ServiceRequest)
    (inWindow : ∀ request ∈ requests, start ≤ request.now ∧
      request.now.toNat ≤ start.toNat + windowSeconds.toNat)
    (own : Meets (step named) (OwnBucket named) (new maxRequests windowSeconds)
      requests) :
    (∀ peer, (observe named (new maxRequests windowSeconds) requests).countP
        (isPassOf peer) ≤ maxRequests.toNat) ∧
      ∀ peer,
        (observe named (new maxRequests windowSeconds) requests).filter
            (fun observation => observation.1.peerKey == peer) =
          observe named (new maxRequests windowSeconds)
            (requests.filter fun request => request.peerKey == peer) := by
  constructor
  · intro peer
    have spent : (new maxRequests windowSeconds).Spent peer 0 := by
      simp [Spent, new]
    have bound := passes_le spent (by simp [new]) inWindow own
    rwa [Nat.zero_add] at bound
  · intro peer
    exact observe_filter_of_agrees ⟨rfl, rfl, rfl⟩ own

/-- A request with an `X-Forwarded-For` header of one address, or none. -/
def requestFrom (peer : String) (xForwardedFor : Option String)
    (now : UInt64) : ServiceRequest :=
  ⟨"POST", "/predict", some peer, ⟨none, xForwardedFor⟩, true, now⟩

theorem plainRequests_perPeer :
    (∀ peer, (observe ForwardingHeaders.xForwardedFor (new 1 60)
        [requestFrom "10.0.0.1" none 5, requestFrom "10.0.0.2" none 6]).countP
          (isPassOf peer) ≤ 1) ∧
      ∀ peer,
        (observe ForwardingHeaders.xForwardedFor (new 1 60)
            [requestFrom "10.0.0.1" none 5,
              requestFrom "10.0.0.2" none 6]).filter
            (fun observation => observation.1.peerKey == peer) =
          observe ForwardingHeaders.xForwardedFor (new 1 60)
            ([requestFrom "10.0.0.1" none 5,
              requestFrom "10.0.0.2" none 6].filter fun request =>
                request.peerKey == peer) :=
  perPeer_of_ownBucket ForwardingHeaders.xForwardedFor 1 60 5
    [requestFrom "10.0.0.1" none 5, requestFrom "10.0.0.2" none 6]
    (by decide)
    (by
      refine ⟨fun _ => ⟨rfl, ?_⟩, fun _ => ⟨rfl, ?_⟩, trivial⟩
      · rintro count timestamp ⟨⟩
      · rintro count timestamp ⟨⟩)

/-- One peer gets past a limit of one by naming another address each time. -/
theorem forwardedPeer_escapes_limit :
    ¬ ∀ (named : ForwardingHeaders → Option String)
      (maxRequests windowSeconds start : UInt64)
      (requests : List ServiceRequest),
      (∀ request ∈ requests, start ≤ request.now ∧
        request.now.toNat ≤ start.toNat + windowSeconds.toNat) →
        ∀ peer,
          (observe named (new maxRequests windowSeconds) requests).countP
            (isPassOf peer) ≤ maxRequests.toNat := by
  intro limited
  have bound := limited ForwardingHeaders.xForwardedFor 1 60 5
    [requestFrom "10.0.0.1" (some "203.0.113.1") 5,
      requestFrom "10.0.0.1" (some "203.0.113.2") 6]
    (by decide) "10.0.0.1"
  exact absurd bound (by decide)

end Middleware

end RateLimiter

end TorchInference
