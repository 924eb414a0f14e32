import TorchInference.RateLimitWindow

/-!
# What a request costs its client

The middleware charges a request once.  The handler of `/predict` charges the
same limiter under the same key again, so each prediction costs two units.  The
first `max_requests` requests of a client all pass exactly when these units fit
into the budget of the window.
-/

namespace TorchInference

open SpendingBudget

/-- The units a request is charged. -/
def ServiceRequest.cost (request : ServiceRequest) : Nat :=
  if request.reachesPredict then 2 else 1

theorem ServiceRequest.cost_pos (request : ServiceRequest) :
    0 < request.cost := by
  unfold cost
  split_ifs <;> decide

theorem sum_cost (requests : List ServiceRequest) :
    (requests.map ServiceRequest.cost).sum =
      requests.length + requests.countP ServiceRequest.reachesPredict := by
  induction requests with
  | nil => rfl
  | cons request requests ih =>
      simp only [List.map_cons, List.sum_cons, ih, List.length_cons,
        List.countP_cons, ServiceRequest.cost]
      split_ifs <;> omega

namespace RateLimiter

variable {limiter : RateLimiter} {key : String} {now start : UInt64}

/-- Which requests the limiter lets through, in the assembled application. -/
def served (named : ForwardingHeaders → Option String) :
    RateLimiter → List ServiceRequest → List Bool
  | _, [] => []
  | limiter, request :: requests =>
      (limiter.serve named request).1 ::
        served named (limiter.serve named request).2 requests

/-- The handler asks the limiter about the peer. -/
theorem predictCheck_eq (limiter : RateLimiter) (request : ServiceRequest) :
    (limiter.predictCheck request).1.isNone =
        (limiter.isAllowed request.peerKey request.now).1.isOk ∧
      (limiter.predictCheck request).2 =
        (limiter.isAllowed request.peerKey request.now).2 := by
  unfold predictCheck
  split <;> rename_i answer <;> rw [answer] <;> exact ⟨rfl, rfl⟩

/-- A key that has used `used` units of the window that opens at `start`. -/
structure Account (maxRequests windowSeconds : UInt64) (key : String)
    (start : UInt64) (used : Nat) (limiter : RateLimiter) : Prop where
  maxRequests : limiter.maxRequests = maxRequests
  windowSeconds : limiter.windowSeconds = windowSeconds
  spent : limiter.Spent key used
  began : ∀ count timestamp,
    limiter.requestCounts key = some (count, timestamp) → timestamp = start

/-- A reading of the clock in the window, which an unused account opens. -/
structure InWindow (maxRequests windowSeconds start : UInt64) (used : Nat)
    (now : UInt64) : Prop where
  notBefore : start ≤ now
  recent : now.toNat ≤ start.toNat + windowSeconds.toNat
  opens : used = 0 → maxRequests = 0 ∨ now = start

namespace Account

variable {maxRequests windowSeconds : UInt64} {used : Nat}

/-- One charge of the limiter is one charge of the budget. -/
theorem charge
    (account : Account maxRequests windowSeconds key start used limiter)
    (inWindow : InWindow maxRequests windowSeconds start used now) :
    (limiter.isAllowed key now).1.isOk =
        (SpendingBudget.charge maxRequests.toNat used).1 ∧
      Account maxRequests windowSeconds key start
        (SpendingBudget.charge maxRequests.toNat used).2
        (limiter.isAllowed key now).2 := by
  obtain ⟨rfl, rfl, spent, began⟩ := account
  have within : limiter.WithinWindow key now := by
    intro count timestamp stored
    obtain rfl := began count timestamp stored
    exact ⟨inWindow.notBefore, inWindow.recent⟩
  obtain ⟨granted, spentAfter⟩ := isAllowed_eq_charge spent within
  obtain ⟨sameLimit, sameWindow⟩ := limiter.isAllowed_config key now
  refine ⟨granted, sameLimit, sameWindow, spentAfter, ?_⟩
  intro count timestamp stored
  rcases isAllowed_timestamp within stored with
    ⟨rfl, fresh, room⟩ | ⟨earlier, known⟩
  · have unused : used = 0 := by simpa [Spent, fresh] using spent
    rcases inWindow.opens unused with empty | opening
    · rw [empty] at room
      exact absurd room (by decide)
    · exact opening
  · exact began earlier timestamp known

/-- The middleware charges the account of the peer. -/
theorem call {named : ForwardingHeaders → Option String}
    {request : ServiceRequest}
    (account : Account maxRequests windowSeconds request.peerKey start used
      limiter)
    (inWindow : InWindow maxRequests windowSeconds start used request.now)
    (namesNothing : named request.headers = none)
    (charged : request.isExempt = false) :
    (limiter.call named request).1.isNone =
        (SpendingBudget.charge maxRequests.toNat used).1 ∧
      Account maxRequests windowSeconds request.peerKey start
        (SpendingBudget.charge maxRequests.toNat used).2
        (limiter.call named request).2 := by
  have ownKey : request.realipKey named = request.peerKey := by
    simp [ServiceRequest.realipKey, ServiceRequest.peerKey, namesNothing]
  obtain ⟨reached, after⟩ := limiter.call_of_charged named charged
  rw [reached, after, ownKey]
  exact account.charge inWindow

/-- The handler charges the same account again. -/
theorem predictCheck {request : ServiceRequest}
    (account : Account maxRequests windowSeconds request.peerKey start used
      limiter)
    (inWindow : InWindow maxRequests windowSeconds start used request.now) :
    (limiter.predictCheck request).1.isNone =
        (SpendingBudget.charge maxRequests.toNat used).1 ∧
      Account maxRequests windowSeconds request.peerKey start
        (SpendingBudget.charge maxRequests.toNat used).2
        (limiter.predictCheck request).2 := by
  obtain ⟨passed, after⟩ := limiter.predictCheck_eq request
  rw [passed, after]
  exact account.charge inWindow

/-- A request spends its cost from the account of its peer. -/
theorem serve {named : ForwardingHeaders → Option String}
    {request : ServiceRequest}
    (account : Account maxRequests windowSeconds request.peerKey start used
      limiter)
    (inWindow : InWindow maxRequests windowSeconds start used request.now)
    (namesNothing : named request.headers = none)
    (charged : request.isExempt = false) :
    (limiter.serve named request).1 =
        (spend maxRequests.toNat used request.cost).1 ∧
      Account maxRequests windowSeconds request.peerKey start
        (spend maxRequests.toNat used request.cost).2
        (limiter.serve named request).2 := by
  obtain ⟨reached, accountAfter⟩ := account.call inWindow namesNothing charged
  unfold RateLimiter.serve
  cases response : limiter.call named request with
  | mk rejection limiterAfter =>
      rw [response] at reached accountAfter
      cases rejection with
      | some limited =>
          obtain ⟨rest, hasCost⟩ : ∃ rest, request.cost = rest + 1 :=
            ⟨request.cost - 1, by have := request.cost_pos; omega⟩
          rw [hasCost, spend_of_refused reached.symm]
          exact ⟨rfl, accountAfter⟩
      | none =>
          have allowed := reached.symm
          cases dispatched : request.reachesPredict with
          | false =>
              have cost : request.cost = 0 + 1 := by
                simp [ServiceRequest.cost, dispatched]
              rw [cost, spend_of_granted allowed]
              exact ⟨rfl, accountAfter⟩
          | true =>
              have cost : request.cost = 0 + 1 + 1 := by
                simp [ServiceRequest.cost, dispatched]
              have windowAfter : InWindow maxRequests windowSeconds start
                  (SpendingBudget.charge maxRequests.toNat used).2
                  request.now := by
                refine ⟨inWindow.notBefore, inWindow.recent, fun unused => ?_⟩
                rw [charge_of_granted allowed] at unused
                cases unused
              obtain ⟨passed, accountLast⟩ :=
                accountAfter.predictCheck windowAfter
              rw [cost, spend_of_granted allowed]
              simp only [if_true]
              cases answer : (SpendingBudget.charge maxRequests.toNat
                  (SpendingBudget.charge maxRequests.toNat used).2).1 with
              | false =>
                  rw [spend_of_refused answer]
                  exact ⟨passed.trans answer, accountLast⟩
              | true =>
                  rw [spend_of_granted answer]
                  exact ⟨passed.trans answer, accountLast⟩

end Account

/-- Requests of one client within the window its first request opens: one peer,
no forwarding headers and no probes. -/
structure OneClient (client : Option String) (windowSeconds : UInt64)
    (requests : List ServiceRequest) : Prop where
  peerAddr : ∀ request ∈ requests, request.peerAddr = client
  headers : ∀ request ∈ requests, request.headers = ⟨none, none⟩
  charged : ∀ request ∈ requests, request.isExempt = false
  inWindow : ∀ first ∈ requests.head?, ∀ request ∈ requests,
    first.now ≤ request.now ∧
      request.now.toNat ≤ first.now.toNat + windowSeconds.toNat

section OneClient

variable {named : ForwardingHeaders → Option String} {client : Option String}
  {maxRequests windowSeconds : UInt64} {used : Nat}

/-- The application answers a client as its budget does. -/
theorem served_eq_answers {requests : List ServiceRequest}
    (account : Account maxRequests windowSeconds (client.getD "unknown") start
      used limiter)
    (namesNothing : named ⟨none, none⟩ = none)
    (peerAddr : ∀ request ∈ requests, request.peerAddr = client)
    (headers : ∀ request ∈ requests, request.headers = ⟨none, none⟩)
    (charged : ∀ request ∈ requests, request.isExempt = false)
    (inWindow : ∀ request ∈ requests, start ≤ request.now ∧
      request.now.toNat ≤ start.toNat + windowSeconds.toNat)
    (opens : ∀ first ∈ requests.head?,
      used = 0 → maxRequests = 0 ∨ first.now = start) :
    served named limiter requests =
      answers maxRequests.toNat used (requests.map ServiceRequest.cost) := by
  induction requests generalizing limiter used with
  | nil => rfl
  | cons request requests ih =>
      have here : request ∈ request :: requests := List.mem_cons_self
      have key : client.getD "unknown" = request.peerKey := by
        rw [ServiceRequest.peerKey, peerAddr request here]
      have window : InWindow maxRequests windowSeconds start used request.now :=
        ⟨(inWindow request here).1, (inWindow request here).2,
          opens request rfl⟩
      have silent : named request.headers = none := by
        rw [headers request here, namesNothing]
      have within := account.spent.le
      rw [account.maxRequests] at within
      obtain ⟨answer, after⟩ :=
        (key ▸ account).serve window silent (charged request here)
      rw [served, List.map_cons, answers, answer,
        ih (key ▸ after) (fun later member => peerAddr later (.tail _ member))
          (fun later member => headers later (.tail _ member))
          (fun later member => charged later (.tail _ member))
          (fun later member => inWindow later (.tail _ member))]
      -- Only an empty budget is unused after a charge.
      intro later _ unused
      rw [spend_eq within] at unused
      have pays := request.cost_pos
      left
      apply UInt64.toNat_inj.mp
      rw [UInt64.toNat_zero]
      omega

/-- Within one window, exactly the first `maxRequests` requests of a client are
let through when these, with one more unit for each prediction among them, fit
into the budget. -/
theorem firstGranted_iff_unitsFit (named : ForwardingHeaders → Option String)
    (maxRequests windowSeconds : UInt64) (client : Option String)
    (requests : List ServiceRequest)
    (namesNothing : named ⟨none, none⟩ = none)
    (oneClient : OneClient client windowSeconds requests) :
    FirstGranted maxRequests.toNat
        (served named (new maxRequests windowSeconds) requests) ↔
      (requests.take maxRequests.toNat).length +
          (requests.take maxRequests.toNat).countP
            ServiceRequest.reachesPredict ≤ maxRequests.toNat := by
  obtain ⟨peerAddr, headers, charged, inWindow⟩ := oneClient
  have answered : served named (new maxRequests windowSeconds) requests =
      answers maxRequests.toNat 0 (requests.map ServiceRequest.cost) := by
    cases requests with
    | nil => rfl
    | cons first requests =>
        have fresh : Account maxRequests windowSeconds
            (client.getD "unknown") first.now 0
            (new maxRequests windowSeconds) :=
          ⟨rfl, rfl, by simp [Spent, new], by simp [new]⟩
        refine served_eq_answers fresh namesNothing peerAddr headers charged
          (inWindow first rfl) ?_
        rintro _ ⟨rfl⟩ _
        exact Or.inr rfl
  have positive : ∀ cost ∈ requests.map ServiceRequest.cost, 0 < cost := by
    intro cost member
    obtain ⟨request, _, rfl⟩ := List.mem_map.mp member
    exact request.cost_pos
  rw [answered, firstGranted_iff (Nat.zero_le _) (Nat.sub_le _ _) positive,
    ← List.map_take, sum_cost, Nat.sub_zero]

/-- A request of one peer that reads the model list. -/
def listRequest (now : UInt64) : ServiceRequest :=
  ⟨"GET", "/models", some "10.0.0.1", ⟨none, none⟩, false, now⟩

/-- A limit of two admits two requests for the model list and no third. -/
theorem threeLists_firstTwoGranted :
    FirstGranted 2 (served ForwardingHeaders.xForwardedFor (new 2 60)
      [listRequest 5, listRequest 6, listRequest 7]) :=
  (firstGranted_iff_unitsFit ForwardingHeaders.xForwardedFor 2 60
    (some "10.0.0.1") [listRequest 5, listRequest 6, listRequest 7] rfl
    ⟨by decide, by decide, by decide, by decide⟩).mpr (by decide)

/-- A limit of two refuses the second of two predictions. -/
theorem secondPrediction_refused :
    ¬ ∀ (named : ForwardingHeaders → Option String)
      (maxRequests windowSeconds : UInt64) (client : Option String)
      (requests : List ServiceRequest),
      named ⟨none, none⟩ = none → OneClient client windowSeconds requests →
        FirstGranted maxRequests.toNat
          (served named (new maxRequests windowSeconds) requests) := by
  intro once
  have granted := once ForwardingHeaders.xForwardedFor 2 60 (some "10.0.0.1")
    [requestFrom "10.0.0.1" none 5, requestFrom "10.0.0.1" none 6] rfl
    ⟨by decide, by decide, by decide, by decide⟩
  have second := granted 1 false (by decide)
  exact absurd second (by decide)

end OneClient

end RateLimiter

end TorchInference
