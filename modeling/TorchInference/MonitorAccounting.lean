import Mathlib.Algebra.Order.BigOperators.Group.List
import Mathlib.Algebra.Order.Ring.Nat
import Mathlib.Tactic.FinCases
import TorchInference.Monitor

/-!
# Accounts of the request monitor

Each update of a call is owed until it is made.  The number of active requests
is that of the open ones and of those whose end has still to leave; what has
been processed and what has failed agrees with the endpoints up to the updates
that are owed.  A reset breaks the first account when a request is active.
-/

namespace TorchInference

open TransitionRuns

namespace MonitorUpdate

def leaves : MonitorUpdate → Nat
  | .leave => 1
  | _ => 0

def processes : MonitorUpdate → Nat
  | .countProcessed => 1
  | _ => 0

def tracks : MonitorUpdate → Nat
  | .findEndpoint _ | .insertEndpoint _ => 1
  | _ => 0

def failures : MonitorUpdate → Nat
  | .findEndpoint outcome | .insertEndpoint outcome =>
      if outcome.success then 0 else 1
  | _ => 0

def errorCounts : MonitorUpdate → Nat
  | .countError => 1
  | _ => 0

def clears : MonitorUpdate → Nat
  | .clearRequests | .clearErrors | .clearProcessed | .clearActive
  | .clearLatency | .clearMin | .clearMax | .clearShard _ => 1
  | _ => 0

/-- What the updates of a call amount to in one respect. -/
def owed (weight : MonitorUpdate → Nat) (updates : List MonitorUpdate) : Nat :=
  (updates.map weight).sum

variable (weight : MonitorUpdate → Nat)

@[simp]
theorem owed_nil : owed weight [] = 0 :=
  rfl

@[simp]
theorem owed_cons (update : MonitorUpdate) (rest : List MonitorUpdate) :
    owed weight (update :: rest) = weight update + owed weight rest := by
  rw [owed, List.map_cons, List.sum_cons]
  rfl

@[simp]
theorem owed_append (front back : List MonitorUpdate) :
    owed weight (front ++ back) = owed weight front + owed weight back := by
  rw [owed, List.map_append, List.sum_append]
  rfl

/-- A call counts a request as processed before it counts it for its endpoint,
and counts its failure for the endpoint before the failure itself. -/
def InOrder : List MonitorUpdate → Prop
  | [] => True
  | update :: rest =>
      (owed processes (update :: rest) ≤ owed tracks (update :: rest) ∧
        owed failures (update :: rest) ≤ owed errorCounts (update :: rest)) ∧
      InOrder rest

theorem InOrder.le {updates : List MonitorUpdate} (inOrder : InOrder updates) :
    owed processes updates ≤ owed tracks updates ∧
      owed failures updates ≤ owed errorCounts updates := by
  cases updates with
  | nil => exact ⟨Nat.le_refl 0, Nat.le_refl 0⟩
  | cons update rest => exact inOrder.1

theorem inOrder_recordRequestStart : InOrder Monitor.recordRequestStart := by
  simp [InOrder, Monitor.recordRequestStart, processes, tracks, failures,
    errorCounts]

theorem inOrder_recordRequestEnd (outcome : RequestOutcome) :
    InOrder (Monitor.recordRequestEnd outcome) := by
  unfold Monitor.recordRequestEnd
  cases success : outcome.success <;>
    simp [InOrder, processes, tracks, failures, errorCounts, success]

/-- A call that clears does nothing else. -/
theorem inOrder_of_clears {updates : List MonitorUpdate}
    (clearing : ∀ update ∈ updates, update.clears = 1) : InOrder updates := by
  induction updates with
  | nil => trivial
  | cons update rest ih =>
      have later := ih fun other member =>
        clearing other (List.mem_cons_of_mem _ member)
      have clearsFirst := clearing update List.mem_cons_self
      refine ⟨?_, later⟩
      have rest := later.le
      cases update with
      | clearRequests | clearErrors | clearProcessed | clearActive
      | clearLatency | clearMin | clearMax | clearShard =>
          simpa [processes, tracks, failures, errorCounts] using rest
      | _ => cases clearsFirst

theorem inOrder_reset (sharding : Sharding) :
    InOrder (Monitor.reset sharding) := by
  apply inOrder_of_clears
  intro update member
  rcases List.mem_append.mp member with counter | shard
  · fin_cases counter <;> rfl
  · obtain ⟨index, -, rfl⟩ := List.mem_map.mp shard
    rfl

end MonitorUpdate

open MonitorUpdate

namespace Monitor

variable {monitor : Monitor} {sharding : Sharding}

/-! ## What one update does -/

/-- No endpoint has more errors than calls. -/
def ErrorsWithin (monitor : Monitor) : Prop :=
  ∀ endpoint stats, monitor.endpointStats.lookup endpoint = some stats →
    stats.errors.toNat ≤ stats.calls.toNat

theorem ErrorsWithin.endpointErrors_le (within : monitor.ErrorsWithin) :
    monitor.endpointErrors ≤ monitor.endpointCalls := by
  apply List.sum_le_sum
  intro entry member
  exact within entry.1 entry.2 (AList.mem_lookup_iff.mpr member)

theorem calls_le_endpointCalls {endpoint : String} {stats : EndpointStats}
    (found : monitor.endpointStats.lookup endpoint = some stats) :
    stats.calls.toNat ≤ monitor.endpointCalls := by
  rw [endpointCalls, KeyedTotals.total_eq_of_lookup _ found]
  exact Nat.le_add_right _ _

theorem toNat_succ {value : UInt64} (room : value.toNat + 1 < 2 ^ 64) :
    (value + 1).toNat = value.toNat + 1 := by
  rw [UInt64.toNat_add]
  exact Nat.mod_eq_of_lt room

theorem record_calls {stats : EndpointStats} (outcome : RequestOutcome)
    (room : stats.calls.toNat + 1 < 2 ^ 64) :
    (stats.record outcome).calls.toNat = stats.calls.toNat + 1 :=
  toNat_succ room

theorem record_errors {stats : EndpointStats} (outcome : RequestOutcome)
    (room : stats.errors.toNat + 1 < 2 ^ 64) :
    (stats.record outcome).errors.toNat =
      stats.errors.toNat + if outcome.success then 0 else 1 := by
  cases success : outcome.success with
  | true => simp [EndpointStats.record, success]
  | false =>
      simp only [EndpointStats.record, success]
      exact toNat_succ room

/-- Tracking a request adds it to the calls of its endpoint, and its failure
to the errors. -/
theorem track_spec (outcome : RequestOutcome) (within : monitor.ErrorsWithin)
    (room : monitor.endpointCalls + 1 < 2 ^ 64) :
    (monitor.track outcome).endpointCalls = monitor.endpointCalls + 1 ∧
      (monitor.track outcome).endpointErrors = monitor.endpointErrors +
        (if outcome.success then 0 else 1) ∧
      (monitor.track outcome).ErrorsWithin := by
  cases found : monitor.endpointStats.lookup outcome.endpoint with
  | none =>
      simp only [track, found, endpointCalls, endpointErrors,
        KeyedTotals.total_insert, KeyedTotals.total_eq_of_not_found _ found]
      refine ⟨Nat.add_comm _ _, ?_, fun endpoint stats stored => ?_⟩
      · cases success : outcome.success <;>
          simp [EndpointStats.first, success, Nat.add_comm]
      · by_cases same : endpoint = outcome.endpoint
        · subst same
          rw [AList.lookup_insert, Option.some.injEq] at stored
          subst stored
          cases success : outcome.success <;>
            simp [EndpointStats.first, success]
        · rw [AList.lookup_insert_ne same] at stored
          exact within endpoint stats stored
  | some before =>
      have callsRoom : before.calls.toNat + 1 < 2 ^ 64 :=
        Nat.lt_of_le_of_lt
          (Nat.succ_le_succ (calls_le_endpointCalls found)) room
      have errorsRoom : before.errors.toNat + 1 < 2 ^ 64 :=
        Nat.lt_of_le_of_lt
          (Nat.succ_le_succ (within _ _ found)) callsRoom
      have calls := record_calls outcome callsRoom
      have errors := record_errors outcome errorsRoom
      simp only [track, found, endpointCalls, endpointErrors,
        KeyedTotals.total_insert, KeyedTotals.total_eq_of_lookup _ found,
        calls, errors]
      refine ⟨by omega, by omega, fun endpoint stats stored => ?_⟩
      by_cases same : endpoint = outcome.endpoint
      · subst same
        rw [AList.lookup_insert, Option.some.injEq] at stored
        subst stored
        have kept := within _ _ found
        rw [calls, errors]
        split_ifs <;> omega
      · rw [AList.lookup_insert_ne same] at stored
        exact within endpoint stats stored

/-- An update keeps the number of active requests but for those that enter and
leave; a reset keeps it when it is zero. -/
theorem update_active (monitor : Monitor) (sharding : Sharding)
    (change : MonitorUpdate)
    (room : change = .enter → monitor.activeRequests.toNat + 1 < 2 ^ 64)
    (present : change = .leave → 0 < monitor.activeRequests.toNat)
    (idle : change = .clearActive → monitor.activeRequests = 0) :
    (monitor.update sharding change).1.activeRequests.toNat +
        change.leaves =
      monitor.activeRequests.toNat + if change = .enter then 1 else 0 := by
  cases change with
  | enter => exact toNat_succ (room rfl)
  | leave =>
      have positive := present rfl
      have one : (1 : UInt64) ≤ monitor.activeRequests :=
        UInt64.le_iff_toNat_le.mpr positive
      simp only [update, leaves, UInt64.toNat_sub_of_le _ _ one]
      simp only [reduceCtorEq, if_false]
      exact Nat.sub_add_cancel positive
  | clearActive =>
      rw [idle rfl]
      rfl
  | findEndpoint outcome =>
      simp only [update]
      split <;> rfl
  | _ => rfl

/-- What an update that clears nothing does to the counts of requests: what it
owed has been done, or is owed by the update that takes its place. -/
structure Settles (monitor : Monitor) (change : MonitorUpdate)
    (after : Monitor) (extra : List MonitorUpdate) : Prop where
  processed : after.totalProcessed.toNat =
    monitor.totalProcessed.toNat + change.processes
  tracked : after.endpointCalls + owed tracks extra =
    monitor.endpointCalls + change.tracks
  errors : after.totalErrors.toNat =
    monitor.totalErrors.toNat + change.errorCounts
  failed : after.endpointErrors + owed failures extra =
    monitor.endpointErrors + change.failures
  within : after.ErrorsWithin

theorem update_settles (sharding : Sharding) {change : MonitorUpdate}
    (clearsNothing : change.clears = 0) (within : monitor.ErrorsWithin)
    (processedRoom :
      monitor.totalProcessed.toNat + change.processes < 2 ^ 64)
    (trackedRoom : monitor.endpointCalls + change.tracks < 2 ^ 64)
    (errorsRoom : monitor.totalErrors.toNat + change.errorCounts < 2 ^ 64) :
    Settles monitor change (monitor.update sharding change).1
      (monitor.update sharding change).2 := by
  cases change with
  | countProcessed =>
      exact ⟨toNat_succ processedRoom, rfl, rfl, rfl, within⟩
  | countError => exact ⟨rfl, rfl, toNat_succ errorsRoom, rfl, within⟩
  | insertEndpoint outcome =>
      obtain ⟨calls, errors, kept⟩ := track_spec outcome within trackedRoom
      exact ⟨rfl, calls, rfl, errors, kept⟩
  | findEndpoint outcome =>
      simp only [update]
      split_ifs with known
      · obtain ⟨calls, errors, kept⟩ := track_spec outcome within trackedRoom
        exact ⟨rfl, calls, rfl, errors, kept⟩
      · exact ⟨rfl, rfl, rfl, rfl, within⟩
  | countRequest | enter | leave | addLatency | lowerMin | raiseMax =>
      exact ⟨rfl, rfl, rfl, rfl, within⟩
  | clearRequests | clearErrors | clearProcessed | clearActive
  | clearLatency | clearMin | clearMax | clearShard => cases clearsNothing

/-- The update that takes the place of another one does not clear and counts
nothing of its own. -/
theorem update_extra (monitor : Monitor) (sharding : Sharding)
    (change : MonitorUpdate) :
    let extra := (monitor.update sharding change).2
    owed leaves extra = 0 ∧ owed processes extra = 0 ∧
      owed errorCounts extra = 0 ∧ owed clears extra = 0 ∧
        ∀ rest, InOrder (change :: rest) → InOrder (extra ++ rest) := by
  cases change with
  | findEndpoint outcome =>
      simp only [update]
      split_ifs with known
      · exact ⟨rfl, rfl, rfl, rfl, fun rest inOrder => inOrder.2⟩
      · exact ⟨rfl, rfl, rfl, rfl, fun rest inOrder => inOrder⟩
  | _ => exact ⟨rfl, rfl, rfl, rfl, fun rest inOrder => inOrder.2⟩

end Monitor

namespace MonitorUse

open CallTable

variable {sharding : Sharding} {use next : MonitorUse}

/-! ## The accounts of all calls in progress -/

/-- The counts of requests agree up to what the calls owe. -/
structure Tallies (monitor : Monitor) (calls : List (List MonitorUpdate)) :
    Prop where
  clears : total (owed clears) calls = 0
  processed : monitor.totalProcessed.toNat + total (owed processes) calls =
    monitor.endpointCalls + total (owed tracks) calls
  errors : monitor.totalErrors.toNat + total (owed errorCounts) calls =
    monitor.endpointErrors + total (owed failures) calls
  within : monitor.ErrorsWithin

structure Inv (use : MonitorUse) : Prop where
  active : use.monitor.activeRequests.toNat =
    use.openRequests + total (owed leaves) use.calls
  inOrder : ∀ updates ∈ use.calls, InOrder updates
  tallies : use.resets = 0 → Tallies use.monitor use.calls

theorem inv_init : init.Inv where
  active := rfl
  inOrder updates member := by cases member
  tallies _ := ⟨rfl, rfl, rfl, fun endpoint stats found => by cases found⟩

theorem owed_le_of_inOrder (calls : List (List MonitorUpdate))
    (inOrder : ∀ updates ∈ calls, InOrder updates) :
    total (owed processes) calls ≤ total (owed tracks) calls ∧
      total (owed failures) calls ≤ total (owed errorCounts) calls :=
  ⟨List.sum_le_sum fun updates member => (inOrder updates member).le.1,
    List.sum_le_sum fun updates member => (inOrder updates member).le.2⟩

/-- A call that is not in progress owes nothing. -/
theorem total_replaceCall (weight : MonitorUpdate → Nat)
    {calls front back : List (List MonitorUpdate)} {index : Nat}
    {call : List MonitorUpdate} (split : Split calls index call front back)
    (updates : List MonitorUpdate) :
    total (owed weight) (replaceCall calls index updates) =
      owed weight updates + total (owed weight) (front ++ back) := by
  cases updates with
  | nil =>
      rw [replaceCall, split.total_eraseIdx, owed_nil, Nat.zero_add]
  | cons update rest => exact split.total_set (owed weight) (update :: rest)

theorem mem_replaceCall {calls : List (List MonitorUpdate)} {index : Nat}
    {updates other : List MonitorUpdate}
    (member : other ∈ replaceCall calls index updates) :
    other = updates ∨ other ∈ calls := by
  cases updates with
  | nil => exact .inr (List.mem_of_mem_eraseIdx member)
  | cons update rest =>
      exact (List.mem_or_eq_of_mem_set member).symm

/-- A call that begins owes what it has to do. -/
theorem Inv.begin (inv : use.Inv) {updates : List MonitorUpdate}
    (inOrder : InOrder updates) {openRequests resets : Nat}
    (active : openRequests + owed leaves updates = use.openRequests)
    (tallied : resets = 0 → use.resets = 0 ∧
      owed clears updates = 0 ∧
      owed processes updates = owed tracks updates ∧
      owed errorCounts updates = owed failures updates) :
    (MonitorUse.mk use.monitor (use.calls ++ [updates]) openRequests
      resets).Inv where
  active := by
    have before := inv.active
    simp only [total_concat]
    omega
  inOrder other member := by
    rcases List.mem_append.mp member with earlier | added
    · exact inv.inOrder other earlier
    · rwa [List.mem_singleton.mp added]
  tallies := by
    intro noReset
    obtain ⟨noneBefore, clearsNothing, processed, failed⟩ := tallied noReset
    have before := inv.tallies noneBefore
    have counts := before.processed
    have errors := before.errors
    refine ⟨?_, ?_, ?_, before.within⟩
    · rw [total_concat, clearsNothing, before.clears]
    · simp only [total_concat]
      omega
    · simp only [total_concat]
      omega

section Advance

variable {index : Nat} {change : MonitorUpdate} {rest : List MonitorUpdate}
  {front back : List (List MonitorUpdate)}

theorem Tallies.advance {monitor : Monitor}
    {calls : List (List MonitorUpdate)} (tallies : Tallies monitor calls)
    (inOrder : ∀ updates ∈ calls, InOrder updates)
    (split : Split calls index (change :: rest) front back)
    (room : change = .countProcessed →
      monitor.totalProcessed.toNat + 1 < 2 ^ 64) :
    Tallies (monitor.update sharding change).1
      (replaceCall calls index
        ((monitor.update sharding change).2 ++ rest)) := by
  have processed := tallies.processed
  have errors := tallies.errors
  have cleared := tallies.clears
  simp only [split.total_eq, owed_cons] at processed errors cleared
  have clearsNothing : change.clears = 0 := by omega
  have here : InOrder (change :: rest) :=
    inOrder _ (by rw [split.calls_eq]; simp)
  have afterwards := here.2.le
  have others := owed_le_of_inOrder (front ++ back) fun updates member =>
    inOrder updates (by
      rw [split.calls_eq]
      exact List.mem_append.mpr ((List.mem_append.mp member).imp_right
        (List.mem_cons_of_mem _)))
  -- What is owed keeps the counters in the order in which a call raises them.
  have errorsLe := tallies.within.endpointErrors_le
  have processedRoom :
      monitor.totalProcessed.toNat + change.processes < 2 ^ 64 := by
    have small := monitor.totalProcessed.toNat_lt
    cases change <;> first
      | exact small
      | exact room rfl
  have trackedRoom : monitor.endpointCalls + change.tracks < 2 ^ 64 := by
    omega
  have errorsRoom :
      monitor.totalErrors.toNat + change.errorCounts < 2 ^ 64 := by
    have small := monitor.totalErrors.toNat_lt
    have either : change.errorCounts = 0 ∨ change.failures = 0 := by
      cases change <;> first
        | exact .inl rfl
        | exact .inr rfl
    omega
  have settled := Monitor.update_settles sharding clearsNothing
    tallies.within processedRoom trackedRoom errorsRoom
  obtain ⟨-, noProcess, noError, noClear, -⟩ :=
    Monitor.update_extra monitor sharding change
  have processedAfter := settled.processed
  have trackedAfter := settled.tracked
  have errorsAfter := settled.errors
  have failedAfter := settled.failed
  refine ⟨?_, ?_, ?_, settled.within⟩
  · rw [total_replaceCall MonitorUpdate.clears split, owed_append]
    omega
  · rw [total_replaceCall processes split, total_replaceCall tracks split,
      owed_append, owed_append]
    omega
  · rw [total_replaceCall errorCounts split, total_replaceCall failures split,
      owed_append, owed_append]
    omega

theorem Inv.advance (inv : use.Inv)
    (atIndex : use.calls[index]? = some (change :: rest))
    (keeps : use.KeepsActive (.advance index)) :
    (MonitorUse.mk (use.monitor.update sharding change).1
      (replaceCall use.calls index
        ((use.monitor.update sharding change).2 ++ rest))
      (if change = .enter then use.openRequests + 1 else use.openRequests)
      use.resets).Inv := by
  obtain ⟨front, back, split⟩ := split_of_getElem? atIndex
  have member : change :: rest ∈ use.calls := List.mem_of_getElem? atIndex
  have here := inv.inOrder _ member
  have keepsHere : use.monitor.KeepsActive change :=
    keeps change (by rw [atIndex]; rfl)
  obtain ⟨noLeave, -, -, -, staysInOrder⟩ :=
    Monitor.update_extra use.monitor sharding change
  constructor
  · have before := inv.active
    rw [split.total_eq, owed_cons] at before
    have active := Monitor.update_active use.monitor sharding change
      (fun isEnter => by subst isEnter; exact keepsHere)
      (fun isLeave => by subst isLeave; simp only [leaves] at before; omega)
      (fun isClear => by subst isClear; exact keepsHere)
    rw [total_replaceCall leaves split, owed_append]
    dsimp only
    split_ifs at active ⊢ <;> omega
  · intro updates inCalls
    rcases mem_replaceCall inCalls with rfl | earlier
    · exact staysInOrder rest here
    · exact inv.inOrder updates earlier
  · intro noReset
    exact (inv.tallies noReset).advance inv.inOrder split fun isCount => by
      subst isCount
      exact keepsHere

end Advance

/-- A step that keeps the number of active requests keeps the accounts. -/
theorem Inv.step (inv : use.Inv) {action : MonitorAction}
    (keeps : use.KeepsActive action)
    (stepTo : use.step sharding action = some next) : next.Inv := by
  cases action with
  | start =>
      cases stepTo
      exact inv.begin inOrder_recordRequestStart rfl
        fun noReset => ⟨noReset, rfl, rfl, rfl⟩
  | finish outcome =>
      simp only [MonitorUse.step] at stepTo
      split at stepTo
      · cases stepTo
      · cases stepTo
        refine inv.begin (inOrder_recordRequestEnd outcome) ?_ ?_
        · have leavesOnce :
              owed leaves (Monitor.recordRequestEnd outcome) = 1 := by
            unfold Monitor.recordRequestEnd
            split <;> rfl
          omega
        · intro noReset
          unfold Monitor.recordRequestEnd
          cases success : outcome.success <;>
            simp [noReset, clears, processes, tracks, errorCounts, failures,
              success]
  | reset =>
      cases stepTo
      refine inv.begin (inOrder_reset sharding) ?_ nofun
      have noLeave : ∀ shards : List Nat,
          owed leaves (shards.map .clearShard) = 0 := by
        intro shards
        induction shards with
        | nil => rfl
        | cons shard shards ih =>
            rw [List.map_cons, owed_cons, ih]
            rfl
      rw [Monitor.reset, owed_append, noLeave]
      rfl
  | advance index =>
      simp only [MonitorUse.step] at stepTo
      split at stepTo
      · next change rest atIndex =>
          cases stepTo
          exact inv.advance atIndex keeps
      · cases stepTo

theorem Inv.accounted (inv : use.Inv) : use.Accounted := by
  intro idle
  have active := inv.active
  rw [idle, total_nil, Nat.add_zero] at active
  refine ⟨active, fun noReset => ?_⟩
  have tallies := inv.tallies noReset
  have processed := tallies.processed
  have errors := tallies.errors
  rw [idle, total_nil, total_nil, Nat.add_zero, Nat.add_zero]
    at processed errors
  exact ⟨processed.symm, errors.symm⟩

/-- Whatever calls run at the same time, the accounts of the monitor are right
whenever none is in progress, if no reset finds an active request. -/
theorem accounted_of_keepsActive (sharding : Sharding)
    {actions : List MonitorAction}
    (keeps : Meets (step sharding) KeepsActive init actions) :
    ∀ reached ∈ visited (step sharding) init actions, reached.Accounted := by
  intro reached member
  refine Inv.accounted (invariant_of_meets ?_ inv_init keeps reached member)
  intro use action next inv condition stepTo
  exact inv.step condition stepTo

/-! ## Resets while a request is active -/

def oneShard : Sharding :=
  ⟨1, fun _ => 0⟩

def failedRequest : RequestOutcome where
  latencyMs := 50
  endpoint := "/api/test"
  success := false
  calledAt := 0

/-- A request from start to end, and a reset after it. -/
def quietReset : List MonitorAction :=
  [.start, .advance 0, .advance 0, .finish failedRequest] ++
    List.replicate 8 (.advance 0) ++ [.reset] ++
    List.replicate 8 (.advance 0)

theorem quietReset_accounted :
    (run (step oneShard) init quietReset).isSome ∧
      ∀ reached ∈ visited (step oneShard) init quietReset,
        reached.Accounted :=
  ⟨by decide +kernel, accounted_of_keepsActive oneShard (by decide +kernel)⟩

/-- A reset between the start and the end of a request. -/
def resetInFlight : List MonitorAction :=
  [.start, .advance 0, .advance 0, .reset] ++
    List.replicate 8 (.advance 0) ++ [.finish failedRequest] ++
    List.replicate 8 (.advance 0)

/-- The number of active requests wraps around, and all calls are over. -/
theorem resetInFlight_wraps :
    ((run (step oneShard) init resetInFlight).map fun use =>
      (use.calls, use.monitor.activeRequests, use.openRequests)) =
        some ([], 18446744073709551615, 0) ∧
      ¬ ∀ reached ∈ visited (step oneShard) init resetInFlight,
        reached.Accounted := by
  decide +kernel

end MonitorUse

end TorchInference
