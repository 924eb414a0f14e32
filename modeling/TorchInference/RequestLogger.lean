import TorchInference.MonitorAccounting

/-!
# The request logger

`RequestLoggerMiddleware` reports the start of a request to the monitor as soon
as it is called, and the end when the future of the inner service has returned.
That future is the only one it waits for.  A request whose own future is dropped
there, or was never polled, has no end to report, and the monitor counts it as
active ever after.
-/

namespace TorchInference

open TransitionRuns CallTable

/-- What the inner service returns: a response with its status, or an error. -/
inductive ServiceResult where
  | ok (status : UInt16)
  | err
  deriving DecidableEq

def ServiceResult.success : ServiceResult → Bool
  | .ok status => decide (status < 400)
  | .err => false

/-- A request in the middleware.  Its call makes the updates of the start; its
future waits for the inner one and then makes those of the end. -/
inductive LoggedRequest where
  | calling (path : String) (updates : List MonitorUpdate)
  | waiting (path : String)
  | reporting (updates : List MonitorUpdate)
  deriving DecidableEq

/-- The monitor and the requests that are in the middleware. -/
structure RequestLogger where
  monitor : Monitor
  requests : List LoggedRequest

inductive LoggerAction where
  | call (path : String)
  | advance (index : Nat)
  | respond (index : Nat) (result : ServiceResult) (durationMs : UInt64)
      (now : Nat)
  | drop (index : Nat)

namespace LoggedRequest

/-- A request is in flight from the update that enters it to the one that
leaves. -/
def inFlight : LoggedRequest → Nat
  | calling _ _ => 0
  | waiting _ => 1
  | reporting updates => MonitorUpdate.owed MonitorUpdate.leaves updates

/-- The next update enters the request. -/
def enters : LoggedRequest → Bool
  | calling _ [.enter] => true
  | _ => false

/-- The inner service is called after the last update of the start. -/
def afterCalling (path : String) : List MonitorUpdate → LoggedRequest
  | [] => waiting path
  | updates => calling path updates

end LoggedRequest

namespace RequestLogger

def init : RequestLogger :=
  ⟨.new, []⟩

/-- A request is over with the last update of its end. -/
def afterReporting (requests : List LoggedRequest) (index : Nat) :
    List MonitorUpdate → List LoggedRequest
  | [] => requests.eraseIdx index
  | updates => requests.set index (.reporting updates)

def step (sharding : Sharding) (logger : RequestLogger) :
    LoggerAction → Option RequestLogger
  | .call path => some { logger with
      requests := logger.requests ++
        [.calling path Monitor.recordRequestStart] }
  | .advance index =>
      match logger.requests[index]? with
      | some (.calling path (update :: rest)) =>
          let (monitor, extra) := logger.monitor.update sharding update
          some ⟨monitor, logger.requests.set index
            (.afterCalling path (extra ++ rest))⟩
      | some (.reporting (update :: rest)) =>
          let (monitor, extra) := logger.monitor.update sharding update
          some ⟨monitor, afterReporting logger.requests index (extra ++ rest)⟩
      | _ => none
  | .respond index result durationMs now =>
      match logger.requests[index]? with
      | some (.waiting path) => some { logger with
          requests := logger.requests.set index
            (.reporting (Monitor.recordRequestEnd
              ⟨durationMs, path, result.success, now⟩)) }
      | _ => none
  | .drop index =>
      match logger.requests[index]? with
      | some (.waiting _) => some { logger with
          requests := logger.requests.eraseIdx index }
      | _ => none

/-- The requests that have started and have neither ended nor been dropped. -/
def inFlight (logger : RequestLogger) : Nat :=
  total LoggedRequest.inFlight logger.requests

/-- The monitor counts as active what is in flight. -/
def Balanced (logger : RequestLogger) : Prop :=
  logger.monitor.activeRequests.toNat = logger.inFlight

instance (logger : RequestLogger) : Decidable logger.Balanced :=
  inferInstanceAs (Decidable (_ = _))

/-- No future is dropped before it is ready, and no request enters when the
counter is full. -/
def KeepsBalance (logger : RequestLogger) : LoggerAction → Prop
  | .advance index =>
      logger.requests[index]?.any LoggedRequest.enters →
        logger.inFlight + 1 < 2 ^ 64
  | .drop _ => False
  | .call _ | .respond _ _ _ _ => True

instance (logger : RequestLogger) :
    ∀ action, Decidable (logger.KeepsBalance action)
  | .advance _ => inferInstanceAs (Decidable (_ → _))
  | .drop _ => inferInstanceAs (Decidable False)
  | .call _ | .respond _ _ _ _ => inferInstanceAs (Decidable True)

end RequestLogger

/-! ## Requests on their way -/

namespace LoggedRequest

/-- The start enters with its last update, and the end neither enters nor
clears. -/
def InOrder : LoggedRequest → Prop
  | calling _ updates =>
      updates = Monitor.recordRequestStart ∨ updates = [.enter]
  | waiting _ => True
  | reporting updates =>
      ∀ update ∈ updates, update ≠ .enter ∧ update ≠ .clearActive

theorem inOrder_recordRequestEnd (outcome : RequestOutcome) :
    (reporting (Monitor.recordRequestEnd outcome)).InOrder := by
  unfold Monitor.recordRequestEnd
  cases success : outcome.success <;> simp [InOrder]

theorem inFlight_recordRequestEnd (outcome : RequestOutcome) :
    (reporting (Monitor.recordRequestEnd outcome)).inFlight = 1 := by
  unfold Monitor.recordRequestEnd
  cases success : outcome.success <;> simp [inFlight, MonitorUpdate.leaves]

end LoggedRequest

namespace RequestLogger

open MonitorUpdate

variable {sharding : Sharding} {logger next : RequestLogger} {index : Nat}

def InOrder (logger : RequestLogger) : Prop :=
  ∀ request ∈ logger.requests, request.InOrder

theorem forall_mem_set {property : LoggedRequest → Prop}
    {requests : List LoggedRequest} (all : ∀ request ∈ requests,
      property request) {request : LoggedRequest} (added : property request) :
    ∀ other ∈ requests.set index request, property other := by
  intro other member
  rcases List.mem_or_eq_of_mem_set member with earlier | rfl
  · exact all other earlier
  · exact added

theorem forall_mem_eraseIdx {property : LoggedRequest → Prop}
    {requests : List LoggedRequest} (all : ∀ request ∈ requests,
      property request) :
    ∀ other ∈ requests.eraseIdx index, property other :=
  fun other member => all other (List.mem_of_mem_eraseIdx member)

/-- A request that is over is not in flight. -/
theorem total_afterReporting {requests front back : List LoggedRequest}
    {request : LoggedRequest} (split : Split requests index request front back)
    (updates : List MonitorUpdate) :
    total LoggedRequest.inFlight (afterReporting requests index updates) =
      owed leaves updates + total LoggedRequest.inFlight (front ++ back) := by
  cases updates with
  | nil => rw [afterReporting, split.total_eraseIdx, owed_nil, Nat.zero_add]
  | cons update rest => exact split.total_set LoggedRequest.inFlight _

/-! ## What one step does -/

/-- The last update of the start puts the request in flight, the one before it
counts it only. -/
theorem advance_calling {path : String} {update : MonitorUpdate}
    {rest : List MonitorUpdate} (inOrder : logger.InOrder)
    (atIndex : logger.requests[index]? = some (.calling path (update :: rest)))
    (stepTo : logger.step sharding (.advance index) = some next) :
    next.InOrder ∧
      (update = .countRequest ∧ next.inFlight = logger.inFlight ∧
          next.monitor.activeRequests = logger.monitor.activeRequests ∨
        logger.requests[index]?.any LoggedRequest.enters = true ∧
          next.inFlight = logger.inFlight + 1 ∧
          next.monitor.activeRequests =
            logger.monitor.activeRequests + 1) := by
  obtain ⟨front, back, split⟩ := split_of_getElem? atIndex
  have here := inOrder _ (List.mem_of_getElem? atIndex)
  simp only [step, atIndex, Option.some.injEq] at stepTo
  subst stepTo
  rcases here with start | last
  · obtain ⟨rfl, rfl⟩ := List.cons.inj start
    refine ⟨forall_mem_set inOrder (.inr rfl), .inl ⟨rfl, ?_, rfl⟩⟩
    simp only [inFlight, split.total_eq, split.total_set]
    rfl
  · obtain ⟨rfl, rfl⟩ := List.cons.inj last
    refine ⟨forall_mem_set inOrder trivial, .inr ⟨?_, ?_, rfl⟩⟩
    · rw [atIndex]
      rfl
    · simp only [inFlight, split.total_eq, split.total_set]
      change 1 + _ = 0 + _ + 1
      omega

/-- An update of the end takes the request out of flight if it leaves. -/
theorem advance_reporting {update : MonitorUpdate}
    {rest : List MonitorUpdate} (inOrder : logger.InOrder)
    (balanced : logger.Balanced)
    (atIndex : logger.requests[index]? = some (.reporting (update :: rest)))
    (stepTo : logger.step sharding (.advance index) = some next) :
    next.InOrder ∧ next.Balanced := by
  obtain ⟨front, back, split⟩ := split_of_getElem? atIndex
  have here := inOrder _ (List.mem_of_getElem? atIndex)
  obtain ⟨noEnter, noClear⟩ := here update List.mem_cons_self
  simp only [step, atIndex, Option.some.injEq] at stepTo
  subst stepTo
  obtain ⟨noLeave, -⟩ :=
    Monitor.update_extra logger.monitor sharding update
  have before : logger.monitor.activeRequests.toNat =
      owed leaves (update :: rest) +
        total LoggedRequest.inFlight (front ++ back) := by
    rw [balanced, inFlight, split.total_eq]
    rfl
  rw [owed_cons] at before
  have active := Monitor.update_active logger.monitor sharding update
    (fun isEnter => absurd isEnter noEnter)
    (fun isLeave => by
      subst isLeave
      simp only [leaves] at before
      omega)
    (fun isClear => absurd isClear noClear)
  rw [if_neg noEnter] at active
  constructor
  · have later : ∀ change ∈ (logger.monitor.update sharding update).2 ++ rest,
        change ≠ .enter ∧ change ≠ .clearActive := by
      intro change member
      rcases List.mem_append.mp member with extra | old
      · cases update <;> simp only [Monitor.update] at extra <;>
          try cases extra
        split at extra
        · cases extra
        · obtain rfl := List.mem_singleton.mp extra
          exact ⟨MonitorUpdate.noConfusion, MonitorUpdate.noConfusion⟩
      · exact here change (List.mem_cons_of_mem _ old)
    unfold InOrder afterReporting
    split
    · exact forall_mem_eraseIdx inOrder
    · exact forall_mem_set inOrder later
  · rw [Balanced, inFlight, total_afterReporting split, owed_append, noLeave]
    dsimp only
    omega

/-- A step that drops nothing and enters where there is room keeps the
balance. -/
theorem balanced_step {action : LoggerAction}
    (inv : logger.InOrder ∧ logger.Balanced)
    (keeps : logger.KeepsBalance action)
    (stepTo : logger.step sharding action = some next) :
    next.InOrder ∧ next.Balanced := by
  obtain ⟨inOrder, balanced⟩ := inv
  cases action with
  | call path =>
      cases stepTo
      constructor
      · intro request member
        rcases List.mem_append.mp member with earlier | added
        · exact inOrder request earlier
        · rw [List.mem_singleton.mp added]
          exact .inl rfl
      · simp only [Balanced, inFlight, total_concat, LoggedRequest.inFlight]
        rw [balanced, inFlight, Nat.zero_add]
  | advance index =>
      cases atIndex : logger.requests[index]? with
      | none => simp [step, atIndex] at stepTo
      | some request =>
          cases request with
          | calling path updates =>
              cases updates with
              | nil => simp [step, atIndex] at stepTo
              | cons update rest =>
                  obtain ⟨ordered, same | entered⟩ :=
                    advance_calling inOrder atIndex stepTo
                  · obtain ⟨-, flight, active⟩ := same
                    exact ⟨ordered, by rw [Balanced, flight, active, balanced]⟩
                  · obtain ⟨entering, flight, active⟩ := entered
                    have room := keeps entering
                    rw [← balanced] at room
                    refine ⟨ordered, ?_⟩
                    rw [Balanced, flight, active, Monitor.toNat_succ room,
                      balanced]
          | waiting path => simp [step, atIndex] at stepTo
          | reporting updates =>
              cases updates with
              | nil => simp [step, atIndex] at stepTo
              | cons update rest =>
                  exact advance_reporting inOrder balanced atIndex stepTo
  | respond index result durationMs now =>
      simp only [step] at stepTo
      split at stepTo
      · next path atIndex =>
          obtain ⟨front, back, split⟩ := split_of_getElem? atIndex
          cases stepTo
          refine ⟨forall_mem_set inOrder
            (LoggedRequest.inOrder_recordRequestEnd _), ?_⟩
          rw [Balanced, inFlight, split.total_set,
            LoggedRequest.inFlight_recordRequestEnd]
          rw [Balanced, inFlight, split.total_eq] at balanced
          exact balanced
      · cases stepTo
  | drop index => exact keeps.elim

/-- A dropped future, or a request that enters a full counter, breaks it. -/
theorem not_balanced_step {action : LoggerAction}
    (inv : logger.InOrder ∧ logger.Balanced)
    (breaks : ¬ logger.KeepsBalance action)
    (stepTo : logger.step sharding action = some next) : ¬ next.Balanced := by
  obtain ⟨inOrder, balanced⟩ := inv
  cases action with
  | call path => exact absurd trivial breaks
  | respond index result durationMs now => exact absurd trivial breaks
  | advance index =>
      obtain ⟨entering, full⟩ := Classical.not_imp.mp breaks
      cases atIndex : logger.requests[index]? with
      | none => simp [step, atIndex] at stepTo
      | some request =>
          rw [atIndex] at entering
          cases request with
          | waiting path => cases entering
          | reporting updates => cases entering
          | calling path updates =>
              cases updates with
              | nil => cases entering
              | cons update rest =>
                  obtain ⟨-, same | entered⟩ :=
                    advance_calling inOrder atIndex stepTo
                  · rw [same.1] at entering
                    cases entering
                  · intro after
                    have small := next.monitor.activeRequests.toNat_lt
                    rw [Balanced, entered.2.1] at after
                    omega
  | drop index =>
      simp only [step] at stepTo
      split at stepTo
      · next path atIndex =>
          obtain ⟨front, back, split⟩ := split_of_getElem? atIndex
          cases stepTo
          rw [Balanced, inFlight, split.total_eq] at balanced
          rw [Balanced, inFlight, split.total_eraseIdx, balanced,
            LoggedRequest.inFlight]
          omega
      · cases stepTo

/-- The monitor counts exactly the requests in flight, in every state of a run,
when no future is dropped before it is ready and no request enters when the
counter is full. -/
theorem balanced_iff_keepsBalance (sharding : Sharding)
    {actions : List LoggerAction} {last : RequestLogger}
    (reaches : run (step sharding) init actions = some last) :
    (∀ reached ∈ visited (step sharding) init actions, reached.Balanced) ↔
      Meets (step sharding) KeepsBalance init actions := by
  have start : init.InOrder ∧ init.Balanced := ⟨nofun, rfl⟩
  exact forall_visited_iff_meets (fun _ inv => inv.2)
    (fun _ _ _ => balanced_step) (fun _ _ _ => not_balanced_step) start reaches

/-! ## A client that disconnects -/

/-- Two requests, one of which fails while the other waits. -/
def servedRequests : List LoggerAction :=
  [.call "/predict", .advance 0, .call "/health", .advance 1, .advance 0,
    .advance 1, .respond 0 .err 12 0, .advance 0, .advance 0,
    .respond 1 (.ok 200) 3 0, .advance 1]

theorem servedRequests_balanced :
    (run (step MonitorUse.oneShard) init servedRequests).isSome ∧
      ∀ reached ∈ visited (step MonitorUse.oneShard) init servedRequests,
        reached.Balanced := by
  have reaches : (run (step MonitorUse.oneShard) init servedRequests).isSome :=
    by decide +kernel
  obtain ⟨last, reachesLast⟩ := Option.isSome_iff_exists.mp reaches
  exact ⟨reaches,
    (balanced_iff_keepsBalance MonitorUse.oneShard reachesLast).mpr
      (by decide +kernel)⟩

/-- The only request is dropped while it waits, and stays active. -/
theorem droppedRequest_active :
    ((run (step MonitorUse.oneShard) init
        [.call "/predict", .advance 0, .advance 0, .drop 0]).map fun logger =>
      (logger.requests, logger.inFlight, logger.monitor.activeRequests)) =
        some ([], 0, 1) ∧
      ¬ ∀ reached ∈ visited (step MonitorUse.oneShard) init
          [.call "/predict", .advance 0, .advance 0, .drop 0],
        reached.Balanced := by
  decide +kernel

end RequestLogger

end TorchInference
