import Mathlib.Algebra.Order.BigOperators.Group.List
import Mathlib.Algebra.Order.Ring.Nat
import TorchInference.CountingSemaphore
import TorchInference.TransitionRuns

/-!
# The lease in front of the engine

Every run of the engine is made under a permit.  A chat spawns a task that
takes the permit and awaits the blocking run.  The planner, and the reflect
tool through it, takes the permit in the future that drains the channel and
then joins the blocking run; that future is awaited inside the task of an agent
run.  A client may be gone at any time, but a task that has been spawned goes
on.
-/

namespace TorchInference

open CallTable TransitionRuns

/-- Who asks for a run of the engine. -/
inductive LeasePath where
  | streamingChat
  | nonStreamingChat
  | planner
  | reflect
  deriving DecidableEq

/-- `HrmPlanner::propose` is called by the planner and by the reflect tool. -/
def LeasePath.isProposal : LeasePath → Bool
  | .streamingChat | .nonStreamingChat => false
  | .planner | .reflect => true

/-- The blocking run: in the queue of the blocking pool, at work with its
sender, at work without it, or back. -/
inductive EngineSide where
  | queued
  | running
  | closed
  | returned
  deriving DecidableEq

namespace EngineSide

def isExecuting : EngineSide → Bool
  | .running | .closed => true
  | .queued | .returned => false

/-- The channel has ended, as the engine owns the only sender. -/
def hasClosed : EngineSide → Bool
  | .closed | .returned => true
  | .queued | .running => false

end EngineSide

/-- The future that takes the permit and gives it back. -/
inductive LeaseHolder where
  | acquiring
  | permitted
  | awaiting (engine : EngineSide)
  | done
  deriving DecidableEq

/-- The reader of the channel: the response stream, the handler, or the future
of the planner. -/
inductive LeaseReader where
  | draining
  | joining
  | ended
  deriving DecidableEq

structure LeaseCall where
  path : LeasePath
  holder : LeaseHolder
  reader : LeaseReader
  /-- The client has not disconnected. -/
  connected : Bool
  deriving DecidableEq

namespace LeaseCall

def permits (call : LeaseCall) : Nat :=
  match call.holder with
  | .permitted | .awaiting _ => 1
  | .acquiring | .done => 0

def executing (call : LeaseCall) : Nat :=
  match call.holder with
  | .awaiting engine => if engine.isExecuting then 1 else 0
  | _ => 0

/-- A run of the engine is made with a permit in hand. -/
theorem executing_le_permits (call : LeaseCall) :
    call.executing ≤ call.permits := by
  unfold executing permits
  cases call.holder with
  | awaiting engine =>
      dsimp only
      split_ifs
      · exact Nat.le_refl 1
      · exact Nat.zero_le 1
  | acquiring | permitted | done => exact Nat.zero_le _

/-- What the future that holds the permit waits for: a task of a chat awaits
the blocking run, a proposal first drains the channel. -/
def mayRelease (call : LeaseCall) : Bool :=
  call.holder == .awaiting .returned &&
    (!call.path.isProposal || call.reader != .draining)

/-- The next step of the blocking run. -/
def moveEngine (call : LeaseCall) : Option LeaseCall :=
  match call.holder with
  | .awaiting .queued => some { call with holder := .awaiting .running }
  | .awaiting .running => some { call with holder := .awaiting .closed }
  | .awaiting .closed => some { call with holder := .awaiting .returned }
  | _ => none

/-- The channel has ended for its reader. -/
def channelEnded (call : LeaseCall) : Bool :=
  match call.holder with
  | .awaiting engine => engine.hasClosed
  | .done => true
  | .acquiring | .permitted => false

/-- The next step of the reader.  The reader of a chat is dropped with its
client; that of a proposal is not. -/
def moveReader (call : LeaseCall) : Option LeaseCall :=
  match call.path, call.reader with
  | .streamingChat, .draining =>
      if call.connected && call.channelEnded then
        some { call with reader := .ended }
      else none
  | .nonStreamingChat, .draining =>
      if call.connected && call.channelEnded then
        some { call with reader := .joining }
      else none
  | .nonStreamingChat, .joining =>
      if call.connected && call.holder == .done then
        some { call with reader := .ended }
      else none
  | .planner, .draining | .reflect, .draining =>
      if call.channelEnded then some { call with reader := .joining } else none
  | _, _ => none

end LeaseCall

/-- The lease with all calls made so far, and the calls whose permits have come
back, in order. -/
structure EngineLease where
  sem : CountingSemaphore
  calls : List LeaseCall
  returned : List Nat
  deriving DecidableEq

inductive LeaseAction where
  | call (path : LeasePath)
  | advance (index : Nat)
  | engine (index : Nat)
  | read (index : Nat)
  | disconnect (index : Nat)
  deriving DecidableEq

namespace EngineLease

def new (permits : Nat) : EngineLease where
  sem := ⟨max permits 1⟩
  calls := []
  returned := []

def setCall (lease : EngineLease) (index : Nat) (call : LeaseCall) :
    EngineLease :=
  { lease with calls := lease.calls.set index call }

/-- The next step of the future that holds the permit or waits for it. -/
def advance (lease : EngineLease) (index : Nat) (call : LeaseCall) :
    Option EngineLease :=
  match call.holder with
  | .acquiring =>
      lease.sem.tryAcquire.map fun sem =>
        { lease.setCall index { call with holder := .permitted } with
          sem := sem }
  | .permitted =>
      -- `spawn_blocking` hands the run to the blocking pool.
      some (lease.setCall index { call with holder := .awaiting .queued })
  | .awaiting _ =>
      if call.mayRelease then
        some { lease.setCall index { call with holder := .done } with
          sem := lease.sem.release
          returned := lease.returned ++ [index] }
      else none
  | .done => none

def step (lease : EngineLease) : LeaseAction → Option EngineLease
  | .call path => some { lease with
      calls := lease.calls ++ [⟨path, .acquiring, .draining, true⟩] }
  | .advance index => lease.calls[index]?.bind (lease.advance index)
  | .engine index =>
      (lease.calls[index]?.bind LeaseCall.moveEngine).map (lease.setCall index)
  | .read index =>
      (lease.calls[index]?.bind LeaseCall.moveReader).map (lease.setCall index)
  | .disconnect index =>
      lease.calls[index]?.map fun call =>
        lease.setCall index { call with connected := false }

/-- The runs of the engine in progress. -/
def executing (lease : EngineLease) : Nat :=
  total LeaseCall.executing lease.calls

/-! ## Where the permits are -/

/-- How often the permit of a call has come back. -/
def returnsOf (call : Option LeaseCall) : Nat :=
  match call with
  | some call => if call.holder = .done then 1 else 0
  | none => 0

/-- All permits are there, and the permit of each call has come back once if
the call is done, and not at all otherwise. -/
structure Accounted (p : Nat) (lease : EngineLease) : Prop where
  permits : lease.sem.available + total LeaseCall.permits lease.calls = p
  returned : ∀ index,
    lease.returned.count index = returnsOf lease.calls[index]?

variable {p : Nat} {lease next : EngineLease}

theorem Accounted.executing_le (accounted : Accounted p lease) :
    lease.executing ≤ p := by
  have covered : lease.executing ≤ total LeaseCall.permits lease.calls :=
    List.sum_le_sum fun call _ => call.executing_le_permits
  have whole := accounted.permits
  omega

/-- What is known of the returns after a call has been replaced. -/
theorem returnsOf_set {calls : List LeaseCall} {index : Nat}
    {call : LeaseCall} (atIndex : calls[index]? = some call)
    (other : LeaseCall) (position : Nat) :
    returnsOf (calls.set index other)[position]? =
      if position = index then returnsOf (some other)
      else returnsOf calls[position]? := by
  obtain ⟨inside, -⟩ := List.getElem?_eq_some_iff.mp atIndex
  by_cases same : position = index
  · rw [same, if_pos rfl, List.getElem?_set_self inside]
  · rw [if_neg same, List.getElem?_set_ne (Ne.symm same)]

/-- A call may be replaced by one that holds as many permits and has returned
as many. -/
theorem Accounted.setCall (accounted : Accounted p lease) {index : Nat}
    {call other : LeaseCall} (atIndex : lease.calls[index]? = some call)
    (samePermits : other.permits = call.permits)
    (sameReturns : returnsOf (some other) = returnsOf (some call)) :
    Accounted p (lease.setCall index other) := by
  obtain ⟨front, back, split⟩ := split_of_getElem? atIndex
  obtain ⟨permits, returned⟩ := accounted
  constructor
  · rw [split.total_eq] at permits
    rw [EngineLease.setCall]
    dsimp only
    rw [split.total_set, samePermits]
    exact permits
  · intro position
    rw [EngineLease.setCall]
    dsimp only
    rw [returnsOf_set atIndex, returned position]
    split_ifs with same
    · rw [same, atIndex, sameReturns]
    · rfl

/-- The step of the holder takes the permit, goes on with it or gives it
back. -/
theorem Accounted.advance (accounted : Accounted p lease) {index : Nat}
    {call : LeaseCall} (atIndex : lease.calls[index]? = some call)
    (stepTo : lease.advance index call = some next) : Accounted p next := by
  obtain ⟨front, back, split⟩ := split_of_getElem? atIndex
  unfold EngineLease.advance at stepTo
  cases holds : call.holder with
  | acquiring =>
      simp only [holds, Option.map_eq_some_iff] at stepTo
      obtain ⟨sem, acquired, rfl⟩ := stepTo
      have free := CountingSemaphore.tryAcquire_eq_some.mp acquired
      obtain ⟨permits, returned⟩ := accounted
      constructor
      · rw [split.total_eq] at permits
        simp only [EngineLease.setCall, split.total_set]
        simp only [LeaseCall.permits, holds] at permits ⊢
        omega
      · intro position
        simp only [EngineLease.setCall, returnsOf_set atIndex,
          returned position]
        split_ifs with same
        · rw [same, atIndex]
          simp [returnsOf, holds]
        · rfl
  | permitted =>
      simp only [holds, Option.some.injEq] at stepTo
      subst stepTo
      exact accounted.setCall atIndex (by simp [LeaseCall.permits, holds])
        (by simp [returnsOf, holds])
  | awaiting engine =>
      simp only [holds] at stepTo
      split_ifs at stepTo with mayRelease
      obtain rfl := Option.some.inj stepTo
      obtain ⟨permits, returned⟩ := accounted
      constructor
      · rw [split.total_eq] at permits
        simp only [EngineLease.setCall, split.total_set,
          CountingSemaphore.release_available]
        simp only [LeaseCall.permits, holds] at permits ⊢
        omega
      · intro position
        simp only [EngineLease.setCall, returnsOf_set atIndex,
          List.count_append, returned position]
        split_ifs with same
        · rw [same, atIndex]
          simp [returnsOf, holds]
        · rw [List.count_singleton, if_neg (by simpa using Ne.symm same),
            Nat.add_zero]
  | done => simp [holds] at stepTo

/-- The blocking run does not touch the permit. -/
theorem moveEngine_spec {call other : LeaseCall}
    (moves : call.moveEngine = some other) :
    other.permits = call.permits ∧
      returnsOf (some other) = returnsOf (some call) := by
  unfold LeaseCall.moveEngine at moves
  split at moves
  · obtain rfl := Option.some.inj moves
    simp [LeaseCall.permits, returnsOf, *]
  · obtain rfl := Option.some.inj moves
    simp [LeaseCall.permits, returnsOf, *]
  · obtain rfl := Option.some.inj moves
    simp [LeaseCall.permits, returnsOf, *]
  · cases moves

/-- The reader does not touch the permit. -/
theorem moveReader_holder {call other : LeaseCall}
    (moves : call.moveReader = some other) : other.holder = call.holder := by
  unfold LeaseCall.moveReader at moves
  split at moves
  all_goals first
    | cases moves
    | (split_ifs at moves
       obtain rfl := Option.some.inj moves
       rfl)

/-- Each step keeps the account of the permits. -/
theorem Accounted.step (accounted : Accounted p lease) {action : LeaseAction}
    (stepTo : lease.step action = some next) : Accounted p next := by
  cases action with
  | call path =>
      obtain rfl := Option.some.inj stepTo
      obtain ⟨permits, returned⟩ := accounted
      constructor
      · simp only [total_concat, LeaseCall.permits]
        omega
      · intro position
        rw [returned position, List.getElem?_append]
        split_ifs with inside
        · rfl
        · rw [List.getElem?_eq_none (not_lt.mp inside)]
          cases position - lease.calls.length <;> rfl
  | advance index =>
      simp only [EngineLease.step, Option.bind_eq_some_iff] at stepTo
      obtain ⟨call, atIndex, moves⟩ := stepTo
      exact accounted.advance atIndex moves
  | engine index =>
      simp only [EngineLease.step, Option.map_eq_some_iff,
        Option.bind_eq_some_iff] at stepTo
      obtain ⟨other, ⟨call, atIndex, moves⟩, rfl⟩ := stepTo
      exact accounted.setCall atIndex (moveEngine_spec moves).1
        (moveEngine_spec moves).2
  | read index =>
      simp only [EngineLease.step, Option.map_eq_some_iff,
        Option.bind_eq_some_iff] at stepTo
      obtain ⟨other, ⟨call, atIndex, moves⟩, rfl⟩ := stepTo
      have same := moveReader_holder moves
      exact accounted.setCall atIndex (by rw [LeaseCall.permits, same]; rfl)
        (by rw [returnsOf, same]; rfl)
  | disconnect index =>
      simp only [EngineLease.step, Option.map_eq_some_iff] at stepTo
      obtain ⟨call, atIndex, rfl⟩ := stepTo
      exact accounted.setCall atIndex rfl rfl

/-! ## Every run of the engine -/

/-- Nothing but a new call or a disconnect is possible. -/
def AtRest (lease : EngineLease) : Prop :=
  ∀ index, lease.step (.advance index) = none ∧
    lease.step (.engine index) = none ∧ lease.step (.read index) = none

/-- A call that holds a permit can go on. -/
theorem permits_eq_zero_of_atRest (rest : AtRest lease) {index : Nat}
    {call : LeaseCall} (atIndex : lease.calls[index]? = some call) :
    call.permits = 0 := by
  obtain ⟨advances, moves, reads⟩ := rest index
  simp only [EngineLease.step, atIndex, Option.bind_some, Option.map_eq_none_iff]
    at advances moves reads
  cases holds : call.holder with
  | acquiring => simp [LeaseCall.permits, holds]
  | permitted => simp [EngineLease.advance, holds] at advances
  | awaiting engine =>
      cases engine with
      | queued => simp [LeaseCall.moveEngine, holds] at moves
      | running => simp [LeaseCall.moveEngine, holds] at moves
      | closed => simp [LeaseCall.moveEngine, holds] at moves
      | returned =>
          -- A proposal that has not drained its channel can do so.
          have blocked : call.path.isProposal = true ∧
              call.reader = .draining := by
            simpa [EngineLease.advance, LeaseCall.mayRelease, holds]
              using advances
          obtain ⟨isProposal, draining⟩ := blocked
          have ended : call.channelEnded = true := by
            simp [LeaseCall.channelEnded, holds, EngineSide.hasClosed]
          cases path : call.path with
          | streamingChat | nonStreamingChat =>
              simp [LeasePath.isProposal, path] at isProposal
          | planner | reflect =>
              simp [LeaseCall.moveReader, path, draining, ended] at reads
  | done => simp [LeaseCall.permits, holds]

/-- At rest every call is done. -/
theorem done_of_atRest (positive : 1 ≤ p) (accounted : Accounted p lease)
    (rest : AtRest lease) {index : Nat} {call : LeaseCall}
    (atIndex : lease.calls[index]? = some call) : call.holder = .done := by
  have none_held : total LeaseCall.permits lease.calls = 0 := by
    refine List.sum_eq_zero fun amount mem => ?_
    obtain ⟨other, inCalls, rfl⟩ := List.mem_map.mp mem
    obtain ⟨position, atPosition⟩ := List.mem_iff_getElem?.mp inCalls
    exact permits_eq_zero_of_atRest rest atPosition
  have whole := accounted.permits
  have held := permits_eq_zero_of_atRest rest atIndex
  cases holds : call.holder with
  | acquiring =>
      have advances := (rest index).1
      have free : lease.sem.tryAcquire = some ⟨p - 1⟩ := by
        rw [CountingSemaphore.tryAcquire_eq_some]
        dsimp only
        omega
      simp [EngineLease.step, atIndex, EngineLease.advance, holds, free]
        at advances
  | permitted => simp [LeaseCall.permits, holds] at held
  | awaiting engine => simp [LeaseCall.permits, holds] at held
  | done => rfl

/-- However chats, proposals and disconnects are interleaved, no more runs of
the engine are in progress than there are permits.  The permit of a call that
is done has come back once, that of any other call not yet, and when nothing
can go on every call is done. -/
theorem lease_bounds_runs (p : Nat) (positive : 1 ≤ p)
    (actions : List LeaseAction) {last : EngineLease}
    (reaches : run step (new p) actions = some last) :
    last.executing ≤ p ∧
      (∀ index call, last.calls[index]? = some call →
        last.returned.count index = if call.holder = .done then 1 else 0) ∧
      (AtRest last → ∀ call ∈ last.calls, call.holder = .done) := by
  have start : Accounted p (new p) :=
    ⟨Nat.max_eq_left positive, fun index => rfl⟩
  have accounted : Accounted p last :=
    invariant_of_run_eq_some (fun _ _ _ before stepTo => before.step stepTo)
      start reaches
  refine ⟨accounted.executing_le, fun index call atIndex => ?_,
    fun rest call mem => ?_⟩
  · rw [accounted.returned index, atIndex]
    rfl
  · obtain ⟨index, atIndex⟩ := List.mem_iff_getElem?.mp mem
    exact done_of_atRest positive accounted rest atIndex

/-- A streaming chat whose client is gone keeps its permit while the engine
runs, and the planner waits for it. -/
def chatThenPlanner : List LeaseAction :=
  [.call .streamingChat, .call .planner, .advance 0, .advance 0, .engine 0,
    .disconnect 0, .engine 0, .engine 0, .advance 0, .advance 1, .advance 1,
    .engine 1]

theorem chatThenPlanner_bounded :
    (run step (new 1) chatThenPlanner).map executing = some 1 ∧
      ∃ last, run step (new 1) chatThenPlanner = some last ∧
        last.executing ≤ 1 ∧
        (∀ index call, last.calls[index]? = some call →
          last.returned.count index = if call.holder = .done then 1 else 0) ∧
        (AtRest last → ∀ call ∈ last.calls, call.holder = .done) :=
  ⟨rfl, _, rfl, lease_bounds_runs 1 (by decide) chatThenPlanner rfl⟩

end EngineLease

end TorchInference
