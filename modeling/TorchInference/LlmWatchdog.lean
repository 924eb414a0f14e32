import TorchInference.TransitionRuns
import Mathlib.Data.UInt

/-!
# The watchdog of the language model

The server starts the language model as a child process and looks after it
every few seconds.  A tick drops the handles of the children it sees to have
exited, and starts a new one if it has just dropped a handle, nothing listens
on the port and the binary is there.  A handle that is dropped without a new
child leaves nothing for later ticks to see.
-/

namespace TorchInference

open TransitionRuns

/-! ## Children -/

structure Child where
  pid : UInt32
  exited : Bool
  deriving DecidableEq

inductive WaitResult where
  | exited
  | stillRunning
  | failed
  deriving DecidableEq

/-- What a start or a tick meets. -/
structure Surroundings where
  /-- Something listens on port 8001. -/
  portInUse : Bool
  /-- `services/llm/target/release/llm-service` exists. -/
  binaryExists : Bool
  /-- The outcome of a spawn: the new process, or an error. -/
  spawned : Option UInt32
  /-- The children whose status cannot be read. -/
  unreadable : List UInt32
  deriving DecidableEq

namespace Surroundings

def tryWait (surroundings : Surroundings) (child : Child) : WaitResult :=
  if child.pid ∈ surroundings.unreadable then .failed
  else if child.exited then .exited
  else .stillRunning

theorem tryWait_eq_exited {surroundings : Surroundings} {child : Child} :
    surroundings.tryWait child = .exited ↔
      child.exited = true ∧ child.pid ∉ surroundings.unreadable := by
  unfold tryWait
  by_cases unreadable : child.pid ∈ surroundings.unreadable
  · simp [unreadable]
  · cases exited : child.exited <;> simp [unreadable]

/-- The handles a spawn adds. -/
def newChildren (surroundings : Surroundings) : List Child :=
  match surroundings.spawned with
  | some pid => [⟨pid, false⟩]
  | none => []

theorem length_newChildren_le (surroundings : Surroundings) :
    surroundings.newChildren.length ≤ 1 := by
  unfold newChildren
  cases surroundings.spawned with
  | none => simp
  | some pid => simp

/-- `spawn_microservices`. -/
def spawnMicroservices (surroundings : Surroundings) : List Child :=
  if surroundings.portInUse then []
  else if surroundings.binaryExists then surroundings.newChildren
  else []

end Surroundings

/-! ## Ticks -/

structure Watchdog where
  children : List Child
  /-- How often the watchdog has tried to start a child. -/
  attempts : Nat
  deriving DecidableEq

namespace Watchdog

/-- The watchdog is started with the children of `spawn_microservices`. -/
def start (surroundings : Surroundings) : Watchdog :=
  ⟨surroundings.spawnMicroservices, 0⟩

/-- The handles a tick keeps. -/
def retained (watchdog : Watchdog) (surroundings : Surroundings) :
    List Child :=
  watchdog.children.filter fun child =>
    surroundings.tryWait child ≠ .exited

def needsRespawn (watchdog : Watchdog) (surroundings : Surroundings) : Bool :=
  (watchdog.retained surroundings).length < watchdog.children.length

/-- One round of the loop. -/
def tick (watchdog : Watchdog) (surroundings : Surroundings) : Watchdog :=
  if watchdog.needsRespawn surroundings ∧ ¬ surroundings.portInUse ∧
      surroundings.binaryExists then
    ⟨watchdog.retained surroundings ++ surroundings.newChildren,
      watchdog.attempts + 1⟩
  else ⟨watchdog.retained surroundings, watchdog.attempts⟩

inductive Action where
  /-- A child exits by itself or is killed. -/
  | exit (pid : UInt32)
  | tick (surroundings : Surroundings)
  deriving DecidableEq

def markExited (pid : UInt32) (child : Child) : Child :=
  if child.pid = pid then { child with exited := true } else child

def step (watchdog : Watchdog) : Action → Option Watchdog
  | .exit pid =>
      if ∃ child ∈ watchdog.children, child.pid = pid ∧ ¬ child.exited then
        some { watchdog with
          children := watchdog.children.map (markExited pid) }
      else none
  | .tick surroundings => some (watchdog.tick surroundings)

def running (watchdog : Watchdog) : List Child :=
  watchdog.children.filter fun child => ¬ child.exited

/-! ## What a tick does -/

theorem needsRespawn_iff {watchdog : Watchdog}
    {surroundings : Surroundings} :
    watchdog.needsRespawn surroundings = true ↔
      ∃ child ∈ watchdog.children, child.exited = true ∧
        child.pid ∉ surroundings.unreadable := by
  have shorter : watchdog.needsRespawn surroundings = true ↔
      ¬ (watchdog.retained surroundings).length =
        watchdog.children.length := by
    have bound : (watchdog.retained surroundings).length ≤
        watchdog.children.length := List.length_filter_le _ _
    simp only [needsRespawn, decide_eq_true_eq]
    omega
  rw [shorter, retained, List.length_filter_eq_length_iff]
  simp [Surroundings.tryWait_eq_exited]

/-- The watchdog is called for: no child runs, and nothing prevents a new
one. -/
def CalledFor (watchdog : Watchdog) (surroundings : Surroundings) : Prop :=
  watchdog.running = [] ∧ surroundings.portInUse = false ∧
    surroundings.binaryExists = true

instance (watchdog : Watchdog) (surroundings : Surroundings) :
    Decidable (watchdog.CalledFor surroundings) :=
  inferInstanceAs (Decidable (_ ∧ _))

/-- A tick the watchdog is called for tries to start a child. -/
def Tries (watchdog : Watchdog) : Action → Prop
  | .exit _ => True
  | .tick surroundings =>
      watchdog.CalledFor surroundings →
        (watchdog.tick surroundings).attempts = watchdog.attempts + 1

/-- At a tick the watchdog is called for, it still holds the handle of a child
that has exited, and can read its status. -/
def StillHolds (watchdog : Watchdog) : Action → Prop
  | .exit _ => True
  | .tick surroundings =>
      watchdog.CalledFor surroundings →
        ∃ child ∈ watchdog.children, child.exited = true ∧
          child.pid ∉ surroundings.unreadable

instance decidableStillHolds (watchdog : Watchdog) :
    ∀ action, Decidable (watchdog.StillHolds action)
  | .exit _ => inferInstanceAs (Decidable True)
  | .tick surroundings => inferInstanceAs (Decidable
      (watchdog.CalledFor surroundings → ∃ child ∈ watchdog.children,
        child.exited = true ∧ child.pid ∉ surroundings.unreadable))

theorem tries_iff_stillHolds (watchdog : Watchdog) (action : Action) :
    watchdog.Tries action ↔ watchdog.StillHolds action := by
  cases action with
  | exit pid => exact Iff.rfl
  | tick surroundings =>
      refine imp_congr_right fun calledFor => ?_
      obtain ⟨-, free, present⟩ := calledFor
      rw [← needsRespawn_iff]
      unfold tick
      by_cases needed : watchdog.needsRespawn surroundings = true
      · simp [needed, free, present]
      · simp [needed]

theorem tries_eq_stillHolds : Tries = StillHolds := by
  funext watchdog action
  exact propext (watchdog.tries_iff_stillHolds action)

/-! ## Over a run -/

theorem length_children_of_step {watchdog next : Watchdog} {action : Action}
    (few : watchdog.children.length ≤ 1)
    (stepTo : watchdog.step action = some next) :
    next.children.length ≤ 1 := by
  cases action with
  | exit pid =>
      simp only [step] at stepTo
      split at stepTo
      case isTrue =>
        cases stepTo
        simpa using few
      case isFalse => cases stepTo
  | tick surroundings =>
      cases stepTo
      have kept : (watchdog.retained surroundings).length ≤
          watchdog.children.length := List.length_filter_le _ _
      unfold tick
      split
      case isTrue respawns =>
        -- A handle was dropped, so there is room for one.
        have dropped : (watchdog.retained surroundings).length <
            watchdog.children.length := by
          simpa [needsRespawn] using respawns.1
        have added := surroundings.length_newChildren_le
        simp only [List.length_append]
        omega
      case isFalse => exact Nat.le_trans kept few

theorem length_children_start (surroundings : Surroundings) :
    (start surroundings).children.length ≤ 1 := by
  unfold start Surroundings.spawnMicroservices
  split
  case isTrue => simp
  case isFalse =>
    split
    case isTrue => exact surroundings.length_newChildren_le
    case isFalse => simp

/-- There is never more than one running child. -/
theorem length_running_le_one (first : Surroundings)
    (actions : List Action) :
    ∀ reached ∈ visited step (start first) actions,
      reached.running.length ≤ 1 := by
  intro reached member
  have few : reached.children.length ≤ 1 :=
    invariant_of_run
      (fun _ _ _ few stepTo => length_children_of_step few stepTo)
      (length_children_start first) actions reached member
  exact Nat.le_trans (List.length_filter_le _ _) few

theorem tick_of_children_nil {watchdog : Watchdog}
    (empty : watchdog.children = []) (surroundings : Surroundings) :
    watchdog.tick surroundings = watchdog := by
  have kept : watchdog.retained surroundings = watchdog.children := by
    simp [retained, empty]
  have unneeded : watchdog.needsRespawn surroundings = false := by
    simp [needsRespawn, kept]
  simp [tick, unneeded, kept]

/-- A watchdog without a handle stays without one and never tries again. -/
theorem run_of_children_nil {watchdog last : Watchdog}
    {actions : List Action} (empty : watchdog.children = [])
    (reaches : run step watchdog actions = some last) : last = watchdog := by
  induction actions with
  | nil => simpa using reaches.symm
  | cons action actions ih =>
      obtain ⟨next, stepTo, rest⟩ := run_cons_eq_some reaches
      cases action with
      | exit pid => simp [step, empty] at stepTo
      | tick surroundings =>
          cases stepTo
          rw [tick_of_children_nil empty] at rest
          exact ih rest

/-- Whether the watchdog keeps trying and never runs two children. -/
def KeepsTrying (first : Surroundings) (actions : List Action) : Prop :=
  Meets step Tries (start first) actions ∧
    ∀ reached ∈ visited step (start first) actions,
      reached.running.length ≤ 1

/-- The watchdog keeps trying exactly as long as it holds the handle of the
child that has exited. -/
theorem keepsTrying_iff_stillHolds (first : Surroundings)
    (actions : List Action) :
    KeepsTrying first actions ↔
      Meets step StillHolds (start first) actions := by
  unfold KeepsTrying
  rw [tries_eq_stillHolds]
  exact and_iff_left (length_running_le_one first actions)

/-- A child exits while its port is still taken. -/
def busyPort : List Action :=
  [.exit 7, .tick ⟨true, true, some 8, []⟩, .tick ⟨false, true, some 8, []⟩]

/-- The tick that drops the handle finds the port taken, and the next tick
does not try although the port is free. -/
theorem not_keepsTrying_busyPort :
    ¬ KeepsTrying ⟨false, true, some 7, []⟩ busyPort := by
  intro keepsTrying
  have holds := keepsTrying.1
  rw [tries_eq_stillHolds] at holds
  revert holds
  decide

example : Meets step StillHolds (start ⟨false, true, some 7, []⟩)
    [.exit 7, .tick ⟨false, true, some 8, []⟩, .exit 8,
      .tick ⟨false, true, none, []⟩] := by
  decide

end Watchdog

end TorchInference
