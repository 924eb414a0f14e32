import Mathlib.Algebra.Order.Group.Multiset
import Mathlib.Algebra.Order.BigOperators.Group.List
import Mathlib.Algebra.Order.Ring.Nat
import TorchInference.CountingSemaphore
import TorchInference.TransitionRuns

/-!
# The pool of Kokoro sessions

An `acquire` waits for a permit, locks the vector of sessions and pops one.
The guard it returns gives the session back when it is dropped: it tries to
lock the vector, pushes the session if it could, and then its permit returns.
A session whose guard finds the vector locked is discarded, and a later
`acquire` finds the vector empty although it has a permit.
-/

namespace TorchInference

open TransitionRuns CallTable

/-- Where an `acquire`, its guard or the drop of that guard is. -/
inductive SessionCall (Session : Type*) where
  | waiting
  | permitted
  | locking
  | popped (session : Session)
  | emptied
  | holding (session : Session)
  | returning (session : Session)
  | pushing (session : Session)
  | pushed
  | releasing
  deriving DecidableEq

namespace SessionCall

variable {Session : Type*}

/-- The session in the hands of a call. -/
def held : SessionCall Session → Multiset Session
  | .popped session | .holding session | .returning session
  | .pushing session => {session}
  | _ => 0

def permits : SessionCall Session → Nat
  | .waiting => 0
  | _ => 1

def locks : SessionCall Session → Nat
  | .locking | .popped _ | .emptied | .pushing _ | .pushed => 1
  | _ => 0

/-- The guard is about to give its session back. -/
def isReturning : SessionCall Session → Bool
  | .returning _ => true
  | _ => false

end SessionCall

/-- The pool with its calls, and the number of those that failed with a permit
in hand. -/
structure SessionPool (Session : Type*) where
  sessions : List Session
  locked : Bool
  semaphore : CountingSemaphore
  calls : List (SessionCall Session)
  failures : Nat

inductive SessionPoolAction where
  | acquire
  | cancel (index : Nat)
  | drop (index : Nat)
  | advance (index : Nat)
  deriving DecidableEq

namespace SessionPool

variable {Session : Type*}

def new (sessions : List Session) : SessionPool Session where
  sessions := sessions
  locked := false
  semaphore := ⟨sessions.length⟩
  calls := []
  failures := 0

def setCall (pool : SessionPool Session) (index : Nat)
    (call : SessionCall Session) : SessionPool Session :=
  { pool with calls := pool.calls.set index call }

/-- The next step of a call. -/
def advance (pool : SessionPool Session) (index : Nat) :
    SessionCall Session → Option (SessionPool Session)
  | .waiting =>
      pool.semaphore.tryAcquire.map fun semaphore =>
        { pool.setCall index .permitted with semaphore := semaphore }
  | .permitted =>
      if pool.locked then none
      else some { pool.setCall index .locking with locked := true }
  | .locking =>
      match pool.sessions.getLast? with
      | some session => some { pool.setCall index (.popped session) with
          sessions := pool.sessions.dropLast }
      | none => some (pool.setCall index .emptied)
  | .popped session =>
      some { pool.setCall index (.holding session) with locked := false }
  | .emptied => some { pool.setCall index .releasing with
      locked := false
      failures := pool.failures + 1 }
  | .holding _ => none
  | .returning session =>
      -- `try_lock` does not wait: without the lock the session is dropped.
      if pool.locked then some (pool.setCall index .releasing)
      else some { pool.setCall index (.pushing session) with locked := true }
  | .pushing session => some { pool.setCall index .pushed with
      sessions := pool.sessions ++ [session] }
  | .pushed => some { pool.setCall index .releasing with locked := false }
  | .releasing => some { pool with
      semaphore := pool.semaphore.release
      calls := pool.calls.eraseIdx index }

/-- An `acquire` may be dropped while it waits. -/
def step (pool : SessionPool Session) :
    SessionPoolAction → Option (SessionPool Session)
  | .acquire => some { pool with calls := pool.calls ++ [.waiting] }
  | .cancel index =>
      match pool.calls[index]? with
      | some .waiting => some { pool with
          calls := pool.calls.eraseIdx index }
      | _ => none
  | .drop index =>
      match pool.calls[index]? with
      | some (.holding session) =>
          some (pool.setCall index (.returning session))
      | _ => none
  | .advance index => pool.calls[index]?.bind (pool.advance index)

/-- All sessions are in the vector or in the hands of a call, and no `acquire`
that had a permit has failed. -/
structure Conserves (initial : List Session) (pool : SessionPool Session) :
    Prop where
  count : pool.sessions.length +
    Multiset.card (total SessionCall.held pool.calls) = initial.length
  same : (pool.sessions : Multiset Session) +
    total SessionCall.held pool.calls = initial
  failures : pool.failures = 0

/-- A guard gives its session back while nobody has locked the vector. -/
def ReturnsUnlocked (pool : SessionPool Session) : SessionPoolAction → Prop
  | .advance index =>
      ∀ call ∈ pool.calls[index]?, call.isReturning → pool.locked = false
  | .acquire | .cancel _ | .drop _ => True

instance (pool : SessionPool Session) :
    ∀ action, Decidable (pool.ReturnsUnlocked action)
  | .advance index => inferInstanceAs (Decidable
      (∀ call ∈ pool.calls[index]?, call.isReturning → pool.locked = false))
  | .acquire | .cancel _ | .drop _ => inferInstanceAs (Decidable True)

/-! ## What every step keeps -/

structure Inv (initial : List Session) (pool : SessionPool Session) :
    Prop where
  same : (pool.sessions : Multiset Session) +
    total SessionCall.held pool.calls = initial
  permits : pool.semaphore.available +
    total SessionCall.permits pool.calls = initial.length
  locks : total SessionCall.locks pool.calls = pool.locked.toNat
  noneEmptied : SessionCall.emptied ∉ pool.calls
  failures : pool.failures = 0

theorem inv_new (sessions : List Session) : (new sessions).Inv sessions where
  same := by simp [new]
  permits := by simp [new]
  locks := rfl
  noneEmptied := by simp [new]
  failures := rfl

variable {initial : List Session} {pool next : SessionPool Session}

theorem Inv.conserves (inv : pool.Inv initial) : pool.Conserves initial where
  count := by
    have cards := congrArg Multiset.card inv.same
    rwa [Multiset.card_add, Multiset.coe_card, Multiset.coe_card] at cards
  same := inv.same
  failures := inv.failures

/-- A call holds at most one session, and a permit for it. -/
theorem card_held_le (calls : List (SessionCall Session)) :
    Multiset.card (total SessionCall.held calls) ≤
      total SessionCall.permits calls := by
  have single : ∀ call : SessionCall Session,
      Multiset.card call.held ≤ call.permits := by
    intro call
    cases call <;> simp [SessionCall.held, SessionCall.permits]
  induction calls with
  | nil => simp
  | cons call calls ih =>
      have first := single call
      have splitHeld := total_insert SessionCall.held [] calls call
      have splitPermits := total_insert SessionCall.permits [] calls call
      simp only [List.nil_append] at splitHeld splitPermits
      rw [splitHeld, splitPermits, Multiset.card_add]
      exact Nat.add_le_add first ih

section Calls

variable {index : Nat} {call : SessionCall Session}
  {front back : List (SessionCall Session)}

/-- A call that holds the lock and has not popped yet finds a session. -/
theorem Inv.sessions_ne_nil (inv : pool.Inv initial)
    (split : Split pool.calls index .locking front back) :
    pool.sessions ≠ [] := by
  intro empty
  have cards := congrArg Multiset.card inv.same
  have permits := inv.permits
  have others := card_held_le (front ++ back)
  rw [split.total_eq] at cards permits
  simp only [empty, SessionCall.held, SessionCall.permits, Multiset.coe_card,
    Multiset.coe_nil, zero_add] at cards permits
  omega

theorem not_emptied_of_set {other : SessionCall Session}
    (noneEmptied : SessionCall.emptied ∉ pool.calls)
    (notEmptied : other ≠ .emptied) :
    SessionCall.emptied ∉ pool.calls.set index other := by
  intro member
  rcases List.mem_or_eq_of_mem_set member with earlier | same
  · exact noneEmptied earlier
  · exact notEmptied same.symm

/-- A step that changes one call keeps the invariant when what the pool and
the call have together stays the same. -/
theorem Inv.set (inv : pool.Inv initial)
    (split : Split pool.calls index call front back)
    {other : SessionCall Session} {sessions : List Session} {locked : Bool}
    {semaphore : CountingSemaphore} (notEmptied : other ≠ .emptied)
    (same : (sessions : Multiset Session) + other.held =
      pool.sessions + call.held)
    (permits : semaphore.available + other.permits =
      pool.semaphore.available + call.permits)
    (locks : locked.toNat + call.locks = pool.locked.toNat + other.locks) :
    (SessionPool.mk sessions locked semaphore (pool.calls.set index other)
      pool.failures).Inv initial := by
  have before := inv.same
  have permitsBefore := inv.permits
  have locksBefore := inv.locks
  rw [split.total_eq] at before permitsBefore locksBefore
  refine ⟨?_, ?_, ?_, ?_, inv.failures⟩
  · rw [split.total_set, ← add_assoc, same, add_assoc]
    exact before
  · rw [split.total_set]
    dsimp only
    omega
  · rw [split.total_set]
    dsimp only
    omega
  · exact not_emptied_of_set inv.noneEmptied notEmptied

/-- A call that has nothing in hand but its permit may end. -/
theorem Inv.erase (inv : pool.Inv initial)
    (split : Split pool.calls index call front back)
    {semaphore : CountingSemaphore} (nothing : call.held = 0)
    (permits : semaphore.available =
      pool.semaphore.available + call.permits)
    (unlocked : call.locks = 0) :
    (SessionPool.mk pool.sessions pool.locked semaphore
      (pool.calls.eraseIdx index) pool.failures).Inv initial := by
  have before := inv.same
  have permitsBefore := inv.permits
  have locksBefore := inv.locks
  rw [split.total_eq] at before permitsBefore locksBefore
  refine ⟨?_, ?_, ?_, ?_, inv.failures⟩
  · rwa [split.total_eraseIdx, ← zero_add (total _ _), ← nothing]
  · rw [split.total_eraseIdx]
    dsimp only
    omega
  · rw [split.total_eraseIdx]
    dsimp only
    omega
  · exact fun member => inv.noneEmptied (List.mem_of_mem_eraseIdx member)

/-- A call that holds the lock leaves it to nobody else. -/
theorem Inv.locked_of_locks (inv : pool.Inv initial)
    (split : Split pool.calls index call front back) (has : call.locks = 1) :
    pool.locked = true := by
  have locks := inv.locks
  rw [split.total_eq, has] at locks
  cases locked : pool.locked with
  | true => rfl
  | false =>
      rw [locked, Bool.toNat_false] at locks
      omega

theorem Inv.advance (inv : pool.Inv initial)
    (atIndex : pool.calls[index]? = some call)
    (unlocked : pool.ReturnsUnlocked (.advance index))
    (stepTo : pool.advance index call = some next) : next.Inv initial := by
  obtain ⟨front, back, split⟩ := split_of_getElem? atIndex
  cases call with
  | waiting =>
      simp only [SessionPool.advance, Option.map_eq_some_iff] at stepTo
      obtain ⟨semaphore, taken, rfl⟩ := stepTo
      refine inv.set split nofun rfl ?_ rfl
      exact (CountingSemaphore.tryAcquire_eq_some.mp taken).symm
  | permitted =>
      simp only [SessionPool.advance] at stepTo
      split_ifs at stepTo with locked
      cases stepTo
      refine inv.set split nofun rfl rfl ?_
      simp [locked, SessionCall.locks]
  | locking =>
      have found := inv.sessions_ne_nil split
      simp only [SessionPool.advance,
        List.getLast?_eq_some_getLast found] at stepTo
      cases stepTo
      refine inv.set split nofun ?_ rfl rfl
      simp only [SessionCall.held, add_zero]
      rw [← Multiset.coe_singleton, Multiset.coe_add,
        List.dropLast_append_getLast found]
  | popped session =>
      have locked := inv.locked_of_locks split rfl
      cases stepTo
      exact inv.set split nofun rfl rfl (by rw [locked]; rfl)
  | emptied =>
      exact absurd (List.mem_of_getElem? atIndex) inv.noneEmptied
  | holding session => cases stepTo
  | returning session =>
      have open_ : pool.locked = false := unlocked _ atIndex rfl
      simp only [SessionPool.advance, open_] at stepTo
      cases stepTo
      exact inv.set split nofun rfl rfl (by rw [open_]; rfl)
  | pushing session =>
      cases stepTo
      refine inv.set split nofun ?_ rfl rfl
      simp only [SessionCall.held, add_zero]
      rw [← Multiset.coe_add, Multiset.coe_singleton]
  | pushed =>
      have locked := inv.locked_of_locks split rfl
      cases stepTo
      exact inv.set split nofun rfl rfl (by rw [locked]; rfl)
  | releasing =>
      cases stepTo
      exact inv.erase split rfl rfl rfl

end Calls

theorem Inv.step (inv : pool.Inv initial) {action : SessionPoolAction}
    (unlocked : pool.ReturnsUnlocked action)
    (stepTo : pool.step action = some next) : next.Inv initial := by
  cases action with
  | acquire =>
      cases stepTo
      refine ⟨?_, ?_, ?_, ?_, inv.failures⟩
      · rw [total_concat]
        exact (congrArg _ (zero_add _)).trans inv.same
      · rw [total_concat]
        exact (congrArg _ (zero_add _)).trans inv.permits
      · rw [total_concat]
        exact (zero_add _).trans inv.locks
      · simpa using inv.noneEmptied
  | cancel index =>
      simp only [SessionPool.step] at stepTo
      split at stepTo
      · next atIndex =>
          cases stepTo
          obtain ⟨front, back, split⟩ := split_of_getElem? atIndex
          exact inv.erase split rfl rfl rfl
      · cases stepTo
  | drop index =>
      simp only [SessionPool.step] at stepTo
      split at stepTo
      · next session atIndex =>
          cases stepTo
          obtain ⟨front, back, split⟩ := split_of_getElem? atIndex
          exact inv.set split nofun rfl rfl rfl
      · cases stepTo
  | advance index =>
      obtain ⟨call, atIndex, advances⟩ := Option.bind_eq_some_iff.mp stepTo
      exact inv.advance atIndex unlocked advances

/-- Whatever calls run at the same time, no session is lost and no `acquire`
with a permit fails, if every guard gives its session back while the vector is
not locked. -/
theorem conserves_of_returnsUnlocked (sessions : List Session)
    {actions : List SessionPoolAction}
    (unlocked : Meets step ReturnsUnlocked (new sessions) actions) :
    ∀ reached ∈ visited step (new sessions) actions,
      reached.Conserves sessions := by
  intro reached member
  refine Inv.conserves
    (invariant_of_meets ?_ (inv_new sessions) unlocked reached member)
  intro pool action next inv condition stepTo
  exact inv.step condition stepTo

/-- Two sessions are taken and one is returned. -/
def returnedRun : List SessionPoolAction :=
  [.acquire, .acquire] ++ List.replicate 4 (.advance 0) ++
    List.replicate 4 (.advance 1) ++ [.drop 0] ++
    List.replicate 4 (.advance 0)

theorem returnedRun_conserves :
    (run step (new [1, 2]) returnedRun).isSome ∧
      ∀ reached ∈ visited step (new [1, 2]) returnedRun,
        reached.Conserves [1, 2] :=
  ⟨by decide, conserves_of_returnsUnlocked [1, 2] (by decide)⟩

/-- The first guard is dropped while another `acquire` has locked the vector;
the next two calls share one session. -/
def contendedRun : List SessionPoolAction :=
  [.acquire, .acquire] ++ List.replicate 4 (.advance 0) ++
    [.advance 1, .advance 1, .drop 0] ++ List.replicate 2 (.advance 0) ++
    List.replicate 2 (.advance 0) ++ [.acquire] ++
    List.replicate 4 (.advance 1)

theorem contendedRun_loses :
    ((run step (new [1, 2]) contendedRun).map fun pool =>
      (pool.sessions, pool.calls, pool.failures)) =
        some ([], [.holding 1, .releasing], 1) ∧
      ¬ ∀ reached ∈ visited step (new [1, 2]) contendedRun,
        reached.Conserves [1, 2] := by
  have reaches : ((run step (new [1, 2]) contendedRun).map fun pool =>
      (pool.sessions, pool.calls, pool.failures)) =
        some ([], [.holding 1, .releasing], 1) := by decide
  refine ⟨reaches, fun throughout => ?_⟩
  obtain ⟨last, atLast, parts⟩ := Option.map_eq_some_iff.mp reaches
  have conserved := throughout last (last_mem_visited atLast)
  simp only [Prod.mk.injEq] at parts
  exact absurd (conserved.failures.symm.trans parts.2.2) (by decide)

end SessionPool

end TorchInference
