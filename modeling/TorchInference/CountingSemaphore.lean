import Mathlib.Algebra.BigOperators.Group.List.Basic

/-!
# Counting semaphores and tables of calls in progress

A permit returns to its semaphore when the object that holds it is dropped.
Calls in progress are kept in a list and addressed by their position, so a
component may serve any number of callers; the splitting lemma turns a change
at one position into an ordinary append.
-/

/-- A counting semaphore with its permits still to be taken. -/
structure CountingSemaphore where
  available : Nat
  deriving DecidableEq, Repr

namespace CountingSemaphore

/-- A semaphore of a 64-bit target cannot be made with more permits. -/
def maxPermits : Nat :=
  2 ^ 61 - 1

/-- Take a permit, if there is one. -/
def tryAcquire (semaphore : CountingSemaphore) : Option CountingSemaphore :=
  if 0 < semaphore.available then some ⟨semaphore.available - 1⟩ else none

/-- A dropped permit returns. -/
def release (semaphore : CountingSemaphore) : CountingSemaphore :=
  ⟨semaphore.available + 1⟩

theorem tryAcquire_eq_some {semaphore rest : CountingSemaphore} :
    semaphore.tryAcquire = some rest ↔
      semaphore.available = rest.available + 1 := by
  obtain ⟨available⟩ := semaphore
  obtain ⟨remaining⟩ := rest
  simp only [tryAcquire, Option.ite_none_right_eq_some, Option.some.injEq,
    mk.injEq]
  omega

@[simp]
theorem release_available (semaphore : CountingSemaphore) :
    semaphore.release.available = semaphore.available + 1 :=
  rfl

end CountingSemaphore

namespace CallTable

variable {Call : Type*}

/-- The calls before and after the one at a position, with what updating and
removing that call make of the list. -/
structure Split (calls : List Call) (index : Nat) (call : Call)
    (front back : List Call) : Prop where
  calls_eq : calls = front ++ call :: back
  set_eq : ∀ other, calls.set index other = front ++ other :: back
  eraseIdx_eq : calls.eraseIdx index = front ++ back

theorem split_of_getElem? {calls : List Call} {index : Nat} {call : Call}
    (atIndex : calls[index]? = some call) :
    ∃ front back, Split calls index call front back := by
  obtain ⟨inside, rfl⟩ := List.getElem?_eq_some_iff.mp atIndex
  refine ⟨calls.take index, calls.drop (index + 1), ?_, fun other => ?_, ?_⟩
  · exact (List.take_append_drop index calls).symm.trans
      (by rw [List.drop_eq_getElem_cons inside])
  · exact List.set_eq_take_append_cons_drop.trans (if_pos inside)
  · exact List.eraseIdx_eq_take_drop_succ calls index

section Totals

variable {Amount : Type*} [AddCommMonoid Amount] (amount : Call → Amount)

/-- What all calls of a table hold together. -/
def total (calls : List Call) : Amount :=
  (calls.map amount).sum

@[simp]
theorem total_nil : total amount [] = 0 :=
  rfl

theorem total_insert (front back : List Call) (call : Call) :
    total amount (front ++ call :: back) =
      amount call + total amount (front ++ back) := by
  simp only [total, List.map_append, List.map_cons, List.sum_append,
    List.sum_cons]
  exact add_left_comm _ _ _

@[simp]
theorem total_concat (calls : List Call) (call : Call) :
    total amount (calls ++ [call]) = amount call + total amount calls := by
  rw [total_insert, List.append_nil]

variable {calls : List Call} {index : Nat} {call : Call}
  {front back : List Call}

theorem Split.total_eq (split : Split calls index call front back) :
    total amount calls = amount call + total amount (front ++ back) := by
  rw [split.calls_eq, total_insert]

theorem Split.total_set (split : Split calls index call front back)
    (other : Call) :
    total amount (calls.set index other) =
      amount other + total amount (front ++ back) := by
  rw [split.set_eq, total_insert]

theorem Split.total_eraseIdx (split : Split calls index call front back) :
    total amount (calls.eraseIdx index) = total amount (front ++ back) := by
  rw [split.eraseIdx_eq]

end Totals

end CallTable
