import Mathlib.Data.List.Basic

/-!
# Computations with a trace

A computation that may fail and leaves events behind.  What it has done before
it fails stays done.
-/

universe u

structure Traced (Event Failure : Type u) (Value : Type u) where
  events : List Event
  result : Except Failure Value

namespace Traced

variable {Event Failure Value Result : Type u}

def succeed (value : Value) : Traced Event Failure Value :=
  ⟨[], .ok value⟩

def fail (failure : Failure) : Traced Event Failure Value :=
  ⟨[], .error failure⟩

def andThen (first : Traced Event Failure Value)
    (rest : Value → Traced Event Failure Result) :
    Traced Event Failure Result :=
  match first.result with
  | .error failure => ⟨first.events, .error failure⟩
  | .ok value => ⟨first.events ++ (rest value).events, (rest value).result⟩

instance : Monad (Traced Event Failure) where
  pure := succeed
  bind := andThen

/-- An event takes place. -/
def emit (event : Event) : Traced Event Failure PUnit :=
  ⟨[event], .ok ⟨⟩⟩

/-- A computation without events. -/
def lift (result : Except Failure Value) : Traced Event Failure Value :=
  ⟨[], result⟩

@[simp]
theorem pure_events (value : Value) :
    (pure value : Traced Event Failure Value).events = [] :=
  rfl

@[simp]
theorem pure_result (value : Value) :
    (pure value : Traced Event Failure Value).result = .ok value :=
  rfl

theorem succeed_bind (value : Value)
    (rest : Value → Traced Event Failure Result) :
    (pure value : Traced Event Failure Value) >>= rest = rest value :=
  rfl

/-- A computation goes on with the value of its first part. -/
theorem bind_of_ok {first : Traced Event Failure Value} {value : Value}
    (succeeds : first.result = .ok value)
    (rest : Value → Traced Event Failure Result) :
    first >>= rest =
      ⟨first.events ++ (rest value).events, (rest value).result⟩ := by
  show andThen first rest = _
  rw [andThen, succeeds]

/-- A computation ends where its first part fails. -/
theorem bind_of_error {first : Traced Event Failure Value}
    {failure : Failure} (fails : first.result = .error failure)
    (rest : Value → Traced Event Failure Result) :
    first >>= rest = ⟨first.events, .error failure⟩ := by
  show andThen first rest = _
  rw [andThen, fails]

/-- A computation that succeeds has gone through both parts. -/
theorem bind_result_eq_ok {first : Traced Event Failure Value}
    {rest : Value → Traced Event Failure Result} {result : Result}
    (succeeds : (first >>= rest).result = .ok result) :
    ∃ value, first.result = .ok value ∧ (rest value).result = .ok result := by
  cases begins : first.result with
  | error failure =>
      rw [bind_of_error begins] at succeeds
      cases succeeds
  | ok value =>
      rw [bind_of_ok begins] at succeeds
      exact ⟨value, rfl, succeeds⟩

theorem emit_bind (event : Event)
    (rest : PUnit → Traced Event Failure Result) :
    emit event >>= rest =
      ⟨event :: (rest ⟨⟩).events, (rest ⟨⟩).result⟩ :=
  rfl

theorem lift_ok_bind (value : Value)
    (rest : Value → Traced Event Failure Result) :
    lift (.ok value) >>= rest = rest value :=
  rfl

theorem forall_events_pure {keeps : Event → Prop} (value : Value) :
    ∀ event ∈ (pure value : Traced Event Failure Value).events, keeps event :=
  List.forall_mem_nil keeps

theorem forall_events_fail {keeps : Event → Prop} (failure : Failure) :
    ∀ event ∈ (fail failure : Traced Event Failure Value).events,
      keeps event :=
  List.forall_mem_nil keeps

theorem forall_events_lift {keeps : Event → Prop}
    (result : Except Failure Value) :
    ∀ event ∈ (lift result : Traced Event Failure Value).events, keeps event :=
  List.forall_mem_nil keeps

theorem forall_events_emit {keeps : Event → Prop} {event : Event}
    (kept : keeps event) :
    ∀ other ∈ (emit event : Traced Event Failure PUnit).events,
      keeps other := by
  intro other mem
  cases List.mem_singleton.mp mem
  exact kept

/-- What every part of a computation keeps of the events, the whole keeps. -/
theorem forall_events_bind {keeps : Event → Prop}
    {first : Traced Event Failure Value}
    {rest : Value → Traced Event Failure Result}
    (before : ∀ event ∈ first.events, keeps event)
    (after : ∀ value, first.result = .ok value →
      ∀ event ∈ (rest value).events, keeps event) :
    ∀ event ∈ (first >>= rest).events, keeps event := by
  cases succeeds : first.result with
  | error failure =>
      rw [bind_of_error succeeds]
      exact before
  | ok value =>
      rw [bind_of_ok succeeds]
      intro event mem
      rcases List.mem_append.mp mem with mem | mem
      · exact before event mem
      · exact after value succeeds event mem

/-- A failure of a computation is one of its parts. -/
theorem forall_failures_bind {keeps : Failure → Prop}
    {first : Traced Event Failure Value}
    {rest : Value → Traced Event Failure Result}
    (before : ∀ failure, first.result = .error failure → keeps failure)
    (after : ∀ value, first.result = .ok value →
      ∀ failure, (rest value).result = .error failure → keeps failure) :
    ∀ failure, (first >>= rest).result = .error failure → keeps failure := by
  intro failure fails
  cases begins : first.result with
  | error cause =>
      rw [bind_of_error begins] at fails
      cases fails
      exact before failure begins
  | ok value =>
      rw [bind_of_ok begins] at fails
      exact after value begins failure fails

end Traced

/-!
# Traces with answers

An event of a trace may open something, close it, or do neither.  In an
answered trace the keys are closed one after another, and what is opened is
closed by the next event.
-/

namespace AnsweredTraces

variable {Event Key : Type*}

inductive Mark (Key : Type*) where
  | opens (key : Key)
  | closes (key : Key)
  | other

def Mark.closed? : Mark Key → Option Key
  | .closes key => some key
  | _ => none

/-- The keys are closed in their order, each of them with or without an opening
right before. -/
inductive Answered (mark : Event → Mark Key) : List Key → List Event → Prop
  | nil : Answered mark [] []
  | alone {event : Event} {key : Key} {keys : List Key} {events : List Event}
      (closes : mark event = .closes key) (later : Answered mark keys events) :
      Answered mark (key :: keys) (event :: events)
  | pair {first second : Event} {key : Key} {keys : List Key}
      {events : List Event} (opens : mark first = .opens key)
      (closes : mark second = .closes key)
      (later : Answered mark keys events) :
      Answered mark (key :: keys) (first :: second :: events)

namespace Answered

variable {mark : Event → Mark Key} {keys : List Key} {events : List Event}

theorem filterMap_closed (answered : Answered mark keys events) :
    events.filterMap (fun event => (mark event).closed?) = keys := by
  induction answered with
  | nil => rfl
  | alone closes _ ih =>
      rw [List.filterMap_cons_some (by rw [closes]; rfl), ih]
  | pair opens closes _ ih =>
      rw [List.filterMap_cons_none (by rw [opens]; rfl),
        List.filterMap_cons_some (by rw [closes]; rfl), ih]

theorem not_other (answered : Answered mark keys events) :
    ∀ event ∈ events, mark event ≠ .other := by
  induction answered with
  | nil => simp
  | alone closes _ ih =>
      exact List.forall_mem_cons.mpr ⟨by simp [closes], ih⟩
  | pair opens closes _ ih =>
      exact List.forall_mem_cons.mpr ⟨by simp [opens],
        List.forall_mem_cons.mpr ⟨by simp [closes], ih⟩⟩

/-- What is opened is closed by the next event, also when the trace goes on. -/
theorem closes_next (answered : Answered mark keys events)
    {before after rest : List Event} {event : Event} {key : Key}
    (whole : events ++ rest = before ++ event :: after)
    (inside : before.length < events.length) (opens : mark event = .opens key) :
    ∃ answer later, after = answer :: later ∧ mark answer = .closes key := by
  induction answered generalizing before with
  | nil => simp at inside
  | @alone first _ _ events closes _ ih =>
      cases before with
      | nil =>
          obtain ⟨rfl, -⟩ := List.cons.inj whole
          rw [closes] at opens
          cases opens
      | cons other before =>
          obtain ⟨-, whole⟩ := List.cons.inj whole
          exact ih whole (by simpa using inside)
  | @pair first second _ _ events firstOpens closes _ ih =>
      cases before with
      | nil =>
          obtain ⟨rfl, rfl⟩ := List.cons.inj whole
          rw [firstOpens, Mark.opens.injEq] at opens
          exact ⟨second, events ++ rest, rfl, opens ▸ closes⟩
      | cons other before =>
          obtain ⟨-, whole⟩ := List.cons.inj whole
          cases before with
          | nil =>
              obtain ⟨rfl, -⟩ := List.cons.inj whole
              rw [closes] at opens
              cases opens
          | cons another before =>
              obtain ⟨-, whole⟩ := List.cons.inj whole
              exact ih whole (by simpa using inside)

end Answered

end AnsweredTraces
