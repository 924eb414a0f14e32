import Mathlib.Algebra.BigOperators.Group.Finset.Piecewise
import Mathlib.Algebra.BigOperators.Group.List.Basic
import TorchInference.TransitionRuns

/-!
# Objects that are shared under keys

Workers look up the object of a key and call it.  A worker that finds none makes
one, unless another worker has made it in the meantime.  Keys can be removed,
and a worker that holds the object of a removed key still calls it.  Every
object answers as if it were called alone, and no more objects are made for a
key than it is removed, and one.
-/

namespace SharedObjects

open TransitionRuns

variable {Key Object Call Reply : Type*}

/-- How objects are made, at a time, and what they answer.  A call that does not
create leaves the table as it is when there is no object. -/
structure Behaviour (Object Call Reply : Type*) where
  fresh : Nat → Object
  answer : Object → Nat → Call → Reply × Object
  creates : Call → Bool

/-- A call that has been answered, with the object it left. -/
structure Answered (Object Call Reply : Type*) where
  time : Nat
  call : Call
  reply : Reply
  object : Object

/-- An object that was made for a key at some time. -/
structure SharedObject (Key Object : Type*) where
  key : Key
  made : Nat
  object : Object

/-- An answer of the object with a handle, to a worker that asked for a key. -/
structure Entry (Key Object Call Reply : Type*) where
  key : Key
  handle : Nat
  answered : Answered Object Call Reply

/-- What a worker is about to do: to look up, to insert, or to call. -/
inductive Stage (Key Call : Type*) where
  | idle
  | missed (key : Key) (call : Call)
  | holding (key : Key) (handle : Nat) (call : Call)

/-- The table, all objects that were made, by their handles, the workers, and
the answers so far. -/
structure Shared (Key Object Call Reply : Type*) where
  handles : Key → Option Nat
  objects : List (SharedObject Key Object)
  workers : Nat → Stage Key Call
  now : Nat
  history : List (Entry Key Object Call Reply)

inductive Event (Key Call : Type*) where
  | lookUp (worker : Nat) (key : Key) (call : Call)
  | insert (worker : Nat)
  | call (worker : Nat)
  | remove (key : Key)
  | clear
  | wait (time : Nat)

namespace Shared

/-- Nothing is there yet. -/
def initial (now : Nat) : Shared Key Object Call Reply where
  handles := fun _ => none
  objects := []
  workers := fun _ => .idle
  now
  history := []

section Objects

variable (behaviour : Behaviour Object Call Reply)
  (state : Shared Key Object Call Reply)

def move (worker : Nat) (stage : Stage Key Call) : Shared Key Object Call Reply :=
  { state with workers := Function.update state.workers worker stage }

theorem workers_move (worker : Nat) (stage : Stage Key Call) :
    (state.move worker stage).workers = Function.update state.workers worker stage :=
  rfl

/-- The key that an object was made for. -/
def owner (state : Shared Key Object Call Reply) (handle : Nat) : Option Key :=
  state.objects[handle]?.map SharedObject.key

theorem lt_of_owner {state : Shared Key Object Call Reply} {handle : Nat} {key : Key}
    (owned : state.owner handle = some key) :
    handle < state.objects.length := by
  obtain ⟨shared, present, -⟩ := Option.map_eq_some_iff.mp owned
  exact (List.getElem?_eq_some_iff.mp present).1

/-- Every handle that the table, a worker or an answer has for a key is that of an
object made for the key. -/
structure Owned (state : Shared Key Object Call Reply) : Prop where
  listed : ∀ key handle, state.handles key = some handle →
    state.owner handle = some key
  held : ∀ worker key handle call,
    state.workers worker = .holding key handle call →
      state.owner handle = some key
  logged : ∀ entry ∈ state.history, state.owner entry.handle = some entry.key

theorem Owned.initial (now : Nat) :
    (initial now : Shared Key Object Call Reply).Owned where
  listed key handle listed := by cases listed
  held worker key handle call holds := by cases holds
  logged entry mem := by cases mem

/-- An object answers a call. -/
def record (key : Key) (handle : Nat) (shared : SharedObject Key Object)
    (call : Call) : Shared Key Object Call Reply :=
  let (reply, object) := behaviour.answer shared.object state.now call
  { state with
    objects := state.objects.set handle { shared with object := object }
    history := state.history ++ [⟨key, handle, ⟨state.now, call, reply, object⟩⟩] }

variable {behaviour state}

section Recording

variable {handle other : Nat} {key : Key} {shared : SharedObject Key Object}
  {call : Call}

theorem getElem?_record_self (present : state.objects[handle]? = some shared) :
    (state.record behaviour key handle shared call).objects[handle]? =
      some { shared with
        object := (behaviour.answer shared.object state.now call).2 } :=
  List.getElem?_set_self (List.getElem?_eq_some_iff.mp present).1

theorem getElem?_record_of_ne (apart : handle ≠ other) :
    (state.record behaviour key handle shared call).objects[other]? =
      state.objects[other]? :=
  List.getElem?_set_ne apart

theorem owner_record (present : state.objects[handle]? = some shared) :
    (state.record behaviour key handle shared call).owner other =
      state.owner other := by
  rw [owner, owner]
  rcases eq_or_ne handle other with rfl | apart
  · rw [getElem?_record_self present, present]
    rfl
  · rw [getElem?_record_of_ne apart]

end Recording

/-- A worker may begin to hold what an object was made for, or go on to
something else. -/
theorem Owned.move (owned : state.Owned) (worker : Nat) {stage : Stage Key Call}
    (holds : ∀ key handle call, stage = .holding key handle call →
      state.owner handle = some key) : (state.move worker stage).Owned where
  listed := owned.listed
  held other key handle call isHolding := by
    rcases eq_or_ne other worker with rfl | apart
    · rw [workers_move, Function.update_self] at isHolding
      exact holds key handle call isHolding
    · rw [workers_move, Function.update_of_ne apart] at isHolding
      exact owned.held other key handle call isHolding
  logged := owned.logged

theorem Owned.record (owned : state.Owned) {key : Key} {handle : Nat} {call : Call}
    {shared : SharedObject Key Object}
    (present : state.objects[handle]? = some shared)
    (isOwner : state.owner handle = some key) :
    (state.record behaviour key handle shared call).Owned where
  listed other named listed := by
    rw [owner_record present]
    exact owned.listed other named listed
  held worker other named asked holds := by
    rw [owner_record present]
    exact owned.held worker other named asked holds
  logged entry mem := by
    rw [owner_record present]
    rcases List.mem_append.mp mem with earlier | last
    · exact owned.logged entry earlier
    · obtain rfl := List.mem_singleton.mp last
      exact isOwner

/-- Handles may be taken from the table. -/
theorem Owned.narrow (owned : state.Owned) {handles : Key → Option Nat}
    (fewer : ∀ key handle, handles key = some handle →
      state.handles key = some handle) : { state with handles := handles }.Owned where
  listed key handle listed := owned.listed key handle (fewer key handle listed)
  held := owned.held
  logged := owned.logged

end Objects

variable [DecidableEq Key] (behaviour : Behaviour Object Call Reply)
  (state : Shared Key Object Call Reply)

/-- Make an object for a key. -/
def make (key : Key) : Shared Key Object Call Reply :=
  { state with
    handles := Function.update state.handles key (some state.objects.length)
    objects := state.objects ++ [⟨key, state.now, behaviour.fresh state.now⟩] }

theorem handles_make (key : Key) :
    (state.make behaviour key).handles =
      Function.update state.handles key (some state.objects.length) :=
  rfl

variable {state} in
theorem getElem?_make {handle : Nat} {shared : SharedObject Key Object} {key : Key}
    (present : (state.make behaviour key).objects[handle]? = some shared) :
    state.objects[handle]? = some shared ∨
      handle = state.objects.length ∧
        shared = ⟨key, state.now, behaviour.fresh state.now⟩ := by
  rcases Nat.lt_or_ge handle state.objects.length with old | new
  · rw [make, List.getElem?_append_left old] at present
    exact Or.inl present
  · rw [make, List.getElem?_append_right new, List.getElem?_singleton] at present
    split_ifs at present with last
    exact Or.inr ⟨by omega, (Option.some.inj present).symm⟩

def step : Event Key Call → Option (Shared Key Object Call Reply)
  | .lookUp worker key call =>
      match state.workers worker, state.handles key with
      | .idle, some handle => some (state.move worker (.holding key handle call))
      | .idle, none =>
          some (if behaviour.creates call then state.move worker (.missed key call)
            else state)
      | _, _ => none
  | .insert worker =>
      match state.workers worker with
      | .missed key call =>
          match state.handles key with
          | some handle => some (state.move worker (.holding key handle call))
          | none =>
              some ((state.make behaviour key).move worker
                (.holding key state.objects.length call))
      | _ => none
  | .call worker =>
      match state.workers worker with
      | .holding key handle call =>
          state.objects[handle]?.map fun shared =>
            (state.record behaviour key handle shared call).move worker .idle
      | _ => none
  | .remove key =>
      some { state with handles := Function.update state.handles key none }
  | .clear => some { state with handles := fun _ => none }
  | .wait time => some { state with now := state.now + time }

end Shared

/-! ## What one step does -/

section Steps

variable [DecidableEq Key] {behaviour : Behaviour Object Call Reply}

namespace Shared

/-- The ways in which an event changes the state. -/
inductive Change (behaviour : Behaviour Object Call Reply)
    (state : Shared Key Object Call Reply) :
    Event Key Call → Shared Key Object Call Reply → Prop
  | unanswered (worker : Nat) (key : Key) (call : Call) :
      Change behaviour state (.lookUp worker key call) state
  | missed (worker : Nat) (key : Key) (call : Call) :
      Change behaviour state (.lookUp worker key call)
        (state.move worker (.missed key call))
  | found {event : Event Key Call} {worker handle : Nat} {key : Key} {call : Call}
      (asked : event = .lookUp worker key call ∨
        state.workers worker = .missed key call)
      (listed : state.handles key = some handle) :
      Change behaviour state event (state.move worker (.holding key handle call))
  | made {worker : Nat} {key : Key} {call : Call}
      (missed : state.workers worker = .missed key call)
      (absent : state.handles key = none) :
      Change behaviour state (.insert worker)
        ((state.make behaviour key).move worker
          (.holding key state.objects.length call))
  | answered {worker handle : Nat} {key : Key} {call : Call}
      {shared : SharedObject Key Object}
      (holds : state.workers worker = .holding key handle call)
      (present : state.objects[handle]? = some shared) :
      Change behaviour state (.call worker)
        ((state.record behaviour key handle shared call).move worker .idle)
  | removed (key : Key) :
      Change behaviour state (.remove key)
        { state with handles := Function.update state.handles key none }
  | cleared :
      Change behaviour state .clear { state with handles := fun _ => none }
  | waited (time : Nat) :
      Change behaviour state (.wait time) { state with now := state.now + time }

theorem change_of_step {state next : Shared Key Object Call Reply}
    {event : Event Key Call} (stepped : state.step behaviour event = some next) :
    Change behaviour state event next := by
  cases event with
  | lookUp worker key call =>
      simp only [step] at stepped
      split at stepped
      next handle idle listed =>
        obtain rfl := Option.some.inj stepped
        exact .found (Or.inl rfl) listed
      next idle absent =>
        obtain rfl := Option.some.inj stepped
        split_ifs
        · exact .missed worker key call
        · exact .unanswered worker key call
      next => cases stepped
  | insert worker =>
      simp only [step] at stepped
      split at stepped
      next key call missed =>
        split at stepped
        next handle listed =>
          obtain rfl := Option.some.inj stepped
          exact .found (Or.inr missed) listed
        next absent =>
          obtain rfl := Option.some.inj stepped
          exact .made missed absent
      next => cases stepped
  | call worker =>
      simp only [step] at stepped
      split at stepped
      next key handle call holds =>
        obtain ⟨shared, present, rfl⟩ := Option.map_eq_some_iff.mp stepped
        exact .answered holds present
      next => cases stepped
  | remove key =>
      obtain rfl := Option.some.inj stepped
      exact .removed key
  | clear =>
      obtain rfl := Option.some.inj stepped
      exact .cleared
  | wait time =>
      obtain rfl := Option.some.inj stepped
      exact .waited time

section Owners

variable {state : Shared Key Object Call Reply} {handle : Nat} {key other : Key}

theorem owner_make :
    (state.make behaviour key).owner state.objects.length = some key := by
  rw [owner, make, List.getElem?_concat_length, Option.map_some]

theorem owner_make_of_owner (owned : state.owner handle = some other) :
    (state.make behaviour key).owner handle = some other := by
  obtain ⟨shared, present, rfl⟩ := Option.map_eq_some_iff.mp owned
  rw [owner, make, List.getElem?_append_left (List.getElem?_eq_some_iff.mp present).1,
    present, Option.map_some]

end Owners

variable {state next : Shared Key Object Call Reply} {event : Event Key Call}

theorem Owned.make (owned : state.Owned) (key : Key) :
    (state.make behaviour key).Owned where
  listed other handle listed := by
    rcases eq_or_ne other key with rfl | apart
    · rw [handles_make, Function.update_self] at listed
      obtain rfl := Option.some.inj listed
      exact owner_make
    · rw [handles_make, Function.update_of_ne apart] at listed
      exact owner_make_of_owner (owned.listed other handle listed)
  held worker other handle call holds :=
    owner_make_of_owner (owned.held worker other handle call holds)
  logged entry mem := owner_make_of_owner (owned.logged entry mem)

theorem Owned.step (owned : state.Owned)
    (stepped : state.step behaviour event = some next) : next.Owned := by
  cases change_of_step stepped with
  | unanswered => exact owned
  | missed worker key call => exact owned.move worker (by rintro _ _ _ ⟨⟩)
  | found asked listed =>
      refine owned.move _ ?_
      rintro _ _ _ ⟨⟩
      exact owned.listed _ _ listed
  | made missed absent =>
      refine (owned.make _).move _ ?_
      rintro _ _ _ ⟨⟩
      exact owner_make
  | answered holds present =>
      exact (owned.record present (owned.held _ _ _ _ holds)).move _
        (by rintro _ _ _ ⟨⟩)
  | removed key =>
      refine owned.narrow ?_
      intro other handle listed
      rcases eq_or_ne other key with rfl | apart
      · rw [Function.update_self] at listed
        cases listed
      · rwa [Function.update_of_ne apart] at listed
  | cleared => exact owned.narrow (by rintro _ _ ⟨⟩)
  | waited time => exact ⟨owned.listed, owned.held, owned.logged⟩

end Shared

end Steps

/-! ## Every object answers as if it were alone -/

/-- Calls of an object, one after another, and what it is afterwards. -/
inductive Replays (behaviour : Behaviour Object Call Reply) (start : Object) :
    List (Answered Object Call Reply) → Object → Prop
  | nil : Replays behaviour start [] start
  | snoc {log : List (Answered Object Call Reply)} {object : Object}
      (before : Replays behaviour start log object) (time : Nat) (call : Call) :
      Replays behaviour start
        (log ++ [⟨time, call, (behaviour.answer object time call).1,
          (behaviour.answer object time call).2⟩])
        (behaviour.answer object time call).2

namespace Shared

/-- The answers of the object with a handle. -/
def answersOf (state : Shared Key Object Call Reply) (handle : Nat) :
    List (Answered Object Call Reply) :=
  (state.history.filter fun entry => entry.handle = handle).map Entry.answered

/-- The answers to the workers that asked for a key. -/
def answersFor [DecidableEq Key] (state : Shared Key Object Call Reply) (key : Key) :
    List (Answered Object Call Reply) :=
  (state.history.filter fun entry => entry.key = key).map Entry.answered

/-- The answers of every object are those of a fresh one that is called alone, in
order of time and not before it was made. -/
structure Replayed (behaviour : Behaviour Object Call Reply)
    (state : Shared Key Object Call Reply) : Prop where
  replays : ∀ handle shared, state.objects[handle]? = some shared →
    Replays behaviour (behaviour.fresh shared.made) (state.answersOf handle)
      shared.object
  ordered : (state.history.map fun entry => entry.answered.time).Pairwise (· ≤ ·)
  passed : ∀ entry ∈ state.history, entry.answered.time ≤ state.now
  made : ∀ handle shared, state.objects[handle]? = some shared →
    shared.made ≤ state.now ∧
      ∀ one ∈ state.answersOf handle, shared.made ≤ one.time

theorem Replayed.initial (behaviour : Behaviour Object Call Reply) (now : Nat) :
    (initial now : Shared Key Object Call Reply).Replayed behaviour where
  replays handle shared present := by cases present
  ordered := .nil
  passed entry mem := by cases mem
  made handle shared present := by cases present

variable {behaviour : Behaviour Object Call Reply}
  {state next : Shared Key Object Call Reply} {event : Event Key Call}

theorem answersOf_record (key : Key) (handle : Nat) (shared : SharedObject Key Object)
    (call : Call) (other : Nat) :
    (state.record behaviour key handle shared call).answersOf other =
      state.answersOf other ++ if handle = other then
        [⟨state.now, call, (behaviour.answer shared.object state.now call).1,
          (behaviour.answer shared.object state.now call).2⟩] else [] := by
  rw [answersOf, answersOf, record, List.filter_append, List.map_append]
  congr 1
  rw [List.filter_singleton]
  split_ifs <;> simp_all

theorem Replayed.record (replayed : state.Replayed behaviour) (key : Key)
    {handle : Nat} (call : Call) {shared : SharedObject Key Object}
    (present : state.objects[handle]? = some shared) :
    (state.record behaviour key handle shared call).Replayed behaviour where
  replays other found isFound := by
    rw [answersOf_record]
    rcases eq_or_ne handle other with rfl | apart
    · rw [getElem?_record_self present] at isFound
      obtain rfl := Option.some.inj isFound
      rw [if_pos rfl]
      exact (replayed.replays handle shared present).snoc state.now call
    · rw [getElem?_record_of_ne apart] at isFound
      rw [if_neg apart, List.append_nil]
      exact replayed.replays other found isFound
  ordered := by
    refine (List.map_append ▸ List.pairwise_append.mpr
      ⟨replayed.ordered, List.pairwise_singleton _ _, ?_⟩)
    intro time mem last isLast
    obtain ⟨entry, entryMem, rfl⟩ := List.mem_map.mp mem
    obtain rfl := List.mem_singleton.mp isLast
    exact replayed.passed entry entryMem
  passed entry mem := by
    rcases List.mem_append.mp mem with earlier | last
    · exact replayed.passed entry earlier
    · obtain rfl := List.mem_singleton.mp last
      exact Nat.le_refl _
  made other found isFound := by
    have unchanged : ∃ before, state.objects[other]? = some before ∧
        before.made = found.made := by
      rcases eq_or_ne handle other with rfl | apart
      · rw [getElem?_record_self present] at isFound
        obtain rfl := Option.some.inj isFound
        exact ⟨shared, present, rfl⟩
      · rw [getElem?_record_of_ne apart] at isFound
        exact ⟨found, isFound, rfl⟩
    obtain ⟨before, isBefore, sameTime⟩ := unchanged
    obtain ⟨passed, later⟩ := replayed.made other before isBefore
    rw [sameTime] at passed later
    refine ⟨passed, ?_⟩
    intro one mem
    rw [answersOf_record] at mem
    rcases List.mem_append.mp mem with earlier | last
    · exact later one earlier
    · split_ifs at last with same
      · obtain rfl := List.mem_singleton.mp last
        exact passed
      · cases last

/-- The answers of an object are in order. -/
theorem Replayed.answersOf_ordered (replayed : state.Replayed behaviour)
    (handle : Nat) :
    ((state.answersOf handle).map Answered.time).Pairwise (· ≤ ·) := by
  rw [answersOf, List.map_map]
  exact replayed.ordered.sublist (List.filter_sublist.map _)

/-- An object that has just been made has not answered. -/
theorem Owned.answersOf_length (owned : state.Owned) :
    state.answersOf state.objects.length = [] := by
  rw [answersOf, List.map_eq_nil_iff, List.filter_eq_nil_iff]
  intro entry mem isNew
  have old := lt_of_owner (owned.logged entry mem)
  exact Nat.ne_of_lt old (of_decide_eq_true isNew)

theorem Replayed.make [DecidableEq Key] (replayed : state.Replayed behaviour)
    (owned : state.Owned) (key : Key) :
    (state.make behaviour key).Replayed behaviour where
  replays handle shared present := by
    rcases getElem?_make behaviour present with old | ⟨rfl, rfl⟩
    · exact replayed.replays handle shared old
    · change Replays behaviour _ (state.answersOf _) _
      rw [owned.answersOf_length]
      exact .nil
  ordered := replayed.ordered
  passed := replayed.passed
  made handle shared present := by
    rcases getElem?_make behaviour present with old | ⟨rfl, rfl⟩
    · exact replayed.made handle shared old
    · refine ⟨Nat.le_refl _, ?_⟩
      change ∀ one ∈ state.answersOf _, _
      rw [owned.answersOf_length]
      rintro one ⟨⟩

theorem Replayed.step [DecidableEq Key] (replayed : state.Replayed behaviour)
    (owned : state.Owned) (stepped : state.step behaviour event = some next) :
    next.Replayed behaviour := by
  obtain ⟨replays, ordered, passed, made⟩ := replayed
  cases change_of_step stepped with
  | unanswered => exact ⟨replays, ordered, passed, made⟩
  | missed => exact ⟨replays, ordered, passed, made⟩
  | found => exact ⟨replays, ordered, passed, made⟩
  | @made worker key call missed absent =>
      have kept := Replayed.make ⟨replays, ordered, passed, made⟩ owned key
      exact ⟨kept.replays, kept.ordered, kept.passed, kept.made⟩
  | @answered worker handle key call shared holds present =>
      have kept := Replayed.record ⟨replays, ordered, passed, made⟩ key call present
      exact ⟨kept.replays, kept.ordered, kept.passed, kept.made⟩
  | removed => exact ⟨replays, ordered, passed, made⟩
  | cleared => exact ⟨replays, ordered, passed, made⟩
  | waited time =>
      refine ⟨replays, ordered, ?_, ?_⟩
      · exact fun entry mem => Nat.le_add_right_of_le (passed entry mem)
      · intro handle shared present
        obtain ⟨before, later⟩ := made handle shared present
        exact ⟨Nat.le_add_right_of_le before, later⟩

/-! ## What is asked -/

/-- All calls that wait or were answered are as required. -/
structure Asks (required : Key → Call → Prop)
    (state : Shared Key Object Call Reply) : Prop where
  missed : ∀ worker key call, state.workers worker = .missed key call →
    required key call
  held : ∀ worker key handle call, state.workers worker = .holding key handle call →
    required key call
  logged : ∀ entry ∈ state.history, required entry.key entry.answered.call

section Asking

variable {required : Key → Call → Prop}

theorem Asks.initial (now : Nat) :
    (initial now : Shared Key Object Call Reply).Asks required where
  missed worker key call missed := by cases missed
  held worker key handle call holds := by cases holds
  logged entry mem := by cases mem

/-- A worker goes on with a call that is as required. -/
theorem Asks.move (asks : state.Asks required) (worker : Nat)
    {stage : Stage Key Call}
    (missed : ∀ key call, stage = .missed key call → required key call)
    (holds : ∀ key handle call, stage = .holding key handle call →
      required key call) : (state.move worker stage).Asks required where
  missed other key call isMissed := by
    rw [workers_move] at isMissed
    rcases eq_or_ne other worker with rfl | apart
    · rw [Function.update_self] at isMissed
      exact missed key call isMissed
    · rw [Function.update_of_ne apart] at isMissed
      exact asks.missed other key call isMissed
  held other key handle call isHolding := by
    rw [workers_move] at isHolding
    rcases eq_or_ne other worker with rfl | apart
    · rw [Function.update_self] at isHolding
      exact holds key handle call isHolding
    · rw [Function.update_of_ne apart] at isHolding
      exact asks.held other key handle call isHolding
  logged := asks.logged

theorem Asks.step [DecidableEq Key] (asks : state.Asks required)
    (asked : ∀ worker key call, event = .lookUp worker key call → required key call)
    (stepped : state.step behaviour event = some next) : next.Asks required := by
  cases change_of_step stepped with
  | unanswered => exact asks
  | missed worker key call =>
      refine asks.move worker ?_ (by rintro _ _ _ ⟨⟩)
      rintro _ _ ⟨⟩
      exact asked worker key call rfl
  | found isAsked listed =>
      refine asks.move _ (by rintro _ _ ⟨⟩) ?_
      rintro _ _ _ ⟨⟩
      rcases isAsked with now | earlier
      · exact asked _ _ _ now
      · exact asks.missed _ _ _ earlier
  | @made worker key call missed absent =>
      have kept : (state.make behaviour key).Asks required :=
        ⟨asks.missed, asks.held, asks.logged⟩
      refine kept.move _ (by rintro _ _ ⟨⟩) ?_
      rintro _ _ _ ⟨⟩
      exact asks.missed _ _ _ missed
  | @answered worker handle key call shared holds present =>
      have kept : (state.record behaviour key handle shared call).Asks required := by
        refine ⟨asks.missed, asks.held, ?_⟩
        intro entry mem
        rcases List.mem_append.mp mem with earlier | last
        · exact asks.logged entry earlier
        · obtain rfl := List.mem_singleton.mp last
          exact asks.held _ _ _ _ holds
      exact kept.move _ (by rintro _ _ ⟨⟩) (by rintro _ _ _ ⟨⟩)
  | removed => exact ⟨asks.missed, asks.held, asks.logged⟩
  | cleared => exact ⟨asks.missed, asks.held, asks.logged⟩
  | waited => exact ⟨asks.missed, asks.held, asks.logged⟩

theorem asks_of_run [DecidableEq Key] {events : List (Event Key Call)}
    (asks : state.Asks required)
    (asked : ∀ worker key call, .lookUp worker key call ∈ events → required key call)
    (ran : run (step behaviour) state events = some next) : next.Asks required := by
  induction events generalizing state with
  | nil =>
      obtain rfl := Option.some.inj ran
      exact asks
  | cons event events ih =>
      obtain ⟨middle, stepped, rest⟩ := run_cons_eq_some ran
      refine ih (asks.step ?_ stepped) ?_ rest
      · rintro worker key call rfl
        exact asked worker key call List.mem_cons_self
      · exact fun worker key call mem =>
          asked worker key call (List.mem_cons_of_mem event mem)

theorem Asks.answersOf (asks : state.Asks required) (owned : state.Owned)
    {handle : Nat} {key : Key} (isOwner : state.owner handle = some key) :
    ∀ one ∈ state.answersOf handle, required key one.call := by
  intro one mem
  obtain ⟨entry, entryMem, rfl⟩ := List.mem_map.mp mem
  obtain ⟨logged, isHandle⟩ := List.mem_filter.mp entryMem
  have same := owned.logged entry logged
  rw [of_decide_eq_true isHandle, isOwner, Option.some.injEq] at same
  rw [same]
  exact asks.logged entry logged

end Asking

/-! ## Whole runs -/

section Runs

variable [DecidableEq Key] {start : Nat} {events : List (Event Key Call)}
  {final : Shared Key Object Call Reply}

theorem kept_of_run (ran : run (step behaviour) (initial start) events = some final) :
    final.Owned ∧ final.Replayed behaviour := by
  have kept : ∀ (state : Shared Key Object Call Reply) (event : Event Key Call)
      (next : Shared Key Object Call Reply),
      state.Owned ∧ state.Replayed behaviour →
        step behaviour state event = some next →
          next.Owned ∧ next.Replayed behaviour :=
    fun _ _ _ before stepped =>
      ⟨before.1.step stepped, before.2.step before.1 stepped⟩
  exact invariant_of_run_eq_some kept
    ⟨Owned.initial start, Replayed.initial behaviour start⟩ ran

/-- The handles of the objects that were made for a key. -/
def handlesOf (state : Shared Key Object Call Reply) (key : Key) : Finset Nat :=
  (Finset.range state.objects.length).filter fun handle =>
    state.owner handle = some key

theorem mem_handlesOf {key : Key} {handle : Nat} :
    handle ∈ state.handlesOf key ↔ state.owner handle = some key := by
  rw [handlesOf, Finset.mem_filter, Finset.mem_range]
  exact ⟨fun both => both.2, fun owned => ⟨lt_of_owner owned, owned⟩⟩

/-- One more object can be made for a key that is not in the table. -/
def missing (state : Shared Key Object Call Reply) (key : Key) : Nat :=
  if state.handles key = none then 1 else 0

/-- The event takes the key from the table. -/
def removes (key : Key) : Event Key Call → Bool
  | .remove other => other = key
  | .clear => true
  | _ => false

def removals (key : Key) (events : List (Event Key Call)) : Nat :=
  events.countP (removes key)

theorem card_handlesOf_make (behaviour : Behaviour Object Call Reply)
    (state : Shared Key Object Call Reply) (key other : Key) :
    ((state.make behaviour key).handlesOf other).card ≤
      (state.handlesOf other).card + if key = other then 1 else 0 := by
  have included : (state.make behaviour key).handlesOf other ⊆
      state.handlesOf other ∪ if key = other then {state.objects.length} else ∅ := by
    intro handle mem
    rw [mem_handlesOf] at mem
    obtain ⟨shared, present, isOther⟩ := Option.map_eq_some_iff.mp mem
    rcases getElem?_make behaviour present with old | ⟨rfl, rfl⟩
    · refine Finset.mem_union_left _ (mem_handlesOf.mpr ?_)
      rw [owner, old, Option.map_some, isOther]
    · refine Finset.mem_union_right _ ?_
      rw [if_pos isOther]
      exact Finset.mem_singleton_self _
  refine (Finset.card_le_card included).trans ((Finset.card_union_le _ _).trans ?_)
  split_ifs
  · rw [Finset.card_singleton]
  · rw [Finset.card_empty]

theorem handlesOf_record (behaviour : Behaviour Object Call Reply)
    (key other : Key) {handle : Nat} (call : Call)
    {shared : SharedObject Key Object}
    (present : state.objects[handle]? = some shared) :
    (state.record behaviour key handle shared call).handlesOf other =
      state.handlesOf other := by
  apply Finset.ext
  intro named
  rw [mem_handlesOf, mem_handlesOf, owner_record present]

/-- An object is made for a missing key only, and a key goes missing only when it
is removed. -/
theorem handlesOf_step (key : Key) {event : Event Key Call}
    (stepped : state.step behaviour event = some next) :
    (next.handlesOf key).card + next.missing key ≤
      (state.handlesOf key).card + state.missing key +
        if removes key event then 1 else 0 := by
  have few (handles : Key → Option Nat) :
      (if handles key = none then 1 else 0) ≤ 1 := by
    split_ifs <;> omega
  cases change_of_step stepped with
  | unanswered => exact Nat.le_add_right _ _
  | missed => exact Nat.le_add_right _ _
  | found => exact Nat.le_add_right _ _
  | @made worker made call missed absent =>
      have more := card_handlesOf_make behaviour state made key
      change ((state.make behaviour made).handlesOf key).card +
        (if (state.make behaviour made).handles key = none then 1 else 0) ≤
          _ + (if state.handles key = none then 1 else 0) + _
      rw [handles_make]
      rcases eq_or_ne made key with rfl | apart
      · rw [if_pos rfl] at more
        rw [Function.update_self, if_neg (by rintro ⟨⟩), if_pos absent]
        omega
      · rw [if_neg apart] at more
        rw [Function.update_of_ne apart.symm]
        omega
  | @answered worker handle asked call shared holds present =>
      have same := handlesOf_record behaviour asked key call present
      change ((state.record behaviour asked handle shared call).handlesOf key).card +
        state.missing key ≤ _
      rw [same]
      exact Nat.le_add_right _ _
  | removed other =>
      change (state.handlesOf key).card +
        (if Function.update state.handles other none key = none then 1 else 0) ≤
          _ + (if state.handles key = none then 1 else 0) +
            if decide (other = key) = true then 1 else 0
      rcases eq_or_ne other key with rfl | apart
      · rw [decide_eq_true rfl, if_pos rfl]
        exact (Nat.add_le_add_left (few _) _).trans
          (Nat.add_le_add_right (Nat.le_add_right _ _) 1)
      · rw [Function.update_of_ne apart.symm]
        exact Nat.le_add_right _ _
  | cleared =>
      exact (Nat.add_le_add_left (few _) _).trans
        (Nat.add_le_add_right (Nat.le_add_right _ _) 1)
  | waited time => exact Nat.le_add_right _ _

/-- No more objects are made for a key than it is removed, and one. -/
theorem card_handlesOf_le (key : Key)
    (ran : run (step behaviour) (initial start) events = some final) :
    (final.handlesOf key).card ≤ 1 + removals key events := by
  have counted : ∀ state : Shared Key Object Call Reply,
      run (step behaviour) state events = some final →
        (final.handlesOf key).card + final.missing key ≤
          (state.handlesOf key).card + state.missing key + removals key events := by
    intro state ran
    clear * - ran
    induction events generalizing state with
    | nil =>
        obtain rfl := Option.some.inj ran
        exact Nat.le_refl _
    | cons event events ih =>
        obtain ⟨next, stepped, rest⟩ := run_cons_eq_some ran
        have here := handlesOf_step key stepped
        have later := ih next rest
        rw [removals, List.countP_cons]
        rw [removals] at later
        omega
  have total := counted _ ran
  have empty : (initial start : Shared Key Object Call Reply).handlesOf key = ∅ := rfl
  rw [empty, Finset.card_empty] at total
  have one : (initial start : Shared Key Object Call Reply).missing key = 1 :=
    if_pos rfl
  omega

omit [DecidableEq Key] in
theorem sum_filter_cons {Amount : Type*} [AddCommMonoid Amount]
    (amount : Answered Object Call Reply → Amount)
    (test : Entry Key Object Call Reply → Bool)
    (entry : Entry Key Object Call Reply)
    (history : List (Entry Key Object Call Reply)) :
    ((((entry :: history).filter test).map Entry.answered).map amount).sum =
      (if test entry = true then amount entry.answered else 0) +
        (((history.filter test).map Entry.answered).map amount).sum := by
  rw [List.filter_cons]
  split_ifs
  · rw [List.map_cons, List.map_cons, List.sum_cons]
  · rw [zero_add]

/-- What is answered for a key is answered by the objects that were made for it. -/
theorem sum_answersFor {Amount : Type*} [AddCommMonoid Amount]
    (amount : Answered Object Call Reply → Amount) (owned : state.Owned) (key : Key) :
    ((state.answersFor key).map amount).sum =
      ∑ handle ∈ state.handlesOf key, ((state.answersOf handle).map amount).sum := by
  have logged : ∀ entry ∈ state.history,
      entry.key = key ↔ entry.handle ∈ state.handlesOf key := by
    intro entry mem
    rw [mem_handlesOf, owned.logged entry mem, Option.some.injEq]
  simp only [answersFor, answersOf]
  generalize state.handlesOf key = handles at logged ⊢
  generalize state.history = history at logged ⊢
  induction history with
  | nil => exact (Finset.sum_const_zero).symm
  | cons entry history ih =>
      have rest := ih fun other mem => logged other (List.mem_cons_of_mem entry mem)
      simp only [sum_filter_cons, decide_eq_true_eq, Finset.sum_add_distrib, rest,
        Finset.sum_ite_eq, logged entry List.mem_cons_self]

/-- A key that is never removed has one object, which answers everything. -/
theorem answersFor_eq (owned : state.Owned) {key : Key} {handle : Nat}
    (only : ∀ other, state.owner other = some key → other = handle)
    (isOwner : state.owner handle = some key) :
    state.answersFor key = state.answersOf handle := by
  rw [answersFor, answersOf]
  congr 1
  apply List.filter_congr
  intro entry mem
  have logged := owned.logged entry mem
  rw [decide_eq_decide]
  constructor
  · rintro rfl
    exact only _ logged
  · rintro rfl
    exact Option.some.inj (logged.symm.trans isOwner)

/-- While a key is not removed, all calls for it are answered by one object, as
if nobody called another one. -/
theorem answersFor_replays (key : Key)
    (ran : run (step behaviour) (initial start) events = some final)
    (keeps : removals key events = 0) :
    final.answersFor key = [] ∨ ∃ made object,
      Replays behaviour (behaviour.fresh made) (final.answersFor key) object := by
  obtain ⟨owned, replayed⟩ := kept_of_run ran
  have few := card_handlesOf_le key ran
  rw [keeps] at few
  rcases (final.handlesOf key).eq_empty_or_nonempty with none | ⟨handle, mem⟩
  · refine Or.inl ?_
    rw [answersFor, List.map_eq_nil_iff, List.filter_eq_nil_iff]
    intro entry entryMem isKey
    have logged := owned.logged entry entryMem
    rw [of_decide_eq_true isKey, ← mem_handlesOf, none] at logged
    exact absurd logged (Finset.notMem_empty _)
  · have isOwner := mem_handlesOf.mp mem
    obtain ⟨shared, present, -⟩ := Option.map_eq_some_iff.mp isOwner
    refine Or.inr ⟨shared.made, shared.object, ?_⟩
    rw [answersFor_eq owned (fun other isOther => ?_) isOwner]
    · exact replayed.replays handle shared present
    · exact Finset.card_le_one.mp few other (mem_handlesOf.mpr isOther) handle mem

end Runs

end Shared

end SharedObjects
