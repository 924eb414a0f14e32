import Mathlib.Data.List.Basic
import Mathlib.Data.Set.Basic
import Mathlib.Logic.Function.Basic

/-!
# Pools of reusable items

A pool keeps returned items in stacks that are looked up by a key and hold no
more than a limit.  A request takes the item returned last under its key, or
makes a fresh one.  What a request needs of its item and how the two keys are
computed is left to the user of the pool; the pool serves every sequence of
calls well exactly when whatever is filed under a request's key is good for it.
-/

namespace KeyedPool

variable {Request Return Key Item : Type*}

structure Pool (Key Item : Type*) where
  items : Key → List Item
  limit : Nat
  allocations : UInt64
  reuses : UInt64

namespace Pool

def empty (limit : Nat) : Pool Key Item :=
  ⟨fun _ => [], limit, 0, 0⟩

variable [DecidableEq Key]

/-- The item on top of the stack of a key, or a fresh one; `none` when there is
no memory for it. -/
def acquire (pool : Pool Key Item) (key : Key) (fresh : Option Item) :
    Option (Item × Pool Key Item) :=
  match (pool.items key).getLast? with
  | some item =>
      some (item, { pool with
        items := Function.update pool.items key (pool.items key).dropLast
        reuses := pool.reuses + 1 })
  | none =>
      fresh.map fun item =>
        (item, { pool with allocations := pool.allocations + 1 })

/-- A full stack drops the item. -/
def release (pool : Pool Key Item) (key : Key) (item : Item) :
    Pool Key Item :=
  if (pool.items key).length < pool.limit then
    { pool with
      items := Function.update pool.items key (pool.items key ++ [item]) }
  else pool

/-- Every item of the pool has a property that may depend on its key. -/
def Holds (property : Key → Item → Prop) (pool : Pool Key Item) : Prop :=
  ∀ key, ∀ item ∈ pool.items key, property key item

def Bounded (pool : Pool Key Item) : Prop :=
  ∀ key, (pool.items key).length ≤ pool.limit

variable {property : Key → Item → Prop} {pool after : Pool Key Item}
  {key : Key} {item : Item} {fresh : Option Item}

omit [DecidableEq Key] in
theorem holds_empty (limit : Nat) :
    (empty limit : Pool Key Item).Holds property := by
  intro key item member
  cases member

omit [DecidableEq Key] in
theorem bounded_empty (limit : Nat) : (empty limit : Pool Key Item).Bounded :=
  fun _ => Nat.zero_le _

/-- An acquired item was filed under the key or is fresh. -/
theorem Holds.acquire (holds : pool.Holds property)
    (acquires : pool.acquire key fresh = some (item, after)) :
    (property key item ∨ fresh = some item) ∧ after.Holds property := by
  unfold Pool.acquire at acquires
  split at acquires
  case h_1 top isTop =>
    simp only [Option.some.injEq, Prod.mk.injEq] at acquires
    obtain ⟨rfl, rfl⟩ := acquires
    refine ⟨Or.inl (holds key top (List.mem_of_getLast? isTop)), ?_⟩
    intro other remaining member
    by_cases same : other = key
    · subst same
      simp only [Function.update_self] at member
      exact holds other remaining (List.dropLast_subset _ member)
    · simp only [Function.update_of_ne same] at member
      exact holds other remaining member
  case h_2 =>
    obtain ⟨made, isMade, same⟩ := Option.map_eq_some_iff.mp acquires
    simp only [Prod.mk.injEq] at same
    obtain ⟨rfl, rfl⟩ := same
    exact ⟨Or.inr isMade, holds⟩

theorem Holds.release (holds : pool.Holds property)
    (returned : 0 < pool.limit → property key item) :
    (pool.release key item).Holds property := by
  unfold Pool.release
  split
  case isTrue room =>
    intro other remaining member
    by_cases same : other = key
    · subst same
      simp only [Function.update_self] at member
      rcases List.mem_append.mp member with before | last
      · exact holds other remaining before
      · rw [List.mem_singleton.mp last]
        exact returned (Nat.zero_lt_of_lt room)
    · simp only [Function.update_of_ne same] at member
      exact holds other remaining member
  case isFalse => exact holds

theorem Bounded.acquire (bounded : pool.Bounded)
    (acquires : pool.acquire key fresh = some (item, after)) :
    after.Bounded := by
  unfold Pool.acquire at acquires
  split at acquires
  case h_1 =>
    simp only [Option.some.injEq, Prod.mk.injEq] at acquires
    obtain ⟨-, rfl⟩ := acquires
    intro other
    by_cases same : other = key
    · subst same
      simp only [Function.update_self, List.length_dropLast]
      exact le_trans (Nat.sub_le _ _) (bounded other)
    · simp only [Function.update_of_ne same]
      exact bounded other
  case h_2 =>
    obtain ⟨made, -, same⟩ := Option.map_eq_some_iff.mp acquires
    simp only [Prod.mk.injEq] at same
    obtain ⟨-, rfl⟩ := same
    exact bounded

theorem Bounded.release (bounded : pool.Bounded) :
    (pool.release key item).Bounded := by
  unfold Pool.release
  split
  case isTrue room =>
    intro other
    by_cases same : other = key
    · subst same
      simp only [Function.update_self, List.length_append,
        List.length_singleton]
      exact room
    · simp only [Function.update_of_ne same]
      exact bounded other
  case isFalse => exact bounded

@[simp]
theorem limit_release : (pool.release key item).limit = pool.limit := by
  unfold Pool.release
  split <;> rfl

theorem limit_acquire
    (acquires : pool.acquire key fresh = some (item, after)) :
    after.limit = pool.limit := by
  unfold Pool.acquire at acquires
  split at acquires
  case h_1 =>
    cases acquires
    rfl
  case h_2 =>
    obtain ⟨made, -, same⟩ := Option.map_eq_some_iff.mp acquires
    cases same
    rfl

/-- An item returned to an empty pool is handed out next. -/
theorem acquire_release_empty {limit : Nat} (positive : 0 < limit)
    (key : Key) (item : Item) (fresh : Option Item) :
    ∃ after, ((empty limit).release key item).acquire key fresh =
      some (item, after) := by
  simp [Pool.release, Pool.acquire, empty, positive]

end Pool

/-- How requests and returns use a pool. -/
structure Use (Request Return Key Item : Type*) where
  requestKey : Request → Key
  fresh : Request → Option Item
  returnKey : Return → Key
  item : Return → Item

inductive Call (Request Return : Type*) where
  | acquire (request : Request)
  | release (returned : Return)

/-- The call uses only the given requests and returns. -/
def Call.Within (requests : Set Request) (returns : Set Return) :
    Call Request Return → Prop
  | .acquire request => request ∈ requests
  | .release returned => returned ∈ returns

namespace Use

variable [DecidableEq Key] (use : Use Request Return Key Item)

def step (pool : Pool Key Item) :
    Call Request Return → Option (Pool Key Item)
  | .acquire request =>
      (pool.acquire (use.requestKey request) (use.fresh request)).map Prod.snd
  | .release returned =>
      some (pool.release (use.returnKey returned) (use.item returned))

/-- The requests of a run with the items they are given; the run ends where
there is no memory. -/
def answers : Pool Key Item → List (Call Request Return) →
    List (Request × Item)
  | _, [] => []
  | pool, .acquire request :: calls =>
      match pool.acquire (use.requestKey request) (use.fresh request) with
      | none => []
      | some (item, after) => (request, item) :: answers after calls
  | pool, .release returned :: calls =>
      answers (pool.release (use.returnKey returned) (use.item returned)) calls

/-- The pool after a run. -/
def after : Pool Key Item → List (Call Request Return) → Pool Key Item
  | pool, [] => pool
  | pool, .acquire request :: calls =>
      match pool.acquire (use.requestKey request) (use.fresh request) with
      | none => pool
      | some (_, next) => after next calls
  | pool, .release returned :: calls =>
      after (pool.release (use.returnKey returned) (use.item returned)) calls

/-- Every item given out is good for its request. -/
def Serves (good : Request → Item → Prop) (limit : Nat)
    (calls : List (Call Request Return)) : Prop :=
  ∀ answer ∈ use.answers (Pool.empty limit) calls, good answer.1 answer.2

variable {use} {good : Request → Item → Prop} {requests : Set Request}
  {returns : Set Return} {pool : Pool Key Item}
  {calls : List (Call Request Return)}

/-- The bound on the stacks holds after every run. -/
theorem bounded_after (bounded : pool.Bounded) :
    (use.after pool calls).Bounded := by
  induction calls generalizing pool with
  | nil => exact bounded
  | cons call calls ih =>
      cases call with
      | acquire request =>
          simp only [after]
          split
          case h_1 => exact bounded
          case h_2 item next acquires => exact ih (bounded.acquire acquires)
      | release returned => exact ih bounded.release

theorem limit_after : (use.after pool calls).limit = pool.limit := by
  induction calls generalizing pool with
  | nil => rfl
  | cons call calls ih =>
      cases call with
      | acquire request =>
          simp only [after]
          split
          case h_1 => rfl
          case h_2 item next acquires =>
            rw [ih, Pool.limit_acquire acquires]
      | release returned =>
          simp only [after]
          rw [ih, Pool.limit_release]

/-- What a pool with room files under a key is a return. -/
def Filed (use : Use Request Return Key Item) (returns : Set Return)
    (limit : Nat) (key : Key) (item : Item) : Prop :=
  0 < limit ∧ ∃ returned ∈ returns,
    use.returnKey returned = key ∧ use.item returned = item

/-- When every return filed under a request's key is good for the request, so
is every item given out. -/
theorem good_of_mem_answers
    (freshGood : ∀ request ∈ requests, ∀ item,
      use.fresh request = some item → good request item)
    (filed : 0 < pool.limit → ∀ request ∈ requests, ∀ returned ∈ returns,
      use.returnKey returned = use.requestKey request →
        good request (use.item returned))
    (within : ∀ call ∈ calls, call.Within requests returns)
    (holds : pool.Holds (use.Filed returns pool.limit)) :
    ∀ answer ∈ use.answers pool calls, good answer.1 answer.2 := by
  induction calls generalizing pool with
  | nil =>
      intro answer member
      cases member
  | cons call calls ih =>
      have rest : ∀ call ∈ calls, call.Within requests returns :=
        fun call member => within call (List.mem_cons_of_mem _ member)
      have first := within call (List.mem_cons_self ..)
      cases call with
      | release returned =>
          have holdsNext := holds.release
            (fun positive => ⟨positive, returned, first, rfl, rfl⟩)
          exact ih (by simpa using filed) rest (by simpa using holdsNext)
      | acquire request =>
          intro answer member
          simp only [answers] at member
          split at member
          case h_1 => cases member
          case h_2 item next acquires =>
            obtain ⟨origin, holdsNext⟩ := holds.acquire acquires
            rcases List.mem_cons.mp member with rfl | later
            · rcases origin with ⟨positive, returned, isReturn, key, rfl⟩ | fresh
              · exact filed positive request first returned isReturn key
              · exact freshGood request first item fresh
            · have sameLimit := Pool.limit_acquire acquires
              exact ih (sameLimit ▸ filed) rest (sameLimit ▸ holdsNext)
                answer later

/-- A pool serves every run over some requests and returns exactly when it
keeps nothing or whatever is filed under a request's key is good for it. -/
theorem serves_iff
    (freshGood : ∀ request ∈ requests, ∀ item,
      use.fresh request = some item → good request item) (limit : Nat) :
    (∀ calls : List (Call Request Return),
        (∀ call ∈ calls, call.Within requests returns) →
          use.Serves good limit calls) ↔
      limit = 0 ∨ ∀ request ∈ requests, ∀ returned ∈ returns,
        use.returnKey returned = use.requestKey request →
          good request (use.item returned) := by
  constructor
  · intro serves
    rcases Nat.eq_zero_or_pos limit with zero | positive
    · exact Or.inl zero
    · refine Or.inr fun request isRequest returned isReturn sameKey => ?_
      have within : ∀ call ∈ [Call.release returned, Call.acquire request],
          call.Within requests returns := by
        intro call member
        simp only [List.mem_cons, List.not_mem_nil, or_false] at member
        rcases member with rfl | rfl
        · exact isReturn
        · exact isRequest
      obtain ⟨next, acquires⟩ := Pool.acquire_release_empty positive
        (use.requestKey request) (use.item returned) (use.fresh request)
      refine serves _ within (request, use.item returned) ?_
      simp [answers, sameKey, acquires]
  · intro filed calls within
    refine good_of_mem_answers freshGood (fun positive => ?_) within
      (Pool.holds_empty limit)
    exact filed.resolve_left (Nat.ne_of_gt positive)

end Use

end KeyedPool
