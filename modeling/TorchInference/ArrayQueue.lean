import Mathlib.Data.List.Basic

/-!
# Bounded first-in first-out queues

The queue carries the proof that it never holds more than its capacity.
Pushing onto a full queue changes nothing: the rejected element goes back to
the caller.
-/

/-- A queue of at most `capacity` elements, oldest first. -/
structure ArrayQueue (α : Type*) where
  capacity : Nat
  items : List α
  bounded : items.length ≤ capacity

namespace ArrayQueue

variable {α : Type*}

/-- The empty queue. -/
def empty (capacity : Nat) : ArrayQueue α :=
  ⟨capacity, [], Nat.zero_le capacity⟩

/-- Append an element if there is room for it. -/
def push (queue : ArrayQueue α) (item : α) : ArrayQueue α :=
  if room : queue.items.length < queue.capacity then
    ⟨queue.capacity, queue.items ++ [item], by
      rw [List.length_append, List.length_singleton]
      exact room⟩
  else
    queue

/-- Remove and return the oldest element. -/
def pop (queue : ArrayQueue α) : Option α × ArrayQueue α :=
  match queue with
  | ⟨capacity, [], bounded⟩ => (none, ⟨capacity, [], bounded⟩)
  | ⟨capacity, item :: items, bounded⟩ =>
      (some item, ⟨capacity, items, Nat.le_of_succ_le bounded⟩)

/-- Pop until the queue is empty, keeping what came out in order. -/
def drain (queue : ArrayQueue α) : List α × ArrayQueue α :=
  (queue.items, empty queue.capacity)

/-- Push a list of elements one after the other. -/
def pushAll (queue : ArrayQueue α) (items : List α) : ArrayQueue α :=
  items.foldl push queue

@[ext]
theorem ext {first second : ArrayQueue α}
    (capacities : first.capacity = second.capacity)
    (items : first.items = second.items) : first = second := by
  cases first
  cases second
  simp only at capacities items
  subst capacities
  subst items
  rfl

@[simp]
theorem empty_items (capacity : Nat) :
    (empty capacity : ArrayQueue α).items = [] :=
  rfl

@[simp]
theorem empty_capacity (capacity : Nat) :
    (empty capacity : ArrayQueue α).capacity = capacity :=
  rfl

@[simp]
theorem push_capacity (queue : ArrayQueue α) (item : α) :
    (queue.push item).capacity = queue.capacity := by
  unfold push
  split <;> rfl

theorem push_items_of_room {queue : ArrayQueue α}
    (room : queue.items.length < queue.capacity) (item : α) :
    (queue.push item).items = queue.items ++ [item] := by
  simp [push, room]

/-- Pushing adds the element at the end or, on a full queue, nothing. -/
theorem push_items_cases (queue : ArrayQueue α) (item : α) :
    (queue.push item).items = queue.items ++ [item] ∨
      (queue.push item).items = queue.items := by
  by_cases room : queue.items.length < queue.capacity
  · exact Or.inl (push_items_of_room room item)
  · right
    simp [push, room]

theorem pop_of_nil {queue : ArrayQueue α} (nil : queue.items = []) :
    queue.pop = (none, queue) := by
  obtain ⟨capacity, items, bounded⟩ := queue
  cases nil
  rfl

theorem pop_fst (queue : ArrayQueue α) :
    queue.pop.1 = queue.items.head? := by
  obtain ⟨capacity, _ | ⟨item, items⟩, bounded⟩ := queue <;> rfl

@[simp]
theorem pop_items (queue : ArrayQueue α) :
    queue.pop.2.items = queue.items.tail := by
  obtain ⟨capacity, _ | ⟨item, items⟩, bounded⟩ := queue <;> rfl

@[simp]
theorem pop_capacity (queue : ArrayQueue α) :
    queue.pop.2.capacity = queue.capacity := by
  obtain ⟨capacity, _ | ⟨item, items⟩, bounded⟩ := queue <;> rfl

/-- A list that fits is appended as a whole. -/
theorem pushAll_items_of_room (items : List α) (queue : ArrayQueue α)
    (room : queue.items.length + items.length ≤ queue.capacity) :
    (queue.pushAll items).items = queue.items ++ items := by
  induction items generalizing queue with
  | nil => simp [pushAll]
  | cons item items ih =>
      simp only [List.length_cons] at room
      have hasRoom : queue.items.length < queue.capacity := by omega
      have pushed := push_items_of_room hasRoom item
      have fits : (queue.push item).items.length + items.length ≤
          (queue.push item).capacity := by
        rw [pushed, push_capacity]
        simp only [List.length_append, List.length_singleton]
        omega
      have rest := ih (queue.push item) fits
      rw [pushed] at rest
      simpa [pushAll] using rest

@[simp]
theorem pushAll_capacity (items : List α) (queue : ArrayQueue α) :
    (queue.pushAll items).capacity = queue.capacity := by
  induction items generalizing queue with
  | nil => rfl
  | cons item items ih =>
      rw [pushAll, List.foldl_cons]
      exact (ih (queue.push item)).trans (push_capacity queue item)

end ArrayQueue
