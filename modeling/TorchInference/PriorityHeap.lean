import Mathlib.Data.List.Perm.Basic
import Mathlib.Order.Basic

/-!
# Heaps that serve the highest priority first

A binary heap is used through `push`, `pop`, `len` and `is_empty` only, so it is
kept as the list of its items.  `pop` removes a greatest item for the given
comparison; draining pops again and again.
-/

namespace PriorityHeap

/-- A request with its priority and the number of the push that brought it. -/
structure Entry (Request : Type*) where
  priority : Int32
  seq : UInt64
  request : Request

/-- Higher priorities are greater, and so are earlier pushes of one priority. -/
def Entry.cmp {Request : Type*} (self other : Entry Request) : Ordering :=
  (compare self.priority other.priority).then (compare other.seq self.seq)

variable {Item : Type*}

/-- Remove a greatest item. -/
def pop (cmp : Item → Item → Ordering) : List Item → Option (Item × List Item)
  | [] => none
  | item :: items =>
      match pop cmp items with
      | none => some (item, [])
      | some (top, rest) =>
          if cmp item top = .lt then some (top, item :: rest)
          else some (item, items)

/-- Pop at most `count` items; the drained ones come first. -/
def popUpTo (cmp : Item → Item → Ordering) :
    Nat → List Item → List Item × List Item
  | 0, items => ([], items)
  | count + 1, items =>
      match pop cmp items with
      | none => ([], items)
      | some (top, rest) =>
          let (drained, left) := popUpTo cmp count rest
          (top :: drained, left)

variable {cmp : Item → Item → Ordering}

theorem pop_eq_none {items : List Item} : pop cmp items = none ↔ items = [] := by
  cases items with
  | nil => simp [pop]
  | cons item items =>
      simp only [pop, reduceCtorEq, iff_false]
      split
      · simp
      · split_ifs <;> simp

/-- Popping loses nothing. -/
theorem pop_perm {items rest : List Item} {top : Item}
    (popped : pop cmp items = some (top, rest)) :
    (top :: rest).Perm items := by
  induction items generalizing top rest with
  | nil => simp [pop] at popped
  | cons item items ih =>
      simp only [pop] at popped
      split at popped
      · next empty =>
          rw [pop_eq_none] at empty
          simp only [Option.some.injEq, Prod.mk.injEq] at popped
          obtain ⟨rfl, rfl⟩ := popped
          rw [empty]
      · next greatest others found =>
          have before := ih found
          split_ifs at popped
          all_goals
            simp only [Option.some.injEq, Prod.mk.injEq] at popped
            obtain ⟨rfl, rfl⟩ := popped
          · exact (List.Perm.swap item greatest others).trans (before.cons item)
          · exact List.Perm.refl _

/-- Draining splits the items into the drained ones and those left. -/
theorem popUpTo_perm (cmp : Item → Item → Ordering) (count : Nat)
    (items : List Item) :
    ((popUpTo cmp count items).1 ++ (popUpTo cmp count items).2).Perm items := by
  induction count generalizing items with
  | zero => exact List.Perm.refl _
  | succ count ih =>
      simp only [popUpTo]
      split
      · exact List.Perm.refl _
      · next top rest popped =>
          have before := pop_perm popped
          exact ((ih rest).cons top).trans before

theorem popUpTo_length (cmp : Item → Item → Ordering) (count : Nat)
    (items : List Item) :
    (popUpTo cmp count items).1.length = min count items.length := by
  induction count generalizing items with
  | zero => simp [popUpTo]
  | succ count ih =>
      simp only [popUpTo]
      split
      · next empty =>
          rw [pop_eq_none] at empty
          simp [empty]
      · next top rest popped =>
          have size := (pop_perm popped).length_eq
          simp only [List.length_cons] at size ⊢
          rw [ih rest]
          omega

/-- Popping as often as there are items leaves none. -/
theorem popUpTo_length_self (cmp : Item → Item → Ordering) (items : List Item) :
    (popUpTo cmp items.length items).2 = [] := by
  have total := (popUpTo_perm cmp items.length items).length_eq
  have drained := popUpTo_length cmp items.length items
  rw [List.length_append, drained, Nat.min_self] at total
  exact List.length_eq_zero_iff.mp (by omega)

/-- Popping as often as there are items drains all of them. -/
theorem popUpTo_all_perm (cmp : Item → Item → Ordering) (items : List Item) :
    (popUpTo cmp items.length items).1.Perm items := by
  have whole := popUpTo_perm cmp items.length items
  rwa [popUpTo_length_self, List.append_nil] at whole

end PriorityHeap
