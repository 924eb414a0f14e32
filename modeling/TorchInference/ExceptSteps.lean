import Mathlib.Data.List.Basic

/-!
# Computations that may fail

A computation that succeeds has gone through all of its steps.
-/

namespace ExceptSteps

universe u

variable {Failure Other : Type*} {Value Result : Type u}

theorem bind_eq_ok {first : Except Failure Value}
    {rest : Value → Except Failure Result} {result : Result}
    (succeeds : (first >>= rest) = .ok result) :
    ∃ value, first = .ok value ∧ rest value = .ok result := by
  cases first with
  | error failure => cases succeeds
  | ok value => exact ⟨value, rfl, succeeds⟩

theorem mapError_eq_ok {first : Except Failure Value}
    {translate : Failure → Other} {value : Value}
    (succeeds : first.mapError translate = .ok value) :
    first = .ok value := by
  cases first with
  | error failure => cases succeeds
  | ok value => exact congrArg Except.ok (Except.ok.inj succeeds)

theorem map_eq_ok {first : Except Failure Value} {change : Value → Result}
    {result : Result} (succeeds : first.map change = .ok result) :
    ∃ value, first = .ok value ∧ change value = result := by
  cases first with
  | error failure => cases succeeds
  | ok value => exact ⟨value, rfl, Except.ok.inj succeeds⟩

theorem elim_eq_ok {option : Option Value} {failure : Failure}
    {value : Value}
    (succeeds : option.elim (.error failure) .ok = Except.ok value) :
    option = some value := by
  cases option with
  | none => cases succeeds
  | some value => exact congrArg some (Except.ok.inj succeeds)

/-- A traversal that succeeds has done so at every item. -/
theorem mapM_eq_ok {Item : Type*} {visit : Item → Except Failure Value}
    {items : List Item} {results : List Value}
    (succeeds : items.mapM visit = .ok results) :
    List.Forall₂ (fun item result => visit item = .ok result) items
      results := by
  induction items generalizing results with
  | nil =>
      cases succeeds
      exact .nil
  | cons item items ih =>
      rw [List.mapM_cons] at succeeds
      obtain ⟨result, visited, succeeds⟩ := bind_eq_ok succeeds
      obtain ⟨later, rest, succeeds⟩ := bind_eq_ok succeeds
      cases succeeds
      exact .cons visited (ih rest)

/-- Items that are related through others are related in order. -/
theorem forall₂_comp {Item Between Last : Type*} {First : Item → Between → Prop}
    {Second : Between → Last → Prop} {Composed : Item → Last → Prop}
    {items : List Item} {between : List Between} {last : List Last}
    (first : List.Forall₂ First items between)
    (second : List.Forall₂ Second between last)
    (compose : ∀ {item middle result}, First item middle → Second middle result →
      Composed item result) :
    List.Forall₂ Composed items last := by
  induction first generalizing last with
  | nil =>
      cases second
      exact .nil
  | cons here _ ih =>
      cases second with
      | cons there others => exact .cons (compose here there) (ih others)

/-- A traversal that succeeds at every item succeeds. -/
theorem mapM_of_forall {Item : Type*} {visit : Item → Except Failure Value}
    {items : List Item} {Related : Item → Value → Prop}
    (each : ∀ item ∈ items, ∃ result, visit item = .ok result ∧
      Related item result) :
    ∃ results, items.mapM visit = .ok results ∧
      List.Forall₂ Related items results := by
  induction items with
  | nil => exact ⟨[], rfl, .nil⟩
  | cons item items ih =>
      obtain ⟨result, visited, related⟩ := each item List.mem_cons_self
      obtain ⟨results, rest, others⟩ :=
        ih fun other mem => each other (List.mem_cons_of_mem item mem)
      refine ⟨result :: results, ?_, .cons related others⟩
      rw [List.mapM_cons, visited, rest]
      rfl

/-- What holds of the results of a traversal is what holds of the items. -/
theorem forall_mapM_iff {Item : Type*} {visit : Item → Except Failure Value}
    {items : List Item} {results : List Value} {ofResult : Value → Prop}
    {ofItem : Item → Prop} (succeeds : items.mapM visit = .ok results)
    (agree : ∀ item ∈ items, ∀ result, visit item = .ok result →
      (ofResult result ↔ ofItem item)) :
    (∀ result ∈ results, ofResult result) ↔ ∀ item ∈ items, ofItem item := by
  have visited := mapM_eq_ok succeeds
  clear succeeds
  induction visited with
  | nil => simp
  | @cons item result items results first _ ih =>
      have later := ih fun other mem =>
        agree other (List.mem_cons_of_mem item mem)
      rw [List.forall_mem_cons, List.forall_mem_cons]
      exact and_congr (agree item List.mem_cons_self result first) later

/-- The results of a traversal are related to its items where each of them
is. -/
theorem forall₂_mapM_iff {Item : Type*} {visit : Item → Except Failure Value}
    {items : List Item} {results : List Value} {Related : Item → Value → Prop}
    {ofItem : Item → Prop} (succeeds : items.mapM visit = .ok results)
    (agree : ∀ item ∈ items, ∀ result, visit item = .ok result →
      (Related item result ↔ ofItem item)) :
    List.Forall₂ Related items results ↔ ∀ item ∈ items, ofItem item := by
  have visited := mapM_eq_ok succeeds
  clear succeeds
  induction visited with
  | nil => simp
  | @cons item result items results first _ ih =>
      have later := ih fun other mem =>
        agree other (List.mem_cons_of_mem item mem)
      rw [List.forall₂_cons, List.forall_mem_cons]
      exact and_congr (agree item List.mem_cons_self result first) later

end ExceptSteps
