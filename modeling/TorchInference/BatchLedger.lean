import Mathlib.Algebra.BigOperators.Group.Multiset.Basic
import Mathlib.Algebra.Order.Group.Multiset

/-!
# Items that move in batches through a fixed number of slots

An item is pending until it is taken into a batch or cleared.  Forming a batch
needs a reserved slot; the batch occupies the slot, counted at first and no
longer counted shortly before the slot becomes free again.  Nothing is lost,
and the slots add up.
-/

namespace BatchLedger

variable {Item : Type*}

@[ext]
structure Ledger (Item : Type*) where
  accepted : Multiset Item
  pending : Multiset Item
  batches : Multiset (List Item)
  cleared : Multiset Item
  free : Nat
  reserved : Nat
  counted : Nat
  uncounted : Nat

/-- The items of all batches ever formed. -/
def Ledger.batched (ledger : Ledger Item) : Multiset Item :=
  (ledger.batches.map fun batch : List Item => (batch : Multiset Item)).sum

inductive Step (maxBatchSize : Nat) : Ledger Item → Ledger Item → Prop
  | stay (ledger : Ledger Item) : Step maxBatchSize ledger ledger
  | accept (ledger : Ledger Item) (item : Item) :
      Step maxBatchSize ledger
        { ledger with
          accepted := item ::ₘ ledger.accepted
          pending := item ::ₘ ledger.pending }
  | clear (ledger : Ledger Item) :
      Step maxBatchSize ledger
        { ledger with
          pending := 0
          cleared := ledger.cleared + ledger.pending }
  | reserve (ledger : Ledger Item) (free : Nat) (one : ledger.free = free + 1) :
      Step maxBatchSize ledger
        { ledger with free := free, reserved := ledger.reserved + 1 }
  | cancel (ledger : Ledger Item) (reserved : Nat)
      (one : ledger.reserved = reserved + 1) :
      Step maxBatchSize ledger
        { ledger with free := ledger.free + 1, reserved := reserved }
  | form (ledger : Ledger Item) (batch : List Item) (rest : Multiset Item)
      (reserved : Nat) (taken : ledger.pending = batch + rest)
      (small : batch.length ≤ maxBatchSize)
      (one : ledger.reserved = reserved + 1) :
      Step maxBatchSize ledger
        { ledger with
          pending := rest
          batches := batch ::ₘ ledger.batches
          reserved := reserved
          counted := ledger.counted + 1 }
  | uncount (ledger : Ledger Item) (counted : Nat)
      (one : ledger.counted = counted + 1) :
      Step maxBatchSize ledger
        { ledger with counted := counted, uncounted := ledger.uncounted + 1 }
  | finish (ledger : Ledger Item) (uncounted : Nat)
      (one : ledger.uncounted = uncounted + 1) :
      Step maxBatchSize ledger
        { ledger with free := ledger.free + 1, uncounted := uncounted }

/-- Every accepted item is in one place, every batch is small enough and every
slot is in one state. -/
structure Conserved (maxBatchSize slots : Nat) (ledger : Ledger Item) :
    Prop where
  items : ledger.accepted = ledger.pending + ledger.batched + ledger.cleared
  sizes : ∀ batch ∈ ledger.batches, batch.length ≤ maxBatchSize
  slots : ledger.free + ledger.reserved + ledger.counted + ledger.uncounted =
    slots

theorem Conserved.step {maxBatchSize slots : Nat} {ledger next : Ledger Item}
    (conserved : Conserved maxBatchSize slots ledger)
    (stepTo : Step maxBatchSize ledger next) :
    Conserved maxBatchSize slots next := by
  obtain ⟨items, sizes, slots⟩ := conserved
  cases stepTo with
  | stay => exact ⟨items, sizes, slots⟩
  | accept item =>
      refine ⟨?_, sizes, slots⟩
      simp only [items, Ledger.batched, Multiset.cons_add]
  | clear =>
      refine ⟨?_, sizes, slots⟩
      simp only [items, Ledger.batched, zero_add]
      ac_rfl
  | reserve free one =>
      refine ⟨items, sizes, ?_⟩
      simp only
      omega
  | cancel reserved one =>
      refine ⟨items, sizes, ?_⟩
      simp only
      omega
  | form batch rest reserved taken small one =>
      refine ⟨?_, ?_, ?_⟩
      · simp only [items, taken, Ledger.batched, Multiset.map_cons,
          Multiset.sum_cons]
        ac_rfl
      · intro other member
        rcases Multiset.mem_cons.mp member with rfl | before
        · exact small
        · exact sizes other before
      · simp only
        omega
  | uncount counted one =>
      refine ⟨items, sizes, ?_⟩
      simp only
      omega
  | finish uncounted one =>
      refine ⟨items, sizes, ?_⟩
      simp only
      omega

end BatchLedger
