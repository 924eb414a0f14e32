import TorchInference.PriorityHeap
import Mathlib.Algebra.Group.Nat.Defs
import Mathlib.Data.List.Sort

/-!
# Draining in stable order

A heap whose items carry the numbers of their pushes pops them as a stable
sort by priority lists them.  `Pending` says so without a heap: it keeps the
requests in the order they were pushed, and a drain takes the first of them
after they are stably sorted.
-/

namespace PriorityHeap

variable {Item : Type*}

/-- Sorting keeps the order of items neither of which must stand before the
other. -/
theorem orderedInsert_stable {r s : Item → Item → Prop} [DecidableRel r]
    [Std.Total r] [IsTrans Item r] {item : Item} {items : List Item}
    (sorted : items.Pairwise fun first second =>
      r first second ∧ (r second first → s first second))
    (earlier : ∀ other ∈ items, s item other) :
    (items.orderedInsert r item).Pairwise fun first second =>
      r first second ∧ (r second first → s first second) := by
  induction items with
  | nil => exact List.pairwise_singleton _ _
  | cons head items ih =>
      obtain ⟨first, later⟩ := List.pairwise_cons.mp sorted
      rw [List.orderedInsert_cons]
      split_ifs with before
      · refine List.pairwise_cons.mpr ⟨fun other mem => ?_, sorted⟩
        refine ⟨?_, fun _ => earlier other mem⟩
        rcases List.mem_cons.mp mem with rfl | mem
        · exact before
        · exact IsTrans.trans _ _ _ before (first other mem).1
      · have after := (Std.Total.total item head).resolve_left before
        refine List.pairwise_cons.mpr ⟨fun other mem => ?_,
          ih later fun other mem => earlier other (List.mem_cons_of_mem _ mem)⟩
        rcases (List.mem_orderedInsert r).mp mem with rfl | mem
        · exact ⟨after, fun before' => absurd before' before⟩
        · exact first other mem

theorem insertionSort_stable {r s : Item → Item → Prop} [DecidableRel r]
    [Std.Total r] [IsTrans Item r] {items : List Item}
    (inOrder : items.Pairwise s) :
    (items.insertionSort r).Pairwise fun first second =>
      r first second ∧ (r second first → s first second) := by
  induction items with
  | nil => exact List.Pairwise.nil
  | cons item items ih =>
      obtain ⟨first, later⟩ := List.pairwise_cons.mp inOrder
      rw [List.insertionSort_cons]
      exact orderedInsert_stable (ih later)
        fun other mem => first other ((List.mem_insertionSort r).mp mem)

/-- Without the items of the first keys, the later items are left. -/
theorem filter_notMem_take {Key : Type*} [DecidableEq Key] {key : Item → Key}
    {items : List Item} (distinct : (items.map key).Nodup) (count : Nat) :
    (items.filter fun item => key item ∉ (items.take count).map key) =
      items.drop count := by
  have split := List.take_append_drop count items
  rw [← split, List.map_append] at distinct
  have apart := (List.nodup_append.mp distinct).2.2
  have gone : ((items.take count).filter fun item =>
      key item ∉ (items.take count).map key) = [] :=
    List.filter_eq_nil_iff.mpr fun item mem left =>
      of_decide_eq_true left (List.mem_map_of_mem mem)
  have kept : ((items.drop count).filter fun item =>
      key item ∉ (items.take count).map key) = items.drop count :=
    List.filter_eq_self.mpr fun item mem =>
      decide_eq_true fun taken =>
        apart _ taken _ (List.mem_map_of_mem mem) rfl
  calc
    (items.filter fun item => key item ∉ (items.take count).map key) =
        (items.take count ++ items.drop count).filter
          fun item => key item ∉ (items.take count).map key := by rw [split]
    _ = items.drop count := by
      rw [List.filter_append, gone, kept, List.nil_append]

section Sorted

variable {cmp : Item → Item → Ordering} [Std.TransCmp cmp]

/-- Nothing that stays is greater than what was popped. -/
theorem pop_greatest {items rest : List Item} {top : Item}
    (popped : pop cmp items = some (top, rest)) :
    ∀ item ∈ rest, (cmp top item).isGE := by
  induction items generalizing top rest with
  | nil => simp [pop] at popped
  | cons item items ih =>
      simp only [pop] at popped
      split at popped
      · simp only [Option.some.injEq, Prod.mk.injEq] at popped
        simp [← popped.2]
      · next greatest others found =>
          have before := ih found
          split_ifs at popped with less
          all_goals
            simp only [Option.some.injEq, Prod.mk.injEq] at popped
            obtain ⟨rfl, rfl⟩ := popped
          · intro other mem
            rcases List.mem_cons.mp mem with rfl | mem
            · rw [Std.OrientedCmp.gt_of_lt less]
              rfl
            · exact before other mem
          · have greater := Ordering.isGE_iff_ne_lt.mpr less
            intro other mem
            rcases List.mem_cons.mp ((pop_perm found).mem_iff.mpr mem) with
              rfl | mem
            · exact greater
            · exact Std.TransCmp.isGE_trans greater (before other mem)

/-- The first of the sorted items is popped. -/
theorem pop_of_sorted {items sorted : List Item} {first : Item}
    (same : items.Perm (first :: sorted))
    (descending : (first :: sorted).Pairwise fun item other =>
      cmp item other = .gt) :
    ∃ rest, pop cmp items = some (first, rest) ∧ rest.Perm sorted := by
  cases popped : pop cmp items with
  | none =>
      rw [pop_eq_none.mp popped] at same
      exact absurd same.symm.eq_nil (List.cons_ne_nil _ _)
  | some found =>
      obtain ⟨top, rest⟩ := found
      have whole := (pop_perm popped).trans same
      have isFirst : top = first := by
        rcases List.mem_cons.mp (whole.mem_iff.mp List.mem_cons_self) with
          isFirst | later
        · exact isFirst
        · have less := Std.OrientedCmp.lt_of_gt
            ((List.pairwise_cons.mp descending).1 top later)
          rcases List.mem_cons.mp (whole.mem_iff.mpr List.mem_cons_self) with
            isFirst | stays
          · exact isFirst.symm
          · have greatest := pop_greatest popped first stays
            rw [less] at greatest
            exact absurd greatest Bool.false_ne_true
      subst isFirst
      exact ⟨rest, rfl, whole.cons_inv⟩

/-- A drain takes the first of the sorted items. -/
theorem popUpTo_of_sorted (count : Nat) {items sorted : List Item}
    (same : items.Perm sorted)
    (descending : sorted.Pairwise fun item other => cmp item other = .gt) :
    (popUpTo cmp count items).1 = sorted.take count ∧
      (popUpTo cmp count items).2.Perm (sorted.drop count) := by
  induction count generalizing items sorted with
  | zero => exact ⟨rfl, same⟩
  | succ count ih =>
      cases sorted with
      | nil =>
          rw [same.eq_nil]
          exact ⟨rfl, List.Perm.refl _⟩
      | cons first sorted =>
          obtain ⟨rest, popped, same⟩ := pop_of_sorted same descending
          obtain ⟨drained, left⟩ := ih same (List.pairwise_cons.mp descending).2
          simp only [popUpTo, popped, List.take_succ_cons, List.drop_succ_cons]
          exact ⟨congrArg _ drained, left⟩

end Sorted

section Requests

variable {Request : Type*}

instance : Std.TransCmp (@Entry.cmp Request) :=
  inferInstanceAs (Std.TransCmp (compareLex (compareOn Entry.priority)
    fun self other => compareOn Entry.seq other self))

theorem Entry.cmp_eq_gt {self other : Entry Request} :
    self.cmp other = .gt ↔
      other.priority < self.priority ∨
        self.priority = other.priority ∧ self.seq < other.seq := by
  unfold Entry.cmp
  rw [Ordering.then_eq_gt, Std.compare_eq_gt, Std.compare_eq_gt,
    Std.LawfulEqOrd.compare_eq_iff_eq]

/-- The requests of a queue in the order they were pushed, each with the number
of its push. -/
structure Pending (Request : Type*) where
  pushed : Nat
  waiting : List (Request × Nat)

namespace Pending

def new : Pending Request :=
  ⟨0, []⟩

def push (pending : Pending Request) (request : Request) : Pending Request where
  pushed := pending.pushed + 1
  waiting := pending.waiting ++ [(request, pending.pushed)]

variable (priority : Request → Int32)

/-- The order of descending priority; requests of one priority are equals. -/
def Precedes (first second : Request × Nat) : Prop :=
  priority second.1 ≤ priority first.1

instance : DecidableRel (Precedes priority) :=
  fun first second =>
    inferInstanceAs (Decidable (priority second.1 ≤ priority first.1))

instance : Std.Total (Precedes priority) :=
  ⟨fun _ _ => Int32.le_total _ _⟩

instance : IsTrans (Request × Nat) (Precedes priority) :=
  ⟨fun _ _ _ before after => Int32.le_trans after before⟩

/-- The waiting requests, stably sorted by descending priority. -/
def inOrder (pending : Pending Request) : List (Request × Nat) :=
  pending.waiting.insertionSort (Precedes priority)

/-- The first requests in this order are answered; the others wait on. -/
def drain (count : Nat) (pending : Pending Request) :
    List Request × Pending Request :=
  let taken := (pending.inOrder priority).take count
  (taken.map Prod.fst,
    { pending with
      waiting := pending.waiting.filter fun request =>
        request.2 ∉ taken.map Prod.snd })

/-- The entry a request is kept as in a heap. -/
def entry (request : Request × Nat) : Entry Request :=
  ⟨priority request.1, UInt64.ofNat request.2, request.1⟩

/-- A heap and its next number hold the pending requests. -/
structure Holds (heap : List (Entry Request)) (nextSeq : UInt64)
    (pending : Pending Request) : Prop where
  heap_perm : heap.Perm (pending.waiting.map (entry priority))
  nextSeq : nextSeq = UInt64.ofNat pending.pushed
  numbers : pending.waiting.Pairwise fun first second => first.2 < second.2
  pushed : ∀ request ∈ pending.waiting, request.2 < pending.pushed

variable {priority} {heap : List (Entry Request)} {nextSeq : UInt64}
  {pending : Pending Request}

theorem holds_new : Holds priority [] 0 new where
  heap_perm := List.Perm.refl _
  nextSeq := rfl
  numbers := List.Pairwise.nil
  pushed := by simp [new]

theorem Holds.push (holds : Holds priority heap nextSeq pending)
    (request : Request) :
    Holds priority (⟨priority request, nextSeq, request⟩ :: heap) (nextSeq + 1)
      (pending.push request) where
  heap_perm := by
    rw [holds.nextSeq, Pending.push, List.map_append]
    exact (holds.heap_perm.cons _).trans (List.perm_append_singleton _ _).symm
  nextSeq := by
    rw [holds.nextSeq, Pending.push, UInt64.ofNat_add]
    rfl
  numbers := by
    refine List.pairwise_append.mpr
      ⟨holds.numbers, List.pairwise_singleton _ _,
        fun first mem second last => ?_⟩
    rw [List.mem_singleton.mp last]
    exact holds.pushed first mem
  pushed := by
    intro other mem
    rcases List.mem_append.mp mem with mem | last
    · exact Nat.lt_succ_of_lt (holds.pushed other mem)
    · rw [List.mem_singleton.mp last]
      exact Nat.lt_succ_self _

/-- As entries the sorted requests descend: numbers that fit in 64 bits break
every tie. -/
theorem Holds.descending (holds : Holds priority heap nextSeq pending)
    (fits : pending.pushed ≤ 2 ^ 64) :
    ((pending.inOrder priority).map (entry priority)).Pairwise
      fun self other => self.cmp other = .gt := by
  have sorted := insertionSort_stable (r := Precedes priority) holds.numbers
  have small : ∀ request ∈ pending.inOrder priority, request.2 < UInt64.size :=
    fun request mem => lt_of_lt_of_le
      (holds.pushed request ((List.mem_insertionSort _).mp mem)) fits
  refine List.pairwise_map.mpr (sorted.imp_of_mem ?_)
  rintro first second mem mem' ⟨before, earlier⟩
  refine Entry.cmp_eq_gt.mpr ?_
  by_cases tie : priority first.1 = priority second.1
  · refine Or.inr ⟨tie, ?_⟩
    exact (UInt64.ofNat_lt_iff_lt (small first mem) (small second mem')).mpr
      (earlier (Int32.le_of_eq tie))
  · exact Or.inl (Int32.lt_of_le_of_ne before (Ne.symm tie))

theorem Holds.length_heap (holds : Holds priority heap nextSeq pending) :
    heap.length = pending.waiting.length := by
  rw [holds.heap_perm.length_eq, List.length_map]

/-- What a drain leaves are the requests behind those it took. -/
theorem Holds.drain_waiting (holds : Holds priority heap nextSeq pending)
    (count : Nat) :
    ((pending.drain priority count).2.waiting).Perm
      ((pending.inOrder priority).drop count) := by
  have sorted : (pending.inOrder priority).Perm pending.waiting :=
    List.perm_insertionSort _ _
  have distinct : ((pending.inOrder priority).map Prod.snd).Nodup :=
    (sorted.map Prod.snd).nodup_iff.mpr
      (List.pairwise_map.mpr (holds.numbers.imp Nat.ne_of_lt))
  rw [← filter_notMem_take distinct count]
  exact sorted.symm.filter _

theorem Holds.drain (holds : Holds priority heap nextSeq pending)
    (fits : pending.pushed ≤ 2 ^ 64) (count : Nat) :
    ((popUpTo Entry.cmp count heap).1.map Entry.request =
        (pending.drain priority count).1) ∧
      Holds priority (popUpTo Entry.cmp count heap).2 nextSeq
        (pending.drain priority count).2 := by
  have same := holds.heap_perm.trans
    ((List.perm_insertionSort (Precedes priority) pending.waiting).symm.map
      (entry priority))
  obtain ⟨drained, left⟩ :=
    popUpTo_of_sorted count same (holds.descending fits)
  have waiting : (pending.drain priority count).2.waiting.Sublist
      pending.waiting := List.filter_sublist
  refine ⟨?_, ?_, holds.nextSeq, holds.numbers.sublist waiting,
    fun request mem => holds.pushed request (waiting.mem mem)⟩
  · rw [drained, ← List.map_take, List.map_map]
    rfl
  · rw [← List.map_drop] at left
    exact left.trans ((holds.drain_waiting count).symm.map _)

end Pending

end Requests

section Calls

variable {Queue Call Answer : Type*}

/-- Serve one call after the other and list what they answer. -/
def serveAll (serve : Call → Queue → List Answer × Queue) :
    List Call → Queue → List Answer × Queue
  | [], queue => ([], queue)
  | call :: calls, queue =>
      let (answers, queue) := serve call queue
      let (later, queue) := serveAll serve calls queue
      (answers ++ later, queue)

variable {serve : Call → Queue → List Answer × Queue}

/-- What every call keeps holds after all of them. -/
theorem serveAll_invariant {Invariant : Queue → Prop}
    (kept : ∀ call queue, Invariant queue → Invariant (serve call queue).2)
    (calls : List Call) {queue : Queue} (holds : Invariant queue) :
    Invariant (serveAll serve calls queue).2 := by
  induction calls generalizing queue with
  | nil => exact holds
  | cons call calls ih => exact ih (kept call queue holds)

/-- When each call answers as its model does, so do all of them.  The relation
may depend on the calls that are to come. -/
theorem serveAll_eq {Model ModelCall : Type*}
    {serve' : ModelCall → Model → List Answer × Model}
    (embed : Call → ModelCall)
    (Related : List Call → Queue → Model → Prop)
    (step : ∀ call calls queue model, Related (call :: calls) queue model →
      (serve call queue).1 = (serve' (embed call) model).1 ∧
        Related calls (serve call queue).2 (serve' (embed call) model).2)
    (calls : List Call) {queue : Queue} {model : Model}
    (related : Related calls queue model) :
    (serveAll serve calls queue).1 =
      (serveAll serve' (calls.map embed) model).1 := by
  induction calls generalizing queue model with
  | nil => rfl
  | cons call calls ih =>
      obtain ⟨same, next⟩ := step call calls queue model related
      exact congrArg₂ (· ++ ·) same (ih next)

/-- When each call answers with what was there or is new, up to order, and
keeps the rest, so do all of them. -/
theorem serveAll_perm {Request : Type*}
    {serve : Call → Queue → List (List Request) × Queue}
    {requests : Queue → List Request} {pushed : Call → List Request}
    (step : ∀ call queue,
      ((serve call queue).1.flatten ++ requests (serve call queue).2).Perm
        (requests queue ++ pushed call))
    (calls : List Call) (queue : Queue) :
    ((serveAll serve calls queue).1.flatten ++
        requests (serveAll serve calls queue).2).Perm
      (requests queue ++ calls.flatMap pushed) := by
  induction calls generalizing queue with
  | nil => simp [serveAll]
  | cons call calls ih =>
      have first := step call queue
      have later := ih (serve call queue).2
      simp only [serveAll, List.flatten_append, List.append_assoc,
        List.flatMap_cons]
      refine (later.append_left _).trans ?_
      rw [← List.append_assoc, ← List.append_assoc]
      exact first.append_right _

end Calls

/-- The calls that push requests and drain them. -/
inductive QueueCall (Request : Type*) where
  | push (request : Request)
  | drainUpTo (max : Nat)
  | drainAll

namespace QueueCall

variable {Request : Type*}

/-- The request a call brings, if any. -/
def pushed : QueueCall Request → List Request
  | push request => [request]
  | drainUpTo _ => []
  | drainAll => []

end QueueCall

/-- What the pending requests are after a call, and what it answers. -/
def Pending.serve {Request : Type*} (priority : Request → Int32) :
    QueueCall Request → Pending Request → List (List Request) × Pending Request
  | .push request, pending => ([], pending.push request)
  | .drainUpTo max, pending =>
      let (batch, pending) := pending.drain priority max
      ([batch], pending)
  | .drainAll, pending =>
      let (batch, pending) := pending.drain priority pending.waiting.length
      ([batch], pending)

namespace Pending

variable {Request : Type*}

/-- A heap holds the pending requests, and its numbers suffice for the calls to
come. -/
structure Serves (priority : Request → Int32) (calls : List (QueueCall Request))
    (heap : List (Entry Request)) (nextSeq : UInt64)
    (pending : Pending Request) : Prop where
  holds : Holds priority heap nextSeq pending
  fits : pending.pushed + (calls.flatMap QueueCall.pushed).length < 2 ^ 64

variable {priority : Request → Int32} {calls : List (QueueCall Request)}
  {heap : List (Entry Request)} {nextSeq : UInt64} {pending : Pending Request}

theorem Serves.push {request : Request}
    (serves : Serves priority (.push request :: calls) heap nextSeq pending) :
    Serves priority calls (⟨priority request, nextSeq, request⟩ :: heap)
      (nextSeq + 1) (pending.push request) where
  holds := serves.holds.push request
  fits := by
    have fits := serves.fits
    rw [List.flatMap_cons, List.length_append] at fits
    simp only [QueueCall.pushed, List.length_singleton] at fits
    simp only [Pending.push]
    omega

theorem Serves.drain {call : QueueCall Request}
    (serves : Serves priority (call :: calls) heap nextSeq pending)
    (count : Nat) :
    (popUpTo Entry.cmp count heap).1.map Entry.request =
        (pending.drain priority count).1 ∧
      Serves priority calls (popUpTo Entry.cmp count heap).2 nextSeq
        (pending.drain priority count).2 := by
  have fits := serves.fits
  rw [List.flatMap_cons, List.length_append] at fits
  obtain ⟨same, holds⟩ := serves.holds.drain (by omega) count
  refine ⟨same, holds, ?_⟩
  simp only [Pending.drain]
  omega

end Pending

end PriorityHeap
