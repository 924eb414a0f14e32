import Mathlib.Logic.Function.Basic
import TorchInference.MemoryGate
import TorchInference.TransitionRuns

/-!
# Calls of the memory gate that overlap

A call reads the resident memory, loads the latch, and may store it, with steps
of other calls in between.  A call that stores takes effect with its store, and
every other call with its load: a reading beyond a water mark decides the latch
whatever its value was, so a late store is as good as an early one.
-/

namespace TorchInference

open TransitionRuns

namespace MemoryGate

/-- `with_reader`; the marks are given in megabytes, and are not accepted in
the wrong order. -/
def withReader (highWaterMb lowWaterMb : UInt64) : Option MemoryGate :=
  if lowWaterMb ≤ highWaterMb then
    some ⟨highWaterMb * 1024 * 1024, lowWaterMb * 1024 * 1024, false⟩
  else none

def refusal (gate : MemoryGate) (rss : UInt64) : MemoryRefusal :=
  ⟨rss / 1024 / 1024, gate.highWaterBytes / 1024 / 1024⟩

/-- What `admit` stores, if it stores, and its answer, for the resident memory
it has read and the latch it has loaded. -/
def branch (gate : MemoryGate) (rss : UInt64) (wasAbove : Bool) :
    Option Bool × Except MemoryRefusal Unit :=
  if wasAbove then
    if rss < gate.lowWaterBytes then (some false, .ok ())
    else (none, .error (gate.refusal rss))
  else if gate.highWaterBytes < rss then
    (some true, .error (gate.refusal rss))
  else (none, .ok ())

/-- A call that no other overlaps. -/
theorem tryAdmit_eq_branch (gate : MemoryGate) (rss : UInt64) :
    gate.tryAdmit rss =
      ((gate.branch rss gate.aboveWater).2,
        { gate with
          aboveWater := (gate.branch rss gate.aboveWater).1.getD
            gate.aboveWater }) := by
  obtain ⟨high, low, above⟩ := gate
  unfold tryAdmit branch
  cases above with
  | true =>
      by_cases below : rss < low
      · simp [below]
      · simp [below, refusal]
  | false =>
      by_cases exceeds : high < rss
      · simp [exceeds, refusal]
      · simp [exceeds]

/-! ## Steps of calls -/

/-- How far a call has come. -/
inductive AdmitPhase where
  | idle
  | started
  | holding (rss : UInt64)
  | storing (rss : UInt64) (value : Bool)
      (answer : Except MemoryRefusal Unit)
  | answered (rss : UInt64) (answer : Except MemoryRefusal Unit)
  | returned (rss : UInt64) (answer : Except MemoryRefusal Unit)

/-- One step of a call; the reading may fail. -/
inductive AdmitAction where
  | invoke (call : Nat)
  | readRss (call : Nat) (reading : Option UInt64)
  | load (call : Nat)
  | store (call : Nat)
  | returns (call : Nat) (answer : Except MemoryRefusal Unit)

/-- The latch and the calls. -/
structure Admissions where
  aboveWater : Bool
  phase : Nat → AdmitPhase

namespace Admissions

/-- Before the first call. -/
def start : Admissions where
  aboveWater := false
  phase := fun _ => .idle

def setPhase (state : Admissions) (call : Nat) (phase : AdmitPhase) :
    Admissions :=
  { state with phase := Function.update state.phase call phase }

@[simp]
theorem setPhase_self (state : Admissions) (call : Nat)
    (phase : AdmitPhase) : (state.setPhase call phase).phase call = phase :=
  Function.update_self ..

theorem setPhase_of_ne (state : Admissions) {call other : Nat}
    (different : other ≠ call) (phase : AdmitPhase) :
    (state.setPhase call phase).phase other = state.phase other :=
  Function.update_of_ne different ..

/-- What a load leads to. -/
def loaded (rss : UInt64) :
    Option Bool × Except MemoryRefusal Unit → AdmitPhase
  | (some value, answer) => .storing rss value answer
  | (none, answer) => .answered rss answer

def step (gate : MemoryGate) (state : Admissions) :
    AdmitAction → Option Admissions
  | .invoke call =>
      match state.phase call with
      | .idle => some (state.setPhase call .started)
      | _ => none
  | .readRss call reading =>
      match state.phase call with
      | .started => some (state.setPhase call (.holding (reading.getD 0)))
      | _ => none
  | .load call =>
      match state.phase call with
      | .holding rss =>
          some (state.setPhase call
            (loaded rss (gate.branch rss state.aboveWater)))
      | _ => none
  | .store call =>
      match state.phase call with
      | .storing rss value answer =>
          some { state.setPhase call (.answered rss answer) with
            aboveWater := value }
      | _ => none
  | .returns call answer =>
      match state.phase call with
      | .answered rss given =>
          if given = answer then
            some (state.setPhase call (.returned rss answer))
          else none
      | _ => none

end Admissions

/-! ## The hysteresis switch -/

/-- Some reading exceeded the high-water mark, and no reading since was below
the low-water mark; the last reading is the current one. -/
def Refuses (gate : MemoryGate) (readings : List UInt64) : Prop :=
  ∃ before reading since, readings = before ++ reading :: since ∧
    gate.highWaterBytes < reading ∧ ∀ later ∈ since, ¬ later < gate.lowWaterBytes

/-- A call in a sequential order. -/
structure Admission where
  call : Nat
  rss : UInt64
  answer : Except MemoryRefusal Unit

/-- The answer of a call after others. -/
def Answers (gate : MemoryGate) (before : List Admission)
    (admission : Admission) : Prop :=
  (admission.answer = .error (gate.refusal admission.rss) ∧
      gate.Refuses (before.map Admission.rss ++ [admission.rss])) ∨
    (admission.answer = .ok () ∧
      ¬ gate.Refuses (before.map Admission.rss ++ [admission.rss]))

/-- An order of calls explains a run: it has each call at most once and all
that have returned, with the values that they have read and their answers; a
call that had returned before another one was invoked comes first; and the
answers are those of the switch. -/
structure Explains (gate : MemoryGate) (actions : List AdmitAction)
    (order : List Admission) : Prop where
  once : (order.map Admission.call).Nodup
  complete : ∀ call answer, .returns call answer ∈ actions →
    ∃ rss, ⟨call, rss, answer⟩ ∈ order
  readings : ∀ admission ∈ order, ∃ reading,
    .readRss admission.call reading ∈ actions ∧
      admission.rss = reading.getD 0
  realTime : ∀ first ∈ order, ∀ second ∈ order, ∀ answer,
    [.returns first.call answer, .invoke second.call].Sublist actions →
      [first, second].Sublist order
  answers : ∀ before admission after,
    order = before ++ admission :: after → gate.Answers before admission

/-! ## The switch, reading by reading -/

section Switch

variable {gate : MemoryGate}

theorem not_refuses_nil : ¬ gate.Refuses [] := by
  rintro ⟨before, reading, since, isNil, -⟩
  cases before <;> cases isNil

theorem refuses_concat_iff (readings : List UInt64) (rss : UInt64) :
    gate.Refuses (readings ++ [rss]) ↔
      gate.highWaterBytes < rss ∨
        gate.Refuses readings ∧ ¬ rss < gate.lowWaterBytes := by
  constructor
  · rintro ⟨before, reading, since, isSplit, exceeds, held⟩
    rcases List.eq_nil_or_concat since with rfl | ⟨earlier, last, rfl⟩
    · obtain ⟨-, isLast⟩ := List.append_inj' isSplit rfl
      obtain rfl := List.singleton_injective isLast
      exact Or.inl exceeds
    · rw [List.concat_eq_append, ← List.cons_append,
        ← List.append_assoc] at isSplit
      obtain ⟨isFront, isLast⟩ := List.append_inj' isSplit rfl
      obtain rfl := List.singleton_injective isLast
      refine Or.inr ⟨⟨before, reading, earlier, isFront, exceeds, ?_⟩, ?_⟩
      · exact fun later member => held later (by simp [member])
      · exact held rss (by simp)
  · rintro (exceeds | ⟨⟨before, reading, since, rfl, exceeds, held⟩, notBelow⟩)
    · exact ⟨readings, rss, [], rfl, exceeds, by simp⟩
    · refine ⟨before, reading, since ++ [rss], by simp, exceeds, ?_⟩
      intro later member
      rcases List.mem_append.mp member with earlier | isLast
      · exact held later earlier
      · exact List.mem_singleton.mp isLast ▸ notBelow

/-- What a load of the latch leads to: a store of what the reading decides
alone, or the answer of the switch without a store. -/
theorem branch_cases (rss : UInt64) {wasAbove : Bool} {readings : List UInt64}
    (isSwitch : wasAbove = true ↔ gate.Refuses readings) :
    (rss < gate.lowWaterBytes ∧
        gate.branch rss wasAbove = (some false, .ok ())) ∨
      (gate.highWaterBytes < rss ∧
        gate.branch rss wasAbove =
          (some true, .error (gate.refusal rss))) ∨
      (wasAbove = true ∧ gate.Refuses (readings ++ [rss]) ∧
        gate.branch rss wasAbove = (none, .error (gate.refusal rss))) ∨
      (wasAbove = false ∧ ¬ gate.Refuses (readings ++ [rss]) ∧
        gate.branch rss wasAbove = (none, .ok ())) := by
  unfold branch
  rw [refuses_concat_iff, ← isSwitch]
  cases wasAbove with
  | true =>
      by_cases below : rss < gate.lowWaterBytes
      · exact Or.inl ⟨below, by simp [below]⟩
      · exact Or.inr (Or.inr (Or.inl ⟨rfl, Or.inr ⟨rfl, below⟩,
          by simp [below]⟩))
  | false =>
      by_cases exceeds : gate.highWaterBytes < rss
      · exact Or.inr (Or.inl ⟨exceeds, by simp [exceeds]⟩)
      · exact Or.inr (Or.inr (Or.inr ⟨rfl, by simp [exceeds],
          by simp [exceeds]⟩))

theorem not_refuses_of_below
    (ordered : gate.lowWaterBytes ≤ gate.highWaterBytes)
    {rss : UInt64} (below : rss < gate.lowWaterBytes)
    (readings : List UInt64) : ¬ gate.Refuses (readings ++ [rss]) := by
  rw [refuses_concat_iff]
  rintro (exceeds | ⟨-, notBelow⟩)
  · exact UInt64.not_lt.mpr (UInt64.le_trans (UInt64.le_of_lt below) ordered)
      exceeds
  · exact notBelow below

end Switch

/-! ## One step -/

/-- What the phase of a call says about the steps so far and the order. -/
def PhaseFits (gate : MemoryGate) (actions : List AdmitAction)
    (order : List Admission) (call : Nat) : AdmitPhase → Prop
  | .idle | .started =>
      call ∉ order.map Admission.call ∧
        ∀ answer, .returns call answer ∉ actions
  | .holding rss =>
      call ∉ order.map Admission.call ∧
        (∀ answer, .returns call answer ∉ actions) ∧
        ∃ reading, .readRss call reading ∈ actions ∧ rss = reading.getD 0
  | .storing rss value answer =>
      call ∉ order.map Admission.call ∧
        (∀ answer, .returns call answer ∉ actions) ∧
        (∃ reading, .readRss call reading ∈ actions ∧ rss = reading.getD 0) ∧
        ((value = false ∧ rss < gate.lowWaterBytes ∧ answer = .ok ()) ∨
          (value = true ∧ gate.highWaterBytes < rss ∧
            answer = .error (gate.refusal rss)))
  | .answered rss answer =>
      ⟨call, rss, answer⟩ ∈ order ∧
        ∀ answer, .returns call answer ∉ actions
  | .returned rss answer =>
      ⟨call, rss, answer⟩ ∈ order ∧
        ∀ other, .returns call other ∈ actions → other = answer

/-- The order built so far explains the steps so far, and the latch is that of
the switch after it. -/
structure Tracks (gate : MemoryGate) (actions : List AdmitAction)
    (state : Admissions) (order : List Admission) : Prop where
  explains : gate.Explains actions order
  latch : state.aboveWater = true ↔
    gate.Refuses (order.map Admission.rss)
  phases : ∀ call, gate.PhaseFits actions order call (state.phase call)

theorem tracks_start (gate : MemoryGate) :
    gate.Tracks [] Admissions.start [] where
  explains :=
    { once := List.nodup_nil
      complete := fun call answer member => by cases member
      readings := fun admission member => by cases member
      realTime := fun first member => by cases member
      answers := fun before admission after isNil => by
        cases before <;> cases isNil }
  latch := by
    simp [Admissions.start, not_refuses_nil]
  phases call := ⟨List.not_mem_nil, fun answer => List.not_mem_nil⟩

/-- A pair in a longer list is a pair of the list, or ends in the new entry. -/
theorem pair_sublist_concat_iff {α : Type*} {first second last : α}
    {entries : List α} :
    [first, second].Sublist (entries ++ [last]) ↔
      [first, second].Sublist entries ∨
        first ∈ entries ∧ second = last := by
  rw [List.sublist_append_iff]
  constructor
  · rintro ⟨front, back, isPair, inFront, inBack⟩
    rcases List.sublist_singleton.mp inBack with rfl | rfl
    · rw [List.append_nil] at isPair
      exact Or.inl (isPair ▸ inFront)
    · have isConcat : [first] ++ [second] = front ++ [last] := isPair
      obtain ⟨rfl, isLast⟩ := List.append_inj' isConcat rfl
      exact Or.inr ⟨List.singleton_sublist.mp inFront,
        List.singleton_injective isLast⟩
  · rintro (inside | ⟨isFirst, rfl⟩)
    · exact ⟨[first, second], [], by simp, inside, List.nil_sublist _⟩
    · exact ⟨[first], [second], rfl, List.singleton_sublist.mpr isFirst,
        List.Sublist.refl _⟩

section Step

variable {gate : MemoryGate} {actions : List AdmitAction}
  {state next : Admissions} {order : List Admission} {action : AdmitAction}

/-- A call does not notice the steps of others. -/
theorem PhaseFits.mono {call : Nat} {phase : AdmitPhase}
    (fits : gate.PhaseFits actions order call phase)
    {extra : List Admission} (others : call ∉ extra.map Admission.call)
    (noReturn : ∀ answer, action ≠ .returns call answer) :
    gate.PhaseFits (actions ++ [action]) (order ++ extra) call phase := by
  have absent : call ∉ order.map Admission.call →
      call ∉ (order ++ extra).map Admission.call := by
    intro notInOrder
    rw [List.map_append, List.mem_append]
    exact not_or.mpr ⟨notInOrder, others⟩
  have silent : (∀ answer, .returns call answer ∉ actions) →
      ∀ answer, .returns call answer ∉ actions ++ [action] := by
    intro noReturns answer member
    rcases List.mem_append.mp member with earlier | isAction
    · exact noReturns answer earlier
    · exact noReturn answer (List.mem_singleton.mp isAction).symm
  have reads : ∀ rss : UInt64, (∃ reading,
        .readRss call reading ∈ actions ∧ rss = reading.getD 0) →
      ∃ reading, .readRss call reading ∈ actions ++ [action] ∧
        rss = reading.getD 0 :=
    fun rss ⟨reading, member, isRss⟩ =>
      ⟨reading, List.mem_append_left _ member, isRss⟩
  cases phase with
  | idle => exact ⟨absent fits.1, silent fits.2⟩
  | started => exact ⟨absent fits.1, silent fits.2⟩
  | holding rss => exact ⟨absent fits.1, silent fits.2.1, reads _ fits.2.2⟩
  | storing rss value answer =>
      exact ⟨absent fits.1, silent fits.2.1, reads _ fits.2.2.1, fits.2.2.2⟩
  | answered rss answer =>
      exact ⟨List.mem_append_left _ fits.1, silent fits.2⟩
  | returned rss answer =>
      refine ⟨List.mem_append_left _ fits.1, fun other member => ?_⟩
      rcases List.mem_append.mp member with earlier | isAction
      · exact fits.2 other earlier
      · exact absurd (List.mem_singleton.mp isAction).symm (noReturn other)

/-- A step that takes no effect leaves the order as it is. -/
theorem Explains.quiet (explains : gate.Explains actions order)
    (returned : ∀ call answer, action = .returns call answer →
      ∃ rss, ⟨call, rss, answer⟩ ∈ order)
    (fresh : ∀ call, action = .invoke call →
      call ∉ order.map Admission.call) :
    gate.Explains (actions ++ [action]) order where
  once := explains.once
  complete call answer member := by
    rcases List.mem_append.mp member with earlier | isAction
    · exact explains.complete call answer earlier
    · exact returned call answer (List.mem_singleton.mp isAction).symm
  readings admission member := by
    obtain ⟨reading, read, isRss⟩ := explains.readings admission member
    exact ⟨reading, List.mem_append_left _ read, isRss⟩
  realTime first isFirst second isSecond answer pair := by
    rcases pair_sublist_concat_iff.mp pair with earlier | ⟨-, isAction⟩
    · exact explains.realTime first isFirst second isSecond answer earlier
    · exact absurd (List.mem_map_of_mem isSecond)
        (fresh second.call isAction.symm)
  answers := explains.answers

/-- A call that takes effect comes behind the calls that have. -/
theorem Explains.effect (explains : gate.Explains actions order)
    {admission : Admission}
    (absent : admission.call ∉ order.map Admission.call)
    (silent : ∀ answer, .returns admission.call answer ∉ actions)
    (read : ∃ reading, .readRss admission.call reading ∈ actions ∧
      admission.rss = reading.getD 0)
    (answers : gate.Answers order admission)
    (noReturn : ∀ call answer, action ≠ .returns call answer)
    (noInvoke : ∀ call, action ≠ .invoke call) :
    gate.Explains (actions ++ [action]) (order ++ [admission]) where
  once := by
    rw [List.map_append, List.nodup_append]
    refine ⟨explains.once, List.nodup_singleton _, ?_⟩
    rintro call isEarlier other isLast rfl
    exact absent (List.mem_singleton.mp isLast ▸ isEarlier)
  complete call answer member := by
    rcases List.mem_append.mp member with earlier | isAction
    · obtain ⟨rss, inOrder⟩ := explains.complete call answer earlier
      exact ⟨rss, List.mem_append_left _ inOrder⟩
    · exact absurd (List.mem_singleton.mp isAction).symm
        (noReturn call answer)
  readings other member := by
    obtain ⟨reading, found, isRss⟩ : ∃ reading,
        .readRss other.call reading ∈ actions ∧
          other.rss = reading.getD 0 := by
      rcases List.mem_append.mp member with earlier | isLast
      · exact explains.readings other earlier
      · exact List.mem_singleton.mp isLast ▸ read
    exact ⟨reading, List.mem_append_left _ found, isRss⟩
  realTime first isFirst second isSecond answer pair := by
    have earlier : [.returns first.call answer,
        .invoke second.call].Sublist actions := by
      rcases pair_sublist_concat_iff.mp pair with earlier | ⟨-, isAction⟩
      · exact earlier
      · exact absurd isAction.symm (noInvoke second.call)
    have inOrder : first ∈ order := by
      rcases List.mem_append.mp isFirst with inOrder | isLast
      · exact inOrder
      · obtain rfl := List.mem_singleton.mp isLast
        exact absurd (earlier.subset List.mem_cons_self) (silent answer)
    rw [pair_sublist_concat_iff]
    rcases List.mem_append.mp isSecond with inOrder' | isLast
    · exact Or.inl
        (explains.realTime first inOrder second inOrder' answer earlier)
    · exact Or.inr ⟨inOrder, List.mem_singleton.mp isLast⟩
  answers before other after isSplit := by
    rcases List.eq_nil_or_concat after with rfl | ⟨front, last, rfl⟩
    · obtain ⟨rfl, isLast⟩ := List.append_inj' isSplit.symm rfl
      obtain rfl := List.singleton_injective isLast
      exact answers
    · rw [List.concat_eq_append, ← List.cons_append,
        ← List.append_assoc] at isSplit
      obtain ⟨isFront, -⟩ := List.append_inj' isSplit rfl
      exact explains.answers before other front isFront

/-- The phases after a step of one call. -/
theorem phases_setPhase
    (phases : ∀ call, gate.PhaseFits actions order call (state.phase call))
    {call : Nat} {phase : AdmitPhase} (extra : List Admission)
    (others : ∀ admission ∈ extra, admission.call = call)
    (noReturn : ∀ other answer, other ≠ call →
      action ≠ .returns other answer)
    (fits : gate.PhaseFits (actions ++ [action]) (order ++ extra) call phase)
    (other : Nat) :
    gate.PhaseFits (actions ++ [action]) (order ++ extra) other
      ((state.setPhase call phase).phase other) := by
  by_cases same : other = call
  · subst same
    rwa [Admissions.setPhase_self]
  · rw [Admissions.setPhase_of_ne _ same]
    refine (phases other).mono ?_ fun answer => noReturn other answer same
    intro member
    obtain ⟨admission, isExtra, isCall⟩ := List.mem_map.mp member
    exact same (isCall.symm.trans (others admission isExtra))

/-- A call takes effect. -/
theorem Tracks.effect (tracks : gate.Tracks actions state order)
    {admission : Admission}
    (absent : admission.call ∉ order.map Admission.call)
    (silent : ∀ answer, .returns admission.call answer ∉ actions)
    (read : ∃ reading, .readRss admission.call reading ∈ actions ∧
      admission.rss = reading.getD 0)
    (answers : gate.Answers order admission)
    (noReturn : ∀ call answer, action ≠ .returns call answer)
    (noInvoke : ∀ call, action ≠ .invoke call) {aboveWater : Bool}
    (latch : aboveWater = true ↔
      gate.Refuses (order.map Admission.rss ++ [admission.rss])) :
    gate.Tracks (actions ++ [action])
      { state.setPhase admission.call
          (.answered admission.rss admission.answer) with
        aboveWater := aboveWater }
      (order ++ [admission]) where
  explains := tracks.explains.effect absent silent read answers noReturn
    noInvoke
  latch := by rwa [List.map_append]
  phases := by
    refine phases_setPhase tracks.phases [admission]
      (fun other member => congrArg _ (List.mem_singleton.mp member))
      (fun other answer _ => noReturn other answer)
      ⟨List.mem_append_right _ (List.mem_singleton_self _), ?_⟩
    intro answer member
    rcases List.mem_append.mp member with earlier | isAction
    · exact silent answer earlier
    · exact noReturn _ answer (List.mem_singleton.mp isAction).symm

/-- A call goes on without taking effect. -/
theorem Tracks.quiet (tracks : gate.Tracks actions state order) {call : Nat}
    {phase : AdmitPhase}
    (noReturn : ∀ other answer, action ≠ .returns other answer)
    (fresh : ∀ other, action = .invoke other →
      other ∉ order.map Admission.call)
    (fits : gate.PhaseFits (actions ++ [action]) order call phase) :
    gate.Tracks (actions ++ [action]) (state.setPhase call phase) order where
  explains := tracks.explains.quiet
    (fun other answer isAction => absurd isAction (noReturn other answer))
    fresh
  latch := tracks.latch
  phases other := by
    have unchanged := phases_setPhase tracks.phases []
      (fun admission member => absurd member List.not_mem_nil)
      (fun other answer _ => noReturn other answer)
      ((List.append_nil order).symm ▸ fits) other
    rwa [List.append_nil] at unchanged

theorem not_mem_concat_of_ne {call : Nat}
    (silent : ∀ answer, .returns call answer ∉ actions)
    (noReturn : ∀ answer, action ≠ .returns call answer)
    (answer : Except MemoryRefusal Unit) :
    .returns call answer ∉ actions ++ [action] := by
  intro member
  rcases List.mem_append.mp member with earlier | isAction
  · exact silent answer earlier
  · exact noReturn answer (List.mem_singleton.mp isAction).symm

/-- A load leads to a store, or takes effect. -/
theorem tracks_load (tracks : gate.Tracks actions state order) {call : Nat}
    {rss : UInt64} (isPhase : state.phase call = .holding rss) :
    ∃ order', gate.Tracks (actions ++ [.load call])
      (state.setPhase call
        (Admissions.loaded rss (gate.branch rss state.aboveWater))) order' := by
  have fits := tracks.phases call
  rw [isPhase] at fits
  obtain ⟨absent, silent, read⟩ := fits
  have noReturn : ∀ other answer, (.load call : AdmitAction) ≠
      .returns other answer := by
    rintro other answer ⟨⟩
  have noInvoke : ∀ other, (.load call : AdmitAction) ≠ .invoke other := by
    rintro other ⟨⟩
  have read' : ∃ reading,
      .readRss call reading ∈ actions ++ [.load call] ∧
        rss = reading.getD 0 := by
    obtain ⟨reading, found, isRss⟩ := read
    exact ⟨reading, List.mem_append_left _ found, isRss⟩
  rcases branch_cases rss tracks.latch with ⟨below, toBranch⟩ |
    ⟨exceeds, toBranch⟩ | ⟨above, refuses, toBranch⟩ |
    ⟨notAbove, admits, toBranch⟩
  · rw [toBranch]
    exact ⟨order, tracks.quiet noReturn
      (fun other isInvoke => absurd isInvoke (noInvoke other))
      ⟨absent, not_mem_concat_of_ne silent (noReturn call), read',
        Or.inl ⟨rfl, below, rfl⟩⟩⟩
  · rw [toBranch]
    exact ⟨order, tracks.quiet noReturn
      (fun other isInvoke => absurd isInvoke (noInvoke other))
      ⟨absent, not_mem_concat_of_ne silent (noReturn call), read',
        Or.inr ⟨rfl, exceeds, rfl⟩⟩⟩
  · rw [toBranch]
    have effect := @Tracks.effect _ _ _ _ (.load call) tracks
      ⟨call, rss, .error (gate.refusal rss)⟩ absent silent read
      (Or.inl ⟨rfl, refuses⟩) noReturn noInvoke state.aboveWater
      (iff_of_true above refuses)
    exact ⟨_, effect⟩
  · rw [toBranch]
    have effect := @Tracks.effect _ _ _ _ (.load call) tracks
      ⟨call, rss, .ok ()⟩ absent silent read
      (Or.inr ⟨rfl, admits⟩) noReturn noInvoke state.aboveWater
      (iff_of_false (by rw [notAbove]; exact Bool.false_ne_true) admits)
    exact ⟨_, effect⟩

/-- A store takes effect, whatever the latch has become since the load. -/
theorem tracks_store (ordered : gate.lowWaterBytes ≤ gate.highWaterBytes)
    (tracks : gate.Tracks actions state order) {call : Nat} {rss : UInt64}
    {value : Bool} {answer : Except MemoryRefusal Unit}
    (isPhase : state.phase call = .storing rss value answer) :
    ∃ order', gate.Tracks (actions ++ [.store call])
      { state.setPhase call (.answered rss answer) with
        aboveWater := value } order' := by
  have fits := tracks.phases call
  rw [isPhase] at fits
  obtain ⟨absent, silent, read, decided⟩ := fits
  have noReturn : ∀ other answer, (.store call : AdmitAction) ≠
      .returns other answer := by
    rintro other answer ⟨⟩
  have noInvoke : ∀ other, (.store call : AdmitAction) ≠ .invoke other := by
    rintro other ⟨⟩
  rcases decided with ⟨rfl, below, rfl⟩ | ⟨rfl, exceeds, rfl⟩
  · have admits := not_refuses_of_below ordered below
      (order.map Admission.rss)
    have effect := @Tracks.effect _ _ _ _ (.store call) tracks
      ⟨call, rss, .ok ()⟩ absent silent read (Or.inr ⟨rfl, admits⟩) noReturn
      noInvoke false (iff_of_false Bool.false_ne_true admits)
    exact ⟨_, effect⟩
  · have refuses : gate.Refuses (order.map Admission.rss ++ [rss]) :=
      (refuses_concat_iff _ rss).mpr (Or.inl exceeds)
    have effect := @Tracks.effect _ _ _ _ (.store call) tracks
      ⟨call, rss, .error (gate.refusal rss)⟩ absent silent read
      (Or.inl ⟨rfl, refuses⟩) noReturn noInvoke true
      (iff_of_true rfl refuses)
    exact ⟨_, effect⟩

/-- A call that returns has taken effect before. -/
theorem tracks_returns (tracks : gate.Tracks actions state order)
    {call : Nat} {rss : UInt64} {answer : Except MemoryRefusal Unit}
    (isPhase : state.phase call = .answered rss answer) :
    gate.Tracks (actions ++ [.returns call answer])
      (state.setPhase call (.returned rss answer)) order := by
  have fits := tracks.phases call
  rw [isPhase] at fits
  obtain ⟨inOrder, silent⟩ := fits
  have returned : ∀ other, .returns call other ∈
      actions ++ [.returns call answer] → other = answer := by
    intro other member
    rcases List.mem_append.mp member with earlier | isAction
    · exact absurd earlier (silent other)
    · obtain ⟨-, same⟩ := AdmitAction.returns.inj
        (List.mem_singleton.mp isAction)
      exact same
  refine
    { explains := tracks.explains.quiet ?_ ?_
      latch := tracks.latch
      phases := fun other => ?_ }
  · rintro other otherAnswer ⟨⟩
    exact ⟨rss, inOrder⟩
  · rintro other ⟨⟩
  · have unchanged := @phases_setPhase _ actions _ order
      (.returns call answer) tracks.phases call (.returned rss answer) []
      (fun admission member => absurd member List.not_mem_nil)
      (fun other otherAnswer different isAction =>
        different (AdmitAction.returns.inj isAction).1.symm)
      ((List.append_nil order).symm ▸ ⟨inOrder, returned⟩) other
    rwa [List.append_nil] at unchanged

/-- Every step keeps the order of the calls that have taken effect, perhaps
with one more call behind it. -/
theorem tracks_step (ordered : gate.lowWaterBytes ≤ gate.highWaterBytes)
    (tracks : gate.Tracks actions state order)
    (stepTo : Admissions.step gate state action = some next) :
    ∃ order', gate.Tracks (actions ++ [action]) next order' := by
  cases action with
  | invoke call =>
      have fits := tracks.phases call
      cases isPhase : state.phase call <;>
        simp only [Admissions.step, isPhase, reduceCtorEq,
          Option.some.injEq] at stepTo
      subst stepTo
      rw [isPhase] at fits
      refine ⟨order, tracks.quiet ?_ ?_ ⟨fits.1, ?_⟩⟩
      · rintro other answer ⟨⟩
      · rintro other ⟨⟩
        exact fits.1
      · simpa using fits.2
  | readRss call reading =>
      have fits := tracks.phases call
      cases isPhase : state.phase call <;>
        simp only [Admissions.step, isPhase, reduceCtorEq,
          Option.some.injEq] at stepTo
      subst stepTo
      rw [isPhase] at fits
      refine ⟨order, tracks.quiet ?_ ?_ ⟨fits.1, ?_, reading, ?_, rfl⟩⟩
      · rintro other answer ⟨⟩
      · rintro other ⟨⟩
      · simpa using fits.2
      · simp
  | load call =>
      cases isPhase : state.phase call <;>
        simp only [Admissions.step, isPhase, reduceCtorEq,
          Option.some.injEq] at stepTo
      exact stepTo ▸ tracks_load tracks isPhase
  | store call =>
      cases isPhase : state.phase call <;>
        simp only [Admissions.step, isPhase, reduceCtorEq,
          Option.some.injEq] at stepTo
      exact stepTo ▸ tracks_store ordered tracks isPhase
  | returns call answer =>
      cases isPhase : state.phase call <;>
        simp only [Admissions.step, isPhase, reduceCtorEq] at stepTo
      split at stepTo
      case isTrue same =>
          subst same
          exact ⟨order, Option.some.inj stepTo ▸ tracks_returns tracks isPhase⟩
      case isFalse => cases stepTo

end Step

/-! ## Runs -/

variable {gate : MemoryGate}

theorem tracks_run (ordered : gate.lowWaterBytes ≤ gate.highWaterBytes)
    {past actions : List AdmitAction} {state last : Admissions}
    {order : List Admission} (tracks : gate.Tracks past state order)
    (reaches : run (Admissions.step gate) state actions = some last) :
    ∃ order', gate.Tracks (past ++ actions) last order' := by
  induction actions generalizing past state order with
  | nil =>
      obtain rfl := Option.some.inj reaches
      exact ⟨order, (List.append_nil past).symm ▸ tracks⟩
  | cons action actions ih =>
      obtain ⟨next, stepTo, rest⟩ := run_cons_eq_some reaches
      obtain ⟨order', tracks'⟩ := tracks_step ordered tracks stepTo
      rw [← List.singleton_append, ← List.append_assoc]
      exact ih tracks' rest

/-- The marks stay in order when they are converted to bytes. -/
theorem lowWaterBytes_le_of_withReader {highWaterMb lowWaterMb : UInt64}
    (made : withReader highWaterMb lowWaterMb = some gate)
    (fits : highWaterMb.toNat * 1024 * 1024 < 2 ^ 64) :
    gate.lowWaterBytes ≤ gate.highWaterBytes := by
  unfold withReader at made
  split at made
  case isFalse => cases made
  case isTrue ordered =>
      obtain rfl := Option.some.inj made
      rw [UInt64.le_iff_toNat_le] at ordered ⊢
      simp only [UInt64.toNat_mul]
      have mebi : (1024 : UInt64).toNat = 1024 := rfl
      rw [mebi]
      omega

/-- However the steps of the calls interleave, some order of the calls that
respects real time explains their answers. -/
theorem exists_explains {highWaterMb lowWaterMb : UInt64}
    (made : withReader highWaterMb lowWaterMb = some gate)
    (fits : highWaterMb.toNat * 1024 * 1024 < 2 ^ 64)
    {actions : List AdmitAction} {last : Admissions}
    (reaches : run (Admissions.step gate) Admissions.start actions =
      some last) :
    ∃ order, gate.Explains actions order := by
  obtain ⟨order, tracks⟩ := tracks_run
    (lowWaterBytes_le_of_withReader made fits) (tracks_start gate) reaches
  exact ⟨order, tracks.explains⟩

/-! ## Two calls that overlap -/

def thousandMbGate : MemoryGate where
  highWaterBytes := 1048576000
  lowWaterBytes := 838860800
  aboveWater := false

/-- The second call loads the latch while the first one, which has read more
than the high-water mark, is about to store it. -/
def overlappingCalls : List AdmitAction :=
  [.invoke 0, .invoke 1, .readRss 0 (some 2097152000), .load 0,
    .readRss 1 (some 943718400), .load 1, .store 0, .returns 1 (.ok ()),
    .returns 0 (.error ⟨2000, 1000⟩)]

theorem overlappingCalls_explained :
    withReader 1000 800 = some thousandMbGate ∧
      (1000 : UInt64).toNat * 1024 * 1024 < 2 ^ 64 ∧
      ∃ order, thousandMbGate.Explains overlappingCalls order := by
  have made : withReader 1000 800 = some thousandMbGate := by decide
  have fits : (1000 : UInt64).toNat * 1024 * 1024 < 2 ^ 64 := by decide
  have runs : (run (Admissions.step thousandMbGate) Admissions.start
      overlappingCalls).isSome = true := by
    decide
  obtain ⟨last, reaches⟩ := Option.isSome_iff_exists.mp runs
  exact ⟨made, fits, exists_explains made fits reaches⟩

end MemoryGate

end TorchInference
