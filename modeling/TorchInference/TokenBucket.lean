import Mathlib.Data.Rat.Cast.Order
import TorchInference.RateEnvelope

/-!
# The token bucket

A bucket is refilled lazily: each call first adds what the time since the last
refill is worth, up to the capacity, and only then looks at the tokens.  The
numbers are exact rationals; an instant is given in nanoseconds.
-/

namespace TorchInference

/-- `Duration`, by its seconds. -/
structure WaitTime where
  seconds : ℚ
  deriving DecidableEq

namespace WaitTime

def zero : WaitTime :=
  ⟨0⟩

/-- `Duration::from_secs_f64`, which panics on what a duration cannot hold. -/
def fromSecs (seconds : ℚ) : Option WaitTime :=
  if 0 ≤ seconds ∧ seconds < 2 ^ 64 then some ⟨seconds⟩ else none

end WaitTime

structure BucketState where
  tokens : ℚ
  lastRefill : Nat

/-- `Instant::duration_since` and `as_secs_f64`. -/
def secondsBetween (earlier later : Nat) : ℚ :=
  ((later - earlier : Nat) : ℚ) / 1000000000

def doRefill (state : BucketState) (capacity refillRate : ℚ) (now : Nat) :
    BucketState :=
  let toAdd := secondsBetween state.lastRefill now * refillRate
  if 0 < toAdd then
    { tokens := min (state.tokens + toAdd) capacity, lastRefill := now }
  else state

structure TokenBucket where
  capacity : ℚ
  refillRate : ℚ
  state : BucketState

inductive BucketCall where
  | tryAcquire (tokensNeeded : ℚ)
  | acquire (tokensNeeded : ℚ)
  | availableTokens
  | timeUntilToken

inductive BucketReply where
  | acquired (granted : Bool)
  | admitted
  | retryAfter (wait : WaitTime)
  | available (tokens : ℚ)
  | panicked
  deriving DecidableEq

namespace BucketReply

/-- What a call that asked for some tokens was granted. -/
def granted (needed : ℚ) : BucketReply → ℚ
  | .acquired true | .admitted => needed
  | _ => 0

/-- A waiting time, or the panic of computing it. -/
def wait (seconds : ℚ) : BucketReply :=
  match WaitTime.fromSecs seconds with
  | some duration => .retryAfter duration
  | none => .panicked

@[simp]
theorem granted_wait (needed seconds : ℚ) :
    (wait seconds).granted needed = 0 := by
  unfold wait
  split <;> rfl

end BucketReply

/-- The tokens a call asks for. -/
def BucketCall.needed : BucketCall → ℚ
  | .tryAcquire needed | .acquire needed => needed
  | .availableTokens | .timeUntilToken => 0

namespace TokenBucket

def new (capacity : Nat) (refillRate : ℚ) (now : Nat) : TokenBucket where
  capacity := capacity
  refillRate := refillRate
  state := { tokens := capacity, lastRefill := now }

/-- The bucket after a refill, which every call starts with. -/
def refilled (bucket : TokenBucket) (now : Nat) : TokenBucket :=
  { bucket with
    state := doRefill bucket.state bucket.capacity bucket.refillRate now }

def take (bucket : TokenBucket) (tokens : ℚ) : TokenBucket :=
  { bucket with
    state := { bucket.state with tokens := bucket.state.tokens - tokens } }

def tryAcquire (bucket : TokenBucket) (now : Nat) (tokensNeeded : ℚ) :
    BucketReply × TokenBucket :=
  let s := bucket.refilled now
  if tokensNeeded ≤ s.state.tokens then
    (.acquired true, s.take tokensNeeded)
  else (.acquired false, s)

def acquire (bucket : TokenBucket) (now : Nat) (tokensNeeded : ℚ) :
    BucketReply × TokenBucket :=
  let s := bucket.refilled now
  if tokensNeeded ≤ s.state.tokens then (.admitted, s.take tokensNeeded)
  else
    let deficit := tokensNeeded - s.state.tokens
    (.wait (deficit / bucket.refillRate), s)

def availableTokens (bucket : TokenBucket) (now : Nat) :
    BucketReply × TokenBucket :=
  let s := bucket.refilled now
  (.available s.state.tokens, s)

def timeUntilToken (bucket : TokenBucket) (now : Nat) :
    BucketReply × TokenBucket :=
  let s := bucket.refilled now
  if 1 ≤ s.state.tokens then (.retryAfter .zero, s)
  else (.wait ((1 - s.state.tokens) / bucket.refillRate), s)

def answer (bucket : TokenBucket) (now : Nat) :
    BucketCall → BucketReply × TokenBucket
  | .tryAcquire tokensNeeded => bucket.tryAcquire now tokensNeeded
  | .acquire tokensNeeded => bucket.acquire now tokensNeeded
  | .availableTokens => bucket.availableTokens now
  | .timeUntilToken => bucket.timeUntilToken now

/-- A call that has been answered, with the bucket it left. -/
structure Answered where
  time : Nat
  call : BucketCall
  reply : BucketReply
  bucket : TokenBucket

/-- The answers to calls made one after another. -/
def answers (bucket : TokenBucket) :
    List (Nat × BucketCall) → List Answered
  | [] => []
  | (time, call) :: calls =>
      ⟨time, call, (bucket.answer time call).1, (bucket.answer time call).2⟩ ::
        answers (bucket.answer time call).2 calls

/-- What the calls from one time to another, in seconds, were granted. -/
def grantedBetween (earliest latest : ℚ) (answered : List Answered) : ℚ :=
  ((answered.filter fun one =>
    earliest ≤ secondsBetween 0 one.time ∧
      secondsBetween 0 one.time ≤ latest).map fun one =>
        one.reply.granted one.call.needed).sum

/-! ## What one call does -/

/-- Whatever a call asks for, it leaves the refilled bucket less the tokens it
was granted, and it was granted no more than there were. -/
structure Serves (refilled : TokenBucket) (needed : ℚ) (reply : BucketReply)
    (after : TokenBucket) : Prop where
  after_eq : after = refilled.take (reply.granted needed)
  enough : reply.granted needed = 0 ∨
    reply.granted needed = needed ∧ needed ≤ refilled.state.tokens

theorem take_zero (bucket : TokenBucket) : bucket.take 0 = bucket := by
  simp [take]

theorem answer_serves (bucket : TokenBucket) (now : Nat) (call : BucketCall) :
    Serves (bucket.refilled now) call.needed (bucket.answer now call).1
      (bucket.answer now call).2 := by
  have refuses : ∀ (needed : ℚ) (reply : BucketReply),
      reply.granted needed = 0 →
        Serves (bucket.refilled now) needed reply (bucket.refilled now) :=
    fun needed reply nothing =>
      ⟨by rw [nothing, take_zero], .inl nothing⟩
  cases call with
  | tryAcquire needed =>
      simp only [answer, tryAcquire, BucketCall.needed]
      split_ifs with enough
      · exact ⟨rfl, .inr ⟨rfl, enough⟩⟩
      · exact refuses needed _ rfl
  | acquire needed =>
      simp only [answer, acquire, BucketCall.needed]
      split_ifs with enough
      · exact ⟨rfl, .inr ⟨rfl, enough⟩⟩
      · exact refuses needed _ (BucketReply.granted_wait _ _)
  | availableTokens => exact refuses 0 _ rfl
  | timeUntilToken =>
      simp only [answer, timeUntilToken, BucketCall.needed]
      split_ifs with enough
      · exact refuses 0 _ rfl
      · exact refuses 0 _ (BucketReply.granted_wait _ _)

/-- The level stays between nothing and the capacity. -/
def WithinCapacity (bucket : TokenBucket) : Prop :=
  0 ≤ bucket.state.tokens ∧ bucket.state.tokens ≤ bucket.capacity

theorem new_withinCapacity (capacity : Nat) (refillRate : ℚ) (now : Nat) :
    (new capacity refillRate now).WithinCapacity :=
  ⟨Nat.cast_nonneg capacity, le_refl _⟩

section Steps

variable {bucket : TokenBucket} {now : Nat} {call : BucketCall}

@[simp]
theorem answer_capacity :
    (bucket.answer now call).2.capacity = bucket.capacity := by
  rw [(answer_serves bucket now call).after_eq]
  rfl

@[simp]
theorem answer_refillRate :
    (bucket.answer now call).2.refillRate = bucket.refillRate := by
  rw [(answer_serves bucket now call).after_eq]
  rfl

theorem WithinCapacity.refilled (within : bucket.WithinCapacity)
    (now : Nat) :
    (bucket.refilled now).WithinCapacity := by
  obtain ⟨nonneg, below⟩ := within
  simp only [WithinCapacity, TokenBucket.refilled, doRefill]
  split_ifs with grows
  · refine ⟨le_min ?_ (nonneg.trans below), min_le_right _ _⟩
    exact add_nonneg nonneg grows.le
  · exact ⟨nonneg, below⟩

theorem WithinCapacity.answer (within : bucket.WithinCapacity) (now : Nat)
    (nonneg : 0 ≤ call.needed) :
    (bucket.answer now call).2.WithinCapacity := by
  have served := answer_serves bucket now call
  obtain ⟨level, below⟩ := within.refilled now
  rw [served.after_eq]
  rcases served.enough with nothing | ⟨granted, enough⟩
  · rw [nothing, take_zero]
    exact ⟨level, below⟩
  · rw [granted]
    exact ⟨sub_nonneg.mpr enough, (sub_le_self _ nonneg).trans below⟩

theorem granted_nonneg (nonneg : 0 ≤ call.needed) :
    0 ≤ (bucket.answer now call).1.granted call.needed := by
  rcases (answer_serves bucket now call).enough with nothing | ⟨granted, -⟩
  · exact nothing.ge
  · rw [granted]
    exact nonneg

/-- What a call leaves and what it was granted come out of the refill. -/
theorem tokens_add_granted :
    (bucket.answer now call).2.state.tokens +
        (bucket.answer now call).1.granted call.needed =
      (bucket.refilled now).state.tokens := by
  rw [(answer_serves bucket now call).after_eq]
  exact sub_add_cancel _ _

theorem secondsBetween_eq (ordered : bucket.state.lastRefill ≤ now) :
    secondsBetween bucket.state.lastRefill now =
      secondsBetween 0 now - secondsBetween 0 bucket.state.lastRefill := by
  rw [secondsBetween, secondsBetween, secondsBetween, Nat.cast_sub ordered,
    Nat.sub_zero, Nat.sub_zero, sub_div]

/-- A refill adds at most what the time since the last one is worth, and a
bucket is refilled up to the time of the call even when nothing was added. -/
theorem refilled_spec (positive : 0 < bucket.refillRate)
    (ordered : bucket.state.lastRefill ≤ now) :
    (bucket.refilled now).state.lastRefill = now ∧
      (bucket.refilled now).state.tokens ≤ bucket.state.tokens +
        bucket.refillRate * (secondsBetween 0 now -
          secondsBetween 0 bucket.state.lastRefill) := by
  rw [← secondsBetween_eq ordered, mul_comm bucket.refillRate]
  simp only [refilled, doRefill]
  split_ifs with grows
  · exact ⟨rfl, min_le_left _ _⟩
  · have elapsed : (now - bucket.state.lastRefill : Nat) = 0 := by
      by_contra later
      refine grows (mul_pos ?_ positive)
      exact div_pos (Nat.cast_pos.mpr (Nat.pos_of_ne_zero later))
        (by norm_num)
    refine ⟨Nat.le_antisymm ordered (Nat.sub_eq_zero_iff_le.mp elapsed), ?_⟩
    rw [secondsBetween, elapsed, Nat.cast_zero, zero_div, zero_mul, add_zero]

theorem answer_lastRefill (call : BucketCall)
    (positive : 0 < bucket.refillRate)
    (ordered : bucket.state.lastRefill ≤ now) :
    (bucket.answer now call).2.state.lastRefill = now := by
  rw [(answer_serves bucket now call).after_eq]
  exact (refilled_spec positive ordered).1

end Steps

/-! ## Whole sequences of calls -/

open RateEnvelope

/-- An answer as a reading of the level. -/
def Answered.reading (one : Answered) : Reading ℚ where
  time := secondsBetween 0 one.time
  spent := one.reply.granted one.call.needed
  level := one.bucket.state.tokens

theorem grantedBetween_eq (earliest latest : ℚ) (answered : List Answered) :
    grantedBetween earliest latest answered =
      spentBetween earliest latest (answered.map Answered.reading) := by
  rw [grantedBetween, spentBetween, List.filter_map, List.map_map]
  rfl

/-- No call asks for a negative amount, and the calls come one after another,
none of them before the bucket was made. -/
structure Admissible (start : Nat) (calls : List (Nat × BucketCall)) :
    Prop where
  nonneg : ∀ timed ∈ calls, 0 ≤ timed.2.needed
  ordered : List.Pairwise (· ≤ ·) (start :: calls.map Prod.fst)

theorem Admissible.tail {start time : Nat} {call : BucketCall}
    {calls : List (Nat × BucketCall)}
    (admissible : Admissible start ((time, call) :: calls)) :
    Admissible time calls where
  nonneg timed member :=
    admissible.nonneg timed (List.mem_cons_of_mem _ member)
  ordered := admissible.ordered.tail

theorem Admissible.start_le {start time : Nat} {call : BucketCall}
    {calls : List (Nat × BucketCall)}
    (admissible : Admissible start ((time, call) :: calls)) : start ≤ time :=
  List.rel_of_pairwise_cons admissible.ordered List.mem_cons_self

section Runs

variable {bucket : TokenBucket} {calls : List (Nat × BucketCall)}

/-- The level stays within the capacity throughout. -/
theorem answers_withinCapacity (within : bucket.WithinCapacity)
    (nonneg : ∀ timed ∈ calls, 0 ≤ timed.2.needed) :
    ∀ one ∈ bucket.answers calls,
      one.bucket.WithinCapacity ∧ one.bucket.capacity = bucket.capacity := by
  induction calls generalizing bucket with
  | nil =>
      intro one member
      cases member
  | cons timed calls ih =>
      obtain ⟨time, call⟩ := timed
      have after : (bucket.answer time call).2.WithinCapacity :=
        within.answer time (nonneg _ List.mem_cons_self)
      intro one member
      rcases List.mem_cons.mp member with rfl | later
      · exact ⟨after, answer_capacity⟩
      · obtain ⟨kept, same⟩ := ih after (fun other inTail =>
          nonneg other (List.mem_cons_of_mem _ inTail)) one later
        exact ⟨kept, same.trans answer_capacity⟩

/-- What an answer leaves and what it grants fit into the capacity. -/
theorem answers_within (within : bucket.WithinCapacity)
    (nonneg : ∀ timed ∈ calls, 0 ≤ timed.2.needed) :
    ∀ reading ∈ (bucket.answers calls).map Answered.reading,
      Within bucket.capacity reading := by
  induction calls generalizing bucket with
  | nil =>
      intro reading member
      cases member
  | cons timed calls ih =>
      obtain ⟨time, call⟩ := timed
      have asks : 0 ≤ call.needed := nonneg _ List.mem_cons_self
      have after := within.answer time asks
      intro reading member
      rcases List.mem_cons.mp member with rfl | later
      · refine ⟨granted_nonneg asks, after.1, ?_⟩
        exact tokens_add_granted.trans_le (within.refilled time).2
      · have rest := ih after fun other inTail =>
          nonneg other (List.mem_cons_of_mem _ inTail)
        rw [answer_capacity] at rest
        exact rest reading later

/-- Between two answers the level grows at most at the refill rate. -/
theorem answers_isChain (bucket : TokenBucket) (spent : ℚ)
    (positive : 0 < bucket.refillRate)
    (admissible : Admissible bucket.state.lastRefill calls) :
    List.IsChain (Follows bucket.refillRate)
      (⟨secondsBetween 0 bucket.state.lastRefill, spent,
          bucket.state.tokens⟩ ::
        (bucket.answers calls).map Answered.reading) := by
  induction calls generalizing bucket spent with
  | nil => exact List.isChain_singleton _
  | cons timed calls ih =>
      obtain ⟨time, call⟩ := timed
      have later := admissible.start_le
      have refill := (refilled_spec positive later).2
      have stamped := answer_lastRefill call positive later
      have elapsed : 0 ≤ secondsBetween bucket.state.lastRefill time :=
        div_nonneg (Nat.cast_nonneg _) (by norm_num)
      rw [secondsBetween_eq later] at elapsed
      refine List.isChain_cons_cons.mpr ⟨⟨sub_nonneg.mp elapsed, ?_⟩, ?_⟩
      · exact tokens_add_granted.trans_le refill
      · have rest := ih (bucket.answer time call).2
          ((bucket.answer time call).1.granted call.needed) (by rwa [answer_refillRate]) (by
            rw [stamped]
            exact admissible.tail)
        rwa [answer_refillRate, stamped] at rest

end Runs

/-- The level of a bucket stays between nothing and its capacity, and the
calls of any interval are together granted at most the capacity and what the
interval refills. -/
theorem answers_conform (capacity : Nat) {refillRate : ℚ} (start : Nat)
    {calls : List (Nat × BucketCall)} (positive : 0 < refillRate)
    (admissible : Admissible start calls) :
    (∀ one ∈ (new capacity refillRate start).answers calls,
      0 ≤ one.bucket.state.tokens ∧ one.bucket.state.tokens ≤ capacity) ∧
    ∀ earliest latest : ℚ, earliest ≤ latest →
      grantedBetween earliest latest
          ((new capacity refillRate start).answers calls) ≤
        capacity + refillRate * (latest - earliest) := by
  have within := new_withinCapacity capacity refillRate start
  constructor
  · intro one member
    obtain ⟨⟨nonneg, below⟩, same⟩ :=
      answers_withinCapacity within admissible.nonneg one member
    exact ⟨nonneg, below.trans_eq same⟩
  · intro earliest latest ordered
    have chain := answers_isChain (new capacity refillRate start) 0
      positive admissible
    rw [grantedBetween_eq]
    exact spentBetween_le chain.tail
      (answers_within within admissible.nonneg) positive.le ordered
      (Nat.cast_nonneg capacity)

/-- Ten tokens and ten a second: all ten are taken at once, two more after
0.2 s. -/
theorem answers_conform_refilled :
    grantedBetween 0 (1 / 5) ((new 10 10 0).answers
      [(0, .tryAcquire 10), (0, .acquire 1),
        (200000000, .tryAcquire 2)]) ≤ 10 + 10 * (1 / 5 - 0) :=
  have admissible : Admissible 0 [(0, .tryAcquire 10), (0, .acquire 1),
      (200000000, .tryAcquire 2)] :=
    ⟨by simp [BucketCall.needed], by simp⟩
  (answers_conform 10 0 (by norm_num) admissible).2 0 (1 / 5) (by norm_num)

example : grantedBetween 0 (1 / 5) ((new 10 10 0).answers
    [(0, .tryAcquire 10), (0, .acquire 1),
      (200000000, .tryAcquire 2)]) = 12 := by
  decide +kernel

end TokenBucket

end TorchInference
