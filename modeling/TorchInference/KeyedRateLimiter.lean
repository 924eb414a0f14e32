import Mathlib.Algebra.Order.BigOperators.Group.Finset
import TorchInference.AcquireHint
import TorchInference.SharedObjects

/-!
# A token bucket for every key

The limiter keeps the bucket of a key in a shared map.  A call looks the key up,
and inserts a bucket in a second step if there is none; then it takes the lock
of the bucket.  Keys can be removed while callers hold their buckets.
-/

namespace TorchInference

open SharedObjects TransitionRuns

structure KeyedRateLimiter where
  defaultCapacity : Nat
  defaultRate : ℚ

inductive KeyedCall where
  | tryAcquire (tokens : ℚ)
  | acquire (tokens : ℚ)
  | getStats

/-- What a call asks of the bucket. -/
def KeyedCall.onBucket : KeyedCall → BucketCall
  | .tryAcquire tokens => .tryAcquire tokens
  | .acquire tokens => .acquire tokens
  | .getStats => .availableTokens

/-- `get_stats` has no answer for a key without a bucket; the other calls go
through `get_or_create_limiter`. -/
def KeyedCall.creates : KeyedCall → Bool
  | .getStats => false
  | _ => true

namespace KeyedRateLimiter

variable (limiter : KeyedRateLimiter)

def buckets : Behaviour TokenBucket KeyedCall BucketReply where
  fresh now := .new limiter.defaultCapacity limiter.defaultRate now
  answer bucket now call := bucket.answer now call.onBucket
  creates := KeyedCall.creates

/-- The limiter, the callers that are under way, and the answers so far. -/
abbrev Callers := Shared String TokenBucket KeyedCall BucketReply

def step (callers : Callers) (event : Event String KeyedCall) : Option Callers :=
  callers.step limiter.buckets event

/-- An answer of a bucket. -/
def toBucket (one : Answered TokenBucket KeyedCall BucketReply) :
    TokenBucket.Answered where
  time := one.time
  call := one.call.onBucket
  reply := one.reply
  bucket := one.object

/-- The calls of a bucket. -/
def callsOf (log : List (Answered TokenBucket KeyedCall BucketReply)) :
    List (Nat × BucketCall) :=
  log.map fun one => (one.time, one.call.onBucket)

/-- What the calls for a key from one time to another, in seconds, were
granted. -/
def grantedBetween (callers : Callers) (key : String) (earliest latest : ℚ) : ℚ :=
  TokenBucket.grantedBetween earliest latest
    ((callers.answersFor key).map toBucket)

theorem callsOf_concat (log : List (Answered TokenBucket KeyedCall BucketReply))
    (one : Answered TokenBucket KeyedCall BucketReply) :
    callsOf (log ++ [one]) = callsOf log ++ [(one.time, one.call.onBucket)] :=
  List.map_append

/-! ## One bucket -/

theorem answers_append (bucket : TokenBucket) (calls later : List (Nat × BucketCall)) :
    bucket.answers (calls ++ later) =
      bucket.answers calls ++ (bucket.after calls).answers later := by
  induction calls generalizing bucket with
  | nil => rfl
  | cons timed calls ih => exact congrArg (List.cons _) (ih _)

variable {limiter} {start bucket : TokenBucket}
  {log : List (Answered TokenBucket KeyedCall BucketReply)}

/-- What a bucket has answered is what it answers to calls one after another. -/
theorem answers_of_replays (replays : Replays limiter.buckets start log bucket) :
    log.map toBucket = start.answers (callsOf log) ∧
      bucket = start.after (callsOf log) := by
  induction replays with
  | nil => exact ⟨rfl, rfl⟩
  | @snoc log bucket _ time call ih =>
      obtain ⟨answered, rfl⟩ := ih
      constructor
      · rw [List.map_append, callsOf_concat, answers_append, answered]
        rfl
      · rw [callsOf_concat, TokenBucket.after_append]
        rfl

/-- The calls of a bucket come in order, and none asks for a negative amount. -/
theorem admissible_of_ordered {made : Nat}
    (ordered : (log.map Answered.time).Pairwise (· ≤ ·))
    (later : ∀ one ∈ log, made ≤ one.time)
    (nonneg : ∀ one ∈ log, 0 ≤ one.call.onBucket.needed) :
    TokenBucket.Admissible made (callsOf log) where
  nonneg timed mem := by
    obtain ⟨one, isOne, rfl⟩ := List.mem_map.mp mem
    exact nonneg one isOne
  ordered := by
    have times : (callsOf log).map Prod.fst = log.map Answered.time := by
      rw [callsOf, List.map_map]
      rfl
    rw [times, List.pairwise_cons]
    refine ⟨?_, ordered⟩
    intro time mem
    obtain ⟨one, isOne, rfl⟩ := List.mem_map.mp mem
    exact later one isOne

/-- What one bucket grants in an interval. -/
theorem granted_of_replays (positive : 0 < limiter.defaultRate) {made : Nat}
    (replays : Replays limiter.buckets (limiter.buckets.fresh made) log bucket)
    (admissible : TokenBucket.Admissible made (callsOf log)) {earliest latest : ℚ}
    (interval : earliest ≤ latest) :
    TokenBucket.grantedBetween earliest latest (log.map toBucket) ≤
      limiter.defaultCapacity + limiter.defaultRate * (latest - earliest) := by
  have chain := TokenBucket.answers_isChain
    (.new limiter.defaultCapacity limiter.defaultRate made) 0 positive admissible
  have within := TokenBucket.answers_within
    (TokenBucket.new_withinCapacity limiter.defaultCapacity limiter.defaultRate made)
    admissible.nonneg
  rw [(answers_of_replays replays).1, TokenBucket.grantedBetween_eq]
  exact RateEnvelope.spentBetween_le chain.tail within positive.le interval
    (Nat.cast_nonneg _)

/-! ## All callers -/

/-- What an answer adds to the tokens granted in an interval. -/
def grantedIn (earliest latest : ℚ)
    (one : Answered TokenBucket KeyedCall BucketReply) : ℚ :=
  if earliest ≤ secondsBetween 0 one.time ∧ secondsBetween 0 one.time ≤ latest then
    one.reply.granted one.call.onBucket.needed
  else 0

theorem grantedBetween_eq_sum (earliest latest : ℚ) :
    TokenBucket.grantedBetween earliest latest (log.map toBucket) =
      (log.map (grantedIn earliest latest)).sum := by
  induction log with
  | nil => rfl
  | cons one log ih =>
      rw [TokenBucket.grantedBetween_eq] at ih ⊢
      rw [List.map_cons, List.map_cons, RateEnvelope.spentBetween_cons, List.map_cons,
        List.sum_cons, ← ih]
      rfl

variable {begin : Nat} {events : List (Event String KeyedCall)} {final : Callers}

/-- No caller asks for a negative amount. -/
def AsksNonneg (events : List (Event String KeyedCall)) : Prop :=
  ∀ worker key call, .lookUp worker key call ∈ events → 0 ≤ call.onBucket.needed

/-- Whatever callers, removals and insertions come between one another: in every
interval the calls for a key are granted no more than a bucket holds and refills
in it, and that again for each time that the key is removed. -/
theorem grantedBetween_le (positive : 0 < limiter.defaultRate) (key : String)
    (ran : run limiter.step (.initial begin) events = some final)
    (nonneg : AsksNonneg events) {earliest latest : ℚ}
    (interval : earliest ≤ latest) :
    grantedBetween final key earliest latest ≤
      (1 + Shared.removals key events : ℕ) *
        (limiter.defaultCapacity + limiter.defaultRate * (latest - earliest)) := by
  obtain ⟨owned, replayed⟩ := Shared.kept_of_run ran
  have asks : final.Asks fun _ call => 0 ≤ call.onBucket.needed :=
    Shared.asks_of_run (Shared.Asks.initial begin) nonneg ran
  have each : ∀ handle ∈ final.handlesOf key,
      ((final.answersOf handle).map (grantedIn earliest latest)).sum ≤
        limiter.defaultCapacity + limiter.defaultRate * (latest - earliest) := by
    intro handle mem
    have isOwner := Shared.mem_handlesOf.mp mem
    obtain ⟨shared, present, -⟩ := Option.map_eq_some_iff.mp isOwner
    rw [← grantedBetween_eq_sum]
    refine granted_of_replays positive (replayed.replays handle shared present) ?_
      interval
    exact admissible_of_ordered (replayed.answersOf_ordered handle)
      (replayed.made handle shared present).2 (asks.answersOf owned isOwner)
  have few := Shared.card_handlesOf_le key ran
  have bound : (0 : ℚ) ≤
      limiter.defaultCapacity + limiter.defaultRate * (latest - earliest) :=
    add_nonneg (Nat.cast_nonneg _) (mul_nonneg positive.le (sub_nonneg.mpr interval))
  calc
    _ = ∑ handle ∈ final.handlesOf key,
          ((final.answersOf handle).map (grantedIn earliest latest)).sum := by
      rw [grantedBetween, grantedBetween_eq_sum, Shared.sum_answersFor _ owned]
    _ ≤ (final.handlesOf key).card •
          (limiter.defaultCapacity + limiter.defaultRate * (latest - earliest)) :=
      Finset.sum_le_card_nsmul _ _ _ each
    _ ≤ _ := by
      rw [nsmul_eq_mul]
      exact mul_le_mul_of_nonneg_right (Nat.cast_le.mpr few) bound

/-- While a key is not removed, its callers are answered by one bucket, as if
they called it one after another and nobody asked for another key. -/
theorem answersFor_eq_answers (key : String)
    (ran : run limiter.step (.initial begin) events = some final)
    (keeps : Shared.removals key events = 0) :
    ∃ made, (final.answersFor key).map toBucket =
      (TokenBucket.new limiter.defaultCapacity limiter.defaultRate made).answers
        (callsOf (final.answersFor key)) := by
  rcases Shared.answersFor_replays key ran keeps with none | ⟨made, bucket, replays⟩
  · refine ⟨0, ?_⟩
    rw [none]
    rfl
  · exact ⟨made, (answers_of_replays replays).1⟩

end KeyedRateLimiter

end TorchInference
