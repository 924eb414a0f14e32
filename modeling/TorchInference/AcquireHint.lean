import TorchInference.TokenBucket

/-!
# The wait of a refused acquisition

A refused acquisition is told how long the bucket takes to refill what is
missing.  The refill stops at the capacity, so the wait is long enough exactly
for what the bucket can hold at all.
-/

namespace TorchInference

namespace TokenBucket

open RateEnvelope

/-- The bucket after calls made one after another. -/
def after (bucket : TokenBucket) (calls : List (Nat × BucketCall)) :
    TokenBucket :=
  calls.foldl (fun bucket timed => (bucket.answer timed.1 timed.2).2) bucket

theorem after_append (bucket : TokenBucket)
    (calls later : List (Nat × BucketCall)) :
    bucket.after (calls ++ later) = (bucket.after calls).after later :=
  List.foldl_append

@[simp]
theorem after_capacity (bucket : TokenBucket)
    (calls : List (Nat × BucketCall)) :
    (bucket.after calls).capacity = bucket.capacity := by
  induction calls generalizing bucket with
  | nil => rfl
  | cons timed calls ih => exact (ih _).trans answer_capacity

@[simp]
theorem after_refillRate (bucket : TokenBucket)
    (calls : List (Nat × BucketCall)) :
    (bucket.after calls).refillRate = bucket.refillRate := by
  induction calls generalizing bucket with
  | nil => rfl
  | cons timed calls ih => exact (ih _).trans answer_refillRate

/-- The bucket had a level at a time and was only refilled since, up to a later
time. -/
structure RefilledSince (level : ℚ) (time now : Nat) (bucket : TokenBucket) :
    Prop where
  ordered : time ≤ now
  stamped : bucket.state.lastRefill = now
  level_eq : bucket.state.tokens =
    if now = time then level
    else refill bucket.refillRate bucket.capacity level (secondsBetween time now)

section Waiting

variable {bucket : TokenBucket} {level : ℚ} {time now later : Nat}

theorem secondsBetween_add (first : time ≤ now) (second : now ≤ later) :
    secondsBetween time now + secondsBetween now later =
      secondsBetween time later := by
  rw [secondsBetween, secondsBetween, secondsBetween, ← add_div,
    ← Nat.cast_add]
  congr 2
  omega

theorem secondsBetween_pos (ordered : time < now) :
    0 < secondsBetween time now :=
  div_pos (Nat.cast_pos.mpr (Nat.sub_pos_of_lt ordered)) (by norm_num)

/-- A refill at a later time. -/
theorem refilled_tokens (positive : 0 < bucket.refillRate)
    (ordered : bucket.state.lastRefill ≤ now) :
    (bucket.refilled now).state.tokens =
      if now = bucket.state.lastRefill then bucket.state.tokens
      else refill bucket.refillRate bucket.capacity bucket.state.tokens
        (secondsBetween bucket.state.lastRefill now) := by
  simp only [refilled, doRefill]
  rcases ordered.eq_or_lt with same | before
  · have nothing : secondsBetween bucket.state.lastRefill now = 0 := by
      rw [secondsBetween, same, Nat.sub_self, Nat.cast_zero, zero_div]
    rw [nothing, zero_mul, if_neg (lt_irrefl 0), if_pos same.symm]
  · rw [if_pos (mul_pos (secondsBetween_pos before) positive),
      if_neg before.ne', refill, mul_comm]

theorem RefilledSince.refilled (positive : 0 < bucket.refillRate)
    (since : RefilledSince level time now bucket) (ordered : now ≤ later) :
    RefilledSince level time later (bucket.refilled later) := by
  obtain ⟨begun, stamped, level_eq⟩ := since
  have readable : bucket.state.lastRefill ≤ later := stamped.trans_le ordered
  refine ⟨begun.trans ordered, (refilled_spec positive readable).1, ?_⟩
  rw [refilled_tokens positive readable, stamped, level_eq]
  change _ = if later = time then level else
    refill bucket.refillRate bucket.capacity level (secondsBetween time later)
  by_cases atOnce : now = time
  · rw [if_pos atOnce, atOnce]
  · have passed : time < later := by omega
    rw [if_neg atOnce, if_neg passed.ne']
    by_cases same : later = now
    · rw [if_pos same, same]
    · have elapsed := secondsBetween_pos (ordered.lt_of_ne' same)
      rw [if_neg same, refill_refill positive.le _ _ elapsed.le,
        secondsBetween_add begun ordered]

/-- A call that is granted nothing only refills the bucket. -/
theorem answer_of_granted_zero {call : BucketCall}
    (nothing : (bucket.answer now call).1.granted call.needed = 0) :
    (bucket.answer now call).2 = bucket.refilled now := by
  rw [(answer_serves bucket now call).after_eq, nothing, take_zero]

/-- Calls that are granted nothing only refill the bucket. -/
theorem RefilledSince.after {calls : List (Nat × BucketCall)}
    (positive : 0 < bucket.refillRate)
    (since : RefilledSince level time now bucket)
    (ordered : List.Pairwise (· ≤ ·) (now :: (calls.map Prod.fst ++ [later])))
    (nothing : ∀ one ∈ bucket.answers calls,
      one.reply.granted one.call.needed = 0) :
    RefilledSince level time later ((bucket.after calls).refilled later) := by
  induction calls generalizing bucket now with
  | nil =>
      have first : now ≤ later :=
        List.rel_of_pairwise_cons ordered (List.mem_singleton_self later)
      exact since.refilled positive first
  | cons timed calls ih =>
      obtain ⟨moment, call⟩ := timed
      obtain ⟨now_le, rest⟩ := List.pairwise_cons.mp ordered
      obtain ⟨first, others⟩ := List.forall_mem_cons.mp nothing
      have moved := answer_of_granted_zero first
      have next := since.refilled positive (now_le moment List.mem_cons_self)
      rw [moved] at others
      have step := @ih (bucket.refilled moment) moment positive next rest others
      rw [TokenBucket.after, List.foldl_cons]
      dsimp only
      rw [moved]
      exact step

end Waiting

section Runs

variable {refillRate : ℚ}

theorem after_lastRefill_le {bucket : TokenBucket}
    {calls : List (Nat × BucketCall)} {now : Nat}
    (positive : 0 < bucket.refillRate)
    (ordered : List.Pairwise (· ≤ ·)
      (bucket.state.lastRefill :: (calls.map Prod.fst ++ [now]))) :
    (bucket.after calls).state.lastRefill ≤ now := by
  induction calls generalizing bucket with
  | nil => exact List.rel_of_pairwise_cons ordered (List.mem_singleton_self now)
  | cons timed calls ih =>
      obtain ⟨moment, call⟩ := timed
      obtain ⟨stamp_le, rest⟩ := List.pairwise_cons.mp ordered
      have stamped := answer_lastRefill call positive
        (stamp_le moment List.mem_cons_self)
      exact @ih (bucket.answer moment call).2 (by rwa [answer_refillRate])
        (by rwa [stamped])

/-- A refusal names the time in which what is missing is refilled. -/
theorem acquire_eq_retryAfter {bucket : TokenBucket} {now : Nat} {needed : ℚ}
    {wait : WaitTime}
    (refused : (bucket.acquire now needed).1 = .retryAfter wait) :
    (bucket.refilled now).state.tokens < needed ∧
      wait.seconds =
        (needed - (bucket.refilled now).state.tokens) / bucket.refillRate ∧
      (bucket.acquire now needed).2 = bucket.refilled now := by
  unfold acquire at refused ⊢
  dsimp only at refused ⊢
  by_cases enough : needed ≤ (bucket.refilled now).state.tokens
  · rw [if_pos enough] at refused
    cases refused
  · rw [if_neg enough] at refused ⊢
    refine ⟨not_le.mp enough, ?_, rfl⟩
    unfold BucketReply.wait WaitTime.fromSecs at refused
    split_ifs at refused with fits
    obtain rfl := BucketReply.retryAfter.inj refused
    rfl

theorem acquire_eq_admitted {bucket : TokenBucket} {now : Nat} {needed : ℚ} :
    (bucket.acquire now needed).1 = .admitted ↔
      needed ≤ (bucket.refilled now).state.tokens := by
  unfold acquire
  dsimp only
  by_cases enough : needed ≤ (bucket.refilled now).state.tokens
  · rw [if_pos enough]
    exact iff_of_true rfl enough
  · rw [if_neg enough]
    refine iff_of_false (fun admitted => ?_) enough
    unfold BucketReply.wait at admitted
    split at admitted
    · cases admitted
    · cases admitted

/-- After the time a refusal names, with nothing taken in between, the bucket
holds what was asked for unless it is more than the capacity. -/
theorem acquire_after_wait_iff {bucket : TokenBucket}
    {between : List (Nat × BucketCall)} {time again : Nat} {needed : ℚ}
    {wait : WaitTime} (positive : 0 < bucket.refillRate)
    (stamped : bucket.state.lastRefill ≤ time)
    (ordered : List.Pairwise (· ≤ ·)
      (time :: (between.map Prod.fst ++ [again])))
    (refused : (bucket.acquire time needed).1 = .retryAfter wait)
    (untouched : ∀ one ∈ (bucket.acquire time needed).2.answers between,
      one.reply.granted one.call.needed = 0)
    (waited : wait.seconds ≤ secondsBetween time again) :
    (((bucket.acquire time needed).2.after between).acquire again needed).1 =
      .admitted ↔ needed ≤ bucket.capacity := by
  obtain ⟨short, wait_eq, left⟩ := acquire_eq_retryAfter refused
  have since : RefilledSince (bucket.refilled time).state.tokens time time
      (bucket.refilled time) :=
    ⟨le_refl time, (refilled_spec positive stamped).1, (if_pos rfl).symm⟩
  rw [left] at untouched ⊢
  have refills : 0 < (bucket.refilled time).refillRate := positive
  have last := (RefilledSince.after refills since ordered untouched).level_eq
  rw [acquire_eq_admitted, last]
  -- Something is missing, so the wait takes time.
  have positiveWait : 0 < secondsBetween time again :=
    (wait_eq ▸ div_pos (sub_pos.mpr short) positive).trans_le waited
  have passed : again ≠ time := by
    rintro rfl
    rw [secondsBetween, Nat.sub_self, Nat.cast_zero, zero_div] at positiveWait
    exact lt_irrefl 0 positiveWait
  have enough : needed ≤ (bucket.refilled time).state.tokens +
      bucket.refillRate * secondsBetween time again := by
    rw [wait_eq, div_le_iff₀' positive] at waited
    exact sub_le_iff_le_add'.mp waited
  have sameRate : (((bucket.refilled time).after between).refilled again
      ).refillRate = bucket.refillRate := after_refillRate _ _
  have sameCapacity : (((bucket.refilled time).after between).refilled again
      ).capacity = bucket.capacity := after_capacity _ _
  rw [if_neg passed, sameRate, sameCapacity]
  exact le_refill_iff enough

/-- Whatever was called before it, a refused acquisition that is repeated after
the time it was told, with nothing taken in between, is admitted exactly if it
does not ask for more than the capacity. -/
theorem admitted_iff_le_capacity (capacity : Nat) (positive : 0 < refillRate)
    (start : Nat) {earlier between : List (Nat × BucketCall)}
    {time again : Nat} {needed : ℚ} {wait : WaitTime}
    (ordered : List.Pairwise (· ≤ ·) (start :: (earlier.map Prod.fst ++
      time :: (between.map Prod.fst ++ [again]))))
    (refused : (((new capacity refillRate start).after earlier).acquire time
      needed).1 = .retryAfter wait)
    (untouched : ∀ one ∈ (((new capacity refillRate start).after
        earlier).acquire time needed).2.answers between,
      one.reply.granted one.call.needed = 0)
    (waited : wait.seconds ≤ secondsBetween time again) :
    (((new capacity refillRate start).after
        (earlier ++ (time, .acquire needed) :: between)).acquire again
          needed).1 = .admitted ↔ needed ≤ capacity := by
  have prior : List.Pairwise (· ≤ ·)
      (start :: (earlier.map Prod.fst ++ [time])) :=
    ordered.sublist (((List.Sublist.refl _).append
      (List.singleton_sublist.mpr List.mem_cons_self)).cons_cons start)
  have rest : List.Pairwise (· ≤ ·)
      (time :: (between.map Prod.fst ++ [again])) :=
    (List.pairwise_append.mp ordered.tail).2.1
  have rate := after_refillRate (new capacity refillRate start) earlier
  have refills : 0 < ((new capacity refillRate start).after
      earlier).refillRate := rate.symm ▸ positive
  have stamped :=
    @after_lastRefill_le (new capacity refillRate start) earlier time positive
      prior
  have again_iff :=
    acquire_after_wait_iff refills stamped rest refused untouched waited
  rw [after_capacity] at again_iff
  rw [after_append]
  exact again_iff

end Runs

/-- An emptied bucket refills four tokens in the two seconds it names, whoever
asks how many there are in the meantime. -/
theorem emptied_admitted_in_time :
    (((new 10 2 0).after ([(0, .tryAcquire 10)] ++ (0, .acquire 4) ::
        [(1000000000, .availableTokens), (1500000000, .tryAcquire 5)])).acquire
          2000000000 4).1 = .admitted := by
  have refused : (((new 10 2 0).after [(0, .tryAcquire 10)]).acquire 0 4).1 =
      .retryAfter ⟨2⟩ := by
    decide +kernel
  have waited : (⟨2⟩ : WaitTime).seconds ≤ secondsBetween 0 2000000000 := by
    decide +kernel
  refine (admitted_iff_le_capacity 10 (by norm_num) 0 ?_ refused ?_
    waited).mpr (by norm_num)
  · decide
  · decide +kernel

/-- A bucket of five tokens tells who asks for ten to wait five seconds, and
tells him so again after them. -/
theorem oversized_refused_again :
    ((new 5 1 0).acquire 0 10).1 = .retryAfter ⟨5⟩ ∧
      (((new 5 1 0).after [(0, .acquire 10)]).acquire 5000000000 10).1 =
        .retryAfter ⟨5⟩ := by
  decide +kernel

end TokenBucket

end TorchInference
