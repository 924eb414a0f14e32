import TorchInference.RateLimitCleanup

/-!
# The advice to a refused client

A refusal tells the client after how many seconds to come again.  The wait it
names ends with the window, and the window is still counted in the second in
which it ends, so a client that comes back in that second is refused once more,
unless a cleanup has dropped its entry in the meantime.
-/

namespace TorchInference

namespace LimiterEvent

/-- A cleanup at which a window that began at `start` counts as old. -/
def drops (windowSeconds start : UInt64) : LimiterEvent → Bool
  | request _ _ => false
  | cleanup now => decide (windowSeconds * 2 ≤ now - start)

end LimiterEvent

namespace RateLimiter

/-- The window of the key is over for a request at `now`, or its entry is
dropped before. -/
def WindowOver (limiter : RateLimiter) (key : String)
    (between : List LimiterEvent) (now : UInt64) : Prop :=
  ∀ entry ∈ limiter.requestCounts key,
    entry.2.toNat + limiter.windowSeconds.toNat < now.toNat ∨
      between.any (LimiterEvent.drops limiter.windowSeconds entry.2) = true

instance (limiter : RateLimiter) (key : String)
    (between : List LimiterEvent) (now : UInt64) :
    Decidable (limiter.WindowOver key between now) :=
  (limiter.requestCounts key).decidableForallMem

variable {limiter : RateLimiter} {key : String} {now : UInt64}

/-- A key with a limit is refused in its window, which has no room left, and is
told to wait until the window ends. -/
theorem isAllowed_eq_error {e : RateLimitError}
    (limited : limiter.maxRequests ≠ 0)
    (started : ∀ entry ∈ limiter.requestCounts key, entry.2.toNat ≤ now.toNat)
    (refused : (limiter.isAllowed key now).1 = .error e) :
    ∃ count timestamp, limiter.requestCounts key = some (count, timestamp) ∧
      limiter.maxRequests ≤ count ∧
      now.toNat + e.retryAfter.toNat =
        timestamp.toNat + limiter.windowSeconds.toNat ∧
      (limiter.isAllowed key now).2 = limiter := by
  unfold isAllowed at refused ⊢
  cases known : limiter.requestCounts key with
  | none =>
      have room : 0 < limiter.maxRequests :=
        UInt64.pos_iff_ne_zero.mpr limited
      simp only [known, if_pos room] at refused
      cases refused
  | some entry =>
      obtain ⟨count, timestamp⟩ := entry
      have begun : timestamp.toNat ≤ now.toNat := started _ known
      simp only [known] at refused ⊢
      by_cases expired : limiter.windowSeconds < now - timestamp
      · rw [if_pos expired] at refused
        cases refused
      · rw [if_neg expired] at refused ⊢
        by_cases room : count < limiter.maxRequests
        · rw [if_pos room] at refused
          cases refused
        · rw [if_neg room] at refused ⊢
          cases refused
          refine ⟨count, timestamp, rfl, UInt64.not_lt.mp room, ?_, rfl⟩
          have elapsed : (now - timestamp).toNat =
              now.toNat - timestamp.toNat :=
            UInt64.toNat_sub_of_le _ _ (UInt64.le_iff_toNat_le.mpr begun)
          rw [UInt64.toNat_sub_of_le _ _ (UInt64.not_lt.mp expired), elapsed]
          rw [LimiterHistory.isExpired_iff begun] at expired
          omega

end RateLimiter

namespace LimiterHistory

open RateLimiter

variable {history : LimiterHistory} {key : String} {clock : Nat}
  {maxRequests windowSeconds : UInt64} {events : List LimiterEvent}

/-- A cleanup makes no difference when twice the window is more than the
window, as it is for every window of less than `2 ^ 63` seconds but zero. -/
theorem windowOver_iff_of_lt_double {limiter : RateLimiter}
    {between : List LimiterEvent} {again : UInt64}
    (longer : limiter.windowSeconds < limiter.windowSeconds * 2)
    (started : ∀ entry ∈ limiter.requestCounts key, ∀ event ∈ between,
      entry.2 ≤ event.now)
    (sooner : ∀ event ∈ between, event.now ≤ again) :
    limiter.WindowOver key between again ↔
      ∀ entry ∈ limiter.requestCounts key,
        entry.2.toNat + limiter.windowSeconds.toNat < again.toNat := by
  refine forall₂_congr fun entry stored => or_iff_left_of_imp fun dropped => ?_
  obtain ⟨event, member, drops⟩ := List.any_eq_true.mp dropped
  cases event with
  | request name now => cases drops
  | cleanup now =>
      have old : limiter.windowSeconds * 2 ≤ now - entry.2 :=
        of_decide_eq_true drops
      have begun := UInt64.le_iff_toNat_le.mp (started entry stored _ member)
      have before := UInt64.le_iff_toNat_le.mp (sooner _ member)
      have passed : limiter.windowSeconds < now - entry.2 :=
        UInt64.lt_of_lt_of_le longer old
      exact Nat.lt_of_lt_of_le ((isExpired_iff begun).mp passed) before

/-! ## What lies between two requests of a key -/

/-- No window begins later than the clock. -/
structure Timely (maxRequests windowSeconds : UInt64) (clock : Nat)
    (limiter : RateLimiter) : Prop where
  sameMax : limiter.maxRequests = maxRequests
  sameWindow : limiter.windowSeconds = windowSeconds
  started : ∀ key, ∀ entry ∈ limiter.requestCounts key, entry.2.toNat ≤ clock

theorem Timely.serve
    (timely : Timely maxRequests windowSeconds clock history.limiter)
    {event : LimiterEvent} (later : clock ≤ event.now.toNat) :
    Timely maxRequests windowSeconds event.now.toNat
      (history.serve event).limiter := by
  cases event with
  | request name now =>
      obtain ⟨sameMax, sameWindow⟩ := history.limiter.isAllowed_config name now
      refine ⟨sameMax.trans timely.sameMax, sameWindow.trans timely.sameWindow,
        ?_⟩
      intro other entry stored
      by_cases same : other = name
      · subst same
        rcases (entry_of_isAllowed stored).1 with begun | ⟨earlier, known, begun⟩
        · exact Nat.le_of_eq (congrArg UInt64.toNat begun)
        · rw [begun]
          exact Nat.le_trans (timely.started other earlier known) later
      · simp only [LimiterHistory.serve] at stored
        rw [isAllowed_of_ne same] at stored
        exact Nat.le_trans (timely.started other entry stored) later
  | cleanup now =>
      refine ⟨timely.sameMax, timely.sameWindow, ?_⟩
      intro other entry stored
      have kept := (Option.mem_filter_iff.mp stored).1
      exact Nat.le_trans (timely.started other entry kept) later

theorem Timely.foldl
    (timely : Timely maxRequests windowSeconds clock history.limiter)
    (ordered : Ordered events)
    (later : ∀ event ∈ events, clock ≤ event.now.toNat) {now : Nat}
    (sooner : ∀ event ∈ events, event.now.toNat ≤ now)
    (clockSooner : clock ≤ now) :
    Timely maxRequests windowSeconds now
      (events.foldl LimiterHistory.serve history).limiter := by
  induction events generalizing clock history with
  | nil =>
      exact ⟨timely.sameMax, timely.sameWindow, fun key entry stored =>
        Nat.le_trans (timely.started key entry stored) clockSooner⟩
  | cons event events ih =>
      obtain ⟨before, rest⟩ := List.pairwise_cons.mp ordered
      apply ih (timely.serve (later event List.mem_cons_self)) rest
      · exact fun next member => UInt64.le_iff_toNat_le.mp (before next member)
      · exact fun next member => sooner next (List.mem_cons_of_mem _ member)
      · exact sooner event List.mem_cons_self

theorem timely_run (ordered : Ordered events) {now : UInt64}
    (sooner : ∀ event ∈ events, event.now ≤ now) :
    Timely maxRequests windowSeconds now.toNat
      (run maxRequests windowSeconds events).limiter := by
  have begins : Timely maxRequests windowSeconds 0
      (start maxRequests windowSeconds).limiter :=
    ⟨rfl, rfl, fun key entry stored => by simp [start, RateLimiter.new]
      at stored⟩
  exact begins.foldl ordered (fun event _ => Nat.zero_le _)
    (fun event member => UInt64.le_iff_toNat_le.mp (sooner event member))
    (Nat.zero_le _)

/-- Without a request of its own a key keeps its entry until a cleanup drops
it. -/
theorem requestCounts_foldl {count timestamp : UInt64}
    (stored : history.limiter.requestCounts key = some (count, timestamp))
    (sameWindow : history.limiter.windowSeconds = windowSeconds)
    (others : ∀ event ∈ events, event.isFor key = false) :
    (events.foldl serve history).limiter.requestCounts key =
      if events.any (LimiterEvent.drops windowSeconds timestamp) then none
      else some (count, timestamp) := by
  -- A key without an entry gets none from the requests of others.
  have absent : ∀ (events : List LimiterEvent) (history : LimiterHistory),
      history.limiter.requestCounts key = none →
      (∀ event ∈ events, event.isFor key = false) →
      (events.foldl serve history).limiter.requestCounts key = none := by
    intro events
    induction events with
    | nil => exact fun history none _ => none
    | cons event events ih =>
        intro history none others
        apply ih _ _ fun next member =>
          others next (List.mem_cons_of_mem _ member)
        cases event with
        | request name now =>
            have different : name ≠ key := by
              simpa [LimiterEvent.isFor] using others _ List.mem_cons_self
            exact (isAllowed_of_ne different.symm).trans none
        | cleanup now => simp [serve, cleanupOldEntries, none]
  induction events generalizing history with
  | nil => exact stored
  | cons event events ih =>
      have othersRest : ∀ event ∈ events, event.isFor key = false :=
        fun next member => others next (List.mem_cons_of_mem _ member)
      rw [List.foldl_cons, List.any_cons]
      cases event with
      | request name now =>
          have different : name ≠ key := by
            simpa [LimiterEvent.isFor] using others _ List.mem_cons_self
          exact ih ((isAllowed_of_ne different.symm).trans stored)
            ((history.limiter.isAllowed_config name now).2.trans sameWindow)
            othersRest
      | cleanup now =>
          by_cases old : windowSeconds * 2 ≤ now - timestamp
          · have dropped : (history.serve (.cleanup now)).limiter.requestCounts
                key = none := by
              simp [serve, cleanupOldEntries, stored, sameWindow, old]
            rw [absent events _ dropped othersRest, LimiterEvent.drops,
              decide_eq_true old, Bool.true_or, if_pos rfl]
          · have kept : (history.serve (.cleanup now)).limiter.requestCounts
                key = some (count, timestamp) := by
              simp [serve, cleanupOldEntries, stored, sameWindow,
                UInt64.not_le.mp old]
            rw [ih kept sameWindow othersRest, LimiterEvent.drops,
              decide_eq_false old, Bool.false_or]

/-! ## Coming back -/

/-- A client that has waited as long as it was told is served exactly when the
clock reads more than the end of its window, or a cleanup has dropped its
entry. -/
theorem served_after_wait_iff {limit window : UInt64} (limited : limit ≠ 0)
    {key : String} {earlier between : List LimiterEvent}
    {refusal again : UInt64} {e : RateLimitError}
    (ordered : Ordered (earlier ++ .request key refusal :: between ++
      [.request key again]))
    (refused : ((run limit window earlier).limiter.isAllowed key refusal).1 =
      .error e)
    (others : ∀ event ∈ between, event.isFor key = false)
    (waited : refusal.toNat + e.retryAfter.toNat ≤ again.toNat) :
    ((run limit window (earlier ++ .request key refusal :: between)
        ).limiter.isAllowed key again).1.isOk = true ↔
      (run limit window earlier).limiter.WindowOver key between again := by
  obtain ⟨orderedBefore, -, beforeAgain⟩ := List.pairwise_append.mp ordered
  obtain ⟨orderedEarlier, -, beforeRefusal⟩ :=
    List.pairwise_append.mp orderedBefore
  have timely : Timely limit window refusal.toNat
      (run limit window earlier).limiter :=
    timely_run orderedEarlier fun event member =>
      beforeRefusal event member _ List.mem_cons_self
  obtain ⟨count, timestamp, stored, full, deadline, unchanged⟩ :=
    isAllowed_eq_error (by rwa [timely.sameMax]) (timely.started key) refused
  rw [timely.sameWindow] at deadline
  rw [timely.sameMax] at full
  have begun : timestamp.toNat ≤ again.toNat := by
    have earlierStart := timely.started key _ stored
    simp only at earlierStart
    omega
  -- The refusal itself changes nothing.
  have middle : (run limit window
      (earlier ++ .request key refusal :: between)).limiter.requestCounts key =
      if between.any (LimiterEvent.drops window timestamp) then none
      else some (count, timestamp) := by
    rw [run, List.foldl_append, List.foldl_cons]
    exact requestCounts_foldl
      (by rw [← stored, ← unchanged]; rfl)
      (((run limit window earlier).limiter.isAllowed_config key refusal).2.trans
        timely.sameWindow) others
  have config : Timely limit window again.toNat (run limit window
      (earlier ++ .request key refusal :: between)).limiter :=
    timely_run orderedBefore fun event member =>
      beforeAgain event member _ List.mem_cons_self
  rw [WindowOver, stored]
  simp only [Option.mem_some_iff, forall_eq', timely.sameWindow]
  unfold RateLimiter.isAllowed
  rw [middle, config.sameMax, config.sameWindow]
  by_cases dropped : between.any (LimiterEvent.drops window timestamp) = true
  · simp only [if_pos dropped, if_pos (UInt64.pos_iff_ne_zero.mpr limited)]
    exact iff_of_true rfl (.inr dropped)
  · rw [if_neg dropped, or_iff_left dropped, ← isExpired_iff begun]
    by_cases expired : window < again - timestamp
    · simp only [if_pos expired]
      exact iff_of_true rfl expired
    · simp only [if_neg expired, if_neg (UInt64.not_lt.mpr full)]
      exact iff_of_false (by simp [Except.isOk, Except.toBool]) expired

/-- A client that comes back in the second after its window. -/
theorem patientClient_served :
    ((run 1 60 ([.request "10.0.0.1" 1000] ++ .request "10.0.0.1" 1010 ::
        [.cleanup 1030, .request "10.0.0.2" 1040])).limiter.isAllowed
          "10.0.0.1" 1061).1.isOk = true := by
  have refused : ((run 1 60 [.request "10.0.0.1" 1000]).limiter.isAllowed
      "10.0.0.1" 1010).1 = .error ⟨"Rate limit exceeded", 50⟩ := by decide
  have ordered : Ordered ([.request "10.0.0.1" 1000] ++
      .request "10.0.0.1" 1010 ::
        [.cleanup 1030, .request "10.0.0.2" 1040] ++
          [.request "10.0.0.1" 1061]) := by
    simp [Ordered, LimiterEvent.now]
  exact (served_after_wait_iff (by decide) ordered refused (by decide)
    (by decide)).mpr (by decide)

/-- A client that waits for the seconds it is told, and is refused again, with
no second left to wait. -/
theorem promptClient_refused :
    ((run 1 60 [.request "10.0.0.1" 1000]).limiter.isAllowed "10.0.0.1"
        1010).1 = .error ⟨"Rate limit exceeded", 50⟩ ∧
      ((run 1 60 [.request "10.0.0.1" 1000, .request "10.0.0.1" 1010]
        ).limiter.isAllowed "10.0.0.1" 1060).1 =
          .error ⟨"Rate limit exceeded", 0⟩ := by
  decide

end LimiterHistory

end TorchInference
