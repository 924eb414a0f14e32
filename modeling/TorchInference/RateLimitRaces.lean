import TorchInference.RateLimitWindow

/-!
# Concurrent calls of the rate limiter

`is_allowed` reads the clock, looks its key up and charges the entry it finds
while it holds the entry.  When there is no entry it lets go and inserts a new
one in a step of its own.  Calls are interleaved in any way; a call whose key
has been inserted since its lookup overwrites what has been charged.
-/

namespace TorchInference

open TransitionRuns SpendingBudget

namespace RateLimiter

/-- The part of `is_allowed` after the lookup of an absent key. -/
def coldPath (limiter : RateLimiter) (key : String) (now : UInt64) :
    Except RateLimitError Unit × RateLimiter :=
  if 0 < limiter.maxRequests then (.ok (), limiter.withEntry key (1, now))
  else
    (.error ⟨"Rate limit exceeded", limiter.windowSeconds⟩, limiter)

/-- A call that nothing interrupts takes the cold path of an absent key. -/
theorem isAllowed_of_absent {limiter : RateLimiter} {key : String}
    (absent : limiter.requestCounts key = none) (now : UInt64) :
    limiter.isAllowed key now = limiter.coldPath key now := by
  rw [isAllowed, absent]
  rfl

end RateLimiter

/-- A call of `is_allowed` that has read the clock. -/
structure LimiterCall where
  key : String
  now : UInt64

/-- The limiter, the calls before their lookup, the calls before their
insertion, and the calls that have returned. -/
structure LimiterCalls where
  limiter : RateLimiter
  looking : List LimiterCall
  inserting : List LimiterCall
  returned : List (LimiterCall × Except RateLimitError Unit)

inductive LimiterAction where
  | call (key : String) (now : UInt64)
  | lookUp (index : Nat)
  | insert (index : Nat)

namespace LimiterCalls

def start (maxRequests windowSeconds : UInt64) : LimiterCalls where
  limiter := .new maxRequests windowSeconds
  looking := []
  inserting := []
  returned := []

/-- The limiter has answered a call. -/
def answer (calls : LimiterCalls) (call : LimiterCall)
    (answered : Except RateLimitError Unit × RateLimiter) : LimiterCalls :=
  { calls with
    limiter := answered.2
    returned := calls.returned ++ [(call, answered.1)] }

def step (calls : LimiterCalls) : LimiterAction → Option LimiterCalls
  | .call key now =>
      some { calls with looking := calls.looking ++ [⟨key, now⟩] }
  | .lookUp index =>
      match calls.looking[index]? with
      | none => none
      | some call =>
          let rest := calls.looking.eraseIdx index
          match calls.limiter.requestCounts call.key with
          | some _ => some ({ calls with looking := rest }.answer call
              (calls.limiter.isAllowed call.key call.now))
          | none => some { calls with
              looking := rest
              inserting := calls.inserting ++ [call] }
  | .insert index =>
      match calls.inserting[index]? with
      | none => none
      | some call =>
          let rest := calls.inserting.eraseIdx index
          some ({ calls with inserting := rest }.answer call
            (calls.limiter.coldPath call.key call.now))

/-- The calls of a key that have been allowed. -/
def granted (calls : LimiterCalls) (key : String) : Nat :=
  calls.returned.countP fun (call, result) => call.key == key && result.isOk

/-- The reading of the clock lies within the window that starts at `first`. -/
def InWindow (first window now : UInt64) : Prop :=
  first ≤ now ∧ now.toNat ≤ first.toNat + window.toNat

/-- The calls of the key read the clock within one window. -/
def ReadsWithin (key : String) (first : UInt64) (calls : LimiterCalls) :
    LimiterAction → Prop
  | .call other now =>
      other = key → InWindow first calls.limiter.windowSeconds now
  | _ => True

/-- A call of the key inserts an entry only while there is none, and finds no
entry that starts after its own reading of the clock. -/
def Undisturbed (key : String) (calls : LimiterCalls) :
    LimiterAction → Prop
  | .call _ _ => True
  | .lookUp index => ∀ call ∈ calls.looking[index]?, call.key = key →
      ∀ entry ∈ calls.limiter.requestCounts key, entry.2 ≤ call.now
  | .insert index => ∀ call ∈ calls.inserting[index]?, call.key = key →
      calls.limiter.requestCounts key = none

instance (key : String) (first : UInt64) (calls : LimiterCalls)
    (action : LimiterAction) :
    Decidable (ReadsWithin key first calls action) := by
  unfold ReadsWithin InWindow
  cases action <;> infer_instance

instance (key : String) (calls : LimiterCalls) :
    ∀ action, Decidable (Undisturbed key calls action)
  | .call _ _ => inferInstanceAs (Decidable True)
  | .lookUp index =>
      have : ∀ call : LimiterCall, Decidable
          (∀ entry ∈ calls.limiter.requestCounts key, entry.2 ≤ call.now) :=
        fun _ => Option.decidableForallMem _
      inferInstanceAs (Decidable (∀ call ∈ calls.looking[index]?,
        call.key = key →
          ∀ entry ∈ calls.limiter.requestCounts key, entry.2 ≤ call.now))
  | .insert index =>
      inferInstanceAs (Decidable (∀ call ∈ calls.inserting[index]?,
        call.key = key → calls.limiter.requestCounts key = none))

/-! ## Calls of one key within one window -/

variable {calls next : LimiterCalls} {key : String} {first : UInt64}

structure Inv (limit window : UInt64) (key : String)
    (first : UInt64) (calls : LimiterCalls) : Prop where
  maxRequests : calls.limiter.maxRequests = limit
  windowSeconds : calls.limiter.windowSeconds = window
  spent : calls.limiter.Spent key (calls.granted key)
  started : ∀ count timestamp,
    calls.limiter.requestCounts key = some (count, timestamp) →
      first ≤ timestamp
  looking : ∀ call ∈ calls.looking, call.key = key →
    InWindow first window call.now
  inserting : ∀ call ∈ calls.inserting, call.key = key →
    InWindow first window call.now

variable {limit window : UInt64}

theorem inv_start :
    Inv limit window key first
      (start limit window) where
  maxRequests := rfl
  windowSeconds := rfl
  spent := rfl
  started := by simp [start, RateLimiter.new]
  looking := by simp [start]
  inserting := by simp [start]

theorem granted_answer (call : LimiterCall)
    (answered : Except RateLimitError Unit × RateLimiter) :
    (calls.answer call answered).granted key =
      calls.granted key +
        if call.key = key ∧ answered.1.isOk = true then 1 else 0 := by
  simp [granted, answer, List.countP_append]

/-- The call of another key is answered. -/
theorem Inv.answer_of_ne
    (inv : Inv limit window key first calls)
    {call : LimiterCall}
    {answered : Except RateLimitError Unit × RateLimiter}
    (different : call.key ≠ key)
    (entry : answered.2.requestCounts key =
      calls.limiter.requestCounts key)
    (sameMax : answered.2.maxRequests = calls.limiter.maxRequests)
    (sameWindow : answered.2.windowSeconds = calls.limiter.windowSeconds) :
    Inv limit window key first (calls.answer call answered) where
  maxRequests := sameMax.trans inv.maxRequests
  windowSeconds := sameWindow.trans inv.windowSeconds
  spent := by
    have unchanged : (calls.answer call answered).granted key =
        calls.granted key := by
      rw [granted_answer, if_neg (fun both => different both.1), add_zero]
    rw [unchanged, answer]
    simp only [RateLimiter.Spent, entry, sameMax]
    exact inv.spent
  started := by
    rw [answer]
    simp only [entry]
    exact inv.started
  looking := inv.looking
  inserting := inv.inserting

/-- A call of the key is answered as if nothing had interrupted it. -/
theorem Inv.answer (inv : Inv limit window key first calls)
    {call : LimiterCall} (same : call.key = key)
    (inWindow : InWindow first window call.now)
    (recent : ∀ count timestamp,
      calls.limiter.requestCounts key = some (count, timestamp) →
        timestamp ≤ call.now) :
    Inv limit window key first
      (calls.answer call (calls.limiter.isAllowed key call.now)) := by
  have within : calls.limiter.WithinWindow key call.now := by
    intro count timestamp known
    refine ⟨recent count timestamp known, ?_⟩
    have later := UInt64.le_iff_toNat_le.mp
      (inv.started count timestamp known)
    have bound := inWindow.2
    rw [inv.windowSeconds]
    omega
  obtain ⟨isOk, spent⟩ :=
    RateLimiter.isAllowed_eq_charge inv.spent within
  obtain ⟨sameMax, sameWindow⟩ :=
    calls.limiter.isAllowed_config key call.now
  have counted : (calls.answer call
      (calls.limiter.isAllowed key call.now)).granted key =
        (charge calls.limiter.maxRequests.toNat (calls.granted key)).2 := by
    rw [granted_answer, isOk, charge]
    split <;> simp [same]
  refine ⟨sameMax.trans inv.maxRequests,
    sameWindow.trans inv.windowSeconds, ?_, ?_, inv.looking,
    inv.inserting⟩
  · rw [counted]
    exact spent
  · intro count timestamp stored
    rcases RateLimiter.isAllowed_timestamp within stored with
      ⟨rfl, _⟩ | ⟨earlier, known⟩
    · exact inWindow.1
    · exact inv.started earlier timestamp known

theorem coldPath_config (limiter : RateLimiter) (key : String)
    (now : UInt64) :
    (limiter.coldPath key now).2.maxRequests = limiter.maxRequests ∧
      (limiter.coldPath key now).2.windowSeconds =
        limiter.windowSeconds := by
  unfold RateLimiter.coldPath
  split <;> exact ⟨rfl, rfl⟩

theorem coldPath_of_ne {limiter : RateLimiter} {other : String}
    (different : other ≠ key) (now : UInt64) :
    (limiter.coldPath other now).2.requestCounts key =
      limiter.requestCounts key := by
  unfold RateLimiter.coldPath
  split
  · exact RateLimiter.withEntry_of_ne (Ne.symm different)
  · rfl

theorem Inv.step (inv : Inv limit window key first calls)
    {action : LimiterAction}
    (reads : ReadsWithin key first calls action)
    (undisturbed : Undisturbed key calls action)
    (stepTo : calls.step action = some next) :
    Inv limit window key first next := by
  cases action with
  | call other now =>
      cases stepTo
      refine ⟨inv.maxRequests, inv.windowSeconds, inv.spent, inv.started,
        ?_, inv.inserting⟩
      intro call member same
      rcases List.mem_append.mp member with before | added
      · exact inv.looking call before same
      · obtain rfl := List.mem_singleton.mp added
        subst same
        rw [← inv.windowSeconds]
        exact reads rfl
  | lookUp index =>
      cases found : calls.looking[index]? with
      | none => simp [LimiterCalls.step, found] at stepTo
      | some call =>
          have isLooking := List.mem_of_getElem? found
          have rest : Inv limit window key first
              { calls with looking := calls.looking.eraseIdx index } :=
            ⟨inv.maxRequests, inv.windowSeconds, inv.spent, inv.started,
              fun other member => inv.looking other
                (List.eraseIdx_subset member), inv.inserting⟩
          simp only [LimiterCalls.step, found] at stepTo
          split at stepTo
          case h_1 entry known =>
            cases stepTo
            by_cases same : call.key = key
            · rw [same]
              exact rest.answer same (inv.looking call isLooking same)
                fun count timestamp =>
                  undisturbed call found same (count, timestamp)
            · obtain ⟨sameMax, sameWindow⟩ :=
                calls.limiter.isAllowed_config call.key call.now
              exact rest.answer_of_ne same
                (RateLimiter.isAllowed_of_ne (Ne.symm same)) sameMax
                sameWindow
          case h_2 absent =>
            cases stepTo
            refine ⟨rest.maxRequests, rest.windowSeconds, rest.spent,
              rest.started, rest.looking, ?_⟩
            intro other member same
            rcases List.mem_append.mp member with before | added
            · exact inv.inserting other before same
            · rw [List.mem_singleton.mp added] at same ⊢
              exact inv.looking call isLooking same
  | insert index =>
      cases found : calls.inserting[index]? with
      | none => simp [LimiterCalls.step, found] at stepTo
      | some call =>
          have isInserting := List.mem_of_getElem? found
          have rest : Inv limit window key first
              { calls with inserting := calls.inserting.eraseIdx index } :=
            ⟨inv.maxRequests, inv.windowSeconds, inv.spent, inv.started,
              inv.looking, fun other member => inv.inserting other
                (List.eraseIdx_subset member)⟩
          simp only [LimiterCalls.step, found, Option.some.injEq] at stepTo
          subst stepTo
          by_cases same : call.key = key
          · have absent := undisturbed call found same
            rw [same, ← RateLimiter.isAllowed_of_absent absent]
            refine rest.answer same (inv.inserting call isInserting same) ?_
            intro count timestamp known
            rw [absent] at known
            cases known
          · obtain ⟨sameMax, sameWindow⟩ :=
              coldPath_config calls.limiter call.key call.now
            exact rest.answer_of_ne same (coldPath_of_ne same call.now)
              sameMax sameWindow

/-- Calls of a key within one window that insert its entry at most once are
allowed at most `max_requests` times, however they are interleaved. -/
theorem granted_le_of_undisturbed {actions : List LimiterAction}
    {last : LimiterCalls}
    (reaches : run LimiterCalls.step (start limit window) actions =
      some last)
    (reads : Meets LimiterCalls.step (ReadsWithin key first)
      (start limit window) actions)
    (undisturbed : Meets LimiterCalls.step (Undisturbed key)
      (start limit window) actions) :
    last.granted key ≤ limit.toNat := by
  have begins : Inv limit window key first (start limit window) := inv_start
  have kept := invariant_of_meets
    (fun _ _ _ inv met stepTo => Inv.step inv met.1 met.2 stepTo)
    begins (meets_and reads undisturbed)
  have inv := kept last (last_mem_visited reaches)
  rw [← inv.maxRequests]
  exact inv.spent.le

/-- The second call looks the key up after the insertion of the first. -/
def orderlyCalls : List LimiterAction :=
  [.call "10.0.0.1" 5, .call "10.0.0.1" 6, .lookUp 0, .insert 0, .lookUp 0]

theorem orderlyCalls_granted_le :
    ∃ last, run LimiterCalls.step (start 1 60) orderlyCalls = some last ∧
      last.granted "10.0.0.1" ≤ (1 : UInt64).toNat := by
  obtain ⟨last, reaches⟩ : ∃ last, run LimiterCalls.step (start 1 60)
      orderlyCalls = some last := ⟨_, rfl⟩
  have reads : Meets LimiterCalls.step (ReadsWithin "10.0.0.1" 5)
      (start 1 60) orderlyCalls := by
    decide
  have undisturbed : Meets LimiterCalls.step (Undisturbed "10.0.0.1")
      (start 1 60) orderlyCalls := by
    decide
  exact ⟨last, reaches,
    granted_le_of_undisturbed reaches reads undisturbed⟩

/-- Both calls find the key absent before either inserts it. -/
def racingCalls : List LimiterAction :=
  [.call "10.0.0.1" 5, .call "10.0.0.1" 5, .lookUp 0, .lookUp 0, .insert 0,
    .insert 0]

/-- Two first requests of a key are both allowed where one is the limit. -/
theorem racingCalls_exceed :
    ∃ last, run LimiterCalls.step (start 1 60) racingCalls = some last ∧
      Meets LimiterCalls.step (ReadsWithin "10.0.0.1" 5) (start 1 60)
        racingCalls ∧
      ¬ last.granted "10.0.0.1" ≤ (1 : UInt64).toNat :=
  ⟨_, rfl, by decide, by decide⟩

end LimiterCalls

end TorchInference
