import TorchInference.FixedWindows
import TorchInference.RateLimitWindow

/-!
# The windows of the rate limiter, and their cleanup

Calls of `is_allowed` come one after the other, by a clock that never goes
back.  Every request that is allowed is charged to one window of its key.
`cleanup_old_entries` drops the entries that are twice as old as a window, so a
request finds no difference as long as twice the window is more than the
window.
-/

namespace TorchInference

open FixedWindows

namespace RateLimiter

/-- Subtraction and multiplication wrap around as they do in a release
build. -/
def cleanupOldEntries (limiter : RateLimiter) (now : UInt64) : RateLimiter :=
  { limiter with
    requestCounts := fun key =>
      (limiter.requestCounts key).filter fun (_, timestamp) =>
        now - timestamp < limiter.windowSeconds * 2 }

/-- When the window of a key starts. -/
def windowStart (limiter : RateLimiter) (key : String) : Nat :=
  match limiter.requestCounts key with
  | none => 0
  | some (_, timestamp) => timestamp.toNat

end RateLimiter

inductive LimiterEvent where
  | request (key : String) (now : UInt64)
  | cleanup (now : UInt64)

namespace LimiterEvent

def now : LimiterEvent → UInt64
  | request _ now => now
  | cleanup now => now

def isRequest : LimiterEvent → Bool
  | request _ _ => true
  | cleanup _ => false

def isFor (key : String) : LimiterEvent → Bool
  | request other _ => other == key
  | cleanup _ => false

end LimiterEvent

/-- A limiter, with the requests it has charged and what it has answered. -/
structure LimiterHistory where
  limiter : RateLimiter
  charges : List (String × Charge)
  answers : List (String × Except RateLimitError Unit)

namespace LimiterHistory

def start (limit window : UInt64) : LimiterHistory where
  limiter := .new limit window
  charges := []
  answers := []

def serve (history : LimiterHistory) : LimiterEvent → LimiterHistory
  | .request key now =>
      let (answer, after) := history.limiter.isAllowed key now
      { limiter := after
        charges := history.charges ++
          if answer.isOk then [(key, ⟨now.toNat, after.windowStart key⟩)]
          else []
        answers := history.answers ++ [(key, answer)] }
  | .cleanup now =>
      { history with limiter := history.limiter.cleanupOldEntries now }

/-- The clock never goes back. -/
def Ordered (events : List LimiterEvent) : Prop :=
  events.Pairwise fun earlier later => earlier.now ≤ later.now

def run (limit window : UInt64) (events : List LimiterEvent) :
    LimiterHistory :=
  events.foldl serve (start limit window)

def chargesOf (history : LimiterHistory) (key : String) : List Charge :=
  (history.charges.filter fun (other, _) => other == key).map Prod.snd

/-- What the limiter promises for a sequence of requests: every allowed
request is charged to one window of its key, no window admits more than the
limit, an interval as long as a window admits at most twice the limit, and a
key is answered as if it were alone. -/
structure FixedWindowLaw (limit window : UInt64)
    (requests : List LimiterEvent) : Prop where
  charged : (run limit window requests).charges.map Prod.fst =
    ((run limit window requests).answers.filter
      fun (_, answer) => answer.isOk).map Prod.fst
  inWindows : ∀ key,
    InWindows window.toNat ((run limit window requests).chargesOf key)
  capped : ∀ key windowStart,
    chargesTo ((run limit window requests).chargesOf key) windowStart ≤
      limit.toNat
  interval : ∀ key first,
    chargesIn ((run limit window requests).chargesOf key) first
      (first + window.toNat) ≤ 2 * limit.toNat
  separate : ∀ key,
    (run limit window requests).answers.filter
        (fun (other, _) => other == key) =
      (run limit window (requests.filter (LimiterEvent.isFor key))).answers

/-- The law of the requests alone, and cleanups that change no answer. -/
structure TransparentCleanup (limit window : UInt64)
    (events : List LimiterEvent) : Prop where
  law : FixedWindowLaw limit window (events.filter LimiterEvent.isRequest)
  unchanged : (run limit window events).answers =
    (run limit window (events.filter LimiterEvent.isRequest)).answers

/-! ## One key -/

/-- The entry of a key counts the charges to its latest window. -/
structure Counts (limit window clock : Nat)
    (entry : Option (UInt64 × UInt64)) (charges : List Charge) : Prop where
  inWindows : InWindows window charges
  capped : ∀ windowStart, chargesTo charges windowStart ≤ limit
  absent : entry = none → charges = []
  started : ∀ stored ∈ entry, stored.2.toNat ≤ clock
  positive : ∀ stored ∈ entry, 0 < stored.1.toNat
  counted : ∀ stored ∈ entry,
    chargesTo charges stored.2.toNat = stored.1.toNat
  latest : ∀ stored ∈ entry, ∀ charge ∈ charges,
    charge.start = stored.2.toNat ∨
      charge.start + window < stored.2.toNat

variable {limit window clock now : Nat} {entry : Option (UInt64 × UInt64)}
  {charges : List Charge}

theorem chargesTo_append (charge : Charge) (windowStart : Nat) :
    chargesTo (charges ++ [charge]) windowStart =
      chargesTo charges windowStart +
        if charge.start = windowStart then 1 else 0 := by
  simp [chargesTo, List.countP_append]

theorem Counts.later (counts : Counts limit window clock entry charges)
    (later : clock ≤ now) : Counts limit window now entry charges where
  inWindows := counts.inWindows
  capped := counts.capped
  absent := counts.absent
  started stored isStored :=
    Nat.le_trans (counts.started stored isStored) later
  positive := counts.positive
  counted := counts.counted
  latest := counts.latest

/-- The key has a limit, if it has an entry. -/
theorem Counts.limit_pos (counts : Counts limit window clock entry charges)
    {stored : UInt64 × UInt64} (isStored : stored ∈ entry) : 0 < limit := by
  have positive := counts.positive stored isStored
  have counted := counts.counted stored isStored
  have capped := counts.capped stored.2.toNat
  omega

/-- A request starts a new window. -/
theorem Counts.begin (counts : Counts limit window clock entry charges)
    {now : UInt64} (hasLimit : 0 < limit)
    (passed : ∀ stored ∈ entry, stored.2.toNat + window < now.toNat) :
    Counts limit window now.toNat (some (1, now))
      (charges ++ [⟨now.toNat, now.toNat⟩]) := by
  have earlier : ∀ charge ∈ charges, charge.start + window < now.toNat := by
    intro charge member
    cases known : entry with
    | none =>
        rw [counts.absent known] at member
        cases member
    | some stored =>
        have isOver := passed stored known
        rcases counts.latest stored known charge member with same | before
        · rw [same]
          exact isOver
        · omega
  have unused : chargesTo charges now.toNat = 0 := by
    rw [chargesTo, List.countP_eq_zero]
    intro charge member same
    have before := earlier charge member
    rw [beq_iff_eq.mp same] at before
    omega
  constructor
  · exact counts.inWindows.append (Nat.le_refl _) (Nat.le_add_right _ _)
      fun charge member => Or.inr (earlier charge member)
  · intro windowStart
    rw [chargesTo_append]
    split
    case isTrue same =>
      simp only at same
      rw [← same, unused]
      exact hasLimit
    case isFalse => exact counts.capped windowStart
  · intro absent
    cases absent
  · rintro stored ⟨⟩
    exact Nat.le_refl _
  · rintro stored ⟨⟩
    exact Nat.one_pos
  · rintro stored ⟨⟩
    rw [chargesTo_append, unused, if_pos rfl]
    rfl
  · rintro stored ⟨⟩ charge member
    rcases List.mem_append.mp member with before | added
    · exact Or.inr (earlier charge before)
    · exact Or.inl (congrArg Charge.start (List.mem_singleton.mp added))

/-- A request is charged to the window that has begun. -/
theorem Counts.again {count timestamp now : UInt64}
    (counts : Counts limit window clock (some (count, timestamp)) charges)
    (started : timestamp.toNat ≤ now.toNat)
    (recent : now.toNat ≤ timestamp.toNat + window)
    (room : count.toNat < limit) (small : limit < 2 ^ 64) :
    Counts limit window now.toNat (some (count + 1, timestamp))
      (charges ++ [⟨now.toNat, timestamp.toNat⟩]) := by
  have exact_ : (count + 1).toNat = count.toNat + 1 := by
    rw [UInt64.toNat_add, UInt64.toNat_one]
    omega
  have counted : chargesTo charges timestamp.toNat = count.toNat :=
    counts.counted _ rfl
  constructor
  · exact counts.inWindows.append started recent
      fun charge member => counts.latest _ rfl charge member
  · intro windowStart
    rw [chargesTo_append]
    split
    case isTrue same =>
      simp only at same
      rw [← same, counted]
      exact room
    case isFalse => exact counts.capped windowStart
  · intro absent
    cases absent
  · rintro stored ⟨⟩
    exact started
  · rintro stored ⟨⟩
    rw [exact_]
    exact Nat.succ_pos _
  · rintro stored ⟨⟩
    rw [chargesTo_append, counted, if_pos rfl, exact_]
  · rintro stored ⟨⟩ charge member
    rcases List.mem_append.mp member with before | added
    · exact counts.latest _ rfl charge before
    · exact Or.inl (congrArg Charge.start (List.mem_singleton.mp added))

/-! ## The requests of a sequence -/

variable {maxRequests windowSeconds : UInt64} {history : LimiterHistory}

theorem isExpired_iff {timestamp now window : UInt64}
    (started : timestamp.toNat ≤ now.toNat) :
    window < now - timestamp ↔
      timestamp.toNat + window.toNat < now.toNat := by
  rw [UInt64.lt_iff_toNat_lt,
    UInt64.toNat_sub_of_le _ _ (UInt64.le_iff_toNat_le.mpr started)]
  omega

/-- A request keeps the account of its own key. -/
theorem Counts.isAllowed {limiter : RateLimiter} {key : String}
    (counts : Counts limiter.maxRequests.toNat limiter.windowSeconds.toNat
      clock (limiter.requestCounts key) charges)
    {now : UInt64} (later : clock ≤ now.toNat) :
    Counts limiter.maxRequests.toNat limiter.windowSeconds.toNat now.toNat
      ((limiter.isAllowed key now).2.requestCounts key)
      (charges ++
        if (limiter.isAllowed key now).1.isOk then
          [⟨now.toNat, (limiter.isAllowed key now).2.windowStart key⟩]
        else []) := by
  unfold RateLimiter.isAllowed
  cases known : limiter.requestCounts key with
  | none =>
      rw [known] at counts
      by_cases room : 0 < limiter.maxRequests
      · have hasLimit : 0 < limiter.maxRequests.toNat :=
          UInt64.lt_iff_toNat_lt.mp room
        simp only [if_pos room, RateLimiter.withEntry_self,
          RateLimiter.windowStart]
        exact counts.begin hasLimit fun stored isStored => by cases isStored
      · simp only [if_neg room, known]
        simpa [Except.isOk, Except.toBool] using counts.later later
  | some entry =>
      obtain ⟨count, timestamp⟩ := entry
      rw [known] at counts
      have started : timestamp.toNat ≤ now.toNat :=
        Nat.le_trans (counts.started _ rfl) later
      by_cases expired : limiter.windowSeconds < now - timestamp
      · simp only [if_pos expired, RateLimiter.withEntry_self,
          RateLimiter.windowStart]
        refine counts.begin (counts.limit_pos rfl) ?_
        rintro stored ⟨⟩
        exact (isExpired_iff started).mp expired
      · have recent : now.toNat ≤
            timestamp.toNat + limiter.windowSeconds.toNat := by
          rw [isExpired_iff started] at expired
          omega
        by_cases room : count < limiter.maxRequests
        · simp only [if_neg expired, if_pos room, RateLimiter.withEntry_self,
            RateLimiter.windowStart]
          exact counts.again started recent (UInt64.lt_iff_toNat_lt.mp room)
            (UInt64.toNat_lt _)
        · simp only [if_neg expired, if_neg room, known]
          simpa [Except.isOk, Except.toBool] using counts.later later

/-- The charges of every key are accounted for. -/
structure Inv (maxRequests windowSeconds : UInt64) (clock : Nat)
    (history : LimiterHistory) : Prop where
  sameMax : history.limiter.maxRequests = maxRequests
  sameWindow : history.limiter.windowSeconds = windowSeconds
  counts : ∀ key, Counts maxRequests.toNat windowSeconds.toNat clock
    (history.limiter.requestCounts key) (history.chargesOf key)

theorem inv_start (clock : Nat) :
    Inv maxRequests windowSeconds clock
      (start maxRequests windowSeconds) where
  sameMax := rfl
  sameWindow := rfl
  counts key := by
    constructor <;>
      simp [start, RateLimiter.new, chargesOf, chargesTo]
    exact ⟨by simp, by simp, by simp⟩

theorem chargesOf_request (key other : String) (now : UInt64) :
    (history.serve (.request other now)).chargesOf key =
      history.chargesOf key ++
        if other = key ∧
            (history.limiter.isAllowed other now).1.isOk = true then
          [⟨now.toNat,
            (history.limiter.isAllowed other now).2.windowStart other⟩]
        else [] := by
  simp only [serve, chargesOf, List.filter_append, List.map_append]
  congr 1
  by_cases allowed : (history.limiter.isAllowed other now).1.isOk = true
  · by_cases same : other = key
    · subst same
      simp [allowed]
    · simp [allowed, same]
  · simp [allowed]

theorem Inv.serve (inv : Inv maxRequests windowSeconds clock history)
    {key : String} {now : UInt64} (later : clock ≤ now.toNat) :
    Inv maxRequests windowSeconds now.toNat
      (history.serve (.request key now)) where
  sameMax := (history.limiter.isAllowed_config key now).1.trans inv.sameMax
  sameWindow :=
    (history.limiter.isAllowed_config key now).2.trans inv.sameWindow
  counts other := by
    rw [chargesOf_request]
    have counts := inv.counts other
    by_cases same : key = other
    · subst same
      rw [← inv.sameMax, ← inv.sameWindow] at counts ⊢
      simp only [true_and]
      exact counts.isAllowed later
    · rw [if_neg (fun both => same both.1), List.append_nil]
      have unchanged : (history.serve (.request key now)).limiter.requestCounts
          other = history.limiter.requestCounts other :=
        RateLimiter.isAllowed_of_ne (Ne.symm same)
      rw [unchanged]
      exact counts.later later

theorem Inv.foldl {events : List LimiterEvent}
    (inv : Inv maxRequests windowSeconds clock history)
    (requests : ∀ event ∈ events, event.isRequest = true)
    (ordered : Ordered events)
    (later : ∀ event ∈ events, clock ≤ event.now.toNat) :
    ∃ clock, Inv maxRequests windowSeconds clock
      (events.foldl LimiterHistory.serve history) := by
  induction events generalizing clock history with
  | nil => exact ⟨clock, inv⟩
  | cons event events ih =>
      obtain ⟨before, rest⟩ := List.pairwise_cons.mp ordered
      cases event with
      | cleanup now => cases requests _ List.mem_cons_self
      | request key now =>
          have served : Inv maxRequests windowSeconds now.toNat
              (history.serve (.request key now)) :=
            inv.serve (later _ List.mem_cons_self)
          exact ih served
            (fun event member =>
              requests event (List.mem_cons_of_mem _ member))
            rest
            (fun event member =>
              UInt64.le_iff_toNat_le.mp (before event member))

/-! ## Keys apart from each other -/

/-- Two histories that a key cannot tell apart. -/
structure AgreesAt (key : String) (history other : LimiterHistory) :
    Prop where
  limiter : RateLimiter.AgreesAt key history.limiter other.limiter
  answers : history.answers.filter (fun (name, _) => name == key) =
    other.answers

theorem AgreesAt.foldl {key : String} {other : LimiterHistory}
    {events : List LimiterEvent}
    (requests : ∀ event ∈ events, event.isRequest = true)
    (agrees : AgreesAt key history other) :
    AgreesAt key (events.foldl serve history)
      ((events.filter (LimiterEvent.isFor key)).foldl serve other) := by
  induction events generalizing history other with
  | nil => exact agrees
  | cons event events ih =>
      have rest : ∀ event ∈ events, event.isRequest = true :=
        fun event member => requests event (List.mem_cons_of_mem _ member)
      cases event with
      | cleanup now => cases requests _ List.mem_cons_self
      | request name now =>
          obtain ⟨sameMax, sameWindow⟩ :=
            history.limiter.isAllowed_config name now
          by_cases same : name = key
          · subst same
            obtain ⟨answer, limiter⟩ := agrees.limiter.isAllowed now
            rw [List.filter_cons_of_pos (by simp [LimiterEvent.isFor])]
            refine ih rest ⟨limiter, ?_⟩
            simp [serve, List.filter_append, agrees.answers, answer]
          · rw [List.filter_cons_of_neg (by simp [LimiterEvent.isFor, same])]
            refine ih rest ⟨⟨?_, ?_, ?_⟩, ?_⟩
            · exact (RateLimiter.isAllowed_of_ne (Ne.symm same)).trans
                agrees.limiter.requestCounts
            · exact sameMax.trans agrees.limiter.maxRequests
            · exact sameWindow.trans agrees.limiter.windowSeconds
            · simp [serve, List.filter_append, agrees.answers, same]

/-- There is one charge for each request that is allowed. -/
theorem charged_foldl {events : List LimiterEvent}
    (charged : history.charges.map Prod.fst =
      (history.answers.filter fun (_, answer) => answer.isOk).map Prod.fst) :
    (events.foldl serve history).charges.map Prod.fst =
      ((events.foldl serve history).answers.filter
        fun (_, answer) => answer.isOk).map Prod.fst := by
  induction events generalizing history with
  | nil => exact charged
  | cons event events ih =>
      apply ih
      cases event with
      | cleanup now => exact charged
      | request key now =>
          simp only [serve, List.map_append, List.filter_append, charged]
          cases allowed : (history.limiter.isAllowed key now).1.isOk <;>
            simp [allowed]

/-- Requests alone keep to the law of fixed windows, whatever the limit and the
window. -/
theorem fixedWindowLaw {requests : List LimiterEvent}
    (isRequest : ∀ event ∈ requests, event.isRequest = true)
    (ordered : Ordered requests) :
    FixedWindowLaw maxRequests windowSeconds requests := by
  have begins : Inv maxRequests windowSeconds 0
      (start maxRequests windowSeconds) := inv_start 0
  obtain ⟨clock, inv⟩ := begins.foldl isRequest ordered
    fun event _ => Nat.zero_le _
  constructor
  · exact charged_foldl rfl
  · exact fun key => (inv.counts key).inWindows
  · exact fun key => (inv.counts key).capped
  · exact fun key first =>
      chargesIn_le (inv.counts key).inWindows (inv.counts key).capped first
  · intro key
    have agrees : AgreesAt key (start maxRequests windowSeconds)
        (start maxRequests windowSeconds) := ⟨⟨rfl, rfl, rfl⟩, rfl⟩
    exact (agrees.foldl isRequest).answers

/-! ## Cleanups -/

/-- A limiter whose entries are those of another, less some whose windows are
over. -/
structure Evicted (clock : Nat) (limiter other : RateLimiter) : Prop where
  sameMax : limiter.maxRequests = other.maxRequests
  sameWindow : limiter.windowSeconds = other.windowSeconds
  started : ∀ key, ∀ entry ∈ other.requestCounts key,
    entry.2.toNat ≤ clock
  limited : ∀ key, ∀ entry ∈ other.requestCounts key,
    0 < other.maxRequests
  entries : ∀ key, limiter.requestCounts key = other.requestCounts key ∨
    limiter.requestCounts key = none ∧
      ∀ entry ∈ other.requestCounts key,
        entry.2.toNat + other.windowSeconds.toNat < clock

variable {limiter other : RateLimiter}

theorem evicted_new (clock : Nat) :
    Evicted clock (.new maxRequests windowSeconds)
      (.new maxRequests windowSeconds) where
  sameMax := rfl
  sameWindow := rfl
  started := by simp [RateLimiter.new]
  limited := by simp [RateLimiter.new]
  entries _ := Or.inl rfl

/-- A charge leaves an entry that starts now, or leaves the window alone. -/
theorem entry_of_isAllowed {key : String} {now : UInt64}
    {entry : UInt64 × UInt64}
    (stored : entry ∈ (other.isAllowed key now).2.requestCounts key) :
    (entry.2 = now ∨ ∃ earlier ∈ other.requestCounts key,
      entry.2 = earlier.2) ∧
      (0 < other.maxRequests ∨ ∃ earlier, earlier ∈ other.requestCounts key) := by
  unfold RateLimiter.isAllowed at stored
  cases known : other.requestCounts key with
  | none =>
      simp only [known] at stored
      split at stored
      case isTrue room =>
        rw [RateLimiter.withEntry_self] at stored
        cases stored
        exact ⟨Or.inl rfl, Or.inl room⟩
      case isFalse =>
        rw [known] at stored
        cases stored
  | some earlier =>
      refine ⟨?_, Or.inr ⟨earlier, rfl⟩⟩
      obtain ⟨count, timestamp⟩ := earlier
      simp only [known] at stored
      split at stored
      case isTrue =>
        rw [RateLimiter.withEntry_self] at stored
        cases stored
        exact Or.inl rfl
      case isFalse =>
        split at stored
        case isTrue =>
          rw [RateLimiter.withEntry_self] at stored
          cases stored
          exact Or.inr ⟨_, rfl, rfl⟩
        case isFalse =>
          rw [known] at stored
          exact Or.inr ⟨entry, stored, rfl⟩

/-- The key itself is answered in the same way, and has the same entry
afterwards. -/
theorem Evicted.isAllowed_self (evicted : Evicted clock limiter other)
    {now : UInt64} (later : clock ≤ now.toNat) (key : String) :
    (limiter.isAllowed key now).1 = (other.isAllowed key now).1 ∧
      (limiter.isAllowed key now).2.requestCounts key =
        (other.isAllowed key now).2.requestCounts key := by
  have agreed : limiter.requestCounts key = other.requestCounts key →
      (limiter.isAllowed key now).1 = (other.isAllowed key now).1 ∧
        (limiter.isAllowed key now).2.requestCounts key =
          (other.isAllowed key now).2.requestCounts key := by
    intro same
    have agrees : RateLimiter.AgreesAt key limiter other :=
      ⟨same, evicted.sameMax, evicted.sameWindow⟩
    exact ⟨(agrees.isAllowed now).1, (agrees.isAllowed now).2.requestCounts⟩
  rcases evicted.entries key with same | ⟨absent, passed⟩
  · exact agreed same
  · cases known : other.requestCounts key with
    | none => exact agreed (absent.trans known.symm)
    | some entry =>
        obtain ⟨count, timestamp⟩ := entry
        have started : timestamp.toNat ≤ now.toNat :=
          Nat.le_trans (evicted.started key _ known) later
        have expired : other.windowSeconds < now - timestamp := by
          rw [isExpired_iff started]
          exact Nat.lt_of_lt_of_le (passed _ known) later
        have room : 0 < limiter.maxRequests := by
          rw [evicted.sameMax]
          exact evicted.limited key _ known
        have cold : limiter.isAllowed key now =
            (.ok (), limiter.withEntry key (1, now)) := by
          rw [RateLimiter.isAllowed, absent]
          exact if_pos room
        have warm : other.isAllowed key now =
            (.ok (), other.withEntry key (1, now)) := by
          rw [RateLimiter.isAllowed, known]
          exact if_pos expired
        rw [cold, warm]
        exact ⟨rfl, by
          rw [RateLimiter.withEntry_self, RateLimiter.withEntry_self]⟩

/-- A request cannot tell whether entries have been evicted. -/
theorem Evicted.isAllowed (evicted : Evicted clock limiter other)
    {now : UInt64} (later : clock ≤ now.toNat) (key : String) :
    (limiter.isAllowed key now).1 = (other.isAllowed key now).1 ∧
      Evicted now.toNat (limiter.isAllowed key now).2
        (other.isAllowed key now).2 := by
  obtain ⟨answer, sameEntry⟩ := evicted.isAllowed_self later key
  obtain ⟨max, window⟩ := limiter.isAllowed_config key now
  obtain ⟨otherMax, otherWindow⟩ := other.isAllowed_config key now
  refine ⟨answer, ?_⟩
  constructor
  · rw [max, otherMax, evicted.sameMax]
  · rw [window, otherWindow, evicted.sameWindow]
  · intro name entry stored
    by_cases same : name = key
    · subst same
      rcases (entry_of_isAllowed stored).1 with begun | ⟨earlier, known, begun⟩
      · exact Nat.le_of_eq (congrArg UInt64.toNat begun)
      · rw [begun]
        exact Nat.le_trans (evicted.started name earlier known) later
    · rw [RateLimiter.isAllowed_of_ne same] at stored
      exact Nat.le_trans (evicted.started name entry stored) later
  · intro name entry stored
    rw [otherMax]
    by_cases same : name = key
    · subst same
      rcases (entry_of_isAllowed stored).2 with room | ⟨earlier, known⟩
      · exact room
      · exact evicted.limited name earlier known
    · rw [RateLimiter.isAllowed_of_ne same] at stored
      exact evicted.limited name entry stored
  · intro name
    by_cases same : name = key
    · subst same
      exact Or.inl sameEntry
    · rw [RateLimiter.isAllowed_of_ne same, RateLimiter.isAllowed_of_ne same,
        otherWindow]
      rcases evicted.entries name with equal | ⟨absent, passed⟩
      · exact Or.inl equal
      · exact Or.inr ⟨absent, fun entry stored =>
          Nat.lt_of_lt_of_le (passed entry stored) later⟩

/-- A cleanup has nothing to drop, or drops no window before its end. -/
def Harmless (limiter : RateLimiter) : Prop :=
  limiter.maxRequests = 0 ∨
    limiter.windowSeconds < limiter.windowSeconds * 2

/-- A cleanup evicts nothing but entries whose windows are over. -/
theorem Evicted.cleanup (evicted : Evicted clock limiter other)
    (harmless : Harmless other) {now : UInt64}
    (later : clock ≤ now.toNat) :
    Evicted now.toNat (limiter.cleanupOldEntries now) other where
  sameMax := evicted.sameMax
  sameWindow := evicted.sameWindow
  started key entry stored :=
    Nat.le_trans (evicted.started key entry stored) later
  limited := evicted.limited
  entries key := by
    rcases evicted.entries key with same | ⟨absent, passed⟩
    · cases known : other.requestCounts key with
      | none =>
          left
          simp [RateLimiter.cleanupOldEntries, same, known]
      | some entry =>
          by_cases kept : now - entry.2 < limiter.windowSeconds * 2
          · left
            simp [RateLimiter.cleanupOldEntries, same, known, kept]
          · right
            have dropped := UInt64.not_lt.mp kept
            refine ⟨by
              simp [RateLimiter.cleanupOldEntries, same, known, dropped], ?_⟩
            rintro stored ⟨⟩
            have started : entry.2.toNat ≤ now.toNat :=
              Nat.le_trans (evicted.started key _ known) later
            have limited := evicted.limited key _ known
            rcases harmless with unlimited | longer
            · rw [unlimited] at limited
              exact absurd limited (by decide)
            · rw [evicted.sameWindow] at kept
              rw [← isExpired_iff started]
              rw [UInt64.lt_iff_toNat_lt] at kept longer ⊢
              omega
    · right
      refine ⟨by simp [RateLimiter.cleanupOldEntries, absent], ?_⟩
      exact fun entry stored => Nat.lt_of_lt_of_le (passed entry stored) later

theorem Evicted.foldl {history other : LimiterHistory}
    {events : List LimiterEvent}
    (evicted : Evicted clock history.limiter other.limiter)
    (answers : history.answers = other.answers)
    (harmless : Harmless other.limiter)
    (ordered : Ordered events)
    (later : ∀ event ∈ events, clock ≤ event.now.toNat) :
    (events.foldl serve history).answers =
      ((events.filter LimiterEvent.isRequest).foldl serve other).answers := by
  induction events generalizing clock history other with
  | nil => exact answers
  | cons event events ih =>
      obtain ⟨before, rest⟩ := List.pairwise_cons.mp ordered
      have now := later _ List.mem_cons_self
      have afterwards : ∀ next ∈ events, event.now.toNat ≤ next.now.toNat :=
        fun next member => UInt64.le_iff_toNat_le.mp (before next member)
      cases event with
      | request key time =>
          obtain ⟨answer, stillEvicted⟩ := evicted.isAllowed now key
          have sameAnswer : (history.limiter.isAllowed key time).1 =
              (other.limiter.isAllowed key time).1 := answer
          obtain ⟨sameMax, sameWindow⟩ :=
            other.limiter.isAllowed_config key time
          rw [List.filter_cons_of_pos rfl]
          refine ih stillEvicted ?_ ?_ rest afterwards
          · simp [serve, answers, sameAnswer]
          · simp only [Harmless, serve, sameMax, sameWindow]
            exact harmless
      | cleanup time =>
          rw [List.filter_cons_of_neg (by simp [LimiterEvent.isRequest])]
          exact ih (evicted.cleanup harmless now) answers harmless rest
            afterwards

/-! ## Cleanups within a window -/

/-- A key uses up its limit in the first second. -/
def exhausting (limit : UInt64) (key : String) : List LimiterEvent :=
  List.replicate limit.toNat (.request key 0)

theorem requestCounts_replicate (key : String) (limit window : UInt64)
    (uses : Nat) (within : uses + 1 ≤ limit.toNat) :
    (run limit window
        (List.replicate (uses + 1) (.request key 0))).limiter =
      (RateLimiter.new limit window).withEntry key
        (UInt64.ofNat (uses + 1), 0) := by
  induction uses with
  | zero =>
      have room : 0 < limit := UInt64.lt_iff_toNat_lt.mpr within
      simp [run, start, serve, RateLimiter.isAllowed, RateLimiter.new, room]
  | succ uses ih =>
      have small : uses + 1 < 2 ^ 64 := by
        have bound := limit.toNat_lt
        omega
      have room : UInt64.ofNat (uses + 1) < limit := by
        rw [UInt64.lt_iff_toNat_lt, UInt64.toNat_ofNat',
          Nat.mod_eq_of_lt small]
        exact within
      have successor : UInt64.ofNat (uses + 1) = UInt64.ofNat uses + 1 :=
        UInt64.ofNat_add _ _
      rw [successor] at room
      rw [List.replicate_succ', run, List.foldl_append]
      change ((run limit window (List.replicate (uses + 1)
        (.request key 0))).limiter.isAllowed key 0).2 = _
      rw [ih (Nat.le_of_succ_le within), RateLimiter.isAllowed,
        RateLimiter.withEntry_self]
      simp [RateLimiter.withEntry, RateLimiter.new, room, UInt64.ofNat_add]

/-- The events of a limiter that is cleaned up in the window of a key that has
used up its limit. -/
def cleanedUp (limit window : UInt64) (key : String) : List LimiterEvent :=
  exhausting limit key ++
    [.cleanup (window * 2), .request key (window * 2)]

theorem ordered_cleanedUp (limit window : UInt64) (key : String) :
    Ordered (cleanedUp limit window key) := by
  refine List.pairwise_append.mpr ⟨?_, ?_, ?_⟩
  · exact List.pairwise_replicate.mpr (Or.inr (UInt64.le_refl 0))
  · simp [LimiterEvent.now]
  · intro earlier isEarlier later isLater
    rw [(List.mem_replicate.mp isEarlier).2]
    exact UInt64.zero_le

theorem filter_cleanedUp (limit window : UInt64) (key : String) :
    (cleanedUp limit window key).filter LimiterEvent.isRequest =
      exhausting limit key ++ [.request key (window * 2)] := by
  have all : (exhausting limit key).filter LimiterEvent.isRequest =
      exhausting limit key := by
    rw [List.filter_eq_self]
    intro event member
    rw [(List.mem_replicate.mp member).2]
    rfl
  rw [cleanedUp, List.filter_append, all]
  rfl

/-- A cleanup within a window gives the limit back to a key. -/
theorem not_transparent {limit window : UInt64} (hasLimit : limit ≠ 0)
    (within : ¬ window < window * 2) (key : String) :
    ¬ TransparentCleanup limit window (cleanedUp limit window key) := by
  intro transparent
  have positive : 0 < limit.toNat := by
    rw [Nat.pos_iff_ne_zero]
    exact fun none => hasLimit (UInt64.toNat_inj.mp none)
  have used := requestCounts_replicate key limit window (limit.toNat - 1)
    (by omega)
  rw [Nat.sub_add_cancel positive, UInt64.ofNat_toNat] at used
  have refused : ((run limit window (exhausting limit key)).limiter.isAllowed
      key (window * 2)).1.isOk = false := by
    rw [exhausting, used, RateLimiter.isAllowed, RateLimiter.withEntry_self]
    simp [RateLimiter.withEntry, RateLimiter.new, within, Except.isOk,
      Except.toBool]
  have allowed : (((run limit window (exhausting limit key)
      ).limiter.cleanupOldEntries (window * 2)).isAllowed key
        (window * 2)).1.isOk = true := by
    rw [exhausting, used]
    simp [RateLimiter.isAllowed, RateLimiter.cleanupOldEntries,
      RateLimiter.withEntry, RateLimiter.new, UInt64.pos_iff_ne_zero,
      hasLimit, Option.filter, Except.isOk, Except.toBool]
  have same := congrArg
    (fun answers => answers.getLast?.map fun (_, answer) => answer.isOk)
    transparent.unchanged
  rw [filter_cleanedUp, cleanedUp, run, run, List.foldl_append,
    List.foldl_append] at same
  simp only [List.foldl_cons, List.foldl_nil, serve, List.getLast?_append,
    List.getLast?_singleton, Option.some_or, Option.map_some] at same
  have equal := (allowed.symm.trans (Option.some.inj same)).trans refused
  cases equal

theorem lt_double_iff (window : UInt64) : window < window * 2 ↔
    0 < window.toNat ∧ window.toNat < 2 ^ 63 := by
  have bound := window.toNat_lt
  have double : (window * 2).toNat = window.toNat * 2 % 2 ^ 64 := by
    rw [UInt64.toNat_mul]
    rfl
  rw [UInt64.lt_iff_toNat_lt, double]
  omega

/-- The limiter keeps to its fixed windows, and cleanups change no answer, for
every sequence of events exactly when nothing is ever allowed or twice the
window is more than the window. -/
theorem transparentCleanup_iff (limit window : UInt64) :
    (∀ events, Ordered events → TransparentCleanup limit window events) ↔
      limit = 0 ∨ (0 < window.toNat ∧ window.toNat < 2 ^ 63) := by
  rw [← lt_double_iff]
  constructor
  · intro transparent
    by_contra harmful
    obtain ⟨hasLimit, within⟩ := not_or.mp harmful
    exact not_transparent hasLimit within "10.0.0.1"
      (transparent _ (ordered_cleanedUp limit window "10.0.0.1"))
  · intro harmless events ordered
    have begins : Evicted 0 (start limit window).limiter
        (start limit window).limiter := evicted_new 0
    constructor
    · exact fixedWindowLaw (fun event member => (List.mem_filter.mp member).2)
        (ordered.sublist List.filter_sublist)
    · exact begins.foldl rfl harmless ordered fun event _ => Nat.zero_le _

/-- Without a window of its own length, a cleanup in the same second gives a
key a second request. -/
theorem cleanup_changes_answers :
    Ordered (cleanedUp 1 0 "10.0.0.1") ∧
      ¬ TransparentCleanup 1 0 (cleanedUp 1 0 "10.0.0.1") :=
  ⟨ordered_cleanedUp 1 0 "10.0.0.1",
    not_transparent (by decide) (by decide) "10.0.0.1"⟩

end LimiterHistory

end TorchInference
