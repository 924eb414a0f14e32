import TorchInference.WebSocketHook

/-!
# What the WebSocket hook keeps

At most one socket has handlers and is not closed, and it is the one in the ref;
a timer is set only while there is none.  The state says that a connection is
there as long as an effect is torn down only when it says that none is.
-/

namespace TorchInference

namespace HookState

variable {Data : Type} {location : PageLocation} {state : HookState Data}

/-! ## The sockets and the timer -/

/-- What every step of the hook keeps. -/
structure Kept (state : HookState Data) : Prop where
  current : ∀ i, state.socketRef = some i → ∃ socket,
    state.sockets[i]? = some socket ∧ socket.handlers.isSome = true ∧
      socket.readyState ≠ .closed
  /-- The other sockets are closed or detached, and none is live. -/
  others : ∀ (i : Nat) (socket : HookSocket),
    state.sockets[i]? = some socket → state.socketRef ≠ some i →
      (socket.handlers = none ∨ socket.readyState = .closed) ∧
        socket.isLive = false
  timer : state.timers = [] ∨ ∃ timer, state.timers = [timer] ∧
    state.timeoutRef = some timer.id ∧ state.socketRef = none ∧
      state.stoppedRef = false
  active : (state.socketRef = none ∧ state.timers = []) ∨
    (state.mounted = true ∧ state.options.enabled = true)

/-- While it says so, the socket in the ref has opened. -/
def ConnectedOpen (state : HookState Data) : Prop :=
  state.mounted = true → state.connected = true → ∃ i socket,
    state.socketRef = some i ∧ state.sockets[i]? = some socket ∧
      socket.opened = true

section Timer

@[simp]
theorem clearTimer_mounted : state.clearTimer.mounted = state.mounted := by
  unfold clearTimer
  split <;> rfl

@[simp]
theorem clearTimer_options : state.clearTimer.options = state.options := by
  unfold clearTimer
  split <;> rfl

@[simp]
theorem clearTimer_connected :
    state.clearTimer.connected = state.connected := by
  unfold clearTimer
  split <;> rfl

@[simp]
theorem clearTimer_socketRef :
    state.clearTimer.socketRef = state.socketRef := by
  unfold clearTimer
  split <;> rfl

@[simp]
theorem clearTimer_sockets : state.clearTimer.sockets = state.sockets := by
  unfold clearTimer
  split <;> rfl

@[simp]
theorem clearTimer_stoppedRef :
    state.clearTimer.stoppedRef = state.stoppedRef := by
  unfold clearTimer
  split <;> rfl

/-- The timer that is set is the one in the ref. -/
theorem timers_stop (kept : Kept state) :
    (clearTimer { state with stoppedRef := true }).timers = [] := by
  rcases kept.timer with none | ⟨timer, one, ref, -, -⟩
  · unfold clearTimer
    split
    · exact none
    · show state.timers.filter _ = []
      rw [none]
      rfl
  · unfold clearTimer
    rw [ref]
    show state.timers.filter _ = []
    rw [one, List.filter_cons_of_neg (by simp)]
    rfl

theorem Kept.stop (kept : Kept state) :
    Kept (clearTimer { state with stoppedRef := true }) where
  current := by simpa using kept.current
  others := by simpa using kept.others
  timer := .inl (timers_stop kept)
  active := by
    have none := timers_stop kept
    rcases kept.active with ⟨noSocket, -⟩ | active
    · exact .inl ⟨by simpa using noSocket, none⟩
    · exact .inr (by simpa using active)

end Timer

/-! ## One socket changes -/

theorem getElem?_modified {sockets : List HookSocket} {i j : Nat}
    {change : HookSocket → HookSocket} {socket : HookSocket}
    (here : (sockets.modify i change)[j]? = some socket) :
    ∃ before, sockets[j]? = some before ∧
      socket = if i = j then change before else before := by
  rw [List.getElem?_modify] at here
  obtain ⟨before, found, same⟩ := Option.map_eq_some_iff.mp here
  exact ⟨before, found, same.symm⟩

/-- What every change of a socket respects that is neither its close event nor a
cleanup: no socket is revived. -/
structure Follows (before after : HookSocket) : Prop where
  handlers : after.handlers = before.handlers
  closed : after.readyState = .closed ↔ before.readyState = .closed
  live : after.isLive = true → before.isLive = true
  opened : before.opened = true → after.opened = true

theorem Follows.refl (socket : HookSocket) : Follows socket socket where
  handlers := rfl
  closed := Iff.rfl
  live := id
  opened := id

theorem isLive_close (socket : HookSocket) : socket.close.isLive = false := by
  rw [HookSocket.isLive, HookSocket.close, Bool.not_true, Bool.and_false]

theorem Follows.close (socket : HookSocket) : Follows socket socket.close where
  handlers := rfl
  closed := by
    by_cases closed : socket.readyState = .closed
    · simp [HookSocket.close, closed]
    · simp [HookSocket.close, closed]
  live := by
    intro live
    rw [isLive_close] at live
    cases live
  opened := id

theorem Follows.open {socket : HookSocket}
    (connecting : socket.readyState = .connecting) :
    Follows socket { socket with readyState := .isOpen, opened := true } where
  handlers := rfl
  closed := by
    rw [connecting]
    exact iff_of_false ReadyState.noConfusion ReadyState.noConfusion
  live := by
    rw [HookSocket.isLive, HookSocket.isLive, connecting]
    exact id
  opened := fun _ => rfl

theorem Follows.send (frame : String) (socket : HookSocket) :
    Follows socket (if socket.readyState = .isOpen then
      { socket with sent := socket.sent ++ [frame] }
    else socket) := by
  split_ifs
  · exact ⟨rfl, Iff.rfl, id, id⟩
  · exact Follows.refl socket

theorem Kept.modify {i : Nat} {change : HookSocket → HookSocket}
    (kept : Kept state)
    (follows : ∀ socket, state.sockets[i]? = some socket →
      Follows socket (change socket)) :
    Kept { state with sockets := state.sockets.modify i change } where
  current := by
    intro j ref
    obtain ⟨socket, here, isSome, notClosed⟩ := kept.current j ref
    refine ⟨if i = j then change socket else socket, ?_, ?_⟩
    · rw [List.getElem?_modify, here]
      rfl
    · split_ifs with same
      · have changed := follows socket (same ▸ here)
        refine ⟨?_, fun isClosed => notClosed (changed.closed.mp isClosed)⟩
        rw [changed.handlers]
        exact isSome
      · exact ⟨isSome, notClosed⟩
  others := by
    intro j socket here other
    obtain ⟨before, found, rfl⟩ := getElem?_modified here
    obtain ⟨ended, dead⟩ := kept.others j before found other
    split_ifs with same
    · have changed := follows before (same ▸ found)
      rw [changed.handlers, changed.closed]
      exact ⟨ended, Bool.eq_false_iff.mpr fun isLive =>
        Bool.eq_false_iff.mp dead (changed.live isLive)⟩
    · exact ⟨ended, dead⟩
  timer := kept.timer
  active := kept.active

/-- A socket that is attached and not closed is the one in the ref. -/
theorem Kept.socketRef_eq {i : Nat} {socket : HookSocket}
    {options : HookOptions} (kept : Kept state)
    (here : state.sockets[i]? = some socket)
    (attached : socket.handlers = some options)
    (notClosed : socket.readyState ≠ .closed) :
    state.socketRef = some i := by
  by_contra other
  rcases (kept.others i socket here other).1 with detached | closed
  · rw [attached] at detached
    cases detached
  · exact notClosed closed

/-- A socket without handlers closes. -/
theorem Kept.closeDetached {i : Nat} {socket : HookSocket} (kept : Kept state)
    (here : state.sockets[i]? = some socket)
    (detached : socket.handlers = none) :
    state.socketRef ≠ some i ∧
      Kept { state with sockets := state.sockets.modify i fun socket =>
        { socket with readyState := .closed } } := by
  have other : state.socketRef ≠ some i := by
    intro ref
    obtain ⟨found, there, isSome, -⟩ := kept.current i ref
    obtain rfl := Option.some.inj (here.symm.trans there)
    rw [detached] at isSome
    cases isSome
  refine ⟨other, ?_, ?_, kept.timer, kept.active⟩
  · intro j ref
    obtain ⟨found, there, attached⟩ := kept.current j ref
    refine ⟨found, ?_, attached⟩
    have apart : i ≠ j := by
      rintro rfl
      exact other ref
    rw [List.getElem?_modify_ne _ _ apart]
    exact there
  · intro j found there notCurrent
    obtain ⟨before, was, rfl⟩ := getElem?_modified there
    split_ifs with same
    · exact ⟨.inr rfl, rfl⟩
    · exact kept.others j before was notCurrent

/-- Nothing is in the refs, and no timer is set. -/
structure Idle (state : HookState Data) : Prop where
  noSocket : state.socketRef = none
  noTimer : state.timers = []
  others : ∀ (i : Nat) (socket : HookSocket),
    state.sockets[i]? = some socket →
      (socket.handlers = none ∨ socket.readyState = .closed) ∧
        socket.isLive = false

theorem Idle.kept (idle : Idle state) : Kept state where
  current := by
    intro i ref
    rw [idle.noSocket] at ref
    cases ref
  others := fun i socket here _ => idle.others i socket here
  timer := .inl idle.noTimer
  active := .inl ⟨idle.noSocket, idle.noTimer⟩

theorem Kept.idle (kept : Kept state) (noSocket : state.socketRef = none)
    (noTimer : state.timers = []) : Idle state where
  noSocket := noSocket
  noTimer := noTimer
  others := by
    intro i socket here
    apply kept.others i socket here
    rw [noSocket]
    exact fun ref => by cases ref

/-- The current socket is no longer current, and either closed or detached and
given up. -/
theorem Kept.leave {i : Nat} {change : HookSocket → HookSocket}
    (kept : Kept state) (ref : state.socketRef = some i)
    (ended : ∀ socket, ((change socket).handlers = none ∨
      (change socket).readyState = .closed) ∧ (change socket).isLive = false) :
    Idle { state with
      socketRef := none
      sockets := state.sockets.modify i change } where
  noSocket := rfl
  noTimer := by
    rcases kept.timer with none | ⟨-, -, -, noSocket, -⟩
    · exact none
    · rw [ref] at noSocket
      cases noSocket
  others := by
    intro j socket here
    obtain ⟨before, found, rfl⟩ := getElem?_modified here
    split_ifs with same
    · exact ended before
    · refine kept.others j before found fun current => same ?_
      exact Option.some.inj (ref.symm.trans current)

/-- After its cleanup an effect has left nothing behind. -/
theorem Kept.cleanup (kept : Kept state) : Idle state.cleanup := by
  have stopped := kept.stop
  have none := timers_stop kept
  unfold HookState.cleanup
  dsimp only
  split
  · next noSocket => exact stopped.idle noSocket none
  · next i ref =>
      exact stopped.leave ref fun socket => ⟨.inl rfl, isLive_close _⟩

@[simp]
theorem cleanup_mounted : state.cleanup.mounted = state.mounted := by
  unfold cleanup
  dsimp only
  split <;> simp

@[simp]
theorem cleanup_connected : state.cleanup.connected = state.connected := by
  unfold cleanup
  dsimp only
  split <;> simp

theorem cleanup_length :
    state.cleanup.sockets.length = state.sockets.length := by
  unfold cleanup
  dsimp only
  split <;> simp

/-- A new socket is opened where nothing is left. -/
theorem Idle.connect (idle : Idle state) (mounted : state.mounted = true)
    (enabled : state.options.enabled = true) (options : HookOptions) :
    Kept (connect location options state) where
  current := by
    intro i ref
    obtain rfl := Option.some.inj ref
    refine ⟨_, List.getElem?_concat_length, rfl, ?_⟩
    exact fun closed => by cases closed
  others := by
    intro i socket here other
    have apart : i ≠ state.sockets.length := fun same =>
      other (congrArg some same.symm)
    have within := (List.getElem?_eq_some_iff.mp here).1
    rw [HookState.connect, List.length_append, List.length_singleton] at within
    have earlier : state.sockets[i]? = some socket := by
      rw [HookState.connect,
        List.getElem?_append_left (by omega)] at here
      exact here
    exact idle.others i socket earlier
  timer := .inl idle.noTimer
  active := .inr ⟨mounted, enabled⟩

@[simp]
theorem tearDown_mounted : state.tearDown.mounted = state.mounted := by
  unfold tearDown
  split_ifs
  · exact cleanup_mounted
  · rfl

@[simp]
theorem tearDown_connected : state.tearDown.connected = state.connected := by
  unfold tearDown
  split_ifs
  · exact cleanup_connected
  · rfl

theorem tearDown_length :
    state.tearDown.sockets.length = state.sockets.length := by
  unfold tearDown
  split_ifs
  · exact cleanup_length
  · rfl

/-- The effect leaves nothing behind, whether it was enabled or not. -/
theorem Kept.tearDown (kept : Kept state) : Idle state.tearDown := by
  unfold HookState.tearDown
  split_ifs with enabled
  · exact kept.cleanup
  · rcases kept.active with ⟨noSocket, noTimer⟩ | ⟨-, isEnabled⟩
    · exact kept.idle noSocket noTimer
    · exact absurd isEnabled enabled

theorem Idle.runEffect (idle : Idle state) (mounted : state.mounted = true)
    (options : HookOptions) :
    Kept (runEffect location options { state with options := options }) := by
  rw [HookState.runEffect]
  split_ifs with enabled
  · have left : Idle
        { state with options := options, stoppedRef := false } :=
      ⟨idle.noSocket, idle.noTimer, idle.others⟩
    exact left.connect mounted enabled options
  · exact Idle.kept ⟨idle.noSocket, idle.noTimer, idle.others⟩

theorem Kept.mount (options : HookOptions) :
    Kept (mount location options : HookState Data) := by
  have idle : Idle (⟨true, options, none, false, none, 0, none, none, 0, false,
      [], [], 1⟩ : HookState Data) :=
    ⟨rfl, rfl, fun i socket here => by cases here⟩
  exact idle.runEffect rfl options

end HookState

end TorchInference
