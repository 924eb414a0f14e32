import TorchInference.WebSocketHookState

/-!
# Runs of the WebSocket hook

Over every run there is one connection attempt at a time, and a stopped hook
opens no socket.  What the hook says about its connection is right exactly as
long as no effect is torn down while it says that there is one.
-/

namespace TorchInference

namespace HookState

open TransitionRuns

variable {Data : Type} {location : PageLocation}
variable {state next : HookState Data}

/-! ## Events of a socket -/

theorem fire_eq_some {allowed : ReadyState → Bool}
    {change : HookSocket → HookSocket}
    {handler : HookOptions → HookState Data → HookState Data} {i : Nat}
    (fired : fire allowed change handler i state = some next) :
    ∃ socket, state.sockets[i]? = some socket ∧
      allowed socket.readyState = true ∧
      ((socket.handlers = none ∧
          next = { state with sockets := state.sockets.modify i change }) ∨
        ∃ options, socket.handlers = some options ∧
          next = handler options
            { state with sockets := state.sockets.modify i change }) := by
  unfold fire at fired
  cases here : state.sockets[i]? with
  | none =>
      rw [here] at fired
      cases fired
  | some socket =>
      simp only [here] at fired
      split_ifs at fired with may
      refine ⟨socket, rfl, may, ?_⟩
      cases handlers : socket.handlers with
      | none =>
          simp only [handlers, Option.some.injEq] at fired
          exact .inl ⟨rfl, fired.symm⟩
      | some options =>
          simp only [handlers, Option.some.injEq] at fired
          exact .inr ⟨options, rfl, fired.symm⟩

/-- What is kept of the sockets is kept by an event whose handler only sets what
is rendered. -/
theorem Kept.fire {allowed : ReadyState → Bool}
    {change : HookSocket → HookSocket}
    {handler : HookOptions → HookState Data → HookState Data} {i : Nat}
    (kept : Kept state)
    (fired : fire allowed change handler i state = some next)
    (follows : ∀ socket, allowed socket.readyState = true →
      Follows socket (change socket))
    (handled : ∀ options (before : HookState Data), Kept before →
      Kept (handler options before)) : Kept next := by
  obtain ⟨socket, here, may, cases⟩ := fire_eq_some fired
  have changed : Kept
      { state with sockets := state.sockets.modify i change } := by
    apply kept.modify
    intro found there
    obtain rfl := Option.some.inj (here.symm.trans there)
    exact follows socket may
  rcases cases with ⟨-, rfl⟩ | ⟨options, -, rfl⟩
  · exact changed
  · exact handled options _ changed

theorem Kept.onopen (kept : Kept state) : Kept state.onopen :=
  ⟨kept.current, kept.others, kept.timer, kept.active⟩

theorem Kept.onerror (kept : Kept state) : Kept state.onerror :=
  ⟨kept.current, kept.others, kept.timer, kept.active⟩

theorem Kept.onmessage (frame : HookFrame Data) (kept : Kept state) :
    Kept (onmessage frame state) := by
  rcases frame with (_ | parsed) | _
  · exact ⟨kept.current, kept.others, kept.timer, kept.active⟩
  · exact ⟨kept.current, kept.others, kept.timer, kept.active⟩
  · exact kept

/-- After the close of the current socket there is at most a timer. -/
theorem Idle.onclose {socketRef : Option Nat} {sockets : List HookSocket}
    (options : HookOptions)
    (idle : Idle { state with socketRef := none, sockets := sockets })
    (mounted : state.mounted = true) (enabled : state.options.enabled = true) :
    Kept (onclose options
      { state with socketRef := socketRef, sockets := sockets }) := by
  have noTimer : state.timers = [] := idle.noTimer
  unfold HookState.onclose
  dsimp only
  split_ifs with stops limit
  · exact Idle.kept ⟨rfl, noTimer, idle.others⟩
  · exact Idle.kept ⟨rfl, noTimer, idle.others⟩
  · have running : state.stoppedRef = false := by
      by_contra stopped
      apply stops
      rw [Bool.not_eq_false] at stopped
      rw [stopped, Bool.true_or]
    exact
      { current := fun i ref => absurd ref.symm (Option.some_ne_none i)
        others := fun i socket here _ => idle.others i socket here
        timer := .inr ⟨_, congrArg (· ++ _) noTimer, rfl, rfl, running⟩
        active := .inr ⟨mounted, enabled⟩ }

/-- A socket that closes was given up, or it is the current one. -/
theorem Kept.socketClose {i : Nat} (kept : Kept state)
    (stepTo : step location state (.socketClose i) = some next) :
    Kept next := by
  have fired : HookState.fire (· != .closed) _ HookState.onclose i state =
    some next := stepTo
  obtain ⟨socket, here, may, ⟨detached, rfl⟩ | ⟨options, attached, rfl⟩⟩ :=
    fire_eq_some fired
  · exact (kept.closeDetached here detached).2
  · have ref := kept.socketRef_eq here attached (by simpa using may)
    have left : Idle { state with
        socketRef := none
        sockets := state.sockets.modify i fun socket =>
          { socket with readyState := .closed } } :=
      kept.leave ref fun _ => ⟨.inr rfl, rfl⟩
    rcases kept.active with ⟨noSocket, -⟩ | ⟨mounted, enabled⟩
    · rw [ref] at noSocket
      cases noSocket
    · exact left.onclose options mounted enabled

/-- The one timer fires when there is no socket. -/
theorem Kept.timerFires {id : Nat} (kept : Kept state)
    (stepTo : step location state (.timerFires id) = some next) :
    state.socketRef = none ∧ state.stoppedRef = false ∧ Kept next := by
  simp only [step] at stepTo
  split at stepTo
  · cases stepTo
  · next timer found =>
      have member := List.mem_of_find?_eq_some found
      rcases kept.timer with none | ⟨only, one, -, noSocket, running⟩
      · rw [none] at member
        cases member
      · refine ⟨noSocket, running, ?_⟩
        obtain rfl := Option.some.inj stepTo
        have isId : only.id = id := by
          rw [one, List.find?_singleton] at found
          simp only [Option.ite_none_right_eq_some, beq_iff_eq] at found
          exact found.1
        have left : Idle { state with
            timers := state.timers.filter fun timer => timer.id != id } := by
          refine ⟨noSocket, ?_, ?_⟩
          · rw [one, List.filter_cons_of_neg (by simp [isId])]
            rfl
          · intro i socket here
            apply kept.others i socket here
            rw [noSocket]
            exact fun ref => by cases ref
        rcases kept.active with ⟨-, noTimer⟩ | ⟨mounted, enabled⟩
        · rw [noTimer] at one
          cases one
        · exact left.connect mounted enabled timer.options

/-! ## Every step -/

/-- A render changes nothing, or it tears the effect down and runs it with the
new options. -/
theorem render_eq_some {options : HookOptions}
    (stepTo : step location state (.render options) = some next) :
    state.mounted = true ∧ ((options = state.options ∧ next = state) ∨
      (options ≠ state.options ∧ next = runEffect location options
        { state.tearDown with options := options })) := by
  simp only [step, Option.ite_none_right_eq_some] at stepTo
  obtain ⟨mounted, stepTo⟩ := stepTo
  refine ⟨mounted, ?_⟩
  by_cases same : options = state.options
  · rw [if_pos same] at stepTo
    exact .inl ⟨same, (Option.some.inj stepTo).symm⟩
  · rw [if_neg same] at stepTo
    exact .inr ⟨same, (Option.some.inj stepTo).symm⟩

theorem send_eq_some {frame : String}
    (stepTo : step location state (.send frame) = some next) :
    next = state ∨ ∃ i, next =
      { state with
        sockets := state.sockets.modify i fun socket =>
          if socket.readyState = .isOpen then
            { socket with sent := socket.sent ++ [frame] }
          else socket } := by
  simp only [step] at stepTo
  cases ref : state.socketRef with
  | none =>
      rw [ref] at stepTo
      exact .inl (Option.some.inj stepTo).symm
  | some i =>
      rw [ref] at stepTo
      exact .inr ⟨i, (Option.some.inj stepTo).symm⟩

/-- The hook is stopped, and then the current socket is closed if there is
one. -/
theorem hookClose_eq_some
    (stepTo : step location state .hookClose = some next) :
    let stopped := clearTimer { state with stoppedRef := true }
    next = stopped ∨ ∃ i, next =
      { stopped with
        sockets := stopped.sockets.modify i HookSocket.close } := by
  simp only [step] at stepTo
  split at stepTo
  · exact .inl (Option.some.inj stepTo).symm
  · next i ref => exact .inr ⟨i, (Option.some.inj stepTo).symm⟩

theorem unmount_eq_some
    (stepTo : step location state .unmount = some next) :
    next = { state.tearDown with mounted := false } := by
  simp only [step, Option.ite_none_right_eq_some] at stepTo
  exact (Option.some.inj stepTo.2).symm

theorem Kept.step {event : HookEvent Data} (kept : Kept state)
    (stepTo : step location state event = some next) : Kept next := by
  cases event with
  | render options =>
      obtain ⟨mounted, ⟨-, rfl⟩ | ⟨-, rfl⟩⟩ := render_eq_some stepTo
      · exact kept
      · exact kept.tearDown.runEffect (tearDown_mounted.trans mounted) options
  | socketOpen i =>
      simp only [HookState.step] at stepTo
      exact kept.fire stepTo
        (fun _ connecting => Follows.open (eq_of_beq connecting))
        fun _ _ => Kept.onopen
  | socketMessage i frame =>
      simp only [HookState.step] at stepTo
      exact kept.fire stepTo (fun _ _ => Follows.refl _)
        fun _ _ => Kept.onmessage frame
  | socketError i =>
      simp only [HookState.step] at stepTo
      exact kept.fire stepTo (fun _ _ => Follows.refl _)
        fun _ _ => Kept.onerror
  | socketClose i => exact kept.socketClose stepTo
  | timerFires id => exact (kept.timerFires stepTo).2.2
  | send frame =>
      obtain rfl | ⟨i, rfl⟩ := send_eq_some stepTo
      · exact kept
      · exact kept.modify fun socket _ => Follows.send frame socket
  | hookClose =>
      obtain rfl | ⟨i, rfl⟩ := hookClose_eq_some stepTo
      · exact kept.stop
      · exact kept.stop.modify fun socket _ => Follows.close socket
  | unmount =>
      obtain rfl := unmount_eq_some stepTo
      have idle := kept.tearDown
      exact Idle.kept ⟨idle.noSocket, idle.noTimer, idle.others⟩

/-! ## The connection that the hook reports -/

theorem ConnectedOpen.modify {i : Nat} {change : HookSocket → HookSocket}
    (connectedOpen : ConnectedOpen state)
    (opened : ∀ socket, socket.opened = true → (change socket).opened = true) :
    ConnectedOpen { state with sockets := state.sockets.modify i change } := by
  intro mounted connected
  obtain ⟨j, socket, ref, here, isOpen⟩ := connectedOpen mounted connected
  refine ⟨j, if i = j then change socket else socket, ref, ?_, ?_⟩
  · rw [List.getElem?_modify, here]
    rfl
  · split_ifs
    · exact opened socket isOpen
    · exact isOpen

theorem ConnectedOpen.of_not_connected (connected : state.connected = false) :
    ConnectedOpen state := by
  intro _ isConnected
  rw [connected] at isConnected
  cases isConnected

theorem ConnectedOpen.clearTimer (connectedOpen : ConnectedOpen state) :
    ConnectedOpen (clearTimer { state with stoppedRef := true }) := by
  simpa [ConnectedOpen] using connectedOpen

/-- Neither the handlers nor a socket that is not the current one can make the
hook report a connection that is not there. -/
theorem ConnectedOpen.fire {allowed : ReadyState → Bool}
    {change : HookSocket → HookSocket}
    {handler : HookOptions → HookState Data → HookState Data} {i : Nat}
    (connectedOpen : ConnectedOpen state)
    (fired : fire allowed change handler i state = some next)
    (opened : ∀ socket, socket.opened = true → (change socket).opened = true)
    (handled : ∀ options socket, state.sockets[i]? = some socket →
      socket.handlers = some options → allowed socket.readyState = true →
      ConnectedOpen (handler options
        { state with sockets := state.sockets.modify i change })) :
    ConnectedOpen next := by
  obtain ⟨socket, here, may, ⟨-, rfl⟩ | ⟨options, attached, rfl⟩⟩ :=
    fire_eq_some fired
  · exact connectedOpen.modify opened
  · exact handled options socket here attached may

@[simp]
theorem onclose_connected (options : HookOptions) :
    (onclose options state).connected = false := by
  unfold onclose
  dsimp only
  split_ifs <;> rfl

@[simp]
theorem connect_connected (options : HookOptions) :
    (connect location options state).connected = state.connected :=
  rfl

@[simp]
theorem runEffect_connected (options : HookOptions) :
    (runEffect location options state).connected = state.connected := by
  unfold runEffect
  split_ifs <;> rfl

@[simp]
theorem runEffect_mounted (options : HookOptions) :
    (runEffect location options state).mounted = state.mounted := by
  unfold runEffect
  split_ifs <;> rfl

/-- The event does not tear an effect down, or the hook reports no connection
when it does. -/
def TearsDownDisconnected (state : HookState Data) : HookEvent Data → Prop
  | .render options => options ≠ state.options → state.connected = false
  | _ => True

instance decidableTearsDownDisconnected (state : HookState Data) :
    ∀ event : HookEvent Data, Decidable (TearsDownDisconnected state event)
  | .render options => inferInstanceAs
      (Decidable (options ≠ state.options → state.connected = false))
  | .socketOpen _ | .socketMessage _ _ | .socketError _ | .socketClose _
  | .timerFires _ | .send _ | .hookClose | .unmount => isTrue trivial

theorem ConnectedOpen.step {event : HookEvent Data} (kept : Kept state)
    (connectedOpen : ConnectedOpen state)
    (condition : TearsDownDisconnected state event)
    (stepTo : step location state event = some next) :
    ConnectedOpen next := by
  cases event with
  | render options =>
      obtain ⟨-, ⟨-, rfl⟩ | ⟨other, rfl⟩⟩ := render_eq_some stepTo
      · exact connectedOpen
      · apply of_not_connected
        rw [runEffect_connected]
        exact tearDown_connected.trans (condition other)
  | socketOpen i =>
      simp only [HookState.step] at stepTo
      refine connectedOpen.fire stepTo (fun _ _ => rfl) ?_
      intro options socket here attached connecting _ _
      have ref : state.socketRef = some i := by
        apply kept.socketRef_eq here attached
        rw [eq_of_beq connecting]
        exact ReadyState.noConfusion
      refine ⟨i, { socket with readyState := .isOpen, opened := true }, ref, ?_,
        rfl⟩
      show (state.sockets.modify i _)[i]? = _
      rw [List.getElem?_modify_eq, here]
      rfl
  | socketMessage i frame =>
      simp only [HookState.step] at stepTo
      refine connectedOpen.fire stepTo (fun _ => id) fun _ _ _ _ _ => ?_
      have unchanged := connectedOpen.modify (i := i) fun _ => id
      rcases frame with (_ | parsed) | _
      · exact unchanged
      · exact unchanged
      · exact unchanged
  | socketError i =>
      simp only [HookState.step] at stepTo
      exact connectedOpen.fire stepTo (fun _ => id) fun _ _ _ _ _ =>
        connectedOpen.modify fun _ => id
  | socketClose i =>
      simp only [HookState.step] at stepTo
      exact connectedOpen.fire stepTo (fun _ => id) fun _ _ _ _ _ =>
        of_not_connected (onclose_connected _)
  | timerFires id =>
      have noSocket := (kept.timerFires stepTo).1
      simp only [HookState.step] at stepTo
      split at stepTo
      · cases stepTo
      · obtain rfl := Option.some.inj stepTo
        intro mounted connected
        obtain ⟨i, -, ref, -⟩ := connectedOpen mounted connected
        rw [noSocket] at ref
        cases ref
  | send frame =>
      obtain rfl | ⟨i, rfl⟩ := send_eq_some stepTo
      · exact connectedOpen
      · exact connectedOpen.modify fun socket =>
          (Follows.send frame socket).opened
  | hookClose =>
      obtain rfl | ⟨i, rfl⟩ := hookClose_eq_some stepTo
      · exact connectedOpen.clearTimer
      · exact connectedOpen.clearTimer.modify fun _ => id
  | unmount =>
      obtain rfl := unmount_eq_some stepTo
      intro mounted
      cases mounted

/-! ## A stopped hook -/

/-- No timer is set, and the close of a socket sets none. -/
def Quiet (state : HookState Data) : Prop :=
  state.timers = [] ∧ (state.stoppedRef = true ∨ state.socketRef = none)

/-- The event runs the effect, with a connection to open. -/
def RunsEffect (state : HookState Data) (event : HookEvent Data) : Prop :=
  ∃ options, event = .render options ∧ options ≠ state.options ∧
    options.enabled = true

theorem Idle.quiet (idle : Idle state) : Quiet state :=
  ⟨idle.noTimer, .inr idle.noSocket⟩

theorem Quiet.fire {allowed : ReadyState → Bool}
    {change : HookSocket → HookSocket}
    {handler : HookOptions → HookState Data → HookState Data} {i : Nat}
    (quiet : Quiet state)
    (fired : fire allowed change handler i state = some next)
    (handled : ∀ options socket, state.sockets[i]? = some socket →
      socket.handlers = some options → allowed socket.readyState = true →
      let changed := { state with sockets := state.sockets.modify i change }
      Quiet (handler options changed) ∧
        (handler options changed).sockets = changed.sockets) :
    Quiet next ∧ next.sockets.length = state.sockets.length := by
  obtain ⟨socket, here, may, ⟨-, rfl⟩ | ⟨options, attached, rfl⟩⟩ :=
    fire_eq_some fired
  · exact ⟨quiet, List.length_modify _ _ _⟩
  · obtain ⟨stays, same⟩ := handled options socket here attached may
    refine ⟨stays, ?_⟩
    rw [same]
    exact List.length_modify _ _ _

/-- The current socket of a quiet hook closes after the hook was stopped. -/
theorem Quiet.onclose (options : HookOptions) (noTimer : state.timers = [])
    (stopped : state.stoppedRef = true) :
    Quiet (onclose options state) ∧
      (HookState.onclose options state).sockets = state.sockets := by
  unfold HookState.onclose
  dsimp only
  rw [stopped, Bool.true_or, if_pos rfl]
  exact ⟨⟨noTimer, .inr rfl⟩, rfl⟩

/-- `close` and the end of the component stop the hook. -/
theorem stops_of_step {event : HookEvent Data} (kept : Kept state)
    (stops : event = .hookClose ∨ event = .unmount)
    (stepTo : step location state event = some next) :
    Quiet next ∧ next.sockets.length = state.sockets.length := by
  rcases stops with rfl | rfl
  · obtain rfl | ⟨i, rfl⟩ := hookClose_eq_some stepTo
    · exact ⟨⟨timers_stop kept, .inl clearTimer_stoppedRef⟩,
        congrArg List.length clearTimer_sockets⟩
    · refine ⟨⟨timers_stop kept, .inl clearTimer_stoppedRef⟩, ?_⟩
      rw [List.length_modify, clearTimer_sockets]
  · obtain rfl := unmount_eq_some stepTo
    exact ⟨kept.tearDown.quiet, tearDown_length⟩

/-- A quiet hook stays quiet, and opens no socket, until its effect runs. -/
theorem Quiet.step {event : HookEvent Data} (kept : Kept state)
    (quiet : Quiet state) (noEffect : ¬ RunsEffect state event)
    (stepTo : step location state event = some next) :
    Quiet next ∧ next.sockets.length = state.sockets.length := by
  cases event with
  | render options =>
      obtain ⟨-, ⟨-, rfl⟩ | ⟨other, rfl⟩⟩ := render_eq_some stepTo
      · exact ⟨quiet, rfl⟩
      · have disabled : ¬ options.enabled = true := fun enabled =>
          noEffect ⟨options, rfl, other, enabled⟩
        rw [runEffect, if_neg disabled]
        exact ⟨kept.tearDown.quiet, tearDown_length⟩
  | socketOpen i =>
      simp only [HookState.step] at stepTo
      exact quiet.fire stepTo fun _ _ _ _ _ => ⟨quiet, rfl⟩
  | socketMessage i frame =>
      simp only [HookState.step] at stepTo
      refine quiet.fire stepTo fun _ _ _ _ _ => ?_
      rcases frame with (_ | parsed) | _
      · exact ⟨quiet, rfl⟩
      · exact ⟨quiet, rfl⟩
      · exact ⟨quiet, rfl⟩
  | socketError i =>
      simp only [HookState.step] at stepTo
      exact quiet.fire stepTo fun _ _ _ _ _ => ⟨quiet, rfl⟩
  | socketClose i =>
      simp only [HookState.step] at stepTo
      refine quiet.fire stepTo fun options socket here attached may => ?_
      have ref := kept.socketRef_eq here attached (by simpa using may)
      have stopped : state.stoppedRef = true := by
        apply quiet.2.resolve_right
        rw [ref]
        exact Option.some_ne_none i
      exact Quiet.onclose options quiet.1 stopped
  | timerFires id =>
      simp only [HookState.step, quiet.1, List.find?_nil] at stepTo
      cases stepTo
  | send frame =>
      obtain rfl | ⟨i, rfl⟩ := send_eq_some stepTo
      · exact ⟨quiet, rfl⟩
      · exact ⟨quiet, List.length_modify _ _ _⟩
  | hookClose => exact stops_of_step kept (.inl rfl) stepTo
  | unmount => exact stops_of_step kept (.inr rfl) stepTo

/-! ## What the hook says -/

/-- There is one attempt to connect at a time. -/
structure OneAttempt (state : HookState Data) : Prop where
  oneSocket : ∀ (i j : Nat) (first second : HookSocket),
    state.sockets[i]? = some first → state.sockets[j]? = some second →
      first.isLive = true → second.isLive = true → i = j
  oneTimer : state.timers.length ≤ 1
  notBoth : state.timers ≠ [] →
    ∀ socket ∈ state.sockets, socket.isLive = false

/-- What is expected of the hook in every state. -/
structure Reflects (state : HookState Data) : Prop
    extends OneAttempt state where
  connected : state.mounted = true → state.connected = true →
    ∃ i socket, state.socketRef = some i ∧
      state.sockets[i]? = some socket ∧ socket.opened = true ∧
        socket.readyState ≠ .closed
  disabled : state.mounted = true → state.options.enabled = false →
    state.connected = false

theorem Kept.socketRef_of_isLive {i : Nat} {socket : HookSocket}
    (kept : Kept state) (here : state.sockets[i]? = some socket)
    (live : socket.isLive = true) : state.socketRef = some i := by
  by_contra other
  rw [(kept.others i socket here other).2] at live
  cases live

theorem Kept.oneAttempt (kept : Kept state) : OneAttempt state where
  oneSocket := by
    intro i j first second hereFirst hereSecond liveFirst liveSecond
    have refFirst := kept.socketRef_of_isLive hereFirst liveFirst
    have refSecond := kept.socketRef_of_isLive hereSecond liveSecond
    exact Option.some.inj (refFirst.symm.trans refSecond)
  oneTimer := by
    rcases kept.timer with none | ⟨timer, one, -⟩
    · simp [none]
    · simp [one]
  notBoth := by
    intro pending socket member
    obtain ⟨i, here⟩ := List.mem_iff_getElem?.mp member
    rcases kept.timer with none | ⟨-, -, -, noSocket, -⟩
    · exact absurd none pending
    · by_contra live
      rw [Bool.not_eq_false] at live
      rw [kept.socketRef_of_isLive here live] at noSocket
      cases noSocket

theorem Kept.reflects (kept : Kept state)
    (connectedOpen : ConnectedOpen state) : Reflects state where
  toOneAttempt := kept.oneAttempt
  connected := by
    intro mounted connected
    obtain ⟨i, socket, ref, here, isOpen⟩ := connectedOpen mounted connected
    obtain ⟨found, there, -, notClosed⟩ := kept.current i ref
    obtain rfl := Option.some.inj (here.symm.trans there)
    exact ⟨i, socket, ref, here, isOpen, notClosed⟩
  disabled := by
    intro mounted disabled
    by_contra connected
    rw [Bool.not_eq_false] at connected
    obtain ⟨i, socket, ref, -⟩ := connectedOpen mounted connected
    rcases kept.active with ⟨noSocket, -⟩ | ⟨-, enabled⟩
    · rw [ref] at noSocket
      cases noSocket
    · rw [disabled] at enabled
      cases enabled

/-- Where an effect is torn down under a connection, the hook goes on reporting
it: there is no socket, or one that has not opened. -/
theorem not_reflects_of_tornDown {event : HookEvent Data} (kept : Kept state)
    (unmet : ¬ TearsDownDisconnected state event)
    (stepTo : step location state event = some next) : ¬ Reflects next := by
  cases event with
  | render options => ?_
  | _ => exact absurd trivial unmet
  have ⟨other, reported⟩ := Classical.not_imp.mp unmet
  obtain ⟨mounted, ⟨same, -⟩ | ⟨-, rfl⟩⟩ := render_eq_some stepTo
  · exact absurd same other
  · intro reflects
    obtain ⟨i, socket, ref, here, isOpen, -⟩ := reflects.connected
      (by rw [runEffect_mounted]; exact tearDown_mounted.trans mounted)
      (by
        rw [runEffect_connected]
        exact tearDown_connected.trans (Bool.of_not_eq_false reported))
    unfold runEffect at ref here
    split_ifs at ref here
    · obtain rfl := Option.some.inj ref
      obtain rfl := Option.some.inj (List.getElem?_concat_length.symm.trans here)
      cases isOpen
    · exact Option.some_ne_none i (ref.symm.trans kept.tearDown.noSocket)

theorem Quiet.length_eq_of_run {events : List (HookEvent Data)}
    {last : HookState Data} (kept : Kept state) (quiet : Quiet state)
    (reaches : run (HookState.step location) state events = some last)
    (noEffect : Meets (HookState.step location)
      (fun state event => ¬ RunsEffect state event) state events) :
    last.sockets.length = state.sockets.length := by
  induction events generalizing state with
  | nil =>
      obtain rfl := Option.some.inj reaches
      rfl
  | cons event events ih =>
      obtain ⟨next, stepTo, rest⟩ := run_cons_eq_some reaches
      rw [meets_cons_of_step stepTo] at noEffect
      obtain ⟨stays, length⟩ := quiet.step kept noEffect.1 stepTo
      exact (ih (kept.step stepTo) stays rest noEffect.2).trans length

/-- For every run there is one attempt at a time; after `close` or the end of the
component no socket is opened until the effect runs; and what the hook says is
right in all states exactly if no effect is torn down while a connection is
reported. -/
theorem reflects_iff (location : PageLocation) (options : HookOptions)
    (events : List (HookEvent Data)) (last : HookState Data)
    (reaches : run (step location) (mount location options) events =
      some last) :
    (∀ reached ∈ visited (step location) (mount location options) events,
      OneAttempt reached) ∧
    (∀ before stop after (reached : HookState Data),
      events = before ++ stop :: after →
      run (step location) (mount location options) before = some reached →
      (stop = .hookClose ∨ stop = .unmount) →
      Meets (step location) (fun state event => ¬ RunsEffect state event)
        reached (stop :: after) →
      last.sockets.length = reached.sockets.length) ∧
    ((∀ reached ∈ visited (step location) (mount location options) events,
        Reflects reached) ↔
      Meets (step location) TearsDownDisconnected (mount location options)
        events) := by
  have preserved : ∀ (state : HookState Data) event next, Kept state →
      step location state event = some next → Kept next :=
    fun _ _ _ kept stepTo => kept.step stepTo
  have start : Kept (mount location options : HookState Data) :=
    Kept.mount options
  refine ⟨?_, ?_, ?_⟩
  · intro reached member
    exact (invariant_of_run preserved start events reached member).oneAttempt
  · rintro before stop after reached rfl reachesStop stops noEffect
    have kept : Kept reached :=
      invariant_of_run_eq_some preserved start reachesStop
    have rest : run (step location) reached (stop :: after) = some last := by
      rw [run_append reachesStop] at reaches
      exact reaches
    obtain ⟨next, stepTo, restRun⟩ := run_cons_eq_some rest
    obtain ⟨quiet, length⟩ := stops_of_step kept stops stepTo
    rw [meets_cons_of_step stepTo] at noEffect
    exact (quiet.length_eq_of_run (kept.step stepTo) restRun noEffect.2).trans
      length
  · refine forall_visited_iff_meets
      (fun state (inv : Kept state ∧ ConnectedOpen state) =>
        inv.1.reflects inv.2)
      (fun state event next inv condition stepTo =>
        ⟨inv.1.step stepTo, inv.2.step inv.1 condition stepTo⟩)
      (fun state event next inv unmet stepTo =>
        not_reflects_of_tornDown inv.1 unmet stepTo)
      ⟨start, ConnectedOpen.of_not_connected ?_⟩ reaches
    rw [mount, runEffect_connected]

/-- The options of the camera page, which leaves its socket while it is idle. -/
def detectOptions (enabled : Bool) : HookOptions where
  path := "/ws/detect"
  enabled := enabled
  reconnect := true
  baseDelayMs := 500
  maxDelayMs := 10000
  maxReconnectAttempts := none
  binaryType := .arraybuffer
  protocols := none

/-- A socket that fails, and the one after it. -/
theorem reconnected_reflects :
    ∃ last, run (step ⟨true, "localhost"⟩)
        (mount ⟨true, "localhost"⟩ (detectOptions true) : HookState Unit)
        [.socketClose 0, .timerFires 1, .socketOpen 1, .hookClose,
          .socketClose 1, .render (detectOptions false)] = some last ∧
      ∀ reached ∈ visited (step ⟨true, "localhost"⟩)
          (mount ⟨true, "localhost"⟩ (detectOptions true) : HookState Unit)
          [.socketClose 0, .timerFires 1, .socketOpen 1, .hookClose,
            .socketClose 1, .render (detectOptions false)],
        Reflects reached :=
  ⟨_, rfl, (reflects_iff ⟨true, "localhost"⟩ (detectOptions true)
    [.socketClose 0, .timerFires 1, .socketOpen 1, .hookClose,
      .socketClose 1, .render (detectOptions false)] _ rfl).2.2.mpr
    (by decide)⟩

/-- The camera is switched off while its socket is open. -/
theorem idle_reports_connected :
    (run (step ⟨true, "localhost"⟩)
        (mount ⟨true, "localhost"⟩ (detectOptions true) : HookState Unit)
        [.socketOpen 0, .render (detectOptions false)]).map
      (fun last => (last.options.enabled, last.connected, last.socketRef)) =
      some (false, true, none) := by
  decide

end HookState

end TorchInference
