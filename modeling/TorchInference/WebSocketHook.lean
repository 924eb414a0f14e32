import Mathlib.Algebra.BigOperators.Group.List.Basic
import TorchInference.TransitionRuns

/-!
# The WebSocket hook

`useWebSocketStream` opens a socket in an effect, reconnects after an unexpected
close, and tears the socket down when its options change.  Its state lies in
React state, in refs, and in the handlers of the sockets it has opened.
-/

namespace TorchInference

inductive BinaryType where
  | arraybuffer
  | blob
  deriving DecidableEq

/-- The path and the options that the effect depends on.  There is no limit of
the attempts where it is infinite, and `protocols` is told apart by identity. -/
structure HookOptions where
  path : String
  enabled : Bool
  reconnect : Bool
  baseDelayMs : Nat
  maxDelayMs : Nat
  maxReconnectAttempts : Option Nat
  binaryType : BinaryType
  protocols : Option Nat
  deriving DecidableEq

inductive ReadyState where
  | connecting
  | isOpen
  | closing
  | closed
  deriving DecidableEq

structure PageLocation where
  secure : Bool
  host : String

def resolveWsUrl (location : PageLocation) (path : String) : String :=
  if "ws://".toList.isPrefixOf (path.toList.map Char.toLower) ||
      "wss://".toList.isPrefixOf (path.toList.map Char.toLower) then path
  else
    let proto := if location.secure then "wss" else "ws"
    let suffix := if ['/'].isPrefixOf path.toList then path else "/" ++ path
    proto ++ "://" ++ location.host ++ suffix

/-- A socket that the hook has opened.  Its handlers belong to the effect with
these options until they are detached. -/
structure HookSocket where
  url : String
  protocols : Option Nat
  binaryType : BinaryType
  readyState : ReadyState
  handlers : Option HookOptions
  sent : List String
  /-- An `open` event has come. -/
  opened : Bool
  /-- The hook has called `close`. -/
  closedByHook : Bool
  deriving DecidableEq

namespace HookSocket

/-- A socket that is neither closed nor given up. -/
def isLive (socket : HookSocket) : Bool :=
  socket.readyState != .closed && !socket.closedByHook

def close (socket : HookSocket) : HookSocket :=
  { socket with
    readyState := if socket.readyState = .closed then .closed else .closing
    closedByHook := true }

def detach (socket : HookSocket) : HookSocket :=
  { socket with handlers := none }

end HookSocket

/-- A timer of the backoff; it will connect with the options of its effect. -/
structure HookTimer where
  id : Nat
  delayMs : Nat
  options : HookOptions
  deriving DecidableEq

/-- A frame that comes in; a text has been parsed or not. -/
inductive HookFrame (Data : Type) where
  | text (parsed : Option Data)
  | binary

structure HookState (Data : Type) where
  mounted : Bool
  /-- Those of the last render. -/
  options : HookOptions
  data : Option Data
  connected : Bool
  error : Option String
  reconnectAttempt : Nat
  socketRef : Option Nat
  timeoutRef : Option Nat
  attemptRef : Nat
  stoppedRef : Bool
  /-- All sockets opened so far. -/
  sockets : List HookSocket
  /-- The timers that are set. -/
  timers : List HookTimer
  nextTimer : Nat

inductive HookEvent (Data : Type) where
  | render (options : HookOptions)
  | socketOpen (socket : Nat)
  | socketMessage (socket : Nat) (frame : HookFrame Data)
  | socketError (socket : Nat)
  | socketClose (socket : Nat)
  | timerFires (id : Nat)
  | send (frame : String)
  | hookClose
  | unmount

namespace HookState

variable {Data : Type} (location : PageLocation)

/-! ## The effect -/

def connect (options : HookOptions) (state : HookState Data) :
    HookState Data :=
  { state with
    sockets := state.sockets ++
      [{ url := resolveWsUrl location options.path
         protocols := options.protocols
         binaryType := options.binaryType
         readyState := .connecting
         handlers := some options
         sent := []
         opened := false
         closedByHook := false }]
    socketRef := some state.sockets.length }

def clearTimer (state : HookState Data) : HookState Data :=
  match state.timeoutRef with
  | none => state
  | some id =>
      { state with
        timers := state.timers.filter fun timer => timer.id != id
        timeoutRef := none }

/-- The cleanup of an effect. -/
def cleanup (state : HookState Data) : HookState Data :=
  let state := clearTimer { state with stoppedRef := true }
  match state.socketRef with
  | none => state
  | some socket =>
      { state with
        socketRef := none
        sockets := state.sockets.modify socket fun socket =>
          socket.detach.close }

def runEffect (options : HookOptions) (state : HookState Data) :
    HookState Data :=
  if options.enabled then
    connect location options { state with stoppedRef := false }
  else state

/-- The effect of the last render ends; it has a cleanup where it is enabled. -/
def tearDown (state : HookState Data) : HookState Data :=
  if state.options.enabled then state.cleanup else state

/-- The hook after its first render. -/
def mount (options : HookOptions) : HookState Data :=
  runEffect location options
    { mounted := true
      options := options
      data := none
      connected := false
      error := none
      reconnectAttempt := 0
      socketRef := none
      timeoutRef := none
      attemptRef := 0
      stoppedRef := false
      sockets := []
      timers := []
      nextTimer := 1 }

/-! ## The handlers -/

def onopen (state : HookState Data) : HookState Data :=
  { state with
    attemptRef := 0
    connected := true
    error := none
    reconnectAttempt := 0 }

def onmessage (frame : HookFrame Data) (state : HookState Data) :
    HookState Data :=
  match frame with
  | .text (some parsed) => { state with data := some parsed, error := none }
  | .text none => { state with
      error := some "failed to parse websocket payload" }
  | .binary => state

def onerror (state : HookState Data) : HookState Data :=
  { state with error := some "connection error" }

def onclose (options : HookOptions) (state : HookState Data) :
    HookState Data :=
  let state := { state with connected := false, socketRef := none }
  if state.stoppedRef || !options.reconnect then state
  else if options.maxReconnectAttempts.any (· ≤ state.attemptRef) then
    { state with error := some "max reconnect attempts reached" }
  else
    let attempt := state.attemptRef + 1
    { state with
      attemptRef := attempt
      reconnectAttempt := attempt
      timers := state.timers ++
        [⟨state.nextTimer,
          min (options.baseDelayMs * 2 ^ (attempt - 1)) options.maxDelayMs,
          options⟩]
      timeoutRef := some state.nextTimer
      nextTimer := state.nextTimer + 1 }

/-- An event of a socket that may come in some of its states, with the change of
the socket and the handler that runs if it is attached. -/
def fire (allowed : ReadyState → Bool) (change : HookSocket → HookSocket)
    (handler : HookOptions → HookState Data → HookState Data) (i : Nat)
    (state : HookState Data) : Option (HookState Data) :=
  match state.sockets[i]? with
  | none => none
  | some socket =>
      if allowed socket.readyState then
        let changed := { state with
          sockets := state.sockets.modify i change }
        match socket.handlers with
        | none => some changed
        | some options => some (handler options changed)
      else none

/-! ## Steps -/

/-- One event; none where it cannot come. -/
def step (state : HookState Data) : HookEvent Data → Option (HookState Data)
  | .render options =>
      if state.mounted then
        if options = state.options then some state
        else
          some (runEffect location options
            { state.tearDown with options := options })
      else none
  | .socketOpen i =>
      fire (· == .connecting)
        (fun socket => { socket with readyState := .isOpen, opened := true })
        (fun _ => onopen) i state
  | .socketMessage i frame =>
      fire (· == .isOpen) id (fun _ => onmessage frame) i state
  | .socketError i => fire (· != .closed) id (fun _ => onerror) i state
  | .socketClose i =>
      fire (· != .closed) (fun socket => { socket with readyState := .closed })
        onclose i state
  | .timerFires id =>
      match state.timers.find? (·.id == id) with
      | none => none
      | some timer =>
          some (connect location timer.options
            { state with
              timers := state.timers.filter fun timer => timer.id != id })
  | .send frame =>
      match state.socketRef with
      | none => some state
      | some i =>
          some { state with
            sockets := state.sockets.modify i fun socket =>
              if socket.readyState = .isOpen then
                { socket with sent := socket.sent ++ [frame] }
              else socket }
  | .hookClose =>
      let stopped := clearTimer { state with stoppedRef := true }
      match stopped.socketRef with
      | none => some stopped
      | some i =>
          some { stopped with
            sockets := stopped.sockets.modify i HookSocket.close }
  | .unmount =>
      if state.mounted then some { state.tearDown with mounted := false }
      else none

end HookState

end TorchInference
