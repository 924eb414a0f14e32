import TorchInference.ArrayQueue

/-!
# Bounded channels with one sender and one receiver

A sender waits while the buffer is full.  A receiver waits while the buffer is
empty, until the sender is dropped: then the channel has ended.  The messages
received, buffered and still to be sent are together the stream the sender
started with, so a receiver that sees the end has received all of it.
-/

structure BoundedChannel (α : Type*) where
  buffer : ArrayQueue α
  senderDropped : Bool

namespace BoundedChannel

variable {α : Type*}

/-- What a receiver finds. -/
inductive Received (α : Type*) where
  | message (item : α) (rest : BoundedChannel α)
  | ended
  | waiting

/-- A channel without messages. -/
def withCapacity (capacity : Nat) : BoundedChannel α :=
  ⟨ArrayQueue.empty capacity, false⟩

/-- Send a message, if there is room for it. -/
def send (channel : BoundedChannel α) (item : α) : Option (BoundedChannel α) :=
  if channel.buffer.items.length < channel.buffer.capacity then
    some { channel with buffer := channel.buffer.push item }
  else none

def dropSender (channel : BoundedChannel α) : BoundedChannel α :=
  { channel with senderDropped := true }

def recv (channel : BoundedChannel α) : Received α :=
  match channel.buffer.pop with
  | (some item, buffer) => .message item { channel with buffer := buffer }
  | (none, _) => if channel.senderDropped then .ended else .waiting

theorem send_eq_some {channel after : BoundedChannel α} {item : α}
    (sent : channel.send item = some after) :
    after.buffer.items = channel.buffer.items ++ [item] ∧
      after.buffer.capacity = channel.buffer.capacity ∧
      after.senderDropped = channel.senderDropped := by
  unfold send at sent
  split_ifs at sent with room
  obtain rfl := Option.some.inj sent
  exact ⟨ArrayQueue.push_items_of_room room item,
    ArrayQueue.push_capacity channel.buffer item, rfl⟩

theorem recv_eq_message {channel after : BoundedChannel α} {item : α}
    (received : channel.recv = .message item after) :
    channel.buffer.items = item :: after.buffer.items ∧
      after.buffer.capacity = channel.buffer.capacity ∧
      after.senderDropped = channel.senderDropped := by
  obtain ⟨⟨capacity, items, bounded⟩, senderDropped⟩ := channel
  cases items with
  | nil =>
      cases senderDropped <;> simp [recv, ArrayQueue.pop] at received
  | cons first rest =>
      simp only [recv, ArrayQueue.pop, Received.message.injEq] at received
      obtain ⟨rfl, rfl⟩ := received
      exact ⟨rfl, rfl, rfl⟩

theorem recv_eq_ended {channel : BoundedChannel α}
    (received : channel.recv = .ended) :
    channel.buffer.items = [] ∧ channel.senderDropped = true := by
  obtain ⟨⟨capacity, items, bounded⟩, senderDropped⟩ := channel
  cases items with
  | nil => cases senderDropped <;> simp [recv, ArrayQueue.pop] at received ⊢
  | cons first rest => simp [recv, ArrayQueue.pop] at received

theorem recv_eq_waiting {channel : BoundedChannel α}
    (received : channel.recv = .waiting) :
    channel.buffer.items = [] ∧ channel.senderDropped = false := by
  obtain ⟨⟨capacity, items, bounded⟩, senderDropped⟩ := channel
  cases items with
  | nil => cases senderDropped <;> simp [recv, ArrayQueue.pop] at received ⊢
  | cons first rest => simp [recv, ArrayQueue.pop] at received

/-- A channel of positive capacity has room for a message, or a message. -/
theorem send_or_recv {channel : BoundedChannel α}
    (positive : 0 < channel.buffer.capacity) (item : α) :
    (∃ after, channel.send item = some after) ∨
      ∃ first after, channel.recv = .message first after := by
  by_cases room : channel.buffer.items.length < channel.buffer.capacity
  · left
    exact ⟨_, if_pos room⟩
  · right
    cases received : channel.recv with
    | message first after => exact ⟨first, after, rfl⟩
    | ended =>
        rw [(recv_eq_ended received).1] at room
        exact absurd positive room
    | waiting =>
        rw [(recv_eq_waiting received).1] at room
        exact absurd positive room

/-- A stream in transit: what the receiver has, the channel, and what the
sender still has to send. -/
structure Transit (stream received : List α) (channel : BoundedChannel α)
    (pending : List α) : Prop where
  conserved : received ++ channel.buffer.items ++ pending = stream
  sentAll : channel.senderDropped = true → pending = []

namespace Transit

variable {stream received pending : List α} {channel after : BoundedChannel α}
  {item : α}

theorem start (stream : List α) (capacity : Nat) :
    Transit stream [] (withCapacity capacity) stream :=
  ⟨rfl, fun dropped => by cases dropped⟩

theorem send (transit : Transit stream received channel (item :: pending))
    (sent : channel.send item = some after) :
    Transit stream received after pending := by
  obtain ⟨items, _, senderDropped⟩ := send_eq_some sent
  constructor
  · rw [items, ← transit.conserved]
    simp
  · rw [senderDropped]
    intro dropped
    cases transit.sentAll dropped

/-- A sender that has nothing left to send may add to the stream. -/
theorem produce (transit : Transit stream received channel [])
    (working : channel.senderDropped = false) (item : α) :
    Transit (stream ++ [item]) received channel [item] := by
  constructor
  · rw [← transit.conserved, List.append_nil]
  · rw [working]
    exact fun dropped => by cases dropped

theorem dropSender (transit : Transit stream received channel []) :
    Transit stream received channel.dropSender [] :=
  ⟨transit.conserved, fun _ => rfl⟩

theorem recv (transit : Transit stream received channel pending)
    (arrived : channel.recv = .message item after) :
    Transit stream (received ++ [item]) after pending := by
  obtain ⟨items, _, senderDropped⟩ := recv_eq_message arrived
  constructor
  · rw [← transit.conserved, items]
    simp
  · rw [senderDropped]
    exact transit.sentAll

theorem received_prefix (transit : Transit stream received channel pending) :
    received <+: stream := by
  rw [← transit.conserved, List.append_assoc]
  exact List.prefix_append _ _

/-- At the end of the channel the whole stream has been received. -/
theorem received_eq (transit : Transit stream received channel pending)
    (ended : channel.recv = .ended) : received = stream := by
  obtain ⟨items, dropped⟩ := recv_eq_ended ended
  rw [← transit.conserved, items, transit.sentAll dropped, List.append_nil,
    List.append_nil]

end Transit

end BoundedChannel

/-!
# Watch channels

A watch channel keeps the latest value only.  Each value has a version, and a
receiver remembers the version it has seen last.  Sending fails, and leaves the
old value, while nobody holds a receiver.  A receiver that has missed a value
is told so even when the sender is gone; only afterwards the channel reads as
closed.
-/

structure WatchChannel (α : Type*) where
  value : α
  version : Nat
  deriving DecidableEq

namespace WatchChannel

variable {α : Type*}

/-- What a receiver that waits for a change finds. -/
inductive Change where
  | changed
  | closed
  | waiting
  deriving DecidableEq

/-- A channel with its first value. -/
def opened (value : α) : WatchChannel α :=
  ⟨value, 0⟩

def send (channel : WatchChannel α) (listening : Bool) (value : α) :
    WatchChannel α :=
  if listening then ⟨value, channel.version + 1⟩ else channel

def poll (channel : WatchChannel α) (seen : Nat) (senderDropped : Bool) :
    Change :=
  if channel.version ≠ seen then .changed
  else if senderDropped then .closed
  else .waiting

/-- A value sent to a listener is the latest one. -/
@[simp]
theorem send_listening (channel : WatchChannel α) (value : α) :
    channel.send true value = ⟨value, channel.version + 1⟩ :=
  rfl

theorem poll_of_ne {channel : WatchChannel α} {seen : Nat}
    (missed : channel.version ≠ seen) (senderDropped : Bool) :
    channel.poll seen senderDropped = .changed := by
  simp [poll, missed]

theorem poll_eq_closed {channel : WatchChannel α} {seen : Nat}
    {senderDropped : Bool}
    (closed : channel.poll seen senderDropped = .closed) :
    channel.version = seen ∧ senderDropped = true := by
  unfold poll at closed
  split at closed
  case isTrue => cases closed
  case isFalse same =>
    split at closed
    case isTrue dropped => exact ⟨not_ne_iff.mp same, dropped⟩
    case isFalse => cases closed

end WatchChannel
