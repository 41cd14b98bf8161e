import Culex.PacketHandlers
import Culex.Lib.Run

/-!
# The broker

The events of the server loop and the states they lead to.  A connection is accepted, bytes arrive
on it and queue a parse task, tasks run in any order, connections are closed, the clock advances,
and the two periodic functions run.  `Reachable` are the states of all such runs.
-/

namespace Culex

open ByteReader

/-- What happens to the broker. -/
inductive Event
  | newConnection (fd : ℕ)
  | receive (transport : ℕ) (data : Bytes)
  | parseData (transport : ℕ) (beyond : Mem)
  | closeConnection (fd : ℕ)
  | processExpiredSessions
  | processRetransmissions
  | tick (elapsed : ℕ)

variable (p : Platform)

/-- The effect of an event. -/
def Event.apply : Event → ManageSessions → Except Fault ManageSessions
  | .newConnection fd, ms => .ok (ms.addSession fd)
  | .receive id data, ms =>
    match ms.lockTransport (some id) with
    | none => .ok ms
    | some _ =>
      let ms := setTransport id (fun t => { t with recvBuff := t.recvBuff ++ data }) ms
      .ok { ms with tasks := ms.tasks ++ [id] }
  | .parseData id beyond, ms =>
    if id ∈ ms.tasks then
      (Culex.parseData p id beyond ms).map fun ms => { ms with tasks := ms.tasks.erase id }
    else .ok ms
  | .closeConnection fd, ms => .ok (ms.removeSession fd)
  | .processExpiredSessions, ms => ms.processExpiredSessions p
  | .processRetransmissions, ms => ms.processRetransmissions p
  | .tick elapsed, ms => .ok { ms with now := ms.now + elapsed }

/-- An event that does not end the broker, as a transition. -/
def BrokerStep (ms : ManageSessions) (e : Event) (ms' : ManageSessions) : Prop :=
  e.apply p ms = .ok ms'

/-- The states the broker reaches from its start. -/
def Reachable (ms : ManageSessions) : Prop := ∃ events, Run (BrokerStep p) {} events ms

variable {p}

theorem Reachable.init : Reachable p {} := ⟨[], .nil⟩

theorem Reachable.step {ms ms' : ManageSessions} (h : Reachable p ms) {e : Event}
    (hs : e.apply p ms = .ok ms') : Reachable p ms' := by
  obtain ⟨events, hrun⟩ := h
  exact ⟨events ++ [e], .snoc hrun hs⟩

/-- What holds at the start and is kept by every event holds of every reachable state. -/
theorem Reachable.invariant {ms : ManageSessions} {I : ManageSessions → Prop}
    (h : Reachable p ms) (hinit : I {})
    (hstep : ∀ ms e ms', I ms → Event.apply p e ms = .ok ms' → I ms') : I ms := by
  obtain ⟨events, hrun⟩ := h
  exact hrun.invariant hinit hstep

/-! ### Concrete runs -/

/-- A platform to run the broker on: heaps that sort, maps that are iterated as they are. -/
def Platform.sorting : Platform where
  toCore := .bigEndian
  traverse _ subs := subs
  traverse_perm _ _ := .refl _
  expiryOrder := .sorting _
  retransmitOrder := .sorting _

/-- The state after an event, or before it if it ends the broker. -/
def attempt (p : Platform) (ms : ManageSessions) (e : Event) : ManageSessions :=
  match e.apply p ms with
  | .ok ms' => ms'
  | .error _ => ms

/-- The state after some events. -/
def after (p : Platform) (events : List Event) : ManageSessions := events.foldl (attempt p) {}

theorem attempt_reachable {ms : ManageSessions} (h : Reachable p ms) (e : Event) :
    Reachable p (attempt p ms e) := by
  unfold attempt
  cases hs : e.apply p ms with
  | ok ms' => exact h.step hs
  | error _ => exact h

theorem after_reachable (p : Platform) (events : List Event) : Reachable p (after p events) := by
  unfold after
  induction events using List.reverseRecOn with
  | nil => exact .init
  | append_singleton events e ih =>
    rw [List.foldl_append]
    exact attempt_reachable ih e

/-- Bytes arrive and are parsed. -/
def arrive (transport : ℕ) (data : Bytes) : List Event :=
  [.receive transport data, .parseData transport fun _ => 0]

/-- The frame of a CONNECT with a client id of one byte. -/
def connectFrame (clientId flags : UInt8) : Bytes :=
  [0x10, 13, 0, 4] ++ protocolName ++ [4, flags, 0, 0, 0, 1, clientId]

/-- The frame of a CONNECT with a protocol level and a keep-alive time. -/
def connectFrameWith (level keepAlive clientId flags : UInt8) : Bytes :=
  [0x10, 13, 0, 4] ++ protocolName ++ [level, flags, 0, keepAlive, 0, 1, clientId]

/-- The frame of a SUBSCRIBE to a topic of one byte. -/
def subscribeFrame (topic qos : UInt8) : Bytes := [0x82, 6, 0, 1, 0, 1, topic, qos]

/-- The frame of a PUBLISH with a positive QoS to a topic of one byte, with one byte of payload. -/
def publishFrame (qos topic packetId payload : UInt8) : Bytes :=
  [(0x30 : UInt8) ||| qos <<< 1, 6, 0, 1, topic, 0, packetId, payload]

/-- A client `A` that has connected. -/
def oneClient : ManageSessions :=
  after .sorting (.newConnection 3 :: arrive 0 (connectFrame 65 2))

/-- A client `A` that has connected and subscribes to `t` with QoS 1. -/
def oneSubscriber : ManageSessions :=
  after .sorting (.newConnection 3 :: arrive 0 (connectFrame 65 2) ++
    arrive 0 (subscribeFrame 116 1))

/-- A message to `t` that its publisher calls 7. -/
def messageSeven : Publish := { topic := [116], packetId := 7, payload := [1] }

/-- Its PUBLISH with QoS 1. -/
def packetSeven : Packet where
  header := { type := .publish, qos := 1 }
  pktLen := 8
  pkt := .publish messageSeven

end Culex
