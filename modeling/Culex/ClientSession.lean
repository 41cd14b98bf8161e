import Culex.Packets
import Mathlib.Data.List.AList

/-!
# Client sessions

`ClientSession` of `mqttsession.h`: the persistent state of a client, with its two inflight maps,
its queue of stored messages, and the generator of packet identifiers.  A `SessionRef` stands for a
pointer to such an object: the client id it was created for, which never changes, and the identity
of the object.
-/

namespace Culex

/-- A `weak_ptr<ClientSession>`. -/
structure SessionRef where
  clientId : Bytes
  obj : ℕ
  deriving DecidableEq

/-- A map from packet identifiers to packets. -/
abbrev Inflight := AList fun _ : UInt16 => Packet

/-- `unordered_map::insert`: an entry that is present stays. -/
def Inflight.insertNew (m : Inflight) (packetId : UInt16) (packet : Packet) : Inflight :=
  if packetId ∈ m then m else m.insert packetId packet

/-- The packet under a key, or a default packet. -/
def Inflight.find (m : Inflight) (packetId : UInt16) : Packet := (m.lookup packetId).getD {}

/-- The persistent state of a client. -/
structure ClientSession where
  keepAlive : UInt16 := 0
  cleansession : Bool := false
  connected : Bool := false
  /-- The transport, by its identity. -/
  session : Option ℕ := none
  expiryMs : ℤ := 0
  lastActivity : ℤ := 0
  inflight : Inflight := ∅
  inflightAck : Inflight := ∅
  messageQueue : List Packet := []
  nextPacketId : UInt16 := 1

namespace ClientSession

/-- The next packet identifier; 0 is skipped when the counter wraps. -/
def allocatePacketId (cs : ClientSession) : UInt16 × ClientSession :=
  let next := cs.nextPacketId + 1
  let next := if next = 0 then 1 else next
  (next, { cs with nextPacketId := next })

/-- Store a PUBLISH under its own packet identifier. -/
def storeInflight (cs : ClientSession) (packet : Packet) : Except Fault ClientSession :=
  match packet.pkt with
  | .publish pub => .ok { cs with inflight := cs.inflight.insertNew pub.packetId packet }
  | _ => .error .badVariant

/-- Store a PUBREL under its own packet identifier. -/
def storeInflightAcknowlegement (cs : ClientSession) (packet : Packet) :
    Except Fault ClientSession :=
  match packet.pkt with
  | .ack ack => .ok { cs with inflightAck := cs.inflightAck.insertNew ack.packetId packet }
  | _ => .error .badVariant

/-- Remove and return a packet; a default packet if there is none. -/
def removeFromInflight (cs : ClientSession) (packetId : UInt16) : Packet × ClientSession :=
  (cs.inflight.find packetId, { cs with inflight := cs.inflight.erase packetId })

def removeFromInflightAcknowlegement (cs : ClientSession) (packetId : UInt16) :
    Packet × ClientSession :=
  (cs.inflightAck.find packetId, { cs with inflightAck := cs.inflightAck.erase packetId })

/-- The stored packet of a type, without removing it; a default packet if there is none. -/
def getPacket (cs : ClientSession) (packetId : UInt16) (type : PacketType) : Packet :=
  if type = .publish then cs.inflight.find packetId else cs.inflightAck.find packetId

/-- Queue a message for an offline client. -/
def storeMessage (cs : ClientSession) (packet : Packet) : ClientSession :=
  { cs with messageQueue := cs.messageQueue ++ [packet] }

end ClientSession

/-! ### The inflight maps -/

namespace Inflight

variable {m : Inflight} {packetId : UInt16} {packet : Packet}

theorem lookup_insertNew (m : Inflight) (packetId : UInt16) (packet : Packet) (k : UInt16) :
    (m.insertNew packetId packet).lookup k =
      if k = packetId then some ((m.lookup packetId).getD packet) else m.lookup k := by
  unfold insertNew
  by_cases hm : packetId ∈ m
  · rw [if_pos hm]
    split_ifs with hk
    · obtain ⟨p, hp⟩ := Option.isSome_iff_exists.1 (AList.lookup_isSome.2 hm)
      rw [hk, hp, Option.getD_some]
    · rfl
  · rw [if_neg hm]
    split_ifs with hk
    · rw [hk, AList.lookup_insert, AList.lookup_eq_none.2 hm, Option.getD_none]
    · rw [AList.lookup_insert_ne hk]

theorem mem_insertNew (k : UInt16) : k ∈ m.insertNew packetId packet ↔ k = packetId ∨ k ∈ m := by
  rw [← AList.lookup_isSome, lookup_insertNew, ← AList.lookup_isSome]
  split_ifs with hk <;> simp [hk]

theorem find_of_lookup (h : m.lookup packetId = some packet) : m.find packetId = packet := by
  rw [find, h, Option.getD_some]

end Inflight

/-- An allocated identifier is never 0. -/
theorem ClientSession.allocatePacketId_ne_zero (cs : ClientSession) :
    cs.allocatePacketId.1 ≠ 0 := by
  simp only [allocatePacketId]
  split_ifs with h
  · decide
  · exact h

end Culex
