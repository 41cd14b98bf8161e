import Culex.Packets

/-!
# The wire format

MQTT 3.1.1 packets as byte strings, stated apart from the decoder: the body of each packet type a
client sends, the Remaining Length field, and the frame made of header byte, length and body.
`WellFormed` packets are the ones whose fields their frame can carry.
-/

namespace Culex.Wire

open ByteReader

/-- A string field that is present only if its flag is set. -/
def optional (flag : Bool) (s : Bytes) : Bytes := if flag then str16 s else []

/-- An optional field can be sent: short enough where present, empty where absent. -/
def Sendable (flag : Bool) (s : Bytes) : Prop := if flag then s.length < 65536 else s = []

instance (flag : Bool) (s : Bytes) : Decidable (Sendable flag s) :=
  inferInstanceAs (Decidable (if flag then s.length < 65536 else s = []))

/-- `"MQTT"` behind its length. -/
def protocolName : Bytes := [0, 4, 77, 81, 84, 84]

/-- The fields of CONNECT after the protocol name; `flags` is the connect flags byte. -/
def connectFields (flags : UInt8) (cn : Connect) : Bytes :=
  cn.level :: flags :: (be16 cn.keepAlive ++ (str16 cn.clientId ++
    (optional cn.cf.will cn.willTopic ++ (optional cn.cf.will cn.willMsg ++
      (optional cn.cf.username cn.username ++ optional cn.cf.passwd cn.passwd)))))

/-- The CONNECT fields fit their length prefixes, and absent ones are empty. -/
structure ConnectSendable (cn : Connect) : Prop where
  clientId : cn.clientId.length < 65536
  willTopic : Sendable cn.cf.will cn.willTopic
  willMsg : Sendable cn.cf.will cn.willMsg
  username : Sendable cn.cf.username cn.username
  passwd : Sendable cn.cf.passwd cn.passwd

/-- `l` spells the CONNECT fields `cn`; the flags byte is free in its reserved bit. -/
def IsConnectFields (cn : Connect) (l : Bytes) : Prop :=
  ConnectSendable cn ∧ ∃ flags, ConnectFlags.unpack flags = cn.cf ∧ l = connectFields flags cn

/-- The body of PUBLISH; the identifier is present unless the QoS is 0. -/
def publishBody (qos : UInt8) (pub : Publish) : Bytes :=
  str16 pub.topic ++ ((if 0 < qos then be16 pub.packetId else []) ++ pub.payload)

/-- An entry of a SUBSCRIBE payload. -/
def tuple (t : Tuple) : Bytes := str16 t.topic ++ [t.qos]

/-- The body of SUBSCRIBE. -/
def subscribeBody (sub : Subscribe) : Bytes := be16 sub.packetId ++ sub.payload.flatMap tuple

/-- The body of UNSUBSCRIBE. -/
def unsubscribeBody (unsub : Unsubscribe) : Bytes :=
  be16 unsub.packetId ++ unsub.topics.flatMap str16

/-- The Remaining Length field: base 128, least significant digit first, every digit but the last
with its high bit set. -/
def remainingLength (n : ℕ) : Bytes :=
  if n < 128 then [UInt8.ofNat n] else UInt8.ofNat (n % 128 + 128) :: remainingLength (n / 128)

/-- The body of a packet a client can send. -/
def body (p : Packet) : Bytes :=
  match p.pkt with
  | .connect cn => protocolName ++ connectFields cn.cf.pack cn
  | .publish pub => publishBody p.header.qos pub
  | .ack ack => be16 ack.packetId
  | .subscribe sub => subscribeBody sub
  | .unsubscribe unsub => unsubscribeBody unsub
  | .connack _ => []

/-- The bytes of a packet. -/
def frame (p : Packet) : Bytes :=
  p.header.pack :: (remainingLength (body p).length ++ body p)

/-- The flags nibble and the fields that each packet type allows. -/
def VariantOk (h : Header) : Packet.Variant → Prop
  | .connect cn => h = { type := .connect } ∧ cn.cf.willQos < 4 ∧ ConnectSendable cn
  | .publish pub => h.type = .publish ∧ h.qos < 3 ∧ pub.topic.length < 65536 ∧
      (h.qos = 0 → pub.packetId = 0)
  | .ack _ => h = { type := .puback } ∨ h = { type := .pubrec } ∨
      h = { type := .pubrel, qos := 1 } ∨ h = { type := .pubcomp }
  | .subscribe sub => h = { type := .subscribe, qos := 1 } ∧
      ∀ t ∈ sub.payload, t.topic.length < 65536
  | .unsubscribe unsub => h = { type := .unsubscribe, qos := 1 } ∧
      ∀ t ∈ unsub.topics, t.length < 65536
  | .connack _ => False

/-- A packet a client can send in a frame whose Remaining Length takes at most three bytes. -/
structure WellFormed (p : Packet) : Prop where
  variant : VariantOk p.header p.pkt
  length_le : (body p).length ≤ 2097151
  pktLen : p.pktLen = (frame p).length

/-! ### Lengths -/

theorem length_optional (flag : Bool) (s : Bytes) :
    (optional flag s).length = if flag then 2 + s.length else 0 := by
  cases flag <;> simp [optional]

theorem Sendable.length_le {flag : Bool} {s : Bytes} (h : Sendable flag s) :
    (optional flag s).length ≤ 65537 := by
  rw [length_optional]
  cases flag with
  | false => simp
  | true =>
    have : s.length < 65536 := h
    simp only [if_true]
    omega

theorem length_connectFields_le {cn : Connect} {l : Bytes} (h : IsConnectFields cn l) :
    l.length ≤ 327700 := by
  obtain ⟨hs, flags, -, rfl⟩ := h
  have := hs.clientId
  have := hs.willTopic.length_le
  have := hs.willMsg.length_le
  have := hs.username.length_le
  have := hs.passwd.length_le
  simp only [connectFields, List.length_cons, List.length_append, length_be16, length_str16]
  omega

@[simp] theorem length_tuple (t : Tuple) : (tuple t).length = 3 + t.topic.length := by
  simp [tuple]
  omega

theorem remainingLength_of_lt {n : ℕ} (h : n < 128) : remainingLength n = [UInt8.ofNat n] := by
  rw [remainingLength, if_pos h]

theorem remainingLength_of_le {n : ℕ} (h : 128 ≤ n) :
    remainingLength n = UInt8.ofNat (n % 128 + 128) :: remainingLength (n / 128) := by
  rw [remainingLength, if_neg (by omega)]

end Culex.Wire
