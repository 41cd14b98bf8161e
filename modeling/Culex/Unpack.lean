import Culex.Core

/-!
# The decoder

`unpack.cpp`: the jump table of unpackers behind `unpack`.  An unpacker starts with the cursor just
after the header byte, asks `isPartial` for the Remaining Length, and then takes the fields of its
packet type from the cursor.  It returns the code together with the packet as it left it.

Reaching the end of the address space is the only way a cursor read fails: nothing stops a reader at
`availableBytes` or at the end of the frame.
-/

namespace Culex

open ByteReader

/-- Whether the packet is incomplete, and the Remaining Length where it could be decoded. -/
def isPartial (availableBytes : ℕ) : Decoder (Bool × ℤ) := do
  let start ← cursor
  if availableBytes ≤ 1 then
    return (true, 0)
  else
    let len ← decodeLength availableBytes
    let remainingLen := toInt len.toNat
    if remainingLen < 0 then
      return (true, remainingLen)
    else
      let buff ← cursor
      let lengthOfRemainingLen := buff - start
      if (availableBytes : ℤ) < 1 + lengthOfRemainingLen + remainingLen then
        return (true, remainingLen)
      else
        return (false, remainingLen)

/-- `sizeof(uint8_t) + length_of_remaining_len + remaining_len`. -/
def packetLen (lengthOfRemainingLen : ℕ) (remainingLen : ℤ) : ℕ :=
  (1 + lengthOfRemainingLen + remainingLen).toNat

/-- What every unpacker starts with: unless the packet is incomplete, `fields` is run on the
Remaining Length and on the packet with its total length set. -/
def framed (packet : Packet) (availableBytes : ℕ) (fields : ℤ → Packet → Decoder (ℤ × Packet)) :
    Decoder (ℤ × Packet) := do
  let start ← cursor
  let (partialPacket, remainingLen) ← isPartial availableBytes
  if partialPacket then
    return (mqttPartialPacket, packet)
  else
    let buff ← cursor
    let lengthOfRemainingLen := buff - start
    fields remainingLen { packet with pktLen := packetLen lengthOfRemainingLen remainingLen }

section Unpackers

variable (core : Core)

/-- A string that is read only if a flag announces it. -/
def unpackIf (flag : Bool) : Decoder Bytes := if flag then core.unpackString16 else return []

/-- The fields of CONNECT after the protocol name. -/
def unpackConnectFields : Decoder Connect := do
  let level ← core.unpackU8
  let byte ← core.unpackU8
  let cf := ConnectFlags.unpack byte
  let keepAlive ← core.unpackU16
  let clientId ← core.unpackString16
  let willTopic ← unpackIf core cf.will
  let willMsg ← unpackIf core cf.will
  let username ← unpackIf core cf.username
  let passwd ← unpackIf core cf.passwd
  return { level, cf, keepAlive, clientId, willTopic, willMsg, username, passwd }

/-- `"MQTT"`. -/
def protocolName : Bytes := [77, 81, 84, 84]

def unpackConnect (_header : Header) (packet : Packet) (availableBytes : ℕ) :
    Decoder (ℤ × Packet) :=
  framed packet availableBytes fun _ packet => do
    let name ← core.unpackString16
    if name ≠ protocolName then
      return (-mqttErr, packet)
    else
      let cn ← unpackConnectFields core
      return (mqttOk, { packet with pkt := .connect cn })

/-- The identifier of a PUBLISH with QoS above 0, and what it takes off the payload size. -/
def unpackPublishId (qos : UInt8) (payloadSize : ℤ) : Decoder (UInt16 × ℤ) :=
  if 0 < qos then do
    let packetId ← core.unpackU16
    return (packetId, payloadSize - 2)
  else
    return (0, payloadSize)

/-- `payload.resize(payload_size)` and the `memcpy` into it; `resize` throws on a negative size. -/
def unpackPayload (payloadSize : ℤ) : Decoder Bytes :=
  if payloadSize < 0 then fail .lengthError else bytes .wildPointer payloadSize.toNat

def unpackPublish (_header : Header) (packet : Packet) (availableBytes : ℕ) :
    Decoder (ℤ × Packet) :=
  framed packet availableBytes fun remainingLen packet => do
    let topic ← core.unpackString16
    let payloadSize := remainingLen - (topic.length + 2)
    let (packetId, payloadSize) ← unpackPublishId core packet.header.qos payloadSize
    let payload ← unpackPayload payloadSize
    return (mqttOk, { packet with pkt := .publish { topic, packetId, payload } })

def unpackAck (_header : Header) (packet : Packet) (availableBytes : ℕ) :
    Decoder (ℤ × Packet) :=
  framed packet availableBytes fun _ packet => do
    let packetId ← core.unpackU16
    return (mqttOk, { packet with pkt := .ack { packetId } })

/-- `while (payload_len > 0)`: each round takes at least the three bytes of an empty entry off
`payload_len`, so it runs at most `payload_len` times. -/
def unpackTuples : ℕ → ℤ → Decoder (List Tuple)
  | 0, _ => return []
  | rounds + 1, payloadLen =>
    if 0 < payloadLen then do
      let topic ← core.unpackString16
      let qos ← core.unpackU8
      let rest ← unpackTuples rounds (payloadLen - (2 + topic.length + 1))
      return ⟨topic, qos⟩ :: rest
    else
      return []

def unpackSubscribe (_header : Header) (packet : Packet) (availableBytes : ℕ) :
    Decoder (ℤ × Packet) :=
  framed packet availableBytes fun remainingLen packet => do
    let packetId ← core.unpackU16
    let payloadLen := remainingLen - 2
    let payload ← unpackTuples core payloadLen.toNat payloadLen
    return (mqttOk, { packet with pkt := .subscribe { packetId, payload } })

/-- `while (payload_len)` on a `size_t`: a length that is overshot wraps and the loop goes on.  Each
round advances the cursor, so the address space ends before the rounds do. -/
def unpackTopics : ℕ → UInt64 → Decoder (List Bytes)
  | 0, _ => fail .wildPointer
  | rounds + 1, payloadLen =>
    if payloadLen ≠ 0 then do
      let topic ← core.unpackString16
      let rest ← unpackTopics rounds (payloadLen - UInt64.ofNat (2 + topic.length))
      return topic :: rest
    else
      return []

/-- The flags are checked before the length of the packet is set. -/
def unpackUnsubscribe (header : Header) (packet : Packet) (availableBytes : ℕ) :
    Decoder (ℤ × Packet) :=
  framed packet availableBytes fun remainingLen packet' =>
    if header.pack &&& 0x02 ≠ 0x02 then
      return (-mqttErr, packet)
    else do
      let packetId ← core.unpackU16
      let topics ← unpackTopics core addressSpace (UInt64.ofInt (remainingLen - 2))
      return (mqttOk, { packet' with pkt := .unsubscribe { packetId, topics } })

/-- The jump table; `none` is a null entry. -/
def unpackHandlers : List (Option (Header → Packet → ℕ → Decoder (ℤ × Packet))) :=
  [none, some (unpackConnect core), none, some (unpackPublish core), some (unpackAck core),
    some (unpackAck core), some (unpackAck core), some (unpackAck core),
    some (unpackSubscribe core), none, some (unpackUnsubscribe core)]

/-- Deserialize the packet at the cursor: the return code and the packet. -/
def unpack (availableBytes : ℕ) : Decoder (ℤ × Packet) := do
  let byte ← core.unpackU8
  let pkt : Packet := { header := Header.unpack byte }
  match (unpackHandlers core)[pkt.header.type.code]? with
  | none => fail .tableIndex
  | some (some handler) => handler pkt.header pkt availableBytes
  | some none => return (-mqttErr, pkt)

end Unpackers

end Culex
