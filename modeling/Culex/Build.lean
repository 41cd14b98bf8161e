import Culex.Core

/-!
# Building packets

The "additional utility functions" of `packethandlers.cpp`: the bytes the broker sends.  A builder
returns the output buffer it started from with the packet appended.
-/

namespace Culex

variable (core : Core)

/-- Serialize a PUBLISH.  The packet identifier handed in is not used. -/
def buildPublish (publisher : Packet) (_packetId : UInt16) (buff : Bytes) : Except Fault Bytes :=
  match publisher.pkt with
  | .publish pub =>
    let header := publisher.header
    let buff := buff ++ [header.pack]
    let remainingLen := toInt (2 + pub.topic.length + pub.payload.length)
    let remainingLen := if 0 < publisher.header.qos then remainingLen + 2 else remainingLen
    let (_, b) := encodeLength remainingLen []
    let buff := buff ++ b
    let buff := core.packU16 buff (UInt16.ofNat pub.topic.length)
    let strBuff := core.packString16 [] pub.topic
    let buff := buff ++ strBuff
    let buff := if 0 < publisher.header.qos then core.packU16 buff 0 else buff
    .ok (buff ++ pub.payload)
  | _ => .error .badVariant

/-- Serialize an acknowledgment, and the packet it stands for.  `ack.pack()` is pushed into a byte
vector, which keeps its low byte. -/
def packAck (ack : Ack) (type : PacketType) (buff : Bytes) : Bytes × Packet :=
  let header : Header := { type }
  let buff :=
    if type = .pubrel then buff ++ [(UInt8.ofNat header.type.code <<< 4) &&& 0xF2]
    else buff ++ [header.pack]
  let remainingLen : UInt8 := 2
  let buff := buff ++ [remainingLen]
  let buff := buff ++ [ack.pack.toUInt8]
  (buff, { header, pkt := .ack ack, pktLen := 2 + remainingLen.toNat })

def buildAck (packetId : UInt16) (type : PacketType) (buff : Bytes) : Bytes × Packet :=
  packAck { packetId } type buff

/-- Serialize a SUBACK; the first byte is the type itself. -/
def packSuback (suback : Suback) (buff : Bytes) : Bytes :=
  let header : Header := { type := .suback }
  let buff := buff ++ [UInt8.ofNat header.type.code]
  let remainingLen := toInt (2 + suback.returnCodes.length)
  let (_, b) := encodeLength remainingLen []
  let buff := buff ++ b
  let buff := core.packU16 buff suback.packetId
  buff ++ suback.returnCodes

def buildSuback (packetId : UInt16) (returnCodes buff : Bytes) : Bytes :=
  packSuback core { packetId, returnCodes } buff

end Culex
