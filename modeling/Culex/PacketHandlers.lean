import Culex.ManageSessions
import Culex.Unpack

/-!
# Packet handlers

`packethandlers.cpp` and `MqttSession::parseData`.  A handler takes the packet and the transport it
came from, and returns the return code and its output buffer with the new state.  It is given the
transport by identity; whether the transport has a registered session is up to the handler.
-/

namespace Culex

open ByteReader ManageSessions

/-- What a handler returns. -/
structure Handled where
  state : ManageSessions
  returnCode : ℤ
  buff : Bytes := []

/-- A handler of a packet type. -/
abbrev PacketHandler := Packet → ℕ → ManageSessions → Except Fault Handled

namespace ManageSessions

/-- The registered session of a transport's client id, dereferenced. -/
def derefSession (ms : ManageSessions) (mqttSession : ℕ) :
    Except Fault (SessionRef × ClientSession) :=
  match ms.sessionRegistry.lookup (ms.getClientId mqttSession) with
  | some entry => .ok (⟨ms.getClientId mqttSession, entry.obj⟩, entry.state)
  | none => .error .nullSession

end ManageSessions

section Handlers

variable (p : Platform)

/-- Resend a stored packet, with its duplicate flag set. -/
def resendMessages (packet : Packet) (packetId : UInt16) (mqttSession : ℕ) (ms : ManageSessions) :
    Except Fault ManageSessions :=
  let pkt := { packet with header := { packet.header with dup := true } }
  match packet.header.type with
  | .publish => do
    let buff ← buildPublish p.toCore pkt packetId []
    return ms.pushDataToSend mqttSession buff
  | .pubrel =>
    let (buff, _) := buildAck packetId .pubrel []
    .ok (ms.pushDataToSend mqttSession buff)
  | _ => .ok ms

/-- Resend everything in an inflight map. -/
def resendAll (inflight : Inflight) (mqttSession : ℕ) (ms : ManageSessions) :
    Except Fault ManageSessions :=
  inflight.entries.foldlM (fun ms pair => resendMessages p pair.2 pair.1 mqttSession ms) ms

/-- Disconnect the client if it is connected. -/
def takeOver (session : SessionRef) (cs : ClientSession) (ms : ManageSessions) :
    ManageSessions × ClientSession :=
  if cs.connected then
    let ms :=
      match ms.lockTransport cs.session with
      | some oldSession => ms.forceDisconnect oldSession
      | none => ms
    let cs := { cs with connected := false }
    (ms.setSession session cs, cs)
  else (ms, cs)

/-- The session a CONNECT continues with, the flags of the CONNACK, and whether the session is new
and to be registered. -/
def connectSession (cn : Connect) (ms : ManageSessions) :
    Except Fault (ManageSessions × SessionRef × ClientSession × UInt8 × Bool) :=
  match ms.sessionRegistry.lookup cn.clientId with
  | some entry =>
    let session : SessionRef := ⟨cn.clientId, entry.obj⟩
    let (ms, cs) := takeOver session entry.state ms
    if cn.cf.cleansession then
      let ms := ms.removeFromRegistry cn.clientId
      .ok ({ ms with nextObj := ms.nextObj + 1 }, ⟨cn.clientId, ms.nextObj⟩, {}, 0x00, true)
    else
      match ms.lockTransport cs.session with
      | some oldSession => do
        let ms ← resendAll p cs.inflight oldSession ms
        let ms ← resendAll p cs.inflightAck oldSession ms
        return (ms, session, cs, 0x01, false)
      | none => .ok (ms, session, cs, 0x01, false)
  | none => .ok ({ ms with nextObj := ms.nextObj + 1 }, ⟨cn.clientId, ms.nextObj⟩, {}, 0x00, true)

/-- The bytes of a CONNACK; the two bytes of `pack()` are pushed as one. -/
def packConnack (connack : Connack) : Bytes :=
  let header : Header := { type := .connack }
  let (_, remainingLenBuff) := encodeLength 2 []
  [header.pack] ++ remainingLenBuff ++ [connack.pack.toUInt8]

def connectHandler : PacketHandler := fun pkt mqttSession ms =>
  match pkt.pkt with
  | .connect cn => do
    let (ms, session, cs, ackFlags, addToRegistry) ← connectSession p cn ms
    let cs := { cs with keepAlive := cn.keepAlive, cleansession := cn.cf.cleansession }
    if cn.level ≠ 0x04 then
      let ms := ms.setSession session { cs with connected := false }
      return { state := ms, returnCode := mqttUnacceptableProtocolVersion
               buff := packConnack { ackFlags, returnCode := 0x01 } }
    else
      let ms :=
        if addToRegistry then
          scheduleExpiry p session (ms.addToRegistry session
            { cs with connected := true, session := some mqttSession, lastActivity := ms.now })
        else ms.setSession session cs
      return { state := ms, returnCode := mqttConnectionAccepted
               buff := packConnack { ackFlags, returnCode := 0x00 } }
  | _ => .ok { state := ms, returnCode := -mqttErr }

def publishHandler : PacketHandler := fun pkt mqttSession ms =>
  match pkt.pkt with
  | .publish pub => do
    let ms := ms.updateActivity (ms.getClientId mqttSession)
    if pkt.header.qos = 0 then
      let (ms, _) ← routePacket p pkt none ms
      return { state := ms, returnCode := mqttOk }
    else if pkt.header.qos = 1 then
      let (ms, _) ← routePacket p pkt none ms
      let (buff, _) := buildAck pub.packetId .puback []
      return { state := ms.pushDataToSend mqttSession buff, returnCode := mqttOk, buff }
    else
      let (session, cs) ← ms.derefSession mqttSession
      -- a packet that is already inflight under this identifier stays
      let presentPacket := cs.getPacket pub.packetId .publish
      let cs ← if presentPacket.pktLen = 0 then cs.storeInflight pkt else .ok cs
      let ms := ms.setSession session cs
      let (buff, _) := buildAck pub.packetId .pubrec []
      return { state := ms.pushDataToSend mqttSession buff, returnCode := mqttOk, buff }
  | _ => .ok { state := ms, returnCode := -mqttErr }

def subscribeHandler : PacketHandler := fun pkt mqttSession ms =>
  match pkt.pkt with
  | .subscribe sub =>
    let ms := ms.updateActivity (ms.getClientId mqttSession)
    let ms := sub.payload.foldl (fun ms tuple =>
      if tuple.qos < 3 then ms.createSubscription tuple.topic tuple.qos (ms.getClientId mqttSession)
      else ms) ms
    let returnCodes := sub.payload.map fun tuple => if tuple.qos < 3 then tuple.qos else 0x80
    let buff := buildSuback p.toCore sub.packetId returnCodes []
    .ok { state := ms.pushDataToSend mqttSession buff, returnCode := mqttOk, buff }
  | _ => .ok { state := ms, returnCode := -mqttErr }

def pubackHandler : PacketHandler := fun pkt mqttSession ms =>
  match pkt.pkt with
  | .ack puback => do
    let ms := ms.updateActivity (ms.getClientId mqttSession)
    let (session, cs) ← ms.derefSession mqttSession
    let (_, cs) := cs.removeFromInflight puback.packetId
    return { state := ms.setSession session cs, returnCode := mqttOk }
  | _ => .ok { state := ms, returnCode := -mqttErr }

def pubrecHandler : PacketHandler := fun pkt mqttSession ms =>
  match pkt.pkt with
  | .ack pubrec => do
    let ms := ms.updateActivity (ms.getClientId mqttSession)
    let (session, cs) ← ms.derefSession mqttSession
    let (buff, pktPubrel) := buildAck pubrec.packetId .pubrel []
    let cs ← cs.storeInflightAcknowlegement pktPubrel
    let ms := ms.setSession session cs
    return { state := ms.pushDataToSend mqttSession buff, returnCode := mqttOk, buff }
  | _ => .ok { state := ms, returnCode := -mqttErr }

def pubrelHandler : PacketHandler := fun pkt mqttSession ms =>
  match pkt.pkt with
  | .ack pubrel => do
    let ms := ms.updateActivity (ms.getClientId mqttSession)
    let (session, cs) ← ms.derefSession mqttSession
    let (pubPkt, cs) := cs.removeFromInflight pubrel.packetId
    let ms := ms.setSession session cs
    let (ms, returnCode) ←
      if pubPkt.header.type = .publish then do
        let (ms, _) ← routePacket p pubPkt none ms
        pure (ms, mqttOk)
      else pure (ms, -mqttErr)
    let (buff, _) := buildAck pubrel.packetId .pubcomp []
    return { state := ms.pushDataToSend mqttSession buff, returnCode, buff }
  | _ => .ok { state := ms, returnCode := -mqttErr }

def pubcompHandler : PacketHandler := fun pkt mqttSession ms =>
  match pkt.pkt with
  | .ack pubcomp => do
    let ms := ms.updateActivity (ms.getClientId mqttSession)
    let (session, cs) ← ms.derefSession mqttSession
    let (_, cs) := cs.removeFromInflightAcknowlegement pubcomp.packetId
    return { state := ms.setSession session cs, returnCode := mqttOk }
  | _ => .ok { state := ms, returnCode := -mqttErr }

/-- The handler asks for an acknowledgment where it should ask for an UNSUBSCRIBE: on the former
`std::get` throws, and the latter is rejected. -/
def unsubscribeHandler : PacketHandler := fun pkt _ ms =>
  match pkt.pkt with
  | .ack _ => .error .badVariant
  | _ => .ok { state := ms, returnCode := -mqttErr }

/-- The reply has the type of the request. -/
def pingreqHandler : PacketHandler := fun _ mqttSession ms =>
  let ms := ms.updateActivity (ms.getClientId mqttSession)
  let header : Header := { type := .pingreq }
  let buff := [header.pack]
  .ok { state := ms.pushDataToSend mqttSession buff, returnCode := -mqttErr, buff }

def disconnectHandler : PacketHandler := fun _ _ ms => .ok { state := ms, returnCode := mqttOk }

/-- The jump table; `none` is a null entry. -/
def handlers : List (Option PacketHandler) :=
  [none, some (connectHandler p), none, some (publishHandler p), some pubackHandler,
    some pubrecHandler, some (pubrelHandler p), some pubcompHandler, some (subscribeHandler p), none,
    some unsubscribeHandler, none, some pingreqHandler, none, some disconnectHandler]

/-! ### Parsing received data -/

/-- Change a transport in place. -/
def setTransport (id : ℕ) (f : Transport → Transport) (ms : ManageSessions) : ManageSessions :=
  match ms.transports.lookup id with
  | some t => { ms with transports := ms.transports.insert id (f t) }
  | none => ms

/-- Call the handler of the packet's type. -/
def dispatch (pkt : Packet) (id : ℕ) (ms : ManageSessions) : Except Fault Handled :=
  match (handlers p)[pkt.header.type.code]? with
  | some (some handle) => handle pkt id ms
  | some none => .ok { state := ms, returnCode := mqttOk }
  | none => .error .tableIndex

/-- What `parseData` does with the handler's return code. -/
def finish (pkt : Packet) (id : ℕ) (h : Handled) : Except Fault ManageSessions :=
  if h.returnCode = mqttConnectionAccepted then
    match pkt.pkt with
    | .connect cn =>
      .ok ((setTransport id (fun t => { t with clientId := cn.clientId }) h.state).pushDataToSend
        id h.buff)
    | _ => .error .badVariant
  else if h.returnCode = mqttUnacceptableProtocolVersion then
    .ok ((h.state.pushDataToSend id h.buff).forceDisconnect id)
  else .ok h.state

/-- Unpack a packet from the receive buffer of a transport and handle it.  `beyond` is what lies in
memory behind the received bytes. -/
def parseData (id : ℕ) (beyond : Mem) (ms : ManageSessions) : Except Fault ManageSessions :=
  match ms.transports.lookup id with
  | none => .ok ms
  | some t => do
    let ((rc, pkt), _) ← unpack p.toCore t.recvBuff.length (holding t.recvBuff beyond) 0
    if rc = mqttOk then
      let ms := setTransport id (fun t => { t with recvBuff := t.recvBuff.drop pkt.pktLen }) ms
      let handled ← dispatch p pkt id ms
      finish pkt id handled
    else if rc = mqttPartialPacket then
      return ms
    else
      let (session, cs) ← ms.derefSession id
      let ms := if cs.cleansession then ms.removeFromRegistry session.clientId else ms
      return ms.forceDisconnect id

end Handlers

end Culex
