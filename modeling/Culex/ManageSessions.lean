import Culex.Build
import Culex.TopicTree
import Culex.Lib.MinHeap

/-!
# Managing sessions

`managesession.cpp`: the state of the broker and the functions that route, send, retransmit and
expire.  A `ClientSession` object lives as long as it is registered, and a transport as long as it
is in the table of sessions or a task still holds it; locking a weak pointer is a lookup.  `calls`
records the calls of the functions that deliver messages, oldest first.

Each function is atomic, and the clock stands still while it runs.
-/

namespace Culex

/-- A `MqttSession`: the socket it serves, its client id, and the bytes received and not parsed. -/
structure Transport where
  fd : ℕ
  clientId : Bytes := []
  recvBuff : Bytes := []

/-- A session's expiration timestamp. -/
structure ExpiryEntry where
  expiryMs : ℤ
  session : SessionRef

/-- A scheduled retransmission. -/
structure RetransmitEntry where
  retryMs : ℤ
  packetId : UInt16
  packetType : PacketType
  session : SessionRef
  deriving DecidableEq

/-- The calls that deliver messages. -/
inductive Call
  | routePacket (packet : Packet)
  | sendToClient (session : SessionRef) (packet : Packet)
  | storeMessage (session : SessionRef) (packet : Packet)
  | pushDataToSend (transport : ℕ) (data : Bytes)
  deriving DecidableEq

/-- A registered session: the identity and the state of the object. -/
structure Registered where
  obj : ℕ
  state : ClientSession

/-- What the broker runs on: the core library, and what the language leaves open, the order in which
unordered maps are iterated and the arrangement of heaps. -/
structure Platform extends Core where
  /-- The iteration order behind a match, after a number of calls. -/
  traverse : ℕ → List Subscription → List Subscription
  traverse_perm : ∀ i subs, (traverse i subs).Perm subs
  expiryOrder : HeapOrder ExpiryEntry.expiryMs
  retransmitOrder : HeapOrder RetransmitEntry.retryMs

/-- `RETRY_INTERVAL_S`, in seconds. -/
def retryIntervalS : ℤ := 5

/-- The state of the broker. -/
structure ManageSessions where
  topicTree : TopicTree := .empty
  sessionRegistry : AList fun _ : Bytes => Registered := ∅
  expiryHeap : MinHeap ExpiryEntry.expiryMs := .empty
  retransmitHeap : MinHeap RetransmitEntry.retryMs := .empty
  /-- `m_sessions`: the transport of each socket. -/
  sessions : AList fun _ : ℕ => ℕ := ∅
  /-- The transports ever created. -/
  transports : AList fun _ : ℕ => Transport := ∅
  /-- The transports that queued or running tasks hold. -/
  tasks : List ℕ := []
  /-- The next identity of an object. -/
  nextObj : ℕ := 0
  now : ℤ := 0
  calls : List Call := []

namespace ManageSessions

/-! ### Objects -/

/-- `session.lock()`: the state of the object, if it is still alive. -/
def lock (ms : ManageSessions) (session : SessionRef) : Option ClientSession :=
  match ms.sessionRegistry.lookup session.clientId with
  | some entry => if entry.obj = session.obj then some entry.state else none
  | none => none

/-- Change a session object in place. -/
def setSession (ms : ManageSessions) (session : SessionRef) (cs : ClientSession) :
    ManageSessions :=
  match ms.lock session with
  | some _ =>
    { ms with sessionRegistry := ms.sessionRegistry.insert session.clientId ⟨session.obj, cs⟩ }
  | none => ms

/-- Lock a weak pointer to a transport. -/
def lockTransport (ms : ManageSessions) (transport : Option ℕ) : Option ℕ :=
  transport.bind fun id =>
    (ms.transports.lookup id).bind fun t =>
      if ms.sessions.lookup t.fd = some id ∨ id ∈ ms.tasks then some id else none

/-- The client id of a transport. -/
def getClientId (ms : ManageSessions) (transport : ℕ) : Bytes :=
  ((ms.transports.lookup transport).map Transport.clientId).getD []

/-- Record a call. -/
def record (ms : ManageSessions) (call : Call) : ManageSessions :=
  { ms with calls := ms.calls ++ [call] }

/-- Hand bytes to a transport. -/
def pushDataToSend (ms : ManageSessions) (transport : ℕ) (data : Bytes) : ManageSessions :=
  ms.record (.pushDataToSend transport data)

/-- Hand bytes to the transport behind a weak pointer, if it is alive. -/
def pushIfAlive (ms : ManageSessions) (transport : Option ℕ) (data : Bytes) : ManageSessions :=
  match ms.lockTransport transport with
  | some id => ms.pushDataToSend id data
  | none => ms

/-! ### The tables of sessions -/

def addSession (ms : ManageSessions) (fd : ℕ) : ManageSessions :=
  { ms with
    sessions := ms.sessions.insert fd ms.nextObj
    transports := ms.transports.insert ms.nextObj { fd }
    nextObj := ms.nextObj + 1 }

def removeSession (ms : ManageSessions) (fd : ℕ) : ManageSessions :=
  { ms with sessions := ms.sessions.erase fd }

/-- Close the transport. -/
def forceDisconnect (ms : ManageSessions) (transport : ℕ) : ManageSessions :=
  match ms.transports.lookup transport with
  | some t => ms.removeSession t.fd
  | none => ms

/-- The registered session of a client. -/
def sessionPresent (ms : ManageSessions) (clientId : Bytes) : Option SessionRef :=
  (ms.sessionRegistry.lookup clientId).map fun entry => ⟨clientId, entry.obj⟩

def removeFromRegistry (ms : ManageSessions) (clientId : Bytes) : ManageSessions :=
  { ms with sessionRegistry := ms.sessionRegistry.erase clientId }

def addToRegistry (ms : ManageSessions) (session : SessionRef) (cs : ClientSession) :
    ManageSessions :=
  { ms with sessionRegistry := ms.sessionRegistry.insert session.clientId ⟨session.obj, cs⟩ }

def updateActivity (ms : ManageSessions) (clientId : Bytes) : ManageSessions :=
  match ms.sessionRegistry.lookup clientId with
  | some entry =>
    { ms with
      sessionRegistry := ms.sessionRegistry.insert clientId
        { entry with state := { entry.state with lastActivity := ms.now } } }
  | none => ms

/-! ### Routing -/

section Routing

variable (p : Platform)

def scheduleRetransmission (packetId : UInt16) (type : PacketType) (session : SessionRef)
    (ms : ManageSessions) : ManageSessions :=
  { ms with
    retransmitHeap := ms.retransmitHeap.push p.retransmitOrder
      ⟨ms.now + retryIntervalS * 1000, packetId, type, session⟩ }

/-- Serialize a packet and send it to a client; `none` is a null pointer. -/
def sendToClient (session : Option SessionRef) (packet : Packet) (ms : ManageSessions) :
    Except Fault ManageSessions :=
  match session.bind fun r => (ms.lock r).map fun cs => (r, cs) with
  | none => .error .nullSession
  | some (r, cs) => do
    let ms := ms.record (.sendToClient r packet)
    if packet.header.type = .publish then
      if 0 < packet.header.qos then
        let (packetId, cs) := cs.allocatePacketId
        let cs ← cs.storeInflight packet
        let ms := ms.setSession r cs
        let ms := scheduleRetransmission p packetId packet.header.type r ms
        let buff ← buildPublish p.toCore packet packetId []
        return ms.pushIfAlive cs.session buff
      else
        let buff ← buildPublish p.toCore packet 0 []
        return ms.pushIfAlive cs.session buff
    else
      match packet.pkt with
      | .ack ack =>
        let (buff, _) := buildAck ack.packetId packet.header.type []
        return ms.pushIfAlive cs.session buff
      | _ => .error .badVariant

/-- One round of the loop over the matching subscriptions.  The packet is handed from round to round
by reference. -/
def routeStep (sub : Subscription) (x : ManageSessions × Packet) :
    Except Fault (ManageSessions × Packet) :=
  let (ms, packet) := x
  match ms.lock sub.session with
  | none => .ok (ms, packet)
  | some session =>
    if !session.connected then
      if 0 < packet.header.qos then
        .ok ((ms.setSession sub.session (session.storeMessage packet)).record
          (.storeMessage sub.session packet), packet)
      else
        .ok (ms, packet)
    else do
      let effectiveQos := min packet.header.qos sub.qos
      let packet := { packet with header := { packet.header with qos := effectiveQos } }
      let ms ← sendToClient p (some sub.session) packet ms
      return (ms, packet)

/-- The loop over the matching subscriptions. -/
def routeLoop (subs : List Subscription) (x : ManageSessions × Packet) :
    Except Fault (ManageSessions × Packet) :=
  subs.foldlM (fun x sub => routeStep p sub x) x

/-- Route a packet; the caller sees what is left of it. -/
def routePacket (packet : Packet) (cs : Option SessionRef) (ms : ManageSessions) :
    Except Fault (ManageSessions × Packet) :=
  let ms := ms.record (.routePacket packet)
  if packet.header.type = .publish then
    match packet.pkt with
    | .publish pub =>
      let (tree, subs) := ms.topicTree.match pub.topic
      routeLoop p (p.traverse ms.calls.length subs) ({ ms with topicTree := tree }, packet)
    | _ => .error .badVariant
  else do
    let ms ← sendToClient p cs packet ms
    return (ms, packet)

/-! ### Retransmission -/

/-- Resend the stored packet of an entry to the session `cs` that the entry names. -/
def resend (entry : RetransmitEntry) (cs : ClientSession) (pkt : Packet) (ms : ManageSessions) :
    Except Fault ManageSessions :=
  if entry.packetType = .publish then do
    let (ms, _) ← routePacket p { pkt with header := { pkt.header with dup := true } } none ms
    return ms
  else
    let (buff, _) := buildAck entry.packetId pkt.header.type []
    .ok (ms.pushIfAlive cs.session buff)

def popRetransmit (ms : ManageSessions) : ManageSessions :=
  { ms with retransmitHeap := ms.retransmitHeap.pop p.retransmitOrder }

/-- The loop of `processRetransmissions`. -/
def retransmitLoop : ℕ → ManageSessions → Except Fault ManageSessions
  | 0, _ => .error .endless
  | rounds + 1, ms =>
    match ms.retransmitHeap.top with
    | none => .ok ms
    | some entry =>
      if entry.retryMs ≤ ms.now then
        match ms.lock entry.session with
        | some cs =>
          let pkt := cs.getPacket entry.packetId entry.packetType
          if pkt.pktLen ≠ 0 then do
            let ms ← resend p entry cs pkt ms
            retransmitLoop rounds (popRetransmit p ms)
          else .ok ms
        | none => .ok ms
      else .ok ms

/-- Resend what is due.  A round pops an entry or ends the loop, and what a round pushes is not due,
so the entries bound the rounds. -/
def processRetransmissions (ms : ManageSessions) : Except Fault ManageSessions :=
  retransmitLoop p (ms.retransmitHeap.entries.length + 1) ms

/-! ### Expiry -/

/-- `last_activity + 1.5 * keep_alive`, in milliseconds. -/
def expiryOf (cs : ClientSession) : ℤ := cs.lastActivity + cs.keepAlive.toNat * 1500

def scheduleExpiry (session : SessionRef) (ms : ManageSessions) : ManageSessions :=
  match ms.lock session with
  | some cs =>
    if cs.keepAlive = 0 then ms
    else
      let expiry := expiryOf cs
      let ms := ms.setSession session { cs with expiryMs := expiry }
      { ms with expiryHeap := ms.expiryHeap.push p.expiryOrder ⟨expiry, session⟩ }
  | none => ms

/-- The milliseconds until the next session expires; `-1` if there is none. -/
def getNextTimeoutMs (ms : ManageSessions) : ℤ :=
  match ms.expiryHeap.top with
  | none => -1
  | some entry =>
    let diff := entry.expiryMs - ms.now
    if diff ≤ 0 then 0 else toInt diff

/-- The sessions to disconnect and the ones to schedule again. -/
structure Sweep where
  toDisconnect : List SessionRef := []
  newEntries : List SessionRef := []

/-- The loop of `processExpiredSessions`.  An entry whose session is gone is not popped, and the
loop looks at it again and again. -/
def collectExpired : ℕ → Sweep → ManageSessions → Except Fault (Sweep × ManageSessions)
  | 0, _, _ => .error .endless
  | rounds + 1, sweep, ms =>
    match ms.expiryHeap.top with
    | none => .ok (sweep, ms)
    | some entry =>
      if ms.now < entry.expiryMs then .ok (sweep, ms)
      else
        match ms.lock entry.session with
        | some cs =>
          let sweep :=
            if ms.now < expiryOf cs then
              { sweep with newEntries := sweep.newEntries ++ [entry.session] }
            else if cs.connected then
              { sweep with toDisconnect := sweep.toDisconnect ++ [entry.session] }
            else sweep
          collectExpired rounds sweep { ms with expiryHeap := ms.expiryHeap.pop p.expiryOrder }
        | none => collectExpired rounds sweep ms

/-- Disconnect a session that has expired.  One that an earlier round has removed from the registry
has lost its transport there. -/
def disconnectExpired (ms : ManageSessions) (session : SessionRef) : ManageSessions :=
  match ms.lock session with
  | none => ms
  | some cs =>
    match ms.lockTransport cs.session with
    | none => ms
    | some transport =>
      let ms := ms.forceDisconnect transport
      if cs.cleansession then ms.removeFromRegistry session.clientId
      else ms.setSession session { cs with connected := false }

/-- Disconnect the clients that exceeded their keep-alive. -/
def processExpiredSessions (ms : ManageSessions) : Except Fault ManageSessions := do
  let (sweep, ms) ← collectExpired p (ms.expiryHeap.entries.length + 1) {} ms
  let ms := sweep.toDisconnect.foldl disconnectExpired ms
  return sweep.newEntries.foldl (fun ms session => scheduleExpiry p session ms) ms

end Routing

/-! ### Subscriptions -/

def createSubscription (ms : ManageSessions) (topic : Bytes) (qos : UInt8) (clientId : Bytes) :
    ManageSessions :=
  match ms.sessionPresent clientId with
  | some session => { ms with topicTree := ms.topicTree.subscribe topic session qos }
  | none => ms

def removeSubscription (ms : ManageSessions) (topic clientId : Bytes) : ManageSessions :=
  match ms.sessionPresent clientId with
  | some session => { ms with topicTree := ms.topicTree.unsubscribe topic session }
  | none => ms

/-! ### What locking sees -/

section Locking

variable (ms : ManageSessions) (r r' : SessionRef) (cs : ClientSession)

/-- The registry, as far as locking tells. -/
theorem lock_eq_some_iff {ms : ManageSessions} {r : SessionRef} {cs : ClientSession} :
    ms.lock r = some cs ↔ ms.sessionRegistry.lookup r.clientId = some ⟨r.obj, cs⟩ := by
  unfold lock
  cases h : ms.sessionRegistry.lookup r.clientId with
  | none => simp
  | some entry =>
    obtain ⟨obj, state⟩ := entry
    simp only [Option.some.injEq, Registered.mk.injEq]
    split_ifs with ho
    · simp [ho]
    · simp [ho]

theorem lock_of_lookup {ms : ManageSessions} {clientId : Bytes} {entry : Registered}
    (h : ms.sessionRegistry.lookup clientId = some entry) :
    ms.lock ⟨clientId, entry.obj⟩ = some entry.state :=
  lock_eq_some_iff.2 h

/-- Locking depends on the registry alone. -/
theorem lock_congr {ms ms' : ManageSessions} (h : ms'.sessionRegistry = ms.sessionRegistry)
    (r : SessionRef) : ms'.lock r = ms.lock r := by
  unfold lock
  rw [h]

/-- Locking a transport depends on the tables of sessions alone. -/
theorem lockTransport_congr {ms ms' : ManageSessions} (ht : ms'.transports = ms.transports)
    (hs : ms'.sessions = ms.sessions) (htasks : ms'.tasks = ms.tasks) :
    ms'.lockTransport = ms.lockTransport := by
  funext transport
  unfold lockTransport
  rw [ht, hs, htasks]

@[simp] theorem lock_record (call : Call) : (ms.record call).lock r = ms.lock r := rfl

@[simp] theorem lock_pushDataToSend (id : ℕ) (data : Bytes) :
    (ms.pushDataToSend id data).lock r = ms.lock r := rfl

theorem pushIfAlive_eq (transport : Option ℕ) (data : Bytes) :
    ms.pushIfAlive transport data = { ms with
      calls := ms.calls ++ ((ms.lockTransport transport).map fun id =>
        Call.pushDataToSend id data).toList } := by
  unfold pushIfAlive
  cases ms.lockTransport transport with
  | none => simp
  | some id => rfl

@[simp] theorem lock_pushIfAlive (transport : Option ℕ) (data : Bytes) :
    (ms.pushIfAlive transport data).lock r = ms.lock r := by
  rw [pushIfAlive_eq]
  rfl

@[simp] theorem lock_scheduleRetransmission (p : Platform) (packetId : UInt16) (type : PacketType) :
    (scheduleRetransmission p packetId type r' ms).lock r = ms.lock r := rfl

theorem lock_setSession :
    (ms.setSession r cs).lock r' =
      if r' = r then (ms.lock r).map fun _ => cs else ms.lock r' := by
  unfold setSession
  cases h : ms.lock r with
  | none =>
    split_ifs with hr
    · rw [hr]
      exact h
    · rfl
  | some old =>
    rw [lock_eq_some_iff] at h
    obtain ⟨clientId, obj⟩ := r
    obtain ⟨clientId', obj'⟩ := r'
    by_cases hc : clientId' = clientId
    · subst hc
      unfold lock
      simp only at h
      simp only [AList.lookup_insert, h, SessionRef.mk.injEq, true_and, Option.map_some, eq_comm]
      split_ifs <;> rfl
    · unfold lock
      simp only [AList.lookup_insert_ne hc, SessionRef.mk.injEq, hc, false_and, if_false]

theorem lock_setSession_self {old : ClientSession} (h : ms.lock r = some old) :
    (ms.setSession r cs).lock r = some cs := by
  rw [lock_setSession, if_pos rfl, h]
  rfl

theorem lock_setSession_ne (h : r' ≠ r) : (ms.setSession r cs).lock r' = ms.lock r' := by
  rw [lock_setSession, if_neg h]

/-- Changing a session object changes the registry only. -/
theorem setSession_eq :
    ms.setSession r cs =
      { ms with sessionRegistry := (ms.setSession r cs).sessionRegistry } := by
  unfold setSession
  cases ms.lock r <;> rfl

end Locking

end ManageSessions

end Culex
