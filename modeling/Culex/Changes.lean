import Culex.Calm
import Culex.Connecting
import Culex.Expiry

/-!
# What an event changes

Each event of the broker is of one `Kind`: calm, a new or a closed connection, a malformed packet, a
CONNECT, or the expiry sweep.  `Change` says what an event of that kind does, and
`Event.apply_change` that every event does just that.  The invariants over runs are proved from it.
-/

namespace Culex

open ByteReader ManageSessions

/-- What `parseData` finds in the receive buffer of a transport. -/
inductive Arrival
  | nothing
  | packet (id : ℕ) (pkt : Packet)
  | malformed (id : ℕ)

/-- The kinds of events. -/
inductive Kind
  | calm (subscriber : Option SessionRef)
  | newConnection (fd : ℕ)
  | closeConnection (fd : ℕ)
  | malformed (id : ℕ)
  | connect (id : ℕ) (cn : Connect)
  | expire
  deriving DecidableEq

section Kinds

variable (p : Platform)

/-- What arrives with an event. -/
def Event.arrival : Event → ManageSessions → Arrival
  | .parseData id beyond, ms =>
    if id ∈ ms.tasks then
      match ms.transports.lookup id with
      | none => .nothing
      | some t =>
        match unpack p.toCore t.recvBuff.length (holding t.recvBuff beyond) 0 with
        | .error _ => .nothing
        | .ok ((rc, pkt), _) =>
          if rc = mqttOk then .packet id pkt
          else if rc = mqttPartialPacket then .nothing
          else .malformed id
    else .nothing
  | .newConnection _, _ => .nothing
  | .receive .., _ => .nothing
  | .closeConnection _, _ => .nothing
  | .processExpiredSessions, _ => .nothing
  | .processRetransmissions, _ => .nothing
  | .tick _, _ => .nothing

/-- The kind of a packet. -/
def Packet.kind (pkt : Packet) (id : ℕ) (ms : ManageSessions) : Kind :=
  match pkt.header.type, pkt.pkt with
  | .connect, .connect cn => .connect id cn
  | _, _ => .calm (subscriberOf pkt id ms)

/-- The kind of what arrives. -/
def Arrival.kind (ms : ManageSessions) : Arrival → Kind
  | .nothing => .calm none
  | .packet id pkt => pkt.kind id ms
  | .malformed id => .malformed id

/-- The kind of an event. -/
def Event.kind : Event → ManageSessions → Kind
  | .newConnection fd, _ => .newConnection fd
  | .closeConnection fd, _ => .closeConnection fd
  | .processExpiredSessions, _ => .expire
  | e@(.parseData ..), ms => (e.arrival p ms).kind ms
  | .receive .., _ => .calm none
  | .processRetransmissions, _ => .calm none
  | .tick _, _ => .calm none

/-- A packet is taken out of the receive buffer. -/
def takeOut (pkt : Packet) (id : ℕ) (ms : ManageSessions) : ManageSessions :=
  setTransport id (fun t => { t with recvBuff := t.recvBuff.drop pkt.pktLen }) ms

/-- What follows a CONNECT: the transport gets its client id, or is closed. -/
def finishConnect (cn : Connect) (id : ℕ) (buff : Bytes) (ms : ManageSessions) : ManageSessions :=
  if cn.level = 4 then
    (setTransport id (fun t => { t with clientId := cn.clientId }) ms).pushDataToSend id buff
  else (ms.pushDataToSend id buff).forceDisconnect id

/-- A clean session is removed when its client has sent a malformed packet. -/
def purge (clientId : Bytes) (entry : Registered) (ms : ManageSessions) : ManageSessions :=
  if entry.state.cleansession then ms.removeFromRegistry clientId else ms

/-- The two loops of `processExpiredSessions` that follow the first one. -/
def sweepOut (sweep : Sweep) (ms : ManageSessions) : ManageSessions :=
  sweep.newEntries.foldl (fun ms r => scheduleExpiry p r ms)
    (sweep.toDisconnect.foldl disconnectExpired ms)

/-- What an event of a kind does. -/
def Change (ms ms' : ManageSessions) : Kind → Prop
  | .calm subscriber => ∃ log, Calm subscriber log ms ms'
  | .newConnection fd => ms' = ms.addSession fd
  | .closeConnection fd => ms' = ms.removeSession fd
  | .malformed id => ∃ entry tasks,
      ms.sessionRegistry.lookup (ms.getClientId id) = some entry ∧
        ms' = { (purge (ms.getClientId id) entry ms).forceDisconnect id with tasks }
  | .connect id cn => ∃ ms₁ tasks, Connects cn id ms ms₁ ∧
      ms' = { finishConnect cn id (packConnack (connackFor cn ms)) ms₁ with tasks }
  | .expire => ∃ sweep heap,
      (∀ r ∈ sweep.toDisconnect, ∃ cs, ms.lock r = some cs ∧ cs.connected = true) ∧
        ms' = sweepOut p sweep { ms with expiryHeap := heap }

end Kinds

section Transports

variable {p : Platform} {ms ms' : ManageSessions} {t : ℕ} {cn : Connect}

/-! ### Transports by their sockets -/

theorem lockTransport_eq (transport : Option ℕ) :
    ms.lockTransport transport = transport.bind fun id => (ms.socketOf id).bind fun socket =>
      if ms.sessions.lookup socket.1 = some id ∨ id ∈ ms.tasks then some id else none := by
  unfold lockTransport socketOf
  cases transport with
  | none => rfl
  | some id => cases hl : ms.transports.lookup id <;> simp [hl]

theorem sessions_forceDisconnect :
    (ms.forceDisconnect t).sessions =
      match ms.socketOf t with
      | some socket => ms.sessions.erase socket.1
      | none => ms.sessions := by
  unfold forceDisconnect socketOf
  cases ms.transports.lookup t <;> rfl

theorem setTransport_eq (id : ℕ) (f : Transport → Transport) (ms : ManageSessions) :
    setTransport id f ms = { ms with transports := (setTransport id f ms).transports } := by
  unfold setTransport
  cases ms.transports.lookup id <;> rfl

/-- What the receive buffers hold does not matter to CONNECT. -/
theorem evictedBy_congr (hreg : ms'.sessionRegistry = ms.sessionRegistry)
    (hsocket : ms'.socketOf = ms.socketOf) (hsessions : ms'.sessions = ms.sessions)
    (htasks : ms'.tasks = ms.tasks) : evictedBy cn ms' = evictedBy cn ms := by
  have hlock : ms'.lockTransport = ms.lockTransport := by
    funext transport
    rw [lockTransport_eq, lockTransport_eq, hsocket, hsessions, htasks]
  unfold evictedBy evicted
  simp only [hreg, hlock, hsessions, sessions_forceDisconnect, hsocket]

end Transports

section Events

variable {p : Platform} {ms ms' : ManageSessions} {id : ℕ} {cn : Connect} {packet : Packet}
  {handled : Handled}

/-! ### The end of `parseData` -/

theorem finish_settled (h : handled.returnCode = mqttOk ∨ handled.returnCode = -mqttErr) :
    finish packet id handled = .ok handled.state := by
  unfold finish
  rw [if_neg, if_neg]
  · rcases h with h | h <;> rw [h] <;> decide
  · rcases h with h | h <;> rw [h] <;> decide

theorem finish_connect (hp : packet.pkt = .connect cn)
    (h : handled.returnCode = connectReturnCode cn) :
    finish packet id handled = .ok (finishConnect cn id handled.buff handled.state) := by
  unfold finish finishConnect
  rw [h, hp]
  unfold connectReturnCode
  by_cases hlevel : cn.level = 4
  · rw [if_neg (not_not.2 hlevel), if_pos rfl, if_pos hlevel]
  · have hne : mqttUnacceptableProtocolVersion ≠ mqttConnectionAccepted := by decide
    rw [if_pos hlevel, if_neg hne, if_pos rfl, if_neg hlevel]

/-! ### The sweep -/

/-- The first loop of the sweep pops entries, and notes connected sessions to disconnect. -/
theorem collectExpired_sweep {rounds : ℕ} {sweep sweep' : Sweep}
    (h : collectExpired p rounds sweep ms = .ok (sweep', ms')) :
    (∃ heap, ms' = { ms with expiryHeap := heap }) ∧ ∀ r ∈ sweep'.toDisconnect,
      r ∈ sweep.toDisconnect ∨ ∃ cs, ms.lock r = some cs ∧ cs.connected = true := by
  obtain ⟨popped, heap, -, rfl, hdisconnect, -⟩ := collectExpired_collects h
  refine ⟨⟨heap, rfl⟩, fun r hr => ?_⟩
  rw [hdisconnect] at hr
  refine (List.mem_append.1 hr).imp_right fun hmem => ?_
  obtain ⟨cs, hl, hcon, -⟩ := lapsed_eq_true_iff.1 (List.mem_filter.1 hmem).2
  exact ⟨cs, hl, hcon⟩

theorem processExpiredSessions_change (h : ms.processExpiredSessions p = .ok ms') :
    Change p ms ms' .expire := by
  unfold processExpiredSessions at h
  rw [except_bind_eq_ok] at h
  obtain ⟨⟨sweep, ms₁⟩, hc, h⟩ := h
  obtain rfl := Except.ok.inj h
  obtain ⟨⟨heap, rfl⟩, hr⟩ := collectExpired_sweep hc
  exact ⟨sweep, heap, fun r hmem => (hr r hmem).resolve_left List.not_mem_nil, rfl⟩

/-! ### The events -/

theorem Packet.kind_connect (ht : packet.header.type = .connect) (hp : packet.pkt = .connect cn) :
    packet.kind id ms = .connect id cn := by
  unfold Packet.kind
  rw [ht, hp]

theorem Packet.kind_calm (h : ∀ cn, packet.header.type = .connect → packet.pkt ≠ .connect cn) :
    packet.kind id ms = .calm (subscriberOf packet id ms) := by
  unfold Packet.kind
  split
  · next cn ht hp => exact absurd hp (h cn ht)
  · rfl

theorem takeOut_calm {sub : Option SessionRef} : Calm sub [] ms (takeOut packet id ms) :=
  .setTransport id fun _ => ⟨rfl, rfl⟩

theorem getClientId_eq (t : ℕ) : ms.getClientId t = ((ms.socketOf t).map Prod.snd).getD [] := by
  unfold getClientId socketOf
  rw [Option.map_map]
  rfl

theorem subscriberOf_takeOut : subscriberOf packet id (takeOut packet id ms) =
    subscriberOf packet id ms := by
  have hsocket := (@takeOut_calm ms id packet none).socketOf
  have hreg : (takeOut packet id ms).sessionRegistry = ms.sessionRegistry := by
    unfold takeOut
    rw [setTransport_eq]
  unfold subscriberOf
  rw [getClientId_eq, hsocket, ← getClientId_eq, sessionPresent_congr hreg]

theorem Connects.of_takeOut {ms₁ : ManageSessions} {t : ℕ}
    (h : Connects cn t (takeOut packet id ms) ms₁) : Connects cn t ms ms₁ := by
  have hsocket := (@takeOut_calm ms id packet none).socketOf
  unfold takeOut at h hsocket
  rw [setTransport_eq] at h hsocket
  exact ⟨h.client, h.others, h.sessions.trans (evictedBy_congr rfl hsocket rfl rfl),
    h.socketOf.trans hsocket, h.tasks, h.topicTree, h.nextObj, h.calls⟩

theorem connackFor_takeOut : connackFor cn (takeOut packet id ms) = connackFor cn ms := by
  unfold takeOut
  rw [setTransport_eq]
  rfl

/-- Handling a packet: a CONNECT, a packet that only looks like one, or another one. -/
theorem dispatch_ends (hs : Sound ms) (hd : dispatch p packet id ms = .ok handled)
    (hf : finish packet id handled = .ok ms') :
    (∃ cn, packet.header.type = .connect ∧ packet.pkt = .connect cn ∧
      connectHandler p packet id ms = .ok handled ∧
        ms' = finishConnect cn id handled.buff handled.state) ∨
    (packet.header.type = .connect ∧ (∀ cn, packet.pkt ≠ .connect cn) ∧ handled.state = ms ∧
      ms' = ms) ∨
    packet.header.type ≠ .connect ∧ ms' = handled.state ∧
      ∃ log, Calm (subscriberOf packet id ms) log ms ms' := by
  by_cases ht : packet.header.type = .connect
  · have hhandle : connectHandler p packet id ms = .ok handled := by
      unfold dispatch handlers at hd
      rw [ht] at hd
      exact hd
    cases hp : packet.pkt with
    | connect cn =>
      obtain ⟨-, hcode, -⟩ := connectHandler_connects hp hhandle
      rw [finish_connect hp hcode] at hf
      exact .inl ⟨cn, ht, rfl, hhandle, (Except.ok.inj hf).symm⟩
    | _ =>
      unfold connectHandler at hhandle
      rw [hp] at hhandle
      obtain rfl := Except.ok.inj hhandle
      rw [finish_settled (.inr rfl)] at hf
      exact .inr (.inl ⟨ht, by simp, rfl, (Except.ok.inj hf).symm⟩)
  · have hsettles := dispatch_settles hs ht hd
    rw [finish_settled hsettles.returnCode] at hf
    obtain rfl := Except.ok.inj hf
    exact .inr (.inr ⟨ht, rfl, hsettles.calm⟩)

/-- What handling a packet changes. -/
theorem packet_change (hs : Sound ms)
    (hd : dispatch p packet id (takeOut packet id ms) = .ok handled)
    (hf : finish packet id handled = .ok ms') (tasks : List ℕ) :
    Change p ms { ms' with tasks } (packet.kind id ms) := by
  have htake : ∀ sub, Calm sub [] ms (takeOut packet id ms) := fun sub => takeOut_calm
  have hs₁ : Sound (takeOut packet id ms) := (Tame.setTransport _ _).sound hs
  rcases dispatch_ends hs₁ hd hf with ⟨cn, ht, hp, hhandle, rfl⟩ | ⟨-, hp, -, rfl⟩ |
    ⟨ht, -, log, hcalm⟩
  · obtain ⟨hconnects, -, hbuff⟩ := connectHandler_connects hp hhandle
    rw [Packet.kind_connect ht hp, hbuff, connackFor_takeOut]
    exact ⟨handled.state, tasks, hconnects.of_takeOut, rfl⟩
  · rw [Packet.kind_calm fun cn _ => hp cn]
    exact ⟨[], { htake _ with }⟩
  · rw [subscriberOf_takeOut] at hcalm
    rw [Packet.kind_calm fun _ h => absurd h ht]
    exact ⟨_, { (htake _).trans hcalm with }⟩

/-- A task ends: it no longer holds its transport. -/
def endTask (id : ℕ) (ms : ManageSessions) : ManageSessions :=
  { ms with tasks := ms.tasks.erase id }

/-- What a parse task does with what it finds. -/
inductive Parses (p : Platform) (id : ℕ) (ms : ManageSessions) :
    Arrival → ManageSessions → Prop
  | nothing : Parses p id ms .nothing (endTask id ms)
  | packet {pkt : Packet} {handled : Handled} {ms₁ : ManageSessions}
      (hd : dispatch p pkt id (takeOut pkt id ms) = .ok handled)
      (hf : finish pkt id handled = .ok ms₁) : Parses p id ms (.packet id pkt) (endTask id ms₁)
  | malformed {entry : Registered}
      (hl : ms.sessionRegistry.lookup (ms.getClientId id) = some entry) :
      Parses p id ms (.malformed id)
        (endTask id ((purge (ms.getClientId id) entry ms).forceDisconnect id))

/-- **The cases of `parseData`.** -/
theorem parses_of_apply {beyond : Mem}
    (h : Event.apply p (.parseData id beyond) ms = .ok ms') :
    Parses p id ms (Event.arrival p (.parseData id beyond) ms) ms' := by
  simp only [Event.apply] at h
  simp only [Event.arrival]
  split_ifs at h with hmem
  · rw [if_pos hmem]
    cases hparse : parseData p id beyond ms with
    | error e =>
      rw [hparse] at h
      cases h
    | ok ms₁ =>
      rw [hparse] at h
      obtain rfl := Except.ok.inj h
      unfold parseData at hparse
      cases ht : ms.transports.lookup id with
      | none =>
        rw [ht] at hparse
        obtain rfl := Except.ok.inj hparse
        exact .nothing
      | some t =>
        simp only [ht, except_bind_eq_ok] at hparse
        obtain ⟨⟨⟨rc, pkt⟩, cursor⟩, hu, hparse⟩ := hparse
        simp only [hu]
        simp only at hparse
        split_ifs at hparse with hrc hpartial
        · rw [except_bind_eq_ok] at hparse
          obtain ⟨handled, hd, hf⟩ := hparse
          rw [if_pos hrc]
          exact .packet hd hf
        · obtain rfl := Except.ok.inj hparse
          rw [if_neg hrc, if_pos hpartial]
          exact .nothing
        · rw [except_bind_eq_ok] at hparse
          obtain ⟨⟨r, cs⟩, hderef, hparse⟩ := hparse
          obtain rfl := Except.ok.inj hparse
          rw [if_neg hrc, if_neg hpartial]
          unfold derefSession at hderef
          cases hl : ms.sessionRegistry.lookup (ms.getClientId id) with
          | none =>
            rw [hl] at hderef
            cases hderef
          | some entry =>
            rw [hl] at hderef
            obtain ⟨rfl, rfl⟩ := Prod.mk.inj (Except.ok.inj hderef)
            exact .malformed hl
  · obtain rfl := Except.ok.inj h
    rw [if_neg hmem]
    have herase : endTask id ms = ms := by
      unfold endTask
      rw [List.erase_of_not_mem hmem]
    have hparses : Parses p id ms .nothing (endTask id ms) := .nothing
    rwa [herase] at hparses

/-- What a parse task changes. -/
theorem parseData_change {beyond : Mem} (hs : Sound ms)
    (h : Event.apply p (.parseData id beyond) ms = .ok ms') :
    Change p ms ms' (Event.kind p (.parseData id beyond) ms) := by
  have hparses := parses_of_apply h
  show Change p ms ms' ((Event.arrival p (.parseData id beyond) ms).kind ms)
  generalize Event.arrival p (.parseData id beyond) ms = arrival at hparses ⊢
  cases hparses with
  | nothing => exact ⟨[], { (Calm.refl ms : Calm none [] ms ms) with }⟩
  | packet hd hf => exact packet_change hs hd hf _
  | malformed hl => exact ⟨_, _, hl, rfl⟩

/-- **What an event changes.** -/
theorem Event.apply_change {e : Event} (hs : Sound ms) (h : e.apply p ms = .ok ms') :
    Change p ms ms' (e.kind p ms) := by
  cases e with
  | newConnection fd => exact (Except.ok.inj h).symm
  | closeConnection fd => exact (Except.ok.inj h).symm
  | receive id data =>
    simp only [apply] at h
    split at h
    · obtain rfl := Except.ok.inj h
      exact ⟨[], .refl ms⟩
    · obtain rfl := Except.ok.inj h
      have hset : Calm none [] ms
          (setTransport id (fun t => { t with recvBuff := t.recvBuff ++ data }) ms) :=
        .setTransport id fun _ => ⟨rfl, rfl⟩
      exact ⟨[], { hset with }⟩
  | parseData id beyond => exact parseData_change hs h
  | processExpiredSessions => exact processExpiredSessions_change h
  | processRetransmissions => exact retransmitLoop_calm hs h
  | tick elapsed =>
    obtain rfl := Except.ok.inj h
    exact ⟨[], { (Calm.refl ms : Calm none [] ms ms) with }⟩

end Events

end Culex
