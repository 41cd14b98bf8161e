import Culex.Lib.Lockstep
import Culex.Parsing
import Culex.Stepping

/-!
# The packets of a connection

A read queues a parse task, and a task takes one packet at most.  Seen from one transport the broker
is a receiver that takes one frame for each read (`seen_refines`).  A client whose reads complete as
many packets as there were reads has them handled in order, one for each read whose task has run
(`lockstep_of_run`); what one read brings in excess waits for the next.

Here a parse task is one event: it has erased its packet and called the handler before the next one
unpacks.  `parseData` gives up its lock in between, so two tasks of the connection can overlap, and
may then handle a packet twice; what they do is the subject of `Culex.Parsing`.
-/

namespace Culex

open ByteReader ManageSessions Lockstep

/-- What has gone on at a transport: the reads, the bytes received, and the packets handled. -/
structure Account where
  reads : ℕ := 0
  received : Bytes := []
  handled : List Packet := []

/-- The broker, and the account of a transport. -/
structure Watched where
  broker : ManageSessions := {}
  account : Account := {}

section Watching

variable (p : Platform) (id : ℕ)

/-- The bytes that an event reads on the transport. -/
def Event.bytesRead (ms : ManageSessions) : Event → Option Bytes
  | .receive t data => if t = id ∧ (ms.lockTransport (some id)).isSome then some data else none
  | _ => none

/-- The event reads on the transport, or parses what has been read. -/
def Event.At : Event → Prop
  | .receive t _ => t = id
  | .parseData t _ => t = id
  | _ => False

/-- The packet that arrives from the transport. -/
def Arrival.packetFrom : Arrival → Option Packet
  | .nothing => none
  | .packet t pkt => if t = id then some pkt else none
  | .malformed _ => none

/-- The account after an event. -/
def Account.enter (account : Account) (e : Event) (ms : ManageSessions) : Account where
  reads := account.reads + (e.bytesRead id ms).toList.length
  received := account.received ++ (e.bytesRead id ms).getD []
  handled := account.handled ++ ((e.arrival p ms).packetFrom id).toList

def WatchedStep (s : Watched) (e : Event) (s' : Watched) : Prop :=
  BrokerStep p s.broker e s'.broker ∧ s'.account = s.account.enter p id e s.broker

/-- The broker, as far as the transport is concerned. -/
def Watched.seen (s : Watched) : Receiver Packet UInt8 where
  buffer := s.broker.receiveBuffer id
  pending := s.broker.tasks.count id
  reads := s.account.reads
  received := s.account.received
  emitted := s.account.handled

/-- Whatever the event reads on the transport comes in time. -/
def PacedAt (packets : List Packet) (s : Watched) (e : Event) : Prop :=
  ∀ data, e.bytesRead id s.broker = some data →
    PacedRead Wire.frame packets (s.seen id) data

/-- What a task may be told about a receive buffer.  It depends on the memory behind it, and if the
buffer is empty, on nothing else. -/
def Tells (buffer : Bytes) (answer : Lockstep.Answer Packet) : Prop :=
  buffer ≠ [] → ∃ beyond rc pkt q,
    unpack p.toCore buffer.length (holding buffer beyond) 0 = .ok ((rc, pkt), q) ∧
      answer = if rc = mqttOk then .emit pkt pkt.pktLen
        else if rc = mqttPartialPacket then .nothing
        else .failure

end Watching

variable {p : Platform} {id t : ℕ} {ms ms' : ManageSessions} {e : Event} {s s' : Watched}
  {packets : List Packet} {events : List Event}

theorem recognizes_tells : Recognizes (Tells p) Wire.frame Wire.WellFormed := by
  intro pkt hpkt rest answer htells
  obtain ⟨beyond, rc, pkt', q', hq', hanswer⟩ := htells (List.cons_ne_nil _ _)
  have hl := at_holding (Wire.frame pkt ++ rest) beyond
  obtain ⟨q, hq⟩ := unpack_frame p.toCore hpkt ((at_append _ _ _ _).1 hl).1
    (n := (Wire.frame pkt ++ rest).length) (by rw [List.length_append]; omega)
  rw [hq] at hq'
  obtain ⟨⟨rfl, rfl⟩, -⟩ := by simpa using hq'
  rw [hanswer, ← hpkt.pktLen]
  rfl

/-! ### What an event does to a transport -/

theorem receiveBuffer_setTransport_of_ne {f : Transport → Transport} (h : id ≠ t) :
    (setTransport t f ms).receiveBuffer id = ms.receiveBuffer id := by
  unfold setTransport receiveBuffer
  cases ms.transports.lookup t with
  | none => rfl
  | some transport => simp only [AList.lookup_insert_ne h]

theorem receiveBuffer_addSession (h : TransportsAllocated ms) (fd : ℕ) :
    (ms.addSession fd).receiveBuffer id = ms.receiveBuffer id := by
  unfold addSession receiveBuffer
  by_cases hid : id = ms.nextObj
  · have hnone : ms.transports.lookup id = none := by
      cases hl : ms.transports.lookup id with
      | none => rfl
      | some transport =>
        have hsocket : ms.socketOf id = some (transport.fd, transport.clientId) := by
          unfold ManageSessions.socketOf
          rw [hl]
          rfl
        have := h _ _ hsocket
        omega
    rw [hnone, hid, AList.lookup_insert]
    rfl
  · rw [AList.lookup_insert_ne hid]

theorem receiveBuffer_finishConnect (cn : Connect) (buff : Bytes) :
    (finishConnect cn t buff ms).receiveBuffer id = ms.receiveBuffer id := by
  unfold finishConnect
  split_ifs
  · show (setTransport t _ ms).receiveBuffer id = _
    by_cases hid : id = t
    · subst hid
      cases hl : ms.transports.lookup id with
      | none =>
        unfold setTransport
        rw [hl]
      | some transport => rw [receiveBuffer_setTransport hl, receiveBuffer_of_lookup hl]
    · exact receiveBuffer_setTransport_of_ne hid
  · exact receiveBuffer_congr (transports_forceDisconnect t) id

/-- Handling a packet does not touch the receive buffers, nor the tasks. -/
theorem handle_keeps {pkt : Packet} {handled : Handled} (hs : Sound ms)
    (hd : dispatch p pkt t ms = .ok handled) (hf : finish pkt t handled = .ok ms') :
    ms'.receiveBuffer id = ms.receiveBuffer id ∧ ms'.tasks = ms.tasks := by
  have htransports := transports_dispatch hd
  rcases dispatch_cases hs hd hf with ⟨cn, -, hp, hhandle, rfl⟩ | ⟨-, hsteady, -⟩
  · rw [receiveBuffer_finishConnect]
    refine ⟨receiveBuffer_congr htransports id, ?_⟩
    obtain ⟨hconnects, -⟩ := connectHandler_connects hp hhandle
    rw [finishConnect_eq]
    exact hconnects.tasks
  · exact ⟨receiveBuffer_congr hsteady.transports id, hsteady.tasks⟩

theorem purge_tables (clientId : Bytes) (old : Registered) :
    ((purge clientId old ms).forceDisconnect t).transports = ms.transports ∧
      ((purge clientId old ms).forceDisconnect t).tasks = ms.tasks := by
  have hsweeps := (@purge_sweeps ms clientId old).trans (.forceDisconnect t)
  rw [hsweeps.eq]
  exact ⟨rfl, rfl⟩

/-- What a task does to the receive buffers, before it ends. -/
theorem Parses.buffers {arrival : Arrival} (hs : Sound ms) (h : Parses p t ms arrival ms') :
    ms'.tasks = ms.tasks.erase t ∧
      (id ≠ t → ms'.receiveBuffer id = ms.receiveBuffer id) ∧
      (id = t → ms'.receiveBuffer id =
        match arrival.packetFrom id with
        | some pkt => (ms.receiveBuffer id).drop pkt.pktLen
        | none => ms.receiveBuffer id) := by
  cases h with
  | nothing => exact ⟨rfl, fun _ => rfl, fun _ => rfl⟩
  | @malformed old hl =>
    obtain ⟨htransports, htasks⟩ := @purge_tables t ms (ms.getClientId t) old
    have hbuffer := receiveBuffer_congr htransports id
    exact ⟨congrArg (·.erase t) htasks, fun _ => hbuffer, fun _ => hbuffer⟩
  | @packet pkt handled ms₁ hd hf =>
    have hs₁ : Sound (takeOut pkt t ms) := (Tame.setTransport _ _).sound hs
    obtain ⟨hbuffer, htasks⟩ := @handle_keeps p id t _ _ _ _ hs₁ hd hf
    have htake : (takeOut pkt t ms).tasks = ms.tasks := by
      unfold takeOut
      rw [setTransport_eq]
    refine ⟨congrArg (·.erase t) (htasks.trans htake), fun hid => ?_, ?_⟩
    · exact hbuffer.trans (receiveBuffer_setTransport_of_ne hid)
    · rintro rfl
      have hpacket : (Arrival.packet id pkt).packetFrom id = some pkt := if_pos rfl
      rw [hpacket]
      refine hbuffer.trans ?_
      show (setTransport id _ ms).receiveBuffer id = (ms.receiveBuffer id).drop pkt.pktLen
      cases hl : ms.transports.lookup id with
      | none =>
        unfold setTransport receiveBuffer
        rw [hl]
        simp [hl]
      | some transport => rw [receiveBuffer_setTransport hl, receiveBuffer_of_lookup hl]

/-- What a task is told. -/
def Arrival.answer : Arrival → Lockstep.Answer Packet
  | .nothing => .nothing
  | .packet _ pkt => .emit pkt pkt.pktLen
  | .malformed _ => .failure

theorem tells_arrival {beyond : Mem} (hmem : id ∈ ms.tasks)
    (h : Event.apply p (.parseData id beyond) ms = .ok ms') :
    Tells p (ms.receiveBuffer id) (Event.arrival p (.parseData id beyond) ms).answer := by
  intro hne
  cases hl : ms.transports.lookup id with
  | none =>
    unfold receiveBuffer at hne
    rw [hl] at hne
    exact absurd rfl hne
  | some transport =>
    rw [receiveBuffer_of_lookup hl]
    simp only [Event.apply, if_pos hmem, parseData, hl] at h
    simp only [Event.arrival, if_pos hmem, hl]
    cases hu : unpack p.toCore transport.recvBuff.length (holding transport.recvBuff beyond) 0 with
    | error fault =>
      rw [hu] at h
      cases h
    | ok found =>
      obtain ⟨⟨rc, pkt⟩, q⟩ := found
      refine ⟨beyond, rc, pkt, q, hu, ?_⟩
      simp only
      split_ifs <;> rfl

/-! ### The broker as a receiver -/

theorem Account.enter_unread {account : Account} (hread : e.bytesRead id ms = none) :
    account.enter p id e ms =
      { account with handled := account.handled ++ ((e.arrival p ms).packetFrom id).toList } := by
  unfold Account.enter
  rw [hread]
  simp

theorem seen_of_idle (haccount : s'.account = s.account.enter p id e s.broker)
    (hread : e.bytesRead id s.broker = none)
    (harrival : (e.arrival p s.broker).packetFrom id = none)
    (hbuffer : s'.broker.receiveBuffer id = s.broker.receiveBuffer id)
    (htasks : s'.broker.tasks.count id = s.broker.tasks.count id) : s'.seen id = s.seen id := by
  unfold Watched.seen
  rw [haccount, Account.enter_unread hread, harrival, hbuffer, htasks]
  simp

theorem Parses.packetFrom_of_ne {arrival : Arrival} (h : Parses p t ms arrival ms')
    (hid : id ≠ t) : arrival.packetFrom id = none := by
  cases h with
  | nothing => rfl
  | malformed hl => rfl
  | packet hd hf => exact if_neg hid.symm

/-- A task of the transport is a task of the receiver. -/
theorem Parses.task {beyond : Mem} (hs : Sound s.broker)
    (h : Parses p id s.broker (Event.arrival p (.parseData id beyond) s.broker) s'.broker)
    (haccount : s'.account = s.account.enter p id (.parseData id beyond) s.broker) :
    s'.seen id = (s.seen id).task (Event.arrival p (.parseData id beyond) s.broker).answer := by
  obtain ⟨htasks, -, hbuffer⟩ := @Parses.buffers p id _ _ _ _ hs h
  have hcount : s'.broker.tasks.count id = s.broker.tasks.count id - 1 := by
    rw [htasks, List.count_erase_self]
  rw [Account.enter_unread rfl] at haccount
  unfold Watched.seen
  rw [haccount, hbuffer rfl, hcount]
  generalize Event.arrival p (.parseData id beyond) s.broker = arrival at h
  generalize s'.broker = ms' at h
  cases h with
  | nothing => simp [Arrival.packetFrom, Arrival.answer, Receiver.task]
  | malformed hl => simp [Arrival.packetFrom, Arrival.answer, Receiver.task]
  | packet hd hf => simp [Arrival.packetFrom, Arrival.answer, Receiver.task]

theorem exists_of_lockTransport (h : ms.lockTransport (some id) = some t) :
    ∃ transport, ms.transports.lookup id = some transport := by
  unfold lockTransport at h
  cases hl : ms.transports.lookup id with
  | none =>
    rw [Option.bind_some, hl] at h
    cases h
  | some transport => exact ⟨transport, rfl⟩

/-- An event elsewhere does not touch the receive buffer, nor the tasks. -/
theorem Event.apply_elsewhere (hr : Reachable p ms) (hat : ¬ e.At id)
    (h : e.apply p ms = .ok ms') :
    ms'.receiveBuffer id = ms.receiveBuffer id ∧ ms'.tasks.count id = ms.tasks.count id := by
  cases e with
  | newConnection fd =>
    obtain rfl := Except.ok.inj h
    exact ⟨receiveBuffer_addSession hr.transportsAllocated fd, rfl⟩
  | closeConnection fd =>
    obtain rfl := Except.ok.inj h
    exact ⟨rfl, rfl⟩
  | tick elapsed =>
    obtain rfl := Except.ok.inj h
    exact ⟨rfl, rfl⟩
  | processExpiredSessions =>
    obtain ⟨popped, heap, hexpires⟩ := processExpiredSessions_expires h
    have heq := hexpires.sweeps.eq
    exact ⟨receiveBuffer_congr (by rw [heq]) id, by rw [heq]⟩
  | processRetransmissions =>
    have hsteady := retransmitLoop_steady hr.sound h
    exact ⟨receiveBuffer_congr hsteady.transports id, by rw [hsteady.tasks]⟩
  | receive t data =>
    simp only [Event.apply] at h
    split at h
    · obtain rfl := Except.ok.inj h
      exact ⟨rfl, rfl⟩
    · obtain rfl := Except.ok.inj h
      refine ⟨receiveBuffer_setTransport_of_ne (Ne.symm hat), ?_⟩
      rw [setTransport_eq]
      simp [show t ≠ id from hat]
  | parseData t beyond =>
    have hne : id ≠ t := Ne.symm hat
    obtain ⟨htasks, hbuffer, -⟩ := @Parses.buffers p id _ _ _ _ hr.sound (parses_of_apply h)
    refine ⟨hbuffer hne, ?_⟩
    rw [htasks, List.count_erase_of_ne hne]

theorem Event.bytesRead_elsewhere (hat : ¬ e.At id) : e.bytesRead id ms = none := by
  cases e with
  | receive t data => exact if_neg fun h => hat h.1
  | _ => rfl

theorem Event.packetFrom_elsewhere (hat : ¬ e.At id) (h : e.apply p ms = .ok ms') :
    (e.arrival p ms).packetFrom id = none := by
  cases e with
  | parseData t beyond => exact (parses_of_apply h).packetFrom_of_ne (Ne.symm hat)
  | _ => rfl

/-- A read of the transport. -/
theorem receive_eq {data : Bytes} (h : Event.apply p (.receive id data) ms = .ok ms')
    (halive : (ms.lockTransport (some id)).isSome) :
    ms'.receiveBuffer id = ms.receiveBuffer id ++ data ∧
      ms'.tasks.count id = ms.tasks.count id + 1 := by
  obtain ⟨t, hlock⟩ := Option.isSome_iff_exists.1 halive
  simp only [Event.apply, hlock] at h
  obtain rfl := Except.ok.inj h
  obtain ⟨transport, hl⟩ := exists_of_lockTransport hlock
  constructor
  · rw [receiveBuffer_of_lookup hl]
    exact receiveBuffer_setTransport hl
  · rw [setTransport_eq]
    simp

/-- **An event is a step of the receiver**, or is not seen from the transport. -/
theorem WatchedStep.receives (hr : Reachable p s.broker) (h : WatchedStep p id s e s') :
    s'.seen id = s.seen id ∨ ∃ action, ReceiverStep (Tells p) (s.seen id) action (s'.seen id) ∧
      ∀ chunk, action = .read chunk → e.bytesRead id s.broker = some chunk := by
  obtain ⟨hstep, haccount⟩ := h
  have hstep : e.apply p s.broker = .ok s'.broker := hstep
  by_cases hat : e.At id
  · cases e with
    | receive t data =>
      obtain rfl : t = id := hat
      by_cases halive : (s.broker.lockTransport (some t)).isSome
      · have hread : (Event.receive t data).bytesRead t s.broker = some data :=
          if_pos ⟨rfl, halive⟩
        refine .inr ⟨.read data, ?_, ?_⟩
        · show s'.seen t = (s.seen t).read data
          have hentered : s'.account = { s.account with
              reads := s.account.reads + 1
              received := s.account.received ++ data } := by
            rw [haccount, Account.enter, hread]
            simp [Event.arrival, Arrival.packetFrom]
          obtain ⟨hbuffer, htasks⟩ := receive_eq hstep halive
          unfold Watched.seen Receiver.read
          rw [hentered, hbuffer, htasks]
        · rintro chunk ⟨⟩
          exact hread
      · have hread : (Event.receive t data).bytesRead t s.broker = none :=
          if_neg fun h => halive h.2
        have hms : s.broker = s'.broker := by
          simp only [Event.apply, Option.not_isSome_iff_eq_none.1 halive] at hstep
          exact Except.ok.inj hstep
        exact .inl (seen_of_idle haccount hread rfl (by rw [hms]) (by rw [hms]))
    | parseData t beyond =>
      obtain rfl : t = id := hat
      by_cases hmem : t ∈ s.broker.tasks
      · refine .inr ⟨.task, ⟨List.count_pos_iff.2 hmem, _, tells_arrival hmem hstep, ?_⟩, ?_⟩
        · exact (parses_of_apply hstep).task hr.sound haccount
        · rintro chunk ⟨⟩
      · have hms : s.broker = s'.broker := by
          simp only [Event.apply, if_neg hmem] at hstep
          exact Except.ok.inj hstep
        have harrival : Event.arrival p (.parseData t beyond) s.broker = .nothing := if_neg hmem
        refine .inl (seen_of_idle haccount rfl ?_ ?_ ?_)
        · rw [harrival]
          rfl
        · rw [hms]
        · rw [hms]
    | _ => exact absurd hat not_false
  · obtain ⟨hbuffer, htasks⟩ := e.apply_elsewhere hr hat hstep
    exact .inl (seen_of_idle haccount (e.bytesRead_elsewhere hat)
      (e.packetFrom_elsewhere hat hstep) hbuffer htasks)

/-- **Seen from one transport, the broker is a receiver.** -/
theorem seen_refines (hrun : Run (Meeting (WatchedStep p id) (PacedAt id packets)) {} events s) :
    ∃ actions, Run (Meeting (ReceiverStep (Tells p)) (Paced Wire.frame packets)) {} actions
      (s.seen id) := by
  have hstep : ∀ s₁ e s₂, Reachable p s₁.broker →
      Meeting (WatchedStep p id) (PacedAt id packets) s₁ e s₂ → Reachable p s₂.broker ∧
        (s₂.seen id = s₁.seen id ∨ ∃ action, Meeting (ReceiverStep (Tells p))
          (Paced Wire.frame packets) (s₁.seen id) action (s₂.seen id)) := by
    rintro s₁ e s₂ hr ⟨hpaced, hstep⟩
    refine ⟨hr.step hstep.1, (hstep.receives hr).imp_right ?_⟩
    rintro ⟨action, haction, hread⟩
    refine ⟨action, ?_, haction⟩
    cases action with
    | read chunk => exact hpaced chunk (hread chunk rfl)
    | task => trivial
  exact (hrun.stutters (f := Watched.seen id)
    (I := fun s => Reachable p s.broker) .init hstep).2

/-- **The packets of a connection are handled in order, one for each read**: while every read
completes as many packets as there were reads, and no two tasks overlap, those handled are the first
ones, as many as tasks have run, and the rest of what was received is in the buffer. -/
theorem lockstep_of_run (hpackets : ∀ pkt ∈ packets, Wire.WellFormed pkt)
    (hrun : Run (Meeting (WatchedStep p id) (PacedAt id packets)) {} events s) :
    s.account.handled = packets.take (s.account.reads - s.broker.tasks.count id) ∧
      s.account.handled.flatMap Wire.frame ++ s.broker.receiveBuffer id = s.account.received := by
  obtain ⟨actions, hactions⟩ := seen_refines hrun
  have hinstep := lockstep recognizes_tells hpackets hactions
  exact ⟨hinstep.emitted, hinstep.buffer⟩

/-! ### Two packets in two reads -/

instance (packets : List Packet) (s : Watched) (e : Event) : Decidable (PacedAt id packets s e) :=
  decidable_of_iff (∀ data ∈ e.bytesRead id s.broker,
    PacedRead Wire.frame packets (s.seen id) data) Iff.rfl

/-- An event that comes in time. -/
def Watched.next (p : Platform) (id : ℕ) (packets : List Packet) (s : Watched) (e : Event) :
    Option Watched :=
  if PacedAt id packets s e then
    (e.apply p s.broker).toOption.map fun ms => ⟨ms, s.account.enter p id e s.broker⟩
  else none

theorem Watched.next_step (h : s.next p id packets e = some s') :
    Meeting (WatchedStep p id) (PacedAt id packets) s e s' := by
  unfold Watched.next at h
  split_ifs at h with hpaced
  cases hms : e.apply p s.broker with
  | error fault =>
    rw [hms] at h
    cases h
  | ok ms =>
    rw [hms] at h
    obtain rfl := Option.some.inj h
    exact ⟨hpaced, hms, rfl⟩

/-- `A` connects and publishes. -/
def connectAndPublish : List Packet :=
  [{ header := { type := .connect }, pktLen := 15,
      pkt := .connect { cf := ConnectFlags.unpack 2, level := 4, clientId := [65] } }, packetSeven]

theorem wellFormed_connectAndPublish : ∀ pkt ∈ connectAndPublish, Wire.WellFormed pkt := by
  intro pkt hpkt
  simp only [connectAndPublish, List.mem_cons, List.not_mem_nil, or_false] at hpkt
  rcases hpkt with rfl | rfl
  · exact ⟨⟨rfl, by decide, ⟨by decide, rfl, rfl, rfl, rfl⟩⟩, by decide +kernel, by decide +kernel⟩
  · exact ⟨⟨rfl, by decide, by decide, by decide⟩, by decide, by decide +kernel⟩

/-- The CONNECT comes with a part of the PUBLISH, and its task runs when the rest is there. -/
def pipelinedRun : List Event :=
  [.newConnection 3, .receive 0 (connectFrame 65 2 ++ [0x32, 6, 0]), .receive 0 [1, 116, 0, 7, 1],
    .parseData 0 fun _ => 0, .parseData 0 fun _ => 0]

theorem lockstep_of_run_pipelined : ∃ s,
    Run (Meeting (WatchedStep .sorting 0) (PacedAt 0 connectAndPublish)) {} pipelinedRun s ∧
      s.account.handled = connectAndPublish ∧ s.broker.receiveBuffer 0 = [] := by
  obtain ⟨s, hs, hreads, htasks, hreceived⟩ := @exists_of_any _
    (pipelinedRun.foldlM (Watched.next .sorting 0 connectAndPublish) {})
    (fun s => s.account.reads = 2 ∧ s.broker.tasks = [] ∧
      s.account.received = connectAndPublish.flatMap Wire.frame) _ (by decide +kernel)
  have hrun := Run.of_foldlM (fun _ _ _ => Watched.next_step) hs
  obtain ⟨hhandled, hbuffer⟩ := lockstep_of_run wellFormed_connectAndPublish hrun
  rw [hreads, htasks] at hhandled
  have hall : s.account.handled = connectAndPublish := hhandled
  refine ⟨s, hrun, hall, ?_⟩
  rw [hall, hreceived] at hbuffer
  exact List.append_right_eq_self.1 hbuffer

end Culex
