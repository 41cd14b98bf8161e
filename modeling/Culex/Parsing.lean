import Culex.Steady
import Culex.Stream
import Culex.Lib.Readers

/-!
# Parse tasks of one session

`MqttSession::parseData` takes its lock twice, to unpack a packet and to erase it, and calls the
handler without it.  `parseStep` has these sections as steps, and tasks of one session interleave
them.

* `parseStep_reads`: the tasks are readers of the receive buffer;
* `handled_once_iff`: each packet is handled once, and none is lost, as long as a packet is unpacked
  while no other task is between unpacking and erasing.
-/

namespace Culex

open ByteReader ManageSessions Reassembly

/-- The broker while tasks of a session parse, the number of bytes that they have erased, and the
packets that they have handled. -/
structure Parsing (ι : Type) where
  broker : ManageSessions
  offset : ℕ := 0
  handled : List (Readers.Entry ι Packet) := []

/-- The bytes that a transport has received and not parsed. -/
def ManageSessions.receiveBuffer (ms : ManageSessions) (id : ℕ) : Bytes :=
  ((ms.transports.lookup id).map Transport.recvBuff).getD []

/-- What `unpack` says about a receive buffer, with `beyond` behind it. -/
def packetAt (core : Core) (beyond : Mem) (buffer : Bytes) : Verdict Packet :=
  verdict core (fun _ => beyond) 0 buffer

section Steps

variable {ι : Type} (p : Platform) (id : ℕ)

/-- The end of a task that has found a malformed packet. -/
def rejectPacket (ms : ManageSessions) : Except Fault ManageSessions := do
  let (session, cs) ← ms.derefSession id
  let ms := if cs.cleansession then ms.removeFromRegistry session.clientId else ms
  return ms.forceDisconnect id

/-- A section of `parseData`: unpacking, erasing, or calling the handler and what follows.  There is
no step where the broker ends. -/
def parseStep (i : ι) : Readers.Action Mem → Parsing ι → Readers.Progress Packet →
    Option (Parsing ι × Readers.Progress Packet)
  | .decode beyond, s, .queued =>
    match s.broker.transports.lookup id with
    | none => none
    | some t =>
      match unpack p.toCore t.recvBuff.length (holding t.recvBuff beyond) 0 with
      | .error _ => none
      | .ok ((rc, pkt), _) =>
        if rc = mqttOk then some (s, .decoded s.offset pkt pkt.pktLen)
        else if rc = mqttPartialPacket then
          some ({ s with broker := endTask id s.broker }, .returned)
        else some (s, .rejected)
  | .erase, s, .decoded place pkt pktLen =>
    match s.broker.transports.lookup id with
    | none => none
    | some t =>
      some ({ s with
        broker := setTransport id (fun t => { t with recvBuff := t.recvBuff.drop pktLen }) s.broker
        offset := s.offset + min pktLen t.recvBuff.length }, .erased place pkt)
  | .handle, s, .erased place pkt =>
    match dispatch p pkt id s.broker >>= finish pkt id with
    | .error _ => none
    | .ok ms =>
      some ({ s with
        broker := endTask id ms
        handled := s.handled ++ [⟨i, place, pkt⟩] }, .handled place)
  | .handle, s, .rejected =>
    match rejectPacket id s.broker with
    | .error _ => none
    | .ok ms => some ({ s with broker := endTask id ms }, .returned)
  | _, _, _ => none

/-- The tasks are queued, and none has started. -/
def tasksQueued (ms : ManageSessions) : Threads ι (Parsing ι) (Readers.Progress Packet) where
  shared := { broker := ms }
  own _ := .queued

/-- What the tasks of a transport have to do with its receive buffer. -/
def Parsing.seen (s : Parsing ι) : Readers.Shared ι Packet UInt8 where
  buffer := s.broker.receiveBuffer id
  offset := s.offset
  handled := s.handled

/-- The tasks as readers of the receive buffer. -/
def readersOf (s : Threads ι (Parsing ι) (Readers.Progress Packet)) :
    Threads ι (Readers.Shared ι Packet UInt8) (Readers.Progress Packet) :=
  ⟨s.shared.seen id, s.own⟩

/-- A packet is unpacked while no other task is between unpacking and erasing. -/
def UnpacksAlone (s : Threads ι (Parsing ι) (Readers.Progress Packet))
    (step : ι × Readers.Action Mem) : Prop :=
  Readers.Alone (packetAt p.toCore) (readersOf id s) step

/-- Each packet of the stream has been handled once at most, and none has been erased that is
neither handled nor about to be. -/
def HandledOnce (frames : List Bytes) (s : Threads ι (Parsing ι) (Readers.Progress Packet)) :
    Prop := Readers.Once frames (readersOf id s)

end Steps

variable {ι : Type} {p : Platform} {ms ms' : ManageSessions} {id : ℕ} {packet : Packet}
  {handled : Handled} {cn : Connect}

/-! ### The receive buffer -/

/-- A CONNECT leaves the transports as they are. -/
theorem transports_connectHandler (hp : packet.pkt = .connect cn)
    (h : connectHandler p packet id ms = .ok handled) :
    handled.state.transports = ms.transports := by
  by_cases hrenews : Renews ms cn
  · have hvacated : (vacated cn ms).transports = ms.transports := by rw [vacated_eq]
    by_cases hlevel : cn.level = 4
    · obtain rfl := Except.ok.inj ((connectHandler_new hp hrenews hlevel).symm.trans h)
      rw [scheduleExpiry_eq]
      exact hvacated
    · obtain rfl := Except.ok.inj ((connectHandler_rejected hp hrenews hlevel).symm.trans h)
      exact hvacated
  · obtain ⟨⟨entry, hl⟩, hclean⟩ := not_renews_iff.1 hrenews
    rw [connectHandler_resumed hp hl hclean] at h
    cases hres : resendPending p entry.state
        (takeOver ⟨cn.clientId, entry.obj⟩ entry.state ms).1 with
    | error e =>
      rw [hres] at h
      cases h
    | ok ms₁ =>
      rw [hres] at h
      obtain rfl := Except.ok.inj h
      obtain ⟨log, rfl, -⟩ := resendPending_calls hres
      simp only
      rw [setSession_eq, takeOver_eq]

theorem receiveBuffer_congr (h : ms'.transports = ms.transports) (id : ℕ) :
    ms'.receiveBuffer id = ms.receiveBuffer id := by
  unfold receiveBuffer
  rw [h]

theorem receiveBuffer_of_lookup {t : Transport} (h : ms.transports.lookup id = some t) :
    ms.receiveBuffer id = t.recvBuff := by
  unfold receiveBuffer
  rw [h]
  rfl

theorem receiveBuffer_setTransport {f : Transport → Transport} {t : Transport}
    (h : ms.transports.lookup id = some t) :
    (setTransport id f ms).receiveBuffer id = (f t).recvBuff := by
  unfold setTransport receiveBuffer
  rw [h]
  simp only [AList.lookup_insert]
  rfl

/-- What follows the handler does not touch the receive buffer. -/
theorem receiveBuffer_finish (h : finish packet id handled = .ok ms') :
    ms'.receiveBuffer id = handled.state.receiveBuffer id := by
  unfold finish at h
  split_ifs at h
  · split at h
    · next cn _ =>
      obtain rfl := Except.ok.inj h
      show (setTransport id _ handled.state).receiveBuffer id = _
      cases hl : handled.state.transports.lookup id with
      | none =>
        unfold setTransport
        rw [hl]
      | some t => rw [receiveBuffer_setTransport hl, receiveBuffer_of_lookup hl]
    · cases h
  · obtain rfl := Except.ok.inj h
    exact receiveBuffer_congr (transports_forceDisconnect id) id
  · obtain rfl := Except.ok.inj h
    rfl

theorem transports_dispatch (h : dispatch p packet id ms = .ok handled) :
    handled.state.transports = ms.transports := by
  by_cases ht : packet.header.type = .connect
  · have hhandle : connectHandler p packet id ms = .ok handled := by
      unfold dispatch handlers at h
      rw [ht] at h
      exact h
    cases hp : packet.pkt with
    | connect cn => exact transports_connectHandler hp hhandle
    | _ =>
      unfold connectHandler at hhandle
      rw [hp] at hhandle
      obtain rfl := Except.ok.inj hhandle
      rfl
  · exact (dispatch_steady ht h).transports

/-- **Handling a packet does not touch the receive buffer.** -/
theorem receiveBuffer_handle
    (h : (dispatch p packet id ms >>= finish packet id) = .ok ms') :
    ms'.receiveBuffer id = ms.receiveBuffer id := by
  obtain ⟨handled, hd, hf⟩ := except_bind_eq_ok.1 h
  rw [receiveBuffer_finish hf]
  exact receiveBuffer_congr (transports_dispatch hd) id

theorem receiveBuffer_rejectPacket (h : rejectPacket id ms = .ok ms') :
    ms'.receiveBuffer id = ms.receiveBuffer id := by
  unfold rejectPacket at h
  obtain ⟨⟨r, cs⟩, -, h⟩ := except_bind_eq_ok.1 h
  obtain rfl := Except.ok.inj h
  rw [receiveBuffer_congr (transports_forceDisconnect id)]
  split_ifs <;> rfl

theorem exists_lookup_of_receiveBuffer (h : ms.receiveBuffer id ≠ []) :
    ∃ t, ms.transports.lookup id = some t := by
  cases hl : ms.transports.lookup id with
  | none =>
    unfold receiveBuffer at h
    rw [hl] at h
    exact absurd rfl h
  | some t => exact ⟨t, rfl⟩

/-- **A task that finds a frame** takes the packet out and hands it to the handler. -/
theorem apply_frame (hwf : Wire.WellFormed packet) (hmem : id ∈ ms.tasks) {rest : Bytes}
    (hbuffer : ms.receiveBuffer id = Wire.frame packet ++ rest) (beyond : Mem)
    (h : (dispatch p packet id (takeOut packet id ms) >>= finish packet id) = .ok ms') :
    Event.apply p (.parseData id beyond) ms = .ok (endTask id ms') ∧
      (endTask id ms').receiveBuffer id = rest := by
  obtain ⟨t, hl⟩ := exists_lookup_of_receiveBuffer (by
    rw [hbuffer]
    exact List.cons_ne_nil _ _)
  have hrecv : t.recvBuff = Wire.frame packet ++ rest :=
    (receiveBuffer_of_lookup hl).symm.trans hbuffer
  have hat := at_holding (Wire.frame packet ++ rest) beyond
  obtain ⟨q, hunpack⟩ := unpack_frame p.toCore hwf ((at_append _ _ _ _).1 hat).1
    (n := (Wire.frame packet ++ rest).length) (by rw [List.length_append]; omega)
  have hparse : parseData p id beyond ms = .ok ms' := by
    unfold parseData
    simp only [hl, hrecv, hunpack]
    exact h
  have hdrop : (takeOut packet id ms).receiveBuffer id = t.recvBuff.drop packet.pktLen :=
    receiveBuffer_setTransport hl
  constructor
  · simp only [Event.apply, if_pos hmem, hparse]
    rfl
  · show ms'.receiveBuffer id = rest
    rw [receiveBuffer_handle h, hdrop, hrecv, hwf.pktLen, List.drop_left]

/-! ### The tasks are readers -/

theorem packetAt_eq {core : Core} {beyond : Mem} {buffer : Bytes} {rc : ℤ} {pkt : Packet} {q : ℕ}
    (h : unpack core buffer.length (holding buffer beyond) 0 = .ok ((rc, pkt), q)) :
    packetAt core beyond buffer =
      if rc = mqttOk then .emit pkt pkt.pktLen
      else if rc = mqttPartialPacket then .wait
      else .reject := by
  unfold packetAt verdict
  rw [h]

/-- **The tasks of a session are readers of its receive buffer.** -/
theorem parseStep_reads {i : ι} {a : Readers.Action Mem} {s s' : Parsing ι}
    {own own' : Readers.Progress Packet} (h : parseStep p id i a s own = some (s', own')) :
    Readers.next (packetAt p.toCore) i a (s.seen id) own = some (s'.seen id, own') := by
  unfold Parsing.seen
  unfold parseStep at h
  split at h
  · next beyond =>
    split at h
    · cases h
    · next t ht =>
      have hbuffer := receiveBuffer_of_lookup ht
      split at h
      · cases h
      · next rc pkt q hu =>
        unfold Readers.next
        simp only [hbuffer, packetAt_eq hu]
        split_ifs at h ⊢
        · obtain ⟨rfl, rfl⟩ := Prod.mk.inj (Option.some.inj h)
          rw [hbuffer]
        · obtain ⟨rfl, rfl⟩ := Prod.mk.inj (Option.some.inj h)
          rw [← hbuffer]
          rfl
        · obtain ⟨rfl, rfl⟩ := Prod.mk.inj (Option.some.inj h)
          rw [hbuffer]
  · next place pkt pktLen =>
    split at h
    · cases h
    · next t ht =>
      obtain ⟨rfl, rfl⟩ := Prod.mk.inj (Option.some.inj h)
      unfold Readers.next
      simp only [receiveBuffer_of_lookup ht, receiveBuffer_setTransport ht]
  · next place pkt =>
    split at h
    · cases h
    · next ms hms =>
      obtain ⟨rfl, rfl⟩ := Prod.mk.inj (Option.some.inj h)
      unfold Readers.next
      rw [← receiveBuffer_handle hms]
      rfl
  · split at h
    · cases h
    · next ms hms =>
      obtain ⟨rfl, rfl⟩ := Prod.mk.inj (Option.some.inj h)
      unfold Readers.next
      rw [← receiveBuffer_rejectPacket hms]
      rfl
  · cases h

section Runs

variable [DecidableEq ι]

/-- **A task that runs by itself does what the broker does** when it parses data in one step. -/
theorem run_of_parseData {i : ι} {s : Threads ι (Parsing ι) (Readers.Progress Packet)}
    {beyond : Mem} {t : Transport} (hown : s.own i = .queued)
    (ht : s.shared.broker.transports.lookup id = some t)
    (h : parseData p id beyond s.shared.broker = .ok ms') :
    ∃ (actions : List (Readers.Action Mem)) (s' : _),
      Run (Interleaves (parseStep p id)) s (actions.map fun a => (i, a)) s' ∧
        s'.shared.broker = endTask id ms' := by
  unfold parseData at h
  simp only [ht, except_bind_eq_ok] at h
  obtain ⟨⟨⟨rc, pkt⟩, q⟩, hu, h⟩ := h
  simp only at h
  have hdecode : parseStep p id i (.decode beyond) s.shared (s.own i) =
      if rc = mqttOk then some (s.shared, .decoded s.shared.offset pkt pkt.pktLen)
      else if rc = mqttPartialPacket then
        some ({ s.shared with broker := endTask id s.shared.broker }, .returned)
      else some (s.shared, .rejected) := by
    unfold parseStep
    simp only [hown, ht, hu]
  split_ifs at h with hrc hpartial
  · -- the packet is erased and handled
    rw [if_pos hrc] at hdecode
    obtain ⟨s₁, hstep₁, hshared₁, hown₁⟩ := Interleaves.exists_of_next hdecode
    have herase : parseStep p id i .erase s₁.shared (s₁.own i) = some ({ s.shared with
        broker := takeOut pkt id s.shared.broker
        offset := s.shared.offset + min pkt.pktLen t.recvBuff.length },
        .erased s.shared.offset pkt) := by
      unfold parseStep
      simp only [hown₁, hshared₁, ht]
      rfl
    obtain ⟨s₂, hstep₂, hshared₂, hown₂⟩ := Interleaves.exists_of_next herase
    have hhandle : parseStep p id i .handle s₂.shared (s₂.own i) = some ({ s₂.shared with
        broker := endTask id ms'
        handled := s₂.shared.handled ++ [⟨i, s.shared.offset, pkt⟩] },
        .handled s.shared.offset) := by
      have hms : (dispatch p pkt id s₂.shared.broker >>= finish pkt id) = .ok ms' := by
        rw [hshared₂]
        exact h
      unfold parseStep
      simp only [hown₂, hms]
    obtain ⟨s₃, hstep₃, hshared₃, -⟩ := Interleaves.exists_of_next hhandle
    refine ⟨[.decode beyond, .erase, .handle], s₃, ?_, by rw [hshared₃]⟩
    exact .cons (.cons (.cons .nil hstep₃) hstep₂) hstep₁
  · -- there is no packet
    rw [if_neg hrc, if_pos hpartial] at hdecode
    obtain rfl := Except.ok.inj h
    obtain ⟨s₁, hstep₁, hshared₁, -⟩ := Interleaves.exists_of_next hdecode
    exact ⟨[.decode beyond], s₁, .cons .nil hstep₁, by rw [hshared₁]⟩
  · -- the packet is malformed
    rw [if_neg hrc, if_neg hpartial] at hdecode
    obtain ⟨s₁, hstep₁, hshared₁, hown₁⟩ := Interleaves.exists_of_next hdecode
    have hreject : parseStep p id i .handle s₁.shared (s₁.own i) =
        some ({ s.shared with broker := endTask id ms' }, .returned) := by
      have hms : rejectPacket id s.shared.broker = .ok ms' := h
      unfold parseStep
      simp only [hown₁, hshared₁, hms]
    obtain ⟨s₂, hstep₂, hshared₂, -⟩ := Interleaves.exists_of_next hreject
    exact ⟨[.decode beyond, .handle], s₂, .cons (.cons .nil hstep₂) hstep₁, by rw [hshared₂]⟩

variable {frames : List Bytes} {rest : Bytes}
  {s s' : Threads ι (Parsing ι) (Readers.Progress Packet)} {steps : List (ι × Readers.Action Mem)}

theorem reads_of_step {step : ι × Readers.Action Mem}
    (h : Interleaves (parseStep p id) s step s') :
    Interleaves (Readers.next (packetAt p.toCore)) (readersOf id s) step (readersOf id s') :=
  h.refines fun _ _ _ _ _ _ hnext => parseStep_reads hnext

omit [DecidableEq ι] in
theorem readersOf_tasksQueued (h : ms.receiveBuffer id = frames.flatten ++ rest) :
    readersOf id (tasksQueued ms : Threads ι (Parsing ι) (Readers.Progress Packet)) =
      Readers.initial (frames.flatten ++ rest) := by
  unfold readersOf Parsing.seen tasksQueued Readers.initial
  rw [h]

/-- Tasks that unpack alone are readers that are alone. -/
theorem reads_of_run (hbuffer : ms.receiveBuffer id = frames.flatten ++ rest)
    (h : Run (Meeting (Interleaves (parseStep p id)) (UnpacksAlone p id)) (tasksQueued ms) steps s) :
    Run (Meeting (Interleaves (Readers.next (packetAt p.toCore)))
      (Readers.Alone (packetAt p.toCore))) (Readers.initial (frames.flatten ++ rest)) steps
        (readersOf id s) := by
  rw [← readersOf_tasksQueued hbuffer]
  exact h.map fun _ _ _ hstep => ⟨hstep.1, reads_of_step hstep.2⟩

/-- **Each packet is handled once if tasks unpack alone**, and where all tasks have returned, only
then. -/
theorem handled_once_iff (hframes : Readers.Stream (packetAt p.toCore) frames rest)
    (hbuffer : ms.receiveBuffer id = frames.flatten ++ rest) :
    (∀ steps (s : Threads ι (Parsing ι) (Readers.Progress Packet)),
      Run (Meeting (Interleaves (parseStep p id)) (UnpacksAlone p id)) (tasksQueued ms) steps s →
        HandledOnce id frames s) ∧
    ∀ steps (s : Threads ι (Parsing ι) (Readers.Progress Packet)),
      Run (Interleaves (parseStep p id)) (tasksQueued ms) steps s → Readers.Quiet (readersOf id s) →
        (HandledOnce id frames s ↔
          Run (Meeting (Interleaves (parseStep p id)) (UnpacksAlone p id)) (tasksQueued ms) steps
            s) := by
  have halone : ∀ steps (s : Threads ι (Parsing ι) (Readers.Progress Packet)),
      Run (Meeting (Interleaves (parseStep p id)) (UnpacksAlone p id)) (tasksQueued ms) steps s →
        HandledOnce id frames s := fun steps s hrun =>
    Readers.once_of_alone hframes (reads_of_run hbuffer hrun)
  refine ⟨halone, fun steps s hrun hquiet => ⟨fun honce => ?_, halone steps s⟩⟩
  have hlogged : Readers.Logged (readersOf id s) := by
    refine hrun.invariant (I := fun s => Readers.Logged (readersOf id s)) (fun i place hi => ?_)
      fun s a s' hlog hstep => hlog.next (reads_of_step hstep)
    cases hi
  have hcases : Run (Meeting (Interleaves (parseStep p id)) (UnpacksAlone p id)) (tasksQueued ms)
      steps s ∨ Readers.Doubled frames (readersOf id s) := by
    refine hrun.meeting_or (H := fun s => Readers.Doubled frames (readersOf id s))
      (fun as s₁ a s₂ hmeets hstep hc => ?_) fun s₁ a s₂ hharm hstep =>
        hharm.next (reads_of_step hstep)
    obtain ⟨n, hsolo⟩ := Readers.solo_of_alone hframes (reads_of_run hbuffer hmeets)
    exact Readers.doubled_of_not_alone hsolo hc (reads_of_step hstep)
  exact hcases.resolve_right fun hharm =>
    Readers.not_once_of_doubled hharm hquiet hlogged honce

end Runs

/-! ### Frames -/

/-- There is no packet in an empty buffer. -/
theorem packetAt_nil (core : Core) (beyond : Mem) (pkt : Packet) (size : ℕ) :
    packetAt core beyond [] ≠ .emit pkt size := by
  intro h
  unfold packetAt verdict at h
  split at h
  · next rc pkt q hu =>
    split_ifs at h with hrc
    rw [hrc] at hu
    obtain ⟨-, len, k, -, hcomplete, -⟩ := exists_outcome hu
    have hlen := hcomplete.2
    rw [List.length_nil] at hlen
    omega
  · cases h

/-- The frames of well-formed packets are a stream. -/
theorem stream_frames (core : Core) {packets : List Packet} (h : ∀ p ∈ packets, Wire.WellFormed p) :
    Readers.Stream (packetAt core) (packets.map Wire.frame) [] where
  decodes bytes hbytes := by
    obtain ⟨pkt, hpkt, rfl⟩ := List.mem_map.1 hbytes
    refine ⟨List.cons_ne_nil _ _, fun beyond rest => ⟨pkt, ?_⟩⟩
    exact (framed_verdict core fun _ => beyond).emit pkt (h pkt hpkt) 0 rest
  rest_ne := packetAt_nil core

/-- A client has sent two packets, and two tasks are queued. -/
def twoReceived : ManageSessions :=
  after .sorting (.newConnection 3 :: arrive 0 (connectFrame 65 2) ++
    publishAndAck.map fun pkt => .receive 0 (Wire.frame pkt))

/-- The steps of a task. -/
def stepsOf (i : Bool) : List (Bool × Readers.Action Mem) :=
  [(i, .decode fun _ => 0), (i, .erase), (i, .handle)]

/-- Two tasks, one after the other. -/
theorem handled_once_serially : ∃ s : Threads Bool (Parsing Bool) (Readers.Progress Packet),
    Run (Meeting (Interleaves (parseStep .sorting 0)) (UnpacksAlone .sorting 0))
      (tasksQueued twoReceived) (stepsOf false ++ stepsOf true) s ∧
    HandledOnce 0 (publishAndAck.map Wire.frame) s ∧ s.shared.offset = 13 := by
  obtain ⟨s, hs, hfalse, htrue, hoffset, hplaces⟩ := exists_of_any (x := (stepsOf false ++
    stepsOf true).foldlM (Threads.next (parseStep .sorting 0)) (tasksQueued twoReceived))
    (P := fun s => s.own false = .handled 0 ∧ s.own true = .handled 9 ∧ s.shared.offset = 13 ∧
      s.shared.handled.map Readers.Entry.place = [0, 9]) (by decide +kernel)
  have hrun := Run.of_foldlM (fun _ _ _ => Interleaves.of_next) hs
  have hbuffer : twoReceived.receiveBuffer 0 = (publishAndAck.map Wire.frame).flatten ++ [] := by
    decide +kernel
  have hquiet : Readers.Quiet (readersOf 0 s) := by
    intro i
    cases i
    · exact .inr (.inl ⟨0, hfalse⟩)
    · exact .inr (.inl ⟨9, htrue⟩)
  have hcount : ∀ k < (publishAndAck.map Wire.frame).length,
      ([0, 9] : List ℕ).count (Readers.start (publishAndAck.map Wire.frame) k) = 1 := by
    decide +kernel
  have honce : HandledOnce 0 (publishAndAck.map Wire.frame) s := by
    refine ⟨fun k hk => ?_, fun k hk _ => .inl (List.mem_map.1 ?_)⟩
    · exact (hplaces ▸ hcount k hk).le
    · exact List.count_pos_iff.1 (hplaces ▸ (hcount k hk).symm ▸ Nat.one_pos)
  exact ⟨s, ((handled_once_iff (stream_frames _ wellFormed_publishAndAck) hbuffer).2 _ s hrun
    hquiet).1 honce, honce, hoffset⟩

/-- Two tasks, each section of the one followed by the same of the other. -/
def inStep : List (Bool × Readers.Action Mem) :=
  [(false, .decode fun _ => 0), (true, .decode fun _ => 0), (false, .erase), (true, .erase),
    (false, .handle), (true, .handle)]

/-- Two tasks unpack the PUBLISH before either of them erases it: it is handled twice, and the
PUBACK is lost. -/
theorem not_handled_once : Reachable .sorting twoReceived ∧
    (∀ p ∈ publishAndAck, Wire.WellFormed p) ∧
    twoReceived.receiveBuffer 0 = publishAndAck.flatMap Wire.frame ∧
    ∃ s : Threads Bool (Parsing Bool) (Readers.Progress Packet),
      Run (Interleaves (parseStep .sorting 0)) (tasksQueued twoReceived) inStep s ∧
      s.shared.handled.map Readers.Entry.place = [0, 0] ∧ s.shared.offset = 13 ∧
      ¬ HandledOnce 0 (publishAndAck.map Wire.frame) s := by
  refine ⟨after_reachable _ _, wellFormed_publishAndAck, by decide +kernel, ?_⟩
  obtain ⟨s, hs, hplaces, hoffset⟩ := exists_of_any
    (x := inStep.foldlM (Threads.next (parseStep .sorting 0)) (tasksQueued twoReceived))
    (P := fun s => s.shared.handled.map Readers.Entry.place = [0, 0] ∧ s.shared.offset = 13)
    (by decide +kernel)
  refine ⟨s, Run.of_foldlM (fun _ _ _ => Interleaves.of_next) hs, hplaces, hoffset, fun honce => ?_⟩
  have hle : (s.shared.handled.map Readers.Entry.place).count 0 ≤ 1 := honce.le_one 0 (by decide)
  rw [hplaces] at hle
  exact absurd hle (by decide)

end Culex
