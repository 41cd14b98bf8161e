import Culex.Replies
import Culex.Serving

/-!
# The publishers of the test suite

`test/publisher`: clients that connect, and then publish the same message under ever new
identifiers, one frame at a time, each time waiting for the reply.

* `qos1`, `qos2`: the two clients that wait, as programs;
* `Publishing`, `PublisherStep`: a client at the broker, with the streams between them, while
  anything else goes on;
* `talks_of_run`, `Joined.realizes`: seen from the client, this is a conversation;
* `qos1_of_run`, `qos2_of_run`: so every message is routed once, in order, and nobody is stuck.
-/

namespace Culex

open ByteReader ManageSessions Conversation

/-! ### The clients -/

/-- The topic and the payload of a publisher, which builds its frames in 100 bytes. -/
structure Text where
  topic : Bytes
  payload : Bytes
  fits : 6 + topic.length + payload.length ≤ 100

/-- A loop that sends a frame and waits for the reply, of which it reads `capacity` bytes. -/
structure Program (κ : Type) where
  sends : κ → Bytes
  hears : κ → Bytes → κ
  capacity : ℕ

/-- The two bytes of a packet identifier. -/
def identifierBytes (packetId : UInt16) : Bytes :=
  [(packetId >>> 8).toUInt8, (packetId &&& 0xFF).toUInt8]

/-- The frame of a PUBLISH, behind its first byte. -/
def publishFrameOf (m : Text) (first : UInt8) (packetId : UInt16) : Bytes :=
  let remaining := 2 + m.topic.length + 2 + m.payload.length
  first :: UInt8.ofNat remaining :: 0x00 :: UInt8.ofNat m.topic.length ::
    (m.topic ++ identifierBytes packetId ++ m.payload)

/-- `qos1.cpp`: the state is the next identifier. -/
def qos1 (m : Text) : Program UInt16 where
  sends packetId := publishFrameOf m 0x32 packetId
  hears packetId _ := packetId + 1
  capacity := 4

/-- The state of `qos2.cpp`: the identifier, and whether its PUBLISH has been answered with a
PUBREC. -/
structure Qos2 where
  packetId : UInt16 := 1
  releasing : Bool := false

/-- `qos2.cpp`: anything but a PUBREC, and the client goes on to the next message. -/
def qos2 (m : Text) : Program Qos2 where
  sends k :=
    if k.releasing then 0x62 :: 0x02 :: identifierBytes k.packetId
    else publishFrameOf m 0x34 k.packetId
  hears k resp :=
    if k.releasing then { packetId := k.packetId + 1 }
    else if resp.headD 0 >>> 4 = 5 then { k with releasing := true }
    else { packetId := k.packetId + 1 }
  capacity := 4

/-! ### The packets in their frames -/

/-- The message that a client publishes. -/
def Text.message (m : Text) (qos : UInt8) (packetId : UInt16) : Packet where
  header := { type := .publish, qos }
  pktLen := 6 + m.topic.length + m.payload.length
  pkt := .publish { topic := m.topic, packetId, payload := m.payload }

def pubrelPacket (packetId : UInt16) : Packet where
  header := { type := .pubrel, qos := 1 }
  pktLen := 4
  pkt := .ack ⟨packetId⟩

theorem identifierBytes_eq (packetId : UInt16) : identifierBytes packetId = be16 packetId := by
  have hhigh : (packetId >>> 8).toUInt8 = UInt8.ofNat (packetId.toNat / 256) := by
    apply UInt8.toNat_inj.1
    simp [Nat.shiftRight_eq_div_pow]
  have hlow : (packetId &&& 0xFF).toUInt8 = UInt8.ofNat (packetId.toNat % 256) := by
    have hand : packetId.toNat % 256 &&& 255 = packetId.toNat % 256 :=
      (Nat.and_two_pow_sub_one_eq_mod _ 8).trans (Nat.mod_mod _ _)
    apply UInt8.toNat_inj.1
    simp [hand]
  rw [identifierBytes, hhigh, hlow, be16]

/-- A length that one byte holds. -/
theorem be16_ofNat {n : ℕ} (h : n < 256) : be16 (UInt16.ofNat n) = [0, UInt8.ofNat n] := by
  have hmod : n % 65536 = n := Nat.mod_eq_of_lt (by omega)
  have hhigh : n / 256 = 0 := Nat.div_eq_of_lt h
  have hlow : n % 256 = n := Nat.mod_eq_of_lt h
  unfold be16
  simp [hmod, hhigh, hlow]

theorem body_message (m : Text) {qos : UInt8} (hq : 0 < qos) (packetId : UInt16) :
    Wire.body (m.message qos packetId) =
      0x00 :: UInt8.ofNat m.topic.length :: (m.topic ++ identifierBytes packetId ++ m.payload) := by
  have hlen : m.topic.length < 256 := by
    have := m.fits
    omega
  show Wire.publishBody qos _ = _
  rw [Wire.publishBody, if_pos hq, str16, be16_ofNat hlen, identifierBytes_eq]
  simp

/-- The frame of a message, as its client builds it. -/
theorem frame_message (m : Text) {qos first : UInt8}
    (h : qos = 1 ∧ first = 0x32 ∨ qos = 2 ∧ first = 0x34) (packetId : UInt16) :
    Wire.frame (m.message qos packetId) = publishFrameOf m first packetId := by
  have hfits := m.fits
  have hq : 0 < qos := by
    rcases h with ⟨rfl, -⟩ | ⟨rfl, -⟩ <;> decide
  have hfirst : (m.message qos packetId).header.pack = first := by
    rcases h with ⟨rfl, rfl⟩ | ⟨rfl, rfl⟩
    · show Header.pack { type := .publish, qos := 1 } = 0x32
      decide
    · show Header.pack { type := .publish, qos := 2 } = 0x34
      decide
  have hlen : (Wire.body (m.message qos packetId)).length =
      2 + m.topic.length + 2 + m.payload.length := by
    rw [body_message m hq]
    simp [identifierBytes]
    omega
  rw [Wire.frame, hfirst, hlen, Wire.remainingLength_of_lt (by omega), body_message m hq]
  rfl

theorem frame_pubrel (packetId : UInt16) :
    Wire.frame (pubrelPacket packetId) = 0x62 :: 0x02 :: identifierBytes packetId := by
  have hheader : Header.pack { type := .pubrel, qos := 1 } = 0x62 := by decide
  have hbody : Wire.body (pubrelPacket packetId) = be16 packetId := rfl
  rw [identifierBytes_eq, Wire.frame, hbody, Wire.remainingLength_of_lt (by simp)]
  exact congrArg (· :: _) hheader

theorem wellFormed_message (m : Text) {qos : UInt8} (hq : qos = 1 ∨ qos = 2) (packetId : UInt16) :
    Wire.WellFormed (m.message qos packetId) ∧ (m.message qos packetId).Asks := by
  have hfits := m.fits
  have hpos : 0 < qos ∧ qos < 3 ∧ qos ≠ 0 := by
    rcases hq with rfl | rfl <;> decide
  have hlen : (Wire.body (m.message qos packetId)).length =
      4 + m.topic.length + m.payload.length := by
    rw [body_message m hpos.1]
    simp [identifierBytes]
    omega
  refine ⟨⟨⟨rfl, hpos.2.1, ?_, fun h => absurd h hpos.2.2⟩, ?_, ?_⟩, .publish ⟨rfl, rfl⟩ hq⟩
  · show m.topic.length < 65536
    omega
  · omega
  · rw [length_frame, hlen, Wire.remainingLength_of_lt (by omega)]
    show 6 + m.topic.length + m.payload.length = 1 + 1 + (4 + m.topic.length + m.payload.length)
    omega

theorem wellFormed_pubrel (packetId : UInt16) :
    Wire.WellFormed (pubrelPacket packetId) ∧ (pubrelPacket packetId).Asks := by
  refine ⟨⟨.inr (.inr (.inl rfl)), ?_, ?_⟩, .pubrel rfl rfl⟩
  · show (be16 packetId).length ≤ 2097151
    simp
  · rw [frame_pubrel]
    rfl

/-! ### A publisher at the broker -/

/-- The broker, a publisher that has connected to it, and what is between them. -/
structure Publishing (κ : Type) where
  broker : ManageSessions
  client : κ
  waiting : Bool := false
  /-- What the client has sent, and the broker has not read. -/
  wire : Bytes := []
  /-- How many of the bytes handed to its transport the client has read. -/
  consumed : ℕ
  heard : List Bytes := []
  /-- The packets that have been routed for the client. -/
  published : List Packet := []

inductive PublisherAction
  | send
  | deliver (chunk : Bytes)
  | parse (beyond : Mem)
  | recv
  | other (e : Event)

/-- The steps of the client, the stream and the tasks. -/
def PublisherAction.Own : PublisherAction → Prop
  | .other _ => False
  | _ => True

variable {κ : Type}

/-- The bytes that the client has not read. -/
def Publishing.inbox (s : Publishing κ) (t : ℕ) : Bytes :=
  (s.broker.output t).flatten.drop s.consumed

/-- A publisher that starts on its transport. -/
def Publishing.start (ms : ManageSessions) (client : κ) (t : ℕ) : Publishing κ where
  broker := ms
  client
  consumed := (ms.output t).flatten.length

section Steps

variable (p : Platform) (prog : Program κ) (r : SessionRef) (t : ℕ)

/-- The transitions.  The stream to the broker is cut anywhere, the tasks run at any time, and
anything may go on elsewhere that does not concern the client and leaves its connection open. -/
def PublisherStep (s : Publishing κ) : PublisherAction → Publishing κ → Prop
  | .send, s' =>
    s.waiting = false ∧ s' = { s with waiting := true, wire := s.wire ++ prog.sends s.client }
  | .deliver chunk, s' => ∃ rest ms', s.wire = chunk ++ rest ∧
      BrokerStep p s.broker (.receive t chunk) ms' ∧ s' = { s with broker := ms', wire := rest }
  | .parse beyond, s' => Believable (s.broker.receiveBuffer t) beyond ∧ ∃ ms',
      BrokerStep p s.broker (.parseData t beyond) ms' ∧ s' = { s with
        broker := ms'
        published := s.published ++ ms'.routed.drop s.broker.routed.length }
  | .recv, s' => s.waiting = true ∧ s.inbox t ≠ [] ∧ s' = { s with
      client := prog.hears s.client ((s.inbox t).take prog.capacity)
      waiting := false
      consumed := s.consumed + ((s.inbox t).take prog.capacity).length
      heard := s.heard ++ [(s.inbox t).take prog.capacity] }
  | .other e, s' => ¬ e.At t ∧ ¬ Concerns p r s.broker e ∧ ∃ ms',
      BrokerStep p s.broker e ms' ∧ Present ms' r.clientId t ∧ s' = { s with broker := ms' }

/-- The broker and the publisher, as a conversation. -/
def Publishing.seen (s : Publishing κ) : Talk κ Inflight UInt8 Packet where
  client := s.client
  server := s.broker.inflightOf r
  heard := s.heard
  passed := s.published
  waiting := s.waiting
  wire := s.wire
  buffer := s.broker.receiveBuffer t
  pending := s.broker.tasks.count t
  replies := s.inbox t

/-- The connection is the publisher's. -/
structure Joined (s : Publishing κ) : Prop where
  hosts : Hosts p r t s.broker
  consumed : s.consumed ≤ (s.broker.output t).flatten.length

end Steps

/-- A packet that a publisher may send. -/
def Packet.Proper (packet : Packet) : Prop := Wire.WellFormed packet ∧ packet.Asks

/-- The frames of a program are those of packets that the broker replies to. -/
structure Program.Speaks (prog : Program κ) (asks : κ → Packet) : Prop where
  frame : ∀ k, Wire.frame (asks k) = prog.sends k
  proper : ∀ k, (asks k).Proper
  capacity : 3 ≤ prog.capacity

/-- The program, as a client of a conversation. -/
def Program.client (prog : Program κ) (asks : κ → Packet) : Client κ Packet UInt8 :=
  ⟨asks, prog.hears, prog.capacity⟩

variable {p : Platform} {prog : Program κ} {asks : κ → Packet} {r : SessionRef} {t : ℕ}
  {s s' : Publishing κ} {ms ms' : ManageSessions} {packet : Packet}
  {x : Exchanges κ Inflight UInt8 Packet}

/-- No frame is a part of another one. -/
theorem eq_of_part {packet' : Packet} (h : Wire.WellFormed packet)
    (h' : Wire.WellFormed packet') (hpart : Wire.frame packet <+: Wire.frame packet') :
    packet = packet' := by
  obtain ⟨rest, hrest⟩ := hpart
  have hat := at_holding (Wire.frame packet') fun _ => 0
  have hat' := hat
  rw [← hrest] at hat'
  obtain ⟨q, hq⟩ := unpack_frame Platform.sorting.toCore h ((at_append _ _ _ _).1 hat').1
    (n := (Wire.frame packet').length) (by rw [← hrest, List.length_append]; omega)
  obtain ⟨q', hq'⟩ := unpack_frame Platform.sorting.toCore h' hat le_rfl
  rw [hrest, hq'] at hq
  exact (Prod.mk.inj (Prod.mk.inj (Except.ok.inj hq)).1).2.symm

theorem fair_of_speaks (h : prog.Speaks asks) :
    Fair (prog.client asks) servePacket Wire.frame Packet.Proper where
  ne_nil _ := List.cons_ne_nil _ _
  prefixFree a b ha hb hpart := eq_of_part ha.1 hb.1 hpart
  request := h.proper
  reply inflight k := by
    have hlen : (servePacket inflight (asks k)).reply.length = 3 := by
      unfold servePacket
      cases (h.proper k).2 with
      | publish hp =>
        simp only [hp.pkt]
        split_ifs
        · rw [buildAck_bytes _ (show ((0x40 : UInt8), PacketType.puback) ∈ headers by decide)]
          rfl
        · rw [buildAck_bytes _ (show ((0x50 : UInt8), PacketType.pubrec) ∈ headers by decide)]
          rfl
      | pubrel _ hp =>
        simp only [hp]
        rw [buildAck_bytes _ (show ((0x70 : UInt8), PacketType.pubcomp) ∈ headers by decide)]
        rfl
    have hcapacity := h.capacity
    refine ⟨List.ne_nil_of_length_pos ?_, ?_⟩
    · show 0 < (servePacket inflight (asks k)).reply.length
      omega
    · show (servePacket inflight (asks k)).reply.length ≤ prog.capacity
      omega

/-! ### Step by step -/

/-- The client sends. -/
theorem seen_send (h : prog.Speaks asks) : Publishing.seen r t { s with
    waiting := true, wire := s.wire ++ prog.sends s.client } =
      (s.seen r t).send (prog.client asks) Wire.frame := by
  unfold Talk.send
  rw [show Wire.frame ((prog.client asks).request (s.seen r t).client) = prog.sends s.client from
    h.frame _]
  rfl

/-- The broker reads. -/
theorem Joined.deliver (hT : Joined p r t s) {chunk rest : Bytes}
    (h : BrokerStep p s.broker (.receive t chunk) ms') :
    Joined p r t { s with broker := ms', wire := rest } ∧
      Publishing.seen r t { s with broker := ms', wire := rest } =
        (s.seen r t).read chunk rest := by
  obtain ⟨hhosts, hinflight, hout⟩ := hT.hosts.receive h
  obtain ⟨hbuffer, htasks⟩ := receive_eq h (by rw [hT.hosts.lockTransport]; rfl)
  refine ⟨⟨hhosts, ?_⟩, ?_⟩
  · show s.consumed ≤ (ms'.output t).flatten.length
    rw [hout]
    exact hT.consumed
  · unfold Publishing.seen Talk.read Publishing.inbox
    simp only [hinflight, hbuffer, htasks, hout]

/-- The state after a task. -/
def Publishing.parsed (s : Publishing κ) (ms' : ManageSessions) : Publishing κ :=
  { s with
    broker := ms'
    published := s.published ++ ms'.routed.drop s.broker.routed.length }

/-- A task takes a packet. -/
theorem Joined.serve (hT : Joined p r t s) (hproper : packet.Proper) (hmem : t ∈ s.broker.tasks)
    (hbuffer : s.broker.receiveBuffer t = Wire.frame packet) (beyond : Mem) :
    ∃ ms', BrokerStep p s.broker (.parseData t beyond) ms' ∧ Joined p r t (s.parsed ms') ∧
      (s.parsed ms').seen r t = (s.seen r t).served servePacket packet := by
  obtain ⟨ms', hstep, hhosts, hreplied, hempty, htasks⟩ :=
    hT.hosts.serve hproper.1 hproper.2 hmem hbuffer beyond
  have hle := hT.consumed
  refine ⟨ms', hstep, ⟨hhosts, ?_⟩, ?_⟩
  · show s.consumed ≤ (ms'.output t).flatten.length
    rw [hreplied.output, List.flatten_append, List.length_append]
    omega
  · obtain ⟨cs, hl, hinflight⟩ := hreplied.registered
    have hserver : ms'.inflightOf r = (servePacket (s.broker.inflightOf r) packet).server :=
      (inflightOf_of_lock hl).trans hinflight
    have hinbox : (s.parsed ms').inbox t =
        s.inbox t ++ (servePacket (s.broker.inflightOf r) packet).reply := by
      show (ms'.output t).flatten.drop s.consumed = _
      rw [hreplied.output, List.flatten_append, List.drop_append_of_le_length hle]
      simp [Publishing.inbox]
    have hcount : ms'.tasks.count t = s.broker.tasks.count t - 1 := by
      rw [htasks, List.count_erase_self]
    unfold Publishing.seen Talk.served
    rw [hinbox]
    simp only [Publishing.parsed, hserver, hempty, hcount, hreplied.routed, List.drop_left]

/-- A task finds a part of a frame. -/
theorem Joined.idle (hT : Joined p r t s) (hproper : packet.Proper) (hmem : t ∈ s.broker.tasks)
    (hcut : s.broker.receiveBuffer t <+: Wire.frame packet)
    (hne : s.broker.receiveBuffer t ≠ Wire.frame packet) {beyond : Mem}
    (hbeyond : Believable (s.broker.receiveBuffer t) beyond) :
    BrokerStep p s.broker (.parseData t beyond) (endTask t s.broker) ∧
      Joined p r t (s.parsed (endTask t s.broker)) ∧
        (s.parsed (endTask t s.broker)).seen r t = (s.seen r t).idle := by
  obtain ⟨hstep, hhosts⟩ := hT.hosts.idle hproper.1 hcut hne hbeyond hmem
  have hcount : (endTask t s.broker).tasks.count t = s.broker.tasks.count t - 1 :=
    List.count_erase_self ..
  have hrouted : (endTask t s.broker).routed.drop s.broker.routed.length = [] :=
    List.drop_length
  refine ⟨hstep, ⟨hhosts, hT.consumed⟩, ?_⟩
  unfold Publishing.seen Talk.idle
  simp only [Publishing.parsed, hrouted, hcount, List.append_nil]
  rfl

/-- The client hears. -/
theorem Joined.recv (hT : Joined p r t s) (asks : κ → Packet)
    (h : PublisherStep p prog r t s .recv s') :
    Joined p r t s' ∧ s'.seen r t = (s.seen r t).hear (prog.client asks) := by
  obtain ⟨-, -, rfl⟩ := h
  have hlen : (s.inbox t).length = (s.broker.output t).flatten.length - s.consumed := by
    simp [Publishing.inbox]
  have hle := hT.consumed
  refine ⟨⟨hT.hosts, ?_⟩, ?_⟩
  · show s.consumed + ((s.inbox t).take prog.capacity).length ≤ (s.broker.output t).flatten.length
    rw [List.length_take]
    omega
  · have hinbox : (s.broker.output t).flatten.drop
        (s.consumed + ((s.inbox t).take prog.capacity).length) =
          (s.inbox t).drop prog.capacity := by
      rw [← List.drop_drop]
      show (s.inbox t).drop _ = _
      rw [List.length_take]
      rcases le_total prog.capacity (s.inbox t).length with hcap | hcap
      · rw [min_eq_left hcap]
      · rw [min_eq_right hcap, List.drop_length, List.drop_eq_nil_of_le hcap]
    unfold Publishing.seen Talk.hear
    simp only [Publishing.inbox] at hinbox ⊢
    rw [hinbox]
    rfl

/-- Something goes on elsewhere. -/
theorem Joined.other (hT : Joined p r t s) {e : Event}
    (h : PublisherStep p prog r t s (.other e) s') :
    Joined p r t s' ∧ s'.seen r t = s.seen r t := by
  obtain ⟨hat, hno, ms', hstep, hpresent, rfl⟩ := h
  obtain ⟨hhosts, hinflight, hout⟩ := hT.hosts.elsewhere hat hno hstep hpresent
  obtain ⟨hbuffer, htasks⟩ := e.apply_elsewhere hT.hosts.reachable hat hstep
  refine ⟨⟨hhosts, ?_⟩, ?_⟩
  · show s.consumed ≤ (ms'.output t).flatten.length
    rw [hout]
    exact hT.consumed
  · unfold Publishing.seen Publishing.inbox
    simp only [hinflight, hbuffer, htasks, hout]

/-- **A step is a step of the conversation**, or is not seen there. -/
theorem PublisherStep.talks (h : prog.Speaks asks) (hT : Joined p r t s)
    (hx : InStep (prog.client asks) servePacket Wire.frame x (s.seen r t))
    {action : PublisherAction} (hstep : PublisherStep p prog r t s action s') :
    Joined p r t s' ∧ (s'.seen r t = s.seen r t ∨
      ∃ a, TalkStep (prog.client asks) servePacket Wire.frame Packet.Proper (s.seen r t) a
        (s'.seen r t)) := by
  cases action with
  | send =>
    obtain ⟨hready, rfl⟩ := hstep
    refine ⟨⟨hT.hosts, hT.consumed⟩, .inr ⟨.send, ?_⟩⟩
    rw [seen_send h]
    exact .send hready
  | deliver chunk =>
    obtain ⟨rest, ms', hwire, hread, rfl⟩ := hstep
    obtain ⟨hT', hseen⟩ := @Joined.deliver _ p r t s ms' hT chunk rest hread
    refine ⟨hT', .inr ⟨.read chunk, ?_⟩⟩
    rw [hseen]
    exact .read hwire
  | parse beyond =>
    obtain ⟨hbeyond, ms', hparse, rfl⟩ := hstep
    by_cases hmem : t ∈ s.broker.tasks
    · have hpending : 0 < (s.seen r t).pending := List.count_pos_iff.2 hmem
      have hproper := h.proper x.client
      have hcut : s.broker.receiveBuffer t <+: Wire.frame (asks x.client) := hx.cut
      by_cases hwhole : s.broker.receiveBuffer t = Wire.frame (asks x.client)
      · obtain ⟨ms₁, hstep, hT', hseen⟩ := hT.serve hproper hmem hwhole beyond
        obtain rfl := Except.ok.inj (hstep.symm.trans hparse)
        refine ⟨hT', .inr ⟨.task, ?_⟩⟩
        show TalkStep _ _ _ _ (s.seen r t) .task ((s.parsed ms₁).seen r t)
        rw [hseen]
        exact .serve hpending hproper hwhole
      · obtain ⟨hstep, hT', hseen⟩ := hT.idle hproper hmem hcut hwhole hbeyond
        obtain rfl := Except.ok.inj (hstep.symm.trans hparse)
        refine ⟨hT', .inr ⟨.task, ?_⟩⟩
        show TalkStep _ _ _ _ (s.seen r t) .task ((s.parsed (endTask t s.broker)).seen r t)
        rw [hseen]
        refine .idle hpending fun a ha hbuffer => hwhole ?_
        have hframe : s.broker.receiveBuffer t = Wire.frame a := hbuffer
        rw [hframe] at hcut ⊢
        rw [eq_of_part ha.1 hproper.1 hcut]
    · have hsame : s.broker = ms' := by
        simp only [BrokerStep, Event.apply, if_neg hmem] at hparse
        exact Except.ok.inj hparse
      subst hsame
      have hs : { s with
          broker := s.broker
          published := s.published ++ s.broker.routed.drop s.broker.routed.length } = s := by
        rw [List.drop_length, List.append_nil]
      rw [hs]
      exact ⟨hT, .inl rfl⟩
  | recv =>
    obtain ⟨hT', hseen⟩ := hT.recv asks hstep
    refine ⟨hT', .inr ⟨.hear, ?_⟩⟩
    rw [hseen]
    exact .hear hstep.1 hstep.2.1
  | other e =>
    obtain ⟨hT', hseen⟩ := hT.other hstep
    exact ⟨hT', .inl hseen⟩

/-- **A step of the conversation is a step** of the client, of the stream, or of a task. -/
theorem Joined.realizes (h : prog.Speaks asks) (hT : Joined p r t s)
    (hx : InStep (prog.client asks) servePacket Wire.frame x (s.seen r t)) {a : Action UInt8}
    {talk : Talk κ Inflight UInt8 Packet}
    (hstep : TalkStep (prog.client asks) servePacket Wire.frame Packet.Proper (s.seen r t) a talk) :
    ∃ action s', PublisherStep p prog r t s action s' ∧ action.Own ∧
      s'.seen r t = talk := by
  cases hstep with
  | send hready => exact ⟨.send, _, ⟨hready, rfl⟩, trivial, seen_send h⟩
  | @read chunk rest hwire =>
    obtain ⟨ms', hread⟩ : ∃ ms', BrokerStep p s.broker (.receive t chunk) ms' := by
      simp only [BrokerStep, Event.apply, hT.hosts.lockTransport]
      exact ⟨_, rfl⟩
    obtain ⟨-, hseen⟩ := @Joined.deliver _ p r t s ms' hT chunk rest hread
    exact ⟨.deliver chunk, _, ⟨rest, ms', hwire, hread, rfl⟩, trivial, hseen⟩
  | @serve packet hpending hproper hbuffer =>
    have hmem : t ∈ s.broker.tasks := List.count_pos_iff.1 hpending
    obtain ⟨ms', hparse, -, hseen⟩ := hT.serve hproper hmem hbuffer fun _ => 0
    have hbelievable : Believable (s.broker.receiveBuffer t) fun _ => 0 := by
      intro hnil
      exact absurd (hbuffer.symm.trans hnil) (List.cons_ne_nil _ _)
    exact ⟨.parse fun _ => 0, _, ⟨hbelievable, ms', hparse, rfl⟩, trivial, hseen⟩
  | idle hpending hcut =>
    have hmem : t ∈ s.broker.tasks := List.count_pos_iff.1 hpending
    have hproper := h.proper x.client
    -- behind an empty buffer there is what looks like a PUBLISH
    have hbelievable : Believable (s.broker.receiveBuffer t) fun _ => 0x30 := by
      intro _
      exact .inr (.inl (by decide))
    obtain ⟨hparse, -, hseen⟩ := hT.idle hproper hmem hx.cut (hcut _ hproper) hbelievable
    exact ⟨.parse fun _ => 0x30, _, ⟨hbelievable, _, hparse, rfl⟩, trivial, hseen⟩
  | hear hwaiting hne =>
    have hstep : PublisherStep p prog r t s .recv _ := ⟨hwaiting, hne, rfl⟩
    obtain ⟨-, hseen⟩ := hT.recv asks hstep
    exact ⟨.recv, _, hstep, trivial, hseen⟩

/-! ### Runs -/

/-- A client and a broker, before the first exchange. -/
def firstExchange (client : κ) (ms : ManageSessions) (r : SessionRef) :
    Exchanges κ Inflight UInt8 Packet :=
  { client, server := ms.inflightOf r }

theorem joined_start (h : Hosts p r t ms) (client : κ) :
    Joined p r t (Publishing.start ms client t) := ⟨h, le_rfl⟩

theorem inStep_start (hbuffer : ms.receiveBuffer t = []) (client : κ) :
    InStep (prog.client asks) servePacket Wire.frame (firstExchange client ms r)
      ((Publishing.start ms client t).seen r t) :=
  .ready rfl rfl rfl hbuffer List.drop_length

/-- **Seen from the client, a run is a run of the conversation.** -/
theorem talks_of_run (h : prog.Speaks asks) (hosts : Hosts p r t ms)
    (hbuffer : ms.receiveBuffer t = []) {client : κ} {actions : List PublisherAction}
    (hrun : Run (PublisherStep p prog r t) (Publishing.start ms client t) actions s) :
    Joined p r t s ∧ ∃ talk, Run (TalkStep (prog.client asks) servePacket Wire.frame Packet.Proper)
      ((Publishing.start ms client t).seen r t) talk (s.seen r t) := by
  refine hrun.invariant (I := fun s => Joined p r t s ∧ ∃ talk,
    Run (TalkStep (prog.client asks) servePacket Wire.frame Packet.Proper)
      ((Publishing.start ms client t).seen r t) talk (s.seen r t))
    ⟨joined_start hosts client, [], .nil⟩ ?_
  rintro s₁ action s₂ ⟨hT, talk, htalk⟩ hstep
  obtain ⟨n, hn⟩ := conversation (fair_of_speaks h) (inStep_start hbuffer client) htalk
  obtain ⟨hT', hsame | ⟨a, ha⟩⟩ := hstep.talks h hT hn
  · exact ⟨hT', talk, hsame ▸ htalk⟩
  · exact ⟨hT', talk ++ [a], htalk.snoc ha⟩

/-- **The publisher and the broker are in step.** -/
theorem inStep_of_run (h : prog.Speaks asks) (hosts : Hosts p r t ms)
    (hbuffer : ms.receiveBuffer t = []) {client : κ} {actions : List PublisherAction}
    (hrun : Run (PublisherStep p prog r t) (Publishing.start ms client t) actions s) :
    Joined p r t s ∧ ∃ n, InStep (prog.client asks) servePacket Wire.frame
      ((exchange (prog.client asks) servePacket)^[n] (firstExchange client ms r)) (s.seen r t) := by
  obtain ⟨hT, talk, htalk⟩ := talks_of_run h hosts hbuffer hrun
  exact ⟨hT, conversation (fair_of_speaks h) (inStep_start hbuffer client) htalk⟩

/-- A run of the conversation is a run of the client, the stream and the tasks. -/
theorem Joined.realizes_run (h : prog.Speaks asks) (hT : Joined p r t s)
    (hx : InStep (prog.client asks) servePacket Wire.frame x (s.seen r t))
    {actions : List (Action UInt8)} {talk : Talk κ Inflight UInt8 Packet}
    (hrun : Run (TalkStep (prog.client asks) servePacket Wire.frame Packet.Proper) (s.seen r t)
      actions talk) :
    ∃ actions' s', Run (Meeting (PublisherStep p prog r t) fun _ a => a.Own) s actions'
      s' ∧ actions'.length = actions.length ∧ s'.seen r t = talk ∧ Joined p r t s' ∧
        ∃ x, InStep (prog.client asks) servePacket Wire.frame x (s'.seen r t) := by
  induction hrun with
  | nil => exact ⟨[], s, .nil, rfl, rfl, hT, x, hx⟩
  | snoc _ last ih =>
    obtain ⟨actions', s₁, hrun, hlen, rfl, hT₁, x₁, hx₁⟩ := ih
    obtain ⟨action, s₂, hstep, hown, rfl⟩ := hT₁.realizes h hx₁ last
    obtain ⟨hT₂, -⟩ := hstep.talks h hT₁ hx₁
    refine ⟨actions' ++ [action], s₂, .snoc hrun ⟨hown, hstep⟩, ?_, rfl, hT₂, ?_⟩
    · simp [hlen]
    · rcases hx₁.step (fair_of_speaks h) last with hx₂ | hx₂
      · exact ⟨_, hx₂⟩
      · exact ⟨_, hx₂⟩

/-- **The client is never stuck**: four steps at most, none of them of others, and it has heard one
more reply. -/
theorem Joined.completes (h : prog.Speaks asks) (hT : Joined p r t s)
    (hx : InStep (prog.client asks) servePacket Wire.frame x (s.seen r t)) :
    ∃ actions s', Run (Meeting (PublisherStep p prog r t) fun _ a => a.Own) s actions
      s' ∧ actions.length ≤ 4 ∧ s'.heard.length = s.heard.length + 1 := by
  obtain ⟨actions, talk, hrun, hlen, hheard⟩ := hx.completes (fair_of_speaks h)
  obtain ⟨actions', s', hrun', hlen', rfl, -⟩ := hT.realizes_run h hx hrun
  exact ⟨actions', s', hrun', hlen'.trans_le hlen, hheard⟩

/-! ### `qos1.cpp` -/

theorem speaks_qos1 (m : Text) : (qos1 m).Speaks (m.message 1) where
  frame := frame_message m (.inl ⟨rfl, rfl⟩)
  proper := wellFormed_message m (.inl rfl)
  capacity := Nat.le_succ 3

/-- The identifier of a message, counted from 0. -/
def identifier (i : ℕ) : UInt16 := UInt16.ofNat (i + 1)

theorem identifier_succ (i : ℕ) : identifier (i + 1) = identifier i + 1 := by
  exact UInt16.ofNat_add (i + 1) 1

theorem exchanges_qos1 (m : Text) (inflight : Inflight) (n : ℕ) :
    (exchange ((qos1 m).client (m.message 1)) servePacket)^[n] { client := 1, server := inflight } =
      { client := identifier n
        server := inflight
        heard := (List.range n).map fun i => (buildAck (identifier i) .puback []).1
        passed := (List.range n).map fun i => m.message 1 (identifier i) } := by
  induction n with
  | zero => rfl
  | succ n ih =>
    rw [Function.iterate_succ_apply', ih, identifier_succ, List.range_succ, List.map_append,
      List.map_append]
    rfl

/-! ### `qos2.cpp` -/

/-- What `qos2.cpp` sends: the message, and when that has been answered, its PUBREL. -/
def Qos2.sending (m : Text) (k : Qos2) : Packet :=
  if k.releasing then pubrelPacket k.packetId else m.message 2 k.packetId

theorem speaks_qos2 (m : Text) : (qos2 m).Speaks (Qos2.sending m) where
  frame k := by
    unfold Qos2.sending qos2
    simp only
    split_ifs
    · exact frame_pubrel k.packetId
    · exact frame_message m (.inr ⟨rfl, rfl⟩) k.packetId
  proper k := by
    unfold Qos2.sending
    split_ifs
    · exact wellFormed_pubrel k.packetId
    · exact wellFormed_message m (.inr rfl) k.packetId
  capacity := Nat.le_succ 3

/-- The replies to `qos2.cpp`, in order: a PUBREC and a PUBCOMP for each message. -/
def qos2Reply (i : ℕ) : Bytes :=
  (buildAck (identifier (i / 2)) (if i % 2 = 0 then .pubrec else .pubcomp) []).1

/-- The exchanges of a message. -/
theorem exchange_publish (m : Text) {k : UInt16} {heard : List Bytes} {passed : List Packet} :
    exchange ((qos2 m).client (Qos2.sending m)) servePacket
        { client := { packetId := k }, server := ∅, heard, passed } =
      { client := { packetId := k, releasing := true }
        server := Inflight.insertNew ∅ k (m.message 2 k)
        heard := heard ++ [(buildAck k .pubrec []).1]
        passed } := by
  have hreply : (buildAck k .pubrec []).1.headD 0 >>> 4 = 5 := by
    rw [buildAck_bytes k (show ((0x50 : UInt8), PacketType.pubrec) ∈ headers by decide)]
    show (0x50 : UInt8) >>> 4 = 5
    decide
  have hserve : servePacket ∅ (m.message 2 k) =
      ⟨Inflight.insertNew ∅ k (m.message 2 k), (buildAck k .pubrec []).1, []⟩ := by
    unfold servePacket receivedInflight
    rfl
  have heffect : Exchanges.effect ((qos2 m).client (Qos2.sending m)) servePacket
      { client := { packetId := k }, server := ∅, heard, passed } =
        ⟨Inflight.insertNew ∅ k (m.message 2 k), (buildAck k .pubrec []).1, []⟩ := hserve
  unfold exchange
  rw [heffect]
  simp only [Program.client, qos2, Bool.false_eq_true, if_false, hreply, if_true, List.append_nil]

theorem exchange_pubrel (m : Text) {k : UInt16} {heard : List Bytes} {passed : List Packet} :
    exchange ((qos2 m).client (Qos2.sending m)) servePacket
        { client := { packetId := k, releasing := true }
          server := Inflight.insertNew ∅ k (m.message 2 k), heard, passed } =
      { client := { packetId := k + 1 }
        server := ∅
        heard := heard ++ [(buildAck k .pubcomp []).1]
        passed := passed ++ [m.message 2 k] } := by
  have herase : (Inflight.insertNew ∅ k (m.message 2 k)).erase k = ∅ := by
    apply AList.ext
    show List.kerase k [(⟨k, m.message 2 k⟩ : Sigma fun _ : UInt16 => Packet)] = []
    simp
  have hlookup : (Inflight.insertNew ∅ k (m.message 2 k)).lookup k = some (m.message 2 k) := by
    rw [Inflight.lookup_insertNew]
    simp
  have hserve : servePacket (Inflight.insertNew ∅ k (m.message 2 k)) (pubrelPacket k) =
      ⟨∅, (buildAck k .pubcomp []).1, [m.message 2 k]⟩ := by
    unfold servePacket
    simp only [pubrelPacket, herase, hlookup]
    rfl
  have heffect : Exchanges.effect ((qos2 m).client (Qos2.sending m)) servePacket
      { client := { packetId := k, releasing := true }
        server := Inflight.insertNew ∅ k (m.message 2 k), heard, passed } =
          ⟨∅, (buildAck k .pubcomp []).1, [m.message 2 k]⟩ := hserve
  unfold exchange
  rw [heffect]
  simp [Program.client, qos2]

theorem exchanges_qos2 (m : Text) (n : ℕ) :
    (exchange ((qos2 m).client (Qos2.sending m)) servePacket)^[n] { client := {}, server := ∅ } =
      { client := { packetId := identifier (n / 2), releasing := decide (n % 2 = 1) }
        server := if n % 2 = 0 then ∅ else
          Inflight.insertNew ∅ (identifier (n / 2)) (m.message 2 (identifier (n / 2)))
        heard := (List.range n).map qos2Reply
        passed := (List.range (n / 2)).map fun i => m.message 2 (identifier i) } := by
  induction n with
  | zero => rfl
  | succ n ih =>
    rw [Function.iterate_succ_apply', ih, List.range_succ, List.map_append, List.map_singleton]
    rcases Nat.mod_two_eq_zero_or_one n with heven | hodd
    · have hodd : (n + 1) % 2 = 1 := by omega
      have hhalf : (n + 1) / 2 = n / 2 := by omega
      simp only [heven, hodd, hhalf, qos2Reply, if_true]
      exact exchange_publish m
    · have heven : (n + 1) % 2 = 0 := by omega
      have hhalf : (n + 1) / 2 = n / 2 + 1 := by omega
      simp only [heven, hodd, hhalf, qos2Reply, List.range_succ, identifier_succ]
      rw [List.map_append]
      exact exchange_pubrel m

/-! ### Whole runs -/

/-- What the client has heard and has had routed is that of a number of exchanges, and the reply to
the next one is at most four steps away. -/
theorem exchanges_of_run (h : prog.Speaks asks) (hosts : Hosts p r t ms)
    (hbuffer : ms.receiveBuffer t = []) {client : κ} {actions : List PublisherAction}
    (hrun : Run (PublisherStep p prog r t) (Publishing.start ms client t) actions s) :
    ∃ n k, (k = n ∨ k = n + 1) ∧
      s.heard = ((exchange (prog.client asks) servePacket)^[n] (firstExchange client ms r)).heard ∧
      s.published =
        ((exchange (prog.client asks) servePacket)^[k] (firstExchange client ms r)).passed ∧
      ∃ actions' s', Run (Meeting (PublisherStep p prog r t) fun _ a => a.Own) s actions' s' ∧
        actions'.length ≤ 4 ∧ s'.heard.length = s.heard.length + 1 := by
  obtain ⟨hT, n, hn⟩ := inStep_of_run h hosts hbuffer hrun
  rcases hn.passed with hpassed | hpassed
  · exact ⟨n, n, .inl rfl, hn.heard, hpassed, hT.completes h hn⟩
  · have hsucc := hpassed.trans
      (congrArg Exchanges.passed (Function.iterate_succ_apply' _ _ _).symm)
    exact ⟨n, n + 1, .inr rfl, hn.heard, hsucc, hT.completes h hn⟩

/-- **A publisher with QoS 1 is served.**  Wherever its frames are cut, and whatever goes on
elsewhere, its messages are routed once each and in order, what it hears are their PUBACKs, and the
next of these is never more than four steps away. -/
theorem qos1_of_run (m : Text) (hosts : Hosts p r t ms) (hbuffer : ms.receiveBuffer t = [])
    {s : Publishing UInt16} {actions : List PublisherAction}
    (hrun : Run (PublisherStep p (qos1 m) r t) (Publishing.start ms 1 t) actions s) :
    ∃ n k, (k = n ∨ k = n + 1) ∧
      s.heard = (List.range n).map (fun i => (buildAck (identifier i) .puback []).1) ∧
      s.published = (List.range k).map (fun i => m.message 1 (identifier i)) ∧
      ∃ actions' s', Run (Meeting (PublisherStep p (qos1 m) r t) fun _ a => a.Own) s actions' s' ∧
        actions'.length ≤ 4 ∧ s'.heard.length = n + 1 := by
  obtain ⟨n, k, hk, hheard, hpublished, hnext⟩ :=
    exchanges_of_run (speaks_qos1 m) hosts hbuffer hrun
  have hall := exchanges_qos1 m (ms.inflightOf r)
  have hheard : s.heard = _ := hheard.trans (congrArg Exchanges.heard (hall n))
  have hlen : s.heard.length = n := by
    rw [hheard]
    simp
  exact ⟨n, k, hk, hheard, hpublished.trans (congrArg Exchanges.passed (hall k)), hlen ▸ hnext⟩

/-- **A publisher with QoS 2 is served exactly once.**  Its messages are routed once each and in
order, when their PUBRELs come; what it hears is the PUBREC and then the PUBCOMP of each. -/
theorem qos2_of_run (m : Text) (hosts : Hosts p r t ms) (hbuffer : ms.receiveBuffer t = [])
    (hinflight : ms.inflightOf r = ∅) {s : Publishing Qos2} {actions : List PublisherAction}
    (hrun : Run (PublisherStep p (qos2 m) r t) (Publishing.start ms {} t) actions s) :
    ∃ n k, (k = n ∨ k = n + 1) ∧ s.heard = (List.range n).map qos2Reply ∧
      s.published = (List.range (k / 2)).map (fun i => m.message 2 (identifier i)) ∧
      ∃ actions' s', Run (Meeting (PublisherStep p (qos2 m) r t) fun _ a => a.Own) s actions' s' ∧
        actions'.length ≤ 4 ∧ s'.heard.length = n + 1 := by
  obtain ⟨n, k, hk, hheard, hpublished, hnext⟩ :=
    exchanges_of_run (speaks_qos2 m) hosts hbuffer hrun
  rw [firstExchange, hinflight] at hheard hpublished
  have hheard : s.heard = _ := hheard.trans (congrArg Exchanges.heard (exchanges_qos2 m n))
  have hlen : s.heard.length = n := by
    rw [hheard]
    simp
  exact ⟨n, k, hk, hheard, hpublished.trans (congrArg Exchanges.passed (exchanges_qos2 m k)),
    hlen ▸ hnext⟩

/-! ### Against a new broker -/

/-- `"test"`. -/
def testId : Bytes := [116, 101, 115, 116]

/-- The CONNECT of the publishers: a clean session, and a keep-alive time of five seconds. -/
def testConnect : Bytes :=
  [0x10, 0x10, 0x00, 0x04, 77, 81, 84, 84, 0x04, 0x02, 0x00, 0x05, 0x00, 0x04] ++ testId

/-- The frame has been read. -/
def testArrived : ManageSessions := after .sorting [.newConnection 3, .receive 0 testConnect]

/-- A publisher has connected. -/
def testBroker : ManageSessions := after .sorting (.newConnection 3 :: arrive 0 testConnect)

/-- `"/test/topic1"` and `"[QoS1] hello"`. -/
def text1 : Text where
  topic := [47, 116, 101, 115, 116, 47, 116, 111, 112, 105, 99, 49]
  payload := [91, 81, 111, 83, 49, 93, 32, 104, 101, 108, 108, 111]
  fits := by decide

/-- `"test/topic2"` and `"[QoS2] hello"`. -/
def text2 : Text where
  topic := [116, 101, 115, 116, 47, 116, 111, 112, 105, 99, 50]
  payload := [91, 81, 111, 83, 50, 93, 32, 104, 101, 108, 108, 111]
  fits := by decide

theorem hosts_testBroker : Hosts .sorting ⟨testId, 1⟩ 0 testBroker ∧
    testBroker.inflightOf ⟨testId, 1⟩ = ∅ := by
  have hkind : Event.kind .sorting (.parseData 0 fun _ => 0) testArrived =
      .connect 0 { cf := ConnectFlags.unpack 2, level := 4, keepAlive := 5, clientId := testId } :=
    by decide +kernel
  have hempty : testArrived.sessionRegistry.entries = [] :=
    List.isEmpty_iff.1 (by decide +kernel)
  have hnone : ∀ clientId, testArrived.sessionRegistry.lookup clientId = none := by
    intro clientId
    refine AList.lookup_eq_none.2 ?_
    rw [AList.mem_keys, AList.keys, hempty]
    exact List.not_mem_nil
  have hstep : Event.apply .sorting (.parseData 0 fun _ => 0) testArrived = .ok testBroker := by
    obtain ⟨ms', hms', -⟩ := @exists_of_any_ok _ _
      (Event.apply .sorting (.parseData 0 fun _ => 0) testArrived) (fun _ => True) _
      (by decide +kernel)
    have hattempt : attempt .sorting testArrived (.parseData 0 fun _ => 0) = testBroker := rfl
    rw [← hattempt, attempt, hms']
  refine hosts_of_connect (after_reachable _ _) hkind rfl (hnone _)
    (⟨3, by decide +kernel, by decide +kernel⟩ : Present testArrived [] 0) ?_ hstep
  intro r' cs' hl
  cases (hnone r'.clientId).symm.trans (lock_eq_some_iff.1 hl)

theorem buffer_testBroker : testBroker.receiveBuffer 0 = [] := by decide +kernel

/-- The first message. -/
theorem qos1_of_run_test : ∃ actions s,
    Run (PublisherStep .sorting (qos1 text1) ⟨testId, 1⟩ 0) (.start testBroker 1 0) actions s ∧
      s.heard = [[0x40, 2, 0]] ∧ text1.message 1 1 ∈ s.published := by
  obtain ⟨n, k, -, hheard, -, actions, s, hrun, -, hlen⟩ :=
    qos1_of_run text1 hosts_testBroker.1 buffer_testBroker .nil
  have hn : n = 0 := by
    have := congrArg List.length hheard
    simpa [Publishing.start] using this.symm
  subst hn
  obtain ⟨n, k, hk, hheard, hpublished, -⟩ :=
    qos1_of_run text1 hosts_testBroker.1 buffer_testBroker hrun.of_meeting
  have hn : n = 1 := by
    rw [hheard] at hlen
    simpa using hlen
  subst hn
  refine ⟨actions, s, hrun.of_meeting, hheard, ?_⟩
  rw [hpublished]
  exact List.mem_map.2 ⟨0, List.mem_range.2 (by omega), rfl⟩

/-- The two exchanges of the first message. -/
theorem qos2_of_run_test : ∃ actions s,
    Run (PublisherStep .sorting (qos2 text2) ⟨testId, 1⟩ 0) (.start testBroker {} 0) actions s ∧
      s.heard = [[0x50, 2, 0], [0x70, 2, 0]] ∧ s.published = [text2.message 2 1] := by
  obtain ⟨hosts, hinflight⟩ := hosts_testBroker
  obtain ⟨n, k, -, hheard, -, actions, s, hrun, -, hlen⟩ :=
    qos2_of_run text2 hosts buffer_testBroker hinflight .nil
  have hn : n = 0 := by
    have := congrArg List.length hheard
    simpa [Publishing.start] using this.symm
  subst hn
  obtain ⟨n, k, -, hheard, -, actions', s', hrun', -, hlen'⟩ :=
    qos2_of_run text2 hosts buffer_testBroker hinflight hrun.of_meeting
  have hn : n = 1 := by
    rw [hheard] at hlen
    simpa using hlen
  subst hn
  have hboth := hrun.of_meeting.append hrun'.of_meeting
  obtain ⟨n, k, hk, hheard, hpublished, -⟩ :=
    qos2_of_run text2 hosts buffer_testBroker hinflight hboth
  have hn : n = 2 := by
    rw [hheard] at hlen'
    simpa using hlen'
  subst hn
  have hhalf : k / 2 = 1 := by omega
  rw [hhalf] at hpublished
  exact ⟨_, s', hboth, hheard, hpublished⟩

end Culex
