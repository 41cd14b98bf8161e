import Culex.Lib.Conversation
import Culex.ExactlyOnce
import Culex.Surroundings

/-!
# The broker as a server of publishers

A client that publishes with QoS 1 or 2 is replied to, and what the broker does with its packets
depends on the inflight map of its session alone: `servePacket` says what, and `Hosts.serve` that a
task does it.
-/

namespace Culex

open ByteReader ManageSessions Conversation

/-- The packets of a publisher that the broker replies to. -/
inductive Packet.Asks (packet : Packet) : Prop
  | publish {pub : Publish} (isPublish : IsPublish packet pub)
      (qos : packet.header.qos = 1 ∨ packet.header.qos = 2)
  | pubrel {ack : Ack} (type : packet.header.type = .pubrel) (pkt : packet.pkt = .ack ack)

/-- What the broker makes of such a packet, by the inflight map of the session: the reply, and the
packets that are routed. -/
def servePacket (inflight : Inflight) (packet : Packet) : Effect Inflight UInt8 Packet :=
  match packet.pkt with
  | .publish pub =>
    if packet.header.qos = 1 then ⟨inflight, (buildAck pub.packetId .puback []).1, [packet]⟩
    else ⟨receivedInflight inflight pub packet, (buildAck pub.packetId .pubrec []).1, []⟩
  | .ack ack =>
    ⟨inflight.erase ack.packetId, (buildAck ack.packetId .pubcomp []).1,
      (inflight.lookup ack.packetId).toList⟩
  | _ => ⟨inflight, [], []⟩

variable {p : Platform} {r : SessionRef} {t : ℕ} {ms ms' : ManageSessions} {cs : ClientSession}
  {packet : Packet} {pub : Publish} {handled : Handled}

/-- The state after a handler that has replied. -/
structure Replied (r : SessionRef) (t : ℕ) (effect : Effect Inflight UInt8 Packet)
    (ms ms' : ManageSessions) : Prop where
  registered : ∃ cs, ms'.lock r = some cs ∧ cs.inflight = effect.server
  output : ms'.output t = ms.output t ++ [effect.reply]
  routed : ms'.routed = ms.routed ++ effect.passed

theorem Replied.push {effect : Effect Inflight UInt8 Packet} {cs' : ClientSession}
    (hl : ms'.lock r = some cs') (hi : cs'.inflight = effect.server)
    (hout : ms'.output t = ms.output t) (hrouted : ms'.routed = ms.routed ++ effect.passed) :
    Replied r t effect ms (ms'.pushDataToSend t effect.reply) where
  registered := ⟨cs', hl, hi⟩
  output := by
    have hcalls : (ms'.pushDataToSend t effect.reply).calls =
        ms'.calls ++ [.pushDataToSend t effect.reply] := rfl
    rw [output_append hcalls, hout]
    simp [Call.pushedTo]
  routed := (routed_pushDataToSend _).trans hrouted

/-- A PUBLISH with QoS 1. -/
theorem publishHandler_asks (h : Serves ms t r cs) (hs : Secluded r t ms)
    (hp : IsPublish packet pub) (hq : packet.header.qos = 1) :
    ∃ handled, publishHandler p packet t ms = .ok handled ∧ handled.returnCode = mqttOk ∧
      Replied r t (servePacket cs.inflight packet) ms handled.state := by
  obtain ⟨hs₁, hout₁⟩ :=
    (Silent.setSession h.lock rfl : Silent r t ms (ms.setSession r (cs.activeAt ms.now))) hs
  obtain ⟨ms₁, packet', hroute, hserves, -, hrouted⟩ :=
    @routePacket_unsubscribed p t _ r _ packet pub hp (h.setSession _) hs₁.unsubscribed
  obtain ⟨-, hout⟩ := Silent.routePacket hp hroute hs₁
  have heffect : servePacket cs.inflight packet =
      ⟨cs.inflight, (buildAck pub.packetId .puback []).1, [packet]⟩ := by
    unfold servePacket
    simp only [hp.pkt, if_pos hq]
  have hzero : packet.header.qos ≠ 0 := by
    rw [hq]
    decide
  refine ⟨{ state := ms₁.pushDataToSend t (buildAck pub.packetId .puback []).1
            returnCode := mqttOk
            buff := (buildAck pub.packetId .puback []).1 }, ?_, rfl, ?_⟩
  · unfold publishHandler
    simp only [hp.pkt, if_neg hzero, if_pos hq, h.updateActivity, hroute, ok_bind]
    rfl
  · rw [heffect]
    exact .push hserves.lock rfl (hout.trans hout₁)
      (hrouted.trans (congrArg (· ++ [packet]) (routed_setSession _)))

/-- A PUBREL. -/
theorem pubrelHandler_asks (h : Serves ms t r cs) (hs : Secluded r t ms)
    (hsound : cs.inflight.Sound) {ack : Ack} (hp : packet.pkt = .ack ack) :
    ∃ handled, pubrelHandler p packet t ms = .ok handled ∧
      (handled.returnCode = mqttOk ∨ handled.returnCode = -mqttErr) ∧
        Replied r t (servePacket cs.inflight packet) ms handled.state := by
  have heffect : servePacket cs.inflight packet = ⟨cs.inflight.erase ack.packetId,
      (buildAck ack.packetId .pubcomp []).1, (cs.inflight.lookup ack.packetId).toList⟩ := by
    unfold servePacket
    simp only [hp]
  have hreleased : Serves (released r cs ack.packetId ms) t r { cs.activeAt ms.now with
      inflight := cs.inflight.erase ack.packetId } := h.setSession _
  obtain ⟨hs₁, hout₁⟩ :=
    (Silent.setSession h.lock rfl : Silent r t ms (released r cs ack.packetId ms)) hs
  have hrouted₁ : (released r cs ack.packetId ms).routed = ms.routed := routed_setSession _
  rw [heffect]
  cases hl : cs.inflight.lookup ack.packetId with
  | none =>
    have hfind : (cs.inflight.find ack.packetId).header.type ≠ .publish := by
      rw [Inflight.find, hl]
      decide
    refine ⟨_, pubrelHandler_absent h hp hfind, .inr rfl, .push hreleased.lock rfl hout₁ ?_⟩
    rw [hrouted₁]
    exact (List.append_nil _).symm
  | some stored =>
    have hfind := Inflight.find_of_lookup hl
    obtain ⟨pub, hpub, -⟩ := (hsound _ _ hl).publish
    obtain ⟨ms₁, packet', hroute, hserves, -, hrouted⟩ :=
      @routePacket_unsubscribed p t _ r _ stored pub hpub hreleased hs₁.unsubscribed
    obtain ⟨-, hout⟩ := Silent.routePacket hpub hroute hs₁
    rw [← hfind] at hroute
    refine ⟨_, pubrelHandler_found h hp (by rw [hfind]; exact hpub.type) hroute, .inl rfl,
      .push hserves.lock rfl (hout.trans hout₁) ?_⟩
    rw [hrouted, hrouted₁]
    rfl

/-- **The broker replies to what a publisher asks.** -/
theorem dispatch_asks (h : Serves ms t r cs) (hs : Secluded r t ms) (hsound : cs.inflight.Sound)
    (hasks : packet.Asks) : ∃ handled, dispatch p packet t ms = .ok handled ∧
      (handled.returnCode = mqttOk ∨ handled.returnCode = -mqttErr) ∧
        Replied r t (servePacket cs.inflight packet) ms handled.state := by
  cases hasks with
  | @publish pub hp hq =>
    have hdispatch : dispatch p packet t ms = publishHandler p packet t ms := by
      unfold dispatch handlers
      rw [hp.type]
      rfl
    rw [hdispatch]
    rcases hq with hq | hq
    · obtain ⟨handled, hhandle, hcode, hreplied⟩ := @publishHandler_asks p _ _ _ _ _ _ h hs hp hq
      exact ⟨handled, hhandle, .inl hcode, hreplied⟩
    · have hzero : packet.header.qos ≠ 0 := by
        rw [hq]
        decide
      have hone : packet.header.qos ≠ 1 := by
        rw [hq]
        decide
      have heffect : servePacket cs.inflight packet = ⟨receivedInflight cs.inflight pub packet,
          (buildAck pub.packetId .pubrec []).1, []⟩ := by
        unfold servePacket
        simp only [hp.pkt, if_neg hone]
      obtain ⟨-, hout⟩ := (Silent.setSession h.lock rfl : Silent r t ms
        (ms.setSession r { cs.activeAt ms.now with
          inflight := receivedInflight cs.inflight pub packet })) hs
      refine ⟨_, publishHandler_stored h hp.pkt hzero hone, .inl rfl, ?_⟩
      rw [heffect]
      refine .push (lock_setSession_self _ _ _ h.lock) rfl hout ?_
      rw [routed_setSession]
      exact (List.append_nil _).symm
  | @pubrel ack ht hp =>
    have hdispatch : dispatch p packet t ms = pubrelHandler p packet t ms := by
      unfold dispatch handlers
      rw [ht]
      rfl
    rw [hdispatch]
    exact pubrelHandler_asks h hs hsound hp

/-- What others are served on stays what it is. -/
theorem Calm.secluded {sub : Option SessionRef} {log : List Call} (h : Calm sub log ms ms')
    (hs : Secluded r t ms) (hsub : sub ≠ some r) : Secluded r t ms' := by
  refine ⟨h.unsubscribed r hs.unsubscribed hsub, fun r' cs' hr hl' => ?_⟩
  cases hl : ms.lock r' with
  | none => cases (h.dead r' hl).symm.trans hl'
  | some cs =>
    obtain ⟨cs₁, hl₁, hcalm⟩ := h.alive r' cs hl
    obtain rfl := Option.some.inj (hl₁.symm.trans hl')
    rw [hcalm.session]
    exact hs.sole r' cs hr hl

theorem Packet.Asks.type (h : packet.Asks) :
    packet.header.type = .publish ∨ packet.header.type = .pubrel := by
  cases h with
  | publish hp => exact .inl hp.type
  | pubrel ht => exact .inr ht

/-- **The task that finds what a publisher asks.** -/
theorem Hosts.serve (h : Hosts p r t ms) (hwf : Wire.WellFormed packet) (hasks : packet.Asks)
    (hmem : t ∈ ms.tasks) (hbuffer : ms.receiveBuffer t = Wire.frame packet) (beyond : Mem) :
    ∃ ms', Event.apply p (.parseData t beyond) ms = .ok ms' ∧ Hosts p r t ms' ∧
      Replied r t (servePacket (ms.inflightOf r) packet) ms ms' ∧
      ms'.receiveBuffer t = [] ∧ ms'.tasks = ms.tasks.erase t := by
  obtain ⟨cs, hserves⟩ := h.serves
  have htake : (takeOut packet t ms).calls = ms.calls := by
    unfold takeOut
    rw [setTransport_eq]
  have hserves₀ : Serves (takeOut packet t ms) t r cs :=
    ⟨(getClientId_takeOut).trans hserves.clientId,
      (lock_congr sessionRegistry_takeOut r).trans hserves.lock⟩
  obtain ⟨hs₀, hout₀⟩ := (Silent.of_eq sessionRegistry_takeOut htake (topicTree_setTransport _ _) :
    Silent r t ms (takeOut packet t ms)) h.secluded
  have hsound := h.reachable.sound
  obtain ⟨handled, hd, hcode, hreplied⟩ := @dispatch_asks p r t _ cs packet hserves₀ hs₀
    (hsound.inflight r cs hserves.lock) hasks
  have hne : packet.header.type ≠ .connect := by
    rcases hasks.type with ht | ht <;> rw [ht] <;> decide
  have hf : finish packet t handled = .ok handled.state := by
    unfold finish
    rcases hcode with hcode | hcode <;> rw [hcode] <;> rfl
  have hs₁ : Sound (takeOut packet t ms) := (Tame.setTransport _ _).sound hsound
  obtain ⟨log, hcalm⟩ : ∃ log, Calm none log (takeOut packet t ms) handled.state := by
    have hnone : subscriberOf packet t (takeOut packet t ms) = none := by
      unfold subscriberOf
      rcases hasks.type with ht | ht <;> rw [ht] <;> rfl
    rcases dispatch_ends hs₁ hd hf with ⟨cn, ht, -⟩ | ⟨ht, -⟩ | ⟨-, -, log, hcalm⟩
    · exact absurd ht hne
    · exact absurd ht hne
    · exact ⟨log, hnone ▸ hcalm⟩
  have hstart : Calm none [] ms (takeOut packet t ms) := takeOut_calm
  obtain ⟨hstep, hrest⟩ := apply_frame hwf hmem (hbuffer.trans (List.append_nil _).symm) beyond
    (show (dispatch p packet t (takeOut packet t ms) >>= finish packet t) = .ok handled.state by
      rw [hd]
      exact hf)
  refine ⟨endTask t handled.state, hstep, ⟨h.reachable.step hstep, ?_, ?_, ?_⟩, ?_, hrest, ?_⟩
  · obtain ⟨fd, hsocket, hfd⟩ := h.present
    refine ⟨fd, ?_, ?_⟩
    · exact (congrFun (hcalm.socketOf.trans hstart.socketOf) t).trans hsocket
    · show handled.state.sessions.lookup fd = some t
      rw [hcalm.sessions, hstart.sessions]
      exact hfd
  · obtain ⟨cs', hl', -⟩ := hreplied.registered
    exact ⟨cs', hl'⟩
  · have hs₁ : Secluded r t handled.state := hcalm.secluded hs₀ (by simp)
    exact ⟨hs₁.unsubscribed, hs₁.sole⟩
  · rw [inflightOf_of_lock hserves.lock]
    have hrouted : (takeOut packet t ms).routed = ms.routed := by
      unfold ManageSessions.routed
      rw [htake]
    exact ⟨hreplied.registered, hreplied.output.trans (congrArg (· ++ _) hout₀),
      hreplied.routed.trans (congrArg (· ++ _) hrouted)⟩
  · have hsteady := dispatch_steady hne hd
    show handled.state.tasks.erase t = ms.tasks.erase t
    rw [hsteady.tasks]
    unfold takeOut
    rw [setTransport_eq]

/-- Where there is nothing to read, the memory looks like a packet that a client sends. -/
def Believable (buffer : Bytes) (beyond : Mem) : Prop :=
  buffer = [] → HasUnpacker (Header.unpack (beyond 0)).type

/-- A part of a frame, and nothing at all, are partial packets. -/
theorem unpack_part {buffer : Bytes} (hwf : Wire.WellFormed packet)
    (hcut : buffer <+: Wire.frame packet) (hne : buffer ≠ Wire.frame packet) {beyond : Mem}
    (hbeyond : Believable buffer beyond) :
    ∃ pkt q, unpack p.toCore buffer.length (holding buffer beyond) 0 =
      .ok ((mqttPartialPacket, pkt), q) := by
  by_cases hnil : buffer = []
  · subst hnil
    have ht := hbeyond rfl
    have hc : ∀ len k, ¬ Complete (holding [] beyond) ([] : Bytes).length len k := by
      intro len k hc
      have := hc.2
      simp at this
    rw [unpack_incomplete p.toCore hc ht]
    exact ⟨_, _, rfl⟩
  · exact unpack_cut p.toCore hwf hnil hcut hne (at_holding buffer beyond)

/-- **A task that finds a part of a frame** ends. -/
theorem Hosts.idle (h : Hosts p r t ms) (hwf : Wire.WellFormed packet)
    (hcut : ms.receiveBuffer t <+: Wire.frame packet) (hne : ms.receiveBuffer t ≠ Wire.frame packet)
    {beyond : Mem} (hbeyond : Believable (ms.receiveBuffer t) beyond) (hmem : t ∈ ms.tasks) :
    Event.apply p (.parseData t beyond) ms = .ok (endTask t ms) ∧ Hosts p r t (endTask t ms) := by
  obtain ⟨fd, hsocket, -⟩ := h.present
  obtain ⟨transport, hl, -⟩ := Option.map_eq_some_iff.1 hsocket
  rw [receiveBuffer_of_lookup hl] at hcut hne hbeyond
  obtain ⟨pkt, q, hunpack⟩ := @unpack_part p packet _ hwf hcut hne beyond hbeyond
  have hstep : Event.apply p (.parseData t beyond) ms = .ok (endTask t ms) := by
    simp only [Event.apply, if_pos hmem, parseData, hl, hunpack]
    rfl
  exact ⟨hstep, (h.of_tables (h.reachable.step hstep) rfl rfl rfl rfl rfl).1⟩

end Culex
