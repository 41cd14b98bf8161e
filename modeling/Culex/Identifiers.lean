import Culex.Broker
import Culex.Delivery

/-!
# The identifier of an outbound message

Before a PUBLISH with a positive QoS is sent to a session, an identifier is allocated for it.  The
scheduled retransmission gets this identifier; the inflight map is keyed by the identifier that the
publisher chose, and the frame that is sent contains 0.

* `OneIdentifier`: all three use the allocated one, and nothing else is stored under it;
* `oneIdentifier_iff`: they do only if no frame is sent at all, and the publisher's identifier is by
  chance the next one of the session.
-/

namespace Culex

open ByteReader ManageSessions

/-- The frame of a PUBLISH holds this identifier, right before the payload. -/
def HoldsId (data : Bytes) (pub : Publish) (packetId : UInt16) : Prop :=
  ∃ front, data = front ++ (be16 packetId ++ pub.payload)

/-- A stored packet is this message, whatever identifier it is stored with. -/
def IsMessage (packet : Packet) (pub : Publish) (pkt : Packet) : Prop :=
  pkt.header = packet.header ∧
    ∃ pub', pkt.pkt = .publish pub' ∧ pub'.topic = pub.topic ∧ pub'.payload = pub.payload

/-- The state `ms'` after a delivery to the session `r`, whose state was `cs`, uses one identifier
for the message. -/
structure Identified (r : SessionRef) (cs : ClientSession) (packet : Packet) (pub : Publish)
    (packetId : UInt16) (ms ms' : ManageSessions) : Prop where
  /-- Every frame that is pushed holds the identifier. -/
  wire : ∀ t data, .pushDataToSend t data ∈ ms'.calls.drop ms.calls.length →
    HoldsId data pub packetId
  /-- The message is inflight under it. -/
  inflight : ∃ cs' pkt, ms'.lock r = some cs' ∧ cs'.inflight.lookup packetId = some pkt ∧
    IsMessage packet pub pkt
  /-- The entry is its own: it was free before. -/
  own : cs.inflight.lookup packetId = none
  /-- The retransmission that is scheduled has it. -/
  scheduled : ∃ e, ms'.retransmitHeap.entries.Perm (e :: ms.retransmitHeap.entries) ∧
    e.session = r ∧ e.packetId = packetId
  /-- A PUBACK with an identifier from a frame removes exactly this message. -/
  acknowledged : ∀ t data w, .pushDataToSend t data ∈ ms'.calls.drop ms.calls.length →
    HoldsId data pub w → ∀ cs', ms'.lock r = some cs' → ∀ k,
      (cs'.removeFromInflight w).2.inflight.lookup k = cs.inflight.lookup k

/-- Sending the packet uses the allocated identifier throughout. -/
def OneIdentifier (p : Platform) (r : SessionRef) (cs : ClientSession) (packet : Packet)
    (pub : Publish) (ms : ManageSessions) : Prop :=
  ∃ ms', sendToClient p (some r) packet ms = .ok ms' ∧
    Identified r cs packet pub cs.allocatePacketId.1 ms ms'

variable {p : Platform} {r : SessionRef} {cs : ClientSession} {packet : Packet} {pub : Publish}
  {ms : ManageSessions}

/-- The frame of a message with a positive QoS holds the identifier 0, and no other. -/
theorem holdsId_publishBytes {header : Header} (hq : 0 < header.qos) {packetId : UInt16} :
    HoldsId (publishBytes header pub) pub packetId ↔ packetId = 0 := by
  have hb : ∃ front, publishBytes header pub = front ++ be16 0 ++ pub.payload := by
    unfold publishBytes
    simp only [if_pos hq]
    exact ⟨_, rfl⟩
  obtain ⟨front, hb⟩ := hb
  constructor
  · rintro ⟨front', hf⟩
    rw [hb, List.append_assoc] at hf
    have htail : be16 0 ++ pub.payload = be16 packetId ++ pub.payload :=
      (List.append_inj' hf (by simp)).2
    have hid : be16 packetId = [0, 0] := (List.append_cancel_right htail).symm
    exact (be16_eq_iff 0 0 packetId).1 hid
  · rintro rfl
    exact ⟨front, by rw [hb, List.append_assoc]⟩

theorem mem_pushed_delivered {t : ℕ} {data : Bytes} :
    .pushDataToSend t data ∈ (delivered p r cs packet pub ms).calls.drop ms.calls.length ↔
      ms.lockTransport cs.session = some t ∧ data = publishBytes packet.header pub := by
  rw [calls_delivered, List.drop_left]
  cases ms.lockTransport cs.session with
  | none => simp
  | some id => simp [eq_comm]

/-- Where a frame is sent, the identifier in it is not the one allocated. -/
theorem not_oneIdentifier_of_alive (h : IsPublish packet pub) (hq : 0 < packet.header.qos)
    (hl : ms.lock r = some cs) {t : ℕ} (ht : ms.lockTransport cs.session = some t) :
    ¬ OneIdentifier p r cs packet pub ms := by
  rintro ⟨ms', hs, hid⟩
  rw [sendToClient_publish p h hl, Except.ok.injEq] at hs
  subst hs
  have hzero : cs.allocatePacketId.1 = 0 :=
    (holdsId_publishBytes hq).1 (hid.wire t _ (mem_pushed_delivered.2 ⟨ht, rfl⟩))
  exact cs.allocatePacketId_ne_zero hzero

/-- **One identifier is used only where no frame is sent and the publisher's identifier is the one
allocated.** -/
theorem oneIdentifier_iff (h : IsPublish packet pub) (hq : 0 < packet.header.qos)
    (hl : ms.lock r = some cs) :
    OneIdentifier p r cs packet pub ms ↔
      ms.lockTransport cs.session = none ∧ pub.packetId = cs.allocatePacketId.1 ∧
        cs.inflight.lookup cs.allocatePacketId.1 = none := by
  have hsend := sendToClient_publish p h hl
  have hlock := @lock_delivered_self p r cs packet pub ms hl hq
  have hlookup : ∀ k, (tracked cs packet pub).inflight.lookup k =
      if k = pub.packetId then some ((cs.inflight.lookup pub.packetId).getD packet)
      else cs.inflight.lookup k := Inflight.lookup_insertNew cs.inflight pub.packetId packet
  constructor
  · intro hone
    have ht : ms.lockTransport cs.session = none := by
      by_contra hne
      obtain ⟨t, ht⟩ := Option.ne_none_iff_exists'.1 hne
      exact not_oneIdentifier_of_alive h hq hl ht hone
    obtain ⟨ms', hs, hid⟩ := hone
    rw [hsend, Except.ok.injEq] at hs
    subst hs
    refine ⟨ht, ?_, hid.own⟩
    -- the message is inflight under the publisher's identifier, and was not there before
    obtain ⟨cs', pkt, hl', hpkt, -⟩ := hid.inflight
    rw [hlock, Option.some.injEq] at hl'
    subst hl'
    rw [hlookup] at hpkt
    by_contra hne
    rw [if_neg (Ne.symm hne), hid.own] at hpkt
    cases hpkt
  · rintro ⟨ht, hpid, hfree⟩
    have hnone : ∀ t data, .pushDataToSend t data ∉
        (delivered p r cs packet pub ms).calls.drop ms.calls.length := by
      intro t data hmem
      rw [mem_pushed_delivered, ht] at hmem
      cases hmem.1
    refine ⟨_, hsend, ?_⟩
    exact {
      wire := fun t data hmem => absurd hmem (hnone t data)
      inflight := by
        refine ⟨_, packet, hlock, ?_, rfl, pub, h.pkt, rfl, rfl⟩
        rw [hlookup, if_pos hpid.symm, hpid, hfree, Option.getD_none]
      own := hfree
      scheduled := ⟨_, entries_delivered hq, rfl, rfl⟩
      acknowledged := fun t data w hmem => absurd hmem (hnone t data) }

/-- The publisher calls the message 7, and the subscriber would have to call it 2. -/
theorem oneIdentifier_iff_seven :
    ∃ cs, oneSubscriber.lock ⟨[65], 1⟩ = some cs ∧
      (OneIdentifier .sorting ⟨[65], 1⟩ cs packetSeven messageSeven oneSubscriber ↔
        oneSubscriber.lockTransport cs.session = none ∧
          messageSeven.packetId = cs.allocatePacketId.1 ∧
            cs.inflight.lookup cs.allocatePacketId.1 = none) :=
  ⟨(oneSubscriber.lock ⟨[65], 1⟩).get (by decide +kernel), (Option.some_get _).symm,
    oneIdentifier_iff ⟨rfl, rfl⟩ (by decide) (Option.some_get _).symm⟩

/-- The one delivery that routing this message makes uses three identifiers. -/
theorem not_oneIdentifier_seven :
    Reachable .sorting oneSubscriber ∧
      (routeTargets .sorting messageSeven oneSubscriber).map Subscription.session = [⟨[65], 1⟩] ∧
      ∃ cs, oneSubscriber.lock ⟨[65], 1⟩ = some cs ∧ cs.connected = true ∧
        ¬ OneIdentifier .sorting ⟨[65], 1⟩ cs packetSeven messageSeven oneSubscriber := by
  have halive : (oneSubscriber.lock ⟨[65], 1⟩).map (fun cs =>
      (cs.connected, oneSubscriber.lockTransport cs.session)) = some (true, some 0) := by
    decide +kernel
  rw [Option.map_eq_some_iff] at halive
  obtain ⟨cs, hl, he⟩ := halive
  obtain ⟨hc, ht⟩ := Prod.mk.inj he
  exact ⟨after_reachable _ _, by decide +kernel, cs, hl, hc,
    not_oneIdentifier_of_alive ⟨rfl, rfl⟩ (by decide) hl ht⟩

end Culex
