import Culex.Broker
import Culex.Delivery

/-!
# Whether subscribers get in each other's way

`routePacket` hands one packet from subscriber to subscriber by reference, and a delivery lowers its
QoS.  What a subscriber gets therefore depends on the connected ones before it in the iteration
order.

* `ownDelivery`: what a subscriber should get, which no other subscriber has a say in;
* `deliveriesOf`: what the loop delivers, the QoS coming down as it goes;
* `independent_iff`: the two agree exactly if no connected subscriber has a lower QoS than a later
  one needs.
-/

namespace Culex

open ManageSessions

/-- The calls that deliver to a subscriber. -/
def Call.isDelivery : Call → Bool
  | .sendToClient .. => true
  | .storeMessage .. => true
  | .routePacket .. => false
  | .pushDataToSend .. => false

/-- The deliveries so far. -/
def ManageSessions.deliveries (ms : ManageSessions) : List Call := ms.calls.filter Call.isDelivery

/-- What a subscriber should get of a packet, given which sessions are alive and connected. -/
def ownDelivery (connectedAt : SessionRef → Option Bool) (packet : Packet) (sub : Subscription) :
    Option Call :=
  match connectedAt sub.session with
  | none => none
  | some true => some (.sendToClient sub.session (packet.withQos (min packet.header.qos sub.qos)))
  | some false => if 0 < packet.header.qos then some (.storeMessage sub.session packet) else none

/-- The QoS a packet must still have when the loop comes to a subscriber. -/
def requiredQos (connectedAt : SessionRef → Option Bool) (packet : Packet) (sub : Subscription) :
    UInt8 :=
  match connectedAt sub.session with
  | none => 0
  | some true => min packet.header.qos sub.qos
  | some false => packet.header.qos

/-- A delivery to `a` leaves the packet the QoS that `b` requires. -/
def Leaves (connectedAt : SessionRef → Option Bool) (packet : Packet) (a b : Subscription) : Prop :=
  connectedAt a.session = some true → requiredQos connectedAt packet b ≤ a.qos

/-- The deliveries of the loop: a subscriber that is connected lowers the QoS for those behind it. -/
def deliveriesOf (connectedAt : SessionRef → Option Bool) (packet : Packet) :
    List Subscription → List Call
  | [] => []
  | sub :: subs =>
    match connectedAt sub.session with
    | none => deliveriesOf connectedAt packet subs
    | some true =>
      .sendToClient sub.session (packet.withQos (min packet.header.qos sub.qos)) ::
        deliveriesOf connectedAt (packet.withQos (min packet.header.qos sub.qos)) subs
    | some false =>
      if 0 < packet.header.qos then
        .storeMessage sub.session packet :: deliveriesOf connectedAt packet subs
      else deliveriesOf connectedAt packet subs

/-! ### The deliveries of the loop -/

section Loop

variable {p : Platform} {packet : Packet} {pub : Publish} {ms ms' : ManageSessions}

@[simp] theorem deliveries_record (call : Call) :
    (ms.record call).deliveries = ms.deliveries ++ [call].filter Call.isDelivery := by
  simp [deliveries, record]

@[simp] theorem deliveries_pushIfAlive (transport : Option ℕ) (data : Bytes) :
    (ms.pushIfAlive transport data).deliveries = ms.deliveries := by
  rw [pushIfAlive_eq]
  cases ms.lockTransport transport <;> simp [deliveries, Call.isDelivery]

@[simp] theorem deliveries_setSession (r : SessionRef) (cs : ClientSession) :
    (ms.setSession r cs).deliveries = ms.deliveries := by
  rw [setSession_eq]
  rfl

@[simp] theorem deliveries_scheduleRetransmission (packetId : UInt16) (type : PacketType)
    (r : SessionRef) :
    (scheduleRetransmission p packetId type r ms).deliveries = ms.deliveries := rfl

theorem deliveries_delivered (r : SessionRef) (cs : ClientSession) :
    (delivered p r cs packet pub ms).deliveries = ms.deliveries ++ [.sendToClient r packet] := by
  unfold delivered
  split_ifs <;> simp [Call.isDelivery]

theorem deliveries_queued (r : SessionRef) (cs : ClientSession) :
    (queued r cs packet ms).deliveries =
      ms.deliveries ++ if 0 < packet.header.qos then [.storeMessage r packet] else [] := by
  unfold queued
  split_ifs <;> simp [Call.isDelivery]

/-- **The loop makes the deliveries `deliveriesOf`.** -/
theorem routeLoop_deliveries (h : IsPublish packet pub) (subs : List Subscription) :
    ∃ ms' packet', routeLoop p subs (ms, packet) = .ok (ms', packet') ∧
      ms'.deliveries = ms.deliveries ++ deliveriesOf ms.connectedAt packet subs := by
  suffices hrec : ∃ ms' m, routeLoop p subs (ms, packet) = .ok (ms', packet.withQos m) ∧
      m ≤ packet.header.qos ∧
      ms'.deliveries = ms.deliveries ++ deliveriesOf ms.connectedAt packet subs by
    obtain ⟨ms', m, hloop, -, hd⟩ := hrec
    exact ⟨ms', _, hloop, hd⟩
  refine @routeLoop_rec p packet pub ms (fun subs packet ms ms' =>
    ms'.deliveries = ms.deliveries ++ deliveriesOf ms.connectedAt packet subs)
    ?nil ?dead ?connected ?offline h subs
  case nil => exact fun packet ms => by simp [deliveriesOf]
  case dead =>
    intro sub subs packet ms ms' hl hd
    rw [hd, deliveriesOf, connectedAt_eq_none hl]
  case connected =>
    intro sub subs packet ms ms' cs hl hcon hd
    have hc : ms.connectedAt sub.session = some true := by rw [connectedAt_of_lock hl, hcon]
    rw [hd, (delivered_routed hl).connectedAt, deliveries_delivered, deliveriesOf, hc,
      List.append_assoc]
    rfl
  case offline =>
    intro sub subs packet ms ms' cs hl hcon hd
    have hc : ms.connectedAt sub.session = some false := by rw [connectedAt_of_lock hl, hcon]
    have hr : Routed packet pub ms (queued sub.session cs packet ms) := queued_routed hl
    rw [hd, hr.connectedAt, deliveries_queued, deliveriesOf, hc, List.append_assoc]
    split_ifs <;> rfl

end Loop

/-! ### When they are the ones that should be made -/

section Spec

variable {connectedAt : SessionRef → Option Bool} {packet : Packet} {a : Subscription}
  {subs : List Subscription}

theorem deliveriesOf_dead (hc : connectedAt a.session = none) :
    deliveriesOf connectedAt packet (a :: subs) = deliveriesOf connectedAt packet subs := by
  rw [deliveriesOf, hc]

theorem deliveriesOf_connected (hc : connectedAt a.session = some true) :
    deliveriesOf connectedAt packet (a :: subs) =
      .sendToClient a.session (packet.withQos (min packet.header.qos a.qos)) ::
        deliveriesOf connectedAt (packet.withQos (min packet.header.qos a.qos)) subs := by
  rw [deliveriesOf, hc]

theorem deliveriesOf_offline (hc : connectedAt a.session = some false) :
    deliveriesOf connectedAt packet (a :: subs) =
      (if 0 < packet.header.qos then [.storeMessage a.session packet] else []) ++
        deliveriesOf connectedAt packet subs := by
  rw [deliveriesOf, hc]
  split_ifs <;> simp_all

/-- What is queued has a QoS that is not above the one the loop started with. -/
theorem qos_of_storeMessage_mem {r : SessionRef} {pkt : Packet}
    (h : .storeMessage r pkt ∈ deliveriesOf connectedAt packet subs) :
    pkt.header.qos ≤ packet.header.qos := by
  induction subs generalizing packet with
  | nil => cases h
  | cons a subs ih =>
    cases hc : connectedAt a.session with
    | none =>
      rw [deliveriesOf_dead hc] at h
      exact ih h
    | some connected =>
      cases connected with
      | true =>
        rw [deliveriesOf_connected hc] at h
        exact UInt8.le_trans (ih (List.mem_of_ne_of_mem (by simp) h)) (qos_min_le _ _)
      | false =>
        rw [deliveriesOf_offline hc, List.mem_append] at h
        rcases h with h | h
        · split_ifs at h
          · rw [List.mem_singleton, Call.storeMessage.injEq] at h
            rw [h.2]
            exact UInt8.le_refl _
          · cases h
        · exact ih h

theorem min_eq_min_iff_qos {q m s : UInt8} (hm : m ≤ q) : min m s = min q s ↔ min q s ≤ m := by
  rw [UInt8.le_iff_toNat_le] at hm ⊢
  rw [← UInt8.toNat_inj, toNat_min, toNat_min]
  omega

theorem le_min_iff_qos {q m s : UInt8} : q ≤ min m s ↔ q ≤ m ∧ q ≤ s := by
  rw [UInt8.le_iff_toNat_le, UInt8.le_iff_toNat_le, UInt8.le_iff_toNat_le, toNat_min, le_min_iff]

/-- An offline subscriber is served alike exactly if the QoS has not been lowered. -/
theorem offline_head_iff {m : UInt8} (hm : m ≤ packet.header.qos)
    (hc : connectedAt a.session = some false) :
    deliveriesOf connectedAt (packet.withQos m) (a :: subs) =
        (a :: subs).filterMap (ownDelivery connectedAt packet) ↔
      packet.header.qos ≤ m ∧ deliveriesOf connectedAt (packet.withQos m) subs =
        subs.filterMap (ownDelivery connectedAt packet) := by
  by_cases hq : 0 < packet.header.qos
  · have hown : ownDelivery connectedAt packet a = some (.storeMessage a.session packet) := by
      simp [ownDelivery, hc, hq]
    rw [List.filterMap_cons_some hown]
    constructor
    · intro h
      -- what should be queued is found among the deliveries, with the QoS it should have
      have hmem : .storeMessage a.session packet ∈
          deliveriesOf connectedAt (packet.withQos m) (a :: subs) := h ▸ List.mem_cons_self
      have hle : packet.header.qos ≤ m := qos_of_storeMessage_mem hmem
      obtain rfl : m = packet.header.qos := UInt8.le_antisymm hm hle
      rw [deliveriesOf_offline hc, Packet.withQos_self, if_pos hq] at h
      exact ⟨hle, List.tail_eq_of_cons_eq h⟩
    · rintro ⟨hle, h⟩
      obtain rfl : m = packet.header.qos := UInt8.le_antisymm hm hle
      rw [Packet.withQos_self] at h ⊢
      rw [deliveriesOf_offline hc, if_pos hq, h]
      rfl
  · have hown : ownDelivery connectedAt packet a = none := by simp [ownDelivery, hc, hq]
    have hm0 : ¬ 0 < m := fun h => hq (UInt8.lt_of_lt_of_le h hm)
    rw [List.filterMap_cons_none hown, deliveriesOf_offline hc, Packet.qos_withQos, if_neg hm0]
    exact (and_iff_right (UInt8.le_trans (UInt8.not_lt.1 hq) (UInt8.zero_le))).symm

/-- A loop that starts with a QoS of at most the packet's makes the deliveries that should be made
exactly if this QoS is enough for every subscriber, and each delivery leaves enough for the later
ones. -/
theorem deliveriesOf_eq_iff {m : UInt8} (hm : m ≤ packet.header.qos) :
    deliveriesOf connectedAt (packet.withQos m) subs =
        subs.filterMap (ownDelivery connectedAt packet) ↔
      (∀ b ∈ subs, requiredQos connectedAt packet b ≤ m) ∧
        subs.Pairwise (Leaves connectedAt packet) := by
  induction subs generalizing m with
  | nil => simp [deliveriesOf]
  | cons a subs ih =>
    rw [List.pairwise_cons, List.forall_mem_cons]
    by_cases hc : connectedAt a.session = some true
    · -- behind `a` the QoS is at most the one of `a`
      have hreq : requiredQos connectedAt packet a = min packet.header.qos a.qos := by
        simp [requiredQos, hc]
      have hown : ownDelivery connectedAt packet a =
          some (.sendToClient a.session (packet.withQos (min packet.header.qos a.qos))) := by
        simp [ownDelivery, hc]
      have hleaves : ∀ b, Leaves connectedAt packet a b ↔
          requiredQos connectedAt packet b ≤ a.qos := fun b => ⟨fun h => h hc, fun h _ => h⟩
      have hhead : packet.withQos (min m a.qos) = packet.withQos (min packet.header.qos a.qos) ↔
          min packet.header.qos a.qos ≤ m := by
        rw [← min_eq_min_iff_qos hm]
        exact ⟨fun h => congrArg (fun x => x.header.qos) h, fun h => by rw [h]⟩
      rw [List.filterMap_cons_some hown, deliveriesOf_connected hc, hreq]
      simp only [Packet.qos_withQos, Packet.withQos_withQos, List.cons.injEq,
        Call.sendToClient.injEq, true_and, hhead, hleaves,
        ih (UInt8.le_trans (qos_min_le m a.qos) hm), le_min_iff_qos]
      constructor
      · rintro ⟨ha, hall, hp⟩
        exact ⟨⟨ha, fun b hb => (hall b hb).1⟩, fun b hb => (hall b hb).2, hp⟩
      · rintro ⟨⟨ha, hall⟩, hl, hp⟩
        exact ⟨ha, fun b hb => ⟨hall b hb, hl b hb⟩, hp⟩
    · -- the QoS stays as it is
      have hleaves : ∀ b ∈ subs, Leaves connectedAt packet a b := fun b _ h => absurd h hc
      have hhead : deliveriesOf connectedAt (packet.withQos m) (a :: subs) =
            (a :: subs).filterMap (ownDelivery connectedAt packet) ↔
          requiredQos connectedAt packet a ≤ m ∧ deliveriesOf connectedAt (packet.withQos m) subs =
            subs.filterMap (ownDelivery connectedAt packet) := by
        cases hc' : connectedAt a.session with
        | none =>
          have hreq : requiredQos connectedAt packet a = 0 := by simp [requiredQos, hc']
          have hown : ownDelivery connectedAt packet a = none := by simp [ownDelivery, hc']
          rw [List.filterMap_cons_none hown, deliveriesOf_dead hc', hreq]
          exact (and_iff_right UInt8.zero_le).symm
        | some connected =>
          cases connected with
          | true => exact absurd hc' hc
          | false =>
            have hreq : requiredQos connectedAt packet a = packet.header.qos := by
              simp [requiredQos, hc']
            rw [hreq, offline_head_iff hm hc']
      rw [hhead, ih hm]
      constructor
      · rintro ⟨ha, hall, hp⟩
        exact ⟨⟨ha, hall⟩, hleaves, hp⟩
      · rintro ⟨⟨ha, hall⟩, -, hp⟩
        exact ⟨ha, hall, hp⟩

end Spec

/-! ### Independence -/

/-- Routing a packet delivers to every subscriber what it should get, and nothing else. -/
def Independent (p : Platform) (packet : Packet) (pub : Publish) (ms : ManageSessions) : Prop :=
  ∃ ms' packet', routePacket p packet none ms = .ok (ms', packet') ∧
    ms'.deliveries = ms.deliveries ++
      (routeTargets p pub ms).filterMap (ownDelivery ms.connectedAt packet)

theorem routePacket_deliveries {p : Platform} {packet : Packet} {pub : Publish}
    {ms : ManageSessions} (h : IsPublish packet pub) :
    ∃ ms' packet', routePacket p packet none ms = .ok (ms', packet') ∧
      ms'.deliveries = ms.deliveries ++
        deliveriesOf ms.connectedAt packet (routeTargets p pub ms) := by
  obtain ⟨ms', packet', hloop, hd⟩ :=
    @routeLoop_deliveries p packet pub (routeStart packet pub ms) h (routeTargets p pub ms)
  have hstart : (routeStart packet pub ms).deliveries = ms.deliveries := by
    simp [routeStart, deliveries, record, Call.isDelivery]
  refine ⟨ms', packet', by rw [routePacket_eq h, hloop], ?_⟩
  rw [hd, hstart]
  rfl

/-- **Subscribers are served independently exactly if no connected one comes before one that needs
a higher QoS than its own.** -/
theorem independent_iff {p : Platform} {packet : Packet} {pub : Publish} {ms : ManageSessions}
    (h : IsPublish packet pub) :
    Independent p packet pub ms ↔
      (routeTargets p pub ms).Pairwise (Leaves ms.connectedAt packet) := by
  obtain ⟨ms', packet', hroute, hd⟩ := @routePacket_deliveries p packet pub ms h
  have hspec : Independent p packet pub ms ↔
      deliveriesOf ms.connectedAt packet (routeTargets p pub ms) =
        (routeTargets p pub ms).filterMap (ownDelivery ms.connectedAt packet) := by
    unfold Independent
    rw [hroute]
    constructor
    · rintro ⟨_, _, he, hind⟩
      cases he
      rw [hd] at hind
      exact List.append_cancel_left hind
    · intro he
      exact ⟨ms', packet', rfl, by rw [hd, he]⟩
  have hstart := @deliveriesOf_eq_iff ms.connectedAt packet (routeTargets p pub ms)
    packet.header.qos (UInt8.le_refl _)
  rw [Packet.withQos_self] at hstart
  rw [hspec, hstart]
  refine and_iff_right fun b _ => ?_
  unfold requiredQos
  split
  · exact UInt8.zero_le
  · exact qos_min_le _ _
  · exact UInt8.le_refl _

/-- Two clients, `A` and `B`, that are connected and subscribe to `t`; a match lists `B` first. -/
def twoSubscribers (qosA qosB : UInt8) : ManageSessions :=
  after .sorting (.newConnection 3 :: arrive 0 (connectFrame 65 2) ++
    arrive 0 (subscribeFrame 116 qosA) ++ .newConnection 4 :: arrive 2 (connectFrame 66 2) ++
    arrive 2 (subscribeFrame 116 qosB))

/-- `A` takes QoS 1 and `B`, which comes first, QoS 2. -/
theorem independent_iff_descending :
    Independent .sorting packetSeven messageSeven (twoSubscribers 1 2) ↔
      (routeTargets .sorting messageSeven (twoSubscribers 1 2)).Pairwise
        (Leaves (twoSubscribers 1 2).connectedAt packetSeven) :=
  independent_iff ⟨rfl, rfl⟩

/-- `A` takes QoS 1 and gets QoS 0, since `B` comes first and takes QoS 0. -/
theorem not_independent_lowered :
    Reachable .sorting (twoSubscribers 1 0) ∧
      ¬ Independent .sorting packetSeven messageSeven (twoSubscribers 1 0) := by
  have hactual : (routePacket .sorting packetSeven none (twoSubscribers 1 0)).map
      (fun x => x.1.deliveries) =
        .ok [.sendToClient ⟨[66], 3⟩ (packetSeven.withQos 0),
          .sendToClient ⟨[65], 1⟩ (packetSeven.withQos 0)] := by decide +kernel
  have hown : (twoSubscribers 1 0).deliveries ++
      (routeTargets .sorting messageSeven (twoSubscribers 1 0)).filterMap
        (ownDelivery (twoSubscribers 1 0).connectedAt packetSeven) =
        [.sendToClient ⟨[66], 3⟩ (packetSeven.withQos 0),
          .sendToClient ⟨[65], 1⟩ (packetSeven.withQos 1)] := by decide +kernel
  refine ⟨after_reachable _ _, ?_⟩
  rintro ⟨ms', packet', hroute, hd⟩
  rw [hroute, Except.map, Except.ok.injEq, hd, hown] at hactual
  exact absurd hactual (by decide)

end Culex
