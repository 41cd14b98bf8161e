import Culex.Lib.Handshake
import Culex.Sound

/-!
# Inbound QoS 2 is exactly-once

A client that publishes with QoS 2 puts its message under an identifier and releases it with a
PUBREL.  The inflight map of its session is the table of open cycles (`Linked`), and `routePacket`
is called with the messages of the closed ones (`routes_emitted`), as long as nothing is delivered
to the session itself.
-/

namespace Culex

open ManageSessions
open Handshake hiding Event

/-- A PUBLISH with QoS 2, as the decoder hands it on. -/
structure Qos2Publish where
  packet : Packet
  pub : Publish
  isPublish : IsPublish packet pub
  qos : packet.header.qos = 2
  pktLen : packet.pktLen ≠ 0

/-- A packet with an acknowledgment as its body. -/
structure AckPacket where
  packet : Packet
  ack : Ack
  pkt : packet.pkt = .ack ack

/-- The packets of a client that publishes with QoS 2. -/
inductive Inbound
  | publish (m : Qos2Publish)
  | pubrel (m : AckPacket)

/-- The packet as an event of the handshake. -/
def Inbound.event : Inbound → Handshake.Event UInt16 Packet
  | .publish m => .put m.pub.packetId m.packet
  | .pubrel m => .release m.ack.packetId

section Handling

variable (p : Platform) (t : ℕ)

/-- The handler of the packet. -/
def Inbound.handle : Inbound → ManageSessions → Except Fault Handled
  | .publish m => publishHandler p m.packet t
  | .pubrel m => pubrelHandler p m.packet t

/-- The handlers of a sequence of packets. -/
def handleAll (seq : List Inbound) (ms : ManageSessions) : Except Fault ManageSessions :=
  seq.foldlM (fun ms a => (a.handle p t ms).map Handled.state) ms

end Handling

/-- The packet a call routes. -/
def Call.routed : Call → Option Packet
  | .routePacket packet => some packet
  | .sendToClient .. => none
  | .storeMessage .. => none
  | .pushDataToSend .. => none

/-- The packets `routePacket` was called with. -/
def ManageSessions.routed (ms : ManageSessions) : List Packet := ms.calls.filterMap Call.routed

/-- The session has no subscription. -/
def TopicTree.Unsubscribed (tree : TopicTree) (r : SessionRef) : Prop :=
  ∀ path clientId sub, (tree.root.subsAt path).lookup clientId = some sub → sub.session ≠ r

section Steps

variable {p : Platform} {t : ℕ} {ms ms' : ManageSessions} {r : SessionRef} {cs : ClientSession}
  {packet : Packet} {pub : Publish}

/-! ### Routing and the session -/

theorem Routed.routed (h : Routed packet pub ms ms') : ms'.routed = ms.routed := by
  obtain ⟨log, hcalls, hlog⟩ := h.calls
  have hnil : log.filterMap Call.routed = [] := by
    apply List.filterMap_eq_nil_iff.2
    intro c hc
    cases c with
    | routePacket pkt => exact absurd rfl (hlog _ hc pkt)
    | _ => rfl
  unfold ManageSessions.routed
  rw [hcalls, List.filterMap_append, hnil, List.append_nil]

theorem routed_routeStart : (routeStart packet pub ms).routed = ms.routed ++ [packet] := by
  simp [routeStart, ManageSessions.routed, record, Call.routed]

/-- Matching gives nobody a subscription. -/
theorem TopicTree.Unsubscribed.match {tree : TopicTree} (h : tree.Unsubscribed r) (topic : Bytes) :
    (tree.match topic).1.Unsubscribed r := by
  intro path clientId sub hsub
  rw [TopicTree.subsAt_match] at hsub
  exact h path clientId sub hsub

/-- Nothing is routed to a session without subscriptions. -/
theorem TopicTree.Unsubscribed.notMem_routeTargets (h : ms.topicTree.Unsubscribed r) :
    ∀ sub ∈ routeTargets p pub ms, sub.session ≠ r := by
  intro sub hsub
  rw [routeTargets, (p.traverse_perm _ _).mem_iff, TopicTree.mem_match] at hsub
  obtain ⟨path, -, clientId, hsub⟩ := hsub
  exact h path clientId sub hsub

/-- Routing a PUBLISH leaves a session without subscriptions as it is. -/
theorem routePacket_unsubscribed (h : IsPublish packet pub) (hs : Serves ms t r cs)
    (hu : ms.topicTree.Unsubscribed r) :
    ∃ ms' packet', routePacket p packet none ms = .ok (ms', packet') ∧ Serves ms' t r cs ∧
      ms'.topicTree.Unsubscribed r ∧ ms'.routed = ms.routed ++ [packet] := by
  obtain ⟨ms', m, hroute, hr, hlock⟩ := @routePacket_routed p packet pub ms h none
  refine ⟨ms', _, hroute, ⟨?_, ?_⟩, ?_, ?_⟩
  · unfold getClientId
    rw [hr.transports]
    exact hs.clientId
  · rw [hlock r hu.notMem_routeTargets]
    exact hs.lock
  · rw [hr.topicTree]
    exact hu.match pub.topic
  · rw [hr.routed, routed_routeStart]

/-! ### The inflight map as the table of open cycles -/

/-- A PUBLISH is put into the map unless its identifier is taken. -/
theorem lookup_receivedInflight {inflight : Inflight} (h : inflight.Sound) (pub : Publish)
    (packet : Packet) (k : UInt16) :
    (receivedInflight inflight pub packet).lookup k =
      (inflight.lookup k).or (if pub.packetId = k then some packet else none) := by
  unfold receivedInflight
  cases hl : inflight.lookup pub.packetId with
  | none =>
    have hfind : (inflight.find pub.packetId).pktLen = 0 := by
      rw [Inflight.find, hl]
      rfl
    rw [if_pos hfind, Inflight.lookup_insertNew, hl]
    by_cases hk : k = pub.packetId
    · rw [hk, hl]
      simp
    · simp [hk, Ne.symm hk]
  | some old =>
    have hfind : (inflight.find pub.packetId).pktLen ≠ 0 := by
      rw [Inflight.find_of_lookup hl]
      exact (h _ _ hl).pktLen
    rw [if_neg hfind]
    by_cases hk : pub.packetId = k
    · rw [← hk, hl]
      rfl
    · simp [hk]

theorem Qos2Publish.stored (m : Qos2Publish) : Stored m.pub.packetId m.packet where
  publish := ⟨m.pub, m.isPublish, rfl⟩
  pktLen := m.pktLen
  qos := by
    rw [m.qos]
    decide

/-- After a history of packets, the inflight map of the session holds the open cycles. -/
structure Linked (t : ℕ) (r : SessionRef) (init : UInt16 → Option Packet)
    (hist : List (Handshake.Event UInt16 Packet)) (ms : ManageSessions) : Prop where
  session : ∃ cs, Serves ms t r cs ∧ cs.inflight.Sound ∧
    ∀ k, cs.inflight.lookup k = pending init hist k
  unsubscribed : ms.topicTree.Unsubscribed r

variable {init : UInt16 → Option Packet} {hist : List (Handshake.Event UInt16 Packet)}

/-- Changing a session object and pushing bytes routes nothing. -/
theorem routed_setSession (cs' : ClientSession) :
    (ms.setSession r cs').routed = ms.routed := by
  rw [setSession_eq]
  rfl

theorem routed_pushDataToSend (data : Bytes) :
    (ms.pushDataToSend t data).routed = ms.routed := by
  simp [ManageSessions.routed, pushDataToSend, record, Call.routed]

theorem unsubscribed_setSession (h : ms.topicTree.Unsubscribed r) (cs' : ClientSession) :
    (ms.setSession r cs').topicTree.Unsubscribed r := by
  rw [setSession_eq]
  exact h

theorem Qos2Publish.qos_ne (m : Qos2Publish) :
    m.packet.header.qos ≠ 0 ∧ m.packet.header.qos ≠ 1 := by
  rw [m.qos]
  decide

/-- A PUBLISH. -/
theorem Linked.publish (h : Linked t r init hist ms) (m : Qos2Publish) :
    ∃ handled, publishHandler p m.packet t ms = .ok handled ∧
      Linked t r init (hist ++ [.put m.pub.packetId m.packet]) handled.state ∧
        handled.state.routed = ms.routed := by
  obtain ⟨cs, hs, hsound, hpend⟩ := h.session
  refine ⟨_, publishHandler_stored hs m.isPublish.pkt m.qos_ne.1 m.qos_ne.2,
    ⟨⟨_, (hs.setSession _).pushDataToSend _, hsound.receivedInflight m.stored, fun k => ?_⟩,
      unsubscribed_setSession h.unsubscribed _⟩, ?_⟩
  · rw [lookup_receivedInflight hsound, hpend, pending_put]
  · exact (routed_pushDataToSend _).trans (routed_setSession _)

/-- A PUBREL. -/
theorem Linked.pubrel (h : Linked t r init hist ms) (m : AckPacket) :
    ∃ handled, pubrelHandler p m.packet t ms = .ok handled ∧
      Linked t r init (hist ++ [.release m.ack.packetId]) handled.state ∧
        handled.state.routed = ms.routed ++ (pending init hist m.ack.packetId).toList := by
  obtain ⟨cs, hs, hsound, hpend⟩ := h.session
  have hs' : Serves (released r cs m.ack.packetId ms) t r { cs.activeAt ms.now with
      inflight := cs.inflight.erase m.ack.packetId } := hs.setSession _
  have hu' : (released r cs m.ack.packetId ms).topicTree.Unsubscribed r :=
    unsubscribed_setSession h.unsubscribed _
  have hpend' : ∀ k, (cs.inflight.erase m.ack.packetId).lookup k =
      pending init (hist ++ [.release m.ack.packetId]) k := by
    intro k
    rw [pending_release]
    split_ifs with hk
    · rw [hk, AList.lookup_erase]
    · rw [AList.lookup_erase_ne (Ne.symm hk), hpend]
  cases hp : pending init hist m.ack.packetId with
  | none =>
    -- nothing is stored, and the default packet is no PUBLISH
    have hfind : (cs.inflight.find m.ack.packetId).header.type ≠ .publish := by
      rw [Inflight.find, hpend, hp]
      decide
    refine ⟨_, pubrelHandler_absent hs m.pkt hfind,
      ⟨⟨_, hs'.pushDataToSend _, hsound.erase _, hpend'⟩, hu'⟩, ?_⟩
    rw [Option.toList_none, List.append_nil]
    exact (routed_pushDataToSend _).trans (routed_setSession _)
  | some packet =>
    have hlookup : cs.inflight.lookup m.ack.packetId = some packet := (hpend _).trans hp
    have hfind := Inflight.find_of_lookup hlookup
    obtain ⟨pub, hpub, -⟩ := (hsound _ _ hlookup).publish
    obtain ⟨ms', packet', hroute, hs'', hu'', hrouted⟩ :=
      @routePacket_unsubscribed p t _ r _ packet pub hpub hs' hu'
    rw [← hfind] at hroute
    have hfound : (cs.inflight.find m.ack.packetId).header.type = .publish := by
      rw [hfind]
      exact hpub.type
    refine ⟨_, pubrelHandler_found hs m.pkt hfound hroute,
      ⟨⟨_, hs''.pushDataToSend _, hsound.erase _, hpend'⟩, hu''⟩, ?_⟩
    rw [Option.toList_some]
    refine (routed_pushDataToSend _).trans (hrouted.trans ?_)
    exact congrArg (· ++ [packet]) (routed_setSession _)

/-- **A sequence of packets.** -/
theorem Linked.handleAll (h : Linked t r init [] ms) (seq : List Inbound) :
    ∃ ms', handleAll p t seq ms = .ok ms' ∧ Linked t r init (seq.map Inbound.event) ms' ∧
      ms'.routed = ms.routed ++ emitted init (seq.map Inbound.event) := by
  induction seq using List.reverseRecOn with
  | nil => exact ⟨ms, rfl, h, by simp [emitted]⟩
  | append_singleton seq a ih =>
    obtain ⟨ms₁, hall, hl, hr⟩ := ih
    have happend : Culex.handleAll p t (seq ++ [a]) ms =
        (a.handle p t ms₁).map Handled.state := by
      unfold Culex.handleAll at hall ⊢
      rw [List.foldlM_append, hall, ok_bind]
      exact bind_pure _
    rw [happend, List.map_append, List.map_singleton, emitted_append, ← List.append_assoc, ← hr]
    cases a with
    | publish m =>
      obtain ⟨handled, hh, hl', hr'⟩ := @Linked.publish p t ms₁ r init _ hl m
      refine ⟨handled.state, ?_, hl', ?_⟩
      · exact congrArg (Except.map Handled.state) hh
      · rw [hr']
        exact (List.append_nil _).symm
    | pubrel m =>
      obtain ⟨handled, hh, hl', hr'⟩ := @Linked.pubrel p t ms₁ r init _ hl m
      exact ⟨handled.state, congrArg (Except.map Handled.state) hh, hl', hr'⟩

/-- **Inbound QoS 2 is exactly-once.**  On a registered session without subscriptions, the packets
that are routed are the first messages of the closed cycles, each once; what is inflight at first
counts as published before. -/
theorem routes_emitted (hr : Reachable p ms) (hs : Serves ms t r cs)
    (hu : ms.topicTree.Unsubscribed r) (seq : List Inbound) :
    ∃ ms', handleAll p t seq ms = .ok ms' ∧
      ms'.routed = ms.routed ++ emitted (fun k => cs.inflight.lookup k) (seq.map Inbound.event) := by
  have hsound := hr.sound.inflight r cs hs.lock
  have hlinked : Linked t r (fun k => cs.inflight.lookup k) [] ms :=
    ⟨⟨cs, hs, hsound, fun k => by rw [pending_nil]⟩, hu⟩
  obtain ⟨ms', hall, -, hrouted⟩ := @Linked.handleAll p t ms r _ hlinked seq
  exact ⟨ms', hall, hrouted⟩

end Steps

/-- A message with QoS 2 that is published twice and released twice is routed once. -/
theorem routes_emitted_repeated :
    ∃ ms', handleAll .sorting 0
        [.publish ⟨packetSeven.withQos 2, messageSeven, ⟨rfl, rfl⟩, rfl, by decide⟩,
          .publish ⟨packetSeven.withQos 2, messageSeven, ⟨rfl, rfl⟩, rfl, by decide⟩,
          .pubrel ⟨{ pkt := .ack ⟨7⟩ }, ⟨7⟩, rfl⟩, .pubrel ⟨{ pkt := .ack ⟨7⟩ }, ⟨7⟩, rfl⟩]
        oneClient = .ok ms' ∧ ms'.routed = [packetSeven.withQos 2] := by
  have hu : oneClient.topicTree.Unsubscribed ⟨[65], 1⟩ := by
    intro path clientId sub hsub
    rw [show oneClient.topicTree = .empty from rfl, TopicTree.empty, Node.subsAt_new,
      AList.lookup_empty] at hsub
    cases hsub
  have hs : Serves oneClient 0 ⟨[65], 1⟩ ((oneClient.lock ⟨[65], 1⟩).get (by decide +kernel)) :=
    ⟨by decide +kernel, (Option.some_get _).symm⟩
  obtain ⟨ms', hall, hrouted⟩ := routes_emitted (after_reachable _ _) hs hu
    [.publish ⟨packetSeven.withQos 2, messageSeven, ⟨rfl, rfl⟩, rfl, by decide⟩,
      .publish ⟨packetSeven.withQos 2, messageSeven, ⟨rfl, rfl⟩, rfl, by decide⟩,
      .pubrel ⟨{ pkt := .ack ⟨7⟩ }, ⟨7⟩, rfl⟩, .pubrel ⟨{ pkt := .ack ⟨7⟩ }, ⟨7⟩, rfl⟩]
  refine ⟨ms', hall, hrouted.trans ?_⟩
  decide +kernel

end Culex
