import Culex.Expansion
import Culex.Fencing
import Culex.Independence
import Culex.Splitting

/-!
# Whom a topic name addresses

A match walks the tree as a subscription does, so that a PUBLISH whose topic name has wildcards
goes to all the nodes that it would subscribe at (`Addressed`).  It goes to nobody exactly if all
subscribers there are gone, or offline for a QoS of 0 (`directed_iff`).
-/

namespace Culex

open ManageSessions Node

/-! ### The nodes a topic leads to -/

/-- The node is one that the topic addresses: its path matches the topic as a filter, and the node
at which a `#` stands has a child. -/
def Addressed (tree : TopicTree) (topic : Bytes) (path : Path) : Prop :=
  PathMatches (split topic) path ∧
    (hash ∈ split topic →
      ∃ str, (tree.root.find (path.take ((split topic).idxOf hash) ++ [str])).isSome)

/-- A node that is there is found if its path matches and the `#` stands at no leaf. -/
theorem reaches_iff_of_found {n : Node} {words : List Bytes} {path : Path} (h : WellFormed n)
    (hfound : (n.find path).isSome) :
    n.Reaches words path ↔ PathMatches words path ∧
      (hash ∈ words → ∃ str, (n.find (path.take (words.idxOf hash) ++ [str])).isSome) := by
  induction words generalizing n path with
  | nil =>
    refine iff_of_eq ?_
    rw [Reaches, PathMatches]
    simp
  | cons word words ih =>
    by_cases hh : word = hash
    · subst hh
      rw [Reaches, if_neg plus_ne_hash.symm, if_pos rfl, links_ne_nil_iff h, and_iff_left hfound,
        and_iff_right (pathMatches_hash _ _), List.idxOf_cons_self, List.take_zero,
        imp_iff_right List.mem_cons_self]
      refine exists_congr fun str => ?_
      rw [List.nil_append, isSome_find_cons]
      exact exists_congr fun c => (and_iff_left rfl).symm
    · have hmem : hash ∈ word :: words ↔ hash ∈ words :=
        List.mem_cons.trans (or_iff_right (Ne.symm hh))
      rw [hmem, List.idxOf_cons_ne _ hh]
      cases path with
      | nil => exact iff_of_false (not_reaches_nil hh) fun hm => not_pathMatches_nil hh hm.1
      | cons str rest =>
        obtain ⟨c, hc, hrest⟩ := isSome_find_cons.1 hfound
        have hchild : ∀ p, n.find (str :: p) = c.find p := fun p => find_cons_of_child hc
        rw [reaches_cons_of_child hh hc, pathMatches_cons hh, List.take_succ_cons]
        simp only [List.cons_append, hchild]
        rw [and_assoc, ih (h.of_child hc) hrest]

/-- A node with a subscription is there. -/
theorem isSome_find_of_lookup {n : Node} {path : Path} {clientId : Bytes} {sub : Subscription}
    (h : (n.subsAt path).lookup clientId = some sub) : (n.find path).isSome := by
  unfold subsAt at h
  cases hf : n.find path with
  | none =>
    rw [hf] at h
    cases h
  | some c => rfl

/-- What a match lists. -/
theorem TopicTree.mem_match_iff {tree : TopicTree} {topic : Bytes} {sub : Subscription} :
    sub ∈ (tree.match topic).2 ↔ ∃ path clientId, Addressed tree topic path ∧
      (tree.root.subsAt path).lookup clientId = some sub := by
  rw [mem_match]
  constructor
  · rintro ⟨path, hr, clientId, hl⟩
    have hfound := isSome_find_of_lookup hl
    exact ⟨path, clientId, (reaches_iff_of_found tree.wellFormed hfound).1 hr, hl⟩
  · rintro ⟨path, clientId, ha, hl⟩
    have hfound := isSome_find_of_lookup hl
    exact ⟨path, (reaches_iff_of_found tree.wellFormed hfound).2 ha, clientId, hl⟩

/-! ### Who gets it -/

/-- The sessions that messages have been delivered to, with one entry for each delivery. -/
def ManageSessions.receivers (ms : ManageSessions) : List SessionRef :=
  ms.calls.filterMap Call.receiver

/-- A subscriber gets a message: it is connected, or offline and the QoS is positive. -/
def Takes (connectedAt : SessionRef → Option Bool) (qos : UInt8) (r : SessionRef) : Prop :=
  connectedAt r = some true ∨ connectedAt r = some false ∧ 0 < qos

/-- No subscriber that the topic addresses gets a message. -/
def Deaf (ms : ManageSessions) (qos : UInt8) (topic : Bytes) : Prop :=
  ∀ path clientId sub, Addressed ms.topicTree topic path →
    (ms.topicTree.root.subsAt path).lookup clientId = some sub →
      ¬ Takes ms.connectedAt qos sub.session

/-- The topic has no wildcard level, neither as it is written nor as the tree splits it. -/
def Named (topic : Bytes) : Prop := (∀ word ∈ levels topic, ¬ Wildcard word) ∧ Concrete topic

/-- The sessions a message has been delivered to are those of subscribers at the node that the topic
names, each of another client, and a topic with a wildcard names none. -/
structure OwnReceivers (tree : TopicTree) (topic : Bytes) (rs : List SessionRef) : Prop where
  nobody : ∀ word ∈ levels topic, Wildcard word → rs = []
  subscribed : ∀ r ∈ rs, r.clientId ∈ tree.root.subsAt (split topic)
  once : (rs.map SessionRef.clientId).Nodup

/-- What is delivered between the two states goes to subscribers of the topic, once to each. -/
def Directed (topic : Bytes) (ms ms' : ManageSessions) : Prop :=
  ∃ rs, ms'.receivers = ms.receivers ++ rs ∧ OwnReceivers ms.topicTree topic rs

section Receivers

variable {connectedAt : SessionRef → Option Bool} {packet : Packet} {subs : List Subscription}
  {tree : TopicTree} {topic : Bytes} {rs : List SessionRef}

theorem receivers_eq_deliveries (ms : ManageSessions) :
    ms.receivers = ms.deliveries.filterMap Call.receiver := by
  rw [ManageSessions.receivers, deliveries, List.filterMap_filter]
  congr 1
  funext call
  cases call <;> rfl

/-- The loop delivers to some of the subscribers, in their order. -/
theorem receivers_deliveriesOf_sublist :
    ((deliveriesOf connectedAt packet subs).filterMap Call.receiver).Sublist
      (subs.map Subscription.session) := by
  induction subs generalizing packet with
  | nil => exact List.Sublist.refl _
  | cons sub subs ih =>
    rw [deliveriesOf, List.map_cons]
    split
    · exact .cons _ ih
    · exact .cons_cons _ ih
    · split_ifs
      · exact .cons_cons _ ih
      · exact .cons _ ih

/-- It delivers to none if none of them takes a message of that QoS. -/
theorem receivers_deliveriesOf_eq_nil_iff :
    (deliveriesOf connectedAt packet subs).filterMap Call.receiver = [] ↔
      ∀ sub ∈ subs, ¬ Takes connectedAt packet.header.qos sub.session := by
  induction subs with
  | nil => simp [deliveriesOf]
  | cons sub subs ih =>
    rw [deliveriesOf, List.forall_mem_cons, ← ih]
    unfold Takes
    split
    · next hc => simp [hc]
    · next hc => simp [hc, Call.receiver]
    · next hc =>
      split_ifs with hq
      · simp [hc, hq, Call.receiver]
      · simp [hc, hq]

/-- No node is named by a wildcard. -/
theorem subsAt_of_not_concrete (tree : TopicTree) (h : ¬ Concrete topic) :
    tree.root.subsAt (split topic) = ∅ := by
  unfold subsAt
  cases hf : tree.root.find (split topic) with
  | none => rfl
  | some c => exact absurd (tree.wellFormed.keys_ne (Option.isSome_iff_exists.2 ⟨c, hf⟩)) h

/-- A topic that names no node has no receivers. -/
theorem OwnReceivers.eq_nil (h : OwnReceivers tree topic rs) (hn : ¬ Named topic) : rs = [] := by
  by_cases hc : Concrete topic
  · have hex : ∃ word ∈ levels topic, Wildcard word := by
      by_contra hno
      push Not at hno
      exact hn ⟨hno, hc⟩
    obtain ⟨word, hw, hwild⟩ := hex
    exact h.nobody word hw hwild
  · refine List.eq_nil_iff_forall_not_mem.2 fun r hr => ?_
    have hmem := h.subscribed r hr
    rw [subsAt_of_not_concrete tree hc] at hmem
    exact AList.notMem_empty _ hmem

theorem OwnReceivers.nil (tree : TopicTree) (topic : Bytes) : OwnReceivers tree topic [] :=
  ⟨fun _ _ _ => rfl, by simp, List.nodup_nil⟩

/-- Some of those that a match of a named topic lists. -/
theorem OwnReceivers.of_sublist (hk : tree.Keyed) (hn : Named topic)
    (hsubs : subs.Perm (tree.match topic).2) (hrs : rs.Sublist (subs.map Subscription.session)) :
    OwnReceivers tree topic rs := by
  have hlist := hk.lists hn.2
  refine ⟨fun word hw hwild => absurd hwild (hn.1 word hw), fun r hr => ?_, ?_⟩
  · obtain ⟨sub, hsub, rfl⟩ := List.mem_map.1 (hrs.subset hr)
    have hl := (hlist.mem sub).1 (hsubs.mem_iff.1 hsub)
    exact AList.lookup_isSome.1 (Option.isSome_iff_exists.2 ⟨sub, hl⟩)
  · refine List.Nodup.sublist (hrs.map _) ?_
    rw [List.map_map]
    exact (hsubs.map _).nodup_iff.2 hlist.nodup

end Receivers

/-! ### Routing -/

section Routing

variable {p : Platform} {packet packet' pkt : Packet} {pub : Publish} {ms ms' ms₁ : ManageSessions}
  {topic : Bytes} {id : ℕ} {handled : Handled} {qos : UInt8}

theorem deaf_iff : Deaf ms qos topic ↔
    ∀ sub ∈ (ms.topicTree.match topic).2, ¬ Takes ms.connectedAt qos sub.session := by
  constructor
  · intro h sub hsub
    obtain ⟨path, clientId, ha, hl⟩ := TopicTree.mem_match_iff.1 hsub
    exact h path clientId sub ha hl
  · intro h path clientId sub ha hl
    exact h sub (TopicTree.mem_match_iff.2 ⟨path, clientId, ha, hl⟩)

/-- **Routing a message** keeps to the subscribers of its topic if the topic names them, or nobody
that it addresses takes the message. -/
theorem routePacket_directed_iff (hk : ms.topicTree.Keyed) (h : IsPublish packet pub)
    (hroute : routePacket p packet none ms = .ok (ms', packet')) :
    Directed pub.topic ms ms' ↔
      Named pub.topic ∨ Deaf ms packet.header.qos pub.topic := by
  obtain ⟨ms₁, packet₁, hroute₁, hd⟩ := @routePacket_deliveries p packet pub ms h
  obtain ⟨rfl, -⟩ := Prod.mk.inj (Except.ok.inj (hroute₁.symm.trans hroute))
  have hperm : (routeTargets p pub ms).Perm (ms.topicTree.match pub.topic).2 :=
    p.traverse_perm _ _
  set rs := (deliveriesOf ms.connectedAt packet (routeTargets p pub ms)).filterMap Call.receiver
    with hrs
  have hreceivers : ms₁.receivers = ms.receivers ++ rs := by
    rw [receivers_eq_deliveries, hd, List.filterMap_append, ← receivers_eq_deliveries]
  have hdeaf : Deaf ms packet.header.qos pub.topic ↔ rs = [] := by
    rw [hrs, receivers_deliveriesOf_eq_nil_iff, deaf_iff]
    exact forall_congr' fun sub => imp_congr_left hperm.mem_iff.symm
  have hdirected : Directed pub.topic ms ms₁ ↔ OwnReceivers ms.topicTree pub.topic rs := by
    constructor
    · rintro ⟨rs', hrs', hown⟩
      rwa [List.append_cancel_left (hreceivers.symm.trans hrs')]
    · exact fun hown => ⟨rs, hreceivers, hown⟩
  rw [hdirected, hdeaf]
  constructor
  · intro hown
    rw [or_iff_not_imp_left]
    exact hown.eq_nil
  · rintro (hn | hnil)
    · exact .of_sublist hk hn hperm receivers_deliveriesOf_sublist
    · rw [hnil]
      exact .nil _ _

/-- The two states deliver alike, as far as routing is concerned. -/
structure RoutesAlike (ms ms₁ : ManageSessions) : Prop where
  receivers : ms₁.receivers = ms.receivers
  topicTree : ms₁.topicTree = ms.topicTree
  connectedAt : ms₁.connectedAt = ms.connectedAt

theorem RoutesAlike.setSession {r : SessionRef} {cs cs' : ClientSession} (hl : ms.lock r = some cs)
    (hc : cs'.connected = cs.connected) : RoutesAlike ms (ms.setSession r cs') := by
  refine ⟨?_, ?_, ?_⟩
  · rw [receivers_eq_deliveries, deliveries_setSession, receivers_eq_deliveries]
  · rw [setSession_eq]
  · funext r'
    unfold ManageSessions.connectedAt
    rw [lock_setSession]
    split_ifs with he
    · rw [he, hl, Option.map_some, Option.map_some, Option.map_some, hc]
    · rfl

theorem RoutesAlike.updateActivity (clientId : Bytes) :
    RoutesAlike ms (ms.updateActivity clientId) := by
  cases hl : ms.sessionRegistry.lookup clientId with
  | none =>
    unfold ManageSessions.updateActivity
    rw [hl]
    exact ⟨rfl, rfl, rfl⟩
  | some entry =>
    have hlock := lock_of_lookup hl
    rw [updateActivity_eq hlock]
    exact .setSession hlock rfl

@[simp] theorem receivers_pushDataToSend (id : ℕ) (data : Bytes) :
    (ms.pushDataToSend id data).receivers = ms.receivers := by
  rw [receivers_eq_deliveries, receivers_eq_deliveries, pushDataToSend, deliveries_record]
  simp [Call.isDelivery]

theorem RoutesAlike.directed_congr (h : RoutesAlike ms ms₁) {ms₂ ms₃ : ManageSessions}
    (h' : ms₃.receivers = ms₂.receivers) : Directed topic ms ms₃ ↔ Directed topic ms₁ ms₂ := by
  unfold Directed
  rw [h', h.receivers, h.topicTree]

theorem RoutesAlike.deaf_congr (h : RoutesAlike ms ms₁) :
    Deaf ms₁ qos topic ↔ Deaf ms qos topic := by
  unfold Deaf
  rw [h.topicTree, h.connectedAt]

/-- A handler that routes a message in a state like the one before it. -/
theorem RoutesAlike.routed (h : RoutesAlike ms ms₁) (hk : ms.topicTree.Keyed)
    (hp : IsPublish packet pub) (hroute : routePacket p packet none ms₁ = .ok (ms', packet'))
    {ms₂ : ManageSessions} (h' : ms₂.receivers = ms'.receivers) :
    Directed pub.topic ms ms₂ ↔ Named pub.topic ∨ Deaf ms packet.header.qos pub.topic := by
  rw [h.directed_congr h', ← h.deaf_congr]
  exact routePacket_directed_iff (h.topicTree.symm ▸ hk) hp hroute

theorem RoutesAlike.silent (h : RoutesAlike ms ms₁) {ms₂ : ManageSessions}
    (h' : ms₂.receivers = ms₁.receivers) : ms₂.receivers = ms.receivers := h'.trans h.receivers

/-! ### The handlers -/

/-- The handling of a packet is right about a message: if it routes one, it delivers it to those it
should exactly under the condition, and if it routes none, to nobody. -/
def DirectedWhen (pkt : Packet) (id : ℕ) (ms ms' : ManageSessions) : Prop :=
  (∀ packet pub, routedBy pkt id ms = some packet → IsPublish packet pub →
    (Directed pub.topic ms ms' ↔ Named pub.topic ∨ Deaf ms packet.header.qos pub.topic)) ∧
  ((∀ packet pub, routedBy pkt id ms = some packet → ¬ IsPublish packet pub) →
    ms'.receivers = ms.receivers)

theorem DirectedWhen.of_routed (hrouted : routedBy pkt id ms = some packet)
    (hp : IsPublish packet pub)
    (h : Directed pub.topic ms ms' ↔ Named pub.topic ∨ Deaf ms packet.header.qos pub.topic) :
    DirectedWhen pkt id ms ms' := by
  refine ⟨fun packet₁ pub₁ hrouted₁ hp₁ => ?_, fun hno => absurd hp (hno packet pub hrouted)⟩
  cases hrouted.symm.trans hrouted₁
  cases hp.pkt.symm.trans hp₁.pkt
  exact h

theorem DirectedWhen.of_silent
    (hno : ∀ packet pub, routedBy pkt id ms = some packet → ¬ IsPublish packet pub)
    (h : ms'.receivers = ms.receivers) : DirectedWhen pkt id ms ms' :=
  ⟨fun packet pub hrouted hp => absurd hp (hno packet pub hrouted), fun _ => h⟩

theorem publishHandler_directedWhen (hk : ms.topicTree.Keyed) (ht : pkt.header.type = .publish)
    (h : publishHandler p pkt id ms = .ok handled) : DirectedWhen pkt id ms handled.state := by
  rcases publishHandler_ok ht h with ⟨pub, ms₁, packet', hp, hq, hroute, -, hstate⟩ |
    ⟨r, cs, pub, hp, hq, hserves, -, hstate⟩ | ⟨hother, rfl⟩
  · have halike : RoutesAlike ms (ms.updateActivity (ms.getClientId id)) := .updateActivity _
    have hrouted : routedBy pkt id ms = some pkt := by
      unfold routedBy
      simp only [ht, hp, if_pos hq]
    refine .of_routed hrouted ⟨ht, hp⟩ (halike.routed hk ⟨ht, hp⟩ hroute ?_)
    rcases hstate with hstate | ⟨data, hstate⟩ <;> rw [hstate]
    exact receivers_pushDataToSend _ _
  · have hset : RoutesAlike ms (ms.setSession r { cs.activeAt ms.now with
        inflight := receivedInflight cs.inflight pub pkt }) := .setSession hserves.lock rfl
    rw [hstate]
    refine .of_silent (fun packet pub hrouted => ?_) (hset.silent (receivers_pushDataToSend _ _))
    unfold routedBy at hrouted
    simp only [ht, hp, if_neg hq] at hrouted
    cases hrouted
  · refine .of_silent (fun packet pub hrouted => ?_) rfl
    unfold routedBy at hrouted
    split at hrouted
    · next pub' _ hp => exact absurd hp (hother pub')
    · next ht' _ => cases ht.symm.trans ht'
    · cases hrouted

theorem pubrelHandler_directedWhen (hk : ms.topicTree.Keyed) (ht : pkt.header.type = .pubrel)
    (h : pubrelHandler p pkt id ms = .ok handled) : DirectedWhen pkt id ms handled.state := by
  rcases pubrelHandler_ok h with ⟨r, cs, ack, hserves, hp, hcases⟩ | ⟨hother, hstate⟩
  · have hrouted : routedBy pkt id ms = some (cs.inflight.find ack.packetId) := by
      unfold routedBy
      simp only [ht, hp]
      rw [hserves.clientId, lock_eq_some_iff.1 hserves.lock]
      rfl
    have halike : RoutesAlike ms (released r cs ack.packetId ms) := .setSession hserves.lock rfl
    rcases hcases with ⟨hf, ms₁, packet', hroute, hstate⟩ | ⟨hf, hstate⟩
    · obtain ⟨pub, hpub⟩ := isPublish_of_routePacket hf hroute
      rw [hstate]
      exact .of_routed hrouted hpub (halike.routed hk hpub hroute (receivers_pushDataToSend _ _))
    · rw [hstate]
      refine .of_silent (fun packet pub hrouted₁ hpub => ?_)
        (halike.silent (receivers_pushDataToSend _ _))
      cases hrouted.symm.trans hrouted₁
      exact hf hpub.type
  · rw [hstate]
    refine .of_silent (fun packet pub hrouted => ?_) rfl
    unfold routedBy at hrouted
    split at hrouted
    · next ht' _ => cases ht.symm.trans ht'
    · next ack _ hp => exact absurd hp (hother ack)
    · cases hrouted

/-- **Publishing by wildcard.**  A PUBLISH or PUBREL that is handled delivers the message that it
routes to the subscribers of the node its topic names, once to each client, if and only if the topic
has no wildcard level or none of the subscribers that it addresses takes the message.  Where no
message is routed nobody gets one. -/
theorem directed_iff (calls : List TreeCall) (htree : ms.topicTree = TopicTree.empty.calls calls)
    (ht : pkt.header.type = .publish ∨ pkt.header.type = .pubrel)
    (h : dispatch p pkt id ms = .ok handled) :
    (∀ packet pub, routedBy pkt id ms = some packet → IsPublish packet pub →
      (Directed pub.topic ms handled.state ↔
        Named pub.topic ∨ Deaf ms packet.header.qos pub.topic)) ∧
    ((∀ packet pub, routedBy pkt id ms = some packet → ¬ IsPublish packet pub) →
      handled.state.receivers = ms.receivers) := by
  have hk : ms.topicTree.Keyed := htree ▸ TopicTree.keyed_calls calls
  unfold dispatch handlers at h
  rcases ht with ht | ht <;> rw [ht] at h
  · exact publishHandler_directedWhen hk ht h
  · exact pubrelHandler_directedWhen hk ht h

end Routing

/-! ### Examples -/

/-- Client `A` has connected and subscribed to `"/a"`. -/
def subscribedBelow : ManageSessions :=
  after .sorting (.newConnection 3 :: arrive 0 (connectFrame 65 2) ++
    arrive 0 [0x82, 7, 0, 1, 0, 2, 47, 97, 1])

/-- A PUBLISH with QoS 1. -/
def publishTo (topic : Bytes) : Packet :=
  { packetSeven with pkt := .publish { messageSeven with topic } }

/-- A message to `"/a"`. -/
theorem directed_iff_named : ∃ handled,
    dispatch .sorting (publishTo [47, 97]) 0 subscribedBelow = .ok handled ∧
      handled.state.receivers ≠ subscribedBelow.receivers ∧
        Directed [47, 97] subscribedBelow handled.state := by
  obtain ⟨calls, -, htree⟩ :=
    (after_reachable .sorting _ : Reachable .sorting subscribedBelow).tree
  obtain ⟨handled, hd, hne⟩ : ∃ handled,
      dispatch .sorting (publishTo [47, 97]) 0 subscribedBelow = .ok handled ∧
        handled.state.receivers ≠ subscribedBelow.receivers :=
    exists_of_any_ok (by decide +kernel)
  have hdirected := (directed_iff calls htree (.inl rfl) hd).1 (publishTo [47, 97]) _ rfl ⟨rfl, rfl⟩
  exact ⟨handled, hd, hne, hdirected.2 (.inl ⟨by decide, by decide⟩)⟩

/-- A message to `"/+"` is delivered to the subscriber of `"/a"`. -/
theorem not_directed_plus :
    ¬ ∀ (ms : ManageSessions) (pkt packet : Packet) (pub : Publish) (id : ℕ) (handled : Handled),
      Reachable .sorting ms → dispatch .sorting pkt id ms = .ok handled →
        routedBy pkt id ms = some packet → IsPublish packet pub →
          Directed pub.topic ms handled.state := by
  intro h
  obtain ⟨handled, hd, hne⟩ : ∃ handled,
      dispatch .sorting (publishTo [47, 43]) 0 subscribedBelow = .ok handled ∧
        handled.state.receivers ≠ subscribedBelow.receivers :=
    exists_of_any_ok (by decide +kernel)
  obtain ⟨rs, hrs, hown⟩ := h subscribedBelow (publishTo [47, 43]) (publishTo [47, 43]) _ 0 handled
    (after_reachable _ _) hd rfl ⟨rfl, rfl⟩
  have hnil : rs = [] := hown.nobody plus (by decide) (.inl rfl)
  rw [hnil, List.append_nil] at hrs
  exact hne hrs

end Culex
