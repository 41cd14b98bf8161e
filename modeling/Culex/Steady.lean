import Culex.Evolving
import Culex.Growth

/-!
# What goes on between CONNECTs

`Calm` says which sessions and sockets a step leaves alone.  `Steady` adds what it does with the
rest: the transports, the tasks, the clock and the expiry heap stay, the topic tree is called, and
the last activity of a session stays or is now.
-/

namespace Culex

open ManageSessions

/-- The call takes no subscription away. -/
def TreeCall.Adds : TreeCall → Prop
  | .subscribe .. => True
  | .unsubscribe .. => False
  | .match _ => True

/-- Subscriptions and matches lead from one tree to the other. -/
def TopicTree.Extends (tree tree' : TopicTree) : Prop :=
  ∃ calls : List TreeCall, (∀ op ∈ calls, op.Adds) ∧ tree' = tree.calls calls

theorem TopicTree.Extends.refl (tree : TopicTree) : tree.Extends tree := ⟨[], by simp, rfl⟩

theorem TopicTree.Extends.trans {tree tree₁ tree₂ : TopicTree} (h : tree.Extends tree₁)
    (h' : tree₁.Extends tree₂) : tree.Extends tree₂ := by
  obtain ⟨calls, hcalls, rfl⟩ := h
  obtain ⟨calls', hcalls', rfl⟩ := h'
  refine ⟨calls ++ calls', ?_, (List.foldl_append ..).symm⟩
  intro op hop
  exact (List.mem_append.1 hop).elim (hcalls op) (hcalls' op)

theorem TopicTree.Extends.call (tree : TopicTree) {op : TreeCall} (h : op.Adds) :
    tree.Extends (tree.call op) :=
  ⟨[op], fun _ hop => List.mem_singleton.1 hop ▸ h, rfl⟩

/-- What a step between CONNECTs does besides being calm. -/
structure Steady (ms ms' : ManageSessions) : Prop where
  expiryHeap : ms'.expiryHeap = ms.expiryHeap
  transports : ms'.transports = ms.transports
  tasks : ms'.tasks = ms.tasks
  now : ms'.now = ms.now
  tree : ms.topicTree.Extends ms'.topicTree
  active : ∀ r cs', ms'.lock r = some cs' → ∃ cs, ms.lock r = some cs ∧
    (cs'.lastActivity = cs.lastActivity ∨ cs'.lastActivity = ms.now)

namespace Steady

variable {ms ms₁ ms₂ : ManageSessions} {r : SessionRef} {cs cs' : ClientSession}

/-- A step that leaves the registry and everything named by `Steady` alone. -/
theorem of_registry (hheap : ms₁.expiryHeap = ms.expiryHeap)
    (htransports : ms₁.transports = ms.transports) (htasks : ms₁.tasks = ms.tasks)
    (hnow : ms₁.now = ms.now) (htree : ms.topicTree.Extends ms₁.topicTree)
    (hreg : ms₁.sessionRegistry = ms.sessionRegistry) : Steady ms ms₁ :=
  ⟨hheap, htransports, htasks, hnow, htree,
    fun r cs h => ⟨cs, (lock_congr hreg r).symm.trans h, .inl rfl⟩⟩

theorem refl (ms : ManageSessions) : Steady ms ms := of_registry rfl rfl rfl rfl (.refl _) rfl

theorem trans (h : Steady ms ms₁) (h' : Steady ms₁ ms₂) : Steady ms ms₂ where
  expiryHeap := h'.expiryHeap.trans h.expiryHeap
  transports := h'.transports.trans h.transports
  tasks := h'.tasks.trans h.tasks
  now := h'.now.trans h.now
  tree := h.tree.trans h'.tree
  active r cs₂ hl := by
    obtain ⟨cs₁, hl₁, hact₁⟩ := h'.active r cs₂ hl
    obtain ⟨cs, hl₀, hact⟩ := h.active r cs₁ hl₁
    refine ⟨cs, hl₀, ?_⟩
    rcases hact₁ with he | he
    · rw [he]
      exact hact
    · exact .inr (he.trans h.now)

theorem setSession (hl : ms.lock r = some cs)
    (h : cs'.lastActivity = cs.lastActivity ∨ cs'.lastActivity = ms.now) :
    Steady ms (ms.setSession r cs') := by
  have hlock := fun r' => lock_setSession ms r r' cs'
  rw [setSession_eq] at hlock ⊢
  refine ⟨rfl, rfl, rfl, rfl, .refl _, fun r' cs₁ hr' => ?_⟩
  rw [hlock] at hr'
  split_ifs at hr' with he
  · rw [hl, Option.map_some, Option.some.injEq] at hr'
    subst hr'
    exact ⟨cs, he ▸ hl, h⟩
  · exact ⟨cs₁, hr', .inl rfl⟩

theorem updateActivity (clientId : Bytes) : Steady ms (ms.updateActivity clientId) := by
  cases hl : ms.sessionRegistry.lookup clientId with
  | none =>
    unfold ManageSessions.updateActivity
    rw [hl]
    exact refl ms
  | some entry =>
    have hlock := lock_of_lookup hl
    rw [updateActivity_eq hlock]
    exact setSession hlock (.inr rfl)

theorem record (call : Call) : Steady ms (ms.record call) :=
  of_registry rfl rfl rfl rfl (.refl _) rfl

theorem pushDataToSend (t : ℕ) (data : Bytes) : Steady ms (ms.pushDataToSend t data) := record _

end Steady

section Routing

variable {p : Platform} {packet : Packet} {pub : Publish} {ms ms' : ManageSessions}

/-- Routing touches no session's activity. -/
theorem routePacket_steady (h : IsPublish packet pub) (cs : Option SessionRef)
    {packet' : Packet} (hr : routePacket p packet cs ms = .ok (ms', packet')) : Steady ms ms' := by
  obtain ⟨ms₁, m, hr₁, hrouted, -⟩ := @routePacket_routed p packet pub ms h cs
  obtain ⟨rfl, -⟩ := Prod.mk.inj (Except.ok.inj (hr₁.symm.trans hr))
  refine ⟨hrouted.expiryHeap, hrouted.transports, hrouted.tasks, hrouted.now, ?_, ?_⟩
  · rw [hrouted.topicTree]
    have hadds : (TreeCall.match pub.topic).Adds := trivial
    exact .call ms.topicTree hadds
  let I (ms' : ManageSessions) : Prop := ∀ r cs', ms'.lock r = some cs' →
    ∃ cs, ms.lock r = some cs ∧ (cs'.lastActivity = cs.lastActivity ∨ cs'.lastActivity = ms.now)
  have hkept : ∀ (ms₁ : ManageSessions) r cs cs', I ms₁ → ms₁.lock r = some cs →
      cs'.lastActivity = cs.lastActivity → I (ms₁.setSession r cs') := by
    intro ms₁ r cs cs' hI hl hact r' cs₂ hr'
    rw [lock_setSession] at hr'
    split_ifs at hr' with he
    · rw [hl, Option.map_some, Option.some.injEq] at hr'
      subst hr' he
      rw [hact]
      exact hI r' cs hl
    · exact hI r' cs₂ hr'
  have hconnected : ∀ ms₁ s cs m, s ∈ routeTargets p pub ms → I ms₁ →
      ms₁.lock s.session = some cs → I (delivered p s.session cs (packet.withQos m) pub ms₁) := by
    intro ms₁ s cs m _ hI hl
    by_cases hq : 0 < (packet.withQos m).header.qos
    · rw [delivered_of_pos hq]
      intro r cs' hr'
      rw [lock_pushIfAlive, lock_scheduleRetransmission] at hr'
      exact hkept (ms₁.record (.sendToClient s.session (packet.withQos m))) s.session cs
        (tracked cs (packet.withQos m) pub) hI hl rfl r cs' hr'
    · rw [delivered_of_not_pos hq]
      intro r cs' hr'
      rw [lock_pushIfAlive] at hr'
      exact hI r cs' hr'
  have hoffline : ∀ ms₁ s cs m, s ∈ routeTargets p pub ms → I ms₁ →
      ms₁.lock s.session = some cs → I (queued s.session cs (packet.withQos m) ms₁) := by
    intro ms₁ s cs m _ hI hl
    unfold queued
    split_ifs
    · exact hkept ms₁ s.session cs _ hI hl rfl
    · exact hI
  obtain ⟨ms₂, m₂, hloop, hI⟩ := @routeLoop_invariant p packet pub (routeStart packet pub ms) h I
    (routeTargets p pub ms) hconnected hoffline fun r cs hl => ⟨cs, hl, .inl rfl⟩
  rw [routePacket_eq h] at hr
  obtain ⟨rfl, -⟩ := Prod.mk.inj (Except.ok.inj (hloop.symm.trans hr))
  exact hI

end Routing

/-! ### The handlers -/

section Handlers

variable {p : Platform} {packet : Packet} {ms ms' : ManageSessions} {t : ℕ} {handled : Handled}

/-- What is routed as a PUBLISH is one. -/
theorem isPublish_of_routePacket (ht : packet.header.type = .publish) {cs : Option SessionRef}
    {packet' : Packet} (h : routePacket p packet cs ms = .ok (ms', packet')) :
    ∃ pub, IsPublish packet pub := by
  unfold routePacket at h
  rw [if_pos ht] at h
  split at h
  · next pub hp => exact ⟨pub, ht, hp⟩
  · cases h

theorem pubrelHandler_steady (h : pubrelHandler p packet t ms = .ok handled) :
    Steady ms handled.state := by
  rcases pubrelHandler_ok h with ⟨r, cs, ack, hserves, -, hcases⟩ | ⟨-, hstate⟩
  · have hrel : Steady ms (released r cs ack.packetId ms) := .setSession hserves.lock (.inr rfl)
    rcases hcases with ⟨hf, ms₁, packet', hroute, hstate⟩ | ⟨-, hstate⟩
    · obtain ⟨pub, hpub⟩ := isPublish_of_routePacket hf hroute
      rw [hstate]
      exact (hrel.trans (routePacket_steady hpub none hroute)).trans (.pushDataToSend t _)
    · rw [hstate]
      exact hrel.trans (.pushDataToSend t _)
  · rw [hstate]
    exact .refl ms

theorem publishHandler_steady (ht : packet.header.type = .publish)
    (h : publishHandler p packet t ms = .ok handled) : Steady ms handled.state := by
  rcases publishHandler_ok ht h with ⟨pub, ms₁, packet', hp, -, hroute, -, hstate⟩ |
    ⟨r, cs, pub, -, -, hserves, -, hstate⟩ | ⟨-, rfl⟩
  · have hactive : Steady ms (ms.updateActivity (ms.getClientId t)) := .updateActivity _
    have hsteady := hactive.trans (routePacket_steady ⟨ht, hp⟩ none hroute)
    rcases hstate with hstate | ⟨data, hstate⟩ <;> rw [hstate]
    · exact hsteady
    · exact hsteady.trans (.pushDataToSend t _)
  · rw [hstate]
    exact .trans (.setSession hserves.lock (.inr rfl)) (.pushDataToSend t _)
  · exact .refl ms

/-- The calls of the tree that the entries of a SUBSCRIBE stand for. -/
def requests (session : Option SessionRef) (payload : List Tuple) : List TreeCall :=
  match session with
  | some r => (payload.filter (·.qos < 3)).map fun tuple => .subscribe tuple.topic r tuple.qos
  | none => []

theorem adds_of_mem_requests {session : Option SessionRef} {payload : List Tuple} {op : TreeCall}
    (h : op ∈ requests session payload) : op.Adds := by
  cases session with
  | none => cases h
  | some r =>
    obtain ⟨tuple, -, rfl⟩ := List.mem_map.1 h
    exact trivial

theorem requests_cons (session : Option SessionRef) (tuple : Tuple) (payload : List Tuple) :
    requests session (tuple :: payload) =
      requests session [tuple] ++ requests session payload := by
  cases session with
  | none => rfl
  | some r =>
    unfold requests
    rw [← List.map_append, ← List.filter_append]
    rfl

/-- One entry of a SUBSCRIBE. -/
theorem subscribeStep_eq (tuple : Tuple) (t : ℕ) (ms : ManageSessions) :
    (if tuple.qos < 3 then ms.createSubscription tuple.topic tuple.qos (ms.getClientId t) else ms) =
      { ms with topicTree :=
          (ms.topicTree.calls (requests (ms.sessionPresent (ms.getClientId t)) [tuple])) } := by
  unfold requests createSubscription
  by_cases hq : tuple.qos < 3
  · have hfilter : [tuple].filter (·.qos < 3) = [tuple] := by simp [hq]
    rw [if_pos hq, hfilter]
    cases ms.sessionPresent (ms.getClientId t) <;> rfl
  · have hfilter : [tuple].filter (·.qos < 3) = [] := by simp [hq]
    rw [if_neg hq, hfilter]
    cases ms.sessionPresent (ms.getClientId t) <;> rfl

/-- The loop of `subscribeHandler` calls the tree, and does nothing else. -/
theorem subscribeLoop_eq (payload : List Tuple) (t : ℕ) (ms : ManageSessions) :
    payload.foldl (fun ms tuple =>
      if tuple.qos < 3 then ms.createSubscription tuple.topic tuple.qos (ms.getClientId t)
      else ms) ms =
    { ms with topicTree :=
        (ms.topicTree.calls (requests (ms.sessionPresent (ms.getClientId t)) payload)) } := by
  induction payload generalizing ms with
  | nil =>
    unfold requests
    split <;> rfl
  | cons tuple payload ih =>
    rw [List.foldl_cons, subscribeStep_eq, ih, requests_cons _ tuple payload]
    unfold TopicTree.calls
    rw [List.foldl_append]
    rfl

/-- The return codes of a SUBACK. -/
def returnCodes (payload : List Tuple) : List UInt8 :=
  payload.map fun tuple => if tuple.qos < 3 then tuple.qos else 0x80

/-- **What a SUBSCRIBE does.** -/
theorem subscribeHandler_eq {sub : Subscribe} (hp : packet.pkt = .subscribe sub) :
    subscribeHandler p packet t ms = .ok {
      state := ({ ms.updateActivity (ms.getClientId t) with topicTree :=
        (ms.topicTree.calls
          (requests (ms.sessionPresent (ms.getClientId t)) sub.payload)) }).pushDataToSend t
            (buildSuback p.toCore sub.packetId (returnCodes sub.payload) [])
      returnCode := mqttOk
      buff := buildSuback p.toCore sub.packetId (returnCodes sub.payload) [] } := by
  have htree : (ms.updateActivity (ms.getClientId t)).topicTree = ms.topicTree := by
    unfold updateActivity
    split <;> rfl
  unfold subscribeHandler
  simp only [hp, subscribeLoop_eq, getClientId_updateActivity, sessionPresent_updateActivity, htree]
  rfl

theorem subscribeHandler_steady (h : subscribeHandler p packet t ms = .ok handled) :
    Steady ms handled.state := by
  cases hp : packet.pkt with
  | subscribe sub =>
    obtain rfl := Except.ok.inj ((subscribeHandler_eq hp).symm.trans h)
    refine .trans ?_ (.pushDataToSend t _)
    have hactive : Steady ms (ms.updateActivity (ms.getClientId t)) := .updateActivity _
    exact { hactive with tree := ⟨_, fun op hop => adds_of_mem_requests hop, rfl⟩ }
  | _ =>
    unfold subscribeHandler at h
    rw [hp] at h
    obtain rfl := Except.ok.inj h
    exact .refl ms

/-- **Every handler but the one of CONNECT is steady.** -/
theorem dispatch_steady (ht : packet.header.type ≠ .connect)
    (h : dispatch p packet t ms = .ok handled) : Steady ms handled.state := by
  unfold dispatch handlers at h
  cases hty : packet.header.type <;> rw [hty] at h <;> simp only [PacketType.code] at h
  case connect => exact absurd hty ht
  case publish => exact publishHandler_steady hty h
  case puback =>
    rcases (pubackHandler_ends packet t ms).ok h with ⟨r, cs, hserves, ack, -, rfl⟩ | ⟨-, rfl⟩
    · exact .setSession hserves.lock (.inr rfl)
    · exact .refl ms
  case pubrec =>
    rcases (pubrecHandler_ends packet t ms).ok h with ⟨r, cs, hserves, ack, -, rfl⟩ | ⟨-, rfl⟩
    · exact .trans (.setSession hserves.lock (.inr rfl)) (.pushDataToSend t _)
    · exact .refl ms
  case pubrel => exact pubrelHandler_steady h
  case pubcomp =>
    rcases (pubcompHandler_ends packet t ms).ok h with ⟨r, cs, hserves, ack, -, rfl⟩ | ⟨-, rfl⟩
    · exact .setSession hserves.lock (.inr rfl)
    · exact .refl ms
  case subscribe => exact subscribeHandler_steady h
  case unsubscribe =>
    have h : unsubscribeHandler packet t ms = .ok handled := h
    unfold unsubscribeHandler at h
    split at h
    · cases h
    · obtain rfl := Except.ok.inj h
      exact .refl ms
  case pingreq =>
    have h : pingreqHandler packet t ms = .ok handled := h
    obtain rfl := Except.ok.inj h
    exact (Steady.updateActivity (ms.getClientId t)).trans (.pushDataToSend t _)
  case reserved15 => cases h
  all_goals
    obtain rfl := Except.ok.inj h
    exact .refl ms

/-! ### Retransmission -/

theorem Resends.steady (hs : Sound ms) {e : RetransmitEntry} (h : Resends p ms e ms') :
    Steady ms ms' := by
  obtain ⟨cs, packet, pub, ms₁, hr, rfl⟩ := h.spec hs
  obtain ⟨packet', hroute⟩ := hr.route
  exact { routePacket_steady hr.isPublish.withDup none hroute with }

/-- **The loop of `processRetransmissions` is steady.** -/
theorem retransmitLoop_steady {rounds : ℕ} (hs : Sound ms)
    (h : retransmitLoop p rounds ms = .ok ms') : Steady ms ms' :=
  retransmitLoop_rel (R := Steady) .refl (fun _ _ _ => .trans) (fun _ _ _ hs hres => hres.steady hs)
    hs h

end Handlers

/-! ### Handling a packet -/

section Parsing

variable {p : Platform} {pkt : Packet} {ms ms' : ManageSessions} {id : ℕ}

/-- **Handling a packet is a CONNECT or a steady step**, which the handler's state ends. -/
theorem dispatch_cases {handled : Handled} (hs : Sound ms) (hd : dispatch p pkt id ms = .ok handled)
    (hf : finish pkt id handled = .ok ms') :
    (∃ cn, pkt.header.type = .connect ∧ pkt.pkt = .connect cn ∧
      connectHandler p pkt id ms = .ok handled ∧
        ms' = finishConnect cn id handled.buff handled.state) ∨
      (∃ sub log, Calm sub log ms ms') ∧ Steady ms ms' ∧ ms' = handled.state ∧
        (pkt.header.type = .connect → (∀ cn, pkt.pkt ≠ .connect cn) ∧ ms' = ms) := by
  rcases dispatch_ends hs hd hf with ⟨cn, ht, hp, hhandle, he⟩ | ⟨ht, hp, hstate, rfl⟩ |
    ⟨ht, rfl, log, hcalm⟩
  · exact .inl ⟨cn, ht, hp, hhandle, he⟩
  · exact .inr ⟨⟨none, [], .refl _⟩, .refl _, hstate.symm, fun _ => ⟨hp, rfl⟩⟩
  · exact .inr ⟨⟨_, log, hcalm⟩, dispatch_steady ht hd, rfl, fun hc => absurd hc ht⟩

end Parsing

/-! ### The tree -/

section Tree

variable {p : Platform} {ms ms' : ManageSessions}

theorem topicTree_forceDisconnect (id : ℕ) : (ms.forceDisconnect id).topicTree = ms.topicTree := by
  unfold forceDisconnect
  cases ms.transports.lookup id <;> rfl

theorem transports_forceDisconnect (id : ℕ) :
    (ms.forceDisconnect id).transports = ms.transports := by
  unfold forceDisconnect
  cases ms.transports.lookup id <;> rfl

theorem topicTree_finishConnect (cn : Connect) (id : ℕ) (buff : Bytes) :
    (finishConnect cn id buff ms).topicTree = ms.topicTree := by
  unfold finishConnect
  split_ifs
  · unfold ManageSessions.pushDataToSend ManageSessions.record
    rw [setTransport_eq]
  · exact topicTree_forceDisconnect id

theorem topicTree_setTransport (id : ℕ) (f : Transport → Transport) :
    (setTransport id f ms).topicTree = ms.topicTree := by
  rw [setTransport_eq]

/-- Handling a packet calls the tree to subscribe and to match. -/
theorem Parses.tree (hs : Sound ms) {id : ℕ} {arrival : Arrival} (h : Parses p id ms arrival ms') :
    ms.topicTree.Extends ms'.topicTree := by
  cases h with
  | nothing => exact .refl _
  | @malformed entry hl =>
    have htree : ((purge (ms.getClientId id) entry ms).forceDisconnect id).topicTree =
        ms.topicTree := by
      rw [topicTree_forceDisconnect]
      unfold purge
      split_ifs <;> rfl
    show ms.topicTree.Extends ((purge _ entry ms).forceDisconnect id).topicTree
    rw [htree]
    exact .refl _
  | @packet pkt handled ms₁ hd hf =>
    have htake : (takeOut pkt id ms).topicTree = ms.topicTree := topicTree_setTransport _ _
    have hs₁ : Sound (takeOut pkt id ms) := (Tame.setTransport _ _).sound hs
    show ms.topicTree.Extends ms₁.topicTree
    rw [← htake]
    rcases dispatch_cases hs₁ hd hf with ⟨cn, -, hp, hhandle, rfl⟩ | ⟨-, hsteady, -⟩
    · rw [topicTree_finishConnect, (connectHandler_connects hp hhandle).1.topicTree]
      exact .refl _
    · exact hsteady.tree

/-- **Every event calls the tree to subscribe and to match, if at all.** -/
theorem Event.apply_tree {e : Event} (hs : Sound ms) (h : e.apply p ms = .ok ms') :
    ms.topicTree.Extends ms'.topicTree := by
  cases e with
  | newConnection fd =>
    obtain rfl := Except.ok.inj h
    exact .refl _
  | closeConnection fd =>
    obtain rfl := Except.ok.inj h
    exact .refl _
  | receive id data =>
    simp only [apply] at h
    split at h
    · obtain rfl := Except.ok.inj h
      exact .refl _
    · obtain rfl := Except.ok.inj h
      show ms.topicTree.Extends (setTransport id _ ms).topicTree
      rw [topicTree_setTransport]
      exact .refl _
  | parseData id beyond => exact (parses_of_apply h).tree hs
  | processExpiredSessions =>
    obtain ⟨sweep, heap, -, rfl⟩ := processExpiredSessions_change h
    rw [(Sweeps.sweepOut sweep).eq]
    exact .refl _
  | processRetransmissions => exact (retransmitLoop_steady hs h).tree
  | tick elapsed =>
    obtain rfl := Except.ok.inj h
    exact .refl _

theorem extends_of_run (hs : Sound ms) {events : List Event}
    (h : Run (BrokerStep p) ms events ms') : Sound ms' ∧ ms.topicTree.Extends ms'.topicTree := by
  refine h.invariant (I := fun ms' => Sound ms' ∧ ms.topicTree.Extends ms'.topicTree)
    ⟨hs, .refl _⟩ ?_
  rintro ms₁ e ms₂ ⟨hs₁, htree⟩ hstep
  exact ⟨Event.apply_sound hs₁ hstep, htree.trans (Event.apply_tree hs₁ hstep)⟩

/-- **The tree of a reachable state is made by subscriptions and matches.** -/
theorem Reachable.tree (h : Reachable p ms) :
    ∃ calls : List TreeCall, (∀ op ∈ calls, op.Adds) ∧
      ms.topicTree = TopicTree.empty.calls calls := by
  obtain ⟨events, hrun⟩ := h
  exact (extends_of_run (@Reachable.init p).sound hrun).2

end Tree

end Culex
