import Culex.ManageSessions

/-!
# What routing does

The effect of `sendToClient` and of the loop of `routePacket` on a PUBLISH, said once.

* `sendToClient_publish`: the call as one expression without branches on errors;
* `Routed`: everything such a call, a round of the loop or the whole loop can change;
* `routeLoop_rec`: the induction rule of the loop;
* `routeLoop_routed`, `routePacket_routed`: they do no more than `Routed`, and never fail on a
  PUBLISH.
-/

namespace Culex

open ManageSessions

/-- The packet with another QoS. -/
def Packet.withQos (packet : Packet) (qos : UInt8) : Packet :=
  { packet with header := { packet.header with qos } }

@[simp] theorem Packet.qos_withQos (packet : Packet) (qos : UInt8) :
    (packet.withQos qos).header.qos = qos := rfl

@[simp] theorem Packet.type_withQos (packet : Packet) (qos : UInt8) :
    (packet.withQos qos).header.type = packet.header.type := rfl

@[simp] theorem Packet.pkt_withQos (packet : Packet) (qos : UInt8) :
    (packet.withQos qos).pkt = packet.pkt := rfl

@[simp] theorem Packet.withQos_withQos (packet : Packet) (q q' : UInt8) :
    (packet.withQos q).withQos q' = packet.withQos q' := rfl

theorem Packet.withQos_self (packet : Packet) : packet.withQos packet.header.qos = packet := rfl

/-- A PUBLISH: header type and body agree. -/
structure IsPublish (packet : Packet) (pub : Publish) : Prop where
  type : packet.header.type = .publish
  pkt : packet.pkt = .publish pub

theorem IsPublish.withQos {packet : Packet} {pub : Publish} (h : IsPublish packet pub)
    (qos : UInt8) : IsPublish (packet.withQos qos) pub := ⟨h.type, h.pkt⟩

variable (p : Platform)

/-! ### One delivery -/

/-- The bytes `buildPublish` makes of a PUBLISH. -/
def publishBytes (header : Header) (pub : Publish) : Bytes :=
  let remainingLen := toInt (2 + pub.topic.length + pub.payload.length)
  let remainingLen := if 0 < header.qos then remainingLen + 2 else remainingLen
  [header.pack] ++ (encodeLength remainingLen []).2
    ++ ByteReader.be16 (UInt16.ofNat pub.topic.length) ++ pub.topic
    ++ (if 0 < header.qos then ByteReader.be16 0 else []) ++ pub.payload

theorem buildPublish_eq (core : Core) {packet : Packet} {pub : Publish}
    (h : packet.pkt = .publish pub) (packetId : UInt16) :
    buildPublish core packet packetId [] = .ok (publishBytes packet.header pub) := by
  unfold buildPublish publishBytes
  rw [h]
  simp only [core.packU16_eq, core.packString16_eq, List.nil_append]
  by_cases hq : 0 < packet.header.qos
  · simp only [if_pos hq]
  · simp only [if_neg hq, List.append_nil]

/-- The session that has taken over a message: the next identifier is allocated, and the message is
stored under its own. -/
def tracked (cs : ClientSession) (packet : Packet) (pub : Publish) : ClientSession :=
  { cs.allocatePacketId.2 with inflight := cs.inflight.insertNew pub.packetId packet }

/-- The state after a PUBLISH has been sent to a session. -/
def delivered (r : SessionRef) (cs : ClientSession) (packet : Packet) (pub : Publish)
    (ms : ManageSessions) : ManageSessions :=
  let ms := ms.record (.sendToClient r packet)
  let ms :=
    if 0 < packet.header.qos then
      scheduleRetransmission p cs.allocatePacketId.1 .publish r
        (ms.setSession r (tracked cs packet pub))
    else ms
  ms.pushIfAlive cs.session (publishBytes packet.header pub)

/-- The state after a packet has come to a session that is offline. -/
def queued (r : SessionRef) (cs : ClientSession) (packet : Packet) (ms : ManageSessions) :
    ManageSessions :=
  if 0 < packet.header.qos then
    (ms.setSession r (cs.storeMessage packet)).record (.storeMessage r packet)
  else ms

theorem sendToClient_publish {r : SessionRef} {cs : ClientSession} {packet : Packet}
    {pub : Publish} {ms : ManageSessions} (h : IsPublish packet pub) (hl : ms.lock r = some cs) :
    sendToClient p (some r) packet ms = .ok (delivered p r cs packet pub ms) := by
  have hs : cs.allocatePacketId.2.storeInflight packet = .ok (tracked cs packet pub) := by
    unfold ClientSession.storeInflight
    rw [h.pkt]
    rfl
  unfold sendToClient delivered
  simp only [Option.bind_some, hl, Option.map_some, h.type, if_true]
  split_ifs with hq
  · simp only [buildPublish_eq p.toCore h.pkt]
    rw [show cs.allocatePacketId = (cs.allocatePacketId.1, cs.allocatePacketId.2) from rfl]
    simp only
    rw [hs]
    rfl
  · simp only [buildPublish_eq p.toCore h.pkt]
    rfl

section Delivered

variable {p} {r : SessionRef} {cs : ClientSession} {packet : Packet} {pub : Publish}
  {ms : ManageSessions}

theorem delivered_of_pos (hq : 0 < packet.header.qos) :
    delivered p r cs packet pub ms =
      (scheduleRetransmission p cs.allocatePacketId.1 .publish r
        ((ms.record (.sendToClient r packet)).setSession r (tracked cs packet pub))).pushIfAlive
          cs.session (publishBytes packet.header pub) := by
  unfold delivered
  simp only [if_pos hq]

theorem delivered_of_not_pos (hq : ¬ 0 < packet.header.qos) :
    delivered p r cs packet pub ms =
      (ms.record (.sendToClient r packet)).pushIfAlive cs.session
        (publishBytes packet.header pub) := by
  unfold delivered
  simp only [if_neg hq]

theorem lockTransport_setSession (transport : Option ℕ) :
    (ms.setSession r cs).lockTransport transport = ms.lockTransport transport := by
  rw [setSession_eq]
  rfl

/-- The call, and the bytes if there is someone to take them. -/
theorem calls_delivered :
    (delivered p r cs packet pub ms).calls = ms.calls ++ .sendToClient r packet ::
      ((ms.lockTransport cs.session).map fun id =>
        Call.pushDataToSend id (publishBytes packet.header pub)).toList := by
  by_cases hq : 0 < packet.header.qos
  · rw [delivered_of_pos hq, pushIfAlive_eq]
    have ht : (scheduleRetransmission p cs.allocatePacketId.1 .publish r
        ((ms.record (.sendToClient r packet)).setSession r (tracked cs packet pub))).lockTransport
          cs.session = ms.lockTransport cs.session :=
      lockTransport_setSession cs.session
    rw [ht]
    unfold scheduleRetransmission
    rw [setSession_eq]
    simp [record]
  · rw [delivered_of_not_pos hq, pushIfAlive_eq]
    have ht : (ms.record (.sendToClient r packet)).lockTransport cs.session =
        ms.lockTransport cs.session := rfl
    rw [ht]
    simp [record]

/-- With a positive QoS the session has taken over the message. -/
theorem lock_delivered_self (hl : ms.lock r = some cs) (hq : 0 < packet.header.qos) :
    (delivered p r cs packet pub ms).lock r = some (tracked cs packet pub) := by
  rw [delivered_of_pos hq, lock_pushIfAlive, lock_scheduleRetransmission]
  exact lock_setSession_self _ _ _ hl

/-- With a positive QoS a retransmission is scheduled. -/
theorem entries_delivered (hq : 0 < packet.header.qos) :
    (delivered p r cs packet pub ms).retransmitHeap.entries.Perm
      (⟨ms.now + retryIntervalS * 1000, cs.allocatePacketId.1, .publish, r⟩ ::
        ms.retransmitHeap.entries) := by
  rw [delivered_of_pos hq, pushIfAlive_eq]
  unfold scheduleRetransmission
  rw [setSession_eq]
  exact MinHeap.entries_push_perm _ _ _

end Delivered

/-! ### Everything routing can change -/

/-- What routing a PUBLISH can do to a session: store it, with a positive QoS that is not greater
than its own, under an identifier that was free. -/
structure SessionKept (packet : Packet) (pub : Publish) (cs cs' : ClientSession) : Prop where
  connected : cs'.connected = cs.connected
  session : cs'.session = cs.session
  inflightAck : cs'.inflightAck = cs.inflightAck
  stays : ∀ k pkt, cs.inflight.lookup k = some pkt → cs'.inflight.lookup k = some pkt
  stored : ∀ k pkt, cs'.inflight.lookup k = some pkt → cs.inflight.lookup k = some pkt ∨
    k = pub.packetId ∧ ∃ q, 0 < q ∧ q ≤ packet.header.qos ∧ pkt = packet.withQos q

/-- A retransmission entry made at time `now`. -/
structure Scheduled (now : ℤ) (e : RetransmitEntry) : Prop where
  retryMs : e.retryMs = now + retryIntervalS * 1000
  packetType : e.packetType = .publish
  packetId : e.packetId ≠ 0

/-- What routing a PUBLISH can change in the broker. -/
structure Routed (packet : Packet) (pub : Publish) (ms ms' : ManageSessions) : Prop where
  topicTree : ms'.topicTree = ms.topicTree
  sessions : ms'.sessions = ms.sessions
  transports : ms'.transports = ms.transports
  tasks : ms'.tasks = ms.tasks
  now : ms'.now = ms.now
  expiryHeap : ms'.expiryHeap = ms.expiryHeap
  dead : ∀ r, ms.lock r = none → ms'.lock r = none
  alive : ∀ r cs, ms.lock r = some cs → ∃ cs', ms'.lock r = some cs' ∧ SessionKept packet pub cs cs'
  heap : ∃ new, ms'.retransmitHeap.entries.Perm (new ++ ms.retransmitHeap.entries) ∧
    ∀ e ∈ new, Scheduled ms.now e
  top : ∀ t, ms.retransmitHeap.top = some t → t.retryMs ≤ ms.now → ms'.retransmitHeap.top = some t
  calls : ∃ log, ms'.calls = ms.calls ++ log ∧ ∀ c ∈ log, ∀ pkt, c ≠ .routePacket pkt

namespace SessionKept

variable {packet : Packet} {pub : Publish} {cs cs₁ cs₂ : ClientSession}

theorem refl (packet : Packet) (pub : Publish) (cs : ClientSession) :
    SessionKept packet pub cs cs :=
  ⟨rfl, rfl, rfl, fun _ _ h => h, fun _ _ h => .inl h⟩

theorem trans {m : UInt8} (hm : m ≤ packet.header.qos) (h : SessionKept packet pub cs cs₁)
    (h' : SessionKept (packet.withQos m) pub cs₁ cs₂) : SessionKept packet pub cs cs₂ where
  connected := h'.connected.trans h.connected
  session := h'.session.trans h.session
  inflightAck := h'.inflightAck.trans h.inflightAck
  stays k pkt hk := h'.stays k pkt (h.stays k pkt hk)
  stored k pkt hk := by
    rcases h'.stored k pkt hk with hk | ⟨rfl, q, hq, hqm, rfl⟩
    · exact h.stored k pkt hk
    · exact .inr ⟨rfl, q, hq, UInt8.le_trans hqm hm, rfl⟩

theorem tracked (hq : 0 < packet.header.qos) :
    SessionKept packet pub cs (tracked cs packet pub) where
  connected := rfl
  session := rfl
  inflightAck := rfl
  stays k pkt hk := by
    show (cs.inflight.insertNew pub.packetId packet).lookup k = some pkt
    rw [Inflight.lookup_insertNew]
    split_ifs with he
    · rw [← he, hk, Option.getD_some]
    · exact hk
  stored k pkt hk := by
    have hk' : (cs.inflight.insertNew pub.packetId packet).lookup k = some pkt := hk
    rw [Inflight.lookup_insertNew] at hk'
    split_ifs at hk' with he
    · cases hl : cs.inflight.lookup pub.packetId with
      | some old =>
        rw [hl, Option.getD_some] at hk'
        rw [he]
        exact .inl (hl.trans hk')
      | none =>
        rw [hl, Option.getD_none, Option.some.injEq] at hk'
        exact .inr ⟨he, packet.header.qos, hq, UInt8.le_refl _, hk'.symm⟩
    · exact .inl hk'

theorem storeMessage (pkt : Packet) : SessionKept packet pub cs (cs.storeMessage pkt) :=
  ⟨rfl, rfl, rfl, fun _ _ h => h, fun _ _ h => .inl h⟩

end SessionKept

namespace Routed

variable {packet : Packet} {pub : Publish} {ms ms₁ ms₂ : ManageSessions}

theorem refl (packet : Packet) (pub : Publish) (ms : ManageSessions) : Routed packet pub ms ms where
  topicTree := rfl
  sessions := rfl
  transports := rfl
  tasks := rfl
  now := rfl
  expiryHeap := rfl
  dead _ h := h
  alive _ cs h := ⟨cs, h, .refl _ _ _⟩
  heap := ⟨[], .refl _, by simp⟩
  top _ h _ := h
  calls := ⟨[], by simp, by simp⟩

theorem trans {m : UInt8} (hm : m ≤ packet.header.qos) (h : Routed packet pub ms ms₁)
    (h' : Routed (packet.withQos m) pub ms₁ ms₂) : Routed packet pub ms ms₂ where
  topicTree := h'.topicTree.trans h.topicTree
  sessions := h'.sessions.trans h.sessions
  transports := h'.transports.trans h.transports
  tasks := h'.tasks.trans h.tasks
  now := h'.now.trans h.now
  expiryHeap := h'.expiryHeap.trans h.expiryHeap
  dead r hr := h'.dead r (h.dead r hr)
  alive r cs hr := by
    obtain ⟨cs₁, h₁, hk₁⟩ := h.alive r cs hr
    obtain ⟨cs₂, h₂, hk₂⟩ := h'.alive r cs₁ h₁
    exact ⟨cs₂, h₂, hk₁.trans hm hk₂⟩
  heap := by
    obtain ⟨new₁, hp₁, hs₁⟩ := h.heap
    obtain ⟨new₂, hp₂, hs₂⟩ := h'.heap
    refine ⟨new₂ ++ new₁, ?_, ?_⟩
    · rw [List.append_assoc]
      exact hp₂.trans (hp₁.append_left _)
    · intro e he
      rcases List.mem_append.1 he with he | he
      · exact h.now ▸ hs₂ e he
      · exact hs₁ e he
  top t ht hd := h'.top t (h.top t ht hd) (by rw [h.now]; exact hd)
  calls := by
    obtain ⟨log₁, hl₁, hc₁⟩ := h.calls
    obtain ⟨log₂, hl₂, hc₂⟩ := h'.calls
    refine ⟨log₁ ++ log₂, ?_, ?_⟩
    · rw [hl₂, hl₁, List.append_assoc]
    · intro c hc
      rcases List.mem_append.1 hc with hc | hc
      · exact hc₁ c hc
      · exact hc₂ c hc

/-- Putting a kept session in the place of a live one. -/
theorem setSession {r : SessionRef} {cs cs' : ClientSession} (hl : ms.lock r = some cs)
    (hk : SessionKept packet pub cs cs') : Routed packet pub ms (ms.setSession r cs') := by
  have hlock : ∀ r', ({ ms with
      sessionRegistry := (ms.setSession r cs').sessionRegistry } : ManageSessions).lock r' =
        (ms.setSession r cs').lock r' := fun _ => rfl
  rw [setSession_eq]
  refine { refl packet pub ms with dead := fun r' hr' => ?_, alive := fun r' cs₀ hr' => ?_ }
  · rw [hlock]
    by_cases he : r' = r
    · rw [he, hl] at hr'
      cases hr'
    · rw [lock_setSession_ne _ _ _ _ he]
      exact hr'
  · rw [hlock]
    by_cases he : r' = r
    · subst he
      rw [hl] at hr'
      cases hr'
      exact ⟨cs', lock_setSession_self _ _ _ hl, hk⟩
    · rw [lock_setSession_ne _ _ _ _ he]
      exact ⟨cs₀, hr', .refl _ _ _⟩

theorem record {c : Call} (hc : ∀ pkt, c ≠ .routePacket pkt) :
    Routed packet pub ms (ms.record c) :=
  { refl packet pub ms with calls := ⟨[c], rfl, by simpa using hc⟩ }

theorem pushIfAlive (transport : Option ℕ) (data : Bytes) :
    Routed packet pub ms (ms.pushIfAlive transport data) := by
  rw [pushIfAlive_eq]
  refine { refl packet pub ms with calls := ⟨_, rfl, ?_⟩ }
  intro c hc pkt
  rw [Option.mem_toList, Option.map_eq_some_iff] at hc
  obtain ⟨id, -, rfl⟩ := hc
  simp

theorem schedule {packetId : UInt16} (hid : packetId ≠ 0) (r : SessionRef) :
    Routed packet pub ms (scheduleRetransmission p packetId .publish r ms) := by
  refine { refl packet pub ms with heap := ⟨[_], MinHeap.entries_push_perm _ _ _, ?_⟩, top := ?_ }
  · intro e he
    rw [List.mem_singleton] at he
    subst he
    exact ⟨rfl, rfl, hid⟩
  · intro t ht hd
    refine MinHeap.top_push _ ht ?_
    simp only [retryIntervalS]
    omega

end Routed

/-! ### Routing changes no more -/

section Loop

variable {p} {packet : Packet} {pub : Publish} {ms : ManageSessions}

theorem delivered_routed {r : SessionRef} {cs : ClientSession} (hl : ms.lock r = some cs) :
    Routed packet pub ms (delivered p r cs packet pub ms) := by
  have hrec : Routed packet pub ms (ms.record (.sendToClient r packet)) :=
    .record fun pkt => by simp
  have hle : packet.header.qos ≤ packet.header.qos := UInt8.le_refl _
  unfold delivered
  simp only
  split_ifs with hq
  · refine hrec.trans hle (Routed.trans hle (Routed.setSession hl (.tracked hq)) ?_)
    exact Routed.trans hle (Routed.schedule p cs.allocatePacketId_ne_zero r) (.pushIfAlive _ _)
  · exact hrec.trans hle (.pushIfAlive _ _)

/-- A delivery leaves the other sessions alone. -/
theorem lock_delivered_ne {r r' : SessionRef} {cs : ClientSession} (hr : r' ≠ r) :
    (delivered p r cs packet pub ms).lock r' = ms.lock r' := by
  unfold delivered
  simp only [lock_pushIfAlive]
  split_ifs with hq
  · rw [lock_scheduleRetransmission, lock_setSession_ne _ _ _ _ hr, lock_record]
  · rw [lock_record]

theorem routeStep_dead {sub : Subscription} (hl : ms.lock sub.session = none) :
    routeStep p sub (ms, packet) = .ok (ms, packet) := by
  unfold routeStep
  simp only [hl]

theorem routeStep_connected (h : IsPublish packet pub) {sub : Subscription} {cs : ClientSession}
    (hl : ms.lock sub.session = some cs) (hc : cs.connected = true) :
    routeStep p sub (ms, packet) =
      .ok (delivered p sub.session cs (packet.withQos (min packet.header.qos sub.qos)) pub ms,
        packet.withQos (min packet.header.qos sub.qos)) := by
  have hsend := sendToClient_publish p (h.withQos (min packet.header.qos sub.qos)) hl
  unfold routeStep
  simp only [hl, hc, Bool.not_true, Bool.false_eq_true, if_false]
  exact congrArg (fun x : Except Fault ManageSessions => x.bind fun ms =>
    .ok (ms, packet.withQos (min packet.header.qos sub.qos))) hsend

theorem routeStep_offline {sub : Subscription} {cs : ClientSession}
    (hl : ms.lock sub.session = some cs) (hc : cs.connected = false) :
    routeStep p sub (ms, packet) = .ok (queued sub.session cs packet ms, packet) := by
  unfold routeStep queued
  simp only [hl, hc, Bool.not_false, if_true]
  split_ifs <;> rfl

theorem queued_routed {r : SessionRef} {cs : ClientSession} (hl : ms.lock r = some cs) :
    Routed packet pub ms (queued r cs packet ms) := by
  unfold queued
  split_ifs with hq
  · exact (Routed.setSession hl (.storeMessage packet)).trans (UInt8.le_refl _)
      (.record fun pkt => by simp)
  · exact .refl _ _ _

/-- Queueing leaves the other sessions alone. -/
theorem lock_queued_ne {r r' : SessionRef} {cs : ClientSession} (hr : r' ≠ r) :
    (queued r cs packet ms).lock r' = ms.lock r' := by
  unfold queued
  split_ifs
  · rw [lock_record, lock_setSession_ne _ _ _ _ hr]
  · rfl

theorem toNat_min (a b : UInt8) : (min a b).toNat = min a.toNat b.toNat := by
  show (if a ≤ b then a else b).toNat = _
  simp only [apply_ite UInt8.toNat, UInt8.le_iff_toNat_le, min_def]

theorem qos_min_le (a b : UInt8) : min a b ≤ a := by
  rw [UInt8.le_iff_toNat_le, toNat_min]
  exact min_le_left _ _

/-- The loop over a list is a round for its first element, and the loop over the others. -/
theorem routeLoop_cons {sub : Subscription} {subs : List Subscription}
    {x y : ManageSessions × Packet} (h : routeStep p sub x = .ok y) :
    routeLoop p (sub :: subs) x = routeLoop p subs y := by
  show (routeStep p sub x).bind (routeLoop p subs) = _
  rw [h]
  rfl

/-- **Induction over the loop**, by what a round finds: the session is gone, connected or away.
`M subs packet ms ms'` is what the rounds for `subs` do to `ms` when they start with `packet`. -/
theorem routeLoop_rec {M : List Subscription → Packet → ManageSessions → ManageSessions → Prop}
    (nil : ∀ packet ms, M [] packet ms ms)
    (dead : ∀ {sub subs packet ms ms'}, ms.lock sub.session = none → M subs packet ms ms' →
      M (sub :: subs) packet ms ms')
    (connected : ∀ {sub subs packet ms ms' cs}, ms.lock sub.session = some cs →
      cs.connected = true → M subs (packet.withQos (min packet.header.qos sub.qos))
        (delivered p sub.session cs (packet.withQos (min packet.header.qos sub.qos)) pub ms) ms' →
      M (sub :: subs) packet ms ms')
    (offline : ∀ {sub subs packet ms ms' cs}, ms.lock sub.session = some cs →
      cs.connected = false → M subs packet (queued sub.session cs packet ms) ms' →
      M (sub :: subs) packet ms ms')
    (h : IsPublish packet pub) (subs : List Subscription) :
    ∃ ms' m, routeLoop p subs (ms, packet) = .ok (ms', packet.withQos m) ∧ m ≤ packet.header.qos ∧
      M subs packet ms ms' := by
  induction subs generalizing ms packet with
  | nil => exact ⟨ms, _, rfl, UInt8.le_refl _, nil packet ms⟩
  | cons sub subs ih =>
    cases hl : ms.lock sub.session with
    | none =>
      obtain ⟨ms', m, hloop, hm, hM⟩ := @ih packet ms h
      exact ⟨ms', m, (routeLoop_cons (routeStep_dead hl)).trans hloop, hm, dead hl hM⟩
    | some cs =>
      cases hc : cs.connected with
      | true =>
        obtain ⟨ms', m, hloop, hm, hM⟩ := @ih _ (delivered p sub.session cs
          (packet.withQos (min packet.header.qos sub.qos)) pub ms) (h.withQos _)
        exact ⟨ms', m, (routeLoop_cons (routeStep_connected h hl hc)).trans hloop,
          UInt8.le_trans hm (qos_min_le _ _), connected hl hc hM⟩
      | false =>
        obtain ⟨ms', m, hloop, hm, hM⟩ := @ih packet (queued sub.session cs packet ms) h
        exact ⟨ms', m, (routeLoop_cons (routeStep_offline hl hc)).trans hloop, hm,
          offline hl hc hM⟩

/-- **The loop.** -/
theorem routeLoop_routed (h : IsPublish packet pub) (subs : List Subscription) :
    ∃ ms' m, routeLoop p subs (ms, packet) = .ok (ms', packet.withQos m) ∧ m ≤ packet.header.qos ∧
      Routed packet pub ms ms' ∧
      ∀ r, (∀ sub ∈ subs, sub.session ≠ r) → ms'.lock r = ms.lock r := by
  refine @routeLoop_rec p packet pub ms (fun subs packet ms ms' => Routed packet pub ms ms' ∧
      ∀ r, (∀ sub ∈ subs, sub.session ≠ r) → ms'.lock r = ms.lock r)
    ?nil ?dead ?connected ?offline h subs
  case nil => exact fun packet ms => ⟨.refl _ _ _, fun _ _ => rfl⟩
  case dead =>
    intro sub subs packet ms ms' _ ⟨hr, hf⟩
    exact ⟨hr, fun r hs => hf r fun s hs' => hs s (List.mem_cons_of_mem _ hs')⟩
  case connected =>
    intro sub subs packet ms ms' cs hl _ ⟨hr, hf⟩
    have hmin := qos_min_le packet.header.qos sub.qos
    refine ⟨((Routed.refl packet pub ms).trans hmin (delivered_routed hl)).trans hmin hr,
      fun r hs => ?_⟩
    rw [hf r fun s hs' => hs s (List.mem_cons_of_mem _ hs'),
      lock_delivered_ne (hs sub List.mem_cons_self).symm]
  case offline =>
    intro sub subs packet ms ms' cs hl _ ⟨hr, hf⟩
    refine ⟨(queued_routed hl).trans (UInt8.le_refl _) hr, fun r hs => ?_⟩
    rw [hf r fun s hs' => hs s (List.mem_cons_of_mem _ hs'),
      lock_queued_ne (hs sub List.mem_cons_self).symm]

/-- Whether the object of a session is alive, and whether it is connected. -/
def ManageSessions.connectedAt (ms : ManageSessions) (r : SessionRef) : Option Bool :=
  (ms.lock r).map ClientSession.connected

theorem connectedAt_of_lock {r : SessionRef} {cs : ClientSession} (hl : ms.lock r = some cs) :
    ms.connectedAt r = some cs.connected := by
  rw [connectedAt, hl, Option.map_some]

theorem connectedAt_eq_none {r : SessionRef} (hl : ms.lock r = none) :
    ms.connectedAt r = none := by
  rw [connectedAt, hl, Option.map_none]

/-- Routing connects and disconnects nobody. -/
theorem Routed.connectedAt {ms' : ManageSessions} (h : Routed packet pub ms ms') :
    ms'.connectedAt = ms.connectedAt := by
  funext r
  unfold ManageSessions.connectedAt
  cases hl : ms.lock r with
  | none => rw [h.dead r hl]
  | some cs =>
    obtain ⟨cs', hl', hk⟩ := h.alive r cs hl
    rw [hl', Option.map_some, Option.map_some, hk.connected]

/-- The live transport of a session that is alive. -/
def ManageSessions.transportOf (ms : ManageSessions) (r : SessionRef) : Option ℕ :=
  (ms.lock r).bind fun cs => ms.lockTransport cs.session

theorem transportOf_of_lock {r : SessionRef} {cs : ClientSession} (hl : ms.lock r = some cs) :
    ms.transportOf r = ms.lockTransport cs.session := by
  rw [transportOf, hl, Option.bind_some]

/-- Routing leaves the transports alone. -/
theorem Routed.transportOf {ms' : ManageSessions} (h : Routed packet pub ms ms') :
    ms'.transportOf = ms.transportOf := by
  funext r
  unfold ManageSessions.transportOf
  rw [lockTransport_congr h.transports h.sessions h.tasks]
  cases hl : ms.lock r with
  | none => rw [h.dead r hl]
  | some cs =>
    obtain ⟨cs', hl', hk⟩ := h.alive r cs hl
    rw [hl', Option.bind_some, Option.bind_some, hk.session]

/-- The subscriptions `routePacket` goes through, in their order. -/
def routeTargets (p : Platform) (pub : Publish) (ms : ManageSessions) : List Subscription :=
  p.traverse (ms.calls.length + 1) (ms.topicTree.match pub.topic).2

/-- The state in which the loop starts. -/
def routeStart (packet : Packet) (pub : Publish) (ms : ManageSessions) : ManageSessions :=
  { ms.record (.routePacket packet) with topicTree := (ms.topicTree.match pub.topic).1 }

theorem routePacket_eq (h : IsPublish packet pub) (cs : Option SessionRef) :
    routePacket p packet cs ms =
      routeLoop p (routeTargets p pub ms) (routeStart packet pub ms, packet) := by
  unfold routePacket
  simp only [h.type, h.pkt, if_true]
  unfold routeTargets routeStart record
  simp only [List.length_append, List.length_singleton]

/-- **Routing a PUBLISH.** -/
theorem routePacket_routed (h : IsPublish packet pub) (cs : Option SessionRef) :
    ∃ ms' m, routePacket p packet cs ms = .ok (ms', packet.withQos m) ∧
      Routed packet pub (routeStart packet pub ms) ms' ∧
      ∀ r, (∀ sub ∈ routeTargets p pub ms, sub.session ≠ r) → ms'.lock r = ms.lock r := by
  obtain ⟨ms', m, hloop, -, hr, hf⟩ :=
    @routeLoop_routed p packet pub (routeStart packet pub ms) h (routeTargets p pub ms)
  exact ⟨ms', m, by rw [routePacket_eq h, hloop], hr, hf⟩

end Loop

end Culex
