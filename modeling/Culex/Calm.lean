import Culex.ExactlyOnce
import Culex.Retransmission

/-!
# What is left alone between CONNECTs

Every handler but the one of CONNECT, and the loop of `processRetransmissions`, leave the sockets,
the client ids and the registered sessions' bindings as they are.

* `Calm`: everything such a step can do, with the calls it makes;
* `routePacket_calm`, `dispatch_calm`, `retransmitLoop_calm`: these steps do no more.
-/

namespace Culex

open ManageSessions

/-- The session a call delivers a message to. -/
def Call.receiver : Call → Option SessionRef
  | .routePacket _ => none
  | .sendToClient r _ => some r
  | .storeMessage r _ => some r
  | .pushDataToSend .. => none

/-- The message a call queues for a session. -/
def Call.queuedFor (r : SessionRef) : Call → Option Packet
  | .routePacket _ => none
  | .sendToClient .. => none
  | .storeMessage r' packet => if r' = r then some packet else none
  | .pushDataToSend .. => none

/-- What can happen to a session while the calls `log` are made. -/
structure SessionCalm (log : List Call) (r : SessionRef) (cs cs' : ClientSession) : Prop where
  keepAlive : cs'.keepAlive = cs.keepAlive
  cleansession : cs'.cleansession = cs.cleansession
  connected : cs'.connected = cs.connected
  session : cs'.session = cs.session
  messageQueue : cs'.messageQueue = cs.messageQueue ++ log.filterMap (Call.queuedFor r)
  /-- Only PUBRELs come in. -/
  inflightAck : ∀ k packet, cs'.inflightAck.lookup k = some packet →
    cs.inflightAck.lookup k = some packet ∨ packet.header.type = .pubrel

/-- Between `ms` and `ms'` the calls `log` are made, and at most `subscriber` has got
subscriptions. -/
structure Calm (subscriber : Option SessionRef) (log : List Call) (ms ms' : ManageSessions) :
    Prop where
  sessions : ms'.sessions = ms.sessions
  socketOf : ms'.socketOf = ms.socketOf
  nextObj : ms'.nextObj = ms.nextObj
  dead : ∀ r, ms.lock r = none → ms'.lock r = none
  alive : ∀ r cs, ms.lock r = some cs → ∃ cs', ms'.lock r = some cs' ∧ SessionCalm log r cs cs'
  calls : ms'.calls = ms.calls ++ log
  /-- Messages go to subscribers. -/
  receivers : ∀ call ∈ log, ∀ r, call.receiver = some r →
    ¬ ms.topicTree.Unsubscribed r ∨ subscriber = some r
  unsubscribed : ∀ r, ms.topicTree.Unsubscribed r → subscriber ≠ some r →
    ms'.topicTree.Unsubscribed r

namespace SessionCalm

variable {log log' : List Call} {r : SessionRef} {cs cs₁ cs₂ : ClientSession}

theorem refl (r : SessionRef) (cs : ClientSession) : SessionCalm [] r cs cs :=
  ⟨rfl, rfl, rfl, rfl, (List.append_nil _).symm, fun _ _ h => .inl h⟩

theorem trans (h : SessionCalm log r cs cs₁) (h' : SessionCalm log' r cs₁ cs₂) :
    SessionCalm (log ++ log') r cs cs₂ where
  keepAlive := h'.keepAlive.trans h.keepAlive
  cleansession := h'.cleansession.trans h.cleansession
  connected := h'.connected.trans h.connected
  session := h'.session.trans h.session
  messageQueue := by
    rw [h'.messageQueue, h.messageQueue, List.filterMap_append, List.append_assoc]
  inflightAck k packet hk := (h'.inflightAck k packet hk).elim (h.inflightAck k packet) .inr

/-- Calls that queue nothing. -/
theorem of_nil (h : SessionCalm [] r cs cs₁) (hlog : ∀ c ∈ log, c.receiver = none) :
    SessionCalm log r cs cs₁ where
  __ := h
  messageQueue := by
    have hnil : log.filterMap (Call.queuedFor r) = [] := by
      apply List.filterMap_eq_nil_iff.2
      intro c hc
      have hnone := hlog c hc
      cases c with
      | storeMessage => cases hnone
      | _ => rfl
    rw [h.messageQueue, hnil]
    rfl

end SessionCalm

namespace Calm

variable {sub sub' : Option SessionRef} {log log' : List Call} {ms ms₁ ms₂ : ManageSessions}
  {r : SessionRef} {cs cs' : ClientSession}

/-- Calls that deliver nothing, and changes of what `Calm` does not speak of. -/
theorem of_calls (hsessions : ms₁.sessions = ms.sessions)
    (hsocket : ms₁.socketOf = ms.socketOf)
    (hnext : ms₁.nextObj = ms.nextObj) (hreg : ms₁.sessionRegistry = ms.sessionRegistry)
    (htree : ms₁.topicTree = ms.topicTree) (hcalls : ms₁.calls = ms.calls ++ log)
    (hlog : ∀ c ∈ log, c.receiver = none) : Calm sub log ms ms₁ where
  sessions := hsessions
  socketOf := hsocket
  nextObj := hnext
  dead r h := (lock_congr hreg r).trans h
  alive r cs h := ⟨cs, (lock_congr hreg r).trans h, (SessionCalm.refl r cs).of_nil hlog⟩
  calls := hcalls
  receivers c hc r h := by
    rw [hlog c hc] at h
    cases h
  unsubscribed r h _ := htree ▸ h

theorem refl (ms : ManageSessions) : Calm sub [] ms ms :=
  of_calls rfl rfl rfl rfl rfl (List.append_nil _).symm (by simp)

theorem trans (h : Calm sub log ms ms₁) (h' : Calm sub log' ms₁ ms₂) :
    Calm sub (log ++ log') ms ms₂ where
  sessions := h'.sessions.trans h.sessions
  socketOf := h'.socketOf.trans h.socketOf
  nextObj := h'.nextObj.trans h.nextObj
  dead r hr := h'.dead r (h.dead r hr)
  alive r cs hr := by
    obtain ⟨cs₁, hl₁, hk₁⟩ := h.alive r cs hr
    obtain ⟨cs₂, hl₂, hk₂⟩ := h'.alive r cs₁ hl₁
    exact ⟨cs₂, hl₂, hk₁.trans hk₂⟩
  calls := by rw [h'.calls, h.calls, List.append_assoc]
  receivers c hc r hr := by
    rcases List.mem_append.1 hc with hc | hc
    · exact h.receivers c hc r hr
    · rcases h'.receivers c hc r hr with hu | hs
      · by_cases hs : sub = some r
        · exact .inr hs
        · exact .inl fun hu₀ => hu (h.unsubscribed r hu₀ hs)
      · exact .inr hs
  unsubscribed r hu hs := h'.unsubscribed r (h.unsubscribed r hu hs) hs

theorem setSession (hl : ms.lock r = some cs) (h : SessionCalm [] r cs cs') :
    Calm sub [] ms (ms.setSession r cs') := by
  have hlock := fun r' => lock_setSession ms r r' cs'
  rw [setSession_eq] at hlock ⊢
  refine { (refl ms : Calm sub [] ms ms) with
    dead := fun r' hr' => ?_
    alive := fun r' cs₀ hr' => ?_ }
  · rw [hlock]
    split_ifs with he
    · rw [he, hl] at hr'
      cases hr'
    · exact hr'
  · rw [hlock]
    split_ifs with he
    · subst he
      obtain rfl := Option.some.inj (hl.symm.trans hr')
      exact ⟨cs', by rw [hl]; rfl, h⟩
    · exact ⟨cs₀, hr', .refl _ _⟩

theorem updateActivity (clientId : Bytes) : Calm sub [] ms (ms.updateActivity clientId) := by
  cases hl : ms.sessionRegistry.lookup clientId with
  | none =>
    unfold ManageSessions.updateActivity
    rw [hl]
    exact refl ms
  | some entry =>
    have hlock := lock_of_lookup hl
    rw [updateActivity_eq hlock]
    exact setSession hlock { SessionCalm.refl _ entry.state with }

theorem pushDataToSend (t : ℕ) (data : Bytes) :
    Calm sub [.pushDataToSend t data] ms (ms.pushDataToSend t data) :=
  of_calls rfl rfl rfl rfl rfl rfl (by simp [Call.receiver])

/-- A transport keeps its socket and its client. -/
theorem setTransport (id : ℕ) {f : Transport → Transport}
    (hf : ∀ t, (f t).fd = t.fd ∧ (f t).clientId = t.clientId) :
    Calm sub [] ms (setTransport id f ms) := by
  unfold Culex.setTransport
  cases hl : ms.transports.lookup id with
  | none => exact refl ms
  | some t =>
    refine of_calls rfl ?_ rfl rfl rfl (List.append_nil _).symm (by simp)
    funext id'
    simp only [ManageSessions.socketOf]
    by_cases hid : id' = id
    · subst hid
      simp only [AList.lookup_insert, hl, Option.map_some, (hf t).1, (hf t).2]
    · simp only [AList.lookup_insert_ne hid]

end Calm

/-! ### Routing -/

section Routing

variable {p : Platform} {packet : Packet} {pub : Publish} {ms ms₁ : ManageSessions}
  {sub : Option SessionRef}

/-- What every round of the loop keeps, the loop keeps. -/
theorem routeLoop_invariant (h : IsPublish packet pub) {I : ManageSessions → Prop}
    {subs : List Subscription}
    (hconnected : ∀ ms s cs m, s ∈ subs → I ms → ms.lock s.session = some cs →
      I (delivered p s.session cs (packet.withQos m) pub ms))
    (hoffline : ∀ ms s cs m, s ∈ subs → I ms → ms.lock s.session = some cs →
      I (queued s.session cs (packet.withQos m) ms)) (hI : I ms) :
    ∃ ms' m, routeLoop p subs (ms, packet) = .ok (ms', packet.withQos m) ∧ I ms' := by
  -- The rounds start with `packet` under some QoS, and all go to sessions of `subs`.
  suffices hrec : ∃ ms' m, routeLoop p subs (ms, packet) = .ok (ms', packet.withQos m) ∧
      m ≤ packet.header.qos ∧
      (subs ⊆ subs → (∃ m, packet = packet.withQos m) → I ms → I ms') by
    obtain ⟨ms', m, hloop, -, hI'⟩ := hrec
    exact ⟨ms', m, hloop, hI' (List.Subset.refl _) ⟨_, rfl⟩ hI⟩
  refine @routeLoop_rec p packet pub ms (fun subs' packet' ms ms' =>
    subs' ⊆ subs → (∃ m, packet' = packet.withQos m) → I ms → I ms')
    ?nil ?dead ?connected ?offline h subs
  case nil => exact fun _ _ _ _ hI => hI
  case dead =>
    intro s subs' packet' ms ms' _ hrest hs hp hI
    exact hrest (List.subset_of_cons_subset hs) hp hI
  case connected =>
    rintro s subs' _ ms ms' cs hl _ hrest hs ⟨m, rfl⟩ hI
    exact hrest (List.subset_of_cons_subset hs) ⟨_, rfl⟩
      (hconnected ms s cs _ (hs List.mem_cons_self) hI hl)
  case offline =>
    rintro s subs' _ ms ms' cs hl _ hrest hs ⟨m, rfl⟩ hI
    exact hrest (List.subset_of_cons_subset hs) ⟨m, rfl⟩
      (hoffline ms s cs m (hs List.mem_cons_self) hI hl)

/-- A session takes over a message that goes to a subscriber. -/
theorem delivered_calm {r : SessionRef} {cs : ClientSession} (hl : ms.lock r = some cs)
    (hu : ¬ ms.topicTree.Unsubscribed r) :
    ∃ log, Calm sub log ms (delivered p r cs packet pub ms) := by
  have hrec : Calm sub [.sendToClient r packet] ms (ms.record (.sendToClient r packet)) := by
    refine { (Calm.refl ms : Calm sub [] ms ms) with
      alive := fun r' cs' hl' => ?_
      calls := rfl
      receivers := ?_ }
    · exact ⟨cs', hl', { SessionCalm.refl r' cs' with
        messageQueue := (List.append_nil _).symm }⟩
    · intro c hc r' hr'
      obtain rfl := List.mem_singleton.1 hc
      obtain rfl := Option.some.inj hr'
      exact .inl hu
  have hpush : ∀ ms₁ : ManageSessions, ∃ log, Calm sub log ms₁
      (ms₁.pushIfAlive cs.session (publishBytes packet.header pub)) := by
    intro ms₁
    rw [pushIfAlive_eq]
    refine ⟨_, .of_calls rfl rfl rfl rfl rfl rfl ?_⟩
    intro c hc
    rw [Option.mem_toList, Option.map_eq_some_iff] at hc
    obtain ⟨id, -, rfl⟩ := hc
    rfl
  unfold delivered
  simp only
  split_ifs with hq
  · have hset : Calm sub [] (ms.record (.sendToClient r packet))
        ((ms.record (.sendToClient r packet)).setSession r (tracked cs packet pub)) :=
      .setSession hl { SessionCalm.refl r cs with }
    obtain ⟨log, hlog⟩ := hpush (scheduleRetransmission p cs.allocatePacketId.1 .publish r
      ((ms.record (.sendToClient r packet)).setSession r (tracked cs packet pub)))
    have hschedule : ∀ ms₁ : ManageSessions, Calm sub [] ms₁
        (scheduleRetransmission p cs.allocatePacketId.1 .publish r ms₁) := fun ms₁ =>
      .of_calls rfl rfl rfl rfl rfl (List.append_nil _).symm (by simp)
    exact ⟨_, ((hrec.trans hset).trans (hschedule _)).trans hlog⟩
  · obtain ⟨log, hlog⟩ := hpush (ms.record (.sendToClient r packet))
    exact ⟨_, hrec.trans hlog⟩

/-- An offline session queues a message that goes to a subscriber. -/
theorem queued_calm {r : SessionRef} {cs : ClientSession} (hl : ms.lock r = some cs)
    (hu : ¬ ms.topicTree.Unsubscribed r) :
    ∃ log, Calm sub log ms (queued r cs packet ms) := by
  unfold queued
  split_ifs with hq
  · refine ⟨[.storeMessage r packet], ?_⟩
    have hlock := fun r' => lock_setSession ms r r' (cs.storeMessage packet)
    rw [setSession_eq] at hlock ⊢
    refine { (Calm.refl ms : Calm sub [] ms ms) with
      dead := fun r' hr' => ?_
      alive := fun r' cs' hr' => ?_
      calls := rfl
      receivers := fun c hc r' hr' => ?_ }
    · rw [lock_record, hlock]
      split_ifs with he
      · rw [he, hl] at hr'
        cases hr'
      · exact hr'
    · rw [lock_record, hlock]
      split_ifs with he
      · subst he
        obtain rfl := Option.some.inj (hl.symm.trans hr')
        refine ⟨cs.storeMessage packet, by rw [hl]; rfl, { SessionCalm.refl r' cs with
          messageQueue := ?_ }⟩
        simp [ClientSession.storeMessage, Call.queuedFor]
      · refine ⟨cs', hr', { SessionCalm.refl r' cs' with messageQueue := ?_ }⟩
        simp [Call.queuedFor, Ne.symm he]
    · obtain rfl := List.mem_singleton.1 hc
      obtain rfl := Option.some.inj hr'
      exact .inl hu
  · exact ⟨[], .refl ms⟩

/-- **Routing is calm.** -/
theorem routePacket_calm (h : IsPublish packet pub) (cs : Option SessionRef) :
    ∃ ms' packet' log, routePacket p packet cs ms = .ok (ms', packet') ∧ Calm sub log ms ms' := by
  have hstart : Calm sub [.routePacket packet] ms (routeStart packet pub ms) :=
    { (Calm.refl ms : Calm sub [] ms ms) with
      alive := fun r cs hl => ⟨cs, hl, (SessionCalm.refl r cs).of_nil (by simp [Call.receiver])⟩
      calls := rfl
      receivers := by simp [Call.receiver]
      unsubscribed := fun r hu _ => hu.match pub.topic }
  -- the loop goes through subscriptions that stand in the tree
  have htarget : ∀ s ∈ routeTargets p pub ms, ¬ ms.topicTree.Unsubscribed s.session :=
    fun s hs hu => hu.notMem_routeTargets s hs rfl
  have htree : ∀ r, ¬ ms.topicTree.Unsubscribed r →
      ¬ (routeStart packet pub ms).topicTree.Unsubscribed r := by
    intro r hr hu
    refine hr fun path clientId s hs => hu path clientId s ?_
    rw [← hs]
    exact congrArg (AList.lookup clientId) (TopicTree.subsAt_match _ _ _)
  let I (ms' : ManageSessions) : Prop :=
    ms'.topicTree = (routeStart packet pub ms).topicTree ∧ ∃ log, Calm sub log ms ms'
  have hconnected : ∀ ms₁ s cs m, s ∈ routeTargets p pub ms → I ms₁ →
      ms₁.lock s.session = some cs → I (delivered p s.session cs (packet.withQos m) pub ms₁) := by
    rintro ms₁ s cs m hs ⟨ht, log, hlog⟩ hl
    obtain ⟨log', hlog'⟩ := @delivered_calm p (packet.withQos m) pub ms₁ sub _ _ hl
      (ht ▸ htree _ (htarget s hs))
    exact ⟨(delivered_routed hl).topicTree.trans ht, _, hlog.trans hlog'⟩
  have hoffline : ∀ ms₁ s cs m, s ∈ routeTargets p pub ms → I ms₁ →
      ms₁.lock s.session = some cs → I (queued s.session cs (packet.withQos m) ms₁) := by
    rintro ms₁ s cs m hs ⟨ht, log, hlog⟩ hl
    obtain ⟨log', hlog'⟩ := @queued_calm (packet.withQos m) ms₁ sub _ _ hl
      (ht ▸ htree _ (htarget s hs))
    have hr : Routed (packet.withQos m) pub ms₁ (queued s.session cs (packet.withQos m) ms₁) :=
      queued_routed hl
    exact ⟨hr.topicTree.trans ht, _, hlog.trans hlog'⟩
  obtain ⟨ms', m, hloop, -, log, hlog⟩ := @routeLoop_invariant p packet pub
    (routeStart packet pub ms) h I (routeTargets p pub ms) hconnected hoffline ⟨rfl, _, hstart⟩
  exact ⟨ms', _, log, (routePacket_eq h cs).trans hloop, hlog⟩

end Routing

/-! ### The handlers -/

section Handlers

variable {p : Platform} {packet : Packet} {ms ms' : ManageSessions} {t : ℕ} {handled : Handled}
  {sub : Option SessionRef} {r : SessionRef} {cs cs' : ClientSession}

/-- A step that is calm, and a return code with which `parseData` does nothing. -/
structure Settles (sub : Option SessionRef) (ms : ManageSessions) (handled : Handled) : Prop where
  calm : ∃ log, Calm sub log ms handled.state
  returnCode : handled.returnCode = mqttOk ∨ handled.returnCode = -mqttErr

/-- Changing a session and pushing bytes. -/
theorem Calm.setSession_pushDataToSend (hl : ms.lock r = some cs) (h : SessionCalm [] r cs cs')
    (data : Bytes) : ∃ log, Calm sub log ms ((ms.setSession r cs').pushDataToSend t data) :=
  ⟨_, (Calm.setSession hl h).trans (.pushDataToSend t data)⟩

/-- Removing entries from a map, and storing a PUBREL. -/
theorem SessionCalm.of_inflightAck {inflightAck : Inflight}
    (h : ∀ k pkt, inflightAck.lookup k = some pkt →
      cs.inflightAck.lookup k = some pkt ∨ pkt.header.type = .pubrel) (lastActivity : ℤ) :
    SessionCalm [] r cs { cs with lastActivity, inflightAck } where
  __ := SessionCalm.refl r cs
  inflightAck := h

theorem pubackHandler_settles (h : pubackHandler packet t ms = .ok handled) :
    Settles sub ms handled := by
  rcases (pubackHandler_ends packet t ms).ok h with ⟨r, cs, hserves, ack, -, rfl⟩ | ⟨-, rfl⟩
  · exact ⟨⟨[], .setSession hserves.lock { SessionCalm.refl r cs with }⟩, .inl rfl⟩
  · exact ⟨⟨[], .refl ms⟩, .inr rfl⟩

theorem pubrecHandler_settles (h : pubrecHandler packet t ms = .ok handled) :
    Settles sub ms handled := by
  rcases (pubrecHandler_ends packet t ms).ok h with ⟨r, cs, hserves, ack, -, rfl⟩ | ⟨-, rfl⟩
  · refine ⟨Calm.setSession_pushDataToSend hserves.lock (SessionCalm.of_inflightAck ?_ _) _,
      .inl rfl⟩
    intro k pkt hk
    rw [Inflight.lookup_insertNew] at hk
    split_ifs at hk with he
    · -- what is stored is a PUBREL, unless something was there
      cases hold : cs.inflightAck.lookup ack.packetId with
      | none =>
        rw [hold, Option.getD_none] at hk
        obtain rfl := Option.some.inj hk
        exact .inr rfl
      | some old =>
        rw [hold, Option.getD_some] at hk
        exact .inl (he ▸ hold.trans hk)
    · exact .inl hk
  · exact ⟨⟨[], .refl ms⟩, .inr rfl⟩

theorem pubcompHandler_settles (h : pubcompHandler packet t ms = .ok handled) :
    Settles sub ms handled := by
  rcases (pubcompHandler_ends packet t ms).ok h with ⟨r, cs, hserves, ack, -, rfl⟩ | ⟨-, rfl⟩
  · refine ⟨⟨[], .setSession hserves.lock (SessionCalm.of_inflightAck ?_ _)⟩, .inl rfl⟩
    intro k pkt hk
    by_cases he : k = ack.packetId
    · rw [he, AList.lookup_erase] at hk
      cases hk
    · rw [AList.lookup_erase_ne he] at hk
      exact .inl hk
  · exact ⟨⟨[], .refl ms⟩, .inr rfl⟩

theorem pubrelHandler_settles (hs : Sound ms) (h : pubrelHandler p packet t ms = .ok handled) :
    Settles sub ms handled := by
  rcases (pubrelHandler_ends packet hs.routes).ok h with ⟨r, cs, hserves, ack, -, hcases⟩ | ⟨-, rfl⟩
  · have hrel : Calm sub [] ms (released r cs ack.packetId ms) :=
      .setSession hserves.lock { SessionCalm.refl r cs with }
    rcases hcases with ⟨hf, ms₁, packet', hroute, rfl⟩ | rfl
    · obtain ⟨pub, hpub, -⟩ := ((hs.inflight r cs hserves.lock).stored_of_type hf).publish
      obtain ⟨ms₂, packet₂, log, hroute₂, hcalm⟩ := @routePacket_calm p _ pub
        (released r cs ack.packetId ms) sub hpub none
      obtain ⟨rfl, -⟩ := Prod.mk.inj (Except.ok.inj (hroute.symm.trans hroute₂))
      exact ⟨⟨_, (hrel.trans hcalm).trans (.pushDataToSend t _)⟩, .inl rfl⟩
    · exact ⟨⟨_, hrel.trans (.pushDataToSend t _)⟩, .inr rfl⟩
  · exact ⟨⟨[], .refl ms⟩, .inr rfl⟩

theorem publishHandler_settles (ht : packet.header.type = .publish)
    (h : publishHandler p packet t ms = .ok handled) : Settles sub ms handled := by
  rcases publishHandler_ok ht h with ⟨pub, ms₁, packet', hp, -, hroute, hcode, hstate⟩ |
    ⟨r, cs, pub, -, -, hserves, hcode, hstate⟩ | ⟨-, rfl⟩
  · have hactive : Calm sub [] ms (ms.updateActivity (ms.getClientId t)) := .updateActivity _
    obtain ⟨ms₂, packet₂, log, hroute₂, hcalm⟩ := @routePacket_calm p packet pub
      (ms.updateActivity (ms.getClientId t)) sub ⟨ht, hp⟩ none
    obtain ⟨rfl, -⟩ := Prod.mk.inj (Except.ok.inj (hroute.symm.trans hroute₂))
    refine ⟨?_, .inl hcode⟩
    rcases hstate with hstate | ⟨data, hstate⟩ <;> rw [hstate]
    · exact ⟨_, hactive.trans hcalm⟩
    · exact ⟨_, (hactive.trans hcalm).trans (.pushDataToSend t _)⟩
  · refine ⟨?_, .inl hcode⟩
    rw [hstate]
    refine Calm.setSession_pushDataToSend hserves.lock ?_ _
    exact { SessionCalm.refl r cs with }
  · exact ⟨⟨[], .refl ms⟩, .inr rfl⟩

/-- Nobody but the subscriber gets a subscription. -/
theorem TopicTree.Unsubscribed.subscribe {tree : TopicTree} (h : tree.Unsubscribed r)
    (topic : Bytes) {r' : SessionRef} (hr : r' ≠ r) (qos : UInt8) :
    (tree.subscribe topic r' qos).Unsubscribed r := by
  intro path clientId s hs
  rw [TopicTree.subsAt_subscribe] at hs
  split_ifs at hs
  · by_cases hc : clientId = r'.clientId
    · rw [hc, AList.lookup_insert] at hs
      obtain rfl := Option.some.inj hs
      exact hr
    · rw [AList.lookup_insert_ne hc] at hs
      exact h path clientId s hs
  · exact h path clientId s hs

theorem createSubscription_calm (topic : Bytes) (qos : UInt8) (clientId : Bytes)
    (hsub : ms.sessionPresent clientId = sub) :
    Calm sub [] ms (ms.createSubscription topic qos clientId) := by
  unfold createSubscription
  rw [hsub]
  cases sub with
  | none => exact .refl ms
  | some r =>
    exact { (Calm.refl ms : Calm (some r) [] ms ms) with
      unsubscribed := fun r' hu hr => hu.subscribe topic (fun he => hr (congrArg some he)) qos }

theorem sessionPresent_congr (h : ms'.sessionRegistry = ms.sessionRegistry) (clientId : Bytes) :
    ms'.sessionPresent clientId = ms.sessionPresent clientId := by
  unfold sessionPresent
  rw [h]

theorem sessionPresent_updateActivity (clientId clientId' : Bytes) :
    (ms.updateActivity clientId').sessionPresent clientId = ms.sessionPresent clientId := by
  unfold updateActivity
  cases hl : ms.sessionRegistry.lookup clientId' with
  | none => rfl
  | some entry =>
    unfold sessionPresent
    simp only
    by_cases hc : clientId = clientId'
    · subst hc
      rw [AList.lookup_insert, hl]
      rfl
    · rw [AList.lookup_insert_ne hc]

theorem getClientId_updateActivity (clientId : Bytes) :
    (ms.updateActivity clientId).getClientId t = ms.getClientId t := by
  unfold updateActivity
  cases ms.sessionRegistry.lookup clientId <;> rfl

theorem subscribeHandler_settles (h : subscribeHandler p packet t ms = .ok handled) :
    Settles (ms.sessionPresent (ms.getClientId t)) ms handled := by
  unfold subscribeHandler at h
  split at h
  · next subscribe _ =>
    obtain rfl := Except.ok.inj h
    let I (ms' : ManageSessions) : Prop :=
      ms'.getClientId t = ms.getClientId t ∧
        ms'.sessionPresent (ms.getClientId t) = ms.sessionPresent (ms.getClientId t) ∧
          Calm (ms.sessionPresent (ms.getClientId t)) [] ms ms'
    have hstart : I (ms.updateActivity (ms.getClientId t)) :=
      ⟨getClientId_updateActivity _, sessionPresent_updateActivity _ _, .updateActivity _⟩
    have hstep : ∀ ms' (tuple : Tuple), I ms' → I (if tuple.qos < 3 then
        ms'.createSubscription tuple.topic tuple.qos (ms'.getClientId t) else ms') := by
      rintro ms' tuple ⟨hid, hpresent, hcalm⟩
      split_ifs
      · rw [hid]
        have hreg : (ms'.createSubscription tuple.topic tuple.qos
            (ms.getClientId t)).sessionRegistry = ms'.sessionRegistry := by
          unfold createSubscription
          split <;> rfl
        have htrans : (ms'.createSubscription tuple.topic tuple.qos
            (ms.getClientId t)).getClientId t = ms'.getClientId t := by
          unfold createSubscription
          split <;> rfl
        exact ⟨htrans.trans hid, (sessionPresent_congr hreg _).trans hpresent,
          hcalm.trans (createSubscription_calm _ _ _ hpresent)⟩
      · exact ⟨hid, hpresent, hcalm⟩
    have hloop : ∀ (l : List Tuple) ms', I ms' → I (l.foldl (fun ms' tuple =>
        if tuple.qos < 3 then ms'.createSubscription tuple.topic tuple.qos (ms'.getClientId t)
        else ms') ms') := by
      intro l
      induction l with
      | nil => exact fun _ h => h
      | cons tuple l ih => exact fun ms' h => ih _ (hstep ms' tuple h)
    exact ⟨⟨_, (hloop _ _ hstart).2.2.trans (.pushDataToSend t _)⟩, .inl rfl⟩
  · obtain rfl := Except.ok.inj h
    exact ⟨⟨[], .refl ms⟩, .inr rfl⟩

/-- The session that a packet may give subscriptions. -/
def subscriberOf (pkt : Packet) (id : ℕ) (ms : ManageSessions) : Option SessionRef :=
  if pkt.header.type = .subscribe then ms.sessionPresent (ms.getClientId id) else none

/-- **Every handler but the one of CONNECT is calm.** -/
theorem dispatch_settles (hs : Sound ms) (ht : packet.header.type ≠ .connect)
    (h : dispatch p packet t ms = .ok handled) :
    Settles (subscriberOf packet t ms) ms handled := by
  unfold dispatch handlers at h
  unfold subscriberOf
  cases hty : packet.header.type <;> rw [hty] at h <;> simp only [PacketType.code] at h
  case connect => exact absurd hty ht
  case publish => exact publishHandler_settles hty h
  case puback => exact pubackHandler_settles h
  case pubrec => exact pubrecHandler_settles h
  case pubrel => exact pubrelHandler_settles hs h
  case pubcomp => exact pubcompHandler_settles h
  case subscribe => exact subscribeHandler_settles h
  case unsubscribe =>
    have h : unsubscribeHandler packet t ms = .ok handled := h
    unfold unsubscribeHandler at h
    split at h
    · cases h
    · obtain rfl := Except.ok.inj h
      exact ⟨⟨[], .refl ms⟩, .inr rfl⟩
  case pingreq =>
    have h : pingreqHandler packet t ms = .ok handled := h
    obtain rfl := Except.ok.inj h
    exact ⟨⟨_, Calm.trans (.updateActivity (ms.getClientId t)) (.pushDataToSend t _)⟩, .inr rfl⟩
  case reserved15 => cases h
  all_goals
    obtain rfl := Except.ok.inj h
    exact ⟨⟨[], .refl ms⟩, .inl rfl⟩

/-! ### Retransmission -/

theorem Resends.calm (hs : Sound ms) {e : RetransmitEntry} (h : Resends p ms e ms') :
    ∃ log, Calm sub log ms ms' := by
  obtain ⟨cs, packet, pub, ms₁, hr, rfl⟩ := h.spec hs
  obtain ⟨packet', hroute⟩ := hr.route
  obtain ⟨ms₂, packet'', log, hroute', hcalm⟩ := @routePacket_calm p _ pub ms sub
    hr.isPublish.withDup none
  obtain ⟨rfl, -⟩ := Prod.mk.inj (Except.ok.inj (hroute.symm.trans hroute'))
  exact ⟨log, { hcalm with }⟩

/-- **The loop of `processRetransmissions` is calm.** -/
theorem retransmitLoop_calm {rounds : ℕ} (hs : Sound ms)
    (h : retransmitLoop p rounds ms = .ok ms') : ∃ log, Calm sub log ms ms' := by
  refine retransmitLoop_rel (R := fun a b => ∃ log, Calm sub log a b) (fun a => ⟨[], .refl a⟩) ?_
    (fun _ _ _ hs hres => hres.calm hs) hs h
  rintro a b c ⟨log₁, hcalm₁⟩ ⟨log₂, hcalm₂⟩
  exact ⟨_, hcalm₁.trans hcalm₂⟩

end Handlers

end Culex
