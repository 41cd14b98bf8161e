import Culex.Fencing
import Culex.Stepping
import Culex.Sweep

/-!
# What other clients can do to a session

All clients share the registry, the topic tree and the two heaps, and a handler reaches any session
through them.  But all that the packets of one client do to the session of another is to deliver
messages that it has subscribed to.

* `ClientSession.receives`: what a delivery makes of a session;
* `Concerns`: what is not the doing of others, the client's own packets, a CONNECT in its name, and a
  sweep that finds it late;
* `isolated_of_run`: over any run without these, the session stays what the deliveries make of it.
-/

namespace Culex

open ManageSessions

/-- The session after a packet has been sent to its client. -/
def ClientSession.sent (cs : ClientSession) (packet : Packet) : ClientSession :=
  match packet.pkt with
  | .publish pub => if 0 < packet.header.qos then tracked cs packet pub else cs
  | _ => cs

/-- The session after a call that delivers messages. -/
def ClientSession.receives (r : SessionRef) (cs : ClientSession) : Call → ClientSession
  | .sendToClient r' packet => if r' = r then cs.sent packet else cs
  | .storeMessage r' packet => if r' = r then cs.storeMessage packet else cs
  | .routePacket _ => cs
  | .pushDataToSend .. => cs

/-- What arrives is of the client, or a CONNECT in its name. -/
def Arrival.Concerns (clientId : Bytes) (ms : ManageSessions) : Arrival → Prop
  | .nothing => False
  | .malformed id => ms.getClientId id = clientId
  | .packet id pkt =>
    if pkt.header.type = .connect then ∃ cn, pkt.pkt = .connect cn ∧ cn.clientId = clientId
    else ms.getClientId id = clientId

/-- A connected session is past its time, and has an entry that is due. -/
def Late (ms : ManageSessions) (r : SessionRef) : Prop :=
  (∃ cs, ms.lock r = some cs ∧ cs.connected = true ∧ expiryOf cs ≤ ms.now) ∧
    ∃ entry ∈ ms.expiryHeap.entries, entry.session = r ∧ entry.expiryMs ≤ ms.now

/-- The event is of the client of a session, or a sweep when the session is late. -/
def Concerns (p : Platform) (r : SessionRef) (ms : ManageSessions) (e : Event) : Prop :=
  (e.arrival p ms).Concerns r.clientId ms ∨ e = .processExpiredSessions ∧ Late ms r

instance (clientId : Bytes) (ms : ManageSessions) (arrival : Arrival) :
    Decidable (arrival.Concerns clientId ms) :=
  decidable_of_iff ((match arrival with
    | .nothing => false
    | .malformed id => decide (ms.getClientId id = clientId)
    | .packet id pkt =>
      if pkt.header.type = .connect then
        match pkt.pkt with
        | .connect cn => decide (cn.clientId = clientId)
        | _ => false
      else decide (ms.getClientId id = clientId)) = true) (by
    cases arrival with
    | nothing => simp [Arrival.Concerns]
    | malformed id => simp [Arrival.Concerns]
    | packet id pkt =>
      simp only [Arrival.Concerns]
      split_ifs with ht
      · cases pkt.pkt <;> simp
      · simp)

instance (ms : ManageSessions) (r : SessionRef) : Decidable (Late ms r) :=
  decidable_of_iff (((ms.lock r).any fun cs => cs.connected && decide (expiryOf cs ≤ ms.now)) ∧
    ∃ entry ∈ ms.expiryHeap.entries, entry.session = r ∧ entry.expiryMs ≤ ms.now) (by
    unfold Late
    simp [Option.any_eq_true])

instance (e : Event) : Decidable (e = .processExpiredSessions) :=
  decidable_of_iff ((match e with
    | .processExpiredSessions => true
    | _ => false) = true) (by cases e <;> simp)

instance (p : Platform) (r : SessionRef) (ms : ManageSessions) (e : Event) :
    Decidable (Concerns p r ms e) :=
  inferInstanceAs (Decidable (_ ∨ _))

/-- Between the states the calls `log` are made, and the session changes by them alone, but for the
time it is to expire; the client's subscriptions stay as they are. -/
structure Isolated (r : SessionRef) (log : List Call) (ms ms' : ManageSessions) : Prop where
  calls : ms'.calls = ms.calls ++ log
  session : ∀ cs, ms.lock r = some cs → ∃ expiryMs,
    ms'.lock r = some { log.foldl (ClientSession.receives r) cs with expiryMs }
  subscriptions : ∀ path, (ms'.topicTree.root.subsAt path).lookup r.clientId =
    (ms.topicTree.root.subsAt path).lookup r.clientId

variable {p : Platform} {r r' : SessionRef} {ms ms' ms₁ : ManageSessions}
  {cs cs' : ClientSession} {packet : Packet} {pub : Publish} {handled : Handled} {t id : ℕ}
  {e : Event} {events : List Event} {cn : Connect} {log log' : List Call}

/-! ### Deliveries -/

namespace ClientSession

theorem sent_expiryMs (cs : ClientSession) (expiryMs : ℤ) (packet : Packet) :
    ({ cs with expiryMs } : ClientSession).sent packet = { cs.sent packet with expiryMs } := by
  unfold sent
  cases packet.pkt with
  | publish pub => split_ifs <;> rfl
  | _ => rfl

theorem receives_expiryMs (cs : ClientSession) (expiryMs : ℤ) (c : Call) :
    ({ cs with expiryMs } : ClientSession).receives r c = { cs.receives r c with expiryMs } := by
  cases c with
  | sendToClient r' packet =>
    simp only [receives, sent_expiryMs]
    split_ifs <;> rfl
  | storeMessage r' packet =>
    simp only [receives]
    split_ifs <;> rfl
  | routePacket _ => rfl
  | pushDataToSend _ _ => rfl

theorem foldl_receives_expiryMs (cs : ClientSession) (expiryMs : ℤ) (log : List Call) :
    log.foldl (receives r) { cs with expiryMs } = { log.foldl (receives r) cs with expiryMs } := by
  induction log generalizing cs with
  | nil => rfl
  | cons c log ih => rw [List.foldl_cons, List.foldl_cons, receives_expiryMs, ih]

/-- A call to another session. -/
theorem receives_of_ne {c : Call} (h : c.receiver ≠ some r) (cs : ClientSession) :
    cs.receives r c = cs := by
  cases c with
  | sendToClient r' packet => exact if_neg fun he => h (congrArg some he)
  | storeMessage r' packet => exact if_neg fun he => h (congrArg some he)
  | routePacket _ => rfl
  | pushDataToSend _ _ => rfl

theorem foldl_receives_of_ne (h : ∀ c ∈ log, c.receiver ≠ some r) (cs : ClientSession) :
    log.foldl (receives r) cs = cs := by
  induction log with
  | nil => rfl
  | cons c log ih =>
    rw [List.foldl_cons, receives_of_ne (h c List.mem_cons_self)]
    exact ih fun c' hc' => h c' (List.mem_cons_of_mem _ hc')

end ClientSession

namespace Isolated

/-! ### Steps -/

theorem of_eq (hreg : ms'.sessionRegistry = ms.sessionRegistry) (hcalls : ms'.calls = ms.calls)
    (htree : ms'.topicTree = ms.topicTree) : Isolated r [] ms ms' where
  calls := by rw [hcalls, List.append_nil]
  session cs hl := ⟨cs.expiryMs, (lock_congr hreg r).trans hl⟩
  subscriptions path := by rw [htree]

theorem refl (ms : ManageSessions) : Isolated r [] ms ms := of_eq rfl rfl rfl

theorem trans (h : Isolated r log ms ms₁) (h' : Isolated r log' ms₁ ms') :
    Isolated r (log ++ log') ms ms' where
  calls := by rw [h'.calls, h.calls, List.append_assoc]
  session cs hl := by
    obtain ⟨expiryMs₁, hl₁⟩ := h.session cs hl
    obtain ⟨expiryMs, hl'⟩ := h'.session _ hl₁
    rw [ClientSession.foldl_receives_expiryMs] at hl'
    refine ⟨expiryMs, ?_⟩
    rw [List.foldl_append]
    exact hl'
  subscriptions path := (h'.subscriptions path).trans (h.subscriptions path)

/-- A call that is none to the session. -/
theorem record {c : Call} (h : c.receiver ≠ some r) : Isolated r [c] ms (ms.record c) where
  calls := rfl
  session cs hl := by
    refine ⟨cs.expiryMs, ?_⟩
    rw [List.foldl_cons, List.foldl_nil, ClientSession.receives_of_ne h]
    exact hl
  subscriptions _ := rfl

/-- Another session is changed. -/
theorem setSession (hne : r' ≠ r) : Isolated r [] ms (ms.setSession r' cs') := by
  have htree : (ms.setSession r' cs').topicTree = ms.topicTree := by rw [setSession_eq]
  constructor
  · rw [setSession_eq, List.append_nil]
  · intro cs hl
    exact ⟨cs.expiryMs, (lock_setSession_ne _ _ _ _ hne.symm).trans hl⟩
  · intro path
    rw [htree]

/-- A call to some session, which changes as it does by the call. -/
theorem call {c : Call} (hl : ms.lock r' = some cs) (hc : c.receiver = some r')
    (hcalls : ms'.calls = ms.calls ++ [c]) (htree : ms'.topicTree = ms.topicTree)
    (hself : ms'.lock r' = some (cs.receives r' c))
    (hothers : ∀ r, r ≠ r' → ms'.lock r = ms.lock r) : Isolated r [c] ms ms' := by
  refine ⟨hcalls, fun cs₁ hl₁ => ?_, fun path => by rw [htree]⟩
  by_cases he : r = r'
  · subst he
    obtain rfl := Option.some.inj (hl.symm.trans hl₁)
    exact ⟨(cs.receives r c).expiryMs, hself⟩
  · refine ⟨cs₁.expiryMs, ?_⟩
    have hne : c.receiver ≠ some r := by
      rw [hc]
      exact fun h => he (Option.some.inj h).symm
    rw [List.foldl_cons, List.foldl_nil, ClientSession.receives_of_ne hne]
    exact (hothers r he).trans hl₁

theorem pushDataToSend (t : ℕ) (data : Bytes) :
    Isolated r [.pushDataToSend t data] ms (ms.pushDataToSend t data) :=
  record (by simp [Call.receiver])

end Isolated

/-- The steps that leave a session alone, but for deliveries. -/
def Aside (r : SessionRef) (ms ms' : ManageSessions) : Prop := ∃ log, Isolated r log ms ms'

namespace Aside

theorem refl (ms : ManageSessions) : Aside r ms ms := ⟨[], .refl ms⟩

theorem trans (h : Aside r ms ms₁) (h' : Aside r ms₁ ms') : Aside r ms ms' := by
  obtain ⟨log, hlog⟩ := h
  obtain ⟨log', hlog'⟩ := h'
  exact ⟨log ++ log', hlog.trans hlog'⟩

theorem of_eq (hreg : ms'.sessionRegistry = ms.sessionRegistry) (hcalls : ms'.calls = ms.calls)
    (htree : ms'.topicTree = ms.topicTree) : Aside r ms ms' := ⟨[], .of_eq hreg hcalls htree⟩

theorem pushDataToSend (t : ℕ) (data : Bytes) : Aside r ms (ms.pushDataToSend t data) :=
  ⟨_, .pushDataToSend t data⟩

theorem pushIfAlive (transport : Option ℕ) (data : Bytes) :
    Aside r ms (ms.pushIfAlive transport data) := by
  unfold ManageSessions.pushIfAlive
  split
  · exact pushDataToSend _ data
  · exact refl ms

/-! ### Routing -/

theorem delivered (h : IsPublish packet pub) (hl : ms.lock r' = some cs) :
    Aside r ms (delivered p r' cs packet pub ms) := by
  by_cases hq : 0 < packet.header.qos
  · have hsent : tracked cs packet pub = cs.receives r' (.sendToClient r' packet) := by
      simp [ClientSession.receives, ClientSession.sent, h.pkt, hq]
    have hcall : Aside r ms
        ((ms.record (.sendToClient r' packet)).setSession r' (tracked cs packet pub)) := by
      refine ⟨[.sendToClient r' packet], .call hl rfl ?_ ?_ ?_ fun r hr => ?_⟩
      · rw [setSession_eq]
        rfl
      · rw [setSession_eq]
        rfl
      · rw [← hsent]
        exact lock_setSession_self _ _ _ hl
      · exact lock_setSession_ne _ _ _ _ hr
    rw [delivered_of_pos hq]
    have hschedule : Aside r _ (scheduleRetransmission p cs.allocatePacketId.1 .publish r'
        ((ms.record (.sendToClient r' packet)).setSession r' (tracked cs packet pub))) :=
      hcall.trans (of_eq rfl rfl rfl)
    exact hschedule.trans (pushIfAlive _ _)
  · have hsame : cs = cs.receives r' (.sendToClient r' packet) := by
      simp [ClientSession.receives, ClientSession.sent, h.pkt, hq]
    have hcall : Aside r ms (ms.record (.sendToClient r' packet)) :=
      ⟨_, .call hl rfl rfl rfl (hl.trans (congrArg some hsame)) fun _ _ => rfl⟩
    rw [delivered_of_not_pos hq]
    exact hcall.trans (pushIfAlive _ _)

theorem queued (hl : ms.lock r' = some cs) : Aside r ms (queued r' cs packet ms) := by
  unfold Culex.queued
  split_ifs
  · have hstored : cs.storeMessage packet = cs.receives r' (.storeMessage r' packet) := by
      simp [ClientSession.receives]
    refine ⟨[.storeMessage r' packet], .call hl rfl ?_ ?_ ?_ fun r hr => ?_⟩
    · show (ms.setSession r' _).calls ++ _ = _
      rw [setSession_eq]
    · show (ms.setSession r' _).topicTree = _
      rw [setSession_eq]
    · rw [← hstored]
      exact lock_setSession_self _ _ _ hl
    · exact lock_setSession_ne _ _ _ _ hr
  · exact refl ms

theorem routePacket (h : IsPublish packet pub) {session : Option SessionRef} {packet' : Packet}
    (hroute : routePacket p packet session ms = .ok (ms', packet')) : Aside r ms ms' := by
  have hloop := @routeLoop_rec p packet pub (routeStart packet pub ms)
    (fun _ packet ms ms' => IsPublish packet pub → Aside r ms ms')
    ?nil ?dead ?connected ?offline h (routeTargets p pub ms)
  case nil => exact fun _ ms _ => refl ms
  case dead => exact fun _ hrest => hrest
  case connected =>
    intro sub subs packet ms ms' cs hl _ hrest hp
    have hmin := hp.withQos (min packet.header.qos sub.qos)
    exact (delivered hmin hl).trans (hrest hmin)
  case offline => exact fun hl _ hrest hp => (queued hl).trans (hrest hp)
  obtain ⟨ms₁, m, hloop, -, hrest⟩ := hloop
  rw [routePacket_eq h, hloop] at hroute
  obtain ⟨rfl, -⟩ := Prod.mk.inj (Except.ok.inj hroute)
  have hrecord : Aside r ms (ms.record (.routePacket packet)) :=
    ⟨_, .record (by simp [Call.receiver])⟩
  have htree : Aside r (ms.record (.routePacket packet)) (routeStart packet pub ms) := by
    refine ⟨[], ⟨(List.append_nil _).symm, fun cs hl => ⟨cs.expiryMs, hl⟩, fun path => ?_⟩⟩
    exact congrArg (AList.lookup r.clientId) (TopicTree.subsAt_match _ _ _)
  exact (hrecord.trans htree).trans (hrest h)

/-! ### Handlers -/

theorem handles {clientId : Bytes} (hne : clientId ≠ r.clientId) :
    Handles p packet id clientId (Aside r) where
  refl := refl
  trans := trans
  push _ := pushDataToSend id
  set _ hc _ := ⟨[], .setSession fun he => hne (hc.trans (congrArg _ he))⟩
  route h := routePacket h

/-- A packet of another client that is no CONNECT. -/
theorem dispatch (hne : ms.getClientId id ≠ r.clientId) (ht : packet.header.type ≠ .connect)
    (h : dispatch p packet id ms = .ok handled) : Aside r ms handled.state := by
  refine dispatch_rel (handles hne) ht (fun sub _ hp => ?_) h
  -- the subscriptions are of the other client
  have hfenced := subscribeHandler_fenced hne (@subscribeHandler_eq p packet ms id sub hp)
  have hactive : Fenced r.clientId ms (ms.updateActivity (ms.getClientId id)) :=
    .updateActivity hne
  refine ⟨[], (List.append_nil _).symm, fun cs hl => ⟨cs.expiryMs, hl⟩, fun path => ?_⟩
  exact (hfenced.subscriptions path).trans (hactive.subscriptions path).symm

/-- A CONNECT in another client's name. -/
theorem connects (h : Connects cn id ms ms') (hne : cn.clientId ≠ r.clientId) :
    Aside r ms ms' := by
  obtain ⟨log, hcalls, hlog⟩ := h.calls
  refine ⟨log, hcalls, fun cs hl => ⟨cs.expiryMs, ?_⟩, fun path => by rw [h.topicTree]⟩
  have hnone : ∀ c ∈ log, c.receiver ≠ some r := by
    intro c hc
    obtain ⟨id, data, rfl⟩ := hlog c hc
    simp [Call.receiver]
  rw [ClientSession.foldl_receives_of_ne hnone]
  exact (lock_of_connects h hne.symm).trans hl

/-! ### Events -/

/-- The sweep does not find the session late. -/
theorem expires {popped : List ExpiryEntry} {heap : MinHeap ExpiryEntry.expiryMs}
    (h : Expires p ms popped heap ms')
    (hlate : ¬ Late ms r) : Aside r ms ms' := by
  have hnot : r ∉ (sweepOf ms popped).toDisconnect := by
    intro hr
    obtain ⟨hmem, hlapsed⟩ := List.mem_filter.1 hr
    obtain ⟨entry, hentry, hsession⟩ := List.mem_map.1 hmem
    refine hlate ⟨lapsed_eq_true_iff.1 hlapsed, entry, ?_, hsession, ?_⟩
    · exact h.collects.perm.mem_iff.2 (List.mem_append_left _ hentry)
    · exact (h.collects.due entry hentry).1
  refine ⟨[], ?_, fun cs hl => ?_, fun path => by rw [h.sweeps.eq]⟩
  · rw [h.sweeps.eq, List.append_nil]
  · have hlock := h.lock_not_toDisconnect hnot
    rw [hl] at hlock
    split_ifs at hlock
    · exact ⟨cs.expiring.expiryMs, hlock.trans (congrArg some (expiring_eq cs))⟩
    · exact ⟨cs.expiryMs, hlock⟩

/-- A session of another client is purged. -/
theorem purges {clientId : Bytes} (hne : clientId ≠ r.clientId) (entry : Registered) (id : ℕ) :
    Aside r ms ((purge clientId entry ms).forceDisconnect id) := by
  have hpurge : Fenced r.clientId ms (purge clientId entry ms) := by
    unfold purge
    split_ifs
    · exact .removeFromRegistry hne
    · exact .refl _ ms
  have hfenced := hpurge.trans (.forceDisconnect id)
  have hsweeps := (@purge_sweeps ms clientId entry).trans (.forceDisconnect id)
  refine ⟨[], ?_, fun cs hl => ⟨cs.expiryMs, ?_⟩, hfenced.subscriptions⟩
  · rw [hsweeps.eq, List.append_nil]
  · exact lock_eq_some_iff.2 (hfenced.session _ (lock_eq_some_iff.1 hl))

theorem resends (hs : Sound ms) {entry : RetransmitEntry} (h : Resends p ms entry ms') :
    Aside r ms ms' := by
  obtain ⟨cs, packet, pub, ms₁, hr, rfl⟩ := h.spec hs
  obtain ⟨packet', hroute⟩ := hr.route
  exact (routePacket hr.isPublish.withDup hroute).trans (of_eq rfl rfl rfl)

end Aside

/-- **An event that is not of the client** leaves the session alone, but for deliveries. -/
theorem Event.apply_aside (hs : Sound ms) (hno : ¬ Concerns p r ms e)
    (h : e.apply p ms = .ok ms') : Aside r ms ms' := by
  have hid : ∀ {id pkt}, e.arrival p ms = .packet id pkt → pkt.header.type ≠ .connect →
      ms.getClientId id ≠ r.clientId := by
    intro id pkt harrival ht hclient
    refine hno (.inl ?_)
    simp only [harrival, Arrival.Concerns, if_neg ht]
    exact hclient
  refine e.apply_steps hs h (fun _ _ _ => .trans) (fun _ _ => .of_eq)
    (fun _ id _ data _ => .pushDataToSend id data) (fun _ _ _ hs hres => .resends hs hres)
    ?expires ?purges ?connects ?handles
  case expires =>
    rintro popped heap rfl hexpires
    exact .expires hexpires fun hlate => hno (.inr ⟨rfl, hlate⟩)
  case purges =>
    intro id old harrival _
    refine .purges (fun hclient => hno (.inl ?_)) old id
    rw [harrival]
    exact hclient
  case connects =>
    intro id pkt cn handled harrival ht hp hhandle
    refine .connects (connectHandler_connects hp hhandle).1 fun hclient => hno (.inl ?_)
    simp only [harrival, Arrival.Concerns, if_pos ht]
    exact ⟨cn, hp, hclient⟩
  case handles =>
    intro id pkt handled harrival ht hd
    refine .dispatch ?_ ht hd
    rw [getClientId_takeOut]
    exact hid harrival ht

/-! ### Runs -/

/-- Nobody else subscribes the session. -/
theorem Event.subscriber_ne (hno : ¬ Concerns p r ms e) : (e.kind p ms).subscriber ≠ some r := by
  intro h
  cases e with
  | parseData id beyond =>
    simp only [Event.kind] at h
    cases harrival : Event.arrival p (.parseData id beyond) ms with
    | nothing =>
      rw [harrival] at h
      cases h
    | malformed id =>
      rw [harrival] at h
      cases h
    | packet id pkt =>
      rw [harrival] at h
      have hsub : pkt.header.type = .subscribe ∧
          ms.sessionPresent (ms.getClientId id) = some r := by
        simp only [Arrival.kind, Packet.kind] at h
        split at h
        · cases h
        · simpa [Kind.subscriber, subscriberOf] using h
      refine hno (.inl ?_)
      simp only [harrival, Arrival.Concerns, hsub.1]
      obtain ⟨entry, -, rfl⟩ := Option.map_eq_some_iff.1 hsub.2
      simp
  | _ => cases h

/-- **A session is isolated from other clients.**  Over any run in which its client does nothing, no
CONNECT comes in its name and no sweep finds it late, the session stays registered, its state is
what the deliveries make of it, and the client's subscriptions stay as they are; a session that has
not subscribed to anything stays as it is, but for the time it is to expire. -/
theorem isolated_of_run (hr : Reachable p ms) (hl : ms.lock r = some cs)
    (hrun : Run (Meeting (BrokerStep p) fun ms e => ¬ Concerns p r ms e) ms events ms') :
    ∃ log expiryMs, ms'.calls = ms.calls ++ log ∧
      ms'.lock r = some { log.foldl (ClientSession.receives r) cs with expiryMs } ∧
      (∀ path, (ms'.topicTree.root.subsAt path).lookup r.clientId =
        (ms.topicTree.root.subsAt path).lookup r.clientId) ∧
      (ms.topicTree.Unsubscribed r → log.foldl (ClientSession.receives r) cs = cs) := by
  have hkept : Reachable p ms' ∧ ∃ log, Isolated r log ms ms' ∧
      (ms.topicTree.Unsubscribed r → ms'.topicTree.Unsubscribed r ∧
        ∀ c ∈ log, c.receiver ≠ some r) := by
    refine hrun.invariant (I := fun ms' => Reachable p ms' ∧ ∃ log, Isolated r log ms ms' ∧
      (ms.topicTree.Unsubscribed r → ms'.topicTree.Unsubscribed r ∧
        ∀ c ∈ log, c.receiver ≠ some r)) ⟨hr, [], .refl ms, fun h => ⟨h, by simp⟩⟩ ?_
    rintro ms₁ e ms₂ ⟨hr₁, log, hisolated, hunsub⟩ ⟨hno, hstep⟩
    obtain ⟨log₁, hisolated₁⟩ := e.apply_aside hr₁.sound hno hstep
    obtain ⟨log₂, hevolves⟩ := (e.apply_change hr₁.sound hstep).evolves
    obtain rfl := List.append_cancel_left (hisolated₁.calls.symm.trans hevolves.calls)
    have hsub := Event.subscriber_ne hno
    refine ⟨hr₁.step hstep, log ++ log₁, hisolated.trans hisolated₁, fun h => ?_⟩
    obtain ⟨h₁, hnone⟩ := hunsub h
    refine ⟨hevolves.unsubscribed r h₁ hsub, fun c hc hreceiver => ?_⟩
    rcases List.mem_append.1 hc with hc | hc
    · exact hnone c hc hreceiver
    · rcases hevolves.receivers c hc r hreceiver with hnot | hself
      · exact hnot h₁
      · exact hsub hself
  obtain ⟨-, log, hisolated, hunsub⟩ := hkept
  obtain ⟨expiryMs, hl'⟩ := hisolated.session cs hl
  refine ⟨log, expiryMs, hisolated.calls, hl', hisolated.subscriptions, fun h => ?_⟩
  exact ClientSession.foldl_receives_of_ne (hunsub h).2 cs

/-- Client `A` has subscribed to `"t"`, and a socket has been accepted. -/
def subscribedClient : ManageSessions :=
  after .sorting (.newConnection 3 :: arrive 0 (connectFrameWith 4 0 65 2) ++
    arrive 0 (subscribeFrame 116 1) ++ [.newConnection 4])

/-- Client `B` connects and publishes to `"t"`; the loop goes on, and `B` is gone. -/
def otherClient : List Event :=
  arrive 2 (connectFrameWith 4 0 66 2) ++ arrive 2 (publishFrame 1 116 7 1) ++
    [.tick 6000, .processRetransmissions, .processExpiredSessions, .closeConnection 4]

theorem isolated_of_run_other : ∃ ms' cs log expiryMs,
    Run (Meeting (BrokerStep .sorting) fun ms e => ¬ Concerns .sorting ⟨[65], 1⟩ ms e)
      subscribedClient otherClient ms' ∧
    subscribedClient.lock ⟨[65], 1⟩ = some cs ∧ ms'.calls = subscribedClient.calls ++ log ∧
    ms'.lock ⟨[65], 1⟩ =
      some { log.foldl (ClientSession.receives ⟨[65], 1⟩) cs with expiryMs } ∧
    (log.foldl (ClientSession.receives ⟨[65], 1⟩) cs).nextPacketId = 2 := by
  obtain ⟨cs, hl, -⟩ := @exists_of_any _ (subscribedClient.lock ⟨[65], 1⟩) (fun _ => True) _
    (by decide +kernel)
  obtain ⟨ms', hend, halive⟩ := @exists_of_any _
    (otherClient.foldlM (fun ms e => if Concerns .sorting ⟨[65], 1⟩ ms e then none
      else (e.apply .sorting ms).toOption) subscribedClient)
    (fun ms' => (ms'.lock ⟨[65], 1⟩).any (fun cs => cs.nextPacketId = 2) = true) _
    (by decide +kernel)
  have hrun : Run (Meeting (BrokerStep .sorting) fun ms e =>
      ¬ Concerns .sorting ⟨[65], 1⟩ ms e) subscribedClient otherClient ms' := by
    refine Run.of_foldlM (fun s e s' hs => ?_) hend
    split_ifs at hs with hno
    refine ⟨hno, ?_⟩
    cases hstep : e.apply .sorting s with
    | error fault =>
      rw [hstep] at hs
      cases hs
    | ok s₁ =>
      rw [hstep] at hs
      obtain rfl := Option.some.inj hs
      exact hstep
  obtain ⟨log, expiryMs, hlog, hl', -, -⟩ := isolated_of_run (after_reachable _ _) hl hrun
  refine ⟨ms', cs, log, expiryMs, hrun, hl, hlog, hl', ?_⟩
  rw [hl'] at halive
  simpa using halive

end Culex
