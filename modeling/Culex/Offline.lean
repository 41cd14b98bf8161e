import Culex.Jamming
import Culex.Stepping

/-!
# Sessions that are offline

A CONNECT that resumes a session does not mark it connected.  So a session that has gone offline
stays so for good: whatever its client does, no message is routed to it any more, and every message
that comes with a positive QoS is added to its queue, from which nothing is ever taken.  A CONNECT
that resumes it still pushes what is inflight, to the transport that the session had; but nothing
comes to be inflight there, except for what its own client publishes.

* `Unsent`: a step that routes nothing to the session while it is offline, and leaves it so;
* `Event.apply_unsent`: every event is one;
* `offline_of_run`: what becomes of an offline session over any run.
-/

namespace Culex

open ManageSessions

/-- The call is `sendToClient`, for the session. -/
def Call.sendsToClient (r : SessionRef) : Call → Bool
  | .sendToClient r' _ => r' = r
  | .routePacket _ => false
  | .storeMessage .. => false
  | .pushDataToSend .. => false

/-- The session is not connected, or gone. -/
def Off (ms : ManageSessions) (r : SessionRef) : Prop :=
  ∀ cs, ms.lock r = some cs → cs.connected = false

/-- What is inflight was there before, or has been published by the client itself. -/
def ClientSession.Inherits (own : Packet → Prop) (cs cs' : ClientSession) : Prop :=
  ∀ k packet, cs'.inflight.lookup k = some packet → cs.inflight.lookup k = some packet ∨ own packet

/-- The session is offline, has been sent nothing, and nothing has come to be inflight. -/
structure StaysOff (own : Packet → Prop) (r : SessionRef) (ms ms' : ManageSessions) : Prop where
  off : Off ms' r
  calls : ms'.calls.countP (Call.sendsToClient r) = ms.calls.countP (Call.sendsToClient r)
  inflight : ∀ cs', ms'.lock r = some cs' → ∃ cs, ms.lock r = some cs ∧ cs.Inherits own cs'

/-- If the session is offline before, it stays so. -/
def Unsent (own : Packet → Prop) (r : SessionRef) (ms ms' : ManageSessions) : Prop :=
  Off ms r → StaysOff own r ms ms'

/-- The client of the session has published the packet in the course of the events. -/
def Published (p : Platform) (r : SessionRef) (ms : ManageSessions) (events : List Event)
    (packet : Packet) : Prop :=
  ∃ before e rest ms₁ id pub, events = before ++ e :: rest ∧ Run (BrokerStep p) ms before ms₁ ∧
    e.arrival p ms₁ = .packet id packet ∧ ms₁.getClientId id = r.clientId ∧ IsPublish packet pub

variable {p : Platform} {own own' : Packet → Prop} {r r' : SessionRef} {ms ms' ms₁ : ManageSessions}
  {cs cs' : ClientSession} {packet : Packet} {pub : Publish} {handled : Handled} {t id : ℕ}
  {e : Event} {events : List Event} {cn : Connect}

namespace Unsent

/-! ### Steps -/

theorem of_eq (hreg : ms'.sessionRegistry = ms.sessionRegistry) (hcalls : ms'.calls = ms.calls) :
    Unsent own r ms ms' := fun hoff => {
  off cs hl := hoff cs ((lock_congr hreg r).symm.trans hl)
  calls := by rw [hcalls]
  inflight cs hl := ⟨cs, (lock_congr hreg r).symm.trans hl, fun _ _ hk => .inl hk⟩ }

theorem refl (ms : ManageSessions) : Unsent own r ms ms := of_eq rfl rfl

theorem trans (h : Unsent own r ms ms₁) (h' : Unsent own r ms₁ ms') : Unsent own r ms ms' := by
  intro hoff
  have hfirst := h hoff
  have hsecond := h' hfirst.off
  refine ⟨hsecond.off, hsecond.calls.trans hfirst.calls, fun cs' hl' => ?_⟩
  obtain ⟨cs₁, hl₁, hinherits₁⟩ := hsecond.inflight cs' hl'
  obtain ⟨cs, hl, hinherits⟩ := hfirst.inflight cs₁ hl₁
  refine ⟨cs, hl, fun k packet hk => ?_⟩
  rcases hinherits₁ k packet hk with hk₁ | hown
  · exact hinherits k packet hk₁
  · exact .inr hown

theorem mono (h : Unsent own r ms ms') (hle : ∀ packet, own packet → own' packet) :
    Unsent own' r ms ms' := by
  intro hoff
  have hstays := h hoff
  refine ⟨hstays.off, hstays.calls, fun cs' hl' => ?_⟩
  obtain ⟨cs, hl, hinherits⟩ := hstays.inflight cs' hl'
  exact ⟨cs, hl, fun k packet hk => (hinherits k packet hk).imp_right (hle packet)⟩

/-- A call that is none to the session. -/
theorem record {c : Call} (h : Off ms r → c.sendsToClient r = false) :
    Unsent own r ms (ms.record c) := by
  intro hoff
  refine ⟨hoff, ?_, fun cs hl => ⟨cs, hl, fun _ _ hk => .inl hk⟩⟩
  show (ms.calls ++ [c]).countP (Call.sendsToClient r) = _
  rw [List.countP_append, List.countP_singleton, h hoff]
  simp

theorem pushDataToSend (t : ℕ) (data : Bytes) : Unsent own r ms (ms.pushDataToSend t data) :=
  record fun _ => rfl

theorem pushIfAlive (transport : Option ℕ) (data : Bytes) :
    Unsent own r ms (ms.pushIfAlive transport data) := by
  unfold ManageSessions.pushIfAlive
  split
  · exact pushDataToSend _ data
  · exact refl ms

/-- A session is changed: another one, or it is not connected by it. -/
theorem setSession (hl : ms.lock r' = some cs)
    (h : cs.connected = false → cs'.connected = false ∧ (r' = r → cs.Inherits own cs')) :
    Unsent own r ms (ms.setSession r' cs') := by
  intro hoff
  refine ⟨fun cs₁ hl₁ => ?_, by rw [setSession_eq], fun cs₁ hl₁ => ?_⟩
  all_goals
    rw [lock_setSession] at hl₁
    split_ifs at hl₁ with he
  · rw [hl] at hl₁
    obtain rfl := Option.some.inj hl₁
    exact (h (hoff cs (he ▸ hl))).1
  · exact hoff cs₁ hl₁
  · rw [hl] at hl₁
    obtain rfl := Option.some.inj hl₁
    exact ⟨cs, he ▸ hl, (h (hoff cs (he ▸ hl))).2 he.symm⟩
  · exact ⟨cs₁, hl₁, fun _ _ hk => .inl hk⟩

/-- A connected session is sent a message: it is another one. -/
theorem delivered (hl : ms.lock r' = some cs) (hcon : cs.connected = true) :
    Unsent own r ms (delivered p r' cs packet pub ms) := by
  have hother : Off ms r → (Call.sendToClient r' packet).sendsToClient r = false := by
    intro hoff
    by_contra hsends
    have hsame : r' = r := by simpa [Call.sendsToClient] using hsends
    rw [hoff cs (hsame ▸ hl)] at hcon
    cases hcon
  have hrecord : Unsent own r ms (ms.record (.sendToClient r' packet)) := record hother
  by_cases hq : 0 < packet.header.qos
  · rw [delivered_of_pos hq]
    have hset : Unsent own r (ms.record (.sendToClient r' packet))
        ((ms.record (.sendToClient r' packet)).setSession r' (tracked cs packet pub)) := by
      refine setSession hl fun hoff => ?_
      cases hoff.symm.trans hcon
    have hschedule : Unsent own r _ (scheduleRetransmission p cs.allocatePacketId.1 .publish r'
        ((ms.record (.sendToClient r' packet)).setSession r' (tracked cs packet pub))) :=
      (hrecord.trans hset).trans (of_eq rfl rfl)
    exact hschedule.trans (pushIfAlive _ _)
  · rw [delivered_of_not_pos hq]
    exact hrecord.trans (pushIfAlive _ _)

theorem queued (hl : ms.lock r' = some cs) : Unsent own r ms (queued r' cs packet ms) := by
  unfold Culex.queued
  split_ifs
  · have hset : Unsent own r ms (ms.setSession r' (cs.storeMessage packet)) :=
      setSession hl fun hoff => ⟨hoff, fun _ _ _ hk => .inl hk⟩
    exact hset.trans (record fun _ => rfl)
  · exact refl ms

theorem routePacket (h : IsPublish packet pub) {session : Option SessionRef} {packet' : Packet}
    (hroute : routePacket p packet session ms = .ok (ms', packet')) : Unsent own r ms ms' := by
  have hloop := @routeLoop_rec p packet pub (routeStart packet pub ms)
    (fun _ _ ms ms' => Unsent own r ms ms') ?nil ?dead ?connected ?offline h
      (routeTargets p pub ms)
  case nil => exact fun _ ms => refl ms
  case dead => exact fun _ hrest => hrest
  case connected => exact fun hl hcon hrest => (delivered hl hcon).trans hrest
  case offline => exact fun hl _ hrest => (queued hl).trans hrest
  obtain ⟨ms₁, m, hloop, -, hrest⟩ := hloop
  rw [routePacket_eq h, hloop] at hroute
  obtain ⟨rfl, -⟩ := Prod.mk.inj (Except.ok.inj hroute)
  have hrecord : Unsent own r ms (ms.record (.routePacket packet)) := record fun _ => rfl
  have hstart : Unsent own r ms (routeStart packet pub ms) := hrecord.trans (of_eq rfl rfl)
  exact hstart.trans hrest

/-! ### Handlers -/

/-- A client's own message is all that a handler stores. -/
theorem inherits_of_acts {now : ℤ} (h : cs.Acts packet now cs')
    (hown : ∀ pub, IsPublish packet pub → own packet) : cs.Inherits own cs' := by
  intro k packet' hk
  cases h with
  | active => exact .inl hk
  | @received pub ht hp =>
    have hk : (receivedInflight cs.inflight pub packet).lookup k = some packet' := hk
    unfold receivedInflight at hk
    split_ifs at hk
    · rw [Inflight.lookup_insertNew] at hk
      split_ifs at hk with he
      · cases hold : cs.inflight.lookup pub.packetId with
        | some old =>
          rw [hold, Option.getD_some] at hk
          exact .inl (by rw [he, hold, hk])
        | none =>
          rw [hold, Option.getD_none, Option.some.injEq] at hk
          exact .inr (hk ▸ hown pub ⟨ht, hp⟩)
      · exact .inl hk
    · exact .inl hk
  | @released ack =>
    have hk : (cs.inflight.erase ack.packetId).lookup k = some packet' := hk
    by_cases he : k = ack.packetId
    · rw [he, AList.lookup_erase] at hk
      cases hk
    · exact .inl ((AList.lookup_erase_ne he).symm.trans hk)
  | acknowledged => exact .inl hk
  | completed => exact .inl hk

theorem handles {clientId : Bytes}
    (hown : ∀ pub, IsPublish packet pub → clientId = r.clientId → own packet) :
    Handles p packet t clientId (Unsent own r) where
  refl := refl
  trans := trans
  push _ := pushDataToSend t
  set hl hc hacts := setSession hl fun hoff => by
    refine ⟨hacts.connected.trans hoff, fun he => inherits_of_acts hacts fun pub hp => ?_⟩
    exact hown pub hp (hc.trans (congrArg SessionRef.clientId he))
  route h := routePacket h

/-- A packet that is no CONNECT is handled. -/
theorem dispatch (ht : packet.header.type ≠ .connect)
    (hown : ∀ pub, IsPublish packet pub → ms.getClientId t = r.clientId → own packet)
    (h : dispatch p packet t ms = .ok handled) : Unsent own r ms handled.state :=
  dispatch_rel (handles hown) ht (fun _ _ _ => of_eq rfl rfl) h

/-- Calls that send nothing. -/
theorem countP_sendsToClient {log : List Call}
    (h : ∀ c ∈ log, ∃ id data, c = .pushDataToSend id data) :
    log.countP (Call.sendsToClient r) = 0 := by
  refine List.countP_eq_zero.2 fun c hc => ?_
  obtain ⟨id, data, rfl⟩ := h c hc
  simp [Call.sendsToClient]

/-- A CONNECT resumes a session as it is, or replaces it. -/
theorem connects (h : Connects cn id ms ms') (hr : r.obj < ms.nextObj) : Unsent own r ms ms' := by
  intro hoff
  obtain ⟨log, hcalls, hlog⟩ := h.calls
  have hkept : ∀ cs', ms'.lock r = some cs' →
      ∃ cs, ms.lock r = some cs ∧ (cs' = cs ∨ cs' = resumedSession cn cs) := by
    intro cs' hl'
    rcases lock_connects h hl' with ⟨hobj, -⟩ | hkept
    · omega
    · exact hkept
  refine ⟨fun cs' hl' => ?_, ?_, fun cs' hl' => ?_⟩
  · obtain ⟨cs, hl, rfl | rfl⟩ := hkept cs' hl'
    · exact hoff _ hl
    · rfl
  · rw [hcalls, List.countP_append, countP_sendsToClient hlog, Nat.add_zero]
  · obtain ⟨cs, hl, rfl | rfl⟩ := hkept cs' hl'
    · exact ⟨_, hl, fun _ _ hk => .inl hk⟩
    · exact ⟨cs, hl, fun _ _ hk => .inl hk⟩

theorem resends (hs : Sound ms) {entry : RetransmitEntry} (h : Resends p ms entry ms') :
    Unsent own r ms ms' := by
  obtain ⟨cs, packet, pub, ms₁, hr, rfl⟩ := h.spec hs
  obtain ⟨packet', hroute⟩ := hr.route
  exact (routePacket hr.isPublish.withDup hroute).trans (of_eq rfl rfl)

theorem of_sweeps (h : Sweeps ms ms') : Unsent own r ms ms' := by
  intro hoff
  refine ⟨fun cs' hl' => ?_, by rw [h.eq], fun cs' hl' => ?_⟩
  all_goals obtain ⟨cs, hl, hswept⟩ := h.alive r cs' hl'
  · by_contra hcon
    rw [Bool.not_eq_false] at hcon
    cases (hoff cs hl).symm.trans (hswept.connected hcon)
  · refine ⟨cs, hl, fun k packet hk => .inl ?_⟩
    rw [hswept.eq] at hk
    exact hk

end Unsent

/-! ### Events -/

/-- **Every event** leaves an offline session offline, and routes nothing to it. -/
theorem Event.apply_unsent (hs : Sound ms) (hr : r.obj < ms.nextObj)
    (hown : ∀ id packet pub, e.arrival p ms = .packet id packet → IsPublish packet pub →
      ms.getClientId id = r.clientId → own packet)
    (h : e.apply p ms = .ok ms') : Unsent own r ms ms' := by
  refine e.apply_rel hs h (fun _ _ _ => .trans) (fun _ _ hreg hcalls _ => .of_eq hreg hcalls)
    (fun _ => .pushDataToSend)
    (fun _ _ => .of_sweeps) (fun _ _ _ hs hres => .resends hs hres)
    (fun _ _ _ _ hnext hconnects => .connects hconnects (hnext ▸ hr)) ?_
  intro id packet handled harrival ht hd
  refine .dispatch ht (fun pub hp hc => hown id packet pub harrival hp ?_) hd
  exact getClientId_takeOut ▸ hc

/-! ### Runs -/

theorem Published.append (h : Published p r ms events packet) (more : List Event) :
    Published p r ms (events ++ more) packet := by
  obtain ⟨before, e, rest, ms₁, id, pub, rfl, hrun, harrival, hc, hp⟩ := h
  exact ⟨before, e, rest ++ more, ms₁, id, pub, by simp, hrun, harrival, hc, hp⟩

/-- **A session that is offline stays so**, whatever its client does: over any run no message is
routed to it, all that comes for it is added to its queue, which nothing is taken from, and nothing
comes to be inflight there except for what its own client publishes. -/
theorem offline_of_run (hr : Reachable p ms) (hl : ms.lock r = some cs)
    (hoff : cs.connected = false) (hrun : Run (BrokerStep p) ms events ms') :
    ∃ log, ms'.calls = ms.calls ++ log ∧ (∀ packet, .sendToClient r packet ∉ log) ∧
      ∀ cs', ms'.lock r = some cs' → cs'.connected = false ∧
        cs'.messageQueue = cs.messageQueue ++ log.filterMap (Call.queuedFor r) ∧
        cs.Inherits (Published p r ms events) cs' := by
  have hstart : Off ms r := by
    intro cs₁ hl₁
    obtain rfl := Option.some.inj (hl.symm.trans hl₁)
    exact hoff
  have hkept : Run (BrokerStep p) ms events ms' ∧ Reachable p ms' ∧ r.obj < ms'.nextObj ∧
      Unsent (Published p r ms events) r ms ms' ∧ ∃ log, ms'.calls = ms.calls ++ log := by
    refine hrun.history (I := fun events ms' => Run (BrokerStep p) ms events ms' ∧
      Reachable p ms' ∧ r.obj < ms'.nextObj ∧ Unsent (Published p r ms events) r ms ms' ∧
        ∃ log, ms'.calls = ms.calls ++ log)
      ⟨.nil, hr, hr.allocated.registered r cs hl, .refl ms, [], by simp⟩ ?_
    rintro events ms₁ e ms₂ ⟨hrun₁, hr₁, hobj, hunsent, log, hlog⟩ hstep
    obtain ⟨log', hevolves⟩ := (e.apply_change hr₁.sound hstep).evolves
    have hnext : Unsent (Published p r ms (events ++ [e])) r ms₁ ms₂ :=
      e.apply_unsent hr₁.sound hobj (fun id packet pub harrival hp hc =>
        ⟨events, e, [], ms₁, id, pub, rfl, hrun₁, harrival, hc, hp⟩) hstep
    refine ⟨hrun₁.snoc hstep, hr₁.step hstep, hobj.trans_le hevolves.nextObj, ?_, log ++ log', ?_⟩
    · exact (hunsent.mono fun packet hp => hp.append [e]).trans hnext
    · rw [hevolves.calls, hlog, List.append_assoc]
  obtain ⟨-, hr', -, hunsent, log, hlog⟩ := hkept
  have hstays := hunsent hstart
  refine ⟨log, hlog, fun packet hmem => ?_, fun cs' hl' => ⟨hstays.off cs' hl', ?_, ?_⟩⟩
  · have hcount := hstays.calls
    rw [hlog, List.countP_append] at hcount
    have hzero : log.countP (Call.sendsToClient r) = 0 := by omega
    have hnot := List.countP_eq_zero.1 hzero _ hmem
    exact hnot (by simp [Call.sendsToClient])
  · rw [hr'.queued r cs' hl', hr.queued r cs hl, hlog, List.filterMap_append]
  · obtain ⟨cs₁, hl₁, hinherits⟩ := hstays.inflight cs' hl'
    obtain rfl := Option.some.inj (hl.symm.trans hl₁)
    exact hinherits

/-- A persistent session of `A` with a keep-alive time, which the sweep has marked disconnected. -/
def sweptBroker : ManageSessions :=
  after .sorting (.newConnection 3 :: arrive 0 (connectFrameWith 4 1 65 0) ++
    arrive 0 (subscribeFrame 116 1) ++ [.tick 2000, .processExpiredSessions, .newConnection 4])

/-- Its client resumes it, and publishes a message that it has subscribed to. -/
def resumeAndPublish : List Event :=
  arrive 2 (connectFrameWith 4 1 65 0) ++ arrive 2 (publishFrame 1 116 7 1)

/-- It is sent no message. -/
theorem offline_of_run_resumed : ∃ ms' cs' log,
    resumeAndPublish.foldlM (fun ms e => Event.apply .sorting e ms) sweptBroker = .ok ms' ∧
    ms'.calls = sweptBroker.calls ++ log ∧ (∀ packet, .sendToClient ⟨[65], 1⟩ packet ∉ log) ∧
      ms'.lock ⟨[65], 1⟩ = some cs' ∧ cs'.connected = false ∧ cs'.messageQueue ≠ [] := by
  have hclient : (sweptBroker.lock ⟨[65], 1⟩).any fun cs => cs.connected = false := by
    decide +kernel
  have hend : (resumeAndPublish.foldlM (fun ms e => Event.apply .sorting e ms)
      sweptBroker).toOption.any fun ms' =>
        (ms'.lock ⟨[65], 1⟩).any (fun cs => cs.messageQueue ≠ []) = true := by
    decide +kernel
  obtain ⟨cs, hl, hoff⟩ := exists_of_any hclient
  obtain ⟨ms', hok, halive⟩ := exists_of_any_ok hend
  obtain ⟨cs', hl', hqueue⟩ := exists_of_any halive
  have hrun : Run (BrokerStep .sorting) sweptBroker resumeAndPublish ms' :=
    .of_except (fun _ _ _ hstep => hstep) hok
  obtain ⟨log, hlog, hnone, hcs⟩ := offline_of_run (after_reachable _ _) hl hoff hrun
  exact ⟨ms', cs', log, hok, hlog, hnone, hl', (hcs cs' hl').1, hqueue⟩

end Culex
