import Culex.Backlog
import Culex.Binding
import Culex.Isolation

/-!
# A connection among others

What the broker hands to a transport comes from the handlers of the packets read on it, and from the
deliveries to the session that it serves.  If the session has no subscriptions and nobody else is
served there (`Secluded`), then everything that goes on elsewhere leaves the transport silent
(`Event.apply_silent`).
-/

namespace Culex

open ManageSessions

/-- The bytes handed to a transport. -/
def Call.pushedTo (t : ℕ) : Call → Option Bytes
  | .pushDataToSend t' data => if t' = t then some data else none
  | _ => none

/-- Everything handed to a transport, in order. -/
def ManageSessions.output (ms : ManageSessions) (t : ℕ) : List Bytes :=
  ms.calls.filterMap (Call.pushedTo t)

/-- Nobody else is served on the transport, and nothing is delivered to the session. -/
structure Secluded (r : SessionRef) (t : ℕ) (ms : ManageSessions) : Prop where
  unsubscribed : ms.topicTree.Unsubscribed r
  sole : ∀ r' cs', r' ≠ r → ms.lock r' = some cs' → cs'.session ≠ some t

/-- The steps that hand nothing to the transport. -/
def Silent (r : SessionRef) (t : ℕ) (ms ms' : ManageSessions) : Prop :=
  Secluded r t ms → Secluded r t ms' ∧ ms'.output t = ms.output t

variable {p : Platform} {r r' : SessionRef} {t id : ℕ} {ms ms' ms₁ : ManageSessions}
  {cs cs' : ClientSession} {packet : Packet} {pub : Publish} {handled : Handled} {e : Event}
  {cn : Connect} {log : List Call}

theorem output_append (h : ms'.calls = ms.calls ++ log) :
    ms'.output t = ms.output t ++ log.filterMap (Call.pushedTo t) := by
  unfold ManageSessions.output
  rw [h, List.filterMap_append]

theorem ClientSession.Acts.session {now : ℤ} (h : cs.Acts packet now cs') :
    cs'.session = cs.session := by
  cases h <;> rfl

/-- A CONNECT hands something to the old transport of its client at most. -/
theorem calls_connectHandler (hp : packet.pkt = .connect cn)
    (h : connectHandler p packet id ms = .ok handled) :
    ∃ log, handled.state.calls = ms.calls ++ log ∧ ∀ c ∈ log, ∃ entry old data,
      ms.sessionRegistry.lookup cn.clientId = some entry ∧ entry.state.session = some old ∧
        c = .pushDataToSend old data := by
  by_cases hrenews : Renews ms cn
  · refine ⟨[], ?_, by simp⟩
    rw [List.append_nil]
    by_cases hlevel : cn.level = 4
    · rw [connectHandler_new hp hrenews hlevel] at h
      obtain rfl := Except.ok.inj h
      rw [scheduleExpiry_eq]
      show (vacated cn ms).calls = ms.calls
      rw [vacated_eq]
    · rw [connectHandler_rejected hp hrenews hlevel] at h
      obtain rfl := Except.ok.inj h
      rw [vacated_eq]
  · obtain ⟨⟨entry, hl⟩, hclean⟩ := not_renews_iff.1 hrenews
    rw [connectHandler_resumed hp hl hclean] at h
    cases hres : resendPending p entry.state
        (takeOver ⟨cn.clientId, entry.obj⟩ entry.state ms).1 with
    | error fault =>
      rw [hres] at h
      cases h
    | ok ms₁ =>
      rw [hres] at h
      obtain rfl := Except.ok.inj h
      obtain ⟨log, rfl, hlog⟩ := resendPending_calls hres
      refine ⟨log, ?_, fun c hc => ?_⟩
      · show (ManageSessions.setSession _ _ _).calls = ms.calls ++ log
        rw [setSession_eq, takeOver_eq]
      · obtain ⟨old, data, hlock, rfl⟩ := hlog c hc
        obtain ⟨hsession, -⟩ := lockTransport_eq_some_iff.1 hlock
        exact ⟨entry, old, data, hl, hsession, rfl⟩

/-- Subscriptions of others. -/
theorem TopicTree.Unsubscribed.calls {tree : TopicTree} (h : tree.Unsubscribed r)
    {clientId : Bytes} (hne : clientId ≠ r.clientId) (payload : List Tuple) :
    (tree.calls (requests (ms.sessionPresent clientId) payload)).Unsubscribed r := by
  cases hp : ms.sessionPresent clientId with
  | none => exact h
  | some r' =>
    have hr : r' ≠ r := by
      obtain ⟨entry, -, rfl⟩ := Option.map_eq_some_iff.1 hp
      exact fun he => hne (congrArg SessionRef.clientId he)
    unfold requests
    generalize payload.filter _ = payload
    induction payload generalizing tree with
    | nil => exact h
    | cons tuple payload ih => exact ih (h.subscribe tuple.topic hr tuple.qos)

namespace Silent

/-! ### Steps -/

theorem of_eq (hreg : ms'.sessionRegistry = ms.sessionRegistry) (hcalls : ms'.calls = ms.calls)
    (htree : ms'.topicTree = ms.topicTree) : Silent r t ms ms' := by
  intro h
  refine ⟨⟨htree ▸ h.unsubscribed, fun r' cs' hr hl => ?_⟩, congrArg _ hcalls⟩
  exact h.sole r' cs' hr ((lock_congr hreg r').symm.trans hl)

theorem refl (ms : ManageSessions) : Silent r t ms ms := of_eq rfl rfl rfl

theorem trans (h : Silent r t ms ms₁) (h' : Silent r t ms₁ ms') : Silent r t ms ms' := by
  intro halone
  obtain ⟨h₁, heq⟩ := h halone
  obtain ⟨h₂, heq'⟩ := h' h₁
  exact ⟨h₂, heq'.trans heq⟩

/-- Calls that hand nothing to the transport, while the sessions keep theirs. -/
theorem of_calls (hcalls : ms'.calls = ms.calls ++ log)
    (hlog : log.filterMap (Call.pushedTo t) = []) (htree : ms'.topicTree = ms.topicTree)
    (hsole : ∀ r' cs', r' ≠ r → ms'.lock r' = some cs' →
      (∃ cs, ms.lock r' = some cs ∧ cs'.session = cs.session) ∨ cs'.session ≠ some t) :
    Silent r t ms ms' := by
  intro h
  refine ⟨⟨htree ▸ h.unsubscribed, fun r' cs' hr hl => ?_⟩, ?_⟩
  · rcases hsole r' cs' hr hl with ⟨cs, hcs, heq⟩ | hne
    · rw [heq]
      exact h.sole r' cs hr hcs
    · exact hne
  · rw [output_append hcalls, hlog, List.append_nil]

theorem record {c : Call} (h : c.pushedTo t = none) : Silent r t ms (ms.record c) :=
  of_calls rfl (by simp [h]) rfl fun _ cs' _ hl => .inl ⟨cs', hl, rfl⟩

theorem pushDataToSend (hne : id ≠ t) (data : Bytes) :
    Silent r t ms (ms.pushDataToSend id data) := record (if_neg hne)

theorem pushIfAlive {transport : Option ℕ} (hne : transport ≠ some t) (data : Bytes) :
    Silent r t ms (ms.pushIfAlive transport data) := by
  unfold ManageSessions.pushIfAlive
  cases hl : ms.lockTransport transport with
  | none => exact refl ms
  | some id =>
    obtain ⟨rfl, -⟩ := lockTransport_eq_some_iff.1 hl
    exact pushDataToSend (fun he => hne (congrArg some he)) data

theorem setSession (hl : ms.lock r' = some cs) (hs : cs'.session = cs.session) :
    Silent r t ms (ms.setSession r' cs') := by
  refine @of_calls r t ms (ms.setSession r' cs') [] ?_ rfl ?_ fun r₁ cs₁ _ hl₁ => .inl ?_
  · rw [setSession_eq, List.append_nil]
  · rw [setSession_eq]
  · rw [lock_setSession] at hl₁
    split_ifs at hl₁ with he
    · rw [hl] at hl₁
      obtain rfl := Option.some.inj hl₁
      exact ⟨cs, he ▸ hl, hs⟩
    · exact ⟨cs₁, hl₁, rfl⟩

/-! ### Routing -/

theorem delivered (hne : r' ≠ r) (hl : ms.lock r' = some cs) :
    Silent r t ms (delivered p r' cs packet pub ms) := by
  intro h
  have hpush : cs.session ≠ some t := h.sole r' cs hne hl
  have hrecord : Silent r t ms (ms.record (.sendToClient r' packet)) := record rfl
  by_cases hq : 0 < packet.header.qos
  · rw [delivered_of_pos hq]
    have htracked : Silent r t (ms.record (.sendToClient r' packet))
        ((ms.record (.sendToClient r' packet)).setSession r' (tracked cs packet pub)) :=
      setSession hl rfl
    have hschedule : Silent r t ms (scheduleRetransmission p cs.allocatePacketId.1 .publish r'
        ((ms.record (.sendToClient r' packet)).setSession r' (tracked cs packet pub))) :=
      (hrecord.trans htracked).trans (of_eq rfl rfl rfl)
    exact (hschedule.trans (pushIfAlive hpush _)) h
  · rw [delivered_of_not_pos hq]
    exact (hrecord.trans (pushIfAlive hpush _)) h

theorem queued (hl : ms.lock r' = some cs) : Silent r t ms (queued r' cs packet ms) := by
  unfold Culex.queued
  split_ifs
  · have hstored : Silent r t ms (ms.setSession r' (cs.storeMessage packet)) := setSession hl rfl
    exact hstored.trans (record rfl)
  · exact refl ms

theorem routePacket (h : IsPublish packet pub) {packet' : Packet}
    (hroute : routePacket p packet none ms = .ok (ms', packet')) : Silent r t ms ms' := by
  have hloop := @routeLoop_rec p packet pub (routeStart packet pub ms)
    (fun subs _ ms ms' => (∀ sub ∈ subs, sub.session ≠ r) → Silent r t ms ms')
    ?nil ?dead ?connected ?offline h (routeTargets p pub ms)
  case nil => exact fun _ ms _ => refl ms
  case dead => exact fun _ hrest hne => hrest fun sub hsub => hne sub (List.mem_cons_of_mem _ hsub)
  case connected =>
    intro sub subs packet ms ms' cs hl _ hrest hne
    exact (delivered (hne sub List.mem_cons_self) hl).trans
      (hrest fun sub hsub => hne sub (List.mem_cons_of_mem _ hsub))
  case offline =>
    intro sub subs packet ms ms' cs hl _ hrest hne
    exact (queued hl).trans (hrest fun sub hsub => hne sub (List.mem_cons_of_mem _ hsub))
  obtain ⟨ms₁, m, hloop, -, hrest⟩ := hloop
  rw [routePacket_eq h, hloop] at hroute
  obtain ⟨rfl, -⟩ := Prod.mk.inj (Except.ok.inj hroute)
  intro halone
  have hstart : Secluded r t (routeStart packet pub ms) :=
    ⟨halone.unsubscribed.match pub.topic, halone.sole⟩
  obtain ⟨halone', hout⟩ := hrest halone.unsubscribed.notMem_routeTargets hstart
  refine ⟨halone', hout.trans ?_⟩
  have hcalls : (routeStart packet pub ms).calls = ms.calls ++ [.routePacket packet] := rfl
  rw [output_append hcalls]
  exact List.append_nil _

/-! ### Handlers -/

/-- The handlers of packets read elsewhere. -/
theorem handles (hne : id ≠ t) (clientId : Bytes) : Handles p packet id clientId (Silent r t) where
  refl := refl
  trans := trans
  push _ := pushDataToSend hne
  set hl _ hacts := setSession hl hacts.session
  route h := routePacket h

theorem dispatch (hid : id ≠ t) (hne : ms.getClientId id ≠ r.clientId)
    (ht : packet.header.type ≠ .connect) (h : dispatch p packet id ms = .ok handled) :
    Silent r t ms handled.state := by
  refine dispatch_rel (handles hid _) ht (fun sub _ _ halone => ?_) h
  have htree : (ms.updateActivity (ms.getClientId id)).topicTree = ms.topicTree := by
    unfold ManageSessions.updateActivity
    split <;> rfl
  exact ⟨⟨(htree ▸ halone.unsubscribed).calls hne sub.payload, halone.sole⟩, rfl⟩

theorem sweeps (h : Sweeps ms ms') : Silent r t ms ms' := by
  refine @of_calls r t ms ms' [] ?_ rfl ?_ fun r' cs' _ hl => .inl ?_
  · rw [h.eq, List.append_nil]
  · rw [h.eq]
  · obtain ⟨cs, hcs, hswept⟩ := h.alive r' cs' hl
    exact ⟨cs, hcs, by rw [hswept.eq]⟩

/-- A CONNECT elsewhere, in another client's name. -/
theorem connects (hp : packet.pkt = .connect cn) (hid : id ≠ t) (hne : cn.clientId ≠ r.clientId)
    (h : connectHandler p packet id ms = .ok handled) : Silent r t ms handled.state := by
  intro halone
  obtain ⟨hconnects, -⟩ := connectHandler_connects hp h
  obtain ⟨log, hcalls, hlog⟩ := calls_connectHandler hp h
  have hnone : log.filterMap (Call.pushedTo t) = [] := by
    apply List.filterMap_eq_nil_iff.2
    intro c hc
    obtain ⟨entry, old, data, hl, hsession, rfl⟩ := hlog c hc
    have hold := halone.sole ⟨cn.clientId, entry.obj⟩ _
      (fun he => hne (congrArg SessionRef.clientId he)) (lock_of_lookup hl)
    exact if_neg fun he => hold (hsession.trans (congrArg some he))
  refine of_calls hcalls hnone hconnects.topicTree (fun r' cs' _ hl => ?_) halone
  by_cases hc : r'.clientId = cn.clientId
  · have hreg := (hc ▸ lock_eq_some_iff.1 hl :
      handled.state.sessionRegistry.lookup cn.clientId = _)
    rw [hconnects.client, registration] at hreg
    split_ifs at hreg with hrenews hlevel
    · obtain ⟨-, rfl⟩ := Registered.mk.inj (Option.some.inj hreg)
      refine .inr fun hs => hid ?_
      rw [expiring_eq] at hs
      exact Option.some.inj hs
    · obtain ⟨entry, hentry, he⟩ := Option.map_eq_some_iff.1 hreg
      obtain ⟨hobj, rfl⟩ := Registered.mk.inj he
      refine .inl ⟨entry.state, ?_, rfl⟩
      rw [lock_eq_some_iff, hc, hentry, ← hobj]
  · exact .inl ⟨cs', (lock_of_connects hconnects hc).symm.trans hl, rfl⟩

theorem resends (hs : Sound ms) {entry : RetransmitEntry} (h : Resends p ms entry ms') :
    Silent r t ms ms' := by
  obtain ⟨cs, packet, pub, ms₁, hr, rfl⟩ := h.spec hs
  obtain ⟨packet', hroute⟩ := hr.route
  exact (routePacket hr.isPublish.withDup hroute).trans (of_eq rfl rfl rfl)

end Silent

/-- **What goes on elsewhere leaves the transport silent.** -/
theorem Event.apply_silent (hs : Sound ms) (hat : ¬ e.At t) (hno : ¬ Concerns p r ms e)
    (h : e.apply p ms = .ok ms') : Silent r t ms ms' := by
  have hid : ∀ {id pkt}, e.arrival p ms = .packet id pkt → id ≠ t := by
    rintro id pkt harrival rfl
    have hnone := e.packetFrom_elsewhere hat h
    rw [harrival] at hnone
    simp [Arrival.packetFrom] at hnone
  refine e.apply_steps hs h (fun _ _ _ => .trans) (fun _ _ => .of_eq)
    (fun _ _ _ data harrival => .pushDataToSend (hid harrival) data)
    (fun _ _ _ hs hres => .resends hs hres) (fun _ _ _ hexpires => .sweeps hexpires.sweeps)
    (fun id old _ _ => .sweeps ((purge_sweeps _ old).trans (.forceDisconnect id)))
    ?connects ?handles
  case connects =>
    intro id pkt cn handled harrival ht hp hhandle
    refine .connects hp (hid harrival) (fun hclient => hno (.inl ?_)) hhandle
    simp only [harrival, Arrival.Concerns, if_pos ht]
    exact ⟨cn, hp, hclient⟩
  case handles =>
    intro id pkt handled harrival ht hd
    refine .dispatch (hid harrival) (fun hclient => hno (.inl ?_)) ht hd
    simp only [harrival, Arrival.Concerns, if_neg ht]
    rwa [getClientId_takeOut] at hclient

/-! ### The connection -/

/-- The transport is the client's, its session is registered, and nobody else has to do with
them. -/
structure Hosts (p : Platform) (r : SessionRef) (t : ℕ) (ms : ManageSessions) : Prop where
  reachable : Reachable p ms
  present : Present ms r.clientId t
  registered : ∃ cs, ms.lock r = some cs
  secluded : Secluded r t ms

/-- The packets inflight of a session. -/
def ManageSessions.inflightOf (ms : ManageSessions) (r : SessionRef) : Inflight :=
  ((ms.lock r).map ClientSession.inflight).getD ∅

theorem inflightOf_of_lock (h : ms.lock r = some cs) : ms.inflightOf r = cs.inflight := by
  unfold ManageSessions.inflightOf
  rw [h]
  rfl

theorem Hosts.serves (h : Hosts p r t ms) : ∃ cs, Serves ms t r cs := by
  obtain ⟨cs, hl⟩ := h.registered
  obtain ⟨fd, hsocket, -⟩ := h.present
  refine ⟨cs, ?_, hl⟩
  rw [getClientId_eq, hsocket]
  rfl

theorem Hosts.lockTransport (h : Hosts p r t ms) : ms.lockTransport (some t) = some t := by
  obtain ⟨fd, hsocket, hfd⟩ := h.present
  exact lockTransport_eq_some_iff.2 ⟨rfl, fd, _, hsocket, .inl hfd⟩

/-- Others leave the session as it is, but for the time it is to expire. -/
theorem Event.apply_registered (hr : Reachable p ms) (hu : ms.topicTree.Unsubscribed r)
    (hl : ms.lock r = some cs) (hno : ¬ Concerns p r ms e) (h : e.apply p ms = .ok ms') :
    ∃ expiryMs, ms'.lock r = some { cs with expiryMs } := by
  obtain ⟨log, hisolated⟩ := e.apply_aside hr.sound hno h
  obtain ⟨log', hevolves⟩ := (e.apply_change hr.sound h).evolves
  obtain rfl := List.append_cancel_left (hisolated.calls.symm.trans hevolves.calls)
  have hnone : ∀ c ∈ log, c.receiver ≠ some r := by
    intro c hc hreceiver
    rcases hevolves.receivers c hc r hreceiver with hnot | hself
    · exact hnot hu
    · exact Event.subscriber_ne hno hself
  obtain ⟨expiryMs, hl'⟩ := hisolated.session cs hl
  rw [ClientSession.foldl_receives_of_ne hnone] at hl'
  exact ⟨expiryMs, hl'⟩

/-- **What goes on elsewhere does not touch the connection**, as long as it stays open. -/
theorem Hosts.elsewhere (h : Hosts p r t ms) (hat : ¬ e.At t) (hno : ¬ Concerns p r ms e)
    (happly : e.apply p ms = .ok ms') (hpresent : Present ms' r.clientId t) :
    Hosts p r t ms' ∧ ms'.inflightOf r = ms.inflightOf r ∧ ms'.output t = ms.output t := by
  obtain ⟨cs, hl⟩ := h.registered
  obtain ⟨expiryMs, hl'⟩ := Event.apply_registered h.reachable h.secluded.unsubscribed hl hno happly
  obtain ⟨hsecluded, houtput⟩ := Event.apply_silent h.reachable.sound hat hno happly h.secluded
  refine ⟨⟨h.reachable.step happly, hpresent, ⟨_, hl'⟩, hsecluded⟩, ?_, houtput⟩
  rw [inflightOf_of_lock hl, inflightOf_of_lock hl']

/-- Steps that change neither sessions nor sockets, and call nothing. -/
theorem Hosts.of_tables (h : Hosts p r t ms) (hr : Reachable p ms')
    (hreg : ms'.sessionRegistry = ms.sessionRegistry) (hcalls : ms'.calls = ms.calls)
    (htree : ms'.topicTree = ms.topicTree) (hsocket : ms'.socketOf = ms.socketOf)
    (hsessions : ms'.sessions = ms.sessions) :
    Hosts p r t ms' ∧ ms'.inflightOf r = ms.inflightOf r ∧ ms'.output t = ms.output t := by
  have hlock := lock_congr hreg r
  obtain ⟨hsecluded, houtput⟩ := (Silent.of_eq hreg hcalls htree : Silent r t ms ms') h.secluded
  refine ⟨⟨hr, ?_, ?_, hsecluded⟩, ?_, houtput⟩
  · unfold Present
    rw [hsocket, hsessions]
    exact h.present
  · rw [hlock]
    exact h.registered
  · unfold ManageSessions.inflightOf
    rw [hlock]

/-- A read of the transport. -/
theorem Hosts.receive (h : Hosts p r t ms) {data : Bytes}
    (happly : Event.apply p (.receive t data) ms = .ok ms') :
    Hosts p r t ms' ∧ ms'.inflightOf r = ms.inflightOf r ∧ ms'.output t = ms.output t := by
  have hr := h.reachable.step happly
  simp only [Event.apply, h.lockTransport] at happly
  obtain rfl := Except.ok.inj happly
  have hsocket := (Calm.setTransport t fun _ => ⟨rfl, rfl⟩ : Calm none [] ms
    (setTransport t (fun transport => { transport with recvBuff := transport.recvBuff ++ data })
      ms)).socketOf
  exact h.of_tables hr (by rw [setTransport_eq]) (by rw [setTransport_eq]) (by rw [setTransport_eq])
    hsocket (by rw [setTransport_eq])

/-- **A client that connects is hosted**, if it is new, and nobody is served on its transport. -/
theorem hosts_of_connect (hr : Reachable p ms) (hkind : e.kind p ms = .connect t cn)
    (hlevel : cn.level = 4) (hnew : ms.sessionRegistry.lookup cn.clientId = none)
    {clientId : Bytes} (hopen : Present ms clientId t)
    (hfree : ∀ r' cs', ms.lock r' = some cs' → cs'.session ≠ some t)
    (h : e.apply p ms = .ok ms') : Hosts p ⟨cn.clientId, ms.nextObj⟩ t ms' ∧
      ms'.inflightOf ⟨cn.clientId, ms.nextObj⟩ = ∅ := by
  have hr' := hr.step h
  have hchange := e.apply_change hr.sound h
  rw [hkind] at hchange
  obtain ⟨ms₁, tasks, hconnects, rfl⟩ := hchange
  set buff := packConnack (connackFor cn ms)
  have hregistry : (finishConnect cn t buff ms₁).sessionRegistry = ms₁.sessionRegistry := by
    rw [finishConnect_eq]
  have htree : (finishConnect cn t buff ms₁).topicTree = ms.topicTree := by
    rw [finishConnect_eq]
    exact hconnects.topicTree
  have hrenews : Renews ms cn := .inl hnew
  have hregistered : (finishConnect cn t buff ms₁).lock ⟨cn.clientId, ms.nextObj⟩ =
      some (newSession cn t ms.now).expiring := by
    rw [lock_eq_some_iff, hregistry, hconnects.client, registration, if_pos hrenews, if_pos hlevel]
  refine ⟨⟨hr', ?_, ⟨_, hregistered⟩, ?_, ?_⟩, ?_⟩
  · obtain ⟨fd, hsocket, hfd⟩ := hopen
    have hevicted : evictedBy cn ms = ms.sessions := by
      unfold evictedBy
      rw [hnew]
    refine ⟨fd, ?_, ?_⟩
    · show (finishConnect cn t buff ms₁).socketOf t = _
      rw [socketOf_finishConnect hconnects hlevel, if_pos rfl, hsocket]
      rfl
    · show (finishConnect cn t buff ms₁).sessions.lookup fd = some t
      rw [hconnects.sessions_finishConnect hlevel, hevicted]
      exact hfd
  · show (finishConnect cn t buff ms₁).topicTree.Unsubscribed _
    rw [htree]
    by_contra hsub
    exact lt_irrefl _ (hr.allocated.subscribed _ hsub)
  · intro r' cs' hne hl'
    have hl₁ : ms₁.lock r' = some cs' := (lock_congr hregistry r').symm.trans hl'
    by_cases hc : r'.clientId = cn.clientId
    · refine absurd ?_ hne
      have hreg := (hc ▸ lock_eq_some_iff.1 hl₁ : ms₁.sessionRegistry.lookup cn.clientId = _)
      rw [hconnects.client, registration, if_pos hrenews, if_pos hlevel] at hreg
      obtain ⟨clientId', obj'⟩ := r'
      exact congrArg₂ SessionRef.mk hc (Registered.mk.inj (Option.some.inj hreg)).1.symm
    · exact hfree r' cs' ((lock_of_connects hconnects hc).symm.trans hl₁)
  · refine (inflightOf_of_lock hregistered).trans ?_
    rw [expiring_eq]
    rfl

end Culex
