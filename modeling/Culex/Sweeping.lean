import Culex.KeepAlive
import Culex.Objects

/-!
# The sweep among CONNECTs

`processExpiredSessions` holds its lock while it collects the sessions that have expired.  It then
closes the transport of each and takes the client out of the registry, without a lock in between.
`sweepStep` has these as steps, with complete CONNECTs of any clients between them.

* `run_of_processExpiredSessions`: without CONNECTs the steps do what the sweep does in one step;
* `Undisturbed`: no client gets a new session while the sweep is about to take it out of the
  registry for an old one, and the sweep comes to no session that has been replaced and whose
  transport a task still holds;
* `spares_of_undisturbed`: then the sweep takes out what it has found only, and who has connected
  again stays registered.
-/

namespace Culex

open ManageSessions

/-- How far the sweep is: the sessions to disconnect and those to schedule again, and the one whose
transport has been closed. -/
inductive SweepPhase
  | idle
  | visiting (toDisconnect newEntries : List SessionRef)
  | disconnected (session : SessionRef) (toDisconnect newEntries : List SessionRef)
  | done
  deriving DecidableEq

/-- The sessions, the sweep, and what has come of it: the sessions it found overdue, those that it
has taken out of the registry, and the clients that have connected again since it began. -/
structure Sweeping where
  objects : Objects
  phase : SweepPhase := .idle
  found : List SessionRef := []
  erased : List SessionRef := []
  reconnected : List Bytes := []

/-- The steps of the sweep, and what worker threads do between them: a CONNECT, and the end of a
task. -/
inductive SweepAction
  | collect
  | disconnect
  | settle
  | reschedule
  | connect (transport : ℕ) (cn : Connect)
  | endTask (transport : ℕ)

/-- The packet of a CONNECT, as far as its handler looks at it. -/
def connectPacket (cn : Connect) : Packet where
  header := { type := .connect }
  pktLen := 0
  pkt := .connect cn

section Steps

variable (p : Platform)

/-- The sessions outside the registry after a CONNECT: one that it removes has been disconnected. -/
def Objects.retained (cn : Connect) (s : Objects) : SessionRef → Option ClientSession :=
  match s.broker.sessionRegistry.lookup cn.clientId with
  | some entry =>
    if Renews s.broker cn then
      Function.update s.unregistered ⟨cn.clientId, entry.obj⟩ (some entry.state.offline)
    else s.unregistered
  | none => s.unregistered

/-- A complete CONNECT. -/
def Objects.connect (transport : ℕ) (cn : Connect) (s : Objects) : Except Fault Objects := do
  let handled ← connectHandler p (connectPacket cn) transport s.broker
  let broker ← finish (connectPacket cn) transport handled
  return { broker, unregistered := s.retained cn }

/-- Schedule the expiry of a session that is held. -/
def Objects.scheduleExpiry (session : SessionRef) (s : Objects) : Objects :=
  match s.state session with
  | some cs =>
    if cs.keepAlive = 0 then s
    else
      let expiry := expiryOf cs
      let s := s.setSession session { cs with expiryMs := expiry }
      { s with broker := { s.broker with
          expiryHeap := s.broker.expiryHeap.push p.expiryOrder ⟨expiry, session⟩ } }
  | none => s

/-- The clients that have connected again, after a CONNECT: one that is rejected has removed its
session if it was to create one. -/
def Sweeping.note (s : Sweeping) (cn : Connect) : List Bytes :=
  if s.phase = .idle then s.reconnected
  else if cn.level = 4 then cn.clientId :: s.reconnected
  else if Renews s.objects.broker cn then s.reconnected.filter (· ≠ cn.clientId)
  else s.reconnected

/-- A step of the sweep, or of a worker thread.  There is no step where the broker ends. -/
def sweepStep (a : SweepAction) (s : Sweeping) : Option Sweeping :=
  match a, s.phase with
  | .collect, .idle =>
    let ms := s.objects.broker
    match collectExpired p (ms.expiryHeap.entries.length + 1) {} ms with
    | .error _ => none
    | .ok (sweep, ms) => some { s with
        objects := { s.objects with broker := ms }
        phase := .visiting sweep.toDisconnect sweep.newEntries
        found := sweep.toDisconnect }
  | .disconnect, .visiting (session :: toDisconnect) newEntries =>
    match s.objects.state session with
    | none => none
    | some cs =>
      match s.objects.broker.lockTransport cs.session with
      | none => some { s with phase := .visiting toDisconnect newEntries }
      | some transport => some { s with
          objects := { s.objects with broker := s.objects.broker.forceDisconnect transport }
          phase := .disconnected session toDisconnect newEntries }
  | .settle, .disconnected session toDisconnect newEntries =>
    match s.objects.state session with
    | none => none
    | some cs =>
      if cs.cleansession then some { s with
        objects := s.objects.removeFromRegistry session.clientId
        phase := .visiting toDisconnect newEntries
        erased := s.erased ++ (s.objects.broker.sessionPresent session.clientId).toList }
      else some { s with
        objects := s.objects.setSession session { cs with connected := false }
        phase := .visiting toDisconnect newEntries }
  | .reschedule, .visiting [] (session :: newEntries) => some { s with
      objects := s.objects.scheduleExpiry p session
      phase := .visiting [] newEntries }
  | .reschedule, .visiting [] [] => some { s with phase := .done }
  | .connect transport cn, _ =>
    match s.objects.connect p transport cn with
    | .error _ => none
    | .ok objects => some { s with objects, reconnected := s.note cn }
  | .endTask transport, _ => some { s with
      objects := { s.objects with broker := endTask transport s.objects.broker } }
  | _, _ => none

def SweepStep (s : Sweeping) (a : SweepAction) (s' : Sweeping) : Prop := sweepStep p a s = some s'

end Steps

/-- The sweep has not begun. -/
def sweepIdle (ms : ManageSessions) : Sweeping where
  objects := { broker := ms }

/-- The session that the sweep has disconnected, and has yet to take out of the registry. -/
def Sweeping.current (s : Sweeping) : Option SessionRef :=
  match s.phase with
  | .disconnected session _ _ => some session
  | _ => none

/-- The sessions that the sweep has yet to disconnect. -/
def Sweeping.awaited (s : Sweeping) : List SessionRef :=
  match s.phase with
  | .visiting toDisconnect _ => toDisconnect
  | .disconnected _ toDisconnect _ => toDisconnect
  | _ => []

/-- No CONNECT creates a session for a client whose clean session the sweep has disconnected and has
yet to take out of the registry; and where a CONNECT has replaced a clean session that the sweep
comes to, no task holds its transport any more. -/
def Undisturbed (s : Sweeping) : SweepAction → Prop
  | .connect _ cn => cn.level = 4 → Renews s.objects.broker cn →
      ∀ session cs, s.current = some session → session.clientId = cn.clientId →
        s.objects.state session = some cs → cs.cleansession = false
  | .disconnect => ∀ session cs, s.awaited.head? = some session →
      s.objects.state session = some cs → cs.cleansession = true →
        s.objects.broker.lock session = none →
          (s.objects.broker.sessionRegistry.lookup session.clientId).isSome →
            ∀ t, cs.session = some t → t ∉ s.objects.broker.tasks
  | .collect => True
  | .settle => True
  | .reschedule => True
  | .endTask _ => True

/-- The sweep has taken out of the registry only what it found overdue, and who has connected again
is registered. -/
structure SparesOthers (s : Sweeping) : Prop where
  erased : ∀ session ∈ s.erased, session ∈ s.found
  reconnected : ∀ clientId ∈ s.reconnected,
    ∃ entry, s.objects.broker.sessionRegistry.lookup clientId = some entry

instance (s : Sweeping) : (a : SweepAction) → Decidable (Undisturbed s a)
  | .connect _ cn =>
    decidable_of_iff (cn.level = 4 → Renews s.objects.broker cn →
      s.current.all (fun session => session.clientId = cn.clientId →
        (s.objects.state session).all (fun cs => cs.cleansession = false) = true) = true) (by
      unfold Undisturbed
      simp only [Option.all_eq_true, decide_eq_true_eq]
      refine forall_congr' fun _ => forall_congr' fun _ => ⟨?_, ?_⟩
      · exact fun h session cs hr hc => h session hr hc cs
      · exact fun h session hr hc cs => h session cs hr hc)
  | .disconnect =>
    decidable_of_iff (s.awaited.head?.all (fun session =>
      (s.objects.state session).all (fun cs => cs.cleansession = true →
        s.objects.broker.lock session = none →
          (s.objects.broker.sessionRegistry.lookup session.clientId).isSome →
            cs.session.all (fun t => t ∉ s.objects.broker.tasks) = true) = true) = true) (by
      unfold Undisturbed
      simp only [Option.all_eq_true, decide_eq_true_eq]
      exact ⟨fun h session cs hr => h session hr cs, fun h session hr cs => h session cs hr⟩)
  | .collect => .isTrue trivial
  | .settle => .isTrue trivial
  | .reschedule => .isTrue trivial
  | .endTask _ => .isTrue trivial

/-! ### The sweep by itself -/

section Serial

variable {p : Platform} {s : Sweeping} {ms ms' : ManageSessions} {session : SessionRef}
  {cs : ClientSession} {toDisconnect newEntries : List SessionRef}

/-- The sessions that are found are registered, connected and overdue. -/
theorem overdue_of_collectExpired {rounds : ℕ} {sweep : Sweep}
    (h : collectExpired p rounds {} ms = .ok (sweep, ms')) (hr : session ∈ sweep.toDisconnect) :
    ∃ cs, ms.lock session = some cs ∧ cs.connected = true ∧ expiryOf cs ≤ ms.now := by
  obtain ⟨popped, heap, -, -, hdisconnect, -⟩ := collectExpired_collects h
  rw [hdisconnect, List.nil_append] at hr
  exact lapsed_eq_true_iff.1 (List.mem_filter.1 hr).2

/-- Disconnecting a session that is registered. -/
theorem run_of_disconnectExpired
    (hphase : s.phase = .visiting (session :: toDisconnect) newEntries)
    (hl : s.objects.broker.lock session = some cs) :
    ∃ actions s', Run (SweepStep p) s actions s' ∧ s'.phase = .visiting toDisconnect newEntries ∧
      s'.objects.broker = s.objects.broker.disconnectExpired session := by
  have hcs := Objects.state_of_lock hl
  cases halive : s.objects.broker.lockTransport cs.session with
  | none =>
    refine ⟨[.disconnect], { s with phase := .visiting toDisconnect newEntries },
      .snoc .nil ?_, rfl, (disconnectExpired_dead hl halive).symm⟩
    unfold SweepStep sweepStep
    simp only [hphase, hcs, halive]
  | some transport =>
    have hl₁ := (lock_forceDisconnect transport).trans hl
    let s₁ : Sweeping := { s with
      objects := { s.objects with broker := s.objects.broker.forceDisconnect transport }
      phase := .disconnected session toDisconnect newEntries }
    have hfirst : SweepStep p s .disconnect s₁ := by
      unfold SweepStep sweepStep
      simp only [hphase, hcs, halive]
      rfl
    have hcs₁ : s₁.objects.state session = some cs := Objects.state_of_lock hl₁
    rw [disconnectExpired_alive hl halive]
    by_cases hclean : cs.cleansession = true
    · refine ⟨[.disconnect, .settle], { s₁ with
          objects := s₁.objects.removeFromRegistry session.clientId
          phase := .visiting toDisconnect newEntries
          erased := s₁.erased ++ (s₁.objects.broker.sessionPresent session.clientId).toList },
        .cons (.snoc .nil ?_) hfirst, rfl, ?_⟩
      · unfold SweepStep sweepStep
        simp only [s₁, hcs₁, if_pos hclean]
      · rw [if_pos hclean]
        rfl
    · refine ⟨[.disconnect, .settle], { s₁ with
          objects := s₁.objects.setSession session { cs with connected := false }
          phase := .visiting toDisconnect newEntries }, .cons (.snoc .nil ?_) hfirst, rfl, ?_⟩
      · unfold SweepStep sweepStep
        simp only [s₁, hcs₁, if_neg hclean]
      · rw [if_neg hclean]
        unfold Objects.setSession
        simp only [s₁, hl₁]
        rfl

/-- Disconnecting them all. -/
theorem run_of_foldl_disconnectExpired (hphase : s.phase = .visiting toDisconnect newEntries)
    (hregistered : ∀ r ∈ toDisconnect, ∃ cs, s.objects.broker.lock r = some cs)
    (hnodup : toDisconnect.Nodup) :
    ∃ actions s', Run (SweepStep p) s actions s' ∧ s'.phase = .visiting [] newEntries ∧
      s'.objects.broker = toDisconnect.foldl disconnectExpired s.objects.broker := by
  induction toDisconnect generalizing s with
  | nil => exact ⟨[], s, .nil, hphase, rfl⟩
  | cons session toDisconnect ih =>
    rw [List.nodup_cons] at hnodup
    obtain ⟨cs, hl⟩ := hregistered session List.mem_cons_self
    obtain ⟨actions₁, s₁, hrun₁, hphase₁, hbroker₁⟩ := run_of_disconnectExpired (p := p) hphase hl
    have hregistered₁ : ∀ r ∈ toDisconnect, ∃ cs, s₁.objects.broker.lock r = some cs := by
      intro r hr
      obtain ⟨cs', hl'⟩ := hregistered r (List.mem_cons_of_mem _ hr)
      have hne : r ≠ session := fun he => hnodup.1 (he ▸ hr)
      rw [hbroker₁, lock_disconnectExpired_ne hne]
      exact ⟨cs', hl'⟩
    obtain ⟨actions₂, s₂, hrun₂, hphase₂, hbroker₂⟩ := ih hphase₁ hregistered₁ hnodup.2
    refine ⟨actions₁ ++ actions₂, s₂, hrun₁.append hrun₂, hphase₂, ?_⟩
    rw [hbroker₂, hbroker₁]
    rfl

/-- Scheduling a session that is registered. -/
theorem broker_scheduleExpiry {s : Objects} (hl : s.broker.lock session = some cs) :
    (s.scheduleExpiry p session).broker = scheduleExpiry p session s.broker := by
  unfold Objects.scheduleExpiry ManageSessions.scheduleExpiry
  rw [Objects.state_of_lock hl, hl]
  simp only
  split_ifs
  · rfl
  · unfold Objects.setSession
    rw [hl]

/-- Scheduling them all, and the end of the sweep. -/
theorem run_of_foldl_scheduleExpiry (hphase : s.phase = .visiting [] newEntries)
    (hregistered : ∀ r ∈ newEntries, ∃ cs, s.objects.broker.lock r = some cs) :
    ∃ actions s', Run (SweepStep p) s actions s' ∧ s'.phase = .done ∧ s'.objects.broker =
      newEntries.foldl (fun ms r => scheduleExpiry p r ms) s.objects.broker := by
  induction newEntries generalizing s with
  | nil =>
    refine ⟨[.reschedule], { s with phase := .done }, .snoc .nil ?_, rfl, rfl⟩
    unfold SweepStep sweepStep
    simp only [hphase]
  | cons session newEntries ih =>
    obtain ⟨cs, hl⟩ := hregistered session List.mem_cons_self
    let s₁ : Sweeping := { s with
      objects := s.objects.scheduleExpiry p session
      phase := .visiting [] newEntries }
    have hfirst : SweepStep p s .reschedule s₁ := by
      unfold SweepStep sweepStep
      simp only [hphase]
      rfl
    have hbroker : s₁.objects.broker = scheduleExpiry p session s.objects.broker :=
      broker_scheduleExpiry hl
    have hregistered₁ : ∀ r ∈ newEntries, ∃ cs, s₁.objects.broker.lock r = some cs := by
      intro r hr
      obtain ⟨cs', hl'⟩ := hregistered r (List.mem_cons_of_mem _ hr)
      rw [hbroker, lock_scheduleExpiry]
      split_ifs with he
      · exact ⟨cs.expiring, by rw [hl, Option.map_some]⟩
      · exact ⟨cs', hl'⟩
    obtain ⟨actions, s₂, hrun, hphase₂, hbroker₂⟩ := ih rfl hregistered₁
    refine ⟨.reschedule :: actions, s₂, hrun.cons hfirst, hphase₂, ?_⟩
    rw [hbroker₂, hbroker]
    rfl

/-- **The steps without a CONNECT between them do what the sweep does.** -/
theorem run_of_processExpiredSessions (hreach : Reachable p ms)
    (h : ms.processExpiredSessions p = .ok ms') :
    ∃ actions s, Run (SweepStep p) (sweepIdle ms) actions s ∧ s.phase = .done ∧
      s.objects.broker = ms' := by
  unfold processExpiredSessions at h
  obtain ⟨⟨sweep, ms₁⟩, hcollect, h⟩ := except_bind_eq_ok.1 h
  obtain rfl := Except.ok.inj h
  obtain ⟨popped, heap, hcollects, rfl, hdisconnect, hnew⟩ := collectExpired_collects hcollect
  rw [List.nil_append] at hdisconnect hnew
  let s₁ : Sweeping := { sweepIdle ms with
    objects := { broker := { ms with expiryHeap := heap } }
    phase := .visiting sweep.toDisconnect sweep.newEntries
    found := sweep.toDisconnect }
  have hfirst : SweepStep p (sweepIdle ms) .collect s₁ := by
    unfold SweepStep sweepStep
    simp only [sweepIdle, hcollect]
    rfl
  have hnodup : sweep.toDisconnect.Nodup := by
    rw [hdisconnect]
    exact hreach.timed.nodup_toDisconnect hcollects
  have hfound : ∀ r ∈ sweep.toDisconnect, ∃ cs, s₁.objects.broker.lock r = some cs := by
    intro r hr
    obtain ⟨cs, hl, -, -⟩ := overdue_of_collectExpired hcollect hr
    exact ⟨cs, hl⟩
  obtain ⟨actions₂, s₂, hrun₂, hphase₂, hbroker₂⟩ :=
    run_of_foldl_disconnectExpired (p := p) rfl hfound hnodup
  have hregistered : ∀ r ∈ sweep.newEntries, ∃ cs, s₂.objects.broker.lock r = some cs := by
    intro r hr
    rw [hnew] at hr
    obtain ⟨cs, hl, hlt⟩ := fresh_eq_true_iff.1 (List.mem_filter.1 hr).2
    -- a session that is scheduled again is not disconnected
    have hnot : r ∉ sweep.toDisconnect := by
      intro hr'
      obtain ⟨cs', hl', -, hle⟩ := overdue_of_collectExpired hcollect hr'
      obtain rfl := Option.some.inj (hl.symm.trans hl')
      exact absurd hle (not_le.2 hlt)
    rw [hbroker₂, lock_foldl_disconnectExpired_not_mem hnot]
    exact ⟨cs, hl⟩
  obtain ⟨actions₃, s₃, hrun₃, hphase₃, hbroker₃⟩ := run_of_foldl_scheduleExpiry hphase₂ hregistered
  refine ⟨.collect :: (actions₂ ++ actions₃), s₃, (hrun₂.append hrun₃).cons hfirst, hphase₃, ?_⟩
  rw [hbroker₃, hbroker₂]

end Serial

/-! ### A CONNECT -/

namespace Objects

variable {p : Platform} {s s' : Objects} {t : ℕ} {cn : Connect} {r : SessionRef}
  {cs cs' : ClientSession}

/-- Closing the transport of a client's session closes it. -/
theorem inTable_of_evictedBy {ms ms' : ManageSessions} {id : ℕ}
    (hsocket : ms'.socketOf = ms.socketOf) (hsessions : ms'.sessions = evictedBy cn ms)
    (h : InTable ms' id) : InTable ms id ∧
      ∀ entry, ms.sessionRegistry.lookup cn.clientId = some entry → entry.state.connected = true →
        entry.state.session ≠ some id := by
  unfold evictedBy at hsessions
  cases hl : ms.sessionRegistry.lookup cn.clientId with
  | none =>
    rw [hl] at hsessions
    exact ⟨(inTable_congr hsocket hsessions).1 h, by simp⟩
  | some entry =>
    rw [hl] at hsessions
    simp only at hsessions
    unfold evicted at hsessions
    split_ifs at hsessions with hcon
    · have hdisconnect :
          InTable (({ broker := ms } : Objects).disconnect entry.state).broker id := by
        unfold disconnect
        cases ht : ms.lockTransport entry.state.session with
        | none =>
          rw [ht] at hsessions
          exact (inTable_congr hsocket hsessions).1 h
        | some old =>
          rw [ht] at hsessions
          exact (inTable_congr (hsocket.trans socketOf_forceDisconnect.symm) hsessions).1 h
      obtain ⟨hopen, hne⟩ := inTable_of_disconnect hdisconnect
      refine ⟨hopen, fun entry' hentry _ => ?_⟩
      obtain rfl := Option.some.inj hentry
      exact hne
    · refine ⟨(inTable_congr hsocket hsessions).1 h, fun entry' hentry hcon' => ?_⟩
      obtain rfl := Option.some.inj hentry
      exact absurd hcon' hcon

/-- What a CONNECT makes of the session that its client has. -/
def taken (cn : Connect) (ms : ManageSessions) (cs : ClientSession) : ClientSession :=
  if Renews ms cn then cs.offline else resumedSession cn cs

/-- What a complete CONNECT does to the sessions that are held. -/
structure Reconnects (t : ℕ) (cn : Connect) (s s' : Objects) : Prop where
  nextObj : s'.broker.nextObj =
    if Renews s.broker cn then s.broker.nextObj + 1 else s.broker.nextObj
  others : ∀ clientId, clientId ≠ cn.clientId →
    s'.broker.sessionRegistry.lookup clientId = s.broker.sessionRegistry.lookup clientId
  client : s'.broker.sessionRegistry.lookup cn.clientId = registration cn t s.broker
  inTable : ∀ id, InTable s'.broker id → InTable s.broker id ∧
    ∀ cs, (∃ entry, s.broker.sessionRegistry.lookup cn.clientId = some entry ∧ entry.state = cs) →
      cs.connected = true → cs.session ≠ some id
  state : ∀ r, r.obj < s.broker.nextObj → s'.state r =
    if r.clientId = cn.clientId ∧ (s.broker.lock r).isSome then
      (s.state r).map (taken cn s.broker)
    else s.state r

theorem retained_of_ne (h : ∀ entry, s.broker.sessionRegistry.lookup cn.clientId = some entry →
    r ≠ ⟨cn.clientId, entry.obj⟩) : s.retained cn r = s.unregistered r := by
  unfold retained
  cases hl : s.broker.sessionRegistry.lookup cn.clientId with
  | none => rfl
  | some entry =>
    simp only
    split_ifs
    · exact Function.update_of_ne (h entry hl) _ _
    · rfl

theorem retained_self {entry : Registered}
    (hl : s.broker.sessionRegistry.lookup cn.clientId = some entry) (h : Renews s.broker cn) :
    s.retained cn ⟨cn.clientId, entry.obj⟩ = some entry.state.offline := by
  unfold retained
  rw [hl]
  simp only [if_pos h, Function.update_self]

theorem lock_eq_none_of_registration {ms : ManageSessions} (hc : r.clientId = cn.clientId)
    (hobj : r.obj < s.broker.nextObj) (hrenews : Renews s.broker cn)
    (h : ms.sessionRegistry.lookup cn.clientId = registration cn t s.broker) :
    ms.lock r = none := by
  rw [registration, if_pos hrenews] at h
  split_ifs at h
  · cases hl : ms.lock r with
    | none => rfl
    | some cs =>
      have hlookup := lock_eq_some_iff.1 hl
      rw [hc, h] at hlookup
      obtain ⟨ho, -⟩ := Registered.mk.inj (Option.some.inj hlookup)
      exact absurd ho hobj.ne'
  · exact lock_eq_none_of_lookup (hc ▸ h)

/-- An object that is not in the place of its client is not registered. -/
theorem lock_eq_none_of_obj {ms : ManageSessions} {clientId : Bytes} (hc : r.clientId = clientId)
    (h : ∀ entry, ms.sessionRegistry.lookup clientId = some entry → entry.obj ≠ r.obj) :
    ms.lock r = none := by
  by_contra hsome
  obtain ⟨cs, hcs⟩ := Option.ne_none_iff_exists'.1 hsome
  have hlookup := lock_eq_some_iff.1 hcs
  rw [hc] at hlookup
  exact h _ hlookup rfl

/-- The sessions that are held after a CONNECT. -/
theorem state_of_connects {ms : ManageSessions} (h : Connects cn t s.broker ms)
    (hobj : r.obj < s.broker.nextObj) : (ms.lock r).or (s.retained cn r) =
      if r.clientId = cn.clientId ∧ (s.broker.lock r).isSome then
        (s.state r).map (taken cn s.broker)
      else s.state r := by
  have hclient := h.client
  by_cases hself : ∃ entry, s.broker.sessionRegistry.lookup cn.clientId = some entry ∧
      r = ⟨cn.clientId, entry.obj⟩
  · -- the session of the client
    obtain ⟨entry, hl, rfl⟩ := hself
    have hl' := lock_of_lookup hl
    rw [if_pos ⟨rfl, by rw [hl']; rfl⟩, state_of_lock hl', Option.map_some]
    unfold taken
    by_cases hrenews : Renews s.broker cn
    · rw [lock_eq_none_of_registration rfl hobj hrenews hclient, if_pos hrenews,
        retained_self hl hrenews, Option.none_or]
    · rw [registration, if_neg hrenews, hl] at hclient
      rw [lock_of_lookup hclient, if_neg hrenews, Option.some_or]
  · -- another one
    rw [retained_of_ne fun entry hl he => hself ⟨entry, hl, he⟩]
    by_cases hc : r.clientId = cn.clientId
    · have hne : ∀ entry, s.broker.sessionRegistry.lookup cn.clientId = some entry →
          entry.obj ≠ r.obj := by
        rintro entry hl ho
        obtain ⟨clientId, obj⟩ := r
        exact hself ⟨entry, hl, congrArg₂ SessionRef.mk hc ho.symm⟩
      have hnone : s.broker.lock r = none := lock_eq_none_of_obj hc hne
      have hnone' : ms.lock r = none := by
        by_cases hrenews : Renews s.broker cn
        · exact lock_eq_none_of_registration hc hobj hrenews hclient
        · refine lock_eq_none_of_obj hc fun entry' hl' => ?_
          rw [registration, if_neg hrenews] at hclient
          rw [hclient] at hl'
          obtain ⟨entry, hl, rfl⟩ := Option.map_eq_some_iff.1 hl'
          exact hne entry hl
      rw [if_neg (by simp [hnone]), hnone', state_of_lock_eq_none hnone, Option.none_or]
    · rw [if_neg fun hboth => hc hboth.1, lock_of_connects h hc]
      rfl

theorem reconnects_of_connect (h : s.connect p t cn = .ok s') : Reconnects t cn s s' := by
  unfold connect at h
  obtain ⟨handled, hhandle, h⟩ := except_bind_eq_ok.1 h
  obtain ⟨broker, hfinish, h⟩ := except_bind_eq_ok.1 h
  have hp : (connectPacket cn).pkt = .connect cn := rfl
  obtain ⟨hconnects, hcode, -⟩ := connectHandler_connects hp hhandle
  rw [finish_connect hp hcode] at hfinish
  obtain rfl := Except.ok.inj hfinish
  have hbroker := finishConnect_eq cn t handled.buff handled.state
  have hlookup : ∀ clientId,
      (finishConnect cn t handled.buff handled.state).sessionRegistry.lookup clientId =
        handled.state.sessionRegistry.lookup clientId := fun clientId => by rw [hbroker]
  have hlock : ∀ r, (finishConnect cn t handled.buff handled.state).lock r =
      handled.state.lock r := fun r => lock_congr (by rw [hbroker]) r
  obtain rfl := Except.ok.inj h
  constructor
  case nextObj =>
    show (finishConnect cn t handled.buff handled.state).nextObj = _
    rw [hbroker]
    exact hconnects.nextObj
  case others => exact fun clientId hc => (hlookup clientId).trans (hconnects.others clientId hc)
  case client => exact (hlookup cn.clientId).trans hconnects.client
  case inTable =>
    intro id hid
    obtain ⟨hopen, hne⟩ := inTable_of_evictedBy hconnects.socketOf hconnects.sessions
      (inTable_of_finishConnect hid).1
    refine ⟨hopen, ?_⟩
    rintro cs ⟨entry, hl, rfl⟩
    exact hne entry hl
  case state =>
    intro r hobj
    show ((finishConnect cn t handled.buff handled.state).lock r).or (s.retained cn r) = _
    rw [hlock]
    exact state_of_connects hconnects hobj

end Objects

/-! ### The invariant -/

/-- The transport of the session is not open. -/
def Objects.Closed (s : Objects) (cs : ClientSession) : Prop :=
  ∀ t, cs.session = some t → ¬ InTable s.broker t

/-- If the session is a clean one, its client has no other session, and has not connected again. -/
def Sweeping.InPlace (s : Sweeping) (session : SessionRef) : Prop :=
  ∀ cs, s.objects.state session = some cs → cs.cleansession = true →
    session.clientId ∉ s.reconnected ∧ ∀ entry,
      s.objects.broker.sessionRegistry.lookup session.clientId = some entry →
        entry.obj = session.obj

/-- The transport of the session has been closed. -/
def Sweeping.Gone (s : Sweeping) (session : SessionRef) : Prop :=
  ∀ cs, s.objects.state session = some cs → s.objects.Closed cs

/-- What holds while the sweep goes on. -/
structure SweepSound (s : Sweeping) : Prop extends SparesOthers s where
  given : Given s.objects
  idle : s.phase = .idle → s.erased = [] ∧ s.reconnected = []
  /-- What was found is registered and connected, or has been disconnected. -/
  found : ∀ r ∈ s.found, r.obj < s.objects.broker.nextObj ∧ ∃ cs, s.objects.state r = some cs ∧
    ((s.objects.broker.lock r).isSome ∧ cs.connected = true ∨ s.objects.Closed cs)
  /-- The client of a clean session that was found has not connected again while it is
  registered. -/
  resumed : ∀ r ∈ s.found, ∀ cs, s.objects.broker.lock r = some cs → cs.cleansession = true →
    r.clientId ∉ s.reconnected
  awaited : ∀ r ∈ s.awaited, r ∈ s.found ∧ (s.InPlace r ∨ s.Gone r)
  current : ∀ r, s.current = some r → r ∈ s.found ∧ s.InPlace r ∧ s.Gone r

/-! ### Steps that keep the registry -/

/-- A step that leaves the registered sessions in their places, and none without its transport. -/
structure Objects.Stays (s s' : Objects) : Prop where
  nextObj : s'.broker.nextObj = s.broker.nextObj
  inTable : ∀ id, InTable s'.broker id → InTable s.broker id
  obj : ∀ clientId, (s'.broker.sessionRegistry.lookup clientId).map Registered.obj =
    (s.broker.sessionRegistry.lookup clientId).map Registered.obj
  isSome : ∀ r, (s'.state r).isSome = (s.state r).isSome
  state : ∀ r cs, s.state r = some cs → ∃ cs', s'.state r = some cs' ∧
    cs'.session = cs.session ∧ cs'.cleansession = cs.cleansession ∧
      (cs'.connected = cs.connected ∨ s'.Closed cs')

namespace Objects

variable {p : Platform} {s s' : Objects} {t : ℕ} {r : SessionRef} {cs cs' : ClientSession}

theorem Closed.mono (h : s.Closed cs) (htable : ∀ id, InTable s'.broker id → InTable s.broker id)
    (hsession : cs'.session = cs.session) : s'.Closed cs' :=
  fun t ht hid => h t (hsession.symm.trans ht) (htable t hid)

/-- A session that is registered is so in the place of its client. -/
theorem isSome_lock (ms : ManageSessions) (r : SessionRef) : (ms.lock r).isSome =
    ((ms.sessionRegistry.lookup r.clientId).map Registered.obj).any (· = r.obj) := by
  unfold lock
  cases ms.sessionRegistry.lookup r.clientId with
  | none => rfl
  | some entry =>
    simp only [Option.map_some, Option.any_some]
    split_ifs with ho
    · simp [ho]
    · simp [ho]

theorem Stays.registered (h : s.Stays s') (r : SessionRef) :
    (s'.broker.lock r).isSome = (s.broker.lock r).isSome := by
  rw [isSome_lock, isSome_lock, h.obj]

theorem Stays.lookup {clientId : Bytes} {entry : Registered} (h : s.Stays s')
    (hl : s.broker.sessionRegistry.lookup clientId = some entry) :
    ∃ entry', s'.broker.sessionRegistry.lookup clientId = some entry' ∧ entry'.obj = entry.obj := by
  have hobj := h.obj clientId
  rw [hl, Option.map_some] at hobj
  exact Option.map_eq_some_iff.1 hobj

theorem Stays.lookup_of {clientId : Bytes} {entry' : Registered} (h : s.Stays s')
    (hl : s'.broker.sessionRegistry.lookup clientId = some entry') :
    ∃ entry, s.broker.sessionRegistry.lookup clientId = some entry ∧ entry.obj = entry'.obj := by
  have hobj := h.obj clientId
  rw [hl, Option.map_some] at hobj
  exact Option.map_eq_some_iff.1 hobj.symm

theorem Stays.state_of (h : s.Stays s') (hcs' : s'.state r = some cs') :
    ∃ cs, s.state r = some cs ∧ cs'.session = cs.session ∧ cs'.cleansession = cs.cleansession := by
  have hsome := h.isSome r
  rw [hcs', Option.isSome_some] at hsome
  obtain ⟨cs, hcs⟩ := Option.isSome_iff_exists.1 hsome.symm
  obtain ⟨cs₁, hcs₁, hsession, hclean, -⟩ := h.state r cs hcs
  obtain rfl := Option.some.inj (hcs'.symm.trans hcs₁)
  exact ⟨cs, hcs, hsession, hclean⟩

theorem stays_forceDisconnect (s : Objects) (t : ℕ) :
    s.Stays { s with broker := s.broker.forceDisconnect t } := by
  have hforce : s.broker.forceDisconnect t = { s.broker with
      sessions := (s.broker.forceDisconnect t).sessions } := by
    unfold forceDisconnect
    cases s.broker.transports.lookup t <;> rfl
  have hstate : ∀ r, ({ s with broker := s.broker.forceDisconnect t } : Objects).state r =
      s.state r := by
    intro r
    unfold Objects.state
    simp only [lock_forceDisconnect]
  constructor
  case nextObj =>
    show (s.broker.forceDisconnect t).nextObj = _
    rw [hforce]
  case inTable => exact fun id => inTable_of_forceDisconnect
  case obj => exact fun clientId => by simp only [forceDisconnect_sessionRegistry]
  case isSome => exact fun r => by rw [hstate]
  case state => exact fun r cs hcs => ⟨cs, (hstate r).trans hcs, rfl, rfl, .inl rfl⟩

/-- A session that is changed in place, and keeps its transport. -/
theorem stays_setSession (hcs : s.state r = some cs) (hsession : cs'.session = cs.session)
    (hclean : cs'.cleansession = cs.cleansession)
    (hconnected : cs'.connected = cs.connected ∨ s.Closed cs) : s.Stays (s.setSession r cs') := by
  have htable : ∀ id, InTable (s.setSession r cs').broker id → InTable s.broker id :=
    fun id => Objects.inTable_setSession.1
  constructor
  case nextObj => exact nextObj_setSession
  case inTable => exact htable
  case obj =>
    intro clientId
    unfold Objects.setSession
    cases hl : s.broker.lock r with
    | none => rfl
    | some cs₀ =>
      simp only
      rw [lookup_setSession hl]
      split_ifs with hc
      · rw [hc, lock_eq_some_iff.1 hl]
        rfl
      · rfl
  case isSome =>
    intro r'
    rw [state_setSession]
    split_ifs with he
    · rw [he, hcs]
      rfl
    · rfl
  case state =>
    intro r' cs₁ hcs₁
    by_cases he : r' = r
    · subst he
      obtain rfl := Option.some.inj (hcs.symm.trans hcs₁)
      exact ⟨cs', state_setSession.trans (if_pos rfl), hsession, hclean,
        hconnected.imp_right fun hclosed => hclosed.mono htable hsession⟩
    · exact ⟨cs₁, (state_setSession.trans (if_neg he)).trans hcs₁, rfl, rfl, .inl rfl⟩

theorem Stays.refl (s : Objects) : s.Stays s :=
  ⟨rfl, fun _ h => h, fun _ => rfl, fun _ => rfl, fun _ cs h => ⟨cs, h, rfl, rfl, .inl rfl⟩⟩

theorem stays_endTask (s : Objects) (t : ℕ) :
    s.Stays { s with broker := endTask t s.broker } :=
  ⟨rfl, fun _ h => h, fun _ => rfl, fun _ => rfl, fun _ cs h => ⟨cs, h, rfl, rfl, .inl rfl⟩⟩

theorem stays_scheduleExpiry (s : Objects) (r : SessionRef) : s.Stays (s.scheduleExpiry p r) := by
  unfold Objects.scheduleExpiry
  cases hcs : s.state r with
  | none => exact .refl s
  | some cs =>
    simp only
    split_ifs
    · exact .refl s
    · -- the heap is no part of what is kept
      have hset : s.Stays (s.setSession r { cs with expiryMs := expiryOf cs }) :=
        stays_setSession hcs rfl rfl (.inl rfl)
      exact ⟨hset.nextObj, hset.inTable, hset.obj, hset.isSome, hset.state⟩

end Objects

section Invariant

variable {p : Platform} {s s' : Sweeping} {objects : Objects} {r : SessionRef}

theorem Sweeping.InPlace.stay (h : s.InPlace r) (hs : s.objects.Stays objects) :
    ({ s with objects } : Sweeping).InPlace r := by
  intro cs' hcs' hclean'
  obtain ⟨cs, hcs, -, hclean⟩ := hs.state_of hcs'
  obtain ⟨hnot, hplace⟩ := h cs hcs (hclean.symm.trans hclean')
  refine ⟨hnot, fun entry' hl' => ?_⟩
  obtain ⟨entry, hl, hobj⟩ := hs.lookup_of hl'
  exact hobj.symm.trans (hplace entry hl)

theorem Sweeping.Gone.stay (h : s.Gone r) (hs : s.objects.Stays objects) :
    ({ s with objects } : Sweeping).Gone r := by
  intro cs' hcs'
  obtain ⟨cs, hcs, hsession, -⟩ := hs.state_of hcs'
  exact (h cs hcs).mono hs.inTable hsession

/-- Such a step keeps the invariant. -/
theorem SweepSound.stay (h : SweepSound s) (hs : s.objects.Stays objects) :
    SweepSound { s with objects } := by
  constructor
  case toSparesOthers =>
    refine ⟨h.erased, fun clientId hmem => ?_⟩
    obtain ⟨entry, hl⟩ := h.reconnected clientId hmem
    obtain ⟨entry', hl', -⟩ := hs.lookup hl
    exact ⟨entry', hl'⟩
  case given => exact h.given.of_registered hs.registered hs.nextObj.ge
  case idle => exact h.idle
  case found =>
    intro r hr
    obtain ⟨hobj, cs, hcs, hor⟩ := h.found r hr
    obtain ⟨cs', hcs', hsession, -, hcon⟩ := hs.state r cs hcs
    refine ⟨hs.nextObj ▸ hobj, cs', hcs', ?_⟩
    rcases hcon with hcon | hclosed
    · rcases hor with ⟨hregistered, hcon₀⟩ | hclosed
      · exact .inl ⟨(hs.registered r).trans hregistered, hcon.trans hcon₀⟩
      · exact .inr (hclosed.mono hs.inTable hsession)
    · exact .inr hclosed
  case resumed =>
    intro r hr cs' hl' hclean'
    obtain ⟨cs, hcs, -, hclean⟩ := hs.state_of (Objects.state_of_lock hl')
    have hregistered := hs.registered r
    rw [hl', Option.isSome_some] at hregistered
    obtain ⟨cs₀, hl⟩ := Option.isSome_iff_exists.1 hregistered.symm
    obtain rfl := Option.some.inj ((Objects.state_of_lock hl).symm.trans hcs)
    exact h.resumed r hr _ hl (hclean.symm.trans hclean')
  case awaited =>
    intro r hr
    obtain ⟨hfound, hor⟩ := h.awaited r hr
    exact ⟨hfound, hor.imp (·.stay hs) (·.stay hs)⟩
  case current =>
    intro r hr
    obtain ⟨hfound, hplace, hgone⟩ := h.current r hr
    exact ⟨hfound, hplace.stay hs, hgone.stay hs⟩

/-- The steps, by what they find. -/
inductive SweepMoves (p : Platform) (s : Sweeping) : SweepAction → Sweeping → Prop
  | collect {sweep : Sweep} {ms : ManageSessions} (hphase : s.phase = .idle)
      (h : collectExpired p (s.objects.broker.expiryHeap.entries.length + 1) {} s.objects.broker =
        .ok (sweep, ms)) :
      SweepMoves p s .collect { s with
        objects := { s.objects with broker := ms }
        phase := .visiting sweep.toDisconnect sweep.newEntries
        found := sweep.toDisconnect }
  | skip {session : SessionRef} {toDisconnect newEntries : List SessionRef}
      (hphase : s.phase = .visiting (session :: toDisconnect) newEntries) :
      SweepMoves p s .disconnect { s with phase := .visiting toDisconnect newEntries }
  | disconnect {session : SessionRef} {toDisconnect newEntries : List SessionRef}
      {cs : ClientSession} {transport : ℕ}
      (hphase : s.phase = .visiting (session :: toDisconnect) newEntries)
      (hcs : s.objects.state session = some cs)
      (halive : s.objects.broker.lockTransport cs.session = some transport) :
      SweepMoves p s .disconnect { s with
        objects := { s.objects with broker := s.objects.broker.forceDisconnect transport }
        phase := .disconnected session toDisconnect newEntries }
  | remove {session : SessionRef} {toDisconnect newEntries : List SessionRef} {cs : ClientSession}
      (hphase : s.phase = .disconnected session toDisconnect newEntries)
      (hcs : s.objects.state session = some cs) (hclean : cs.cleansession = true) :
      SweepMoves p s .settle { s with
        objects := s.objects.removeFromRegistry session.clientId
        phase := .visiting toDisconnect newEntries
        erased := s.erased ++ (s.objects.broker.sessionPresent session.clientId).toList }
  | offline {session : SessionRef} {toDisconnect newEntries : List SessionRef} {cs : ClientSession}
      (hphase : s.phase = .disconnected session toDisconnect newEntries)
      (hcs : s.objects.state session = some cs) :
      SweepMoves p s .settle { s with
        objects := s.objects.setSession session { cs with connected := false }
        phase := .visiting toDisconnect newEntries }
  | reschedule {session : SessionRef} {newEntries : List SessionRef}
      (hphase : s.phase = .visiting [] (session :: newEntries)) :
      SweepMoves p s .reschedule { s with
        objects := s.objects.scheduleExpiry p session
        phase := .visiting [] newEntries }
  | finish (hphase : s.phase = .visiting [] []) :
      SweepMoves p s .reschedule { s with phase := .done }
  | connect {transport : ℕ} {cn : Connect} {objects : Objects}
      (h : s.objects.connect p transport cn = .ok objects) :
      SweepMoves p s (.connect transport cn) { s with objects, reconnected := s.note cn }
  | endTask {transport : ℕ} :
      SweepMoves p s (.endTask transport) { s with
        objects := { s.objects with broker := Culex.endTask transport s.objects.broker } }

/-- **The cases of a step.** -/
theorem sweepMoves_of_sweepStep {a : SweepAction} (h : SweepStep p s a s') :
    SweepMoves p s a s' := by
  unfold SweepStep sweepStep at h
  split at h
  · next hphase =>
    simp only at h
    split at h
    · cases h
    · next hcollect =>
      obtain rfl := Option.some.inj h
      exact .collect hphase hcollect
  · next hphase =>
    split at h
    · cases h
    · next hcs =>
      split at h
      · obtain rfl := Option.some.inj h
        exact .skip hphase
      · next halive =>
        obtain rfl := Option.some.inj h
        exact .disconnect hphase hcs halive
  · next hphase =>
    split at h
    · cases h
    · next hcs =>
      split_ifs at h with hclean
      · obtain rfl := Option.some.inj h
        exact .remove hphase hcs hclean
      · obtain rfl := Option.some.inj h
        exact .offline hphase hcs
  · next hphase =>
    obtain rfl := Option.some.inj h
    exact .reschedule hphase
  · next hphase =>
    obtain rfl := Option.some.inj h
    exact .finish hphase
  · split at h
    · cases h
    · next hconnect =>
      obtain rfl := Option.some.inj h
      exact .connect hconnect
  · obtain rfl := Option.some.inj h
    exact .endTask
  · cases h

/-! ### The sweep keeps the invariant -/

/-- What is found when the sweep begins: sessions that are registered and connected, and overdue. -/
theorem SweepSound.collect {sweep : Sweep} {ms : ManageSessions} (h : SweepSound s)
    (hphase : s.phase = .idle)
    (hcollect : collectExpired p (s.objects.broker.expiryHeap.entries.length + 1) {}
      s.objects.broker = .ok (sweep, ms)) :
    SweepSound { s with
      objects := { s.objects with broker := ms }
      phase := .visiting sweep.toDisconnect sweep.newEntries
      found := sweep.toDisconnect } := by
  have hoverdue : ∀ r ∈ sweep.toDisconnect, ∃ cs, s.objects.broker.lock r = some cs ∧
      cs.connected = true ∧ expiryOf cs ≤ s.objects.broker.now :=
    fun _ hr => overdue_of_collectExpired hcollect hr
  obtain ⟨popped, heap, -, rfl, -, -⟩ := collectExpired_collects hcollect
  obtain ⟨herased, hreconnected⟩ := h.idle hphase
  constructor
  case toSparesOthers =>
    refine ⟨?_, h.reconnected⟩
    show ∀ r ∈ s.erased, _
    rw [herased]
    exact fun r hr => absurd hr List.not_mem_nil
  case given => exact h.given
  case idle => exact fun hidle => by cases hidle
  case found =>
    intro r hr
    obtain ⟨cs, hl, hcon, -⟩ := hoverdue r hr
    exact ⟨h.given r cs hl, cs, Objects.state_of_lock hl, .inl ⟨by
      show (s.objects.broker.lock r).isSome
      rw [hl]
      rfl, hcon⟩⟩
  case resumed =>
    intro r _ cs' _ _
    show r.clientId ∉ s.reconnected
    rw [hreconnected]
    exact List.not_mem_nil
  case awaited =>
    intro r hr
    obtain ⟨cs, hl, -, -⟩ := hoverdue r hr
    refine ⟨hr, .inl fun cs' _ _ => ⟨?_, fun entry hentry => ?_⟩⟩
    · show r.clientId ∉ s.reconnected
      rw [hreconnected]
      exact List.not_mem_nil
    · obtain ⟨hobj, -⟩ := Registered.mk.inj (Option.some.inj (hentry.symm.trans
        (lock_eq_some_iff.1 hl)))
      exact hobj
  case current => exact fun r hr => by cases hr

/-- A session that the sweep disconnects is in its place. -/
theorem SweepSound.inPlace_of_undisturbed {session : SessionRef} {cs : ClientSession}
    {transport : ℕ} (h : SweepSound s) (hu : Undisturbed s .disconnect)
    (hhead : s.awaited.head? = some session) (hcs : s.objects.state session = some cs)
    (halive : s.objects.broker.lockTransport cs.session = some transport) : s.InPlace session := by
  obtain ⟨hfound, hin | hgone⟩ := h.awaited session (List.mem_of_head? hhead)
  · exact hin
  · intro cs' hcs' hclean
    obtain rfl := Option.some.inj (hcs.symm.trans hcs')
    cases hl : s.objects.broker.lock session with
    | some cs₁ =>
      -- it is registered
      obtain rfl := Option.some.inj (hcs.symm.trans (Objects.state_of_lock hl))
      refine ⟨h.resumed session hfound _ hl hclean, fun entry hentry => ?_⟩
      obtain ⟨hobj, -⟩ := Registered.mk.inj (Option.some.inj (hentry.symm.trans
        (lock_eq_some_iff.1 hl)))
      exact hobj
    | none =>
      obtain ⟨hsession, fd, clientId, hsocket, hopen⟩ := lockTransport_eq_some_iff.1 halive
      have hclosed := hgone cs hcs transport hsession
      have htask : transport ∈ s.objects.broker.tasks :=
        hopen.resolve_left fun hfd => hclosed ⟨clientId, fd, hsocket, hfd⟩
      -- so nothing is registered in its place
      have hnone : s.objects.broker.sessionRegistry.lookup session.clientId = none := by
        by_contra hsome
        exact hu session cs hhead hcs hclean hl (Option.isSome_iff_ne_none.2 hsome) transport
          hsession htask
      refine ⟨fun hmem => ?_, fun entry hentry => by cases hnone.symm.trans hentry⟩
      obtain ⟨entry, hentry⟩ := h.reconnected _ hmem
      cases hnone.symm.trans hentry

/-- The phase moves on, and no session is current. -/
theorem SweepSound.visit {toDisconnect newEntries : List SessionRef} (h : SweepSound s)
    (hsub : ∀ r ∈ toDisconnect, r ∈ s.awaited) :
    SweepSound { s with phase := .visiting toDisconnect newEntries } where
  erased := h.erased
  reconnected := h.reconnected
  given := h.given
  idle hidle := by cases hidle
  found := h.found
  resumed := h.resumed
  awaited r hr := h.awaited r (hsub r hr)
  current r hr := by cases hr

theorem awaited_visiting {toDisconnect newEntries : List SessionRef}
    (hphase : s.phase = .visiting toDisconnect newEntries) : s.awaited = toDisconnect := by
  unfold Sweeping.awaited
  rw [hphase]

theorem awaited_disconnected {session : SessionRef} {toDisconnect newEntries : List SessionRef}
    (hphase : s.phase = .disconnected session toDisconnect newEntries) :
    s.awaited = toDisconnect := by
  unfold Sweeping.awaited
  rw [hphase]

theorem current_disconnected {session : SessionRef} {toDisconnect newEntries : List SessionRef}
    (hphase : s.phase = .disconnected session toDisconnect newEntries) :
    s.current = some session := by
  unfold Sweeping.current
  rw [hphase]

theorem SweepSound.disconnect {session : SessionRef} {toDisconnect newEntries : List SessionRef}
    {cs : ClientSession} {transport : ℕ} (h : SweepSound s) (hu : Undisturbed s .disconnect)
    (hphase : s.phase = .visiting (session :: toDisconnect) newEntries)
    (hcs : s.objects.state session = some cs)
    (halive : s.objects.broker.lockTransport cs.session = some transport) :
    SweepSound { s with
      objects := { s.objects with broker := s.objects.broker.forceDisconnect transport }
      phase := .disconnected session toDisconnect newEntries } := by
  have hstays := Objects.stays_forceDisconnect s.objects transport
  have hs := h.stay hstays
  have hawaited := awaited_visiting hphase
  have hhead : s.awaited.head? = some session := by
    rw [hawaited]
    rfl
  obtain ⟨hfound, -⟩ := h.awaited session (List.mem_of_head? hhead)
  have hplace := h.inPlace_of_undisturbed hu hhead hcs halive
  constructor
  case toSparesOthers => exact ⟨hs.erased, hs.reconnected⟩
  case given => exact hs.given
  case idle => exact fun hidle => by cases hidle
  case found => exact hs.found
  case resumed => exact hs.resumed
  case awaited =>
    intro r hr
    refine hs.awaited r ?_
    show r ∈ s.awaited
    rw [hawaited]
    exact List.mem_cons_of_mem _ hr
  case current =>
    intro r hr
    obtain rfl := Option.some.inj hr
    refine ⟨hfound, hplace.stay hstays, fun cs' hcs' t ht hid => ?_⟩
    obtain ⟨cs₀, hcs₀, hsession, -⟩ := hstays.state_of hcs'
    obtain rfl := Option.some.inj (hcs.symm.trans hcs₀)
    obtain ⟨htransport, -⟩ := lockTransport_eq_some_iff.1 halive
    obtain rfl := Option.some.inj ((htransport.symm.trans hsession.symm).trans ht)
    exact not_inTable_forceDisconnect hid

/-- What is taken out of the registry is the session itself, and its client has not connected
again. -/
theorem SweepSound.remove {session : SessionRef} {toDisconnect newEntries : List SessionRef}
    {cs : ClientSession} (h : SweepSound s)
    (hphase : s.phase = .disconnected session toDisconnect newEntries)
    (hcs : s.objects.state session = some cs) (hclean : cs.cleansession = true) :
    SweepSound { s with
      objects := s.objects.removeFromRegistry session.clientId
      phase := .visiting toDisconnect newEntries
      erased := s.erased ++ (s.objects.broker.sessionPresent session.clientId).toList } := by
  obtain ⟨hfound, hplace, hclosed⟩ := h.current session (current_disconnected hphase)
  obtain ⟨hnot, hobj⟩ := hplace cs hcs hclean
  have hlookup : ∀ clientId entry,
      (s.objects.removeFromRegistry session.clientId).broker.sessionRegistry.lookup clientId =
        some entry → s.objects.broker.sessionRegistry.lookup clientId = some entry := by
    intro clientId entry hl
    by_cases hc : clientId = session.clientId
    · rw [hc] at hl
      cases (AList.lookup_erase _ _).symm.trans hl
    · exact (AList.lookup_erase_ne hc).symm.trans hl
  have hstate : ∀ r, (s.objects.removeFromRegistry session.clientId).state r = s.objects.state r :=
    fun r => Objects.state_removeFromRegistry
  constructor
  case toSparesOthers =>
    constructor
    · intro r hr
      rcases List.mem_append.1 hr with hr | hr
      · exact h.erased r hr
      · obtain ⟨entry, hl, rfl⟩ := Option.map_eq_some_iff.1 (Option.mem_toList.1 hr)
        rw [hobj entry hl]
        exact hfound
    · intro clientId hmem
      obtain ⟨entry, hl⟩ := h.reconnected clientId hmem
      have hne : clientId ≠ session.clientId := fun he => hnot (he ▸ hmem)
      exact ⟨entry, (AList.lookup_erase_ne hne).trans hl⟩
  case given =>
    exact fun r cs' hl => h.given r cs' (lock_of_removeFromRegistry hl)
  case idle => exact fun hidle => by cases hidle
  case found =>
    intro r hr
    obtain ⟨hgiven, cs', hcs', hor⟩ := h.found r hr
    refine ⟨hgiven, cs', (hstate r).trans hcs', ?_⟩
    rcases hor with ⟨hregistered, hcon⟩ | hgone
    · by_cases hc : r.clientId = session.clientId
      · -- the session that is removed
        obtain ⟨cs₁, hl₁⟩ := Option.isSome_iff_exists.1 hregistered
        have hentry := lock_eq_some_iff.1 hl₁
        rw [hc] at hentry
        have ho := hobj _ hentry
        obtain rfl : r = session := by
          obtain ⟨clientId, obj⟩ := r
          exact congrArg₂ SessionRef.mk hc ho
        exact .inr (hclosed cs' hcs')
      · refine .inl ⟨?_, hcon⟩
        show ((s.objects.removeFromRegistry session.clientId).broker.lock r).isSome
        rw [Objects.lock_removeFromRegistry_of_ne hc]
        exact hregistered
    · exact .inr hgone
  case resumed =>
    exact fun r hr cs' hl' => h.resumed r hr cs' (lock_of_removeFromRegistry hl')
  case awaited =>
    intro r hr
    obtain ⟨hr', hor⟩ := h.awaited r (by rw [awaited_disconnected hphase]; exact hr)
    refine ⟨hr', hor.imp ?_ ?_⟩
    · intro hin cs' hcs' hclean'
      obtain ⟨hnot', hobj'⟩ := hin cs' ((hstate r).symm.trans hcs') hclean'
      exact ⟨hnot', fun entry hl => hobj' entry (hlookup _ _ hl)⟩
    · exact fun hgone cs' hcs' => hgone cs' ((hstate r).symm.trans hcs')
  case current => exact fun r hr => by cases hr

/-! ### A CONNECT keeps the invariant -/

variable {t : ℕ} {cn : Connect} {cs cs' : ClientSession}

/-- The client of an accepted CONNECT is registered. -/
theorem exists_registration {ms : ManageSessions} (h : cn.level = 4 ∨ ¬ Renews ms cn) :
    ∃ entry, registration cn t ms = some entry := by
  unfold registration
  by_cases hrenews : Renews ms cn
  · rw [if_pos hrenews, if_pos (h.resolve_right (not_not.2 hrenews))]
    exact ⟨_, rfl⟩
  · rw [if_neg hrenews]
    obtain ⟨entry, hl⟩ := Option.ne_none_iff_exists'.1 fun hnone => hrenews (.inl hnone)
    rw [hl]
    exact ⟨_, rfl⟩

theorem taken_session (ms : ManageSessions) (cs : ClientSession) :
    (Objects.taken cn ms cs).session = cs.session := by
  unfold Objects.taken
  split_ifs <;> rfl

/-- Where the identity of a session goes by a CONNECT. -/
theorem Objects.Reconnects.session (h : s.objects.Reconnects t cn objects)
    (hobj : r.obj < s.objects.broker.nextObj) (hcs' : objects.state r = some cs') :
    ∃ cs, s.objects.state r = some cs ∧ cs'.session = cs.session := by
  rw [h.state r hobj] at hcs'
  split_ifs at hcs'
  · obtain ⟨cs, hcs, rfl⟩ := Option.map_eq_some_iff.1 hcs'
    exact ⟨cs, hcs, taken_session _ cs⟩
  · exact ⟨cs', hcs', rfl⟩

/-- What was found of the client that connects has no open transport afterwards. -/
theorem SweepSound.closed_of_connect (h : SweepSound s)
    (hconnect : s.objects.Reconnects t cn objects) (hr : r ∈ s.found)
    (hc : r.clientId = cn.clientId) (hcs : s.objects.state r = some cs)
    (hsession : cs'.session = cs.session) : objects.Closed cs' := by
  obtain ⟨-, cs₀, hcs₀, hor⟩ := h.found r hr
  obtain rfl := Option.some.inj (hcs.symm.trans hcs₀)
  rcases hor with ⟨hregistered, hcon⟩ | hclosed
  · intro t' ht' hid
    obtain ⟨cs₁, hl₁⟩ := Option.isSome_iff_exists.1 hregistered
    obtain rfl := Option.some.inj ((Objects.state_of_lock hl₁).symm.trans hcs)
    have hentry := lock_eq_some_iff.1 hl₁
    rw [hc] at hentry
    exact (hconnect.inTable t' hid).2 cs₁ ⟨_, hentry, rfl⟩ hcon (hsession.symm.trans ht')
  · exact hclosed.mono (fun id hid => (hconnect.inTable id hid).1) hsession

/-- A CONNECT adds nobody but its client to those that have connected again. -/
theorem Sweeping.mem_of_note {clientId : Bytes} (hmem : clientId ∈ s.note cn)
    (hc : clientId ≠ cn.clientId) : clientId ∈ s.reconnected := by
  unfold note at hmem
  split_ifs at hmem
  · exact hmem
  · exact (List.mem_cons.1 hmem).resolve_left hc
  · exact (List.mem_filter.1 hmem).1
  · exact hmem

/-- Sessions of other clients stay in their places. -/
theorem Sweeping.InPlace.connect_of_ne (h : s.InPlace r)
    (hconnect : s.objects.Reconnects t cn objects) (hobj : r.obj < s.objects.broker.nextObj)
    (hc : r.clientId ≠ cn.clientId) :
    ({ s with objects, reconnected := s.note cn } : Sweeping).InPlace r := by
  intro cs' hcs' hclean
  have hstate := hconnect.state r hobj
  rw [if_neg fun hboth => hc hboth.1] at hstate
  obtain ⟨hnot, hplace⟩ := h cs' (hstate.symm.trans hcs') hclean
  exact ⟨fun hmem => hnot (Sweeping.mem_of_note hmem hc),
    fun entry hl => hplace entry ((hconnect.others _ hc).symm.trans hl)⟩

/-- So do those of the client, unless a session is created for it that is accepted. -/
theorem Sweeping.InPlace.connect (h : s.InPlace r) (hconnect : s.objects.Reconnects t cn objects)
    (hobj : r.obj < s.objects.broker.nextObj) (hphase : s.phase ≠ .idle)
    (hc : r.clientId = cn.clientId) (hnew : cn.level = 4 → ¬ Renews s.objects.broker cn) :
    ({ s with objects, reconnected := s.note cn } : Sweeping).InPlace r := by
  intro cs' hcs' hclean
  have hstate := (hconnect.state r hobj).symm.trans hcs'
  by_cases hrenews : Renews s.objects.broker cn
  · -- a rejected client has no session afterwards
    have hlevel : cn.level ≠ 4 := fun hlevel => hnew hlevel hrenews
    have hnone : objects.broker.sessionRegistry.lookup r.clientId = none := by
      rw [hc, hconnect.client]
      unfold registration
      rw [if_pos hrenews, if_neg hlevel]
    refine ⟨fun hmem => ?_, fun entry hl => by cases hnone.symm.trans hl⟩
    change r.clientId ∈ s.note cn at hmem
    unfold Sweeping.note at hmem
    rw [if_neg hphase, if_neg hlevel, if_pos hrenews] at hmem
    exact of_decide_eq_true (List.mem_filter.1 hmem).2 hc
  · -- the client resumes a session, which is no clean one any more
    have hnotclean : cn.cf.cleansession = false := by
      by_contra htrue
      exact hrenews (.inr (Bool.not_eq_false _ ▸ htrue))
    exfalso
    by_cases hregistered : (s.objects.broker.lock r).isSome
    · rw [if_pos ⟨hc, hregistered⟩] at hstate
      obtain ⟨cs, -, rfl⟩ := Option.map_eq_some_iff.1 hstate
      unfold Objects.taken at hclean
      rw [if_neg hrenews] at hclean
      cases hclean.symm.trans hnotclean
    · rw [if_neg fun hboth => hregistered hboth.2] at hstate
      obtain ⟨entry, hl⟩ := Option.ne_none_iff_exists'.1 fun hnone => hrenews (.inl hnone)
      have ho := (h cs' hstate hclean).2 entry (hc ▸ hl)
      refine hregistered ?_
      rw [Objects.isSome_lock, hc, hl]
      simp [ho]

/-- A session stays in its place, unless it is a clean one whose client gets another. -/
theorem Sweeping.InPlace.spared (h : s.InPlace r) (hconnect : s.objects.Reconnects t cn objects)
    (hobj : r.obj < s.objects.broker.nextObj) (hphase : s.phase ≠ .idle)
    (hcs : s.objects.state r = some cs)
    (hnot : ¬ (r.clientId = cn.clientId ∧ cn.level = 4 ∧ Renews s.objects.broker cn ∧
      cs.cleansession = true)) :
    ({ s with objects, reconnected := s.note cn } : Sweeping).InPlace r := by
  by_cases hc : r.clientId = cn.clientId
  · by_cases hrenews : Renews s.objects.broker cn
    · by_cases hclean : cs.cleansession = true
      · refine h.connect hconnect hobj hphase hc fun hlevel => ?_
        exact absurd ⟨hc, hlevel, hrenews, hclean⟩ hnot
      · -- a session that is no clean one does not become one
        intro cs' hcs' hclean'
        have hstate := (hconnect.state r hobj).symm.trans hcs'
        rw [hcs] at hstate
        split_ifs at hstate
        · obtain rfl := Option.some.inj hstate
          unfold Objects.taken at hclean'
          rw [if_pos hrenews] at hclean'
          exact absurd hclean' hclean
        · obtain rfl := Option.some.inj hstate
          exact absurd hclean' hclean
    · exact h.connect hconnect hobj hphase hc fun _ => hrenews
  · exact h.connect_of_ne hconnect hobj hc

theorem Sweeping.Gone.connect (h : s.Gone r) (hconnect : s.objects.Reconnects t cn objects)
    (hobj : r.obj < s.objects.broker.nextObj) :
    ({ s with objects, reconnected := s.note cn } : Sweeping).Gone r := by
  intro cs' hcs'
  obtain ⟨cs, hcs, hsession⟩ := hconnect.session hobj hcs'
  exact (h cs hcs).mono (fun id hid => (hconnect.inTable id hid).1) hsession

/-- A CONNECT leaves a session that is awaited in its place, or has closed its transport. -/
theorem SweepSound.awaited_connect (h : SweepSound s)
    (hconnect : s.objects.Reconnects t cn objects) (hr : r ∈ s.awaited) :
    ({ s with objects, reconnected := s.note cn } : Sweeping).InPlace r ∨
      ({ s with objects, reconnected := s.note cn } : Sweeping).Gone r := by
  obtain ⟨hfound, hor⟩ := h.awaited r hr
  obtain ⟨hobj, cs, hcs, -⟩ := h.found r hfound
  have hphase : s.phase ≠ .idle := by
    intro hidle
    unfold Sweeping.awaited at hr
    rw [hidle] at hr
    cases hr
  rcases hor with hin | hgone
  · by_cases hc : r.clientId = cn.clientId
    · refine .inr fun cs' hcs' => ?_
      obtain ⟨cs₀, hcs₀, hsession⟩ := hconnect.session hobj hcs'
      exact h.closed_of_connect hconnect hfound hc hcs₀ hsession
    · exact .inl (hin.connect_of_ne hconnect hobj hc)
  · exact .inr (hgone.connect hconnect hobj)

/-- One that meets the condition leaves the session in its place that the sweep has disconnected. -/
theorem SweepSound.current_connect (h : SweepSound s) (hu : Undisturbed s (.connect t cn))
    (hconnect : s.objects.Reconnects t cn objects) (hr : s.current = some r) :
    ({ s with objects, reconnected := s.note cn } : Sweeping).InPlace r := by
  obtain ⟨hfound, hin, -⟩ := h.current r hr
  obtain ⟨hobj, cs, hcs, -⟩ := h.found r hfound
  have hphase : s.phase ≠ .idle := by
    intro hidle
    unfold Sweeping.current at hr
    rw [hidle] at hr
    cases hr
  refine hin.spared hconnect hobj hphase hcs ?_
  rintro ⟨hc, hlevel, hrenews, hclean⟩
  cases hclean.symm.trans (hu hlevel hrenews r cs hr hc hcs)

/-- A clean session that is still registered belongs to another client. -/
theorem SweepSound.resumed_connect (h : SweepSound s) (hconnect : s.objects.Reconnects t cn objects)
    (hr : r ∈ s.found) (hl' : objects.broker.lock r = some cs') (hclean : cs'.cleansession = true) :
    r.clientId ∉ s.note cn := by
  obtain ⟨hobj, -⟩ := h.found r hr
  have hentry := lock_eq_some_iff.1 hl'
  by_cases hc : r.clientId = cn.clientId
  · exfalso
    rw [hc, hconnect.client] at hentry
    unfold registration at hentry
    by_cases hrenews : Renews s.objects.broker cn
    · rw [if_pos hrenews] at hentry
      split_ifs at hentry
      obtain ⟨ho, -⟩ := Registered.mk.inj (Option.some.inj hentry)
      exact absurd ho hobj.ne'
    · rw [if_neg hrenews] at hentry
      obtain ⟨entry, -, he⟩ := Option.map_eq_some_iff.1 hentry
      obtain ⟨-, rfl⟩ := Registered.mk.inj he
      exact hrenews (.inr hclean)
  · rw [hconnect.others _ hc] at hentry
    exact fun hmem => h.resumed r hr cs' (lock_eq_some_iff.2 hentry) hclean
      (Sweeping.mem_of_note hmem hc)

/-- Who is noted to have connected again is registered. -/
theorem SweepSound.reconnected_connect (h : SweepSound s)
    (hconnect : s.objects.Reconnects t cn objects) {clientId : Bytes}
    (hmem : clientId ∈ s.note cn) :
    ∃ entry, objects.broker.sessionRegistry.lookup clientId = some entry := by
  by_cases hc : clientId = cn.clientId
  · subst hc
    rw [hconnect.client]
    apply exists_registration
    by_contra hnot
    rw [not_or, not_not] at hnot
    -- a client that is rejected and loses its session is taken from the list
    unfold Sweeping.note at hmem
    rw [if_neg hnot.1, if_pos hnot.2] at hmem
    split_ifs at hmem with hphase
    · rw [(h.idle hphase).2] at hmem
      cases hmem
    · exact of_decide_eq_true (List.mem_filter.1 hmem).2 rfl
  · rw [hconnect.others clientId hc]
    exact h.reconnected clientId (Sweeping.mem_of_note hmem hc)

/-- Registered sessions have identities that have been given out. -/
theorem Given.connect {s s' : Objects} (h : Given s) (hconnect : s.Reconnects t cn s') :
    Given s' := by
  intro r cs hl
  have hentry := lock_eq_some_iff.1 hl
  rw [hconnect.nextObj]
  by_cases hc : r.clientId = cn.clientId
  · rw [hc, hconnect.client] at hentry
    unfold registration at hentry
    by_cases hrenews : Renews s.broker cn
    · rw [if_pos hrenews] at hentry ⊢
      split_ifs at hentry
      obtain ⟨hobj, -⟩ := Registered.mk.inj (Option.some.inj hentry)
      rw [← hobj]
      exact Nat.lt_succ_self _
    · rw [if_neg hrenews] at hentry ⊢
      obtain ⟨entry, hl', he⟩ := Option.map_eq_some_iff.1 hentry
      obtain ⟨hobj, -⟩ := Registered.mk.inj he
      rw [← hobj]
      exact h ⟨cn.clientId, entry.obj⟩ entry.state (lock_of_lookup hl')
  · rw [hconnect.others _ hc] at hentry
    have hlt := h r cs (lock_eq_some_iff.2 hentry)
    split_ifs
    · exact Nat.lt_succ_of_lt hlt
    · exact hlt

theorem SweepSound.connect (h : SweepSound s) (hu : Undisturbed s (.connect t cn))
    (hconnect : s.objects.Reconnects t cn objects) :
    SweepSound { s with objects, reconnected := s.note cn } := by
  constructor
  case toSparesOthers => exact ⟨h.erased, fun clientId hmem => h.reconnected_connect hconnect hmem⟩
  case given => exact h.given.connect hconnect
  case idle =>
    intro hidle
    refine ⟨(h.idle hidle).1, ?_⟩
    show s.note cn = []
    unfold Sweeping.note
    rw [if_pos hidle]
    exact (h.idle hidle).2
  case found =>
    intro r hr
    obtain ⟨hobj, cs, hcs, hor⟩ := h.found r hr
    have hnext : s.objects.broker.nextObj ≤ objects.broker.nextObj := by
      rw [hconnect.nextObj]
      split_ifs <;> omega
    have hstate := hconnect.state r hobj
    refine ⟨hobj.trans_le hnext, ?_⟩
    by_cases hc : r.clientId = cn.clientId
    · obtain ⟨cs', hcs'⟩ : ∃ cs', objects.state r = some cs' := by
        rw [hstate, hcs]
        split_ifs
        · exact ⟨_, rfl⟩
        · exact ⟨_, rfl⟩
      obtain ⟨cs₀, hcs₀, hsession⟩ := hconnect.session hobj hcs'
      exact ⟨cs', hcs', .inr (h.closed_of_connect hconnect hr hc hcs₀ hsession)⟩
    · rw [if_neg fun hboth => hc hboth.1] at hstate
      refine ⟨cs, hstate.trans hcs, hor.imp ?_ ?_⟩
      · rintro ⟨hregistered, hcon⟩
        refine ⟨?_, hcon⟩
        show (objects.broker.lock r).isSome
        rw [Objects.isSome_lock, hconnect.others _ hc, ← Objects.isSome_lock]
        exact hregistered
      · exact fun hclosed => hclosed.mono (fun id hid => (hconnect.inTable id hid).1) rfl
  case resumed => exact fun r hr cs' hl' => h.resumed_connect hconnect hr hl'
  case awaited => exact fun r hr => ⟨(h.awaited r hr).1, h.awaited_connect hconnect hr⟩
  case current =>
    intro r hr
    obtain ⟨hfound, -, hgone⟩ := h.current r hr
    obtain ⟨hobj, -⟩ := h.found r hfound
    exact ⟨hfound, h.current_connect hu hconnect hr, hgone.connect hconnect hobj⟩

/-! ### Runs -/

/-- **A step that meets the condition keeps the invariant.** -/
theorem SweepSound.step {a : SweepAction} (h : SweepSound s) (hu : Undisturbed s a)
    (hstep : SweepStep p s a s') : SweepSound s' := by
  have hmoves := sweepMoves_of_sweepStep hstep
  cases hmoves with
  | collect hphase hcollect => exact h.collect hphase hcollect
  | skip hphase =>
    refine h.visit fun r hr => ?_
    rw [awaited_visiting hphase]
    exact List.mem_cons_of_mem _ hr
  | disconnect hphase hcs halive => exact h.disconnect hu hphase hcs halive
  | remove hphase hcs hclean => exact h.remove hphase hcs hclean
  | @offline session _ _ cs hphase hcs =>
    obtain ⟨-, -, hclosed⟩ := h.current session (current_disconnected hphase)
    have hstays : s.objects.Stays (s.objects.setSession session { cs with connected := false }) :=
      Objects.stays_setSession hcs rfl rfl (.inr (hclosed cs hcs))
    refine (h.stay hstays).visit fun r hr => ?_
    show r ∈ s.awaited
    rw [awaited_disconnected hphase]
    exact hr
  | @reschedule session _ hphase =>
    exact (h.stay (Objects.stays_scheduleExpiry s.objects session)).visit fun r hr => by cases hr
  | finish hphase =>
    exact ⟨⟨h.erased, h.reconnected⟩, h.given, fun hidle => (by cases hidle), h.found, h.resumed,
      fun r hr => (by cases hr), fun r hr => (by cases hr)⟩
  | connect hconnect => exact h.connect hu (Objects.reconnects_of_connect hconnect)
  | @endTask transport => exact h.stay (Objects.stays_endTask s.objects transport)

theorem SweepSound.start {ms : ManageSessions} (h : Reachable p ms) :
    SweepSound (sweepIdle ms) where
  erased r hr := by cases hr
  reconnected clientId hmem := by cases hmem
  given r cs hl := h.allocated.registered r cs hl
  idle _ := ⟨rfl, rfl⟩
  found r hr := by cases hr
  resumed r hr := by cases hr
  awaited r hr := by cases hr
  current r hr := by cases hr

/-- **The sweep takes out of the registry what it has found overdue only, and who connects again
stays registered**, in the runs that meet the condition. -/
theorem spares_of_undisturbed {ms : ManageSessions} (hreach : Reachable p ms)
    {actions : List SweepAction}
    (hrun : Run (Meeting (SweepStep p) Undisturbed) (sweepIdle ms) actions s) : SparesOthers s := by
  have hsound : SweepSound s := by
    refine hrun.invariant (.start hreach) ?_
    rintro s₁ a s₂ hsound ⟨hu, hstep⟩
    exact hsound.step hu hstep
  exact hsound.toSparesOthers

end Invariant

/-! ### A client that connects again -/

/-- Client `A` has connected with a clean session, its keep-alive time has passed, and another
connection is there. -/
def lateClient : ManageSessions :=
  after .sorting (.newConnection 3 :: .newConnection 4 :: arrive 0 (connectFrameWith 4 1 65 2) ++
    [.tick 1500])

/-- The client connects again when the sweep has taken its session out of the registry. -/
def afterwards : List SweepAction :=
  [.collect, .disconnect, .settle, .connect 1 (connectA true), .reschedule]

theorem spares_afterwards : ∃ s,
    Run (Meeting (SweepStep .sorting) Undisturbed) (sweepIdle lateClient) afterwards s ∧
      SparesOthers s ∧ s.erased = [⟨[65], 2⟩] ∧ s.reconnected = [[65]] := by
  obtain ⟨s, hs, herased, hreconnected⟩ := exists_of_any
    (x := afterwards.foldlM (fun s a => if Undisturbed s a then sweepStep .sorting a s else none)
      (sweepIdle lateClient))
    (P := fun s => s.erased = [⟨[65], 2⟩] ∧ s.reconnected = [[65]]) (by decide +kernel)
  have hrun : Run (Meeting (SweepStep .sorting) Undisturbed) (sweepIdle lateClient) afterwards
      s := by
    refine Run.of_foldlM (fun s a s' hnext => ?_) hs
    split_ifs at hnext with hu
    exact ⟨hu, hnext⟩
  exact ⟨s, hrun, spares_of_undisturbed (after_reachable _ _) hrun, herased, hreconnected⟩

/-- It does so when the sweep has closed its old transport. -/
def meanwhile : List SweepAction :=
  [.collect, .disconnect, .connect 1 (connectA true), .settle, .reschedule]

/-- The sweep takes its new session out of the registry. -/
theorem not_spared_meanwhile : Reachable .sorting lateClient ∧ ∃ s,
    Run (SweepStep .sorting) (sweepIdle lateClient) meanwhile s ∧ s.phase = .done ∧
      s.found = [⟨[65], 2⟩] ∧ s.erased = [⟨[65], 3⟩] ∧ s.reconnected = [[65]] ∧
      s.objects.broker.sessionRegistry.lookup [65] = none ∧ ¬ SparesOthers s := by
  refine ⟨after_reachable _ _, ?_⟩
  obtain ⟨s, hs, hphase, hfound, herased, hreconnected, hnone⟩ := exists_of_any
    (x := meanwhile.foldlM (fun s a => sweepStep .sorting a s) (sweepIdle lateClient))
    (P := fun s => s.phase = .done ∧ s.found = [⟨[65], 2⟩] ∧ s.erased = [⟨[65], 3⟩] ∧
      s.reconnected = [[65]] ∧ s.objects.broker.sessionRegistry.lookup [65] = none)
    (by decide +kernel)
  refine ⟨s, Run.of_foldlM (fun _ _ _ hnext => hnext) hs, hphase, hfound, herased, hreconnected,
    hnone, fun hspares => ?_⟩
  obtain ⟨entry, hl⟩ := hspares.reconnected [65] (by simp [hreconnected])
  cases hnone.symm.trans hl

end Culex
