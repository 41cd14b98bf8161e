import Culex.Changes

/-!
# What becomes of sessions

Over any event a registered session is one that was registered before, with its queue and its
PUBRELs, or a new one with nothing in it.  From this `Evolves` come the invariants about identities
(`Allocated`), about what waits for an acknowledgment (`AckSound`), and about queued messages
(`Queued`).
-/

namespace Culex

open ManageSessions

/-- What becomes of a session over an event with the calls `log`. -/
structure Ages (log : List Call) (r : SessionRef) (cs cs' : ClientSession) : Prop where
  messageQueue : cs'.messageQueue = cs.messageQueue ++ log.filterMap (Call.queuedFor r)
  inflightAck : ∀ k packet, cs'.inflightAck.lookup k = some packet →
    cs.inflightAck.lookup k = some packet ∨ packet.header.type = .pubrel

/-- A session that nothing has happened to. -/
structure ClientSession.Blank (cs : ClientSession) : Prop where
  inflight : cs.inflight = ∅
  inflightAck : cs.inflightAck = ∅
  messageQueue : cs.messageQueue = []

/-- What becomes of the sessions over an event with the calls `log`. -/
structure Evolves (subscriber : Option SessionRef) (log : List Call) (ms ms' : ManageSessions) :
    Prop where
  nextObj : ms.nextObj ≤ ms'.nextObj
  alive : ∀ r cs', ms'.lock r = some cs' → (∃ cs, ms.lock r = some cs ∧ Ages log r cs cs') ∨
    r.obj = ms.nextObj ∧ ms.nextObj < ms'.nextObj ∧ cs'.Blank ∧
      log.filterMap (Call.queuedFor r) = []
  calls : ms'.calls = ms.calls ++ log
  receivers : ∀ call ∈ log, ∀ r, call.receiver = some r →
    ¬ ms.topicTree.Unsubscribed r ∨ subscriber = some r
  unsubscribed : ∀ r, ms.topicTree.Unsubscribed r → subscriber ≠ some r →
    ms'.topicTree.Unsubscribed r

/-- The session that gets subscriptions with an event. -/
def Kind.subscriber : Kind → Option SessionRef
  | .calm subscriber => subscriber
  | .newConnection _ => none
  | .closeConnection _ => none
  | .malformed _ => none
  | .connect .. => none
  | .expire => none

variable {p : Platform} {ms ms' ms₁ : ManageSessions} {r : SessionRef} {cs cs' : ClientSession}
  {log : List Call} {sub : Option SessionRef} {id : ℕ} {cn : Connect}

/-! ### The sweep -/

/-- A session that is alive after a removal was alive before. -/
theorem lock_of_removeFromRegistry {clientId : Bytes}
    (hl : (ms.removeFromRegistry clientId).lock r = some cs) : ms.lock r = some cs := by
  have hl' := lock_eq_some_iff.1 hl
  unfold ManageSessions.removeFromRegistry at hl'
  by_cases he : r.clientId = clientId
  · rw [he, AList.lookup_erase] at hl'
    cases hl'
  · rw [AList.lookup_erase_ne he] at hl'
    exact lock_eq_some_iff.2 hl'

/-- What the sweep does to a session. -/
structure Swept (cs cs' : ClientSession) : Prop where
  eq : cs' = { cs with connected := cs'.connected, expiryMs := cs'.expiryMs }
  connected : cs'.connected = true → cs.connected = true

theorem Swept.refl (cs : ClientSession) : Swept cs cs := ⟨rfl, id⟩

theorem Swept.trans {cs₁ cs₂ : ClientSession} (h : Swept cs cs₁) (h' : Swept cs₁ cs₂) :
    Swept cs cs₂ where
  eq := by
    rw [h'.eq, h.eq]
  connected hc := h.connected (h'.connected hc)

/-- The sessions that are left after a part of the sweep were there before. -/
structure Sweeps (ms ms' : ManageSessions) : Prop where
  alive : ∀ r cs', ms'.lock r = some cs' → ∃ cs, ms.lock r = some cs ∧ Swept cs cs'
  eq : ms' = { ms with
    sessionRegistry := ms'.sessionRegistry
    sessions := ms'.sessions
    expiryHeap := ms'.expiryHeap }

namespace Sweeps

theorem refl (ms : ManageSessions) : Sweeps ms ms := ⟨fun _ cs h => ⟨cs, h, .refl cs⟩, rfl⟩

theorem trans {ms₁ ms₂ : ManageSessions} (h : Sweeps ms ms₁) (h' : Sweeps ms₁ ms₂) :
    Sweeps ms ms₂ where
  alive r cs₂ hl := by
    obtain ⟨cs₁, hl₁, hs₁⟩ := h'.alive r cs₂ hl
    obtain ⟨cs, hl₀, hs⟩ := h.alive r cs₁ hl₁
    exact ⟨cs, hl₀, hs.trans hs₁⟩
  eq := by
    rw [h'.eq, h.eq]

theorem foldl {α : Type} {f : ManageSessions → α → ManageSessions} (h : ∀ ms a, Sweeps ms (f ms a))
    (l : List α) : Sweeps ms (l.foldl f ms) := by
  induction l generalizing ms with
  | nil => exact refl ms
  | cons a l ih => exact (h _ a).trans ih

theorem setSession (hl : ms.lock r = some cs) (hs : Swept cs cs') :
    Sweeps ms (ms.setSession r cs') where
  alive r' cs₁ hl₁ := by
    rw [lock_setSession] at hl₁
    split_ifs at hl₁ with he
    · rw [hl] at hl₁
      obtain rfl := Option.some.inj hl₁
      exact ⟨cs, he ▸ hl, hs⟩
    · exact ⟨cs₁, hl₁, .refl cs₁⟩
  eq := by rw [setSession_eq]

theorem scheduleExpiry (r : SessionRef) : Sweeps ms (scheduleExpiry p r ms) := by
  unfold ManageSessions.scheduleExpiry
  cases hl : ms.lock r with
  | none => exact refl ms
  | some cs =>
    simp only
    split_ifs
    · exact refl ms
    · have hset : Sweeps ms (ms.setSession r { cs with expiryMs := expiryOf cs }) :=
        setSession hl ⟨rfl, fun h => h⟩
      refine hset.trans ⟨fun r' cs' h => ⟨cs', h, .refl cs'⟩, rfl⟩

theorem removeFromRegistry (clientId : Bytes) : Sweeps ms (ms.removeFromRegistry clientId) where
  alive _ cs' hl := ⟨cs', lock_of_removeFromRegistry hl, .refl cs'⟩
  eq := rfl

theorem forceDisconnect (t : ℕ) : Sweeps ms (ms.forceDisconnect t) where
  alive r cs' hl := ⟨cs', (lock_congr (forceDisconnect_sessionRegistry t) r).symm.trans hl,
    .refl cs'⟩
  eq := by
    unfold ManageSessions.forceDisconnect
    cases ms.transports.lookup t <;> rfl

theorem disconnectExpired (r : SessionRef) : Sweeps ms (ms.disconnectExpired r) := by
  unfold ManageSessions.disconnectExpired
  cases hl : ms.lock r with
  | none => exact refl ms
  | some cs =>
    simp only
    cases ms.lockTransport cs.session with
    | none => exact refl ms
    | some t =>
      simp only
      have hl₁ : (ms.forceDisconnect t).lock r = some cs :=
        (lock_congr (forceDisconnect_sessionRegistry t) r).trans hl
      split_ifs
      · exact (forceDisconnect t).trans (removeFromRegistry r.clientId)
      · exact (forceDisconnect t).trans (setSession hl₁ ⟨rfl, fun h => absurd h (by simp)⟩)

theorem sweepOut (sweep : Sweep) : Sweeps ms (sweepOut p sweep ms) :=
  (foldl (fun _ r => disconnectExpired r) _).trans (foldl (fun _ r => scheduleExpiry r) _)

end Sweeps

/-! ### Events -/

namespace Ages

theorem refl (r : SessionRef) (cs : ClientSession) : Ages [] r cs cs :=
  ⟨(List.append_nil _).symm, fun _ _ h => .inl h⟩

/-- Calls that queue nothing leave the queue. -/
theorem of_eq (hq : cs'.messageQueue = cs.messageQueue) (ha : cs'.inflightAck = cs.inflightAck)
    (hlog : log.filterMap (Call.queuedFor r) = []) : Ages log r cs cs' where
  messageQueue := by rw [hq, hlog, List.append_nil]
  inflightAck k packet hk := .inl (ha ▸ hk)

end Ages

theorem Calm.evolves (h : Calm sub log ms ms') : Evolves sub log ms ms' where
  nextObj := h.nextObj.ge
  alive r cs' hl' := by
    cases hl : ms.lock r with
    | none => cases (h.dead r hl).symm.trans hl'
    | some cs =>
      obtain ⟨cs₁, hl₁, hk⟩ := h.alive r cs hl
      obtain rfl := Option.some.inj (hl₁.symm.trans hl')
      exact .inl ⟨cs, rfl, hk.messageQueue, hk.inflightAck⟩
  calls := h.calls
  receivers := h.receivers
  unsubscribed := h.unsubscribed

/-- Where sessions are removed or swept at most, and nothing is called. -/
theorem Sweeps.evolves (h : Sweeps ms ms') : Evolves none [] ms ms' where
  nextObj := by rw [h.eq]
  alive r cs' hl' := by
    obtain ⟨cs, hl, hs⟩ := h.alive r cs' hl'
    refine .inl ⟨cs, hl, .of_eq ?_ ?_ rfl⟩
    · rw [hs.eq]
    · rw [hs.eq]
  calls := by rw [h.eq, List.append_nil]
  receivers := by simp
  unsubscribed r hu _ := by
    rw [h.eq]
    exact hu

/-- Calls that only push bytes queue nothing. -/
theorem filterMap_queuedFor_eq_nil (h : ∀ c ∈ log, ∃ id data, c = .pushDataToSend id data) :
    log.filterMap (Call.queuedFor r) = [] := by
  apply List.filterMap_eq_nil_iff.2
  intro c hc
  obtain ⟨id, data, rfl⟩ := h c hc
  rfl

theorem lock_of_connects (h : Connects cn id ms ms₁) (hc : r.clientId ≠ cn.clientId) :
    ms₁.lock r = ms.lock r := by
  unfold lock
  rw [h.others r.clientId hc]

/-- A session that is alive after a CONNECT is new, or it was alive before, as it is or as it has
been resumed. -/
theorem lock_connects (h : Connects cn id ms ms₁) (hl : ms₁.lock r = some cs') :
    r.obj = ms.nextObj ∧ cs' = (newSession cn id ms.now).expiring ∨
      ∃ cs, ms.lock r = some cs ∧ (cs' = cs ∨ cs' = resumedSession cn cs) := by
  by_cases hc : r.clientId = cn.clientId
  · have hreg := lock_eq_some_iff.1 hl
    rw [hc, h.client] at hreg
    unfold registration at hreg
    split_ifs at hreg
    · have hnew := Option.some.inj hreg
      exact .inl ⟨(congrArg Registered.obj hnew).symm, (congrArg Registered.state hnew).symm⟩
    · obtain ⟨old, hold, heq⟩ := Option.map_eq_some_iff.1 hreg
      have hobj : old.obj = r.obj := congrArg Registered.obj heq
      refine .inr ⟨old.state, ?_, .inr (congrArg Registered.state heq).symm⟩
      rw [lock_eq_some_iff, hc, hold, ← hobj]
  · exact .inr ⟨cs', (lock_of_connects h hc).symm.trans hl, .inl rfl⟩

/-- The end of a CONNECT pushes its CONNACK. -/
theorem finishConnect_eq (cn : Connect) (id : ℕ) (buff : Bytes) (ms : ManageSessions) :
    finishConnect cn id buff ms = { ms with
      sessions := (finishConnect cn id buff ms).sessions
      transports := (finishConnect cn id buff ms).transports
      calls := ms.calls ++ [.pushDataToSend id buff] } := by
  unfold finishConnect
  split_ifs
  · rw [setTransport_eq]
    rfl
  · unfold forceDisconnect
    cases (ms.pushDataToSend id buff).transports.lookup id <;> rfl

theorem Connects.evolves (h : Connects cn id ms ms₁) (buff : Bytes) (tasks : List ℕ) :
    ∃ log, Evolves none log ms { finishConnect cn id buff ms₁ with tasks } := by
  obtain ⟨log, hcalls, hlog⟩ := h.calls
  have hpush : ∀ c ∈ log ++ [.pushDataToSend id buff], ∃ id data, c = .pushDataToSend id data := by
    intro c hc
    rcases List.mem_append.1 hc with hc | hc
    · exact hlog c hc
    · exact ⟨id, buff, List.mem_singleton.1 hc⟩
  have hnil := @filterMap_queuedFor_eq_nil
  refine ⟨log ++ [.pushDataToSend id buff], ?_⟩
  rw [finishConnect_eq]
  constructor
  case nextObj =>
    show ms.nextObj ≤ ms₁.nextObj
    rw [h.nextObj]
    split_ifs
    · exact Nat.le_succ _
    · exact le_refl _
  case alive =>
    intro r cs' hl'
    have hl₁ : ms₁.lock r = some cs' := hl'
    by_cases hc : r.clientId = cn.clientId
    · have hreg := (hc ▸ lock_eq_some_iff.1 hl₁ : ms₁.sessionRegistry.lookup cn.clientId = _)
      rw [h.client, registration] at hreg
      split_ifs at hreg with hrenews hlevel
      · -- a new session
        obtain ⟨hobj, rfl⟩ := Registered.mk.inj (Option.some.inj hreg)
        refine .inr ⟨hobj.symm, ?_, ?_, hnil hpush⟩
        · show ms.nextObj < ms₁.nextObj
          rw [h.nextObj, if_pos hrenews]
          exact Nat.lt_succ_self _
        · rw [expiring_eq]
          exact ⟨rfl, rfl, rfl⟩
      · -- the session that is resumed
        obtain ⟨entry, hl, he⟩ := Option.map_eq_some_iff.1 hreg
        obtain ⟨hobj, rfl⟩ := Registered.mk.inj he
        refine .inl ⟨entry.state, ?_, .of_eq rfl rfl (hnil hpush)⟩
        rw [lock_eq_some_iff, hc, hl, ← hobj]
    · exact .inl ⟨cs', (lock_of_connects h hc).symm.trans hl₁, .of_eq rfl rfl (hnil hpush)⟩
  case calls =>
    show ms₁.calls ++ _ = _
    rw [hcalls, List.append_assoc]
  case receivers =>
    intro c hc r hr
    obtain ⟨id, data, rfl⟩ := hpush c hc
    cases hr
  case unsubscribed =>
    intro r hu _
    show ms₁.topicTree.Unsubscribed r
    rw [h.topicTree]
    exact hu

theorem purge_sweeps (clientId : Bytes) (entry : Registered) :
    Sweeps ms (purge clientId entry ms) := by
  unfold purge
  split_ifs
  · exact .removeFromRegistry clientId
  · exact .refl ms

/-- **What becomes of the sessions over an event.** -/
theorem Change.evolves {k : Kind} (h : Change p ms ms' k) :
    ∃ log, Evolves k.subscriber log ms ms' := by
  cases k with
  | calm subscriber =>
    obtain ⟨log, hcalm⟩ := h
    exact ⟨log, hcalm.evolves⟩
  | newConnection fd =>
    obtain rfl := h
    have hrefl : Evolves none [] ms ms := (Sweeps.refl ms).evolves
    exact ⟨[], { hrefl with
      nextObj := Nat.le_succ _
      alive := fun r cs' hl => .inl ⟨cs', hl, .refl r cs'⟩ }⟩
  | closeConnection fd =>
    obtain rfl := h
    have hsweeps : Sweeps ms (ms.removeSession fd) := ⟨fun r cs h => ⟨cs, h, .refl cs⟩, rfl⟩
    exact ⟨[], hsweeps.evolves⟩
  | malformed id =>
    obtain ⟨entry, tasks, -, rfl⟩ := h
    have hsweeps := (@purge_sweeps ms (ms.getClientId id) entry).trans (.forceDisconnect id)
    exact ⟨[], { hsweeps.evolves with }⟩
  | connect id cn =>
    obtain ⟨ms₁, tasks, hconnects, rfl⟩ := h
    exact hconnects.evolves _ _
  | expire =>
    obtain ⟨sweep, heap, -, rfl⟩ := h
    have hpop : Sweeps ms { ms with expiryHeap := heap } := ⟨fun r cs h => ⟨cs, h, .refl cs⟩, rfl⟩
    exact ⟨[], (hpop.trans (.sweepOut sweep)).evolves⟩

/-- Only registered sessions get subscriptions. -/
theorem Event.subscriber_registered {e : Event} (h : (e.kind p ms).subscriber = some r) :
    ∃ cs, ms.lock r = some cs := by
  have hpresent : ∀ pkt id, subscriberOf pkt id ms = some r → ∃ cs, ms.lock r = some cs := by
    intro pkt id hs
    unfold subscriberOf at hs
    split_ifs at hs
    obtain ⟨entry, hl, rfl⟩ := Option.map_eq_some_iff.1 hs
    exact ⟨entry.state, lock_of_lookup hl⟩
  cases e with
  | parseData id beyond =>
    simp only [Event.kind] at h
    cases ha : Event.arrival p (.parseData id beyond) ms with
    | packet id pkt =>
      rw [ha] at h
      by_cases hconnect : ∀ cn, pkt.header.type = .connect → pkt.pkt ≠ .connect cn
      · rw [Arrival.kind, Packet.kind_calm hconnect] at h
        exact hpresent pkt id h
      · push Not at hconnect
        obtain ⟨cn, ht, hp⟩ := hconnect
        rw [Arrival.kind, Packet.kind_connect ht hp] at h
        cases h
    | nothing =>
      rw [ha] at h
      cases h
    | malformed id =>
      rw [ha] at h
      cases h
  | _ => cases h

/-- What holds at the start and over every change of a reachable state holds of every reachable
state. -/
theorem Reachable.of_change {I : ManageSessions → Prop} (h : Reachable p ms) (hinit : I {})
    (hstep : ∀ ms ms' k, Reachable p ms → I ms → Change p ms ms' k →
      (∀ r, k.subscriber = some r → ∃ cs, ms.lock r = some cs) → I ms') : I ms := by
  have hboth : Reachable p ms ∧ I ms := by
    refine h.invariant (I := fun ms => Reachable p ms ∧ I ms) ⟨.init, hinit⟩
      fun ms e ms' hms ha => ⟨hms.1.step ha, ?_⟩
    exact hstep ms ms' _ hms.1 hms.2 (e.apply_change hms.1.sound ha)
      fun r => e.subscriber_registered
  exact hboth.2

/-! ### Identities -/

/-- Every object that is named has been created. -/
structure Allocated (ms : ManageSessions) : Prop where
  registered : ∀ r cs, ms.lock r = some cs → r.obj < ms.nextObj
  subscribed : ∀ r, ¬ ms.topicTree.Unsubscribed r → r.obj < ms.nextObj
  called : ∀ call ∈ ms.calls, ∀ r, call.receiver = some r → r.obj < ms.nextObj

theorem Evolves.allocated (h : Evolves sub log ms ms') (ha : Allocated ms)
    (hsub : ∀ r, sub = some r → ∃ cs, ms.lock r = some cs) : Allocated ms' := by
  have hold : ∀ r, ¬ ms.topicTree.Unsubscribed r ∨ sub = some r → r.obj < ms.nextObj := by
    rintro r (hu | hs)
    · exact ha.subscribed r hu
    · obtain ⟨cs, hl⟩ := hsub r hs
      exact ha.registered r cs hl
  constructor
  case registered =>
    intro r cs' hl'
    rcases h.alive r cs' hl' with ⟨cs, hl, -⟩ | ⟨hobj, hlt, -, -⟩
    · exact (ha.registered r cs hl).trans_le h.nextObj
    · exact hobj ▸ hlt
  case subscribed =>
    intro r hu
    refine (hold r ?_).trans_le h.nextObj
    by_contra hneither
    push Not at hneither
    exact hu (h.unsubscribed r hneither.1 hneither.2)
  case called =>
    intro c hc r hr
    rw [h.calls] at hc
    rcases List.mem_append.1 hc with hc | hc
    · exact (ha.called c hc r hr).trans_le h.nextObj
    · exact (hold r (h.receivers c hc r hr)).trans_le h.nextObj

theorem unsubscribed_empty (r : SessionRef) : TopicTree.empty.Unsubscribed r := by
  intro path clientId s hs
  rw [show TopicTree.empty.root.subsAt path = ∅ from Node.subsAt_new _ _] at hs
  cases hs

theorem Reachable.allocated (h : Reachable p ms) : Allocated ms := by
  refine h.of_change ⟨fun r cs hl => ?_, fun r hu => ?_, fun c hc => ?_⟩ ?_
  · cases hl
  · exact absurd (unsubscribed_empty r) hu
  · cases hc
  · intro ms ms' k _ ha hk hsub
    obtain ⟨log, he⟩ := hk.evolves
    exact he.allocated ha hsub

/-! ### What waits for an acknowledgment -/

/-- Only PUBRELs wait for an acknowledgment. -/
def AckSound (ms : ManageSessions) : Prop :=
  ∀ r cs, ms.lock r = some cs → ∀ k packet, cs.inflightAck.lookup k = some packet →
    packet.header.type = .pubrel

theorem Reachable.ackSound (h : Reachable p ms) : AckSound ms := by
  refine h.of_change (fun r cs hl => ?_) ?_
  · cases hl
  · intro ms ms' k _ ha hk _ r cs' hl' key packet hp
    obtain ⟨log, he⟩ := hk.evolves
    rcases he.alive r cs' hl' with ⟨cs, hl, hages⟩ | ⟨-, -, hblank, -⟩
    · exact (hages.inflightAck key packet hp).elim (ha r cs hl key packet) fun h => h
    · rw [hblank.inflightAck, AList.lookup_empty] at hp
      cases hp

/-! ### Queued messages -/

/-- The queue of a session holds what was stored in it, oldest first. -/
def Queued (ms : ManageSessions) : Prop :=
  ∀ r cs, ms.lock r = some cs → cs.messageQueue = ms.calls.filterMap (Call.queuedFor r)

/-- Nothing was stored in a session that is yet to be created. -/
theorem Allocated.queuedFor (ha : Allocated ms) (hr : r.obj = ms.nextObj) :
    ms.calls.filterMap (Call.queuedFor r) = [] := by
  apply List.filterMap_eq_nil_iff.2
  intro c hc
  cases c with
  | storeMessage r' packet =>
    have hlt := ha.called _ hc r' rfl
    have hne : r' ≠ r := by
      rintro rfl
      omega
    exact if_neg hne
  | _ => rfl

theorem Reachable.queued (h : Reachable p ms) : Queued ms := by
  refine h.of_change (fun r cs hl => ?_) ?_
  · cases hl
  · intro ms ms' k hms hq hk _ r cs' hl'
    obtain ⟨log, he⟩ := hk.evolves
    rw [he.calls, List.filterMap_append]
    rcases he.alive r cs' hl' with ⟨cs, hl, hages⟩ | ⟨hobj, -, hblank, hlog⟩
    · rw [hages.messageQueue, hq r cs hl]
    · rw [hblank.messageQueue, hms.allocated.queuedFor hobj, hlog, List.append_nil]

end Culex
