import Culex.Broker
import Culex.Handling

/-!
# What CONNECT does

`connectHandler` has two ways through it.  Where the client id is not registered, or a clean session
is asked for, an old session is disconnected and removed and a new one created; where the client
resumes its session, this is disconnected, its inflight packets are sent to its old transport, and
it is kept.

* `connectHandler_new`, `connectHandler_resumed`: the two ways, as equations;
* `established_iff`: an accepted CONNECT leaves the client connected in the first case only.
-/

namespace Culex

open ManageSessions

/-- A new session is created for the client. -/
def Renews (ms : ManageSessions) (cn : Connect) : Prop :=
  ms.sessionRegistry.lookup cn.clientId = none ∨ cn.cf.cleansession = true

instance (ms : ManageSessions) (cn : Connect) : Decidable (Renews ms cn) :=
  decidable_of_iff ((ms.sessionRegistry.lookup cn.clientId).isNone ∨ cn.cf.cleansession = true)
    (by rw [Option.isNone_iff_eq_none]; rfl)

/-- The table of sockets after the transport of a connected session has been closed. -/
def evicted (ms : ManageSessions) (cs : ClientSession) : AList fun _ : ℕ => ℕ :=
  if cs.connected then
    match ms.lockTransport cs.session with
    | some oldSession => (ms.forceDisconnect oldSession).sessions
    | none => ms.sessions
  else ms.sessions

/-- The session, disconnected. -/
def ClientSession.offline (cs : ClientSession) : ClientSession := { cs with connected := false }

/-- The state in which a new session is created: an old one is disconnected and removed. -/
def vacated (cn : Connect) (ms : ManageSessions) : ManageSessions :=
  match ms.sessionRegistry.lookup cn.clientId with
  | none => { ms with nextObj := ms.nextObj + 1 }
  | some entry =>
    { (takeOver ⟨cn.clientId, entry.obj⟩ entry.state ms).1.removeFromRegistry cn.clientId with
      nextObj := ms.nextObj + 1 }

/-- The new session of a client that connects on a transport. -/
def newSession (cn : Connect) (t : ℕ) (now : ℤ) : ClientSession where
  keepAlive := cn.keepAlive
  cleansession := cn.cf.cleansession
  connected := true
  session := some t
  lastActivity := now

/-- The session that a client resumes. -/
def resumedSession (cn : Connect) (cs : ClientSession) : ClientSession :=
  { cs.offline with keepAlive := cn.keepAlive, cleansession := cn.cf.cleansession }

section Resending

variable (p : Platform)

/-- The state after the inflight packets of a session have been sent to its old transport. -/
def resendPending (cs : ClientSession) (ms : ManageSessions) : Except Fault ManageSessions :=
  match ms.lockTransport cs.session with
  | some oldSession => do
    let ms ← resendAll p cs.inflight oldSession ms
    resendAll p cs.inflightAck oldSession ms
  | none => .ok ms

end Resending

variable {p : Platform} {ms ms' : ManageSessions} {r : SessionRef} {cs : ClientSession}
  {cn : Connect} {packet : Packet} {t : ℕ} {entry : Registered} {handled : Handled}

theorem except_map_bind {ε α β γ : Type} (x : Except ε α) (f : α → Except ε β) (g : β → γ) :
    (x >>= f).map g = x >>= fun a => (f a).map g := by
  cases x <;> rfl

/-! ### Disconnecting the old session -/

theorem takeOver_snd (r : SessionRef) (cs : ClientSession) (ms : ManageSessions) :
    (takeOver r cs ms).2 = cs.offline := by
  unfold takeOver ClientSession.offline
  split_ifs with hc
  · rfl
  · obtain ⟨keepAlive, cleansession, connected⟩ := cs
    cases connected with
    | true => exact absurd rfl hc
    | false => rfl

/-- Only the registry and the table of sockets change. -/
theorem takeOver_eq (r : SessionRef) (cs : ClientSession) (ms : ManageSessions) :
    (takeOver r cs ms).1 = { ms with
      sessionRegistry := (takeOver r cs ms).1.sessionRegistry
      sessions := evicted ms cs } := by
  unfold takeOver evicted
  split_ifs with hc
  · cases ms.lockTransport cs.session with
    | none =>
      simp only
      rw [setSession_eq]
    | some old =>
      simp only
      rw [setSession_eq]
      unfold forceDisconnect removeSession
      cases ms.transports.lookup old <;> rfl
  · rfl

theorem forceDisconnect_sessionRegistry (t : ℕ) :
    (ms.forceDisconnect t).sessionRegistry = ms.sessionRegistry := by
  unfold forceDisconnect
  cases ms.transports.lookup t <;> rfl

theorem offline_of_not_connected (hc : cs.connected = false) : cs.offline = cs := by
  unfold ClientSession.offline
  rw [← hc]

theorem takeOver_of_not_connected (hc : cs.connected = false) : takeOver r cs ms = (ms, cs) := by
  unfold takeOver
  rw [if_neg (by rw [hc]; exact Bool.false_ne_true)]

/-- After the take-over the session of the client is offline, and the others are as before. -/
theorem lookup_takeOver (hl : ms.lock r = some cs) (clientId : Bytes) :
    (takeOver r cs ms).1.sessionRegistry.lookup clientId =
      if clientId = r.clientId then some ⟨r.obj, cs.offline⟩
      else ms.sessionRegistry.lookup clientId := by
  cases hcon : cs.connected with
  | false =>
    rw [takeOver_of_not_connected hcon, offline_of_not_connected hcon]
    split_ifs with hc
    · rw [hc]
      exact lock_eq_some_iff.1 hl
    · rfl
  | true =>
    have hset : ∀ ms₁ : ManageSessions, ms₁.sessionRegistry = ms.sessionRegistry →
        (ms₁.setSession r cs.offline).sessionRegistry.lookup clientId =
          if clientId = r.clientId then some ⟨r.obj, cs.offline⟩
          else ms.sessionRegistry.lookup clientId := by
      intro ms₁ hreg
      rw [setSession_of_lock ((lock_congr hreg r).trans hl)]
      split_ifs with hc
      · rw [hc, AList.lookup_insert]
      · rw [AList.lookup_insert_ne hc, hreg]
    unfold takeOver
    rw [if_pos hcon]
    cases ms.lockTransport cs.session with
    | none => exact hset ms rfl
    | some old => exact hset _ (forceDisconnect_sessionRegistry old)

/-! ### The session a CONNECT continues with -/

theorem not_renews_iff : ¬ Renews ms cn ↔
    (∃ entry, ms.sessionRegistry.lookup cn.clientId = some entry) ∧ cn.cf.cleansession = false := by
  rw [Renews, not_or, ← Ne.eq_def, Option.ne_none_iff_exists', Bool.not_eq_true]

theorem connectSession_new (h : Renews ms cn) :
    connectSession p cn ms =
      .ok (vacated cn ms, ⟨cn.clientId, ms.nextObj⟩, {}, 0x00, true) := by
  unfold connectSession vacated
  cases hl : ms.sessionRegistry.lookup cn.clientId with
  | none => rfl
  | some entry =>
    have hclean : cn.cf.cleansession = true := h.resolve_left (by rw [hl]; simp)
    have hnext : (takeOver ⟨cn.clientId, entry.obj⟩ entry.state ms).1.nextObj = ms.nextObj := by
      rw [takeOver_eq]
    simp only [if_pos hclean, removeFromRegistry, hnext]

theorem connectSession_resumed (hl : ms.sessionRegistry.lookup cn.clientId = some entry)
    (hclean : cn.cf.cleansession = false) :
    connectSession p cn ms =
      (resendPending p entry.state (takeOver ⟨cn.clientId, entry.obj⟩ entry.state ms).1).map
        fun ms' => (ms', ⟨cn.clientId, entry.obj⟩, entry.state.offline, 0x01, false) := by
  obtain ⟨ms₁, htake⟩ : ∃ ms₁, takeOver ⟨cn.clientId, entry.obj⟩ entry.state ms =
      (ms₁, entry.state.offline) := ⟨_, Prod.ext rfl (takeOver_snd _ _ _)⟩
  have hsession : entry.state.offline.session = entry.state.session := rfl
  unfold connectSession resendPending
  simp only [hl, hclean, htake, Bool.false_eq_true, if_false, hsession]
  cases ms₁.lockTransport entry.state.session with
  | none => rfl
  | some old =>
    simp only [except_map_bind]
    rfl

/-- Where a new session is created, nothing is registered for the client. -/
theorem lookup_vacated (clientId : Bytes) :
    (vacated cn ms).sessionRegistry.lookup clientId =
      if clientId = cn.clientId then none else ms.sessionRegistry.lookup clientId := by
  unfold vacated
  cases hl : ms.sessionRegistry.lookup cn.clientId with
  | none =>
    split_ifs with hc
    · rw [hc]
      exact hl
    · rfl
  | some entry =>
    have htake := lookup_takeOver (lock_of_lookup hl) clientId
    simp only at htake
    unfold removeFromRegistry
    simp only
    split_ifs with hc
    · rw [hc, AList.lookup_erase]
    · rw [AList.lookup_erase_ne hc, htake, if_neg hc]

/-- The other parts of the state in which a new session is created. -/
theorem vacated_eq (cn : Connect) (ms : ManageSessions) :
    vacated cn ms = { ms with
      sessionRegistry := (vacated cn ms).sessionRegistry
      sessions := (vacated cn ms).sessions
      nextObj := ms.nextObj + 1 } := by
  unfold vacated
  cases ms.sessionRegistry.lookup cn.clientId with
  | none => rfl
  | some entry =>
    simp only [removeFromRegistry]
    rw [takeOver_eq]

theorem setSession_of_lock_eq_none (h : ms.lock r = none) : ms.setSession r cs = ms := by
  unfold setSession
  rw [h]

theorem lock_eq_none_of_lookup (h : ms.sessionRegistry.lookup r.clientId = none) :
    ms.lock r = none := by
  unfold lock
  rw [h]

/-! ### The handler -/

/-- An accepted CONNECT that creates a session. -/
theorem connectHandler_new (hp : packet.pkt = .connect cn) (h : Renews ms cn)
    (hlevel : cn.level = 4) :
    connectHandler p packet t ms = .ok {
      state := scheduleExpiry p ⟨cn.clientId, ms.nextObj⟩
        ((vacated cn ms).addToRegistry ⟨cn.clientId, ms.nextObj⟩ (newSession cn t ms.now))
      returnCode := mqttConnectionAccepted
      buff := packConnack { ackFlags := 0x00, returnCode := 0x00 } } := by
  have hnow : (vacated cn ms).now = ms.now := by rw [vacated_eq]
  unfold connectHandler
  simp only [hp, connectSession_new h, ok_bind, hlevel, ne_eq, not_true_eq_false, if_false, if_true,
    hnow]
  rfl

/-- A rejected CONNECT that would create a session: the old one is gone. -/
theorem connectHandler_rejected (hp : packet.pkt = .connect cn) (h : Renews ms cn)
    (hlevel : cn.level ≠ 4) :
    connectHandler p packet t ms = .ok {
      state := vacated cn ms
      returnCode := mqttUnacceptableProtocolVersion
      buff := packConnack { ackFlags := 0x00, returnCode := 0x01 } } := by
  have hdead : (vacated cn ms).lock ⟨cn.clientId, ms.nextObj⟩ = none :=
    lock_eq_none_of_lookup (by rw [lookup_vacated, if_pos rfl])
  unfold connectHandler
  simp only [hp, connectSession_new h, ok_bind, if_pos hlevel, setSession_of_lock_eq_none hdead]
  rfl

/-- The return code of `connectHandler`. -/
def connectReturnCode (cn : Connect) : ℤ :=
  if cn.level ≠ 0x04 then mqttUnacceptableProtocolVersion else mqttConnectionAccepted

/-- Its CONNACK. -/
def connackFor (cn : Connect) (ms : ManageSessions) : Connack where
  ackFlags := if Renews ms cn then 0x00 else 0x01
  returnCode := if cn.level ≠ 0x04 then 0x01 else 0x00

/-- A CONNECT that resumes a session, accepted or rejected. -/
theorem connectHandler_resumed (hp : packet.pkt = .connect cn)
    (hl : ms.sessionRegistry.lookup cn.clientId = some entry)
    (hclean : cn.cf.cleansession = false) :
    connectHandler p packet t ms =
      (resendPending p entry.state (takeOver ⟨cn.clientId, entry.obj⟩ entry.state ms).1).map
        fun ms' => {
          state := ms'.setSession ⟨cn.clientId, entry.obj⟩ (resumedSession cn entry.state)
          returnCode := connectReturnCode cn
          buff := packConnack {
            ackFlags := 0x01, returnCode := if cn.level ≠ 0x04 then 0x01 else 0x00 } } := by
  unfold connectHandler connectReturnCode
  simp only [hp, connectSession_resumed hl hclean]
  cases resendPending p entry.state
      (takeOver ⟨cn.clientId, entry.obj⟩ entry.state ms).1 with
  | error e => rfl
  | ok ms' =>
    show (if cn.level ≠ 0x04 then _ else _) = _
    by_cases hlevel : cn.level ≠ 0x04
    · simp only [if_pos hlevel]
      rfl
    · simp only [if_neg hlevel]
      rfl

/-! ### What is registered afterwards -/

theorem lookup_setSession (hl : ms.lock r = some cs) (cs' : ClientSession) (clientId : Bytes) :
    (ms.setSession r cs').sessionRegistry.lookup clientId =
      if clientId = r.clientId then some ⟨r.obj, cs'⟩ else ms.sessionRegistry.lookup clientId := by
  rw [setSession_of_lock hl]
  split_ifs with hc
  · rw [hc, AList.lookup_insert]
  · rw [AList.lookup_insert_ne hc]

theorem lookup_addToRegistry (clientId : Bytes) :
    (ms.addToRegistry r cs).sessionRegistry.lookup clientId =
      if clientId = r.clientId then some ⟨r.obj, cs⟩ else ms.sessionRegistry.lookup clientId := by
  unfold addToRegistry
  split_ifs with hc
  · rw [hc, AList.lookup_insert]
  · rw [AList.lookup_insert_ne hc]

/-- The session with its expiration time, if it has a keep-alive time. -/
def ClientSession.expiring (cs : ClientSession) : ClientSession :=
  if cs.keepAlive = 0 then cs else { cs with expiryMs := expiryOf cs }

theorem lookup_scheduleExpiry (hl : ms.lock r = some cs) (clientId : Bytes) :
    (scheduleExpiry p r ms).sessionRegistry.lookup clientId =
      if clientId = r.clientId then some ⟨r.obj, cs.expiring⟩
      else ms.sessionRegistry.lookup clientId := by
  unfold scheduleExpiry ClientSession.expiring
  simp only [hl]
  split_ifs with hk hc hc
  · rw [hc]
    exact lock_eq_some_iff.1 hl
  · rfl
  · exact (lookup_setSession hl _ clientId).trans (if_pos hc)
  · exact (lookup_setSession hl _ clientId).trans (if_neg hc)

/-- Scheduling changes the registry and the heap. -/
theorem scheduleExpiry_eq (p : Platform) (r : SessionRef) (ms : ManageSessions) :
    scheduleExpiry p r ms = { ms with
      sessionRegistry := (scheduleExpiry p r ms).sessionRegistry
      expiryHeap := (scheduleExpiry p r ms).expiryHeap } := by
  unfold scheduleExpiry
  cases ms.lock r with
  | none => rfl
  | some cs =>
    simp only
    split_ifs
    · rfl
    · rw [setSession_eq]

theorem mem_scheduleExpiry (hl : ms.lock r = some cs) (hk : cs.keepAlive ≠ 0) :
    ⟨expiryOf cs, r⟩ ∈ (scheduleExpiry p r ms).expiryHeap.entries := by
  unfold scheduleExpiry
  simp only [hl, if_neg hk]
  exact (MinHeap.entries_push_perm _ _ _).mem_iff.2 List.mem_cons_self

/-- What is registered for the client of a CONNECT when it has been handled. -/
def registration (cn : Connect) (t : ℕ) (ms : ManageSessions) : Option Registered :=
  if Renews ms cn then
    if cn.level = 4 then some ⟨ms.nextObj, (newSession cn t ms.now).expiring⟩ else none
  else
    (ms.sessionRegistry.lookup cn.clientId).map fun entry =>
      ⟨entry.obj, resumedSession cn entry.state⟩

/-- The table of sockets after the old session of a client has been disconnected. -/
def evictedBy (cn : Connect) (ms : ManageSessions) : AList fun _ : ℕ => ℕ :=
  match ms.sessionRegistry.lookup cn.clientId with
  | some entry => evicted ms entry.state
  | none => ms.sessions

/-- Everything a CONNECT changes, the expiry heap apart. -/
structure Connects (cn : Connect) (t : ℕ) (ms ms' : ManageSessions) : Prop where
  client : ms'.sessionRegistry.lookup cn.clientId = registration cn t ms
  others : ∀ clientId, clientId ≠ cn.clientId →
    ms'.sessionRegistry.lookup clientId = ms.sessionRegistry.lookup clientId
  sessions : ms'.sessions = evictedBy cn ms
  socketOf : ms'.socketOf = ms.socketOf
  tasks : ms'.tasks = ms.tasks
  topicTree : ms'.topicTree = ms.topicTree
  nextObj : ms'.nextObj = if Renews ms cn then ms.nextObj + 1 else ms.nextObj
  calls : ∃ log, ms'.calls = ms.calls ++ log ∧ ∀ c ∈ log, ∃ id data, c = .pushDataToSend id data

theorem resendPending_calls (h : resendPending p cs ms = .ok ms') :
    ∃ log, ms' = { ms with calls := ms.calls ++ log } ∧
      ∀ c ∈ log, ∃ id data, ms.lockTransport cs.session = some id ∧
        c = .pushDataToSend id data := by
  unfold resendPending at h
  cases ht : ms.lockTransport cs.session with
  | none =>
    rw [ht] at h
    obtain rfl := Except.ok.inj h
    exact ⟨[], by simp, by simp⟩
  | some old =>
    rw [ht] at h
    simp only [except_bind_eq_ok] at h
    obtain ⟨ms₁, h₁, h⟩ := h
    obtain ⟨log₁, rfl, hlog₁⟩ := resendAll_calls h₁
    obtain ⟨log₂, rfl, hlog₂⟩ := resendAll_calls h
    refine ⟨log₁ ++ log₂, by simp, ?_⟩
    intro c hc
    obtain ⟨data, rfl⟩ := (List.mem_append.1 hc).elim (hlog₁ c) (hlog₂ c)
    exact ⟨old, data, rfl, rfl⟩

/-- Where a session is created, only the registry, the sockets and the identities change. -/
theorem sessions_vacated : (vacated cn ms).sessions = evictedBy cn ms := by
  unfold vacated evictedBy
  cases ms.sessionRegistry.lookup cn.clientId with
  | none => rfl
  | some entry =>
    simp only [removeFromRegistry]
    rw [takeOver_eq]

theorem Connects.new (h : Renews ms cn) (hlevel : cn.level = 4) :
    Connects cn t ms (scheduleExpiry p ⟨cn.clientId, ms.nextObj⟩
      ((vacated cn ms).addToRegistry ⟨cn.clientId, ms.nextObj⟩ (newSession cn t ms.now))) := by
  have hl : ((vacated cn ms).addToRegistry ⟨cn.clientId, ms.nextObj⟩
      (newSession cn t ms.now)).lock ⟨cn.clientId, ms.nextObj⟩ = some (newSession cn t ms.now) := by
    rw [lock_eq_some_iff, lookup_addToRegistry, if_pos rfl]
  constructor
  case client =>
    rw [lookup_scheduleExpiry hl, if_pos rfl, registration, if_pos h, if_pos hlevel]
  case others =>
    intro clientId hc
    rw [lookup_scheduleExpiry hl, if_neg hc, lookup_addToRegistry, if_neg hc, lookup_vacated,
      if_neg hc]
  case sessions =>
    rw [scheduleExpiry_eq, ← sessions_vacated]
    rfl
  case nextObj => rw [scheduleExpiry_eq, addToRegistry, vacated_eq, if_pos h]
  case calls =>
    refine ⟨[], ?_, by simp⟩
    rw [scheduleExpiry_eq, addToRegistry, vacated_eq, List.append_nil]
  case socketOf =>
    rw [scheduleExpiry_eq, addToRegistry, vacated_eq]
    rfl
  all_goals rw [scheduleExpiry_eq, addToRegistry, vacated_eq]

theorem Connects.rejected (h : Renews ms cn) (hlevel : cn.level ≠ 4) :
    Connects cn t ms (vacated cn ms) := by
  constructor
  case client => rw [lookup_vacated, if_pos rfl, registration, if_pos h, if_neg hlevel]
  case others => exact fun clientId hc => (lookup_vacated clientId).trans (if_neg hc)
  case sessions => exact sessions_vacated
  case nextObj => rw [vacated_eq, if_pos h]
  case calls =>
    refine ⟨[], ?_, by simp⟩
    rw [vacated_eq, List.append_nil]
  case socketOf =>
    rw [vacated_eq]
    rfl
  all_goals rw [vacated_eq]

theorem Connects.resumed (h : ¬ Renews ms cn)
    (hl : ms.sessionRegistry.lookup cn.clientId = some entry)
    (hres : resendPending p entry.state (takeOver ⟨cn.clientId, entry.obj⟩ entry.state ms).1 =
      .ok ms') :
    Connects cn t ms
      (ms'.setSession ⟨cn.clientId, entry.obj⟩ (resumedSession cn entry.state)) := by
  have htake := lookup_takeOver (lock_of_lookup hl)
  have heq := takeOver_eq ⟨cn.clientId, entry.obj⟩ entry.state ms
  revert hres htake heq
  generalize (takeOver ⟨cn.clientId, entry.obj⟩ entry.state ms).1 = ms₁
  intro hres htake heq
  obtain ⟨log, rfl, hlog⟩ := resendPending_calls hres
  have hlock : ({ ms₁ with calls := ms₁.calls ++ log } : ManageSessions).lock
      ⟨cn.clientId, entry.obj⟩ = some entry.state.offline := by
    rw [lock_eq_some_iff]
    exact (htake cn.clientId).trans (if_pos rfl)
  constructor
  case client =>
    rw [lookup_setSession hlock, if_pos rfl, registration, if_neg h, hl]
    rfl
  case others =>
    intro clientId hc
    rw [lookup_setSession hlock, if_neg hc]
    exact (htake clientId).trans (if_neg hc)
  case sessions => rw [setSession_eq, heq, evictedBy, hl]
  case nextObj => rw [setSession_eq, heq, if_neg h]
  case calls =>
    refine ⟨log, ?_, fun c hc => ?_⟩
    · rw [setSession_eq, heq]
    · obtain ⟨id, data, -, rfl⟩ := hlog c hc
      exact ⟨id, data, rfl⟩
  case socketOf =>
    rw [setSession_eq, heq]
    rfl
  all_goals rw [setSession_eq, heq]

/-- **What a CONNECT does**, with any protocol level. -/
theorem connectHandler_connects (hp : packet.pkt = .connect cn)
    (h : connectHandler p packet t ms = .ok handled) :
    Connects cn t ms handled.state ∧ handled.returnCode = connectReturnCode cn ∧
      handled.buff = packConnack (connackFor cn ms) := by
  unfold connackFor
  by_cases hrenews : Renews ms cn
  · rw [if_pos hrenews]
    by_cases hlevel : cn.level = 4
    · rw [connectHandler_new hp hrenews hlevel] at h
      obtain rfl := Except.ok.inj h
      rw [if_neg (not_not.2 hlevel)]
      exact ⟨.new hrenews hlevel, (if_neg (not_not.2 hlevel)).symm, rfl⟩
    · rw [connectHandler_rejected hp hrenews hlevel] at h
      obtain rfl := Except.ok.inj h
      rw [if_pos hlevel]
      exact ⟨.rejected hrenews hlevel, (if_pos hlevel).symm, rfl⟩
  · obtain ⟨⟨entry, hl⟩, hclean⟩ := not_renews_iff.1 hrenews
    rw [connectHandler_resumed hp hl hclean] at h
    cases hres : resendPending p entry.state
        (takeOver ⟨cn.clientId, entry.obj⟩ entry.state ms).1 with
    | error e =>
      rw [hres] at h
      cases h
    | ok ms₁ =>
      rw [hres] at h
      obtain rfl := Except.ok.inj h
      rw [if_neg hrenews]
      exact ⟨.resumed hrenews hl hres, rfl, rfl⟩

/-! ### Establishing the session -/

/-- The client is connected on the transport. -/
structure Established (cn : Connect) (t : ℕ) (now : ℤ) (ms' : ManageSessions) (entry : Registered) :
    Prop where
  registered : ms'.sessionRegistry.lookup cn.clientId = some entry
  connected : entry.state.connected = true
  session : entry.state.session = some t
  lastActivity : entry.state.lastActivity = now
  expires : 0 < entry.state.keepAlive →
    ∃ e ∈ ms'.expiryHeap.entries, e.session = ⟨cn.clientId, entry.obj⟩

theorem expiring_eq (cs : ClientSession) :
    cs.expiring = { cs with expiryMs := cs.expiring.expiryMs } := by
  unfold ClientSession.expiring
  split_ifs <;> rfl

/-- **An accepted CONNECT establishes the session exactly if it creates one.** -/
theorem established_iff (hp : packet.pkt = .connect cn)
    (h : connectHandler p packet t ms = .ok handled)
    (haccepted : handled.returnCode = mqttConnectionAccepted) :
    (∃ entry, Established cn t ms.now handled.state entry) ↔ Renews ms cn := by
  have hconnects := connectHandler_connects hp h
  have hlevel : cn.level = 4 := by
    by_contra hne
    have hcode := hconnects.2.1.symm.trans haccepted
    rw [connectReturnCode, if_pos hne] at hcode
    revert hcode
    decide
  constructor
  · rintro ⟨entry, he⟩
    by_contra hrenews
    have hreg := hconnects.1.client.symm.trans he.registered
    rw [registration, if_neg hrenews, Option.map_eq_some_iff] at hreg
    obtain ⟨old, -, rfl⟩ := hreg
    cases he.connected
  · intro hrenews
    rw [connectHandler_new hp hrenews hlevel] at h
    obtain rfl := Except.ok.inj h
    refine ⟨⟨ms.nextObj, (newSession cn t ms.now).expiring⟩, ?_, ?_, ?_, ?_, ?_⟩
    · have hreg := (@Connects.new p ms cn t hrenews hlevel).client
      rwa [registration, if_pos hrenews, if_pos hlevel] at hreg
    · rw [expiring_eq]
      rfl
    · rw [expiring_eq]
      rfl
    · rw [expiring_eq]
      rfl
    · intro hk
      have hk' : (newSession cn t ms.now).keepAlive ≠ 0 := by
        intro hz
        rw [expiring_eq, hz] at hk
        exact absurd hk (by decide)
      refine ⟨_, mem_scheduleExpiry ?_ hk', rfl⟩
      rw [lock_eq_some_iff, lookup_addToRegistry, if_pos rfl]

/-- A CONNECT of client `A`. -/
def connectA (cleansession : Bool) : Connect := { cf := { cleansession }, clientId := [65] }

/-- Its packet. -/
def connectPacketA (cleansession : Bool) : Packet where
  header := { type := .connect }
  pktLen := 15
  pkt := .connect (connectA cleansession)

/-- Client `A` connects on another transport while it is connected, with a clean session. -/
theorem established_iff_clean : ∃ handled,
    connectHandler .sorting (connectPacketA true) 2 oneClient = .ok handled ∧
      handled.returnCode = mqttConnectionAccepted ∧
      ((∃ entry, Established (connectA true) 2 0 handled.state entry) ↔
        Renews oneClient (connectA true)) := by
  have hok : (connectHandler .sorting (connectPacketA true) 2 oneClient).toOption.any
      fun handled => handled.returnCode = mqttConnectionAccepted := by decide +kernel
  obtain ⟨handled, h, hcode⟩ := exists_of_any_ok hok
  have hnow : oneClient.now = 0 := by decide +kernel
  refine ⟨handled, h, hcode, ?_⟩
  rw [← hnow]
  exact established_iff rfl h hcode

/-- Client `A` has connected without a clean session, and its socket has been closed. -/
def goneClient : ManageSessions :=
  after .sorting (.newConnection 3 :: arrive 0 (connectFrame 65 0) ++
    [.closeConnection 3, .newConnection 3])

/-- It connects again, which is accepted and leaves it offline. -/
theorem not_established_resumed : Reachable .sorting goneClient ∧ ∃ handled,
    connectHandler .sorting (connectPacketA false) 2 goneClient = .ok handled ∧
      handled.returnCode = mqttConnectionAccepted ∧
      ¬ ∃ entry, Established (connectA false) 2 goneClient.now handled.state entry := by
  refine ⟨after_reachable _ _, ?_⟩
  have hok : (connectHandler .sorting (connectPacketA false) 2 goneClient).toOption.any
      fun handled => handled.returnCode = mqttConnectionAccepted ∧
        (handled.state.sessionRegistry.lookup [65]).any fun entry => !entry.state.connected := by
    decide +kernel
  obtain ⟨handled, h, hcode, hoff⟩ := exists_of_any_ok hok
  refine ⟨handled, h, hcode, ?_⟩
  rintro ⟨entry, he⟩
  have hreg : handled.state.sessionRegistry.lookup [65] = some entry := he.registered
  rw [hreg, Option.any_some, he.connected] at hoff
  cases hoff

end Culex
