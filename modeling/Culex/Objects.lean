import Culex.Steady
import Culex.Sweep

/-!
# Sessions that are held

While functions of several threads interleave, a session can be held by one of them when another one
takes it out of the registry.  `Objects` is the broker together with the sessions that are no longer
registered, and `Objects.state` the state of a session wherever it is.
-/

namespace Culex

open ManageSessions

/-- The broker, and the sessions that are held and no longer registered. -/
structure Objects where
  broker : ManageSessions
  unregistered : SessionRef → Option ClientSession := fun _ => none

namespace Objects

/-- The state of a session that is held. -/
def state (s : Objects) (session : SessionRef) : Option ClientSession :=
  (s.broker.lock session).or (s.unregistered session)

/-- Change a session in place. -/
def setSession (s : Objects) (session : SessionRef) (cs : ClientSession) : Objects :=
  match s.broker.lock session with
  | some _ => { s with broker := s.broker.setSession session cs }
  | none => { s with unregistered := Function.update s.unregistered session (some cs) }

/-- The sessions outside the registry once nothing, or another session, is registered for a
client. -/
def displaced (s : Objects) (clientId : Bytes) : SessionRef → Option ClientSession :=
  match s.broker.sessionRegistry.lookup clientId with
  | some entry => Function.update s.unregistered ⟨clientId, entry.obj⟩ (some entry.state)
  | none => s.unregistered

def removeFromRegistry (s : Objects) (clientId : Bytes) : Objects where
  broker := s.broker.removeFromRegistry clientId
  unregistered := s.displaced clientId

def addToRegistry (s : Objects) (session : SessionRef) (cs : ClientSession) : Objects where
  broker := s.broker.addToRegistry session cs
  unregistered := s.displaced session.clientId

/-- Close the transport of a session. -/
def disconnect (s : Objects) (cs : ClientSession) : Objects :=
  match s.broker.lockTransport cs.session with
  | some transport => { s with broker := s.broker.forceDisconnect transport }
  | none => s

/-- Disconnect the client if it is connected. -/
def takeOver (s : Objects) (session : SessionRef) : Objects :=
  match s.state session with
  | some cs =>
    if cs.connected then (s.disconnect cs).setSession session { cs with connected := false } else s
  | none => s

variable {s : Objects} {r r' : SessionRef} {cs : ClientSession} {clientId : Bytes}

/-! ### States -/

theorem state_of_lock (h : s.broker.lock r = some cs) : s.state r = some cs := by
  unfold state
  rw [h, Option.some_or]

theorem state_of_lock_eq_none (h : s.broker.lock r = none) : s.state r = s.unregistered r := by
  unfold state
  rw [h, Option.none_or]

theorem state_setSession :
    (s.setSession r cs).state r' = if r' = r then some cs else s.state r' := by
  unfold setSession
  cases hl : s.broker.lock r with
  | some cs₀ =>
    unfold state
    simp only [lock_setSession, hl, Option.map_some]
    split_ifs
    · rfl
    · rfl
  | none =>
    unfold state
    simp only
    split_ifs with he
    · rw [he, hl, Option.none_or, Function.update_self]
    · rw [Function.update_of_ne he]

theorem lock_setSession_isSome :
    ((s.setSession r cs).broker.lock r').isSome = (s.broker.lock r').isSome := by
  unfold setSession
  cases hl : s.broker.lock r with
  | none => rfl
  | some cs₀ =>
    simp only [lock_setSession, hl, Option.map_some]
    split_ifs with he
    · rw [he, hl]
      rfl
    · rfl

/-- Where a client's session goes that is taken out of the registry. -/
theorem displaced_eq (hc : r.clientId = clientId) :
    s.displaced clientId r = s.state r := by
  obtain ⟨clientId', obj⟩ := r
  subst hc
  unfold displaced state lock
  cases s.broker.sessionRegistry.lookup clientId' with
  | none => rfl
  | some entry =>
    simp only
    by_cases ho : entry.obj = obj
    · rw [if_pos ho, ho, Function.update_self, Option.some_or]
    · have hne : (⟨clientId', obj⟩ : SessionRef) ≠ ⟨clientId', entry.obj⟩ := fun he =>
        ho (SessionRef.mk.inj he).2.symm
      rw [if_neg ho, Function.update_of_ne hne, Option.none_or]

theorem displaced_of_ne (hc : r.clientId ≠ clientId) :
    s.displaced clientId r = s.unregistered r := by
  unfold displaced
  cases s.broker.sessionRegistry.lookup clientId with
  | none => rfl
  | some entry =>
    have hne : r ≠ ⟨clientId, entry.obj⟩ := fun he => hc (congrArg SessionRef.clientId he)
    exact Function.update_of_ne hne _ _

theorem lock_removeFromRegistry_of_ne (hc : r.clientId ≠ clientId) :
    (s.removeFromRegistry clientId).broker.lock r = s.broker.lock r := by
  unfold removeFromRegistry lock
  simp only [ManageSessions.removeFromRegistry, AList.lookup_erase_ne hc]

theorem lock_addToRegistry_of_ne (hc : r'.clientId ≠ r.clientId) :
    (s.addToRegistry r cs).broker.lock r' = s.broker.lock r' := by
  unfold addToRegistry lock
  simp only [ManageSessions.addToRegistry, AList.lookup_insert_ne hc]

/-- A session that is taken out of the registry keeps its state. -/
theorem state_removeFromRegistry : (s.removeFromRegistry clientId).state r = s.state r := by
  by_cases hc : r.clientId = clientId
  · have hl : (s.removeFromRegistry clientId).broker.lock r = none :=
      lock_eq_none_of_lookup (by
        rw [hc]
        exact AList.lookup_erase _ _)
    rw [state_of_lock_eq_none hl]
    exact displaced_eq hc
  · unfold state
    rw [lock_removeFromRegistry_of_ne hc]
    congr 1
    exact displaced_of_ne hc

/-- So does one that another session takes the place of. -/
theorem state_addToRegistry (h : r' ≠ r) : (s.addToRegistry r cs).state r' = s.state r' := by
  by_cases hc : r'.clientId = r.clientId
  · have hl : (s.addToRegistry r cs).broker.lock r' = none := by
      by_contra hsome
      obtain ⟨cs', hcs'⟩ := Option.ne_none_iff_exists'.1 hsome
      have hlookup : (s.broker.addToRegistry r cs).sessionRegistry.lookup r'.clientId =
          some ⟨r.obj, cs⟩ := (lookup_addToRegistry _).trans (if_pos hc)
      have hentry := hlookup.symm.trans (lock_eq_some_iff.1 hcs')
      obtain ⟨hobj, -⟩ := Registered.mk.inj (Option.some.inj hentry)
      obtain ⟨clientId', obj'⟩ := r'
      obtain ⟨clientId, obj⟩ := r
      exact h (congrArg₂ SessionRef.mk hc hobj.symm)
    rw [state_of_lock_eq_none hl]
    exact displaced_eq hc
  · unfold state
    rw [lock_addToRegistry_of_ne hc]
    congr 1
    exact displaced_of_ne hc

/-- A registered session is taken over as `connectHandler` does it. -/
theorem broker_takeOver (h : s.broker.lock r = some cs) :
    (s.takeOver r).broker = (Culex.takeOver r cs s.broker).1 := by
  unfold takeOver Culex.takeOver
  rw [state_of_lock h]
  simp only
  split_ifs
  · unfold disconnect setSession
    cases s.broker.lockTransport cs.session with
    | none => simp only [h]
    | some transport =>
      simp only [(lock_congr (forceDisconnect_sessionRegistry transport) r).trans h]
  · rfl

theorem lock_addToRegistry_self : (s.addToRegistry r cs).broker.lock r = some cs :=
  lock_eq_some_iff.2 (AList.lookup_insert _)

end Objects

/-! ### Open transports -/

/-- A transport is in the table of sessions. -/
def InTable (ms : ManageSessions) (id : ℕ) : Prop := ∃ clientId, Present ms clientId id

section Table

variable {p : Platform} {ms ms' : ManageSessions} {id t : ℕ} {r : SessionRef} {cs : ClientSession}
  {cn : Connect}

theorem inTable_iff : InTable ms id ↔ ∃ socket, ms.socketOf id = some socket ∧
    ms.sessions.lookup socket.1 = some id := by
  constructor
  · rintro ⟨clientId, fd, hsocket, hfd⟩
    exact ⟨(fd, clientId), hsocket, hfd⟩
  · rintro ⟨⟨fd, clientId⟩, hsocket, hfd⟩
    exact ⟨clientId, fd, hsocket, hfd⟩

theorem inTable_congr (hsocket : ms'.socketOf = ms.socketOf)
    (hsessions : ms'.sessions = ms.sessions) : InTable ms' id ↔ InTable ms id := by
  rw [inTable_iff, inTable_iff, hsocket, hsessions]

/-- A transport in the table is alive. -/
theorem lockTransport_of_inTable (h : InTable ms id) : ms.lockTransport (some id) = some id := by
  obtain ⟨socket, hsocket, hfd⟩ := inTable_iff.1 h
  rw [lockTransport_eq, Option.bind_some, hsocket, Option.bind_some, if_pos (.inl hfd)]

theorem socketOf_forceDisconnect : (ms.forceDisconnect t).socketOf = ms.socketOf := by
  unfold socketOf
  rw [transports_forceDisconnect]

theorem inTable_of_forceDisconnect (h : InTable (ms.forceDisconnect t) id) : InTable ms id := by
  obtain ⟨socket, hsocket, hfd⟩ := inTable_iff.1 h
  rw [socketOf_forceDisconnect] at hsocket
  refine inTable_iff.2 ⟨socket, hsocket, ?_⟩
  rw [sessions_forceDisconnect] at hfd
  split at hfd
  · next closed _ =>
    by_cases he : socket.1 = closed.1
    · rw [he, AList.lookup_erase] at hfd
      cases hfd
    · rwa [AList.lookup_erase_ne he] at hfd
  · exact hfd

theorem not_inTable_forceDisconnect : ¬ InTable (ms.forceDisconnect t) t := by
  intro h
  obtain ⟨socket, hsocket, hfd⟩ := inTable_iff.1 h
  rw [socketOf_forceDisconnect] at hsocket
  rw [sessions_forceDisconnect, hsocket] at hfd
  simp only [AList.lookup_erase] at hfd
  cases hfd

theorem inTable_setSession : InTable (ms.setSession r cs) id ↔ InTable ms id := by
  rw [setSession_eq]
  rfl

theorem inTable_scheduleExpiry : InTable (scheduleExpiry p r ms) id ↔ InTable ms id := by
  rw [scheduleExpiry_eq]
  rfl

theorem inTable_setTransport (clientId : Bytes) :
    InTable (setTransport t (fun t => { t with clientId }) ms) id ↔ InTable ms id := by
  have hsocket : ∀ fd, (∃ clientId',
      (setTransport t (fun t => { t with clientId }) ms).socketOf id = some (fd, clientId')) ↔
        ∃ clientId', ms.socketOf id = some (fd, clientId') := by
    intro fd
    unfold setTransport socketOf
    cases hl : ms.transports.lookup t with
    | none => rfl
    | some transport =>
      simp only
      by_cases he : id = t
      · rw [he, AList.lookup_insert, hl]
        simp
      · rw [AList.lookup_insert_ne he]
  have hsessions : (setTransport t (fun t => { t with clientId }) ms).sessions = ms.sessions := by
    rw [setTransport_eq]
  unfold InTable Present
  rw [exists_comm, exists_comm (p := fun clientId fd => ms.socketOf id = some (fd, clientId) ∧ _)]
  refine exists_congr fun fd => ?_
  rw [exists_and_right, exists_and_right, hsocket, hsessions]

/-- What follows a CONNECT opens no transport, and closes the one that is rejected. -/
theorem inTable_of_finishConnect {buff : Bytes} (h : InTable (finishConnect cn t buff ms) id) :
    InTable ms id ∧ (cn.level ≠ 4 → id ≠ t) := by
  unfold finishConnect at h
  split_ifs at h with hlevel
  · exact ⟨(inTable_setTransport cn.clientId).1 h, fun hne => absurd hlevel hne⟩
  · have hopen : InTable (ms.pushDataToSend t buff) id := inTable_of_forceDisconnect h
    refine ⟨hopen, fun _ he => ?_⟩
    subst he
    exact not_inTable_forceDisconnect h

end Table

/-! ### Closing transports -/

namespace Objects

variable {s : Objects} {r : SessionRef} {cs : ClientSession} {id t : ℕ}

theorem inTable_setSession : InTable (s.setSession r cs).broker id ↔ InTable s.broker id := by
  unfold Objects.setSession
  cases s.broker.lock r with
  | none => rfl
  | some _ => exact Culex.inTable_setSession

theorem nextObj_setSession : (s.setSession r cs).broker.nextObj = s.broker.nextObj := by
  unfold Objects.setSession
  cases s.broker.lock r with
  | none => rfl
  | some _ =>
    simp only
    rw [setSession_eq]

theorem inTable_of_disconnect (h : InTable (s.disconnect cs).broker id) :
    InTable s.broker id ∧ cs.session ≠ some id := by
  unfold disconnect at h
  cases ht : s.broker.lockTransport cs.session with
  | none =>
    rw [ht] at h
    refine ⟨h, fun he => ?_⟩
    rw [he, lockTransport_of_inTable h] at ht
    cases ht
  | some transport =>
    rw [ht] at h
    refine ⟨inTable_of_forceDisconnect h, fun he => ?_⟩
    rw [he, lockTransport_of_inTable (inTable_of_forceDisconnect h)] at ht
    obtain rfl := Option.some.inj ht
    exact not_inTable_forceDisconnect h

theorem state_disconnect : (s.disconnect cs).state r = s.state r := by
  unfold disconnect
  cases s.broker.lockTransport cs.session with
  | none => rfl
  | some transport =>
    unfold state
    simp only [lock_congr (forceDisconnect_sessionRegistry transport)]

theorem lock_disconnect : (s.disconnect cs).broker.lock r = s.broker.lock r := by
  unfold disconnect
  cases s.broker.lockTransport cs.session with
  | none => rfl
  | some transport => exact lock_congr (forceDisconnect_sessionRegistry transport) r

theorem nextObj_disconnect : (s.disconnect cs).broker.nextObj = s.broker.nextObj := by
  unfold disconnect
  cases s.broker.lockTransport cs.session with
  | none => rfl
  | some transport =>
    have hnext : (s.broker.forceDisconnect transport).nextObj = s.broker.nextObj := by
      unfold forceDisconnect
      cases s.broker.transports.lookup transport <;> rfl
    exact hnext

/-- What taking a session over does: the session is offline, and its transport is closed if the
session was connected. -/
structure TakenOver (r : SessionRef) (cs : ClientSession) (s s' : Objects) : Prop where
  state : ∀ r', s'.state r' = if r' = r then some cs.offline else s.state r'
  registered : ∀ r', (s'.broker.lock r').isSome = (s.broker.lock r').isSome
  nextObj : s'.broker.nextObj = s.broker.nextObj
  inTable : ∀ id, InTable s'.broker id → InTable s.broker id ∧
    (cs.connected = true → cs.session ≠ some id)

theorem takeOver_takenOver (h : s.state r = some cs) : TakenOver r cs s (s.takeOver r) := by
  unfold takeOver
  rw [h]
  simp only
  split_ifs with hcon
  · have hstate : (s.disconnect cs).state r = some cs := state_disconnect.trans h
    constructor
    · intro r'
      rw [state_setSession, state_disconnect]
      rfl
    · intro r'
      rw [lock_setSession_isSome, lock_disconnect]
    · rw [nextObj_setSession, nextObj_disconnect]
    · intro id hid
      obtain ⟨hopen, hne⟩ := inTable_of_disconnect (inTable_setSession.1 hid)
      exact ⟨hopen, fun _ => hne⟩
  · refine ⟨fun r' => ?_, fun r' => rfl, rfl, fun id hid => ⟨hid, fun hc => absurd hc hcon⟩⟩
    split_ifs with he
    · rw [he, h, offline_of_not_connected (Bool.not_eq_true _ ▸ hcon)]
    · rfl

end Objects

/-! ### What a step keeps -/

/-- A step leaves held sessions their transport, and disconnects no session without closing it. -/
structure Objects.Keeps (s s' : Objects) : Prop where
  nextObj : s.broker.nextObj ≤ s'.broker.nextObj
  inTable : ∀ id, InTable s'.broker id → InTable s.broker id
  state : ∀ r cs, r.obj < s.broker.nextObj → s.state r = some cs → ∃ cs', s'.state r = some cs' ∧
    cs'.session = cs.session ∧ (cs.connected = false → cs'.connected = false) ∧
      (cs.connected = true → cs'.connected = false → ∀ t, cs.session = some t →
        ¬ InTable s'.broker t)

namespace Objects

variable {p : Platform} {s s' : Objects} {r r' : SessionRef} {cs : ClientSession}
  {clientId : Bytes} {cn : Connect} {t : ℕ}

/-- Where the states stay. -/
theorem Keeps.of_state (hnext : s.broker.nextObj ≤ s'.broker.nextObj)
    (htable : ∀ id, InTable s'.broker id → InTable s.broker id)
    (hstate : ∀ r, r.obj < s.broker.nextObj → s'.state r = s.state r) : Keeps s s' :=
  ⟨hnext, htable, fun r cs hr hcs => ⟨cs, (hstate r hr).trans hcs, rfl, id,
    fun htrue hfalse => absurd (htrue.symm.trans hfalse) (by simp)⟩⟩

theorem Keeps.refl (s : Objects) : Keeps s s := .of_state le_rfl (fun _ h => h) fun _ _ => rfl

theorem Keeps.trans {s'' : Objects} (h : Keeps s s') (h' : Keeps s' s'') : Keeps s s'' where
  nextObj := h.nextObj.trans h'.nextObj
  inTable id hid := h.inTable id (h'.inTable id hid)
  state r cs hr hcs := by
    obtain ⟨cs₁, hcs₁, hsession₁, hoffline₁, hclosed₁⟩ := h.state r cs hr hcs
    obtain ⟨cs₂, hcs₂, hsession₂, hoffline₂, hclosed₂⟩ :=
      h'.state r cs₁ (hr.trans_le h.nextObj) hcs₁
    refine ⟨cs₂, hcs₂, hsession₂.trans hsession₁, fun hc => hoffline₂ (hoffline₁ hc), ?_⟩
    intro htrue hfalse t ht hopen
    cases hcon : cs₁.connected with
    | true => exact hclosed₂ hcon hfalse t (hsession₁.trans ht) hopen
    | false => exact hclosed₁ htrue hcon t ht (h'.inTable t hopen)

theorem TakenOver.keeps (h : TakenOver r cs s s') (hcs : s.state r = some cs) : Keeps s s' where
  nextObj := h.nextObj.ge
  inTable id hid := (h.inTable id hid).1
  state r' cs' hr' hcs' := by
    by_cases he : r' = r
    · subst he
      obtain rfl := Option.some.inj (hcs.symm.trans hcs')
      refine ⟨cs.offline, (h.state r').trans (if_pos rfl), rfl, fun _ => rfl, ?_⟩
      intro hcon _ t ht hopen
      exact (h.inTable t hopen).2 hcon ht
    · exact ⟨cs', ((h.state r').trans (if_neg he)).trans hcs', rfl, id,
        fun htrue hfalse => absurd (htrue.symm.trans hfalse) (by simp)⟩

theorem keeps_removeFromRegistry : Keeps s (s.removeFromRegistry clientId) :=
  .of_state le_rfl (fun _ h => h) fun _ _ => state_removeFromRegistry

end Objects

section Given

variable {s s' : Objects}

/-- Registered sessions have identities that have been given out. -/
def Given (s : Objects) : Prop := ∀ r cs, s.broker.lock r = some cs → r.obj < s.broker.nextObj

theorem Given.of_registered (h : Given s)
    (hregistered : ∀ r, (s'.broker.lock r).isSome = (s.broker.lock r).isSome)
    (hnext : s.broker.nextObj ≤ s'.broker.nextObj) : Given s' := by
  intro r cs hl
  have hsome := hregistered r
  rw [hl] at hsome
  obtain ⟨cs₀, hl₀⟩ := Option.isSome_iff_exists.1 hsome.symm
  exact (h r cs₀ hl₀).trans_le hnext

end Given

end Culex
