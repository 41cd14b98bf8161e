import Culex.Delivery
import Culex.Lib.Fallible
import Culex.PacketHandlers

/-!
# What handlers do to a registered session

The handlers of acknowledgments and of QoS 2 publishing, on a transport that serves a registered
session: each is a change of this session object, bytes pushed to the transport, and for PUBREL the
routing of the released message.  None of them fails there.
-/

namespace Culex

open ManageSessions

/-- The transport's client id is the one of the registered session `r`, whose state is `cs`. -/
structure Serves (ms : ManageSessions) (t : ℕ) (r : SessionRef) (cs : ClientSession) : Prop where
  clientId : ms.getClientId t = r.clientId
  lock : ms.lock r = some cs

/-- The socket and the client id of a transport. -/
def ManageSessions.socketOf (ms : ManageSessions) (t : ℕ) : Option (ℕ × Bytes) :=
  (ms.transports.lookup t).map fun transport => (transport.fd, transport.clientId)

/-- The session after a packet has come in from its client. -/
def ClientSession.activeAt (cs : ClientSession) (now : ℤ) : ClientSession :=
  { cs with lastActivity := now }

variable {p : Platform} {ms ms' : ManageSessions} {t : ℕ} {r : SessionRef} {cs cs' : ClientSession}
  {packet : Packet}

/-! ### Finding the session -/

theorem setSession_of_lock (h : ms.lock r = some cs) :
    ms.setSession r cs' =
      { ms with sessionRegistry := ms.sessionRegistry.insert r.clientId ⟨r.obj, cs'⟩ } := by
  unfold setSession
  rw [h]

theorem setSession_setSession (h : ms.lock r = some cs) (cs₁ cs₂ : ClientSession) :
    (ms.setSession r cs₁).setSession r cs₂ = ms.setSession r cs₂ := by
  rw [setSession_of_lock (lock_setSession_self ms r cs₁ h), setSession_of_lock h,
    setSession_of_lock h]
  simp only [AList.insert_insert]

theorem updateActivity_eq (h : ms.lock r = some cs) :
    ms.updateActivity r.clientId = ms.setSession r (cs.activeAt ms.now) := by
  rw [setSession_of_lock h]
  rw [lock_eq_some_iff] at h
  unfold updateActivity
  rw [h]
  rfl

theorem Serves.updateActivity (h : Serves ms t r cs) :
    ms.updateActivity (ms.getClientId t) = ms.setSession r (cs.activeAt ms.now) := by
  rw [h.clientId, updateActivity_eq h.lock]

/-- The client id of a transport does not depend on the registry. -/
theorem getClientId_setSession : (ms.setSession r cs).getClientId t = ms.getClientId t := by
  rw [setSession_eq]
  rfl

theorem Serves.setSession (h : Serves ms t r cs) (cs' : ClientSession) :
    Serves (ms.setSession r cs') t r cs' :=
  ⟨getClientId_setSession.trans h.clientId, lock_setSession_self _ _ _ h.lock⟩

theorem Serves.pushDataToSend (h : Serves ms t r cs) (data : Bytes) :
    Serves (ms.pushDataToSend t data) t r cs := ⟨h.clientId, h.lock⟩

theorem Serves.derefSession (h : Serves ms t r cs) : ms.derefSession t = .ok (r, cs) := by
  have hl := lock_eq_some_iff.1 h.lock
  unfold ManageSessions.derefSession
  rw [h.clientId, hl]

/-- Dereferencing after the activity has been noted. -/
theorem Serves.derefSession_active (h : Serves ms t r cs) :
    (ms.setSession r (cs.activeAt ms.now)).derefSession t = .ok (r, cs.activeAt ms.now) :=
  (h.setSession _).derefSession

/-! ### The handlers -/

/-- Resending pushes bytes, and does nothing else. -/
theorem resendAll_calls {inflight : Inflight} (h : resendAll p inflight t ms = .ok ms') :
    ∃ log, ms' = { ms with calls := ms.calls ++ log } ∧
      ∀ c ∈ log, ∃ data, c = .pushDataToSend t data := by
  refine foldlM_invariant (I := fun ms' => ∃ log, ms' = { ms with calls := ms.calls ++ log } ∧
    ∀ c ∈ log, ∃ data, c = .pushDataToSend t data) ?_ ⟨[], by simp, by simp⟩ h
  rintro _ pair ms₁ ⟨log, rfl, hlog⟩ hr
  have hpush : ∀ data, ∃ log',
      ({ ms with calls := ms.calls ++ log } : ManageSessions).pushDataToSend t data =
        { ms with calls := ms.calls ++ log' } ∧
          ∀ c ∈ log', ∃ data, c = .pushDataToSend t data := by
    intro data
    refine ⟨log ++ [.pushDataToSend t data], ?_, ?_⟩
    · simp [ManageSessions.pushDataToSend, record]
    · intro c hc
      rcases List.mem_append.1 hc with hc | hc
      · exact hlog c hc
      · exact ⟨data, List.mem_singleton.1 hc⟩
  unfold resendMessages at hr
  split at hr
  · rw [except_bind_eq_ok] at hr
    obtain ⟨buff, -, hr⟩ := hr
    obtain rfl := Except.ok.inj hr
    exact hpush buff
  · obtain rfl := Except.ok.inj hr
    exact hpush _
  · obtain rfl := Except.ok.inj hr
    exact ⟨log, rfl, hlog⟩

/-- A PUBACK removes what is inflight under its identifier. -/
theorem pubackHandler_eq (h : Serves ms t r cs) {ack : Ack} (hp : packet.pkt = .ack ack) :
    pubackHandler packet t ms = .ok {
      state := ms.setSession r { cs.activeAt ms.now with
        inflight := cs.inflight.erase ack.packetId }
      returnCode := mqttOk } := by
  unfold pubackHandler
  simp only [hp, h.updateActivity, h.derefSession_active, ok_bind, setSession_setSession h.lock]
  rfl

/-- A PUBREC stores a PUBREL and sends it. -/
theorem pubrecHandler_eq (h : Serves ms t r cs) {ack : Ack} (hp : packet.pkt = .ack ack) :
    pubrecHandler packet t ms = .ok {
      state := (ms.setSession r { cs.activeAt ms.now with
        inflightAck := cs.inflightAck.insertNew ack.packetId
          (buildAck ack.packetId .pubrel []).2 }).pushDataToSend t
            (buildAck ack.packetId .pubrel []).1
      returnCode := mqttOk
      buff := (buildAck ack.packetId .pubrel []).1 } := by
  have hstore : (cs.activeAt ms.now).storeInflightAcknowlegement
      (buildAck ack.packetId .pubrel []).2 = .ok { cs.activeAt ms.now with
        inflightAck := cs.inflightAck.insertNew ack.packetId
          (buildAck ack.packetId .pubrel []).2 } := rfl
  unfold pubrecHandler
  simp only [hp, h.updateActivity, h.derefSession_active, ok_bind, hstore,
    setSession_setSession h.lock]
  rfl

/-- A PUBCOMP removes the PUBREL that is inflight under its identifier. -/
theorem pubcompHandler_eq (h : Serves ms t r cs) {ack : Ack} (hp : packet.pkt = .ack ack) :
    pubcompHandler packet t ms = .ok {
      state := ms.setSession r { cs.activeAt ms.now with
        inflightAck := cs.inflightAck.erase ack.packetId }
      returnCode := mqttOk } := by
  unfold pubcompHandler
  simp only [hp, h.updateActivity, h.derefSession_active, ok_bind, setSession_setSession h.lock]
  rfl

/-- The inflight map after a PUBLISH with QoS 2 or 3: what is there under the identifier, and counts
as a packet, stays. -/
def receivedInflight (inflight : Inflight) (pub : Publish) (packet : Packet) : Inflight :=
  if (inflight.find pub.packetId).pktLen = 0 then inflight.insertNew pub.packetId packet
  else inflight

/-- A PUBLISH with QoS 2 or 3 is stored, and a PUBREC sent. -/
theorem publishHandler_stored (h : Serves ms t r cs) {pub : Publish}
    (hp : packet.pkt = .publish pub) (h0 : packet.header.qos ≠ 0) (h1 : packet.header.qos ≠ 1) :
    publishHandler p packet t ms = .ok {
      state := (ms.setSession r { cs.activeAt ms.now with
        inflight := receivedInflight cs.inflight pub packet }).pushDataToSend t
          (buildAck pub.packetId .pubrec []).1
      returnCode := mqttOk
      buff := (buildAck pub.packetId .pubrec []).1 } := by
  have hfind : (cs.activeAt ms.now).getPacket pub.packetId .publish =
      cs.inflight.find pub.packetId := rfl
  have hstore : (cs.activeAt ms.now).storeInflight packet =
      .ok { cs.activeAt ms.now with inflight := cs.inflight.insertNew pub.packetId packet } := by
    unfold ClientSession.storeInflight
    rw [hp]
    rfl
  unfold publishHandler receivedInflight
  simp only [hp, h.updateActivity, h.derefSession_active, ok_bind, if_neg h0, if_neg h1, hfind]
  split_ifs with hl
  · simp only [hstore, ok_bind, setSession_setSession h.lock]
    rfl
  · simp only [setSession_setSession h.lock]
    rfl

/-- The state in which a PUBREL leaves the session, before anything is routed. -/
def released (r : SessionRef) (cs : ClientSession) (packetId : UInt16) (ms : ManageSessions) :
    ManageSessions :=
  ms.setSession r { cs.activeAt ms.now with inflight := cs.inflight.erase packetId }

/-- A PUBREL whose message is there removes and routes it, and a PUBCOMP is sent. -/
theorem pubrelHandler_found (h : Serves ms t r cs) {ack : Ack} (hp : packet.pkt = .ack ack)
    (hf : (cs.inflight.find ack.packetId).header.type = .publish) {packet' : Packet}
    (hr : routePacket p (cs.inflight.find ack.packetId) none (released r cs ack.packetId ms) =
      .ok (ms', packet')) :
    pubrelHandler p packet t ms = .ok {
      state := ms'.pushDataToSend t (buildAck ack.packetId .pubcomp []).1
      returnCode := mqttOk
      buff := (buildAck ack.packetId .pubcomp []).1 } := by
  have hfind : (cs.activeAt ms.now).removeFromInflight ack.packetId =
      (cs.inflight.find ack.packetId, { cs.activeAt ms.now with
        inflight := cs.inflight.erase ack.packetId }) := rfl
  unfold released at hr
  unfold pubrelHandler
  simp only [hp, h.updateActivity, h.derefSession_active, ok_bind, hfind,
    setSession_setSession h.lock, if_pos hf, hr]
  rfl

/-- A PUBREL without a message routes nothing, and a PUBCOMP is sent. -/
theorem pubrelHandler_absent (h : Serves ms t r cs) {ack : Ack} (hp : packet.pkt = .ack ack)
    (hf : (cs.inflight.find ack.packetId).header.type ≠ .publish) :
    pubrelHandler p packet t ms = .ok {
      state := (released r cs ack.packetId ms).pushDataToSend t
        (buildAck ack.packetId .pubcomp []).1
      returnCode := -mqttErr
      buff := (buildAck ack.packetId .pubcomp []).1 } := by
  have hfind : (cs.activeAt ms.now).removeFromInflight ack.packetId =
      (cs.inflight.find ack.packetId, { cs.activeAt ms.now with
        inflight := cs.inflight.erase ack.packetId }) := rfl
  unfold released pubrelHandler
  simp only [hp, h.updateActivity, h.derefSession_active, ok_bind, hfind,
    setSession_setSession h.lock, if_neg hf]
  rfl

/-! ### How handlers end -/

/-- How a handler ends that `needs` the session of its transport for some packets: it `does`
something to a registered session, it dereferences a null pointer, or the packet is not for it. -/
inductive Ends (ms : ManageSessions) (t : ℕ) (needs : Prop)
    (does : SessionRef → ClientSession → Handled → Prop) : Except Fault Handled → Prop
  | served {r : SessionRef} {cs : ClientSession} {handled : Handled} (hneeds : needs)
      (hserves : Serves ms t r cs) (hdoes : does r cs handled) : Ends ms t needs does (.ok handled)
  | null (hneeds : needs) (hnone : ms.sessionRegistry.lookup (ms.getClientId t) = none) :
      Ends ms t needs does (.error .nullSession)
  | idle (hother : ¬ needs) : Ends ms t needs does (.ok { state := ms, returnCode := -mqttErr })

section Ending

variable {needs : Prop} {does : SessionRef → ClientSession → Handled → Prop}
  {result : Except Fault Handled} {handled : Handled}

theorem derefSession_eq_null (h : ms.sessionRegistry.lookup (ms.getClientId t) = none) :
    (ms.updateActivity (ms.getClientId t)).derefSession t = .error .nullSession := by
  unfold ManageSessions.updateActivity
  simp only [h]
  unfold ManageSessions.derefSession
  rw [h]

theorem serves_of_lookup {entry : Registered}
    (h : ms.sessionRegistry.lookup (ms.getClientId t) = some entry) :
    Serves ms t ⟨ms.getClientId t, entry.obj⟩ entry.state := ⟨rfl, lock_of_lookup h⟩

theorem Ends.of_serves
    (hserves : ∀ r cs, needs → Serves ms t r cs →
      ∃ handled, result = .ok handled ∧ does r cs handled)
    (hnull : needs → ms.sessionRegistry.lookup (ms.getClientId t) = none →
      result = .error .nullSession)
    (hidle : ¬ needs → result = .ok { state := ms, returnCode := -mqttErr }) :
    Ends ms t needs does result := by
  by_cases hneeds : needs
  · cases hl : ms.sessionRegistry.lookup (ms.getClientId t) with
    | none =>
      rw [hnull hneeds hl]
      exact .null hneeds hl
    | some entry =>
      obtain ⟨handled, rfl, hdoes⟩ := hserves _ _ hneeds (serves_of_lookup hl)
      exact .served hneeds (serves_of_lookup hl) hdoes
  · rw [hidle hneeds]
    exact .idle hneeds

/-- What a handler that returns has done. -/
theorem Ends.ok (h : Ends ms t needs does result) (hok : result = .ok handled) :
    (∃ r cs, Serves ms t r cs ∧ does r cs handled) ∨
      ¬ needs ∧ handled = { state := ms, returnCode := -mqttErr } := by
  cases h with
  | served _ hserves hdoes =>
    obtain rfl := Except.ok.inj hok
    exact .inl ⟨_, _, hserves, hdoes⟩
  | null _ _ => cases hok
  | idle hother => exact .inr ⟨hother, (Except.ok.inj hok).symm⟩

/-- The null pointer is dereferenced exactly if the session is needed and missing. -/
theorem Ends.null_iff (h : Ends ms t needs does result) :
    result = .error .nullSession ↔
      needs ∧ ms.sessionRegistry.lookup (ms.getClientId t) = none := by
  cases h with
  | served _ hserves _ =>
    refine iff_of_false (by simp) fun hboth => ?_
    have hl := lock_eq_some_iff.1 hserves.lock
    rw [← hserves.clientId, hboth.2] at hl
    cases hl
  | null hneeds hnone => exact iff_of_true rfl ⟨hneeds, hnone⟩
  | idle hother => exact iff_of_false (by simp) fun hboth => hother hboth.1

theorem pubackHandler_ends (packet : Packet) (t : ℕ) (ms : ManageSessions) :
    Ends ms t (∃ ack, packet.pkt = .ack ack) (fun r cs handled => ∃ ack, packet.pkt = .ack ack ∧
      handled = {
        state := ms.setSession r { cs.activeAt ms.now with
          inflight := cs.inflight.erase ack.packetId }
        returnCode := mqttOk }) (pubackHandler packet t ms) := by
  refine .of_serves ?_ ?_ fun hother => ?_
  · rintro r cs ⟨ack, hp⟩ hserves
    exact ⟨_, pubackHandler_eq hserves hp, ack, hp, rfl⟩
  · rintro ⟨ack, hp⟩ hnone
    unfold pubackHandler
    simp only [hp, derefSession_eq_null hnone]
    rfl
  · unfold pubackHandler
    split
    · next ack hp => exact absurd ⟨ack, hp⟩ hother
    · rfl

theorem pubrecHandler_ends (packet : Packet) (t : ℕ) (ms : ManageSessions) :
    Ends ms t (∃ ack, packet.pkt = .ack ack) (fun r cs handled => ∃ ack, packet.pkt = .ack ack ∧
      handled = {
        state := (ms.setSession r { cs.activeAt ms.now with
          inflightAck := cs.inflightAck.insertNew ack.packetId
            (buildAck ack.packetId .pubrel []).2 }).pushDataToSend t
              (buildAck ack.packetId .pubrel []).1
        returnCode := mqttOk
        buff := (buildAck ack.packetId .pubrel []).1 }) (pubrecHandler packet t ms) := by
  refine .of_serves ?_ ?_ fun hother => ?_
  · rintro r cs ⟨ack, hp⟩ hserves
    exact ⟨_, pubrecHandler_eq hserves hp, ack, hp, rfl⟩
  · rintro ⟨ack, hp⟩ hnone
    unfold pubrecHandler
    simp only [hp, derefSession_eq_null hnone]
    rfl
  · unfold pubrecHandler
    split
    · next ack hp => exact absurd ⟨ack, hp⟩ hother
    · rfl

theorem pubcompHandler_ends (packet : Packet) (t : ℕ) (ms : ManageSessions) :
    Ends ms t (∃ ack, packet.pkt = .ack ack) (fun r cs handled => ∃ ack, packet.pkt = .ack ack ∧
      handled = {
        state := ms.setSession r { cs.activeAt ms.now with
          inflightAck := cs.inflightAck.erase ack.packetId }
        returnCode := mqttOk }) (pubcompHandler packet t ms) := by
  refine .of_serves ?_ ?_ fun hother => ?_
  · rintro r cs ⟨ack, hp⟩ hserves
    exact ⟨_, pubcompHandler_eq hserves hp, ack, hp, rfl⟩
  · rintro ⟨ack, hp⟩ hnone
    unfold pubcompHandler
    simp only [hp, derefSession_eq_null hnone]
    rfl
  · unfold pubcompHandler
    split
    · next ack hp => exact absurd ⟨ack, hp⟩ hother
    · rfl

/-- The message that a PUBREL releases can be routed. -/
def Routes (p : Platform) (t : ℕ) (ms : ManageSessions) : Prop :=
  ∀ r cs (ack : Ack), Serves ms t r cs → (cs.inflight.find ack.packetId).header.type = .publish →
    ∃ ms' packet', routePacket p (cs.inflight.find ack.packetId) none
      (released r cs ack.packetId ms) = .ok (ms', packet')

/-- What a PUBREL does: the message that is there is released and routed. -/
def Releases (p : Platform) (packet : Packet) (t : ℕ) (ms : ManageSessions) (r : SessionRef)
    (cs : ClientSession) (handled : Handled) : Prop :=
  ∃ ack, packet.pkt = .ack ack ∧
    ((cs.inflight.find ack.packetId).header.type = .publish ∧ (∃ ms' packet',
        routePacket p (cs.inflight.find ack.packetId) none (released r cs ack.packetId ms) =
          .ok (ms', packet') ∧ handled = {
            state := ms'.pushDataToSend t (buildAck ack.packetId .pubcomp []).1
            returnCode := mqttOk
            buff := (buildAck ack.packetId .pubcomp []).1 }) ∨
      handled = {
        state := (released r cs ack.packetId ms).pushDataToSend t
          (buildAck ack.packetId .pubcomp []).1
        returnCode := -mqttErr
        buff := (buildAck ack.packetId .pubcomp []).1 })

theorem pubrelHandler_ends (packet : Packet) (hroute : Routes p t ms) :
    Ends ms t (∃ ack, packet.pkt = .ack ack) (Releases p packet t ms)
      (pubrelHandler p packet t ms) := by
  refine .of_serves ?_ ?_ fun hother => ?_
  · rintro r cs ⟨ack, hp⟩ hserves
    by_cases hf : (cs.inflight.find ack.packetId).header.type = .publish
    · obtain ⟨ms', packet', hr⟩ := hroute r cs ack hserves hf
      exact ⟨_, pubrelHandler_found hserves hp hf hr, ack, hp, .inl ⟨hf, ms', packet', hr, rfl⟩⟩
    · exact ⟨_, pubrelHandler_absent hserves hp hf, ack, hp, .inr rfl⟩
  · rintro ⟨ack, hp⟩ hnone
    unfold pubrelHandler
    simp only [hp, derefSession_eq_null hnone]
    rfl
  · unfold pubrelHandler
    split
    · next ack hp => exact absurd ⟨ack, hp⟩ hother
    · rfl

/-- A PUBLISH with QoS 2 or 3. -/
theorem publishHandler_ends (packet : Packet) (t : ℕ) (ms : ManageSessions)
    (h0 : packet.header.qos ≠ 0) (h1 : packet.header.qos ≠ 1) :
    Ends ms t (∃ pub, packet.pkt = .publish pub) (fun r cs handled => ∃ pub,
      packet.pkt = .publish pub ∧ handled = {
        state := (ms.setSession r { cs.activeAt ms.now with
          inflight := receivedInflight cs.inflight pub packet }).pushDataToSend t
            (buildAck pub.packetId .pubrec []).1
        returnCode := mqttOk
        buff := (buildAck pub.packetId .pubrec []).1 }) (publishHandler p packet t ms) := by
  refine .of_serves ?_ ?_ fun hother => ?_
  · rintro r cs ⟨pub, hp⟩ hserves
    exact ⟨_, publishHandler_stored hserves hp h0 h1, pub, hp, rfl⟩
  · rintro ⟨pub, hp⟩ hnone
    unfold publishHandler
    simp only [hp, if_neg h0, if_neg h1, derefSession_eq_null hnone]
    rfl
  · unfold publishHandler
    split
    · next pub hp => exact absurd ⟨pub, hp⟩ hother
    · rfl

/-- How a PUBLISH ends that is handled: with QoS 0 or 1 it is routed, and with a higher one stored
in the session. -/
theorem publishHandler_ok (ht : packet.header.type = .publish)
    (h : publishHandler p packet t ms = .ok handled) :
    (∃ pub ms' packet', packet.pkt = .publish pub ∧
        (packet.header.qos = 0 ∨ packet.header.qos = 1) ∧
        routePacket p packet none (ms.updateActivity (ms.getClientId t)) = .ok (ms', packet') ∧
        handled.returnCode = mqttOk ∧
        (handled.state = ms' ∨ ∃ data, handled.state = ms'.pushDataToSend t data)) ∨
      (∃ r cs pub, packet.pkt = .publish pub ∧
        ¬ (packet.header.qos = 0 ∨ packet.header.qos = 1) ∧ Serves ms t r cs ∧
        handled.returnCode = mqttOk ∧
        handled.state = (ms.setSession r { cs.activeAt ms.now with
          inflight := receivedInflight cs.inflight pub packet }).pushDataToSend t
            (buildAck pub.packetId .pubrec []).1) ∨
      (∀ pub, packet.pkt ≠ .publish pub) ∧ handled = { state := ms, returnCode := -mqttErr } := by
  cases hp : packet.pkt with
  | publish pub =>
    obtain ⟨ms₁, m, hroute, -, -⟩ := @routePacket_routed p packet pub
      (ms.updateActivity (ms.getClientId t)) ⟨ht, hp⟩ none
    by_cases h0 : packet.header.qos = 0
    · unfold publishHandler at h
      simp only [hp, if_pos h0, hroute, ok_bind] at h
      obtain rfl := Except.ok.inj h
      exact .inl ⟨pub, ms₁, _, rfl, .inl h0, hroute, rfl, .inl rfl⟩
    by_cases h1 : packet.header.qos = 1
    · unfold publishHandler at h
      simp only [hp, if_neg h0, if_pos h1, hroute, ok_bind] at h
      obtain rfl := Except.ok.inj h
      exact .inl ⟨pub, ms₁, _, rfl, .inr h1, hroute, rfl, .inr ⟨_, rfl⟩⟩
    -- QoS 2 needs the registered session, and there is a null pointer where it is missing
    rcases (publishHandler_ends packet t ms h0 h1).ok h with
      ⟨r, cs, hserves, pub', hp', rfl⟩ | ⟨hother, -⟩
    · cases hp.symm.trans hp'
      exact .inr (.inl ⟨r, cs, pub, rfl, not_or.2 ⟨h0, h1⟩, hserves, rfl, rfl⟩)
    · exact absurd ⟨pub, hp⟩ hother
  | _ =>
    unfold publishHandler at h
    rw [hp] at h
    obtain rfl := Except.ok.inj h
    exact .inr (.inr ⟨fun pub he => (by cases he), rfl⟩)

/-- How a PUBREL ends that is handled: the message that is there under its identifier is released
and routed, or nothing is routed. -/
theorem pubrelHandler_ok (h : pubrelHandler p packet t ms = .ok handled) :
    (∃ r cs ack, Serves ms t r cs ∧ packet.pkt = .ack ack ∧
      ((cs.inflight.find ack.packetId).header.type = .publish ∧
          (∃ ms' packet', routePacket p (cs.inflight.find ack.packetId) none
              (released r cs ack.packetId ms) = .ok (ms', packet') ∧
            handled.state = ms'.pushDataToSend t (buildAck ack.packetId .pubcomp []).1) ∨
        (cs.inflight.find ack.packetId).header.type ≠ .publish ∧
          handled.state = (released r cs ack.packetId ms).pushDataToSend t
            (buildAck ack.packetId .pubcomp []).1)) ∨
      (∀ ack, packet.pkt ≠ .ack ack) ∧ handled.state = ms := by
  by_cases hack : ∃ ack, packet.pkt = .ack ack
  · obtain ⟨ack, hp⟩ := hack
    refine .inl ?_
    cases hl : ms.sessionRegistry.lookup (ms.getClientId t) with
    | none =>
      unfold pubrelHandler at h
      simp only [hp, derefSession_eq_null hl] at h
      cases h
    | some entry =>
      have hserves := serves_of_lookup hl
      refine ⟨_, entry.state, ack, hserves, hp, ?_⟩
      by_cases hf : (entry.state.inflight.find ack.packetId).header.type = .publish
      · cases hroute : routePacket p (entry.state.inflight.find ack.packetId) none
            (released ⟨_, entry.obj⟩ entry.state ack.packetId ms) with
        | error e =>
          have hfind : (entry.state.activeAt ms.now).removeFromInflight ack.packetId =
            (entry.state.inflight.find ack.packetId, { entry.state.activeAt ms.now with
              inflight := entry.state.inflight.erase ack.packetId }) := rfl
          unfold pubrelHandler at h
          simp only [hp, hserves.updateActivity, hserves.derefSession_active, ok_bind, hfind,
            setSession_setSession hserves.lock, if_pos hf] at h
          obtain ⟨routed, h, -⟩ := except_bind_eq_ok.1 h
          cases hroute.symm.trans h
        | ok routed =>
          obtain ⟨ms₁, packet'⟩ := routed
          obtain rfl := Except.ok.inj ((pubrelHandler_found hserves hp hf hroute).symm.trans h)
          exact .inl ⟨hf, ms₁, packet', rfl, rfl⟩
      · obtain rfl := Except.ok.inj ((pubrelHandler_absent hserves hp hf).symm.trans h)
        exact .inr ⟨hf, rfl⟩
  · refine .inr ⟨fun ack hp => hack ⟨ack, hp⟩, ?_⟩
    unfold pubrelHandler at h
    split at h
    · next ack hp => exact absurd ⟨ack, hp⟩ hack
    · obtain rfl := Except.ok.inj h
      rfl

end Ending

end Culex
