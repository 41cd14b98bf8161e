import Culex.Resumption

/-!
# Rejected CONNECTs

The protocol level is checked when the old session has been disconnected, and removed or changed.
So a CONNECT with a level other than 4 leaves everything alone only where there was no session, or
an offline one that it would resume as it is.
-/

namespace Culex

open ManageSessions

/-- Sessions, the expiry heap and the transports of other clients are as they were. -/
structure LeavesAlone (clientId : Bytes) (ms ms' : ManageSessions) : Prop where
  registry : ∀ c, ms'.sessionRegistry.lookup c = ms.sessionRegistry.lookup c
  expiryHeap : ms'.expiryHeap = ms.expiryHeap
  transports : ∀ id, ms.getClientId id ≠ clientId →
    ms'.transports.lookup id = ms.transports.lookup id ∧
      ms'.lockTransport (some id) = ms.lockTransport (some id) ∧
        ∀ fd, ms'.sessions.lookup fd = some id ↔ ms.sessions.lookup fd = some id
  /-- Nothing is sent to other clients. -/
  sent : ∃ log, ms'.calls = ms.calls ++ log ∧
    ∀ id, ms.getClientId id ≠ clientId → sentTo id log = []

/-- A CONNECT that is going to be rejected finds no session, or one that it would leave as it is. -/
def Spares (cn : Connect) (ms : ManageSessions) : Prop :=
  ∀ entry, ms.sessionRegistry.lookup cn.clientId = some entry →
    cn.cf.cleansession = false ∧ entry.state.cleansession = false ∧
      entry.state.connected = false ∧ entry.state.keepAlive = cn.keepAlive ∧
        ∀ old, ms.lockTransport entry.state.session = some old → ms.getClientId old = cn.clientId ∨
          entry.state.inflight = ∅ ∧ entry.state.inflightAck = ∅

variable {p : Platform} {ms ms' ms₁ : ManageSessions} {packet : Packet} {cn : Connect} {t : ℕ}
  {entry : Registered} {log : List Call} {cs : ClientSession} {r : SessionRef}

/-! ### Resending -/

/-- A packet that is sent when it is resent. -/
def Resendable (packet : Packet) : Prop :=
  (∃ pub, IsPublish packet pub) ∨ packet.header.type = .pubrel

theorem resendMessages_eq (h : Resendable packet) (packetId : UInt16) :
    ∃ data, resendMessages p packet packetId t ms = .ok (ms.pushDataToSend t data) := by
  unfold resendMessages
  rcases h with ⟨pub, h⟩ | h
  · have hp : ({ packet with header := { packet.header with dup := true } } : Packet).pkt =
        .publish pub := h.pkt
    rw [h.type]
    simp only [buildPublish_eq p.toCore hp, ok_bind]
    exact ⟨_, rfl⟩
  · rw [h]
    exact ⟨_, rfl⟩

/-- Each packet of the map is sent once. -/
theorem resendAll_resendable {inflight : Inflight}
    (h : ∀ pair ∈ inflight.entries, Resendable pair.2) :
    ∃ log, resendAll p inflight t ms = .ok { ms with calls := ms.calls ++ log } ∧
      log.length = inflight.entries.length ∧ ∀ c ∈ log, ∃ data, c = .pushDataToSend t data := by
  unfold resendAll
  generalize inflight.entries = pairs at h ⊢
  induction pairs generalizing ms with
  | nil => exact ⟨[], by simp; rfl, rfl, by simp⟩
  | cons pair pairs ih =>
    obtain ⟨data, hdata⟩ := @resendMessages_eq p ms pair.2 t (h pair List.mem_cons_self) pair.1
    obtain ⟨log, hlog, hlength, hpush⟩ :=
      @ih (ms.pushDataToSend t data) fun pair' hp => h pair' (List.mem_cons_of_mem _ hp)
    refine ⟨.pushDataToSend t data :: log, ?_, by simp [hlength], ?_⟩
    · rw [List.foldlM_cons, hdata, ok_bind, hlog]
      simp [ManageSessions.pushDataToSend, record]
    · intro c hc
      rcases List.mem_cons.1 hc with rfl | hc
      · exact ⟨data, rfl⟩
      · exact hpush c hc

theorem Inflight.eq_empty_iff {inflight : Inflight} :
    inflight = ∅ ↔ inflight.entries.length = 0 := by
  rw [List.length_eq_zero_iff]
  exact ⟨fun h => h ▸ rfl, fun h => AList.ext h⟩

/-- What a session holds is sent to the transport that it had. -/
theorem resendPending_eq (hin : ∀ pair ∈ cs.inflight.entries, Resendable pair.2)
    (hack : ∀ pair ∈ cs.inflightAck.entries, Resendable pair.2) :
    ∃ log, resendPending p cs ms = .ok { ms with calls := ms.calls ++ log } ∧
      (∀ c ∈ log, ∃ id data, ms.lockTransport cs.session = some id ∧ c = .pushDataToSend id data) ∧
      (log = [] ↔ ∀ id, ms.lockTransport cs.session = some id →
        cs.inflight = ∅ ∧ cs.inflightAck = ∅) := by
  unfold resendPending
  cases ms.lockTransport cs.session with
  | none => exact ⟨[], by simp, by simp, by simp⟩
  | some old =>
    obtain ⟨log₁, h₁, hlength₁, hpush₁⟩ := @resendAll_resendable p ms old _ hin
    obtain ⟨log₂, h₂, hlength₂, hpush₂⟩ :=
      @resendAll_resendable p { ms with calls := ms.calls ++ log₁ } old _ hack
    refine ⟨log₁ ++ log₂, ?_, ?_, ?_⟩
    · simp only [h₁, ok_bind, h₂, List.append_assoc]
    · intro c hc
      obtain ⟨data, rfl⟩ := (List.mem_append.1 hc).elim (hpush₁ c) (hpush₂ c)
      exact ⟨old, data, rfl, rfl⟩
    · rw [List.append_eq_nil_iff, ← List.length_eq_zero_iff, ← List.length_eq_zero_iff, hlength₁,
        hlength₂, ← Inflight.eq_empty_iff, ← Inflight.eq_empty_iff]
      exact ⟨fun h _ _ => h, fun h => h old rfl⟩

/-- Everything that sessions hold is sent when it is resent. -/
def AllResendable (ms : ManageSessions) : Prop :=
  ∀ r cs, ms.lock r = some cs → (∀ pair ∈ cs.inflight.entries, Resendable pair.2) ∧
    ∀ pair ∈ cs.inflightAck.entries, Resendable pair.2

theorem Reachable.allResendable (hr : Reachable p ms) : AllResendable ms := by
  intro r cs hl
  constructor
  · intro pair hpair
    obtain ⟨pub, hpub, -⟩ :=
      (hr.sound.inflight r cs hl pair.1 pair.2 (AList.mem_lookup_iff.2 hpair)).publish
    exact .inl ⟨pub, hpub⟩
  · intro pair hpair
    exact .inr (hr.ackSound r cs hl pair.1 pair.2 (AList.mem_lookup_iff.2 hpair))

/-! ### The three ways of a rejected CONNECT -/

/-- Without a session there is nothing to change. -/
theorem leavesAlone_vacated (hl : ms.sessionRegistry.lookup cn.clientId = none) :
    LeavesAlone cn.clientId ms (vacated cn ms) := by
  have heq : vacated cn ms = { ms with nextObj := ms.nextObj + 1 } := by
    unfold vacated
    rw [hl]
  rw [heq]
  exact ⟨fun _ => rfl, rfl, fun _ _ => ⟨rfl, rfl, fun _ => Iff.rfl⟩,
    [], (List.append_nil _).symm, fun _ _ => rfl⟩

/-- Where a clean session is asked for, the old session is removed. -/
theorem not_leavesAlone_vacated (hl : ms.sessionRegistry.lookup cn.clientId = some entry) :
    ¬ LeavesAlone cn.clientId ms (vacated cn ms) := by
  intro h
  have hreg := h.registry cn.clientId
  rw [lookup_vacated, if_pos rfl, hl] at hreg
  cases hreg

theorem resumedSession_eq_iff : resumedSession cn cs = cs ↔
    cs.connected = false ∧ cs.keepAlive = cn.keepAlive ∧
      cs.cleansession = cn.cf.cleansession := by
  constructor
  · intro h
    exact ⟨(congrArg ClientSession.connected h).symm, (congrArg ClientSession.keepAlive h).symm,
      (congrArg ClientSession.cleansession h).symm⟩
  · rintro ⟨hconnected, hkeep, hclean⟩
    unfold resumedSession
    rw [offline_of_not_connected hconnected, ← hkeep, ← hclean]

/-- What is pushed to one transport reaches other clients unless the transport is the client's, or
nothing is pushed. -/
theorem sentTo_others_iff {old : Option ℕ} {clientId : Bytes}
    (hpush : ∀ c ∈ log, ∃ id data, old = some id ∧ c = .pushDataToSend id data) :
    (∀ id, ms.getClientId id ≠ clientId → sentTo id log = []) ↔
      ∀ id, old = some id → ms.getClientId id = clientId ∨ log = [] := by
  constructor
  · rintro h id rfl
    by_contra hneither
    push Not at hneither
    obtain ⟨hother, hlog⟩ := hneither
    obtain ⟨c, hc⟩ := List.exists_mem_of_ne_nil log hlog
    obtain ⟨id', data, hid, rfl⟩ := hpush c hc
    obtain rfl := Option.some.inj hid
    have hmem : data ∈ sentTo id log := List.mem_filterMap.2 ⟨_, hc, if_pos rfl⟩
    rw [h id hother] at hmem
    cases hmem
  · intro h id hother
    apply sentTo_eq_nil
    intro c hc
    obtain ⟨id', data, hid, rfl⟩ := hpush c hc
    refine ⟨id', data, ?_, rfl⟩
    rintro rfl
    rcases h id' hid with hsame | rfl
    · exact hother hsame
    · cases hc

/-- A CONNECT that resumes a session: what is sent, and the state afterwards if the session is
offline. -/
theorem connectHandler_resends (ha : AllResendable ms) (hp : packet.pkt = .connect cn)
    (hl : ms.sessionRegistry.lookup cn.clientId = some entry)
    (hclean : cn.cf.cleansession = false) :
    ∃ handled, connectHandler p packet t ms = .ok handled ∧
      (entry.state.connected = false → ∃ log, handled.state = { ms with
        sessionRegistry := handled.state.sessionRegistry
        calls := ms.calls ++ log } ∧
        (∀ c ∈ log, ∃ id data, ms.lockTransport entry.state.session = some id ∧
          c = .pushDataToSend id data) ∧
        (log = [] ↔ ∀ id, ms.lockTransport entry.state.session = some id →
          entry.state.inflight = ∅ ∧ entry.state.inflightAck = ∅)) := by
  obtain ⟨hin, hack⟩ := ha _ _ (lock_of_lookup hl)
  obtain ⟨log, hres, hpush, hempty⟩ := @resendPending_eq p
    (takeOver ⟨cn.clientId, entry.obj⟩ entry.state ms).1 entry.state hin hack
  have hh := connectHandler_resumed (p := p) (t := t) hp hl hclean
  rw [hres] at hh
  obtain ⟨handled, hh, hstate⟩ : ∃ handled, connectHandler p packet t ms = .ok handled ∧
      handled.state = ({ (takeOver ⟨cn.clientId, entry.obj⟩ entry.state ms).1 with
        calls := (takeOver ⟨cn.clientId, entry.obj⟩ entry.state ms).1.calls ++ log } :
          ManageSessions).setSession ⟨cn.clientId, entry.obj⟩ (resumedSession cn entry.state) :=
    ⟨_, hh, rfl⟩
  refine ⟨handled, hh, fun hconnected => ⟨log, ?_, ?_⟩⟩
  · rw [takeOver_of_not_connected hconnected] at hstate
    rw [hstate, setSession_eq]
  · rw [takeOver_of_not_connected hconnected] at hpush hempty
    exact ⟨hpush, hempty⟩

/-- A session that is resumed as it is. -/
theorem leavesAlone_resumed_iff (ha : AllResendable ms) (hp : packet.pkt = .connect cn)
    (hl : ms.sessionRegistry.lookup cn.clientId = some entry)
    (hclean : cn.cf.cleansession = false) :
    ∃ handled, connectHandler p packet t ms = .ok handled ∧
      (LeavesAlone cn.clientId ms handled.state ↔ resumedSession cn entry.state = entry.state ∧
        ∀ old, ms.lockTransport entry.state.session = some old →
          ms.getClientId old = cn.clientId ∨
            entry.state.inflight = ∅ ∧ entry.state.inflightAck = ∅) := by
  obtain ⟨handled, hh, hoffline⟩ := connectHandler_resends (t := t) ha hp hl hclean
  refine ⟨handled, hh, ?_⟩
  have hreg := (connectHandler_connects hp hh).1.client
  have hothers := (connectHandler_connects hp hh).1.others
  rw [registration, if_neg (not_renews_iff.2 ⟨⟨entry, hl⟩, hclean⟩), hl, Option.map_some] at hreg
  constructor
  · intro h
    have hsame : resumedSession cn entry.state = entry.state := by
      have hback := hreg.symm.trans ((h.registry cn.clientId).trans hl)
      exact congrArg Registered.state (Option.some.inj hback)
    refine ⟨hsame, fun old hold => ?_⟩
    obtain ⟨log, hstate, hpush, hempty⟩ := hoffline (resumedSession_eq_iff.1 hsame).1
    obtain ⟨log', hcalls, hsent⟩ := h.sent
    rw [hstate] at hcalls
    obtain rfl := List.append_cancel_left hcalls
    rcases (sentTo_others_iff hpush).1 hsent old hold with hmine | hnil
    · exact .inl hmine
    · exact .inr (hempty.1 hnil old hold)
  · rintro ⟨hsame, hold⟩
    obtain ⟨log, hstate, hpush, hempty⟩ := hoffline (resumedSession_eq_iff.1 hsame).1
    constructor
    case registry =>
      intro c
      by_cases hc : c = cn.clientId
      · rw [hc, hreg, hl, hsame]
      · exact hothers c hc
    case expiryHeap => rw [hstate]
    case transports =>
      intro id _
      rw [hstate]
      exact ⟨rfl, rfl, fun _ => Iff.rfl⟩
    case sent =>
      refine ⟨log, by rw [hstate], (sentTo_others_iff hpush).2 fun old hlocked => ?_⟩
      rcases hold old hlocked with hmine | hnothing
      · exact .inl hmine
      · exact .inr (hempty.2 fun _ _ => hnothing)

/-- **A rejected CONNECT changes nothing exactly if it spares the session that is there.** -/
theorem leavesAlone_iff (hr : Reachable p ms) (hp : packet.pkt = .connect cn)
    (hlevel : cn.level ≠ 4) : ∃ handled, connectHandler p packet t ms = .ok handled ∧
      handled.returnCode = mqttUnacceptableProtocolVersion ∧
        (LeavesAlone cn.clientId ms handled.state ↔ Spares cn ms) := by
  cases hl : ms.sessionRegistry.lookup cn.clientId with
  | none =>
    refine ⟨_, connectHandler_rejected hp (.inl hl) hlevel, rfl, ?_⟩
    refine iff_of_true (leavesAlone_vacated hl) fun entry hl' => ?_
    cases hl.symm.trans hl'
  | some entry =>
    cases hclean : cn.cf.cleansession with
    | true =>
      refine ⟨_, connectHandler_rejected hp (.inr hclean) hlevel, rfl, ?_⟩
      refine iff_of_false (not_leavesAlone_vacated hl) fun h => ?_
      cases hclean.symm.trans (h entry hl).1
    | false =>
      obtain ⟨handled, hh, hiff⟩ := leavesAlone_resumed_iff (t := t) hr.allResendable hp hl hclean
      have hcode := (connectHandler_connects hp hh).2.1
      refine ⟨handled, hh, hcode.trans (if_pos hlevel), hiff.trans ?_⟩
      rw [resumedSession_eq_iff, hclean]
      constructor
      · rintro ⟨⟨hconnected, hkeep, hflag⟩, hold⟩ entry' hl'
        obtain rfl := Option.some.inj (hl.symm.trans hl')
        exact ⟨hclean, hflag, hconnected, hkeep, hold⟩
      · intro h
        obtain ⟨-, hflag, hconnected, hkeep, hold⟩ := h entry hl
        exact ⟨⟨hconnected, hkeep, hflag⟩, hold⟩

/-- A CONNECT with protocol level 3. -/
def connectPacketOld (clientId : Bytes) : Packet where
  header := { type := .connect }
  pktLen := 15
  pkt := .connect { connectA true with clientId, level := 3 }

/-- A client without a session, while `A` is connected. -/
theorem leavesAlone_iff_stranger : ∃ handled,
    connectHandler .sorting (connectPacketOld [66]) 0 oneClient = .ok handled ∧
      LeavesAlone [66] oneClient handled.state := by
  have hnone : (oneClient.sessionRegistry.lookup [66]).isNone := by decide +kernel
  have hp : (connectPacketOld [66]).pkt =
      .connect { connectA true with clientId := [66], level := 3 } := rfl
  obtain ⟨handled, hh, -, hiff⟩ := leavesAlone_iff (t := 0)
    (after_reachable .sorting _ : Reachable .sorting oneClient) hp (by decide)
  refine ⟨handled, hh, hiff.2 fun entry hl => ?_⟩
  have hnone' : oneClient.sessionRegistry.lookup [66] = none := Option.isNone_iff_eq_none.1 hnone
  cases hnone'.symm.trans hl

/-- A CONNECT with protocol level 3 for the client id of `A`, which is connected, removes its
session. -/
theorem not_leavesAlone_evicted : Reachable .sorting oneClient ∧
    ∃ handled, connectHandler .sorting (connectPacketOld [65]) 2 oneClient = .ok handled ∧
      ¬ LeavesAlone [65] oneClient handled.state := by
  obtain ⟨handled, hh⟩ : ∃ handled,
      connectHandler .sorting (connectPacketOld [65]) 2 oneClient = .ok handled :=
    ⟨_, connectHandler_rejected rfl (.inr rfl) (by decide)⟩
  refine ⟨after_reachable _ _, handled, hh, fun h => ?_⟩
  have hsome : (oneClient.sessionRegistry.lookup [65]).isSome := by decide +kernel
  obtain ⟨entry, hl⟩ := Option.isSome_iff_exists.1 hsome
  have hp : (connectPacketOld [65]).pkt = .connect { connectA true with level := 3 } := rfl
  have hconnects := (connectHandler_connects hp hh).1
  have hgone : handled.state.sessionRegistry.lookup [65] = none := hconnects.client
  cases hgone.symm.trans ((h.registry [65]).trans hl)

end Culex
