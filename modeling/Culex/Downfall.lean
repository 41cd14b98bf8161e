import Culex.KeepAlive
import Culex.Lookups

/-!
# How the broker ends

The faults of the model are the ways the broker can end: an exception nobody catches, a null pointer
or a read that leaves memory, and a loop without an end.  Of the many places that could fail few
do.  What is stored is usable when it is routed or resent, a packet has the fields its handler asks
for, and the code of a packet that was unpacked is inside the jump table of the handlers.

* `Downfall`: the three ways that are left, the decoder, a missing session and the expiry sweep;
* `Event.apply_error_iff`: an event ends a reachable broker exactly in one of them;
* `serve_error_iff`: so does a whole run.
-/

namespace Culex

open ByteReader ManageSessions

/-- The ways an event ends the broker. -/
inductive Downfall (p : Platform) (ms : ManageSessions) : Event → Fault → Prop
  /-- The decoder fails on what has been received. -/
  | decoder {id : ℕ} {beyond : Mem} {t : Transport} {fault : Fault} (htask : id ∈ ms.tasks)
      (hl : ms.transports.lookup id = some t)
      (hu : unpack p.toCore t.recvBuff.length (holding t.recvBuff beyond) 0 = .error fault) :
      Downfall p ms (.parseData id beyond) fault
  /-- What arrives asks for a session that is not registered. -/
  | missing {e : Event} {id : ℕ} (hasks : (e.arrival p ms).AsksFor id)
      (hnone : ms.sessionRegistry.lookup (ms.getClientId id) = none) :
      Downfall p ms e .nullSession
  /-- An entry of the expiry heap is due, and its session is gone. -/
  | stuck {entry : ExpiryEntry} (hmem : entry ∈ ms.expiryHeap.entries)
      (hdue : entry.expiryMs ≤ ms.now) (hdead : ms.lock entry.session = none) :
      Downfall p ms .processExpiredSessions .endless

variable {p : Platform} {ms ms' : ManageSessions} {e : Event} {fault : Fault} {id t : ℕ}
  {packet : Packet} {handled : Handled} {events : List Event}

/-! ### Handling a packet -/

/-- A handler that needs the session of its transport returns, or there is none. -/
theorem Ends.returns_or {needs : Prop} {does : SessionRef → ClientSession → Handled → Prop}
    {result : Except Fault Handled} (h : Ends ms t needs does result) :
    (∃ handled, result = .ok handled) ∨ result = .error .nullSession := by
  cases h with
  | served _ _ _ => exact .inl ⟨_, rfl⟩
  | null _ _ => exact .inr rfl
  | idle _ => exact .inl ⟨_, rfl⟩

/-- A PUBLISH with any QoS. -/
theorem publishHandler_returns_or (ht : packet.header.type = .publish) :
    (∃ handled, publishHandler p packet t ms = .ok handled) ∨
      publishHandler p packet t ms = .error .nullSession := by
  cases hp : packet.pkt with
  | publish pub =>
    by_cases hq : packet.header.qos ≠ 0 ∧ packet.header.qos ≠ 1
    · exact (publishHandler_ends packet t ms hq.1 hq.2).returns_or
    · obtain ⟨ms', m, hroute, -⟩ := @routePacket_routed p packet pub
        (ms.updateActivity (ms.getClientId t)) ⟨ht, hp⟩ none
      refine .inl ?_
      unfold publishHandler
      simp only [hp, hroute, ok_bind]
      split_ifs with h0 h1
      · exact ⟨_, rfl⟩
      · exact ⟨_, rfl⟩
      · exact absurd ⟨h0, h1⟩ hq
  | _ =>
    unfold publishHandler
    rw [hp]
    exact .inl ⟨_, rfl⟩

/-- What has been unpacked is handled, or its session is missing. -/
theorem dispatch_returns_or (hs : Sound ms) (ha : AllResendable ms) {core : Core} {n q : ℕ}
    {mem : Mem} (hu : unpack core n mem 0 = .ok ((mqttOk, packet), q)) :
    (∃ handled, dispatch p packet t ms = .ok handled) ∨
      dispatch p packet t ms = .error .nullSession := by
  obtain ⟨-, len, k, l, -, ho, -⟩ := exists_outcome hu
  unfold dispatch handlers
  cases ho with
  | connect ht =>
    rw [ht]
    exact .inl (connectHandler_returns ha)
  | publish ht =>
    rw [ht]
    exact publishHandler_returns_or ht
  | ack ht =>
    rcases ht with ht | ht | ht | ht <;> rw [ht]
    · exact (pubackHandler_ends _ t ms).returns_or
    · exact (pubrecHandler_ends _ t ms).returns_or
    · exact (pubrelHandler_ends _ hs.routes).returns_or
    · exact (pubcompHandler_ends _ t ms).returns_or
  | subscribe ht =>
    rw [ht]
    exact .inl ⟨_, rfl⟩
  | unsubscribe ht =>
    rw [ht]
    exact .inl ⟨_, rfl⟩

/-- What follows a handler does not fail. -/
theorem finish_returns (hs : Sound ms) (h : dispatch p packet t ms = .ok handled) :
    ∃ ms', finish packet t handled = .ok ms' := by
  by_cases ht : packet.header.type = .connect
  · have hhandle : connectHandler p packet t ms = .ok handled := by
      unfold dispatch handlers at h
      rw [ht] at h
      exact h
    cases hp : packet.pkt with
    | connect cn =>
      obtain ⟨-, hcode, -⟩ := connectHandler_connects hp hhandle
      exact ⟨_, finish_connect hp hcode⟩
    | _ =>
      unfold connectHandler at hhandle
      rw [hp] at hhandle
      obtain rfl := Except.ok.inj hhandle
      exact ⟨_, finish_settled (.inr rfl)⟩
  · exact ⟨_, finish_settled (dispatch_settles hs ht h).returnCode⟩

/-! ### The events -/

theorem parseData_downfall {beyond : Mem} (hr : Reachable p ms) (htask : id ∈ ms.tasks)
    (h : parseData p id beyond ms = .error fault) : Downfall p ms (.parseData id beyond) fault := by
  have hnull : fault = .nullSession → Downfall p ms (.parseData id beyond) fault := by
    rintro rfl
    obtain ⟨id', hasks, hnone⟩ := (parseData_null_iff hr htask).1 h
    exact .missing hasks hnone
  unfold parseData at h
  cases hl : ms.transports.lookup id with
  | none =>
    rw [hl] at h
    cases h
  | some t =>
    simp only [hl] at h
    cases hu : unpack p.toCore t.recvBuff.length (holding t.recvBuff beyond) 0 with
    | error fault' =>
      rw [hu] at h
      obtain rfl : fault' = fault := Except.error.inj h
      exact .decoder htask hl hu
    | ok result =>
      obtain ⟨⟨rc, pkt⟩, cursor⟩ := result
      rw [hu] at h
      simp only [ok_bind] at h
      refine hnull ?_
      split_ifs at h with hrc hpartial
      · rw [hrc] at hu
        have hs : Sound (takeOut pkt id ms) := (Tame.setTransport _ _).sound hr.sound
        rcases @dispatch_returns_or p (takeOut pkt id ms) id pkt hs hr.allResendable.takeOut _ _ _ _
          hu with ⟨handled, hd⟩ | hd
        · obtain ⟨ms', hf⟩ := finish_returns hs hd
          have hd' : dispatch p pkt id (setTransport id
            (fun t => { t with recvBuff := t.recvBuff.drop pkt.pktLen }) ms) = .ok handled := hd
          rw [hd', ok_bind, hf] at h
          cases h
        · have hd' : dispatch p pkt id (setTransport id
            (fun t => { t with recvBuff := t.recvBuff.drop pkt.pktLen }) ms) =
              .error .nullSession := hd
          rw [hd'] at h
          exact (Except.error.inj h).symm
      · cases h
      · unfold derefSession at h
        cases hreg : ms.sessionRegistry.lookup (ms.getClientId id) with
        | none =>
          rw [hreg] at h
          exact (Except.error.inj h).symm
        | some entry =>
          rw [hreg] at h
          cases h

/-- The sweep returns where the sessions of all due entries are alive. -/
theorem processExpiredSessions_returns (h : DueAlive ms) :
    ∃ ms', ms.processExpiredSessions p = .ok ms' := by
  obtain ⟨sweep, ms', hok, -⟩ := @collectExpired_ends p ms h _ (Nat.lt_succ_self _) {}
  unfold processExpiredSessions
  rw [hok]
  exact ⟨_, rfl⟩

/-- It does not end where one of them is gone. -/
theorem processExpiredSessions_endless {entry : ExpiryEntry}
    (hmem : entry ∈ ms.expiryHeap.entries) (hdue : entry.expiryMs ≤ ms.now)
    (hdead : ms.lock entry.session = none) :
    ms.processExpiredSessions p = .error .endless := by
  unfold processExpiredSessions
  rw [collectExpired_endless hmem hdue hdead]
  rfl

/-- **An event ends a reachable broker exactly in the three ways.** -/
theorem Event.apply_error_iff (hr : Reachable p ms) :
    e.apply p ms = .error fault ↔ Downfall p ms e fault := by
  constructor
  · intro h
    cases e with
    | parseData id beyond =>
      simp only [Event.apply] at h
      split_ifs at h with htask
      exact parseData_downfall hr htask (except_map_eq_error.1 h)
    | processExpiredSessions =>
      by_cases halive : DueAlive ms
      · obtain ⟨ms', hok⟩ := @processExpiredSessions_returns p ms halive
        cases hok.symm.trans h
      · unfold DueAlive at halive
        push Not at halive
        obtain ⟨entry, hmem, hdue, hdead⟩ := halive
        have hdead : ms.lock entry.session = none := by simpa using hdead
        have hendless := @processExpiredSessions_endless p ms entry hmem hdue hdead
        obtain rfl := Except.error.inj (hendless.symm.trans h)
        exact .stuck hmem hdue hdead
    | processRetransmissions =>
      obtain ⟨es, ms', hok, -⟩ := @processRetransmissions_run p ms hr.sound
      cases hok.symm.trans h
    | receive id data =>
      simp only [Event.apply] at h
      split at h <;> cases h
    | newConnection fd => cases h
    | closeConnection fd => cases h
    | tick elapsed => cases h
  · intro h
    cases h with
    | @decoder id beyond t fault htask hl hu =>
      have hparse : Culex.parseData p id beyond ms = .error fault := by
        unfold Culex.parseData
        simp only [hl, hu]
        rfl
      simp only [Event.apply, if_pos htask, hparse]
      rfl
    | missing hasks hnone => exact (Event.apply_null_iff hr).2 ⟨_, hasks, hnone⟩
    | stuck hmem hdue hdead => exact processExpiredSessions_endless hmem hdue hdead

/-- **Serving events ends exactly at the first event that is the downfall of the broker.** -/
theorem serve_error_iff : serve p events = .error fault ↔ ∃ before e rest ms,
    events = before ++ e :: rest ∧ serve p before = .ok ms ∧ Downfall p ms e fault := by
  have hfirst : serve p events = .error fault ↔ ∃ before e rest ms,
      events = before ++ e :: rest ∧ serve p before = .ok ms ∧ e.apply p ms = .error fault :=
    foldlM_eq_error_iff
  rw [hfirst]
  constructor
  · rintro ⟨before, e, rest, ms, he, hserve, h⟩
    exact ⟨before, e, rest, ms, he, hserve, (Event.apply_error_iff (reachable_of_serve hserve)).1 h⟩
  · rintro ⟨before, e, rest, ms, he, hserve, h⟩
    exact ⟨before, e, rest, ms, he, hserve, (Event.apply_error_iff (reachable_of_serve hserve)).2 h⟩

end Culex
