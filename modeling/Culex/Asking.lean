import Culex.Stepping
import Culex.TopicMap

/-!
# What clients ask for

Subscriptions come from SUBSCRIBE packets only, and each names the session that is registered for
the client of its transport.  Everything else leaves them as they are (`Event.apply_requests`).
-/

namespace Culex

open ManageSessions

/-- The subscriptions that a packet asks for. -/
def Arrival.requests (ms : ManageSessions) : Arrival → List TreeCall
  | .nothing => []
  | .packet id pkt =>
    match pkt.header.type, pkt.pkt with
    | .subscribe, .subscribe sub =>
      Culex.requests (ms.sessionPresent (ms.getClientId id)) sub.payload
    | _, _ => []
  | .malformed _ => []

/-- The subscriptions that an event asks for. -/
def Event.requests (p : Platform) (e : Event) (ms : ManageSessions) : List TreeCall :=
  (e.arrival p ms).requests ms

variable {p : Platform} {ms ms' : ManageSessions} {e : Event} {packet : Packet} {pub : Publish}
  {id t : ℕ} {handled : Handled} {op : TreeCall}

/-- A request is made for a session that is registered. -/
theorem mem_requests {clientId : Bytes} {payload : List Tuple}
    (h : op ∈ requests (ms.sessionPresent clientId) payload) :
    ∃ filter r qos, op = .subscribe filter r qos ∧ ms.sessionPresent r.clientId = some r := by
  cases hpresent : ms.sessionPresent clientId with
  | none =>
    rw [hpresent] at h
    cases h
  | some r =>
    rw [hpresent] at h
    obtain ⟨tuple, -, rfl⟩ := List.mem_map.1 h
    refine ⟨tuple.topic, r, tuple.qos, rfl, ?_⟩
    obtain ⟨entry, -, rfl⟩ := Option.map_eq_some_iff.1 hpresent
    exact hpresent

theorem Event.mem_requests (h : op ∈ e.requests p ms) :
    ∃ filter r qos, op = .subscribe filter r qos ∧ ms.sessionPresent r.clientId = some r := by
  unfold Event.requests Arrival.requests at h
  split at h
  · cases h
  · split at h
    · exact Culex.mem_requests h
    · cases h
  · cases h

/-! ### Who asks for nothing -/

/-- Nobody has subscribed. -/
def SameRows (ms ms' : ManageSessions) : Prop := ms'.topicTree.table = ms.topicTree.table

theorem SameRows.routePacket (h : IsPublish packet pub) {packet' : Packet}
    (hroute : routePacket p packet none ms = .ok (ms', packet')) : SameRows ms ms' := by
  obtain ⟨ms₁, m, hok, hrouted, -⟩ := @routePacket_routed p packet pub ms h none
  rw [hroute] at hok
  obtain ⟨rfl, -⟩ := Prod.mk.inj (Except.ok.inj hok)
  unfold SameRows
  rw [hrouted.topicTree]
  exact TopicTree.table_match pub.topic

theorem SameRows.handles (packet : Packet) (clientId : Bytes) :
    Handles p packet t clientId SameRows where
  refl _ := rfl
  trans h h' := Eq.trans h' h
  push _ _ := rfl
  set _ _ _ := by
    unfold SameRows
    rw [setSession_eq]
  route h := SameRows.routePacket h

theorem SameRows.resends (hs : Sound ms) {entry : RetransmitEntry} (h : Resends p ms entry ms') :
    SameRows ms ms' := by
  obtain ⟨cs, packet, pub, ms₁, hr, rfl⟩ := h.spec hs
  obtain ⟨packet', hroute⟩ := hr.route
  have hrows : SameRows ms ms₁ := SameRows.routePacket hr.isPublish.withDup hroute
  exact hrows

/-- A packet that is no SUBSCRIBE. -/
theorem sameRows_dispatch (ht : packet.header.type ≠ .connect)
    (hsub : ∀ sub, packet.header.type = .subscribe → packet.pkt ≠ .subscribe sub)
    (h : dispatch p packet t ms = .ok handled) : SameRows ms handled.state :=
  dispatch_rel (SameRows.handles packet _) ht (fun sub hty hp => absurd hp (hsub sub hty)) h

theorem Arrival.requests_subscribe {sub : Subscribe} (ht : packet.header.type = .subscribe)
    (hp : packet.pkt = .subscribe sub) : (Arrival.packet t packet).requests ms =
      Culex.requests (ms.sessionPresent (ms.getClientId t)) sub.payload := by
  simp only [Arrival.requests, ht, hp]

/-- Anything but a SUBSCRIBE asks for nothing. -/
theorem Arrival.requests_eq_nil {arrival : Arrival}
    (h : ∀ id pkt sub, arrival = .packet id pkt → pkt.header.type = .subscribe →
      pkt.pkt ≠ .subscribe sub) : arrival.requests ms = [] := by
  unfold Arrival.requests
  split
  · rfl
  · next id pkt =>
    split
    · next sub ht hp => exact absurd hp (h id pkt sub rfl ht)
    · rfl
  · rfl

theorem Event.sameRows (hs : Sound ms) (h : e.apply p ms = .ok ms')
    (hsub : ∀ id pkt sub, e.arrival p ms = .packet id pkt → pkt.header.type = .subscribe →
      pkt.pkt ≠ .subscribe sub) : SameRows ms ms' := by
  refine e.apply_rel hs h (fun _ _ _ h h' => Eq.trans h' h)
    (fun _ _ _ _ htree => congrArg TopicTree.table htree) (fun _ _ _ => rfl) (fun a b hsweeps => ?_)
    (fun _ _ _ hs hres => .resends hs hres) (fun a b cn id _ hconnects => ?_) ?_
  · unfold SameRows
    rw [hsweeps.eq]
  · exact congrArg TopicTree.table hconnects.topicTree
  · intro id pkt handled harrival ht hd
    exact sameRows_dispatch ht (fun sub hty => hsub id pkt sub harrival hty) hd

/-! ### What a SUBSCRIBE does -/

/-- The task that finds a SUBSCRIBE makes its requests. -/
theorem Event.topicTree_subscribe {sub : Subscribe} (hs : Sound ms) (h : e.apply p ms = .ok ms')
    (harrival : e.arrival p ms = .packet id packet) (ht : packet.header.type = .subscribe)
    (hp : packet.pkt = .subscribe sub) : ms'.topicTree =
      ms.topicTree.calls (Culex.requests (ms.sessionPresent (ms.getClientId id)) sub.payload) := by
  cases e with
  | parseData id' beyond =>
    have hparses := parses_of_apply h
    rw [harrival] at hparses
    cases hparses with
    | @packet pkt handled ms₁ hd hf =>
      have hs₁ : Sound (takeOut packet id ms) := (Tame.setTransport _ _).sound hs
      have hhandle : subscribeHandler p packet id (takeOut packet id ms) = .ok handled := by
        unfold dispatch handlers at hd
        rw [ht] at hd
        exact hd
      have hsame : (takeOut packet id ms).sessionPresent
          ((takeOut packet id ms).getClientId id) = ms.sessionPresent (ms.getClientId id) := by
        rw [getClientId_takeOut, sessionPresent_congr sessionRegistry_takeOut]
      have hstate : ms₁ = handled.state := by
        rcases dispatch_cases hs₁ hd hf with ⟨cn, hty, -⟩ | ⟨-, -, hstate, -⟩
        · rw [ht] at hty
          cases hty
        · exact hstate
      show ms₁.topicTree = _
      rw [hstate, ← Except.ok.inj ((subscribeHandler_eq hp).symm.trans hhandle), ← hsame]
      exact congrArg (TopicTree.calls · _) (topicTree_setTransport _ _)
  | _ => cases harrival

/-- **An event makes the requests of the packet that it finds**, and leaves the subscriptions as they
are if there are none. -/
theorem Event.apply_requests (hs : Sound ms) (h : e.apply p ms = .ok ms') :
    e.requests p ms = [] ∧ SameRows ms ms' ∨
      ms'.topicTree = ms.topicTree.calls (e.requests p ms) := by
  by_cases hsub : ∃ id pkt sub, e.arrival p ms = .packet id pkt ∧
    pkt.header.type = .subscribe ∧ pkt.pkt = .subscribe sub
  · obtain ⟨id, pkt, sub, harrival, ht, hp⟩ := hsub
    right
    unfold Event.requests
    rw [harrival, Arrival.requests_subscribe ht hp]
    exact Event.topicTree_subscribe hs h harrival ht hp
  · have hother : ∀ id pkt sub, e.arrival p ms = .packet id pkt →
        pkt.header.type = .subscribe → pkt.pkt ≠ .subscribe sub :=
      fun id pkt sub harrival ht hp => hsub ⟨id, pkt, sub, harrival, ht, hp⟩
    exact .inl ⟨Arrival.requests_eq_nil hother, Event.sameRows hs h hother⟩

end Culex
