import Culex.Downfall

/-!
# Relations over events

An event consists of a few kinds of steps.  What all of them do to a part of the broker, the event
does: `Event.apply_steps` takes a relation between states from the steps to the events, and
`dispatch_rel` from the changes of one session to the handlers.
-/

namespace Culex

open ManageSessions

variable {p : Platform} {R : ManageSessions → ManageSessions → Prop} {ms ms' : ManageSessions}
  {e : Event}

/-! ### Handlers -/

section Handlers

variable {packet : Packet} {t : ℕ} {handled : Handled}

/-- What the handler of a packet does to the session of its client. -/
inductive ClientSession.Acts (packet : Packet) (now : ℤ) (cs : ClientSession) :
    ClientSession → Prop
  | active : cs.Acts packet now (cs.activeAt now)
  | received {pub : Publish} (type : packet.header.type = .publish)
    (pkt : packet.pkt = .publish pub) :
    cs.Acts packet now { cs.activeAt now with
      inflight := receivedInflight cs.inflight pub packet }
  | released {ack : Ack} (type : packet.header.type = .puback ∨ packet.header.type = .pubrel)
    (pkt : packet.pkt = .ack ack) :
    cs.Acts packet now { cs.activeAt now with inflight := cs.inflight.erase ack.packetId }
  | acknowledged {ack : Ack} (type : packet.header.type = .pubrec) (pkt : packet.pkt = .ack ack) :
    cs.Acts packet now { cs.activeAt now with
      inflightAck := cs.inflightAck.insertNew ack.packetId
        (buildAck ack.packetId .pubrel []).2 }
  | completed {ack : Ack} (type : packet.header.type = .pubcomp) (pkt : packet.pkt = .ack ack) :
    cs.Acts packet now { cs.activeAt now with inflightAck := cs.inflightAck.erase ack.packetId }

theorem ClientSession.Acts.connected {now : ℤ} {cs cs' : ClientSession}
    (h : cs.Acts packet now cs') : cs'.connected = cs.connected := by
  cases h <;> rfl

/-- The changes that the handler of a client's packet consists of, as far as a relation is
concerned. -/
structure Handles (p : Platform) (packet : Packet) (t : ℕ) (clientId : Bytes)
    (R : ManageSessions → ManageSessions → Prop) : Prop where
  refl : ∀ a, R a a
  trans : ∀ {a b c}, R a b → R b c → R a c
  push : ∀ a data, R a (a.pushDataToSend t data)
  set : ∀ {a : ManageSessions} {r cs cs'}, a.lock r = some cs → clientId = r.clientId →
    cs.Acts packet a.now cs' → R a (a.setSession r cs')
  route : ∀ {a b packet pub packet'}, IsPublish packet pub →
    routePacket p packet none a = .ok (b, packet') → R a b

namespace Handles

theorem set_push (hR : Handles p packet t (ms.getClientId t) R) {r : SessionRef}
    {cs cs' : ClientSession} (h : Serves ms t r cs) (hacts : cs.Acts packet ms.now cs')
    (data : Bytes) : R ms ((ms.setSession r cs').pushDataToSend t data) :=
  hR.trans (hR.set h.lock h.clientId hacts) (hR.push _ data)

theorem updateActivity {clientId : Bytes} (hR : Handles p packet t clientId R) :
    R ms (ms.updateActivity clientId) := by
  cases hl : ms.sessionRegistry.lookup clientId with
  | none =>
    unfold ManageSessions.updateActivity
    rw [hl]
    exact hR.refl ms
  | some entry =>
    have hlock := lock_of_lookup hl
    rw [updateActivity_eq hlock]
    exact hR.set hlock rfl .active

theorem publishHandler (hR : Handles p packet t (ms.getClientId t) R)
    (ht : packet.header.type = .publish) (h : publishHandler p packet t ms = .ok handled) :
    R ms handled.state := by
  rcases publishHandler_ok ht h with ⟨pub, ms₁, packet', hp, -, hroute, -, hstate⟩ |
    ⟨r, cs, pub, hp, -, hserves, -, hstate⟩ | ⟨-, rfl⟩
  · have hrouted : R ms ms₁ := hR.trans hR.updateActivity (hR.route ⟨ht, hp⟩ hroute)
    rcases hstate with hstate | ⟨data, hstate⟩ <;> rw [hstate]
    · exact hrouted
    · exact hR.trans hrouted (hR.push _ _)
  · rw [hstate]
    exact hR.set_push hserves (.received ht hp) _
  · exact hR.refl ms

theorem pubrelHandler (hR : Handles p packet t (ms.getClientId t) R)
    (ht : packet.header.type = .pubrel) (h : pubrelHandler p packet t ms = .ok handled) :
    R ms handled.state := by
  rcases pubrelHandler_ok h with ⟨r, cs, ack, hserves, hp, hcases⟩ | ⟨-, hstate⟩
  · have hreleased : R ms (released r cs ack.packetId ms) :=
      hR.set hserves.lock hserves.clientId (.released (.inr ht) hp)
    rcases hcases with ⟨hf, ms₁, packet', hroute, hstate⟩ | ⟨-, hstate⟩
    · obtain ⟨pub, hpub⟩ := isPublish_of_routePacket hf hroute
      rw [hstate]
      exact hR.trans (hR.trans hreleased (hR.route hpub hroute)) (hR.push _ _)
    · rw [hstate]
      exact hR.trans hreleased (hR.push _ _)
  · rw [hstate]
    exact hR.refl ms

theorem subscribeHandler (hR : Handles p packet t (ms.getClientId t) R)
    (enters : ∀ sub, packet.pkt = .subscribe sub → R (ms.updateActivity (ms.getClientId t))
      { ms.updateActivity (ms.getClientId t) with
        topicTree := ms.topicTree.calls
          (requests (ms.sessionPresent (ms.getClientId t)) sub.payload) })
    (h : subscribeHandler p packet t ms = .ok handled) : R ms handled.state := by
  cases hp : packet.pkt with
  | subscribe sub =>
    rw [subscribeHandler_eq hp] at h
    obtain rfl := Except.ok.inj h
    exact hR.trans (hR.trans hR.updateActivity (enters sub hp)) (hR.push _ _)
  | _ =>
    unfold Culex.subscribeHandler at h
    rw [hp] at h
    obtain rfl := Except.ok.inj h
    exact hR.refl ms

end Handles

/-- **What the changes of a session do, the handlers do**; a SUBSCRIBE changes the tree as well. -/
theorem dispatch_rel (hR : Handles p packet t (ms.getClientId t) R)
    (ht : packet.header.type ≠ .connect)
    (enters : ∀ sub, packet.header.type = .subscribe → packet.pkt = .subscribe sub →
      R (ms.updateActivity (ms.getClientId t)) { ms.updateActivity (ms.getClientId t) with
        topicTree := ms.topicTree.calls
          (requests (ms.sessionPresent (ms.getClientId t)) sub.payload) })
    (h : dispatch p packet t ms = .ok handled) : R ms handled.state := by
  unfold dispatch handlers at h
  cases hty : packet.header.type <;> rw [hty] at h <;> simp only [PacketType.code] at h
  case connect => exact absurd hty ht
  case subscribe => exact hR.subscribeHandler (fun sub => enters sub hty) h
  case publish => exact hR.publishHandler hty h
  case puback =>
    rcases (pubackHandler_ends packet t ms).ok h with ⟨r, cs, hserves, ack, hp, rfl⟩ | ⟨-, rfl⟩
    · exact hR.set hserves.lock hserves.clientId (.released (.inl hty) hp)
    · exact hR.refl ms
  case pubrec =>
    rcases (pubrecHandler_ends packet t ms).ok h with ⟨r, cs, hserves, ack, hp, rfl⟩ | ⟨-, rfl⟩
    · exact hR.set_push hserves (.acknowledged hty hp) _
    · exact hR.refl ms
  case pubrel => exact hR.pubrelHandler hty h
  case pubcomp =>
    rcases (pubcompHandler_ends packet t ms).ok h with ⟨r, cs, hserves, ack, hp, rfl⟩ | ⟨-, rfl⟩
    · exact hR.set hserves.lock hserves.clientId (.completed hty hp)
    · exact hR.refl ms
  case unsubscribe =>
    have h : unsubscribeHandler packet t ms = .ok handled := h
    unfold unsubscribeHandler at h
    split at h
    · cases h
    · obtain rfl := Except.ok.inj h
      exact hR.refl ms
  case pingreq =>
    have h : pingreqHandler packet t ms = .ok handled := h
    obtain rfl := Except.ok.inj h
    exact hR.trans hR.updateActivity (hR.push _ _)
  case reserved15 => cases h
  all_goals
    obtain rfl := Except.ok.inj h
    exact hR.refl ms

end Handlers

/-! ### Events -/

/-- **The steps of an event**: the tables of sockets and transports change, bytes are pushed,
messages are resent, the sweep runs, a session is purged, a client connects, or another packet is
handled. -/
theorem Event.apply_steps (hs : Sound ms) (h : e.apply p ms = .ok ms')
    (trans : ∀ a b c, R a b → R b c → R a c)
    (tables : ∀ a b : ManageSessions, b.sessionRegistry = a.sessionRegistry →
      b.calls = a.calls → b.topicTree = a.topicTree → R a b)
    (push : ∀ a : ManageSessions, ∀ id pkt data, e.arrival p ms = .packet id pkt →
      R a (a.pushDataToSend id data))
    (resends : ∀ a b entry, Sound a → Resends p a entry b → R a b)
    (expires : ∀ popped heap, e = .processExpiredSessions → Expires p ms popped heap ms' →
      R ms ms')
    (purges : ∀ id old, e.arrival p ms = .malformed id →
      ms.sessionRegistry.lookup (ms.getClientId id) = some old →
        R ms ((purge (ms.getClientId id) old ms).forceDisconnect id))
    (connects : ∀ id pkt cn handled, e.arrival p ms = .packet id pkt →
      pkt.header.type = .connect → pkt.pkt = .connect cn →
        connectHandler p pkt id (takeOut pkt id ms) = .ok handled →
          R (takeOut pkt id ms) handled.state)
    (handles : ∀ id pkt handled, e.arrival p ms = .packet id pkt → pkt.header.type ≠ .connect →
      dispatch p pkt id (takeOut pkt id ms) = .ok handled → R (takeOut pkt id ms) handled.state) :
    R ms ms' := by
  have refl : ∀ a, R a a := fun a => tables a a rfl rfl rfl
  cases e with
  | newConnection fd =>
    obtain rfl := Except.ok.inj h
    exact tables _ _ rfl rfl rfl
  | closeConnection fd =>
    obtain rfl := Except.ok.inj h
    exact tables _ _ rfl rfl rfl
  | tick elapsed =>
    obtain rfl := Except.ok.inj h
    exact tables _ _ rfl rfl rfl
  | receive id data =>
    simp only [apply] at h
    split at h
    · obtain rfl := Except.ok.inj h
      exact refl ms
    · obtain rfl := Except.ok.inj h
      rw [setTransport_eq]
      exact tables _ _ rfl rfl rfl
  | processRetransmissions => exact processRetransmissions_rel refl trans resends hs h
  | processExpiredSessions =>
    obtain ⟨popped, heap, hexpires⟩ := processExpiredSessions_expires h
    exact expires popped heap rfl hexpires
  | parseData id beyond =>
    have hparses := parses_of_apply h
    generalize Event.arrival p (.parseData id beyond) ms = arrival at *
    cases hparses with
    | nothing => exact tables _ _ rfl rfl rfl
    | @malformed old hl => exact trans _ _ _ (purges id old rfl hl) (tables _ _ rfl rfl rfl)
    | @packet pkt handled ms₁ hd hf =>
      have hcalm : Calm none [] ms (takeOut pkt id ms) := takeOut_calm
      have hcalls : (takeOut pkt id ms).calls = ms.calls := by
        rw [hcalm.calls, List.append_nil]
      have htake : R ms (takeOut pkt id ms) := tables _ _ sessionRegistry_takeOut hcalls
        (topicTree_setTransport _ _)
      have hs₁ : Sound (takeOut pkt id ms) := (Tame.setTransport _ _).sound hs
      have hend : R ms₁ (endTask id ms₁) := tables _ _ rfl rfl rfl
      refine trans _ _ _ htake (trans _ _ _ ?_ hend)
      rcases dispatch_cases hs₁ hd hf with ⟨cn, ht, hp, hhandle, rfl⟩ | ⟨-, -, hstate, hsame⟩
      · have hpush := push handled.state id pkt handled.buff rfl
        have hfinish : R (handled.state.pushDataToSend id handled.buff)
            (finishConnect cn id handled.buff handled.state) := by
          rw [finishConnect_eq]
          exact tables _ _ rfl rfl rfl
        exact trans _ _ _ (connects id pkt cn handled rfl ht hp hhandle)
          (trans _ _ _ hpush hfinish)
      · by_cases ht : pkt.header.type = .connect
        · rw [(hsame ht).2]
          exact refl _
        · rw [hstate]
          exact handles id pkt handled rfl ht hd

/-- **What the steps of an event do, the event does**, whoever connects and whatever is swept. -/
theorem Event.apply_rel (hs : Sound ms) (h : e.apply p ms = .ok ms')
    (trans : ∀ a b c, R a b → R b c → R a c)
    (tables : ∀ a b : ManageSessions, b.sessionRegistry = a.sessionRegistry →
      b.calls = a.calls → b.topicTree = a.topicTree → R a b)
    (push : ∀ a : ManageSessions, ∀ id data, R a (a.pushDataToSend id data))
    (sweeps : ∀ a b, Sweeps a b → R a b)
    (resends : ∀ a b entry, Sound a → Resends p a entry b → R a b)
    (connects : ∀ a b cn id, a.nextObj = ms.nextObj → Connects cn id a b → R a b)
    (handles : ∀ id pkt handled, e.arrival p ms = .packet id pkt → pkt.header.type ≠ .connect →
      dispatch p pkt id (takeOut pkt id ms) = .ok handled → R (takeOut pkt id ms) handled.state) :
    R ms ms' := by
  refine e.apply_steps hs h trans tables (fun a id _ data _ => push a id data) resends
    (fun _ _ _ hexp => sweeps _ _ hexp.sweeps)
    (fun id old _ _ => sweeps _ _ ((purge_sweeps _ old).trans (.forceDisconnect id)))
    (fun id pkt cn handled _ _ hp hhandle => ?_) handles
  have hcalm : Calm none [] ms (takeOut pkt id ms) := takeOut_calm
  exact connects _ _ cn id hcalm.nextObj (connectHandler_connects hp hhandle).1

end Culex
