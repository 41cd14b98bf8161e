import Culex.Jamming
import Culex.Stepping
import Culex.Waking

/-!
# What a session holds on to

A PUBLISH that has been sent with a positive QoS, or a PUBREL, is to be sent again until the client
has acknowledged it.  Whatever happens to the broker in the meantime, the session holds on to it:
through other clients' packets, retransmissions, the loss of the connection, sweeps and a CONNECT
that resumes the session.

* `Stage.EndedBy`: the packets that take something out of the map of a stage, a PUBREL among those
  of the first, since the messages a client sends with QoS 2 are held in the same map;
* `Event.apply_retains`: what one event keeps;
* `held_of_run`: what is not acknowledged is held after any run.
-/

namespace Culex

open ManageSessions

/-- What is held for a client: the PUBLISHes it has been sent, and the PUBRELs. -/
inductive Stage
  | publish
  | pubrel

def ClientSession.held (cs : ClientSession) : Stage → Inflight
  | .publish => cs.inflight
  | .pubrel => cs.inflightAck

/-- The packets whose handlers take something out. -/
def Stage.EndedBy : Stage → PacketType → Prop
  | .publish, type => type = .puback ∨ type = .pubrel
  | .pubrel, type => type = .pubcomp

/-- The client of a session acknowledges an identifier. -/
def Arrival.Acknowledges (stage : Stage) (r : SessionRef) (k : UInt16) (ms : ManageSessions) :
    Arrival → Prop
  | .packet id pkt => stage.EndedBy pkt.header.type ∧ ms.getClientId id = r.clientId ∧
      ∃ ack, pkt.pkt = .ack ack ∧ ack.packetId = k
  | .nothing => False
  | .malformed _ => False

/-- If the session is alive afterwards, it was alive before, and what it held under the identifier
is held. -/
def Retains (stage : Stage) (r : SessionRef) (k : UInt16) (ms ms' : ManageSessions) : Prop :=
  ∀ cs', ms'.lock r = some cs' → ∃ cs, ms.lock r = some cs ∧
    ∀ pkt, (cs.held stage).lookup k = some pkt → (cs'.held stage).lookup k = some pkt

variable {p : Platform} {stage : Stage} {r r' : SessionRef} {k : UInt16}
  {ms ms' ms₁ : ManageSessions} {cs cs' : ClientSession} {packet : Packet} {pub : Publish}
  {handled : Handled} {t id : ℕ} {e : Event} {events : List Event} {cn : Connect}

namespace Retains

/-! ### Steps -/

theorem of_lock (h : ∀ cs', ms'.lock r = some cs' → ms.lock r = some cs') :
    Retains stage r k ms ms' := fun cs' hl' => ⟨cs', h cs' hl', fun _ hk => hk⟩

theorem of_registry (h : ms'.sessionRegistry = ms.sessionRegistry) : Retains stage r k ms ms' :=
  of_lock fun _ hl' => (lock_congr h r).symm.trans hl'

theorem refl (ms : ManageSessions) : Retains stage r k ms ms := of_registry rfl

theorem trans (h : Retains stage r k ms ms₁) (h' : Retains stage r k ms₁ ms') :
    Retains stage r k ms ms' := by
  intro cs' hl'
  obtain ⟨cs₁, hl₁, hkept₁⟩ := h' cs' hl'
  obtain ⟨cs, hl, hkept⟩ := h cs₁ hl₁
  exact ⟨cs, hl, fun pkt hk => hkept₁ pkt (hkept pkt hk)⟩

/-- A session is changed, and holds on to what it held. -/
theorem setSession (hl : ms.lock r' = some cs) (h : r' = r →
    ∀ pkt, (cs.held stage).lookup k = some pkt → (cs'.held stage).lookup k = some pkt) :
    Retains stage r k ms (ms.setSession r' cs') := by
  intro cs₁ hl₁
  rw [lock_setSession] at hl₁
  split_ifs at hl₁ with he
  · rw [hl] at hl₁
    obtain rfl := Option.some.inj hl₁
    exact ⟨cs, he ▸ hl, h he.symm⟩
  · exact ⟨cs₁, hl₁, fun _ hk => hk⟩

theorem of_sweeps (h : Sweeps ms ms') : Retains stage r k ms ms' := by
  intro cs' hl'
  obtain ⟨cs, hl, hswept⟩ := h.alive r cs' hl'
  refine ⟨cs, hl, fun pkt hk => ?_⟩
  rw [hswept.eq]
  cases stage with
  | publish => exact hk
  | pubrel => exact hk

theorem of_routed (h : Routed packet pub ms ms') : Retains stage r k ms ms' := by
  intro cs' hl'
  cases hl : ms.lock r with
  | none => cases (h.dead r hl).symm.trans hl'
  | some cs =>
    obtain ⟨cs₁, hl₁, hkept⟩ := h.alive r cs hl
    obtain rfl := Option.some.inj (hl₁.symm.trans hl')
    refine ⟨cs, rfl, fun pkt hk => ?_⟩
    cases stage with
    | publish => exact hkept.stays k pkt hk
    | pubrel =>
      show cs₁.inflightAck.lookup k = some pkt
      rw [hkept.inflightAck]
      exact hk

theorem routePacket (h : IsPublish packet pub) {session : Option SessionRef} {packet' : Packet}
    (hroute : routePacket p packet session ms = .ok (ms', packet')) :
    Retains stage r k ms ms' := by
  obtain ⟨ms₁, m, hroute', hrouted, -⟩ := @routePacket_routed p packet pub ms h session
  obtain ⟨rfl, -⟩ := Prod.mk.inj (Except.ok.inj (hroute'.symm.trans hroute))
  have hstart : Retains stage r k ms (routeStart packet pub ms) := of_registry rfl
  exact hstart.trans (of_routed hrouted)

/-! ### Handlers -/

/-- What is stored under an identifier stays when something else comes. -/
theorem lookup_insertNew_of_some {m : Inflight} {i : UInt16} {pkt new : Packet}
    (h : m.lookup k = some pkt) : (m.insertNew i new).lookup k = some pkt := by
  rw [Inflight.lookup_insertNew]
  split_ifs with he
  · rw [← he, h, Option.getD_some]
  · exact h

/-- The handler of a packet that does not acknowledge the identifier. -/
theorem of_acts {now : ℤ} (h : cs.Acts packet now cs') {pkt : Packet}
    (hno : ∀ ack, stage.EndedBy packet.header.type → packet.pkt = .ack ack → ack.packetId ≠ k)
    (hk : (cs.held stage).lookup k = some pkt) : (cs'.held stage).lookup k = some pkt := by
  cases stage with
  | publish =>
    cases h with
    | active => exact hk
    | @received pub =>
      show (receivedInflight cs.inflight pub packet).lookup k = some pkt
      unfold receivedInflight
      split_ifs
      · exact lookup_insertNew_of_some hk
      · exact hk
    | released hty hp => exact (AList.lookup_erase_ne (hno _ hty hp).symm).trans hk
    | acknowledged => exact hk
    | completed => exact hk
  | pubrel =>
    cases h with
    | active => exact hk
    | received => exact hk
    | released => exact hk
    | acknowledged => exact lookup_insertNew_of_some hk
    | completed hty hp => exact (AList.lookup_erase_ne (hno _ hty hp).symm).trans hk

theorem handles (hno : ¬ (Arrival.packet id packet).Acknowledges stage r k ms) :
    Handles p packet id (ms.getClientId id) (Retains stage r k) where
  refl := refl
  trans := trans
  push _ _ := of_registry rfl
  set hl hc hacts := by
    refine setSession hl fun he pkt => of_acts hacts fun ack hend hp hid => hno ?_
    exact ⟨hend, hc.trans (congrArg SessionRef.clientId he), ack, hp, hid⟩
  route h := routePacket h

/-- A packet that is no CONNECT is handled. -/
theorem dispatch (ht : packet.header.type ≠ .connect)
    (h : dispatch p packet id ms = .ok handled)
    (hno : ¬ (Arrival.packet id packet).Acknowledges stage r k ms) :
    Retains stage r k ms handled.state :=
  dispatch_rel (handles hno) ht (fun _ _ _ => of_registry rfl) h

/-- A CONNECT resumes the session, or replaces it. -/
theorem connects (h : Connects cn id ms ms') (hr : r.obj < ms.nextObj) :
    Retains stage r k ms ms' := by
  intro cs' hl'
  rcases lock_connects h hl' with ⟨hobj, -⟩ | ⟨cs, hl, hcs'⟩
  · -- what has been registered is a new object
    omega
  · refine ⟨cs, hl, fun pkt hk => ?_⟩
    rcases hcs' with rfl | rfl
    · exact hk
    · cases stage with
      | publish => exact hk
      | pubrel => exact hk

theorem resends (hs : Sound ms) {entry : RetransmitEntry} (h : Resends p ms entry ms') :
    Retains stage r k ms ms' := by
  obtain ⟨cs, packet, pub, ms₁, hr, rfl⟩ := h.spec hs
  obtain ⟨packet', hroute⟩ := hr.route
  exact (routePacket hr.isPublish.withDup hroute).trans (of_registry rfl)

end Retains

/-! ### Events -/

/-- **An event that does not acknowledge** leaves the session what it holds. -/
theorem Event.apply_retains (hs : Sound ms) (hr : r.obj < ms.nextObj)
    (hno : ¬ (e.arrival p ms).Acknowledges stage r k ms) (h : e.apply p ms = .ok ms') :
    Retains stage r k ms ms' := by
  refine e.apply_rel hs h (fun _ _ _ => .trans) (fun _ _ hreg _ _ => .of_registry hreg)
    (fun _ _ _ => .of_registry rfl) (fun _ _ => .of_sweeps) (fun _ _ _ hs hres => .resends hs hres)
    (fun _ _ _ _ hnext hconnects => .connects hconnects (hnext ▸ hr)) ?_
  intro id pkt handled harrival ht hd
  refine .dispatch ht hd fun hack => hno ?_
  obtain ⟨hend, hc, hpkt⟩ := hack
  rw [harrival]
  exact ⟨hend, getClientId_takeOut ▸ hc, hpkt⟩

/-! ### Runs -/

/-- A client acknowledges with an event. -/
def Event.Acknowledges (p : Platform) (stage : Stage) (r : SessionRef) (k : UInt16)
    (ms : ManageSessions) (e : Event) : Prop := (e.arrival p ms).Acknowledges stage r k ms

/-- **What is not acknowledged is held**: over any run in which the client does not acknowledge the
identifier, a session that is alive at the end holds what it held. -/
theorem held_of_run (hr : Reachable p ms) (hl : ms.lock r = some cs)
    (hk : (cs.held stage).lookup k = some packet)
    (hrun : Run (Meeting (BrokerStep p) fun ms e => ¬ e.Acknowledges p stage r k ms) ms events ms')
    (hl' : ms'.lock r = some cs') : (cs'.held stage).lookup k = some packet := by
  have hkept : Reachable p ms' ∧ r.obj < ms'.nextObj ∧
      ∀ cs', ms'.lock r = some cs' → (cs'.held stage).lookup k = some packet := by
    refine hrun.invariant (I := fun ms => Reachable p ms ∧ r.obj < ms.nextObj ∧
      ∀ cs', ms.lock r = some cs' → (cs'.held stage).lookup k = some packet)
      ⟨hr, hr.allocated.registered r cs hl, ?_⟩ ?_
    · intro cs₁ hl₁
      obtain rfl := Option.some.inj (hl.symm.trans hl₁)
      exact hk
    · rintro ms₁ e ms₂ ⟨hr₁, hobj, hheld⟩ ⟨hno, hstep⟩
      refine ⟨hr₁.step hstep, hobj.trans_le (e.nextObj_le hr₁ hstep), fun cs₂ hl₂ => ?_⟩
      obtain ⟨cs₁, hl₁, hkeeps⟩ := e.apply_retains hr₁.sound hobj hno hstep cs₂ hl₂
      exact hkeeps packet (hheld cs₁ hl₁)
  exact hkept.2.2 cs' hl'

/-- The client of `idleBroker` loses its connection, and the message that it has not acknowledged is
sent again to nobody. -/
theorem held_of_run_idle : ∃ packet ms' cs', Event.apply .sorting .processRetransmissions
      { idleBroker.removeSession 3 with now := idleBroker.now + 6000 } = .ok ms' ∧
    ms'.lock ⟨[65], 1⟩ = some cs' ∧ (cs'.held .publish).lookup 7 = some packet := by
  have hclient : (idleBroker.lock ⟨[65], 1⟩).any fun cs =>
      ((cs.held .publish).lookup 7).isSome = true := by decide +kernel
  have hend : (Event.apply .sorting .processRetransmissions
      { idleBroker.removeSession 3 with now := idleBroker.now + 6000 }).toOption.any fun ms' =>
        (ms'.lock ⟨[65], 1⟩).isSome = true := by decide +kernel
  obtain ⟨cs, hl, hsome⟩ := exists_of_any hclient
  obtain ⟨packet, hk⟩ := Option.isSome_iff_exists.1 hsome
  obtain ⟨ms', hok, halive⟩ := exists_of_any_ok hend
  obtain ⟨cs', hl'⟩ := Option.isSome_iff_exists.1 halive
  have hrun : Run (Meeting (BrokerStep .sorting) fun ms e =>
      ¬ e.Acknowledges .sorting .publish ⟨[65], 1⟩ 7 ms) idleBroker
        [.closeConnection 3, .tick 6000, .processRetransmissions] ms' :=
    ((Run.nil.snoc ⟨id, rfl⟩).snoc ⟨id, rfl⟩).snoc ⟨id, hok⟩
  exact ⟨packet, ms', cs', hok, hl', held_of_run (after_reachable _ _) hl hk hrun hl'⟩

end Culex
