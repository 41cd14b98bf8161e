import Culex.ExactlyOnce

/-!
# Inbound and outbound identifiers

The messages a client publishes with QoS 2 and the messages the broker delivers to it are inflight
in one map, and their identifiers come from two sources that know nothing of each other.  The two
directions keep apart as long as their identifiers do.

* `SessionStep`: a packet from the client, or a delivery to it;
* `Apart`: the step uses no identifier for both directions;
* `releases_agree`: over runs of such steps, what PUBRELs route depends on the inbound packets only.
-/

namespace Culex

open ManageSessions
open Handshake hiding Event

/-- What happens to a session: an inbound packet, a delivery, or the client's reply to one. -/
inductive SessionAction
  | inbound (a : Inbound)
  | deliver (packet : Packet) (pub : Publish) (h : IsPublish packet pub)
  | puback (m : AckPacket)
  | pubrec (m : AckPacket)
  | pubcomp (m : AckPacket)

/-- The inbound packet of an action. -/
def SessionAction.inbound? : SessionAction → Option Inbound
  | .inbound a => some a
  | .deliver .. => none
  | .puback _ => none
  | .pubrec _ => none
  | .pubcomp _ => none

/-- The effect of an action on the session `r`, whose client sends on the transport `t`. -/
def SessionAction.apply (p : Platform) (t : ℕ) (r : SessionRef) :
    SessionAction → ManageSessions → Except Fault ManageSessions
  | .inbound a, ms => (a.handle p t ms).map Handled.state
  | .deliver packet _ _, ms => sendToClient p (some r) packet ms
  | .puback m, ms => (pubackHandler m.packet t ms).map Handled.state
  | .pubrec m, ms => (pubrecHandler m.packet t ms).map Handled.state
  | .pubcomp m, ms => (pubcompHandler m.packet t ms).map Handled.state

/-- The state of the broker, with the inbound packets so far. -/
structure Observed where
  inbound : List Inbound := []
  state : ManageSessions

/-- The action happens. -/
def SessionStep (p : Platform) (t : ℕ) (r : SessionRef) (s : Observed) (a : SessionAction)
    (s' : Observed) : Prop :=
  a.apply p t r s.state = .ok s'.state ∧ s'.inbound = s.inbound ++ a.inbound?.toList

/-- Carry out an action. -/
def Observed.next (p : Platform) (t : ℕ) (r : SessionRef) (s : Observed) (a : SessionAction) :
    Option Observed :=
  match a.apply p t r s.state with
  | .ok state => some { inbound := s.inbound ++ a.inbound?.toList, state }
  | .error _ => none

/-- The QoS 2 message that the client has published under an identifier, and not released. -/
def Observed.unreleased (s : Observed) : UInt16 → Option Packet :=
  pending (fun _ => none) (s.inbound.map Inbound.event)

/-- The identifier of an inbound packet. -/
def Inbound.packetId : Inbound → UInt16
  | .publish m => m.pub.packetId
  | .pubrel m => m.ack.packetId

/-- The action uses no identifier for both directions: a PUBACK is not for an unreleased message,
and what the client publishes or releases anew is not inflight. -/
def Apart (r : SessionRef) (s : Observed) : SessionAction → Prop
  | .inbound a => s.unreleased a.packetId = none →
      (s.state.lock r).bind (fun cs => cs.inflight.lookup a.packetId) = none
  | .deliver .. => True
  | .puback m => s.unreleased m.ack.packetId = none
  | .pubrec _ => True
  | .pubcomp _ => True

instance (r : SessionRef) (s : Observed) : (a : SessionAction) → Decidable (Apart r s a)
  | .inbound a => inferInstanceAs (Decidable (s.unreleased a.packetId = none →
      (s.state.lock r).bind (fun cs => cs.inflight.lookup a.packetId) = none))
  | .deliver .. => inferInstanceAs (Decidable True)
  | .puback m => inferInstanceAs (Decidable (s.unreleased m.ack.packetId = none))
  | .pubrec _ => inferInstanceAs (Decidable True)
  | .pubcomp _ => inferInstanceAs (Decidable True)

/-- Carry out an action that keeps the directions apart. -/
def Observed.nextApart (p : Platform) (t : ℕ) (r : SessionRef) (s : Observed)
    (a : SessionAction) : Option Observed :=
  if Apart r s a then s.next p t r a else none

/-! ### Everything unreleased is inflight -/

section Steps

variable {p : Platform} {t : ℕ} {r : SessionRef} {cs cs' : ClientSession}
  {ms ms' : ManageSessions} {packet : Packet} {pub : Publish}

theorem Routed.serves (h : Routed packet pub ms ms') (hs : Serves ms t r cs) :
    ∃ cs', Serves ms' t r cs' ∧ SessionKept packet pub cs cs' := by
  obtain ⟨cs', hl, hk⟩ := h.alive r cs hs.lock
  refine ⟨cs', ⟨?_, hl⟩, hk⟩
  unfold getClientId
  rw [h.transports]
  exact hs.clientId

/-- Receiving a PUBLISH discards nothing. -/
theorem receivedInflight_stays {inflight : Inflight} {k : UInt16} {pkt : Packet}
    (h : inflight.lookup k = some pkt) :
    (receivedInflight inflight pub packet).lookup k = some pkt := by
  unfold receivedInflight
  split_ifs
  · rw [Inflight.lookup_insertNew]
    split_ifs with hk
    · rw [← hk, h, Option.getD_some]
    · exact h
  · exact h

/-- Under a free identifier it stores the message. -/
theorem receivedInflight_new {inflight : Inflight} (h : inflight.lookup pub.packetId = none) :
    (receivedInflight inflight pub packet).lookup pub.packetId = some packet := by
  have hfind : (inflight.find pub.packetId).pktLen = 0 := by
    rw [Inflight.find, h]
    rfl
  unfold receivedInflight
  rw [if_pos hfind, Inflight.lookup_insertNew, if_pos rfl, h, Option.getD_none]

/-- What the client has not released can be routed. -/
theorem pending_stored (inbound : List Inbound) :
    ∀ k packet, pending (fun _ => none) (inbound.map Inbound.event) k = some packet →
      Stored k packet := by
  induction inbound using List.reverseRecOn with
  | nil =>
    intro k packet hp
    cases hp
  | append_singleton inbound a ih =>
    intro k packet hp
    rw [List.map_append, List.map_singleton] at hp
    cases a with
    | publish m =>
      rw [Inbound.event, pending_put, Option.or_eq_some_iff] at hp
      rcases hp with hp | ⟨-, hp⟩
      · exact ih k packet hp
      · split_ifs at hp with hk
        cases hp
        exact hk ▸ m.stored
    | pubrel m =>
      rw [Inbound.event, pending_release] at hp
      split_ifs at hp
      exact ih k packet hp

/-- The session holds everything unreleased, and the broker has routed what was released. -/
structure Carried (t : ℕ) (r : SessionRef) (start : List Packet) (s : Observed) : Prop where
  session : ∃ cs, Serves s.state t r cs ∧
    ∀ k packet, s.unreleased k = some packet → cs.inflight.lookup k = some packet
  routed : s.state.routed = start ++ emitted (fun _ => none) (s.inbound.map Inbound.event)

variable {start : List Packet} {s : Observed}

theorem unreleased_append (a : Inbound) :
    (Observed.mk (s.inbound ++ [a]) ms).unreleased =
      pending (fun _ => none) (s.inbound.map Inbound.event ++ [a.event]) := by
  unfold Observed.unreleased
  rw [List.map_append, List.map_singleton]

/-- A step that routes nothing for the client and discards nothing it has not released. -/
theorem Carried.quiet (h : Carried t r start s) (hs : Serves s.state t r cs)
    (hs' : Serves ms' t r cs')
    (hstays : ∀ k packet, s.unreleased k = some packet → cs.inflight.lookup k = some packet →
      cs'.inflight.lookup k = some packet) (hr : ms'.routed = s.state.routed) :
    Carried t r start ⟨s.inbound ++ [], ms'⟩ := by
  obtain ⟨cs₀, hs₀, hall⟩ := h.session
  cases hs₀.lock.symm.trans hs.lock
  rw [List.append_nil]
  exact ⟨⟨cs', hs', fun k packet hu => hstays k packet hu (hall k packet hu)⟩, hr.trans h.routed⟩

/-- The client publishes. -/
theorem Carried.publish (h : Carried t r start s) (m : Qos2Publish)
    (hapart : Apart r s (.inbound (.publish m))) :
    ∃ handled, publishHandler p m.packet t s.state = .ok handled ∧
      Carried t r start ⟨s.inbound ++ [.publish m], handled.state⟩ := by
  obtain ⟨cs, hs, hall⟩ := h.session
  refine ⟨_, publishHandler_stored hs m.isPublish.pkt m.qos_ne.1 m.qos_ne.2,
    ⟨_, (hs.setSession _).pushDataToSend _, fun k packet hu => ?_⟩, ?_⟩
  · rw [unreleased_append, Inbound.event, pending_put, Option.or_eq_some_iff] at hu
    rcases hu with hu | ⟨hnone, hu⟩
    · exact receivedInflight_stays (hall k packet hu)
    · split_ifs at hu with hk
      cases hu
      subst hk
      have hfree : cs.inflight.lookup m.pub.packetId = none := by
        have := hapart hnone
        rwa [hs.lock, Option.bind_some] at this
      exact receivedInflight_new hfree
  · rw [List.map_append, List.map_singleton, emitted_append]
    refine (routed_pushDataToSend _).trans ((routed_setSession _).trans (h.routed.trans ?_))
    exact congrArg (start ++ ·) (List.append_nil _).symm

/-- The client releases. -/
theorem Carried.pubrel (h : Carried t r start s) (m : AckPacket)
    (hapart : Apart r s (.inbound (.pubrel m))) :
    ∃ handled, pubrelHandler p m.packet t s.state = .ok handled ∧
      Carried t r start ⟨s.inbound ++ [.pubrel m], handled.state⟩ := by
  obtain ⟨cs, hs, hall⟩ := h.session
  have hs' : Serves (released r cs m.ack.packetId s.state) t r { cs.activeAt s.state.now with
      inflight := cs.inflight.erase m.ack.packetId } := hs.setSession _
  have hrel : (released r cs m.ack.packetId s.state).routed = s.state.routed :=
    routed_setSession _
  -- what is still unreleased after this has another identifier
  have hall' : ∀ k packet, pending (fun _ => none)
      (s.inbound.map Inbound.event ++ [.release m.ack.packetId]) k = some packet →
        (cs.inflight.erase m.ack.packetId).lookup k = some packet := by
    intro k packet hu
    rw [pending_release] at hu
    split_ifs at hu with hk
    rw [AList.lookup_erase_ne (Ne.symm hk)]
    exact hall k packet hu
  cases hp : s.unreleased m.ack.packetId with
  | none =>
    -- nothing is inflight under the identifier, and the default packet is no PUBLISH
    have hlookup : cs.inflight.lookup m.ack.packetId = none := by
      have := hapart hp
      rwa [hs.lock, Option.bind_some] at this
    have hfind : (cs.inflight.find m.ack.packetId).header.type ≠ .publish := by
      rw [Inflight.find, hlookup]
      decide
    refine ⟨_, pubrelHandler_absent hs m.pkt hfind,
      ⟨_, hs'.pushDataToSend _, fun k packet hu => ?_⟩, ?_⟩
    · rw [unreleased_append] at hu
      exact hall' k packet hu
    · rw [List.map_append, List.map_singleton, emitted_append]
      refine (routed_pushDataToSend _).trans (hrel.trans (h.routed.trans ?_))
      have hnone : pending (fun _ => none) (s.inbound.map Inbound.event) m.ack.packetId = none := hp
      simp [Inbound.event, hnone]
  | some packet =>
    -- the unreleased message is inflight, and routing it keeps the other ones
    have hfind := Inflight.find_of_lookup (hall _ _ hp)
    obtain ⟨pub, hpub, -⟩ := (pending_stored s.inbound _ _ hp).publish
    obtain ⟨ms', q, hroute, hrouted, -⟩ := @routePacket_routed p packet pub
      (released r cs m.ack.packetId s.state) hpub none
    have hserves : Serves (routeStart packet pub (released r cs m.ack.packetId s.state)) t r
        { cs.activeAt s.state.now with inflight := cs.inflight.erase m.ack.packetId } :=
      ⟨hs'.clientId, hs'.lock⟩
    obtain ⟨cs', hs'', hkept⟩ := hrouted.serves hserves
    rw [← hfind] at hroute
    have hfound : (cs.inflight.find m.ack.packetId).header.type = .publish := by
      rw [hfind]
      exact hpub.type
    refine ⟨_, pubrelHandler_found hs m.pkt hfound hroute,
      ⟨_, hs''.pushDataToSend _, fun k packet hu => ?_⟩, ?_⟩
    · rw [unreleased_append] at hu
      exact hkept.stays k packet (hall' k packet hu)
    · rw [List.map_append, List.map_singleton, emitted_append, ← List.append_assoc, ← h.routed]
      refine (routed_pushDataToSend _).trans ?_
      have hsome : pending (fun _ => none) (s.inbound.map Inbound.event) m.ack.packetId =
        some packet := hp
      rw [hrouted.routed, routed_routeStart, hrel]
      simp [Inbound.event, hsome]

/-- **One step.** -/
theorem Carried.step (h : Carried t r start s) {a : SessionAction} {s' : Observed}
    (hapart : Apart r s a) (hstep : SessionStep p t r s a s') : Carried t r start s' := by
  obtain ⟨cs, hs, hall⟩ := h.session
  obtain ⟨inbound', ms'⟩ := s'
  obtain ⟨happly, hin⟩ := hstep
  simp only at happly hin
  subst hin
  cases a with
  | inbound a =>
    cases a with
    | publish m =>
      obtain ⟨handled, hh, hc⟩ := @Carried.publish p t r start s h m hapart
      have happly : (publishHandler p m.packet t s.state).map Handled.state = .ok ms' := happly
      rw [hh] at happly
      cases happly
      exact hc
    | pubrel m =>
      obtain ⟨handled, hh, hc⟩ := @Carried.pubrel p t r start s h m hapart
      have happly : (pubrelHandler p m.packet t s.state).map Handled.state = .ok ms' := happly
      rw [hh] at happly
      cases happly
      exact hc
  | deliver packet pub hpub =>
    have happly : sendToClient p (some r) packet s.state = .ok ms' := happly
    rw [sendToClient_publish p hpub hs.lock] at happly
    cases happly
    have hrouted : Routed packet pub s.state (delivered p r cs packet pub s.state) :=
      delivered_routed hs.lock
    obtain ⟨cs', hs', hkept⟩ := hrouted.serves hs
    -- what is inflight stays, also under the identifier of the delivered message
    exact h.quiet hs hs' (fun k packet _ => hkept.stays k packet) hrouted.routed
  | puback m =>
    have happly : (pubackHandler m.packet t s.state).map Handled.state = .ok ms' := happly
    rw [pubackHandler_eq hs m.pkt] at happly
    cases happly
    -- the identifier that is erased is not one of an unreleased message
    refine h.quiet hs (hs.setSession _) (fun k packet hu hl => ?_) (routed_setSession _)
    have hk : k ≠ m.ack.packetId := by
      rintro rfl
      cases hu.symm.trans hapart
    exact (AList.lookup_erase_ne hk).trans hl
  | pubrec m =>
    have happly : (pubrecHandler m.packet t s.state).map Handled.state = .ok ms' := happly
    rw [pubrecHandler_eq hs m.pkt] at happly
    cases happly
    exact h.quiet hs ((hs.setSession _).pushDataToSend _) (fun _ _ _ hl => hl)
      ((routed_pushDataToSend _).trans (routed_setSession _))
  | pubcomp m =>
    have happly : (pubcompHandler m.packet t s.state).map Handled.state = .ok ms' := happly
    rw [pubcompHandler_eq hs m.pkt] at happly
    cases happly
    exact h.quiet hs (hs.setSession _) (fun _ _ _ hl => hl) (routed_setSession _)

/-- A run whose steps keep the directions apart routes what the client releases. -/
theorem run_carried {actions : List SessionAction} (hs : Serves ms t r cs)
    (hrun : Run (Meeting (SessionStep p t r) (Apart r)) { state := ms } actions s) :
    Carried t r ms.routed s := by
  refine hrun.invariant ⟨⟨cs, hs, fun k packet hu => ?_⟩, ?_⟩ fun _ _ _ h hstep =>
    h.step hstep.1 hstep.2
  · cases hu
  · simp [emitted]

/-- The inbound packets are those of the actions. -/
theorem run_inbound {actions : List SessionAction}
    (hrun : Run (SessionStep p t r) { state := ms } actions s) :
    s.inbound = actions.filterMap SessionAction.inbound? := by
  refine hrun.history (I := fun actions s =>
    s.inbound = actions.filterMap SessionAction.inbound?) rfl fun actions s a s' ih hstep => ?_
  rw [hstep.2, ih, List.filterMap_append]
  cases h : a.inbound? <;> simp [h]

/-- **What PUBRELs route depends on the inbound packets only**, in runs whose steps keep the
directions apart. -/
theorem releases_agree {ms₁ ms₂ : ManageSessions} {cs₁ cs₂ : ClientSession} {s₁ s₂ : Observed}
    {actions₁ actions₂ : List SessionAction}
    (hs₁ : Serves ms₁ t r cs₁) (hs₂ : Serves ms₂ t r cs₂)
    (hrun₁ : Run (Meeting (SessionStep p t r) (Apart r)) { state := ms₁ } actions₁ s₁)
    (hrun₂ : Run (Meeting (SessionStep p t r) (Apart r)) { state := ms₂ } actions₂ s₂)
    (hin : actions₁.filterMap SessionAction.inbound? = actions₂.filterMap SessionAction.inbound?) :
    ∃ packets, s₁.state.routed = ms₁.routed ++ packets ∧
      s₂.state.routed = ms₂.routed ++ packets := by
  have hsame : s₁.inbound = s₂.inbound := by
    rw [run_inbound hrun₁.of_meeting, run_inbound hrun₂.of_meeting, hin]
  refine ⟨emitted (fun _ => none) (s₁.inbound.map Inbound.event),
    (run_carried hs₁ hrun₁).routed, ?_⟩
  rw [hsame]
  exact (run_carried hs₂ hrun₂).routed

theorem step_of_next {a : SessionAction} {s' : Observed} (h : s.next p t r a = some s') :
    SessionStep p t r s a s' := by
  unfold Observed.next at h
  split at h
  · next state happly =>
    cases h
    exact ⟨happly, rfl⟩
  · cases h

theorem step_of_nextApart {a : SessionAction} {s' : Observed}
    (h : s.nextApart p t r a = some s') : Meeting (SessionStep p t r) (Apart r) s a s' := by
  unfold Observed.nextApart at h
  split_ifs at h with hapart
  exact ⟨hapart, step_of_next h⟩

end Steps

/-- The client `A` publishes 2 to `u` under the identifier 7, and releases it. -/
def publishAndRelease : List SessionAction :=
  [.inbound (.publish ⟨⟨{ type := .publish, qos := 2 }, 8, .publish ⟨[117], 7, [2]⟩⟩, ⟨[117], 7, [2]⟩,
      ⟨rfl, rfl⟩, rfl, by decide⟩),
    .inbound (.pubrel ⟨{ pkt := .ack ⟨7⟩ }, ⟨7⟩, rfl⟩)]

/-- A delivery to `A` of a message that its publisher calls 8, and its acknowledgment. -/
def deliverEight : List SessionAction :=
  [.deliver { header := { type := .publish, qos := 1 }, pktLen := 8, pkt := .publish ⟨[116], 8, [1]⟩ }
      ⟨[116], 8, [1]⟩ ⟨rfl, rfl⟩,
    .puback ⟨{ pkt := .ack ⟨8⟩ }, ⟨8⟩, rfl⟩]

/-- A delivery under another identifier makes no difference. -/
theorem releases_agree_deliverEight :
    ∃ s₁ s₂ packets,
      Run (SessionStep .sorting 0 ⟨[65], 1⟩) { state := oneSubscriber } publishAndRelease s₁ ∧
        Run (SessionStep .sorting 0 ⟨[65], 1⟩) { state := oneSubscriber }
            (deliverEight ++ publishAndRelease) s₂ ∧
          s₁.state.routed = oneSubscriber.routed ++ packets ∧
            s₂.state.routed = oneSubscriber.routed ++ packets := by
  have hs : Serves oneSubscriber 0 ⟨[65], 1⟩
      ((oneSubscriber.lock ⟨[65], 1⟩).get (by decide +kernel)) :=
    ⟨by decide +kernel, (Option.some_get _).symm⟩
  have h₁ : (publishAndRelease.foldlM (Observed.nextApart .sorting 0 ⟨[65], 1⟩)
      { state := oneSubscriber }).isSome := by decide +kernel
  have h₂ : ((deliverEight ++ publishAndRelease).foldlM (Observed.nextApart .sorting 0 ⟨[65], 1⟩)
      { state := oneSubscriber }).isSome := by decide +kernel
  obtain ⟨s₁, h₁⟩ := Option.isSome_iff_exists.1 h₁
  obtain ⟨s₂, h₂⟩ := Option.isSome_iff_exists.1 h₂
  have hrun₁ := Run.of_foldlM (fun _ _ _ => step_of_nextApart) h₁
  have hrun₂ := Run.of_foldlM (fun _ _ _ => step_of_nextApart) h₂
  obtain ⟨packets, hr₁, hr₂⟩ := releases_agree hs hs hrun₁ hrun₂ rfl
  exact ⟨s₁, s₂, packets, hrun₁.of_meeting, hrun₂.of_meeting, hr₁, hr₂⟩

/-- After a message that its publisher calls 7 has been delivered to `A`, its PUBREL routes that
message instead of its own. -/
theorem not_releases_agree_collision :
    Reachable .sorting oneSubscriber ∧
      ¬ ∀ actions₁ actions₂ s₁ s₂,
        Run (SessionStep .sorting 0 ⟨[65], 1⟩) { state := oneSubscriber } actions₁ s₁ →
        Run (SessionStep .sorting 0 ⟨[65], 1⟩) { state := oneSubscriber } actions₂ s₂ →
        actions₁.filterMap SessionAction.inbound? = actions₂.filterMap SessionAction.inbound? →
        s₁.state.routed = s₂.state.routed := by
  have hown : (publishAndRelease.foldlM (Observed.next .sorting 0 ⟨[65], 1⟩)
      { state := oneSubscriber }).map (fun s => s.state.routed) =
        some [⟨{ type := .publish, qos := 2 }, 8, .publish ⟨[117], 7, [2]⟩⟩] := by decide +kernel
  have hother : ((.deliver packetSeven messageSeven ⟨rfl, rfl⟩ :: publishAndRelease).foldlM
      (Observed.next .sorting 0 ⟨[65], 1⟩) { state := oneSubscriber }).map
        (fun s => s.state.routed) = some [packetSeven] := by decide +kernel
  refine ⟨after_reachable _ _, fun hall => ?_⟩
  obtain ⟨s₁, hown, hr₁⟩ := Option.map_eq_some_iff.1 hown
  obtain ⟨s₂, hother, hr₂⟩ := Option.map_eq_some_iff.1 hother
  have hagree := hall _ _ _ _ (.of_foldlM (fun _ _ _ => step_of_next) hown)
    (.of_foldlM (fun _ _ _ => step_of_next) hother) rfl
  rw [hr₁, hr₂] at hagree
  exact absurd hagree (by decide)

end Culex
