import Culex.Overlaps
import Culex.Steady

/-!
# Displaced transports

A CONNECT closes the transport of the client's old session, but what has arrived there may still be
waiting to be parsed.  The handlers find the session by the client id that the transport remembers,
and so act on the session that has taken its place.

* `Misses`: what can arrive on a displaced transport without touching the client's session;
* `Parses.fenced`: it leaves the session and its subscriptions as they are;
* `fenced_iff`: so it is in every run after a take-over, and anything else changes the session.
-/

namespace Culex

open ManageSessions

/-- The client's session, where it is registered, and its subscriptions stay as they are. -/
structure Fenced (clientId : Bytes) (ms ms' : ManageSessions) : Prop where
  session : ∀ entry, ms.sessionRegistry.lookup clientId = some entry →
    ms'.sessionRegistry.lookup clientId = some entry
  subscriptions : ∀ path, (ms'.topicTree.root.subsAt path).lookup clientId =
    (ms.topicTree.root.subsAt path).lookup clientId

/-- A CONNECT on transport `b` takes the client over from transport `a`, which is still alive. -/
structure TakesOver (p : Platform) (a b : ℕ) (clientId : Bytes) (ms : ManageSessions) (e : Event)
    (ms' : ManageSessions) : Prop where
  step : BrokerStep p ms e ms'
  connect : ∃ cn, e.kind p ms = .connect b cn ∧ cn.clientId = clientId
  displaced : ∃ entry, ms.sessionRegistry.lookup clientId = some entry ∧
    entry.state.connected = true ∧ ms.lockTransport entry.state.session = some a
  other : a ≠ b

/-- The message that a packet has the broker route. -/
def routedBy (pkt : Packet) (id : ℕ) (ms : ManageSessions) : Option Packet :=
  match pkt.header.type, pkt.pkt with
  | .publish, .publish _ => if pkt.header.qos = 0 ∨ pkt.header.qos = 1 then some pkt else none
  | .pubrel, .ack ack => (ms.sessionRegistry.lookup (ms.getClientId id)).map fun entry =>
      entry.state.inflight.find ack.packetId
  | _, _ => none

/-- A message with a positive QoS matches a subscription of the session. -/
def GoesTo (ms : ManageSessions) (r : SessionRef) (packet : Packet) : Prop :=
  0 < packet.header.qos ∧ ∃ pub, packet.pkt = .publish pub ∧
    ∃ sub ∈ (ms.topicTree.match pub.topic).2, sub.session = r

/-- Resuming would change nothing: the session is offline, and has the same settings. -/
structure ResumesAsIs (cn : Connect) (cs : ClientSession) : Prop where
  kept : cn.cf.cleansession = false
  offline : cs.connected = false
  keepAlive : cs.keepAlive = cn.keepAlive
  persistent : cs.cleansession = false

/-- What arrives leaves the client alone: it is of another client and not for this one, or it is of
a kind that has no effect. -/
def Misses (ms : ManageSessions) (clientId : Bytes) : Arrival → Prop
  | .nothing => True
  | .malformed id => ms.getClientId id = clientId → ∀ entry,
      ms.sessionRegistry.lookup clientId = some entry → entry.state.cleansession = false
  | .packet id pkt =>
    match pkt.header.type with
    | .connect => ∀ cn, pkt.pkt = .connect cn → cn.clientId = clientId → ∀ entry,
        ms.sessionRegistry.lookup clientId = some entry → ResumesAsIs cn entry.state
    | .publish | .puback | .pubrec | .pubrel | .pubcomp | .subscribe | .pingreq =>
      ms.getClientId id ≠ clientId ∧ ∀ packet, routedBy pkt id ms = some packet →
        ∀ r, r.clientId = clientId → ¬ GoesTo ms r packet
    | _ => True

namespace Fenced

variable {clientId : Bytes} {ms ms₁ ms' : ManageSessions} {r : SessionRef} {cs : ClientSession}

theorem refl (clientId : Bytes) (ms : ManageSessions) : Fenced clientId ms ms :=
  ⟨fun _ h => h, fun _ => rfl⟩

theorem trans (h : Fenced clientId ms ms₁) (h' : Fenced clientId ms₁ ms') :
    Fenced clientId ms ms' :=
  ⟨fun entry hl => h'.session entry (h.session entry hl),
    fun path => (h'.subscriptions path).trans (h.subscriptions path)⟩

/-- A step that leaves the tree, and the client's session. -/
theorem of_lookup (h : ms'.sessionRegistry.lookup clientId = ms.sessionRegistry.lookup clientId)
    (htree : ms'.topicTree = ms.topicTree) : Fenced clientId ms ms' :=
  ⟨fun _ hl => h.trans hl, fun path => by rw [htree]⟩

theorem setSession (hne : r.clientId ≠ clientId) :
    Fenced clientId ms (ms.setSession r cs) := by
  unfold ManageSessions.setSession
  cases ms.lock r with
  | none => exact refl clientId ms
  | some old => exact of_lookup (AList.lookup_insert_ne hne.symm) rfl

theorem updateActivity {clientId' : Bytes} (hne : clientId' ≠ clientId) :
    Fenced clientId ms (ms.updateActivity clientId') := by
  unfold ManageSessions.updateActivity
  cases ms.sessionRegistry.lookup clientId' with
  | none => exact refl clientId ms
  | some entry => exact of_lookup (AList.lookup_insert_ne hne.symm) rfl

theorem pushDataToSend (t : ℕ) (data : Bytes) :
    Fenced clientId ms (ms.pushDataToSend t data) := of_lookup rfl rfl

theorem removeFromRegistry {clientId' : Bytes} (hne : clientId' ≠ clientId) :
    Fenced clientId ms (ms.removeFromRegistry clientId') :=
  of_lookup (AList.lookup_erase_ne hne.symm) rfl

theorem forceDisconnect (t : ℕ) : Fenced clientId ms (ms.forceDisconnect t) :=
  of_lookup (by rw [forceDisconnect_sessionRegistry]) (topicTree_forceDisconnect t)

theorem endTask (id : ℕ) : Fenced clientId ms (endTask id ms) := of_lookup rfl rfl

theorem takeOut (pkt : Packet) (id : ℕ) : Fenced clientId ms (takeOut pkt id ms) := by
  unfold Culex.takeOut
  rw [setTransport_eq]
  exact of_lookup rfl rfl

theorem finishConnect (cn : Connect) (id : ℕ) (buff : Bytes) :
    Fenced clientId ms (finishConnect cn id buff ms) := by
  refine of_lookup ?_ (topicTree_finishConnect cn id buff)
  rw [finishConnect_eq]

end Fenced

variable {p : Platform} {clientId : Bytes} {ms ms₁ ms' : ManageSessions} {pkt packet : Packet}
  {pub : Publish} {id t : ℕ} {handled : Handled} {r : SessionRef} {cn : Connect}

/-! ### Routing -/

theorem goesTo_congr (h : ms'.topicTree = ms.topicTree) :
    GoesTo ms' r packet ↔ GoesTo ms r packet := by
  unfold GoesTo
  rw [h]

/-- A message with QoS 0 leaves every session as it is. -/
theorem routeLoop_of_qos_zero (h : IsPublish packet pub) (hq : ¬ 0 < packet.header.qos)
    (subs : List Subscription) : ∃ ms' m,
      routeLoop p subs (ms, packet) = .ok (ms', packet.withQos m) ∧ ∀ r, ms'.lock r = ms.lock r := by
  have hrec : ∃ ms' m, routeLoop p subs (ms, packet) = .ok (ms', packet.withQos m) ∧
      m ≤ packet.header.qos ∧ (¬ 0 < packet.header.qos → ∀ r, ms'.lock r = ms.lock r) := by
    refine @routeLoop_rec p packet pub ms
      (fun _ packet ms ms' => ¬ 0 < packet.header.qos → ∀ r, ms'.lock r = ms.lock r)
      ?nil ?dead ?connected ?offline h subs
    case nil => exact fun _ _ _ _ => rfl
    case dead => exact fun _ hrest => hrest
    case connected =>
      intro sub subs packet ms ms' cs hl _ hrest hq r
      have hmin : ¬ 0 < (packet.withQos (min packet.header.qos sub.qos)).header.qos := fun hpos =>
        hq (UInt8.lt_of_lt_of_le hpos (qos_min_le _ _))
      rw [hrest hmin r, delivered_of_not_pos hmin, lock_pushIfAlive, lock_record]
    case offline =>
      intro sub subs packet ms ms' cs hl _ hrest hq r
      rw [hrest hq r, queued, if_neg hq]
  obtain ⟨ms', m, hloop, -, hkept⟩ := hrec
  exact ⟨ms', m, hloop, hkept hq⟩

/-- Routing a message leaves the sessions that it does not go to. -/
theorem routePacket_fenced (h : IsPublish packet pub) (cs : Option SessionRef)
    (hgoes : ∀ r, r.clientId = clientId → ¬ GoesTo ms r packet) {packet' : Packet}
    (hr : routePacket p packet cs ms = .ok (ms', packet')) : Fenced clientId ms ms' := by
  obtain ⟨ms₁, m, hr₁, hrouted, hothers⟩ := @routePacket_routed p packet pub ms h cs
  obtain ⟨rfl, -⟩ := Prod.mk.inj (Except.ok.inj (hr₁.symm.trans hr))
  constructor
  · intro entry hl
    have hsame : ms₁.lock ⟨clientId, entry.obj⟩ = ms.lock ⟨clientId, entry.obj⟩ := by
      by_cases hq : 0 < packet.header.qos
      · refine hothers _ fun sub hsub hsession => hgoes _ rfl ⟨hq, pub, h.pkt, sub, ?_, hsession⟩
        exact (p.traverse_perm _ _).mem_iff.1 hsub
      · obtain ⟨ms₂, m₂, hloop, hkept⟩ := @routeLoop_of_qos_zero p (routeStart packet pub ms) packet
          pub h hq (routeTargets p pub ms)
        have heq := (routePacket_eq h cs).symm.trans hr₁
        obtain ⟨rfl, -⟩ := Prod.mk.inj (Except.ok.inj (hloop.symm.trans heq))
        exact hkept _
    exact lock_eq_some_iff.1 (hsame.trans (lock_of_lookup hl))
  · intro path
    rw [hrouted.topicTree]
    exact congrArg (AList.lookup clientId) (TopicTree.subsAt_match _ _ _)

/-! ### The handlers -/

theorem publishHandler_fenced (ht : pkt.header.type = .publish)
    (hne : ms.getClientId id ≠ clientId)
    (hroute : ∀ packet, routedBy pkt id ms = some packet →
      ∀ r, r.clientId = clientId → ¬ GoesTo ms r packet)
    (h : publishHandler p pkt id ms = .ok handled) : Fenced clientId ms handled.state := by
  rcases publishHandler_ok ht h with ⟨pub, ms₁, packet', hp, hq, hr, -, hstate⟩ |
    ⟨r, cs, pub, -, -, hserves, -, hstate⟩ | ⟨-, rfl⟩
  · have hactive : Fenced clientId ms (ms.updateActivity (ms.getClientId id)) :=
      .updateActivity hne
    have htree : (ms.updateActivity (ms.getClientId id)).topicTree = ms.topicTree := by
      unfold updateActivity
      split <;> rfl
    have hrouted : Fenced clientId ms ms₁ := by
      refine hactive.trans (routePacket_fenced ⟨ht, hp⟩ none (fun r hc => ?_) hr)
      rw [goesTo_congr htree]
      refine hroute pkt ?_ r hc
      unfold routedBy
      simp only [ht, hp, if_pos hq]
    rcases hstate with hstate | ⟨data, hstate⟩ <;> rw [hstate]
    · exact hrouted
    · exact hrouted.trans (.pushDataToSend id _)
  · rw [hstate]
    exact .trans (.setSession (hserves.clientId ▸ hne)) (.pushDataToSend id _)
  · exact .refl clientId ms

theorem pubrelHandler_fenced (hs : Sound ms) (ht : pkt.header.type = .pubrel)
    (hne : ms.getClientId id ≠ clientId)
    (hroute : ∀ packet, routedBy pkt id ms = some packet →
      ∀ r, r.clientId = clientId → ¬ GoesTo ms r packet)
    (h : pubrelHandler p pkt id ms = .ok handled) : Fenced clientId ms handled.state := by
  rcases (pubrelHandler_ends pkt hs.routes).ok h with ⟨r, cs, hserves, ack, hp, hcases⟩ | ⟨-, rfl⟩
  · have hrel : Fenced clientId ms (released r cs ack.packetId ms) :=
      .setSession (hserves.clientId ▸ hne)
    rcases hcases with ⟨hf, ms₁, packet', hr, rfl⟩ | rfl
    · obtain ⟨pub, hpub, -⟩ := ((hs.inflight r cs hserves.lock).stored_of_type hf).publish
      have htree : (released r cs ack.packetId ms).topicTree = ms.topicTree := by
        unfold released
        rw [setSession_eq]
      refine (hrel.trans (routePacket_fenced hpub none (fun r' hc => ?_) hr)).trans
        (.pushDataToSend id _)
      rw [goesTo_congr htree]
      refine hroute _ ?_ r' hc
      unfold routedBy
      simp only [ht, hp]
      rw [hserves.clientId, lock_eq_some_iff.1 hserves.lock]
      rfl
    · exact hrel.trans (.pushDataToSend id _)
  · exact .refl clientId ms

theorem subscribeHandler_fenced (hne : ms.getClientId id ≠ clientId)
    (h : subscribeHandler p pkt id ms = .ok handled) : Fenced clientId ms handled.state := by
  cases hp : pkt.pkt with
  | subscribe sub =>
    obtain rfl := Except.ok.inj ((subscribeHandler_eq hp).symm.trans h)
    have hactive : Fenced clientId ms (ms.updateActivity (ms.getClientId id)) :=
      .updateActivity hne
    have hcalls : ∀ (ops : List TreeCall) (tree : TopicTree),
        (∀ op ∈ ops, op.asks clientId = none) → ∀ path,
          ((tree.calls ops).root.subsAt path).lookup clientId =
            (tree.root.subsAt path).lookup clientId := by
      intro ops
      induction ops with
      | nil => exact fun _ _ _ => rfl
      | cons op ops ih =>
        intro tree hasks path
        have hrest := ih (tree.call op) fun op' hop' => hasks op' (List.mem_cons_of_mem _ hop')
        exact (hrest path).trans (TopicTree.lookup_subsAt_call (hasks op List.mem_cons_self) path)
    refine ⟨hactive.session, hcalls _ _ fun op hop => ?_⟩
    unfold requests sessionPresent at hop
    cases hl : ms.sessionRegistry.lookup (ms.getClientId id) with
    | none =>
      rw [hl] at hop
      cases hop
    | some entry =>
      rw [hl] at hop
      obtain ⟨tuple, -, rfl⟩ := List.mem_map.1 hop
      exact if_neg hne
  | _ =>
    unfold subscribeHandler at h
    rw [hp] at h
    obtain rfl := Except.ok.inj h
    exact .refl clientId ms

/-- **Every handler but the one of CONNECT leaves the client alone** if the packet misses it. -/
theorem dispatch_fenced (hs : Sound ms) (ht : pkt.header.type ≠ .connect)
    (hm : Misses ms clientId (.packet id pkt)) (h : dispatch p pkt id ms = .ok handled) :
    Fenced clientId ms handled.state := by
  unfold dispatch handlers at h
  unfold Misses at hm
  cases hty : pkt.header.type <;> rw [hty] at h <;>
    simp only [hty] at hm <;> simp only [PacketType.code] at h
  case connect => exact absurd hty ht
  case publish => exact publishHandler_fenced hty hm.1 hm.2 h
  case puback =>
    rcases (pubackHandler_ends pkt id ms).ok h with ⟨r, cs, hserves, ack, -, rfl⟩ | ⟨-, rfl⟩
    · exact .setSession (hserves.clientId ▸ hm.1)
    · exact .refl clientId ms
  case pubrec =>
    rcases (pubrecHandler_ends pkt id ms).ok h with ⟨r, cs, hserves, ack, -, rfl⟩ | ⟨-, rfl⟩
    · exact .trans (.setSession (hserves.clientId ▸ hm.1)) (.pushDataToSend id _)
    · exact .refl clientId ms
  case pubrel => exact pubrelHandler_fenced hs hty hm.1 hm.2 h
  case pubcomp =>
    rcases (pubcompHandler_ends pkt id ms).ok h with ⟨r, cs, hserves, ack, -, rfl⟩ | ⟨-, rfl⟩
    · exact .setSession (hserves.clientId ▸ hm.1)
    · exact .refl clientId ms
  case subscribe => exact subscribeHandler_fenced hm.1 h
  case unsubscribe =>
    have h : unsubscribeHandler pkt id ms = .ok handled := h
    unfold unsubscribeHandler at h
    split at h
    · cases h
    · obtain rfl := Except.ok.inj h
      exact .refl clientId ms
  case pingreq =>
    have h : pingreqHandler pkt id ms = .ok handled := h
    obtain rfl := Except.ok.inj h
    exact (Fenced.updateActivity hm.1).trans (.pushDataToSend id _)
  case reserved15 => cases h
  all_goals
    obtain rfl := Except.ok.inj h
    exact .refl clientId ms

/-! ### Parse tasks -/

/-- Taking a packet out of the buffer does not change what it does. -/
theorem misses_takeOut : Misses (takeOut pkt id ms) clientId (.packet id pkt) ↔
    Misses ms clientId (.packet id pkt) := by
  have hcalm : Calm none [] ms (takeOut pkt id ms) := takeOut_calm
  have hid : (takeOut pkt id ms).getClientId id = ms.getClientId id := by
    rw [getClientId_eq, hcalm.socketOf, ← getClientId_eq]
  have hreg : (takeOut pkt id ms).sessionRegistry = ms.sessionRegistry := by
    unfold takeOut
    rw [setTransport_eq]
  have hrouted : routedBy pkt id (takeOut pkt id ms) = routedBy pkt id ms := by
    unfold routedBy
    rw [hid, hreg]
  have hgoes : ∀ r packet, GoesTo (takeOut pkt id ms) r packet ↔ GoesTo ms r packet :=
    fun _ _ => goesTo_congr (topicTree_setTransport _ _)
  unfold Misses
  simp only [hid, hreg, hrouted, hgoes]

/-- A CONNECT leaves another client alone, and one that it resumes as it is. -/
theorem connect_fenced (hp : pkt.pkt = .connect cn)
    (hm : cn.clientId = clientId → ∀ entry, ms.sessionRegistry.lookup clientId = some entry →
      ResumesAsIs cn entry.state) (h : connectHandler p pkt id ms = .ok handled) :
    Fenced clientId ms handled.state := by
  have hconnects := (connectHandler_connects hp h).1
  refine ⟨fun entry hl => ?_, fun path => by rw [hconnects.topicTree]⟩
  by_cases hc : cn.clientId = clientId
  · subst hc
    have hasis := hm rfl entry hl
    have hrenews : ¬ Renews ms cn := not_renews_iff.2 ⟨⟨entry, hl⟩, hasis.kept⟩
    rw [hconnects.client, registration, if_neg hrenews, hl, Option.map_some]
    have hstate : resumedSession cn entry.state = entry.state := by
      unfold resumedSession
      rw [offline_of_not_connected hasis.offline, ← hasis.keepAlive, hasis.kept, ← hasis.persistent]
    rw [hstate]
  · rw [hconnects.others clientId (Ne.symm hc)]
    exact hl

/-- **A parse task leaves the client alone** if what it finds misses it. -/
theorem Parses.fenced {arrival : Arrival} (hs : Sound ms) (h : Parses p id ms arrival ms')
    (hm : Misses ms clientId arrival) : Fenced clientId ms ms' := by
  cases h with
  | nothing => exact .endTask id
  | @malformed entry hl =>
    have hpurge : Fenced clientId ms (purge (ms.getClientId id) entry ms) := by
      unfold purge
      split_ifs with hclean
      · refine .removeFromRegistry fun hc => ?_
        rw [hm hc entry (hc ▸ hl)] at hclean
        cases hclean
      · exact .refl clientId ms
    exact (hpurge.trans (.forceDisconnect id)).trans (.endTask id)
  | @packet pkt handled ms₁ hd hf =>
    have hs₁ : Sound (takeOut pkt id ms) := (Tame.setTransport _ _).sound hs
    have hm₁ := misses_takeOut.2 hm
    refine (Fenced.takeOut pkt id).trans (.trans ?_ (.endTask id))
    rcases dispatch_cases hs₁ hd hf with ⟨cn, ht, hp, hhandle, rfl⟩ | ⟨-, -, rfl, hsame⟩
    · unfold Misses at hm₁
      simp only [ht] at hm₁
      exact (connect_fenced hp (hm₁ cn hp) hhandle).trans (.finishConnect cn id _)
    · by_cases ht : pkt.header.type = .connect
      · rw [(hsame ht).2]
        exact .refl _ _
      · exact dispatch_fenced hs₁ ht hm₁ hd

/-! ### What does touch the client -/

/-- The client has just been active. -/
def Touched (clientId : Bytes) (now : ℤ) (ms : ManageSessions) : Prop :=
  ∀ entry, ms.sessionRegistry.lookup clientId = some entry → entry.state.lastActivity = now

/-- A packet has the fields of its type. -/
def WellTyped (pkt : Packet) : Prop :=
  match pkt.header.type with
  | .connect => ∃ cn, pkt.pkt = .connect cn
  | .publish => ∃ pub, pkt.pkt = .publish pub
  | .puback | .pubrec | .pubrel | .pubcomp => ∃ ack, pkt.pkt = .ack ack
  | .subscribe => ∃ sub, pkt.pkt = .subscribe sub
  | _ => True

theorem touched_updateActivity :
    Touched clientId ms.now (ms.updateActivity clientId) := by
  intro entry hl
  unfold updateActivity at hl
  cases hl₀ : ms.sessionRegistry.lookup clientId with
  | none =>
    simp only [hl₀] at hl
    cases hl
  | some entry₀ =>
    simp only [hl₀, AList.lookup_insert, Option.some.injEq] at hl
    rw [← hl]

theorem touched_setSession {cs cs' : ClientSession} (hl : ms.lock r = some cs)
    (hactive : cs'.lastActivity = ms.now) : Touched r.clientId ms.now (ms.setSession r cs') := by
  intro entry hl'
  rw [lookup_setSession hl, if_pos rfl, Option.some.injEq] at hl'
  rw [← hl']
  exact hactive

theorem Touched.steady {now : ℤ} (h : Touched clientId now ms) (hnow : ms.now = now)
    (hs : Steady ms ms') : Touched clientId now ms' := by
  intro entry hl
  obtain ⟨cs, hl₀, hactive⟩ := hs.active ⟨clientId, entry.obj⟩ entry.state (lock_of_lookup hl)
  rcases hactive with he | he
  · rw [he]
    exact h _ (lock_eq_some_iff.1 hl₀)
  · rw [he, hnow]

/-- A handler that serves a session touches its client if what it does with the session does. -/
theorem Ends.touched {needs : Prop} {does : SessionRef → ClientSession → Handled → Prop}
    {result : Except Fault Handled} (he : Ends ms id needs does result) (hneeds : needs)
    (hdoes : ∀ r cs, Serves ms id r cs → does r cs handled →
      Touched r.clientId ms.now handled.state) (h : result = .ok handled) :
    Touched (ms.getClientId id) ms.now handled.state := by
  rcases he.ok h with ⟨r, cs, hserves, hd⟩ | ⟨hother, -⟩
  · rw [hserves.clientId]
    exact hdoes r cs hserves hd
  · exact absurd hneeds hother

/-- The session that a handler finds has just been active when it is done. -/
theorem dispatch_touched (hs : Sound ms) (hw : WellTyped pkt)
    (h : dispatch p pkt id ms = .ok handled) (ht : pkt.header.type ≠ .connect)
    (hm : ¬ Misses ms (ms.getClientId id) (.packet id pkt)) :
    Touched (ms.getClientId id) ms.now handled.state := by
  have hupdate : Touched (ms.getClientId id) ms.now (ms.updateActivity (ms.getClientId id)) :=
    touched_updateActivity
  have hnow : (ms.updateActivity (ms.getClientId id)).now = ms.now :=
    (Steady.updateActivity _).now
  unfold dispatch handlers at h
  unfold Misses at hm
  unfold WellTyped at hw
  cases hty : pkt.header.type <;> rw [hty] at h <;> simp only [hty] at hm hw <;>
    simp only [PacketType.code] at h
  case connect => exact absurd hty ht
  case puback =>
    refine (pubackHandler_ends pkt id ms).touched hw ?_ h
    rintro r cs hserves ⟨ack, -, rfl⟩
    exact touched_setSession hserves.lock rfl
  case pubrec =>
    refine (pubrecHandler_ends pkt id ms).touched hw ?_ h
    rintro r cs hserves ⟨ack, -, rfl⟩
    exact touched_setSession hserves.lock rfl
  case pubcomp =>
    refine (pubcompHandler_ends pkt id ms).touched hw ?_ h
    rintro r cs hserves ⟨ack, -, rfl⟩
    exact touched_setSession hserves.lock rfl
  case pubrel =>
    refine (pubrelHandler_ends pkt hs.routes).touched hw ?_ h
    rintro r cs hserves ⟨ack, -, hcases⟩
    have hset : Steady ms (released r cs ack.packetId ms) := .setSession hserves.lock (.inr rfl)
    have hrel : Touched r.clientId ms.now (released r cs ack.packetId ms) :=
      touched_setSession hserves.lock rfl
    rcases hcases with ⟨hf, ms₁, packet', hr, rfl⟩ | rfl
    · obtain ⟨pub, hpub, -⟩ := ((hs.inflight r cs hserves.lock).stored_of_type hf).publish
      have hrouted : Touched r.clientId ms.now ms₁ :=
        hrel.steady hset.now (routePacket_steady hpub none hr)
      exact hrouted
    · exact hrel
  case publish =>
    obtain ⟨pub, hp⟩ := hw
    rcases publishHandler_ok hty h with ⟨pub', ms₁, packet', hp', -, hr, -, hstate⟩ |
      ⟨r, cs, pub', -, -, hserves, -, hstate⟩ | ⟨hother, -⟩
    · have hrouted := hupdate.steady hnow (routePacket_steady ⟨hty, hp'⟩ none hr)
      rcases hstate with hstate | ⟨data, hstate⟩ <;> rw [hstate] <;> exact hrouted
    · rw [hserves.clientId, hstate]
      exact touched_setSession hserves.lock rfl
    · exact absurd hp (hother pub)
  case subscribe =>
    obtain ⟨sub, hp⟩ := hw
    obtain rfl := Except.ok.inj ((subscribeHandler_eq hp).symm.trans h)
    exact hupdate
  case pingreq =>
    have h : pingreqHandler pkt id ms = .ok handled := h
    obtain rfl := Except.ok.inj h
    exact hupdate
  all_goals exact absurd trivial hm

/-- What is unpacked has the fields of its type. -/
theorem wellTyped_of_arrival {beyond : ByteReader.Mem} {id' : ℕ}
    (h : Event.arrival p (.parseData id beyond) ms = .packet id' pkt) : WellTyped pkt := by
  simp only [Event.arrival] at h
  split_ifs at h
  cases ht : ms.transports.lookup id with
  | none =>
    rw [ht] at h
    cases h
  | some t =>
    simp only [ht] at h
    split at h
    · cases h
    · next rc pkt' cursor hu =>
      split_ifs at h with hrc
      obtain ⟨-, rfl⟩ := Arrival.packet.inj h
      rw [hrc] at hu
      obtain ⟨-, len, k, l, -, ho, -, -, -⟩ := exists_outcome hu
      unfold WellTyped
      cases ho with
      | connect ht => simp only [ht]; exact ⟨_, rfl⟩
      | publish ht => simp only [ht]; exact ⟨_, rfl⟩
      | ack ht =>
        rcases ht with ht | ht | ht | ht
        all_goals simp only [ht]; exact ⟨_, rfl⟩
      | subscribe ht => simp only [ht]; exact ⟨_, rfl⟩
      | unsubscribe ht => simp only [ht]

/-- A CONNECT for the client leaves its session only where it resumes it as it is. -/
theorem resumesAsIs_of_fenced {entry : Registered} (ha : ∀ r cs, ms.lock r = some cs →
    r.obj < ms.nextObj) (hl : ms.sessionRegistry.lookup cn.clientId = some entry)
    (hreg : registration cn id ms = some entry) : ResumesAsIs cn entry.state := by
  unfold registration at hreg
  split_ifs at hreg with hrenews hlevel
  · obtain rfl := Option.some.inj hreg
    exact absurd (ha _ _ (lock_of_lookup hl)) (lt_irrefl _)
  · obtain ⟨-, hclean⟩ := not_renews_iff.1 hrenews
    rw [hl, Option.map_some, Option.some.injEq] at hreg
    have hstate : resumedSession cn entry.state = entry.state := congrArg Registered.state hreg
    refine ⟨hclean, ?_, ?_, ?_⟩
    · rw [← hstate]
      rfl
    · rw [← hstate]
      rfl
    · rw [← hstate]
      exact hclean

/-- **What does not miss the client is not harmless**, where time has passed since the client was
last active. -/
theorem Parses.misses {arrival : Arrival} {entry : Registered} (hs : Sound ms) (ha : Allocated ms)
    (h : Parses p id ms arrival ms') (hw : ∀ id' pkt, arrival = .packet id' pkt → WellTyped pkt)
    (hid : ms.getClientId id = clientId)
    (hl : ms.sessionRegistry.lookup clientId = some entry)
    (hactive : entry.state.lastActivity ≠ ms.now) (hf : Fenced clientId ms ms') :
    Misses ms clientId arrival := by
  have hkept := hf.session entry hl
  cases h with
  | nothing => trivial
  | malformed hl' =>
    intro _ entry' hl''
    rw [hid] at hl' hkept
    obtain rfl := Option.some.inj (hl'.symm.trans hl'')
    by_contra hclean
    rw [Bool.not_eq_false] at hclean
    unfold endTask purge at hkept
    rw [if_pos hclean] at hkept
    simp only [forceDisconnect_sessionRegistry, removeFromRegistry, AList.lookup_erase] at hkept
    cases hkept
  | @packet pkt handled ms₁ hd hfin =>
    have hw := hw id pkt rfl
    have hs₁ : Sound (takeOut pkt id ms) := (Tame.setTransport _ _).sound hs
    have hcalm : Calm none [] ms (takeOut pkt id ms) := takeOut_calm
    have hid₁ : (takeOut pkt id ms).getClientId id = clientId := by
      rw [getClientId_eq, hcalm.socketOf, ← getClientId_eq, hid]
    have htake : takeOut pkt id ms = { ms with transports := (takeOut pkt id ms).transports } :=
      setTransport_eq _ _ _
    by_contra hmiss
    rw [← misses_takeOut] at hmiss
    rcases dispatch_cases hs₁ hd hfin with ⟨cn, ht, hp, hhandle, rfl⟩ | ⟨-, -, rfl, hsame⟩
    · refine hmiss ?_
      unfold Misses
      simp only [ht]
      intro cn' hp' hc entry' hl'
      obtain rfl : cn = cn' := by
        rw [hp] at hp'
        exact Packet.Variant.connect.inj hp'
      subst hc
      have hconnects := (connectHandler_connects hp hhandle).1
      have hlookup : (finishConnect cn id handled.buff handled.state).sessionRegistry.lookup
          cn.clientId = some entry := hkept
      rw [finishConnect_eq] at hlookup
      have hreg := hconnects.client.symm.trans hlookup
      rw [htake] at hl' hreg
      obtain rfl := Option.some.inj (hl.symm.trans hl')
      exact resumesAsIs_of_fenced ha.registered hl hreg
    · by_cases ht : pkt.header.type = .connect
      · unfold WellTyped at hw
        simp only [ht] at hw
        obtain ⟨cn, hp⟩ := hw
        exact (hsame ht).1 cn hp
      · have htouched := dispatch_touched hs₁ hw hd ht (by rw [hid₁]; exact hmiss)
        rw [hid₁] at htouched
        have hnow : (takeOut pkt id ms).now = ms.now := by rw [htake]
        exact hactive ((htouched entry hkept).trans hnow)

/-! ### After a take-over -/

/-- **What is left on a displaced transport leaves the client alone if it misses the client**, after
any run; where the transport still has the client's id and time has passed, it does so only then. -/
theorem fenced_iff {a b : ℕ} {ms₀ : ManageSessions} {e : Event} {events : List Event}
    {beyond : ByteReader.Mem} (hr : Reachable p ms₀)
    (htake : TakesOver p a b clientId ms₀ e ms₁) (hrun : Run (BrokerStep p) ms₁ events ms)
    (hstep : BrokerStep p ms (.parseData a beyond) ms') :
    (Misses ms clientId (Event.arrival p (.parseData a beyond) ms) → Fenced clientId ms ms') ∧
      (ms.getClientId a = clientId →
        (∃ entry, ms.sessionRegistry.lookup clientId = some entry ∧
          entry.state.lastActivity ≠ ms.now) →
        (Fenced clientId ms ms' ↔
          Misses ms clientId (Event.arrival p (.parseData a beyond) ms))) := by
  have hreach : Reachable p ms :=
    hrun.invariant (hr.step htake.step) fun _ _ _ hms hs => hms.step hs
  have hparses := parses_of_apply hstep
  have hforward := @Parses.fenced p clientId ms ms' a _ hreach.sound hparses
  refine ⟨hforward, fun hid ⟨entry, hl, hactive⟩ => ⟨fun hf => ?_, hforward⟩⟩
  exact hparses.misses hreach.sound hreach.allocated
    (fun _ _ h => wellTyped_of_arrival h) hid hl hactive hf

/-- Client `A` is connected on one transport, where bytes have arrived, and its CONNECT has arrived
on another. -/
def displacing (data : Bytes) : ManageSessions :=
  after .sorting (.newConnection 3 :: arrive 0 (connectFrame 65 2) ++
    [.receive 0 data, .newConnection 4, .receive 2 (connectFrame 65 2)])

/-- The CONNECT has been handled. -/
def displaced (data : Bytes) : ManageSessions :=
  attempt .sorting (displacing data) (.parseData 2 fun _ => 0)

/-- An UNSUBSCRIBE is left on the old transport. -/
def unsubscribeLeft : Bytes := [0xA2, 5, 0, 1, 0, 1, 116]

/-- Bytes that are no packet are left there. -/
def garbageLeft : Bytes := [0xA0, 2, 0, 1]

theorem takesOver_displacing {data : Bytes}
    (hok : (Event.apply .sorting (.parseData 2 fun _ => 0) (displacing data)).toOption.isSome)
    (hkind : Event.kind .sorting (.parseData 2 fun _ => 0) (displacing data) =
      .connect 2 (connectA true))
    (hold : ((displacing data).sessionRegistry.lookup [65]).any fun entry =>
      entry.state.connected = true ∧
        (displacing data).lockTransport entry.state.session = some 0) :
    TakesOver .sorting 0 2 [65] (displacing data) (.parseData 2 fun _ => 0) (displaced data) where
  step := by
    unfold BrokerStep displaced attempt
    cases hs : Event.apply .sorting (.parseData 2 fun _ => 0) (displacing data) with
    | ok ms' => rfl
    | error _ =>
      rw [hs] at hok
      cases hok
  connect := ⟨connectA true, hkind, rfl⟩
  displaced := exists_of_any hold
  other := by decide

/-- An UNSUBSCRIBE of the old transport is handled after the take-over. -/
theorem fenced_unsubscribe : ∃ ms', TakesOver .sorting 0 2 [65] (displacing unsubscribeLeft)
      (.parseData 2 fun _ => 0) (displaced unsubscribeLeft) ∧
    BrokerStep .sorting (displaced unsubscribeLeft) (.parseData 0 fun _ => 0) ms' ∧
      Fenced [65] (displaced unsubscribeLeft) ms' := by
  have htake : TakesOver .sorting 0 2 [65] (displacing unsubscribeLeft) (.parseData 2 fun _ => 0)
      (displaced unsubscribeLeft) :=
    takesOver_displacing (by decide +kernel) (by decide +kernel) (by decide +kernel)
  have hok : (Event.apply .sorting (.parseData 0 fun _ => 0)
      (displaced unsubscribeLeft)).toOption.any fun _ => True := by
    decide +kernel
  have harrival : (match Event.arrival .sorting (.parseData 0 fun _ => 0)
      (displaced unsubscribeLeft) with
    | .packet _ pkt => decide (pkt.header.type = .unsubscribe)
    | _ => false) = true := by
    decide +kernel
  obtain ⟨ms', hstep, -⟩ := exists_of_any_ok hok
  refine ⟨ms', htake, hstep, (fenced_iff (after_reachable _ _) htake .nil hstep).1 ?_⟩
  cases ha : Event.arrival .sorting (.parseData 0 fun _ => 0) (displaced unsubscribeLeft) with
  | nothing =>
    rw [ha] at harrival
    cases harrival
  | malformed id =>
    rw [ha] at harrival
    cases harrival
  | packet id pkt =>
    rw [ha] at harrival
    unfold Misses
    simp only [of_decide_eq_true harrival]

/-- Malformed input of the old transport removes the client that has taken its place. -/
theorem not_fenced_garbage : Reachable .sorting (displacing garbageLeft) ∧
    TakesOver .sorting 0 2 [65] (displacing garbageLeft) (.parseData 2 fun _ => 0)
      (displaced garbageLeft) ∧
    ∃ ms', BrokerStep .sorting (displaced garbageLeft) (.parseData 0 fun _ => 0) ms' ∧
      ((displaced garbageLeft).sessionRegistry.lookup [65]).isSome ∧
        ms'.sessionRegistry.lookup [65] = none ∧ ¬ Fenced [65] (displaced garbageLeft) ms' := by
  refine ⟨after_reachable _ _,
    takesOver_displacing (by decide +kernel) (by decide +kernel) (by decide +kernel), ?_⟩
  have hok : (Event.apply .sorting (.parseData 0 fun _ => 0)
      (displaced garbageLeft)).toOption.any fun ms' =>
        (ms'.sessionRegistry.lookup [65]).isNone = true := by
    decide +kernel
  have hthere : ((displaced garbageLeft).sessionRegistry.lookup [65]).isSome := by decide +kernel
  obtain ⟨ms', hstep, hgone⟩ := exists_of_any_ok hok
  rw [Option.isNone_iff_eq_none] at hgone
  refine ⟨ms', hstep, hthere, hgone, fun hf => ?_⟩
  obtain ⟨entry, hl⟩ := Option.isSome_iff_exists.1 hthere
  cases hgone.symm.trans (hf.session entry hl)

end Culex
