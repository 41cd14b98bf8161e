import Culex.Broker
import Culex.Decode
import Culex.Handling

/-!
# An invariant of the broker

What the broker stores for later is usable later, in every reachable state: an inflight map holds
PUBLISH packets under their own identifiers, and the retransmission heap holds entries for PUBLISH
packets under identifiers that were allocated.

Most functions store no packet and schedule nothing (`Tame`); the others are routing, the handlers of
PUBLISH, PUBREL and PUBACK, and the loop of `processRetransmissions`.
-/

namespace Culex

open ByteReader ManageSessions

/-- A packet that may be inflight under an identifier. -/
structure Stored (packetId : UInt16) (packet : Packet) : Prop where
  publish : ∃ pub, IsPublish packet pub ∧ pub.packetId = packetId
  pktLen : packet.pktLen ≠ 0
  qos : 0 < packet.header.qos

/-- Everything inflight may be there. -/
def Inflight.Sound (inflight : Inflight) : Prop :=
  ∀ k packet, inflight.lookup k = some packet → Stored k packet

/-- The invariant. -/
structure Sound (ms : ManageSessions) : Prop where
  inflight : ∀ r cs, ms.lock r = some cs → cs.inflight.Sound
  retransmit : ∀ e ∈ ms.retransmitHeap.entries, e.packetType = .publish ∧ e.packetId ≠ 0

/-! ### Inflight maps -/

namespace Inflight.Sound

variable {inflight : Inflight} {k : UInt16} {packet : Packet} {pub : Publish}

theorem empty : Inflight.Sound ∅ := by
  intro k packet h
  rw [AList.lookup_empty] at h
  cases h

theorem erase (h : inflight.Sound) (k : UInt16) : Inflight.Sound (inflight.erase k) := by
  intro k' packet hk
  by_cases he : k' = k
  · rw [he, AList.lookup_erase] at hk
    cases hk
  · rw [AList.lookup_erase_ne he] at hk
    exact h k' packet hk

theorem insertNew (h : inflight.Sound) (hs : Stored k packet) :
    (inflight.insertNew k packet).Sound := by
  intro k' packet' hk
  rw [lookup_insertNew] at hk
  split_ifs at hk with he
  · subst he
    cases hl : inflight.lookup k' with
    | some old =>
      rw [hl, Option.getD_some] at hk
      exact h k' packet' (hl.trans hk)
    | none =>
      rw [hl, Option.getD_none, Option.some.injEq] at hk
      exact hk ▸ hs
  · exact h k' packet' hk

theorem receivedInflight (h : inflight.Sound) (hs : Stored pub.packetId packet) :
    Inflight.Sound (receivedInflight inflight pub packet) := by
  unfold Culex.receivedInflight
  split_ifs
  · exact h.insertNew hs
  · exact h

/-- What is found and has a length is stored. -/
theorem stored_find (h : inflight.Sound) (hl : (inflight.find k).pktLen ≠ 0) :
    Stored k (inflight.find k) := by
  unfold find at hl ⊢
  cases hk : inflight.lookup k with
  | none =>
    rw [hk] at hl
    exact absurd rfl hl
  | some packet => exact h k packet hk

/-- What is found and is a PUBLISH is stored. -/
theorem stored_of_type (h : inflight.Sound) (ht : (inflight.find k).header.type = .publish) :
    Stored k (inflight.find k) := by
  unfold find at ht ⊢
  cases hk : inflight.lookup k with
  | none =>
    rw [hk] at ht
    cases ht
  | some packet => exact h k packet hk

end Inflight.Sound

theorem SessionKept.sound {packet : Packet} {pub : Publish} {cs cs' : ClientSession}
    (hk : SessionKept packet pub cs cs') (h : IsPublish packet pub) (hlen : packet.pktLen ≠ 0)
    (hs : cs.inflight.Sound) : cs'.inflight.Sound := by
  intro k pkt hl
  rcases hk.stored k pkt hl with hl | ⟨rfl, q, hq, -, rfl⟩
  · exact hs k pkt hl
  · exact ⟨⟨pub, h.withQos q, rfl⟩, hlen, hq⟩

/-! ### Functions that store nothing -/

/-- Live sessions have kept their inflight map or have a new one, and nothing is scheduled. -/
structure Tame (ms ms' : ManageSessions) : Prop where
  lock : ∀ r cs', ms'.lock r = some cs' →
    cs'.inflight = ∅ ∨ ∃ cs, ms.lock r = some cs ∧ cs'.inflight = cs.inflight
  retransmitHeap : ms'.retransmitHeap = ms.retransmitHeap

namespace Tame

variable {ms ms₁ ms₂ : ManageSessions}

theorem of_eq (hr : ms₁.sessionRegistry = ms.sessionRegistry)
    (hh : ms₁.retransmitHeap = ms.retransmitHeap) : Tame ms ms₁ :=
  ⟨fun r cs' h => .inr ⟨cs', (lock_congr hr r).symm.trans h, rfl⟩, hh⟩

theorem refl (ms : ManageSessions) : Tame ms ms := of_eq rfl rfl

theorem trans (h : Tame ms ms₁) (h' : Tame ms₁ ms₂) : Tame ms ms₂ where
  lock r cs₂ hl := by
    rcases h'.lock r cs₂ hl with he | ⟨cs₁, hl₁, he⟩
    · exact .inl he
    · rcases h.lock r cs₁ hl₁ with he₁ | ⟨cs, hl₀, he₁⟩
      · exact .inl (he.trans he₁)
      · exact .inr ⟨cs, hl₀, he.trans he₁⟩
  retransmitHeap := h'.retransmitHeap.trans h.retransmitHeap

theorem sound (h : Tame ms ms₁) (hs : Sound ms) : Sound ms₁ where
  inflight r cs' hl := by
    rcases h.lock r cs' hl with he | ⟨cs, hl₀, he⟩
    · exact he ▸ .empty
    · exact he ▸ hs.inflight r cs hl₀
  retransmit := h.retransmitHeap ▸ hs.retransmit

theorem setSession {r : SessionRef} {cs' : ClientSession}
    (h : ∀ cs, ms.lock r = some cs → cs'.inflight = cs.inflight) :
    Tame ms (ms.setSession r cs') where
  lock r' cs₁ hl := by
    rw [lock_setSession] at hl
    split_ifs at hl with he
    · obtain ⟨cs, hl₀, rfl⟩ := Option.map_eq_some_iff.1 hl
      exact .inr ⟨cs, he ▸ hl₀, h cs hl₀⟩
    · exact .inr ⟨cs₁, hl, rfl⟩
  retransmitHeap := by rw [setSession_eq]

theorem removeFromRegistry (clientId : Bytes) : Tame ms (ms.removeFromRegistry clientId) where
  lock r cs' hl := by
    have hl' := lock_eq_some_iff.1 hl
    unfold ManageSessions.removeFromRegistry at hl'
    by_cases he : r.clientId = clientId
    · rw [he, AList.lookup_erase] at hl'
      cases hl'
    · rw [AList.lookup_erase_ne he] at hl'
      exact .inr ⟨cs', lock_eq_some_iff.2 hl', rfl⟩
  retransmitHeap := rfl

theorem addToRegistry {r : SessionRef} {cs : ClientSession} (h : cs.inflight = ∅) :
    Tame ms (ms.addToRegistry r cs) where
  lock r' cs' hl := by
    have hl' := lock_eq_some_iff.1 hl
    unfold ManageSessions.addToRegistry at hl'
    by_cases he : r'.clientId = r.clientId
    · rw [he, AList.lookup_insert, Option.some.injEq, Registered.mk.injEq] at hl'
      exact .inl (hl'.2 ▸ h)
    · rw [AList.lookup_insert_ne he] at hl'
      exact .inr ⟨cs', lock_eq_some_iff.2 hl', rfl⟩
  retransmitHeap := rfl

theorem updateActivity (clientId : Bytes) : Tame ms (ms.updateActivity clientId) := by
  cases hl : ms.sessionRegistry.lookup clientId with
  | none =>
    unfold ManageSessions.updateActivity
    rw [hl]
    exact refl ms
  | some entry =>
    have hlock := lock_of_lookup hl
    rw [updateActivity_eq hlock]
    refine setSession fun cs h => ?_
    rw [hlock, Option.some.injEq] at h
    rw [← h]
    rfl

theorem lock_forceDisconnect (t : ℕ) (r : SessionRef) :
    (ms.forceDisconnect t).lock r = ms.lock r := by
  unfold ManageSessions.forceDisconnect
  split <;> rfl

theorem forceDisconnect (t : ℕ) : Tame ms (ms.forceDisconnect t) := by
  unfold ManageSessions.forceDisconnect
  split <;> exact of_eq rfl rfl

theorem setTransport (id : ℕ) (f : Transport → Transport) : Tame ms (setTransport id f ms) := by
  unfold Culex.setTransport
  split <;> exact of_eq rfl rfl

theorem scheduleExpiry (p : Platform) (r : SessionRef) : Tame ms (scheduleExpiry p r ms) := by
  unfold ManageSessions.scheduleExpiry
  cases hl : ms.lock r with
  | none => exact refl ms
  | some cs =>
    simp only
    split_ifs
    · exact refl ms
    · refine (setSession fun cs' h => ?_).trans (of_eq rfl rfl)
      rw [hl, Option.some.injEq] at h
      rw [h]

/-- A loop of tame steps is tame. -/
theorem foldl {α : Type} {f : ManageSessions → α → ManageSessions} (h : ∀ ms a, Tame ms (f ms a))
    (l : List α) : Tame ms (l.foldl f ms) := by
  induction l generalizing ms with
  | nil => exact refl ms
  | cons a l ih => exact (h _ a).trans ih

theorem createSubscription (topic : Bytes) (qos : UInt8) (clientId : Bytes) :
    Tame ms (ms.createSubscription topic qos clientId) := by
  unfold ManageSessions.createSubscription
  split <;> exact of_eq rfl rfl

theorem disconnectExpired (r : SessionRef) : Tame ms (ms.disconnectExpired r) := by
  unfold ManageSessions.disconnectExpired
  cases hl : ms.lock r with
  | none => exact refl ms
  | some cs =>
    simp only
    split
    · exact refl ms
    · next t _ =>
      split_ifs
      · exact (forceDisconnect t).trans (removeFromRegistry r.clientId)
      · refine (forceDisconnect t).trans (setSession fun cs' h => ?_)
        rw [lock_forceDisconnect, hl, Option.some.injEq] at h
        rw [h]

end Tame

/-! ### CONNECT -/

section Handlers

variable {p : Platform} {ms ms' : ManageSessions} {t : ℕ} {packet : Packet} {handled : Handled}

theorem takeOver_tame {r : SessionRef} {cs : ClientSession} (hl : ms.lock r = some cs) :
    Tame ms (takeOver r cs ms).1 ∧ (takeOver r cs ms).2.inflight = cs.inflight ∧
      (takeOver r cs ms).1.lock r = some (takeOver r cs ms).2 := by
  unfold takeOver
  split_ifs with hc
  · have hdisc : ∀ ms₁ : ManageSessions, Tame ms ms₁ → ms₁.lock r = some cs →
        Tame ms (ms₁.setSession r { cs with connected := false }) ∧
          (ms₁.setSession r { cs with connected := false }).lock r =
            some { cs with connected := false } := by
      intro ms₁ ht hl₁
      refine ⟨ht.trans (.setSession fun cs' h => ?_), lock_setSession_self _ _ _ hl₁⟩
      rw [hl₁, Option.some.injEq] at h
      rw [h]
    cases ms.lockTransport cs.session with
    | none => exact ⟨(hdisc ms (.refl ms) hl).1, rfl, (hdisc ms (.refl ms) hl).2⟩
    | some old =>
      have := hdisc _ (.forceDisconnect old) ((Tame.lock_forceDisconnect old r).trans hl)
      exact ⟨this.1, rfl, this.2⟩
  · exact ⟨.refl ms, rfl, hl⟩

/-- CONNECT continues with a registered session and its inflight map, or with a new session. -/
theorem connectSession_tame {cn : Connect} {r : SessionRef} {cs : ClientSession} {flags : UInt8}
    {new : Bool} (h : connectSession p cn ms = .ok (ms', r, cs, flags, new)) :
    Tame ms ms' ∧ (new = true → cs.inflight = ∅) ∧
      ∀ cs', ms'.lock r = some cs' → cs'.inflight = cs.inflight := by
  have hfresh : ∀ (ms : ManageSessions) obj, ms.sessionRegistry.lookup cn.clientId = none →
      ms.lock ⟨cn.clientId, obj⟩ = none := by
    intro ms obj hl
    unfold lock
    simp only [hl]
  unfold connectSession at h
  cases hl : ms.sessionRegistry.lookup cn.clientId with
  | none =>
    rw [hl] at h
    cases h
    refine ⟨.of_eq rfl rfl, fun _ => rfl, fun cs' h => ?_⟩
    cases (hfresh ms ms.nextObj hl).symm.trans h
  | some entry =>
    have ht := takeOver_tame (lock_of_lookup hl)
    simp only [hl] at h
    revert ht h
    generalize takeOver ⟨cn.clientId, entry.obj⟩ entry.state ms = x
    obtain ⟨ms₁, cs₁⟩ := x
    rintro ⟨ht, hin, hlock⟩ h
    simp only at h ht hlock
    split_ifs at h with hclean
    · -- a clean session is a new object, and the old one has left the registry
      cases h
      refine ⟨ht.trans ((Tame.removeFromRegistry cn.clientId).trans (.of_eq rfl rfl)),
        fun _ => rfl, fun cs' h => ?_⟩
      have hnone : (ms₁.removeFromRegistry cn.clientId).sessionRegistry.lookup cn.clientId = none :=
        AList.lookup_erase _ _
      have hdead := hfresh _ ms₁.nextObj hnone
      cases hdead.symm.trans h
    · -- resuming pushes bytes to the old transport at most
      split at h
      · rw [except_bind_eq_ok] at h
        obtain ⟨ms₂, h₂, h⟩ := h
        rw [except_bind_eq_ok] at h
        obtain ⟨ms₃, h₃, h⟩ := h
        cases h
        obtain ⟨log, rfl, -⟩ := resendAll_calls h₂
        obtain ⟨log', rfl, -⟩ := resendAll_calls h₃
        refine ⟨ht.trans (.of_eq rfl rfl), fun h => (by cases h), fun cs' h => ?_⟩
        cases hlock.symm.trans h
        rfl
      · cases h
        refine ⟨ht, fun h => (by cases h), fun cs' h => ?_⟩
        cases hlock.symm.trans h
        rfl

theorem connectHandler_tame (h : connectHandler p packet t ms = .ok handled) :
    Tame ms handled.state := by
  unfold connectHandler at h
  split at h
  · next cn _ =>
    rw [except_bind_eq_ok] at h
    obtain ⟨⟨ms₁, r, cs, flags, new⟩, hc, h⟩ := h
    obtain ⟨ht, hnew, hlock⟩ := connectSession_tame hc
    simp only at h
    split_ifs at h with hlevel hadd
    · cases h
      exact ht.trans (.setSession fun cs' hl => (hlock cs' hl).symm)
    · cases h
      refine ht.trans (Tame.trans (Tame.addToRegistry ?_) (.scheduleExpiry p r))
      exact hnew hadd
    · cases h
      exact ht.trans (.setSession fun cs' hl => (hlock cs' hl).symm)
  · cases h
    exact .refl _

/-! ### The other handlers -/

theorem subscribeHandler_tame (h : subscribeHandler p packet t ms = .ok handled) :
    Tame ms handled.state := by
  unfold subscribeHandler at h
  split at h
  · cases h
    refine (Tame.updateActivity _).trans ((Tame.foldl (fun ms tuple => ?_) _).trans (.of_eq rfl rfl))
    split_ifs
    · exact .createSubscription _ _ _
    · exact .refl _
  · cases h
    exact .refl _

theorem Sound.setSession (hs : Sound ms) {r : SessionRef} {cs : ClientSession}
    (hcs : cs.inflight.Sound) : Sound (ms.setSession r cs) where
  inflight r' cs' hl := by
    rw [lock_setSession] at hl
    split_ifs at hl
    · obtain ⟨_, -, rfl⟩ := Option.map_eq_some_iff.1 hl
      exact hcs
    · exact hs.inflight r' cs' hl
  retransmit := by
    rw [setSession_eq]
    exact hs.retransmit

theorem Sound.pushDataToSend (hs : Sound ms) (data : Bytes) : Sound (ms.pushDataToSend t data) :=
  ⟨hs.inflight, hs.retransmit⟩

theorem pubackHandler_sound (hs : Sound ms) (h : pubackHandler packet t ms = .ok handled) :
    Sound handled.state := by
  rcases (pubackHandler_ends packet t ms).ok h with ⟨r, cs, hserves, ack, -, rfl⟩ | ⟨-, rfl⟩
  · exact hs.setSession ((hs.inflight r cs hserves.lock).erase _)
  · exact hs

theorem pubrecHandler_sound (hs : Sound ms) (h : pubrecHandler packet t ms = .ok handled) :
    Sound handled.state := by
  rcases (pubrecHandler_ends packet t ms).ok h with ⟨r, cs, hserves, ack, -, rfl⟩ | ⟨-, rfl⟩
  · refine Sound.pushDataToSend (hs.setSession ?_) _
    exact hs.inflight r cs hserves.lock
  · exact hs

theorem pubcompHandler_sound (hs : Sound ms) (h : pubcompHandler packet t ms = .ok handled) :
    Sound handled.state := by
  rcases (pubcompHandler_ends packet t ms).ok h with ⟨r, cs, hserves, ack, -, rfl⟩ | ⟨-, rfl⟩
  · refine hs.setSession ?_
    exact hs.inflight r cs hserves.lock
  · exact hs

/-! ### Routing -/

theorem Routed.sound {pub : Publish} (hr : Routed packet pub ms ms') (h : IsPublish packet pub)
    (hlen : packet.pktLen ≠ 0) (hs : Sound ms) : Sound ms' where
  inflight r cs' hl := by
    cases hl₀ : ms.lock r with
    | none => cases (hr.dead r hl₀).symm.trans hl
    | some cs =>
      obtain ⟨cs'', hl', hk⟩ := hr.alive r cs hl₀
      cases hl'.symm.trans hl
      exact hk.sound h hlen (hs.inflight r cs hl₀)
  retransmit e he := by
    obtain ⟨new, hperm, hnew⟩ := hr.heap
    rcases List.mem_append.1 (hperm.mem_iff.1 he) with he | he
    · exact ⟨(hnew e he).packetType, (hnew e he).packetId⟩
    · exact hs.retransmit e he

/-- Routing a PUBLISH that has a length returns, and keeps the invariant. -/
theorem routePacket_sound {pub : Publish} (hs : Sound ms) (h : IsPublish packet pub)
    (hlen : packet.pktLen ≠ 0) :
    ∃ ms' packet', routePacket p packet none ms = .ok (ms', packet') ∧ Sound ms' := by
  obtain ⟨ms', m, hroute, hr, -⟩ := @routePacket_routed p packet pub ms h none
  have hstart : Sound (routeStart packet pub ms) := ⟨hs.inflight, hs.retransmit⟩
  exact ⟨ms', _, hroute, hr.sound h hlen hstart⟩

theorem publishHandler_sound (hs : Sound ms) (ht : packet.header.type = .publish)
    (hlen : packet.pktLen ≠ 0) (h : publishHandler p packet t ms = .ok handled) :
    Sound handled.state := by
  rcases publishHandler_ok ht h with ⟨pub, ms', packet', hp, -, hroute, -, hstate⟩ |
    ⟨r, cs, pub, hp, hq, hserves, -, hstate⟩ | ⟨-, rfl⟩
  · obtain ⟨ms₁, packet₁, hroute₁, hs₁⟩ := @routePacket_sound p _ packet pub
      ((Tame.updateActivity (ms.getClientId t)).sound hs) ⟨ht, hp⟩ hlen
    obtain ⟨rfl, -⟩ := Prod.mk.inj (Except.ok.inj (hroute.symm.trans hroute₁))
    rcases hstate with hstate | ⟨data, hstate⟩ <;> rw [hstate]
    · exact hs₁
    · exact hs₁.pushDataToSend _
  · -- what is stored has a positive QoS
    have hpos : 0 < packet.header.qos := by
      rw [UInt8.lt_iff_toNat_lt]
      exact Nat.pos_of_ne_zero fun hz => hq (.inl (UInt8.toNat_inj.1 hz))
    rw [hstate]
    refine Sound.pushDataToSend (hs.setSession ?_) _
    exact (hs.inflight r cs hserves.lock).receivedInflight ⟨⟨pub, ⟨ht, hp⟩, rfl⟩, hlen, hpos⟩
  · exact hs

theorem Sound.released (hs : Sound ms) {r : SessionRef} {cs : ClientSession}
    (hserves : Serves ms t r cs) (packetId : UInt16) : Sound (released r cs packetId ms) :=
  hs.setSession ((hs.inflight r cs hserves.lock).erase _)

/-- The message that a PUBREL releases is routed. -/
theorem Sound.routes_released (hs : Sound ms) (r : SessionRef) (cs : ClientSession) (ack : Ack)
    (hserves : Serves ms t r cs)
    (hf : (cs.inflight.find ack.packetId).header.type = .publish) : ∃ ms' packet',
      routePacket p (cs.inflight.find ack.packetId) none (Culex.released r cs ack.packetId ms) =
        .ok (ms', packet') ∧ Sound ms' := by
  have hst := (hs.inflight r cs hserves.lock).stored_of_type hf
  obtain ⟨pub, hpub, -⟩ := hst.publish
  exact routePacket_sound (hs.released hserves ack.packetId) hpub hst.pktLen

theorem Sound.routes (hs : Sound ms) : Routes p t ms := fun r cs ack hserves hf => by
  obtain ⟨ms', packet', hroute, -⟩ := hs.routes_released r cs ack hserves hf
  exact ⟨ms', packet', hroute⟩

theorem pubrelHandler_sound (hs : Sound ms) (h : pubrelHandler p packet t ms = .ok handled) :
    Sound handled.state := by
  rcases (pubrelHandler_ends packet hs.routes).ok h with ⟨r, cs, hserves, ack, -, hcases⟩ | ⟨-, rfl⟩
  · rcases hcases with ⟨hf, ms', packet', hroute, rfl⟩ | rfl
    · obtain ⟨ms₁, packet₁, hroute₁, hs₁⟩ := hs.routes_released (p := p) r cs ack hserves hf
      obtain ⟨rfl, -⟩ := Prod.mk.inj (Except.ok.inj (hroute.symm.trans hroute₁))
      exact hs₁.pushDataToSend _
    · exact (hs.released hserves ack.packetId).pushDataToSend _
  · exact hs

/-! ### Retransmission -/

/-- Resending a stored packet returns, and keeps the invariant. -/
theorem resend_sound {e : RetransmitEntry} {cs : ClientSession} {packetId : UInt16} (hs : Sound ms)
    (he : e.packetType = .publish) (hst : Stored packetId packet) :
    ∃ ms', resend p e cs packet ms = .ok ms' ∧ Sound ms' := by
  obtain ⟨pub, hpub, -⟩ := hst.publish
  have hdup : IsPublish { packet with header := { packet.header with dup := true } } pub :=
    ⟨hpub.type, hpub.pkt⟩
  obtain ⟨ms', packet', hroute, hs'⟩ := @routePacket_sound p _ _ pub hs hdup hst.pktLen
  refine ⟨ms', ?_, hs'⟩
  unfold resend
  rw [if_pos he, hroute]
  rfl

theorem Sound.popRetransmit (hs : Sound ms) : Sound (popRetransmit p ms) where
  inflight := hs.inflight
  retransmit e he := hs.retransmit e (MinHeap.mem_of_mem_pop _ he)

theorem retransmitLoop_sound {rounds : ℕ} (hs : Sound ms)
    (h : retransmitLoop p rounds ms = .ok ms') : Sound ms' := by
  induction rounds generalizing ms with
  | zero => cases h
  | succ rounds ih =>
    unfold retransmitLoop at h
    cases htop : ms.retransmitHeap.top with
    | none =>
      simp only [htop] at h
      exact Except.ok.inj h ▸ hs
    | some e =>
      simp only [htop] at h
      split_ifs at h with hdue
      · cases hl : ms.lock e.session with
        | none =>
          simp only [hl] at h
          exact Except.ok.inj h ▸ hs
        | some cs =>
          simp only [hl] at h
          split_ifs at h with hlen
          · have he := (hs.retransmit e (MinHeap.top_mem htop)).1
            have hfind : cs.getPacket e.packetId e.packetType = cs.inflight.find e.packetId := by
              rw [he]
              rfl
            rw [hfind] at h hlen
            obtain ⟨ms₁, hres, hs₁⟩ := @resend_sound p ms _ e cs _ hs he
              ((hs.inflight _ cs hl).stored_find hlen)
            rw [hres] at h
            exact ih hs₁.popRetransmit h
          · exact Except.ok.inj h ▸ hs
      · exact Except.ok.inj h ▸ hs

/-! ### Expiry -/

theorem collectExpired_tame {rounds : ℕ} {sweep sweep' : Sweep}
    (h : collectExpired p rounds sweep ms = .ok (sweep', ms')) : Tame ms ms' := by
  induction rounds generalizing sweep ms with
  | zero => cases h
  | succ rounds ih =>
    unfold collectExpired at h
    split at h
    · cases h
      exact .refl _
    · split_ifs at h
      · cases h
        exact .refl _
      · split at h
        · have hpop := ih h
          exact ⟨hpop.lock, hpop.retransmitHeap⟩
        · exact ih h

theorem processExpiredSessions_tame (h : ms.processExpiredSessions p = .ok ms') : Tame ms ms' := by
  unfold processExpiredSessions at h
  rw [except_bind_eq_ok] at h
  obtain ⟨⟨sweep, ms₁⟩, hc, h⟩ := h
  cases h
  exact (collectExpired_tame hc).trans ((Tame.foldl (fun ms r => .disconnectExpired r) _).trans
    (Tame.foldl (fun ms r => .scheduleExpiry p r) _))

/-! ### The broker -/

theorem dispatch_sound (hs : Sound ms) (hlen : packet.pktLen ≠ 0)
    (h : dispatch p packet t ms = .ok handled) : Sound handled.state := by
  unfold dispatch handlers at h
  cases ht : packet.header.type <;> rw [ht] at h <;> simp only [PacketType.code] at h
  case connect => exact (connectHandler_tame h).sound hs
  case publish => exact publishHandler_sound hs ht hlen h
  case puback => exact pubackHandler_sound hs h
  case pubrec => exact pubrecHandler_sound hs h
  case pubrel => exact pubrelHandler_sound hs h
  case pubcomp => exact pubcompHandler_sound hs h
  case subscribe => exact (subscribeHandler_tame h).sound hs
  case unsubscribe =>
    have h : unsubscribeHandler packet t ms = .ok handled := h
    unfold unsubscribeHandler at h
    split at h
    · cases h
    · exact Except.ok.inj h ▸ hs
  case pingreq =>
    have h : pingreqHandler packet t ms = .ok handled := h
    cases h
    exact Sound.pushDataToSend ((Tame.updateActivity _).sound hs) _
  all_goals
    cases h <;> exact hs

theorem finish_tame (h : finish packet t handled = .ok ms') : Tame handled.state ms' := by
  unfold finish at h
  split_ifs at h
  · split at h
    · cases h
      exact (Tame.setTransport _ _).trans (.of_eq rfl rfl)
    · cases h
  · cases h
    have hpush : Tame handled.state (handled.state.pushDataToSend t handled.buff) := .of_eq rfl rfl
    exact hpush.trans (.forceDisconnect t)
  · cases h
    exact .refl _

theorem parseData_sound {beyond : Mem} (hs : Sound ms) (h : parseData p t beyond ms = .ok ms') :
    Sound ms' := by
  unfold parseData at h
  split at h
  · exact Except.ok.inj h ▸ hs
  · rw [except_bind_eq_ok] at h
    obtain ⟨⟨⟨rc, pkt⟩, q⟩, hu, h⟩ := h
    simp only at h
    split_ifs at h with hrc hpartial
    · rw [except_bind_eq_ok] at h
      obtain ⟨handled, hd, h⟩ := h
      rw [hrc] at hu
      exact (finish_tame h).sound
        (dispatch_sound ((Tame.setTransport _ _).sound hs) (pktLen_ne_zero hu) hd)
    · exact Except.ok.inj h ▸ hs
    · rw [except_bind_eq_ok] at h
      obtain ⟨⟨r, cs⟩, -, h⟩ := h
      cases h
      refine Tame.sound (.forceDisconnect t) (Tame.sound ?_ hs)
      split_ifs
      · exact .removeFromRegistry _
      · exact .refl _

/-- Every event keeps the invariant. -/
theorem Event.apply_sound {e : Event} (hs : Sound ms) (h : e.apply p ms = .ok ms') : Sound ms' := by
  cases e with
  | newConnection fd =>
    cases h
    exact ⟨hs.inflight, hs.retransmit⟩
  | receive id data =>
    simp only [apply] at h
    split at h
    · exact Except.ok.inj h ▸ hs
    · cases h
      have hset := (Tame.setTransport id fun t => { t with recvBuff := t.recvBuff ++ data }).sound hs
      exact ⟨hset.inflight, hset.retransmit⟩
  | parseData id beyond =>
    simp only [apply] at h
    split_ifs at h
    · cases hp : Culex.parseData p id beyond ms with
      | error e =>
        rw [hp] at h
        cases h
      | ok ms₁ =>
        rw [hp] at h
        cases h
        have hs₁ := parseData_sound hs hp
        exact ⟨hs₁.inflight, hs₁.retransmit⟩
    · exact Except.ok.inj h ▸ hs
  | closeConnection fd =>
    cases h
    exact ⟨hs.inflight, hs.retransmit⟩
  | processExpiredSessions => exact (processExpiredSessions_tame h).sound hs
  | processRetransmissions => exact retransmitLoop_sound hs h
  | tick elapsed =>
    cases h
    exact ⟨hs.inflight, hs.retransmit⟩

end Handlers

/-- **In every reachable state, what is stored for later is usable.** -/
theorem Reachable.sound {p : Platform} {ms : ManageSessions} (h : Reachable p ms) : Sound ms := by
  refine h.invariant ⟨fun r cs hl => ?_, fun e he => ?_⟩ fun ms e ms' hs ha => e.apply_sound hs ha
  · cases hl
  · cases he

end Culex
