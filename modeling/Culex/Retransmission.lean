import Culex.Sound

/-!
# Rounds of retransmission

The loop of `processRetransmissions` as a run of rounds (`Resends`): a round takes the top entry of
the heap, which is due and whose packet is stored, routes this packet once more, and pops the entry.
The loop stops where it finds no such top (`Stopped`), and it does stop: a round schedules nothing
that is due.
-/

namespace Culex

open ManageSessions

/-- The packet of the entry is stored in a session that is alive. -/
def Fresh (ms : ManageSessions) (e : RetransmitEntry) : Prop :=
  ∃ cs, ms.lock e.session = some cs ∧ (cs.getPacket e.packetId e.packetType).pktLen ≠ 0

/-- The loop ends here: no due entry on top has a packet to send again. -/
def Stopped (ms : ManageSessions) : Prop :=
  ∀ e, ms.retransmitHeap.top = some e → e.retryMs ≤ ms.now → ¬ Fresh ms e

/-- The state after the entry has been popped. -/
structure Resends (p : Platform) (ms : ManageSessions) (e : RetransmitEntry)
    (ms' : ManageSessions) : Prop where
  top : ms.retransmitHeap.top = some e
  due : e.retryMs ≤ ms.now
  round : ∃ cs ms₁, ms.lock e.session = some cs ∧
    (cs.getPacket e.packetId e.packetType).pktLen ≠ 0 ∧
      resend p e cs (cs.getPacket e.packetId e.packetType) ms = .ok ms₁ ∧
        ms' = popRetransmit p ms₁

/-- A round of retransmission, or time passing between two of them. -/
inductive RetryAction
  | tick (elapsed : ℕ)
  | resend (e : RetransmitEntry)

/-- The transitions of retransmission without anything else happening. -/
def RetryStep (p : Platform) (ms : ManageSessions) : RetryAction → ManageSessions → Prop
  | .tick elapsed, ms' => ms' = { ms with now := ms.now + elapsed }
  | .resend e, ms' => Resends p ms e ms'

/-- The packet with its duplicate flag set. -/
def Packet.withDup (packet : Packet) : Packet :=
  { packet with header := { packet.header with dup := true } }

theorem IsPublish.withDup {packet : Packet} {pub : Publish} (h : IsPublish packet pub) :
    IsPublish packet.withDup pub := ⟨h.type, h.pkt⟩

variable {p : Platform} {ms ms' : ManageSessions} {e : RetransmitEntry}

/-! ### One round -/

/-- What a round does before it pops the entry: the entry names a stored PUBLISH, and this is routed
with its duplicate flag set. -/
structure Rerouted (p : Platform) (ms : ManageSessions) (e : RetransmitEntry) (cs : ClientSession)
    (packet : Packet) (pub : Publish) (ms₁ : ManageSessions) : Prop where
  lock : ms.lock e.session = some cs
  lookup : cs.inflight.lookup e.packetId = some packet
  isPublish : IsPublish packet pub
  packetId : pub.packetId = e.packetId
  pktLen : packet.pktLen ≠ 0
  qos : 0 < packet.header.qos
  route : ∃ packet', routePacket p packet.withDup none ms = .ok (ms₁, packet')
  routed : Routed packet.withDup pub (routeStart packet.withDup pub ms) ms₁

theorem Resends.spec (hs : Sound ms) (h : Resends p ms e ms') :
    ∃ cs packet pub ms₁, Rerouted p ms e cs packet pub ms₁ ∧ ms' = popRetransmit p ms₁ := by
  obtain ⟨cs, ms₁, hl, hlen, hres, rfl⟩ := h.round
  have htype := (hs.retransmit e (MinHeap.top_mem h.top)).1
  have hfind : cs.getPacket e.packetId e.packetType = cs.inflight.find e.packetId := by
    rw [htype]
    rfl
  rw [hfind] at hlen hres
  have hst := (hs.inflight _ cs hl).stored_find hlen
  obtain ⟨pub, hpub, hid⟩ := hst.publish
  -- a default packet would have no length
  have hlookup : cs.inflight.lookup e.packetId = some (cs.inflight.find e.packetId) := by
    unfold Inflight.find at hlen ⊢
    cases hk : cs.inflight.lookup e.packetId with
    | none =>
      rw [hk] at hlen
      exact absurd rfl hlen
    | some packet => rfl
  obtain ⟨ms₂, m, hroute, hrouted, -⟩ := @routePacket_routed p _ pub ms hpub.withDup none
  have heq : resend p e cs (cs.inflight.find e.packetId) ms = .ok ms₂ := by
    unfold resend
    rw [if_pos htype]
    have hroute' : routePacket p { cs.inflight.find e.packetId with
        header := { (cs.inflight.find e.packetId).header with dup := true } } none ms =
          .ok (ms₂, (cs.inflight.find e.packetId).withDup.withQos m) := hroute
    rw [hroute']
    rfl
  obtain rfl := Except.ok.inj (heq.symm.trans hres)
  exact ⟨cs, cs.inflight.find e.packetId, pub, ms₂,
    ⟨hl, hlookup, hpub, hid, hst.pktLen, hst.qos, ⟨_, hroute⟩, hrouted⟩, rfl⟩

/-- A round keeps the invariant. -/
theorem Resends.sound (hs : Sound ms) (h : Resends p ms e ms') : Sound ms' := by
  obtain ⟨cs, packet, pub, ms₁, hr, rfl⟩ := h.spec hs
  have hstart : Sound (routeStart packet.withDup pub ms) := ⟨hs.inflight, hs.retransmit⟩
  exact (hr.routed.sound hr.isPublish.withDup hr.pktLen hstart).popRetransmit

/-- A round takes no time. -/
theorem Resends.now (hs : Sound ms) (h : Resends p ms e ms') : ms'.now = ms.now := by
  obtain ⟨cs, packet, pub, ms₁, hr, rfl⟩ := h.spec hs
  exact hr.routed.now

/-- What is stored stays stored. -/
theorem Resends.stays (hs : Sound ms) (h : Resends p ms e ms') {r : SessionRef}
    {cs : ClientSession} (hl : ms.lock r = some cs) {k : UInt16} {pkt : Packet}
    (hk : cs.inflight.lookup k = some pkt) :
    ∃ cs', ms'.lock r = some cs' ∧ cs'.inflight.lookup k = some pkt := by
  obtain ⟨_, packet, pub, ms₁, hr, rfl⟩ := h.spec hs
  obtain ⟨cs', hl', hkept⟩ := hr.routed.alive r cs hl
  exact ⟨cs', hl', hkept.stays k pkt hk⟩

/-- A round takes its entry out and puts in entries that are not due. -/
theorem Resends.entries (hs : Sound ms) (h : Resends p ms e ms') :
    ∃ new, (e :: ms'.retransmitHeap.entries).Perm (new ++ ms.retransmitHeap.entries) ∧
      ∀ e' ∈ new, Scheduled ms.now e' := by
  obtain ⟨_, packet, pub, ms₁, hr, rfl⟩ := h.spec hs
  obtain ⟨new, hperm, hnew⟩ := hr.routed.heap
  have htop : ms₁.retransmitHeap.top = some e := hr.routed.top e h.top h.due
  exact ⟨new, (MinHeap.perm_pop p.retransmitOrder htop).symm.trans hperm, hnew⟩

theorem RetryStep.sound (hs : Sound ms) {a : RetryAction} (h : RetryStep p ms a ms') :
    Sound ms' := by
  cases a with
  | tick elapsed =>
    cases h
    exact ⟨hs.inflight, hs.retransmit⟩
  | resend e => exact Resends.sound hs h

/-! ### The loop -/

/-- The entries that are due. -/
def dueCount (ms : ManageSessions) : ℕ :=
  ms.retransmitHeap.entries.countP fun e => e.retryMs ≤ ms.now

/-- A round leaves one due entry less. -/
theorem Resends.dueCount (hs : Sound ms) (h : Resends p ms e ms') :
    dueCount ms' + 1 = dueCount ms := by
  obtain ⟨new, hperm, hnew⟩ := h.entries hs
  have hcount := hperm.countP_eq fun e => decide (e.retryMs ≤ ms.now)
  have hzero : new.countP (fun e => decide (e.retryMs ≤ ms.now)) = 0 := by
    apply List.countP_eq_zero.2
    intro e' he'
    have hretry := (hnew e' he').retryMs
    simp only [retryIntervalS] at hretry
    simp only [decide_eq_true_eq]
    omega
  rw [List.countP_append, hzero, List.countP_cons_of_pos (by simp [h.due])] at hcount
  unfold Culex.dueCount
  rw [h.now hs, hcount, Nat.zero_add]

theorem retransmitLoop_resends (h : Resends p ms e ms') (rounds : ℕ) :
    retransmitLoop p (rounds + 1) ms = retransmitLoop p rounds ms' := by
  obtain ⟨cs, ms₁, hl, hlen, hres, rfl⟩ := h.round
  rw [retransmitLoop]
  simp only [h.top, if_pos h.due, hl, if_pos hlen, hres, ok_bind]

theorem retransmitLoop_stopped (h : Stopped ms) (rounds : ℕ) :
    retransmitLoop p (rounds + 1) ms = .ok ms := by
  rw [retransmitLoop]
  cases htop : ms.retransmitHeap.top with
  | none => rfl
  | some e =>
    simp only
    split_ifs with hdue
    · cases hl : ms.lock e.session with
      | none => rfl
      | some cs =>
        have hlen : ¬ (cs.getPacket e.packetId e.packetType).pktLen ≠ 0 :=
          fun hlen => h e htop hdue ⟨cs, hl, hlen⟩
        simp only [if_neg hlen]
    · rfl

/-- Where the loop does not end, there is a round. -/
theorem exists_resends (hs : Sound ms) (h : ¬ Stopped ms) : ∃ e ms', Resends p ms e ms' := by
  unfold Stopped at h
  push Not at h
  obtain ⟨e, htop, hdue, cs, hl, hlen⟩ := h
  have htype := (hs.retransmit e (MinHeap.top_mem htop)).1
  have hfind : cs.getPacket e.packetId e.packetType = cs.inflight.find e.packetId := by
    rw [htype]
    rfl
  have hst : Stored e.packetId (cs.getPacket e.packetId e.packetType) := by
    rw [hfind] at hlen ⊢
    exact (hs.inflight _ cs hl).stored_find hlen
  obtain ⟨ms₁, hres, -⟩ := @resend_sound p ms _ e cs _ hs htype hst
  exact ⟨e, popRetransmit p ms₁, htop, hdue, cs, ms₁, hl, hlen, hres, rfl⟩

/-! ### What the rounds do -/

section Rounds

variable {R : ManageSessions → ManageSessions → Prop}

/-- What every round does to the state, the loop does. -/
theorem retransmitLoop_rel (refl : ∀ a, R a a) (trans : ∀ a b c, R a b → R b c → R a c)
    (resends : ∀ a b entry, Sound a → Resends p a entry b → R a b) {rounds : ℕ} (hs : Sound ms)
    (h : retransmitLoop p rounds ms = .ok ms') : R ms ms' := by
  induction rounds generalizing ms with
  | zero => cases h
  | succ rounds ih =>
    by_cases hstop : Stopped ms
    · rw [retransmitLoop_stopped hstop] at h
      obtain rfl := Except.ok.inj h
      exact refl ms
    · obtain ⟨entry, ms₁, hres⟩ := @exists_resends p ms hs hstop
      rw [retransmitLoop_resends hres] at h
      exact trans _ _ _ (resends _ _ _ hs hres) (ih (hres.sound hs) h)

/-- **What the rounds do, `processRetransmissions` does.** -/
theorem processRetransmissions_rel (refl : ∀ a, R a a) (trans : ∀ a b c, R a b → R b c → R a c)
    (resends : ∀ a b entry, Sound a → Resends p a entry b → R a b) (hs : Sound ms)
    (h : ms.processRetransmissions p = .ok ms') : R ms ms' :=
  retransmitLoop_rel refl trans resends hs h

end Rounds

/-- **The loop is a run of rounds that ends where it stops.** -/
theorem retransmitLoop_run (hs : Sound ms) {rounds : ℕ} (hrounds : dueCount ms < rounds) :
    ∃ (es : List RetransmitEntry) (ms' : ManageSessions), retransmitLoop p rounds ms = .ok ms' ∧
      Run (RetryStep p) ms (es.map .resend) ms' ∧ Stopped ms' := by
  induction rounds generalizing ms with
  | zero => omega
  | succ rounds ih =>
    by_cases hstop : Stopped ms
    · exact ⟨[], ms, retransmitLoop_stopped hstop rounds, .nil, hstop⟩
    · obtain ⟨e, ms₁, h⟩ := @exists_resends p ms hs hstop
      have hcount := h.dueCount hs
      obtain ⟨es, ms', hloop, hrun, hstop'⟩ := ih (h.sound hs) (by omega)
      refine ⟨e :: es, ms', (retransmitLoop_resends h rounds).trans hloop, ?_, hstop'⟩
      exact hrun.cons h

/-- After a run of rounds the loop goes on from the state reached. -/
theorem retransmitLoop_of_run (hs : Sound ms) {es : List RetransmitEntry}
    (hrun : Run (RetryStep p) ms (es.map .resend) ms') :
    Sound ms' ∧ dueCount ms' + es.length = dueCount ms ∧
      ∀ rounds, retransmitLoop p (rounds + es.length) ms = retransmitLoop p rounds ms' := by
  refine hrun.of_map.history (I := fun es s => Sound s ∧ dueCount s + es.length = dueCount ms ∧
    ∀ rounds, retransmitLoop p (rounds + es.length) ms = retransmitLoop p rounds s)
    ⟨hs, rfl, fun _ => rfl⟩ ?_
  · rintro es s e s' ⟨hs₁, hcount, hloop⟩ (hstep : Resends p s e s')
    have hcount' := hstep.dueCount hs₁
    refine ⟨hstep.sound hs₁, ?_, fun rounds => ?_⟩
    · rw [List.length_append, List.length_singleton]
      omega
    · rw [List.length_append, List.length_singleton, ← retransmitLoop_resends hstep,
        ← hloop (rounds + 1)]
      exact congrArg (fun n => retransmitLoop p n ms) (by omega)

theorem processRetransmissions_run (hs : Sound ms) :
    ∃ (es : List RetransmitEntry) (ms' : ManageSessions),
      ms.processRetransmissions p = .ok ms' ∧
        Run (RetryStep p) ms (es.map .resend) ms' ∧ Stopped ms' :=
  retransmitLoop_run hs (Nat.lt_succ_of_le List.countP_le_length)

end Culex
