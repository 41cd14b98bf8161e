import Culex.Loop

/-!
# The loop when nothing is reported

Clients that have gone silent are disconnected by the loop alone, which wakes for the first entry of
the expiry heap, sweeps, and waits for the next.  An entry may come before its session expires, and
is then put off once: so the turns are at most twice as many as the entries.  Of `poll` it is only
assumed that it does not return before its timeout, and the loop may take any time for its turns.

* `Delays`, `idle`: the loop while nothing is reported and no task is left;
* `Idles`: what such a turn does;
* `idle_blocks`: the turns come to an end, and nobody who is late is served;
* `idle_on_time`: each client is served until the first sweep after it has expired, and the loop
  wakes in time for that.
-/

namespace Culex

open ManageSessions

/-- What the sweep asks of a session. -/
structure Timing where
  keepAlive : UInt16
  lastActivity : ℤ
  connected : Bool
  session : Option ℕ

/-- The time at which the session expires. -/
def Timing.expiry (t : Timing) : ℤ := t.lastActivity + t.keepAlive.toNat * 1500

def ClientSession.timing (cs : ClientSession) : Timing :=
  ⟨cs.keepAlive, cs.lastActivity, cs.connected, cs.session⟩

def ManageSessions.timing (ms : ManageSessions) (r : SessionRef) : Option Timing :=
  (ms.lock r).map ClientSession.timing

/-- The session of the entry expires later than the entry says. -/
def ManageSessions.stale (ms : ManageSessions) (e : ExpiryEntry) : Bool :=
  (ms.timing e.session).any fun t => e.expiryMs < t.expiry

/-- A bound of the turns that are left. -/
def remaining (ms : ManageSessions) : ℕ :=
  ms.expiryHeap.entries.length + ms.expiryHeap.entries.countP ms.stale

/-- The session is connected, and its transport is alive. -/
def Attended (ms : ManageSessions) (r : SessionRef) : Prop :=
  ∃ cs, ms.lock r = some cs ∧ cs.connected = true ∧ (ms.lockTransport cs.session).isSome

/-- The delays of a turn: how much later than `poll` was to wake the sweep reads the clock, and the
time that passes before the retransmissions and after them. -/
structure Delays where
  late : ℕ := 0
  afterSweep : ℕ := 0
  afterRetransmit : ℕ := 0

namespace Delays

/-- The time of the sweep. -/
def sweptAt (d : Delays) (ms : ManageSessions) : ℤ :=
  ms.now + (ms.getNextTimeoutMs.toNat + d.late : ℕ)

/-- A turn in which `poll` waits for its timeout, and nothing is reported. -/
def turn (d : Delays) (ms : ManageSessions) : Turn where
  happens := [.meanwhile (.elapsed (ms.getNextTimeoutMs.toNat + d.late))]
  afterSweep := [.elapsed d.afterSweep]
  afterRetransmit := [.elapsed d.afterRetransmit]

/-- The state that the sweep finds. -/
def woken (d : Delays) (ms : ManageSessions) : ManageSessions := { ms with now := d.sweptAt ms }

end Delays

/-- The loop while nothing is reported, until `poll` waits without a timeout. -/
def idle (p : Platform) (serverFd : ℕ) : List Delays → ManageSessions → Except Fault ManageSessions
  | [], ms => .ok ms
  | d :: ds, ms =>
    if ms.getNextTimeoutMs < 0 then .ok ms
    else do
      let ms ← turn p serverFd ms (d.turn ms)
      idle p serverFd ds ms

variable {p : Platform} {serverFd : ℕ} {ms ms' ms₁ : ManageSessions} {r : SessionRef}
  {cs cs' : ClientSession} {e : ExpiryEntry} {t : Timing} {packet : Packet} {pub : Publish}
  {d : Delays} {ds : List Delays}

/-! ### Retransmission -/

theorem timing_of_lock (hl : ms.lock r = some cs) : ms.timing r = some cs.timing := by
  unfold ManageSessions.timing
  rw [hl]
  rfl

theorem timing_congr (h : ms'.lock = ms.lock) : ms'.timing = ms.timing := by
  funext r
  unfold ManageSessions.timing
  rw [h]

theorem timing_setSession (hl : ms.lock r = some cs) (h : cs'.timing = cs.timing) :
    (ms.setSession r cs').timing = ms.timing := by
  funext r'
  unfold ManageSessions.timing
  rw [lock_setSession]
  split_ifs with he
  · rw [he, hl]
    exact congrArg some h
  · rfl

/-- Routing leaves the sessions' times alone. -/
theorem routePacket_timing (h : IsPublish packet pub) {receiver : Option SessionRef}
    {packet' : Packet} (hr : routePacket p packet receiver ms = .ok (ms', packet')) :
    ms'.timing = ms.timing := by
  have hconnected : ∀ ms₁ s cs m, s ∈ routeTargets p pub ms → ms₁.timing = ms.timing →
      ms₁.lock s.session = some cs →
        (delivered p s.session cs (packet.withQos m) pub ms₁).timing = ms.timing := by
    intro ms₁ s cs m _ hI hl
    have hpush : ∀ ms₂ : ManageSessions, (ms₂.pushIfAlive cs.session
        (publishBytes (packet.withQos m).header pub)).timing = ms₂.timing :=
      fun ms₂ => timing_congr (funext fun r => lock_pushIfAlive ms₂ r _ _)
    by_cases hq : 0 < (packet.withQos m).header.qos
    · rw [delivered_of_pos hq, hpush]
      have hset := @timing_setSession (ms₁.record (.sendToClient s.session (packet.withQos m)))
        s.session cs (tracked cs (packet.withQos m) pub) hl rfl
      exact hset.trans hI
    · rw [delivered_of_not_pos hq, hpush]
      exact hI
  have hoffline : ∀ ms₁ s cs m, s ∈ routeTargets p pub ms → ms₁.timing = ms.timing →
      ms₁.lock s.session = some cs →
        (queued s.session cs (packet.withQos m) ms₁).timing = ms.timing := by
    intro ms₁ s cs m _ hI hl
    unfold queued
    split_ifs
    · have hset := @timing_setSession ms₁ s.session cs (cs.storeMessage (packet.withQos m)) hl rfl
      exact hset.trans hI
    · exact hI
  obtain ⟨ms₂, m₂, hloop, hI⟩ := @routeLoop_invariant p packet pub (routeStart packet pub ms) h
    (fun ms₁ => ms₁.timing = ms.timing) (routeTargets p pub ms) hconnected hoffline rfl
  rw [routePacket_eq h] at hr
  obtain ⟨rfl, -⟩ := Prod.mk.inj (Except.ok.inj (hloop.symm.trans hr))
  exact hI

theorem Resends.timing (hs : Sound ms) {entry : RetransmitEntry} (h : Resends p ms entry ms') :
    ms'.timing = ms.timing := by
  obtain ⟨cs, packet, pub, ms₁, hr, rfl⟩ := h.spec hs
  obtain ⟨packet', hroute⟩ := hr.route
  have hroute : ms₁.timing = ms.timing := routePacket_timing hr.isPublish.withDup hroute
  exact hroute

theorem retransmitLoop_timing {rounds : ℕ} (hs : Sound ms)
    (h : retransmitLoop p rounds ms = .ok ms') : ms'.timing = ms.timing :=
  retransmitLoop_rel (R := fun a b => b.timing = a.timing) (fun _ => rfl)
    (fun _ _ _ hab hbc => hbc.trans hab) (fun _ _ _ hs hres => hres.timing hs) hs h

/-! ### A turn -/

/-- What a turn does from the state that the sweep finds: the retransmissions leave the sessions'
times alone. -/
structure Idles (p : Platform) (ms ms' : ManageSessions) : Prop where
  sweeps : ∃ popped heap ms₁, Expires p ms popped heap ms₁ ∧ ms'.expiryHeap = ms₁.expiryHeap ∧
    ms'.timing = ms₁.timing
  now_le : ms.now ≤ ms'.now

theorem Delays.le_sweptAt (d : Delays) (ms : ManageSessions) : ms.now ≤ d.sweptAt ms :=
  le_add_of_nonneg_right (Int.natCast_nonneg _)

/-- The sweep comes when the first entry is due, or later. -/
theorem Reachable.due_woken (hr : Reachable p ms) (htop : ms.expiryHeap.top = some e) :
    e.expiryMs ≤ (d.woken ms).now := by
  have heq := hr.getNextTimeoutMs_eq
  rw [htop] at heq
  simp only at heq
  show e.expiryMs ≤ ms.now + (ms.getNextTimeoutMs.toNat + d.late : ℕ)
  omega

theorem Reachable.woken (hr : Reachable p ms) : Reachable p (d.woken ms) :=
  hr.step (e := .tick (ms.getNextTimeoutMs.toNat + d.late)) rfl

/-- Sessions that are gone have no times. -/
theorem timing_eq_none_iff : ms.timing r = none ↔ ms.lock r = none := by
  unfold ManageSessions.timing
  exact Option.map_eq_none_iff

theorem idle_blocked (h : ms.getNextTimeoutMs < 0) (ds : List Delays) :
    idle p serverFd ds ms = .ok ms := by
  cases ds with
  | nil => rfl
  | cons d ds =>
    unfold idle
    rw [if_pos h]

/-- **A turn without orphans.** -/
theorem idle_turn (hr : Reachable p ms) (hno : ¬ Orphaned ms) (d : Delays) :
    ∃ ms', turn p serverFd ms (d.turn ms) = .ok ms' ∧ Reachable p ms' ∧ ¬ Orphaned ms' ∧
      Idles p (d.woken ms) ms' := by
  have hrw : Reachable p (d.woken ms) := hr.woken
  have halive : DueAlive (d.woken ms) := by
    intro entry hmem _
    by_contra hdead
    exact hno ⟨entry, hmem, Option.not_isSome_iff_eq_none.1 hdead⟩
  obtain ⟨ms₁, hsweep⟩ := @processExpiredSessions_returns p _ halive
  have hr₁ : Reachable p ms₁ := hrw.step (e := .processExpiredSessions) hsweep
  have hr₂ : Reachable p { ms₁ with now := ms₁.now + d.afterSweep } :=
    hr₁.step (e := .tick d.afterSweep) rfl
  obtain ⟨es, ms₃, hretransmit, -⟩ := processRetransmissions_run hr₂.sound
  have hr₃ : Reachable p ms₃ := hr₂.step (e := .processRetransmissions) hretransmit
  have hr' : Reachable p { ms₃ with now := ms₃.now + d.afterRetransmit } :=
    hr₃.step (e := .tick d.afterRetransmit) rfl
  obtain ⟨popped, heap, hexpires⟩ := processExpiredSessions_expires hsweep
  have hsteady := retransmitLoop_steady hr₂.sound hretransmit
  have htimings := retransmitLoop_timing hr₂.sound hretransmit
  have htiming : ms₃.timing = ms₁.timing := htimings
  have hnow : ms₃.now = ms₁.now + d.afterSweep := hsteady.now
  refine ⟨_, turn_eq_ok.2 ⟨d.woken ms, _, _, _, rfl, hsweep, rfl, hretransmit, rfl⟩, hr', ?_,
    ⟨popped, heap, ms₁, hexpires, hsteady.expiryHeap, htiming⟩, ?_⟩
  · have horphaned : Orphaned { ms₃ with now := ms₃.now + d.afterRetransmit } ↔ Orphaned ms₁ := by
      refine orphaned_congr hsteady.expiryHeap fun r => ?_
      rw [← timing_eq_none_iff, ← timing_eq_none_iff]
      exact iff_of_eq (congrArg (fun f => f r = none) htiming)
    rw [horphaned, hexpires.orphaned_iff hrw.timed]
    exact hno
  · show (d.woken ms).now ≤ ms₃.now + d.afterRetransmit
    rw [hnow, hexpires.now]
    omega

theorem idle_cons (hwaits : 0 ≤ ms.getNextTimeoutMs)
    (hturn : turn p serverFd ms (d.turn ms) = .ok ms') :
    idle p serverFd (d :: ds) ms = idle p serverFd ds ms' := by
  rw [idle, if_neg (not_lt.2 hwaits), hturn, ok_bind]

namespace Idles

/-- A session that the sweep does not disconnect keeps its times. -/
theorem timing_of_not_mem {popped : List ExpiryEntry} {heap : MinHeap ExpiryEntry.expiryMs}
    (h : Expires p ms popped heap ms₁) (hr : r ∉ (sweepOf ms popped).toDisconnect) :
    ms₁.timing r = ms.timing r := by
  unfold ManageSessions.timing
  rw [h.lock_not_toDisconnect hr]
  split_ifs
  · rw [Option.map_map]
    refine congrArg (fun f => Option.map f (ms.lock r)) (funext fun cs => ?_)
    show cs.expiring.timing = cs.timing
    rw [expiring_eq]
    rfl
  · rfl

/-- What is put off does not come too early again. -/
theorem stale_new {popped : List ExpiryEntry} {heap : MinHeap ExpiryEntry.expiryMs}
    (h : Expires p ms popped heap ms₁) :
    ∀ e ∈ (sweepOf ms popped).newEntries.filterMap ms.deadline, ¬ ms₁.stale e = true := by
  intro e he
  obtain ⟨r, hr, hd⟩ := List.mem_filterMap.1 he
  obtain ⟨cs, hl, -, rfl⟩ := deadline_eq_some_iff.1 hd
  unfold stale
  rw [timing_of_not_mem h fun hout => Expires.disjoint hout hr, timing_of_lock hl]
  have hle : ¬ expiryOf cs < cs.timing.expiry := lt_irrefl _
  simpa using hle

/-- Every entry that is put off came too early. -/
theorem length_newEntries {popped : List ExpiryEntry} {heap : MinHeap ExpiryEntry.expiryMs}
    (hc : Collects ms popped heap) :
    (sweepOf ms popped).newEntries.length ≤ popped.countP ms.stale := by
  have hfresh : (sweepOf ms popped).newEntries.length =
      popped.countP (ms.fresh ∘ ExpiryEntry.session) := by
    show ((popped.map ExpiryEntry.session).filter ms.fresh).length = _
    rw [← List.countP_eq_length_filter, List.countP_map]
  rw [hfresh]
  refine List.countP_mono_left fun e he hf => ?_
  obtain ⟨cs, hl, hlt⟩ := fresh_eq_true_iff.1 hf
  have hdue := (hc.due e he).1
  have hearly : e.expiryMs < cs.timing.expiry := hdue.trans_lt hlt
  unfold stale
  rw [timing_of_lock hl]
  simpa using hearly

/-- **A turn leaves fewer turns**: what is due goes, or is put off once. -/
theorem remaining_lt (h : Idles p ms ms') (ht : Timed ms) (he : e ∈ ms.expiryHeap.entries)
    (hdue : e.expiryMs ≤ ms.now) : remaining ms' < remaining ms := by
  obtain ⟨popped, heap, ms₁, hexpires, hheap, htiming⟩ := h.sweeps
  have hstale : ms'.stale = ms₁.stale := by
    unfold stale
    rw [htiming]
  have hsame : heap.entries.countP ms₁.stale = heap.entries.countP ms.stale := by
    refine List.countP_congr fun e' he' => ?_
    have hnot : e'.session ∉ (sweepOf ms popped).toDisconnect := by
      intro hmem
      obtain ⟨e₀, he₀, hsession⟩ := List.mem_map.1 (List.mem_filter.1 hmem).1
      exact (ht.nodup_popped hexpires.collects).2 e₀ he₀ e' he' (congrArg SessionRef.obj hsession)
    unfold stale
    rw [timing_of_not_mem hexpires hnot]
  have hpopped : 0 < popped.length := by
    rw [hexpires.collects.perm.mem_iff, List.mem_append] at he
    refine List.length_pos_of_mem (he.resolve_right fun hmem => ?_)
    have hlt := hexpires.collects.rest e hmem
    omega
  have hnew := List.countP_eq_zero.2 (stale_new hexpires)
  have hlength := (List.length_filterMap_le ms.deadline _).trans
    (length_newEntries hexpires.collects)
  have hperm := hexpires.collects.perm
  have hperm' := hexpires.entries
  unfold remaining
  rw [hheap, hstale, hperm.length_eq, hperm'.length_eq, hperm.countP_eq, hperm'.countP_eq]
  simp only [List.length_append, List.countP_append]
  omega

/-- What is left has been there, with the same times. -/
theorem timing_of_some (h : Idles p ms ms') (hl' : ms'.lock r = some cs') :
    ∃ cs, ms.lock r = some cs ∧ expiryOf cs' = expiryOf cs ∧ cs'.keepAlive = cs.keepAlive := by
  obtain ⟨popped, heap, ms₁, hexpires, -, htiming⟩ := h.sweeps
  have ht' : ms₁.timing r = some cs'.timing := by
    rw [← htiming]
    exact timing_of_lock hl'
  obtain ⟨cs₁, hl₁, hcs₁⟩ := Option.map_eq_some_iff.1 ht'
  obtain ⟨cs, hl, hswept⟩ := hexpires.sweeps.alive r cs₁ hl₁
  have hkeepAlive : cs'.keepAlive = cs.keepAlive := by
    have hk : cs₁.keepAlive = cs'.keepAlive := congrArg Timing.keepAlive hcs₁
    rw [← hk, hswept.eq]
  have hactive : cs'.lastActivity = cs.lastActivity := by
    have ha : cs₁.lastActivity = cs'.lastActivity := congrArg Timing.lastActivity hcs₁
    rw [← ha, hswept.eq]
  refine ⟨cs, hl, ?_, hkeepAlive⟩
  unfold expiryOf
  rw [hkeepAlive, hactive]

/-- A session whose time is not up keeps its times. -/
theorem timing_eq (h : Idles p ms ms') (ht : ms.timing r = some t) (hearly : ms.now < t.expiry) :
    ms'.timing r = some t := by
  obtain ⟨popped, heap, ms₁, hexpires, -, htiming⟩ := h.sweeps
  obtain ⟨cs, hl, rfl⟩ := Option.map_eq_some_iff.1 ht
  have hfresh : ms.now < expiryOf cs := hearly
  have hnot : r ∉ (sweepOf ms popped).toDisconnect := by
    intro hmem
    obtain ⟨cs', hl', -, hle⟩ := lapsed_eq_true_iff.1 (List.mem_filter.1 hmem).2
    obtain rfl := Option.some.inj (hl.symm.trans hl')
    omega
  rw [htiming, timing_of_not_mem hexpires hnot]
  exact ht

/-- Nobody is served after a turn whose time is up. -/
theorem not_attended (h : Idles p ms ms') (hr' : Reachable p ms') (hl : ms.lock r = some cs)
    (hk : cs.keepAlive ≠ 0) (hlate : expiryOf cs ≤ ms.now) : ¬ Attended ms' r := by
  rintro ⟨cs', hl', hcon, halive⟩
  obtain ⟨cs₀, hl₀, hexpiry, hkeepAlive⟩ := h.timing_of_some hl'
  obtain rfl := Option.some.inj (hl.symm.trans hl₀)
  obtain ⟨e, he, -, hle⟩ := hr'.timed.covered r cs' hl' hcon (hkeepAlive ▸ hk) halive
  obtain ⟨popped, heap, ms₁, hexpires, hheap, -⟩ := h.sweeps
  have hahead := hexpires.not_due e (hheap ▸ he)
  omega

end Idles

/-! ### The turns come to an end -/

theorem Reachable.waits_iff (hr : Reachable p ms) :
    0 ≤ ms.getNextTimeoutMs ↔ ∃ e, ms.expiryHeap.top = some e := by
  have heq := hr.getNextTimeoutMs_eq
  cases htop : ms.expiryHeap.top with
  | none =>
    rw [htop] at heq
    have hnone : ms.getNextTimeoutMs = -1 := heq
    refine iff_of_false ?_ (by simp)
    rw [hnone]
    decide
  | some e =>
    rw [htop] at heq
    simp only at heq
    exact iff_of_true (heq ▸ le_max_left _ _) ⟨e, rfl⟩

theorem idle_ends (hr : Reachable p ms) (hno : ¬ Orphaned ms) (h : remaining ms ≤ ds.length) :
    ∃ ms', idle p serverFd ds ms = .ok ms' ∧ Reachable p ms' ∧ ms'.expiryHeap.entries = [] := by
  induction ds generalizing ms with
  | nil =>
    refine ⟨ms, rfl, hr, List.eq_nil_of_length_eq_zero ?_⟩
    unfold remaining at h
    exact Nat.le_zero.1 ((Nat.le_add_right _ _).trans h)
  | cons d ds ih =>
    cases htop : ms.expiryHeap.top with
    | none =>
      have hblocked : ms.getNextTimeoutMs < 0 := by
        refine not_le.1 (mt hr.waits_iff.1 ?_)
        simp [htop]
      exact ⟨ms, idle_blocked hblocked _, hr, MinHeap.top_eq_none.1 htop⟩
    | some e =>
      obtain ⟨ms₁, hturn, hr₁, hno₁, hidles⟩ := @idle_turn p serverFd ms hr hno d
      have hrw : Reachable p (d.woken ms) := hr.woken
      have hlt := hidles.remaining_lt hrw.timed (MinHeap.top_mem htop) (hr.due_woken htop)
      have hsame : remaining (d.woken ms) = remaining ms := rfl
      rw [List.length_cons] at h
      obtain ⟨ms', hok, hr', hnil⟩ := ih hr₁ hno₁ (by omega)
      exact ⟨ms', (idle_cons (hr.waits_iff.2 ⟨e, htop⟩) hturn).trans hok, hr', hnil⟩

theorem remaining_le (ms : ManageSessions) : remaining ms ≤ 2 * ms.expiryHeap.entries.length := by
  have hle : ms.expiryHeap.entries.countP ms.stale ≤ ms.expiryHeap.entries.length :=
    List.countP_le_length
  unfold remaining
  omega

theorem not_attended_of_nil (hr : Reachable p ms) (hnil : ms.expiryHeap.entries = [])
    (hl : ms.lock r = some cs) (hk : cs.keepAlive ≠ 0) : ¬ Attended ms r := by
  rintro ⟨cs', hl', hcon, halive⟩
  obtain rfl := Option.some.inj (hl.symm.trans hl')
  obtain ⟨e, he, -⟩ := hr.timed.covered r cs hl hcon hk halive
  rw [hnil] at he
  cases he

/-- **Left alone, the loop blocks** after at most two turns for each entry of the expiry heap, and
then serves no client that has a keep-alive time. -/
theorem idle_blocks (hr : Reachable p ms) (hno : ¬ Orphaned ms)
    (h : 2 * ms.expiryHeap.entries.length ≤ ds.length) :
    ∃ ms', idle p serverFd ds ms = .ok ms' ∧ ms'.getNextTimeoutMs = -1 ∧
      ∀ r cs, ms'.lock r = some cs → cs.keepAlive ≠ 0 → ¬ Attended ms' r := by
  obtain ⟨ms', hok, hr', hnil⟩ := @idle_ends p serverFd ms ds hr hno ((remaining_le ms).trans h)
  refine ⟨ms', hok, ?_, fun r cs hl hk => not_attended_of_nil hr' hnil hl hk⟩
  have heq := hr'.getNextTimeoutMs_eq
  rw [MinHeap.top_eq_none.2 hnil] at heq
  exact heq

theorem attended_alive : ∀ e ∈ attendedBroker.expiryHeap.entries,
    (attendedBroker.lock e.session).isSome := by
  decide +kernel

theorem not_orphaned_attended : ¬ Orphaned attendedBroker := by
  rintro ⟨e, he, hdead⟩
  have halive := attended_alive e he
  rw [hdead] at halive
  cases halive

/-- One client, with one entry, and a `poll` that wakes late. -/
theorem idle_blocks_attended : ∃ ms',
    idle .sorting 1 [{ late := 3, afterSweep := 1 }, { afterRetransmit := 2 }] attendedBroker =
      .ok ms' ∧ ms'.getNextTimeoutMs = -1 ∧
        ∀ r cs, ms'.lock r = some cs → cs.keepAlive ≠ 0 → ¬ Attended ms' r := by
  have hone : 2 * attendedBroker.expiryHeap.entries.length = 2 := by decide +kernel
  exact idle_blocks (after_reachable _ _) not_orphaned_attended hone.le

/-! ### On time -/

/-- The states that the turns come to. -/
theorem idle_reachable (hr : Reachable p ms) (hno : ¬ Orphaned ms)
    (h : idle p serverFd ds ms = .ok ms') :
    Reachable p ms' ∧ ¬ Orphaned ms' ∧ ms.now ≤ ms'.now := by
  induction ds generalizing ms with
  | nil =>
    obtain rfl := Except.ok.inj h
    exact ⟨hr, hno, le_refl _⟩
  | cons d ds ih =>
    by_cases hwaits : 0 ≤ ms.getNextTimeoutMs
    · obtain ⟨ms₁, hturn, hr₁, hno₁, hidles⟩ := @idle_turn p serverFd ms hr hno d
      rw [idle_cons hwaits hturn] at h
      obtain ⟨hr', hno', hle⟩ := ih hr₁ hno₁ h
      exact ⟨hr', hno', (d.le_sweptAt ms).trans (hidles.now_le.trans hle)⟩
    · rw [idle_blocked (not_le.1 hwaits)] at h
      obtain rfl := Except.ok.inj h
      exact ⟨hr, hno, le_refl _⟩

/-- As long as its time is not up, a session keeps its times. -/
theorem idle_timing (hr : Reachable p ms) (hno : ¬ Orphaned ms)
    (h : idle p serverFd ds ms = .ok ms') (ht : ms.timing r = some t)
    (hearly : ms'.now < t.expiry) : ms'.timing r = some t := by
  induction ds generalizing ms with
  | nil =>
    obtain rfl := Except.ok.inj h
    exact ht
  | cons d ds ih =>
    by_cases hwaits : 0 ≤ ms.getNextTimeoutMs
    · obtain ⟨ms₁, hturn, hr₁, hno₁, hidles⟩ := @idle_turn p serverFd ms hr hno d
      rw [idle_cons hwaits hturn] at h
      have hle := (idle_reachable hr₁ hno₁ h).2.2
      have hsweep : (d.woken ms).now < t.expiry := (hidles.now_le.trans hle).trans_lt hearly
      exact ih hr₁ hno₁ h (hidles.timing_eq (ht : (d.woken ms).timing r = some t) hsweep)
    · rw [idle_blocked (not_le.1 hwaits)] at h
      obtain rfl := Except.ok.inj h
      exact ht

/-- A session that is left after the turns has been there, with the same times. -/
theorem idle_of_lock (hr : Reachable p ms) (hno : ¬ Orphaned ms)
    (h : idle p serverFd ds ms = .ok ms') (hl' : ms'.lock r = some cs') :
    ∃ cs, ms.lock r = some cs ∧ expiryOf cs' = expiryOf cs ∧ cs'.keepAlive = cs.keepAlive := by
  induction ds generalizing ms with
  | nil =>
    obtain rfl := Except.ok.inj h
    exact ⟨cs', hl', rfl, rfl⟩
  | cons d ds ih =>
    by_cases hwaits : 0 ≤ ms.getNextTimeoutMs
    · obtain ⟨ms₁, hturn, hr₁, hno₁, hidles⟩ := @idle_turn p serverFd ms hr hno d
      rw [idle_cons hwaits hturn] at h
      obtain ⟨cs₁, hl₁, hexpiry₁, hk₁⟩ := ih hr₁ hno₁ h
      obtain ⟨cs, hl, hexpiry, hk⟩ := hidles.timing_of_some hl₁
      exact ⟨cs, hl, hexpiry₁.trans hexpiry, hk₁.trans hk⟩
    · rw [idle_blocked (not_le.1 hwaits)] at h
      obtain rfl := Except.ok.inj h
      exact ⟨cs', hl', rfl, rfl⟩

/-- Where a client is served, the loop wakes for it. -/
theorem Attended.sweptAt_le (h : Attended ms r) (hr : Reachable p ms) {expiry : ℤ}
    (hkeep : ∀ cs, ms.lock r = some cs → expiryOf cs = expiry ∧ cs.keepAlive ≠ 0) :
    d.sweptAt ms ≤ max ms.now expiry + d.late := by
  obtain ⟨cs, hl, hcon, halive⟩ := h
  obtain ⟨hexpiry, hk⟩ := hkeep cs hl
  obtain ⟨e, he, -, hle⟩ := hr.timed.covered r cs hl hcon hk halive
  obtain ⟨top, htop⟩ := Option.ne_none_iff_exists'.1
    (mt MinHeap.top_eq_none.1 (List.ne_nil_of_mem he))
  have hfirst : top.expiryMs ≤ e.expiryMs := MinHeap.top_le htop he
  have heq := hr.getNextTimeoutMs_eq
  rw [htop] at heq
  simp only at heq
  unfold Delays.sweptAt
  omega

/-- **Keep-alive is exact where nothing happens**, up to what `poll` and the loop take: the turns
come to one after which the client is served no more.  As long as the sweeps come before it expires,
it is connected; after the first that does not, it is not served; and while it is served the loop
wakes for its expiry, or at once if it has expired. -/
theorem idle_on_time (hr : Reachable p ms) (hno : ¬ Orphaned ms) (hl : ms.lock r = some cs)
    (hcon : cs.connected = true) (hk : cs.keepAlive ≠ 0) :
    (∀ ds : List Delays, 2 * ms.expiryHeap.entries.length ≤ ds.length →
      ∃ ms', idle p serverFd ds ms = .ok ms' ∧ ¬ Attended ms' r) ∧
    ∀ ds d ms₁ ms', idle p serverFd ds ms = .ok ms₁ → 0 ≤ ms₁.getNextTimeoutMs →
      turn p serverFd ms₁ (Delays.turn d ms₁) = .ok ms' →
        (d.sweptAt ms₁ < expiryOf cs → ∃ cs', ms'.lock r = some cs' ∧ cs'.connected = true) ∧
        (expiryOf cs ≤ d.sweptAt ms₁ → ¬ Attended ms' r) ∧
        (Attended ms₁ r → d.sweptAt ms₁ ≤ max ms₁.now (expiryOf cs) + d.late) := by
  refine ⟨fun ds hlong => ?_, fun ds d ms₁ ms' hidle _ hturn => ?_⟩
  · obtain ⟨ms', hok, hr', hnil⟩ :=
      @idle_ends p serverFd ms ds hr hno ((remaining_le ms).trans hlong)
    refine ⟨ms', hok, fun hattended => ?_⟩
    obtain ⟨cs', hl', hserved⟩ := hattended
    obtain ⟨cs₀, hl₀, -, hkeepAlive⟩ := idle_of_lock hr hno hok hl'
    obtain rfl := Option.some.inj (hl.symm.trans hl₀)
    exact not_attended_of_nil hr' hnil hl' (hkeepAlive ▸ hk) ⟨cs', hl', hserved⟩
  · obtain ⟨hr₁, hno₁, -⟩ := idle_reachable hr hno hidle
    have hkeep : ∀ cs₁, ms₁.lock r = some cs₁ → expiryOf cs₁ = expiryOf cs ∧ cs₁.keepAlive ≠ 0 := by
      intro cs₁ hl₁
      obtain ⟨cs₀, hl₀, hexpiry, hkeepAlive⟩ := idle_of_lock hr hno hidle hl₁
      obtain rfl := Option.some.inj (hl.symm.trans hl₀)
      exact ⟨hexpiry, hkeepAlive ▸ hk⟩
    obtain ⟨ms₂, hturn₂, hr₂, -, hidles⟩ := @idle_turn p serverFd ms₁ hr₁ hno₁ d
    obtain rfl := Except.ok.inj (hturn₂.symm.trans hturn)
    refine ⟨fun hearly => ?_, fun hlate hattended => ?_, fun hattended => ?_⟩
    · have hbefore : ms₁.now < cs.timing.expiry := (d.le_sweptAt ms₁).trans_lt hearly
      have htiming₁ := idle_timing hr hno hidle (timing_of_lock hl) hbefore
      have htiming := hidles.timing_eq (htiming₁ : (d.woken ms₁).timing r = _) hearly
      obtain ⟨cs', hl', hcs'⟩ := Option.map_eq_some_iff.1 htiming
      exact ⟨cs', hl', (congrArg Timing.connected hcs').trans hcon⟩
    · obtain ⟨cs', hl', hserved⟩ := hattended
      obtain ⟨cs₁, hl₁, -⟩ := hidles.timing_of_some hl'
      obtain ⟨hexpiry, hk₁⟩ := hkeep cs₁ hl₁
      exact hidles.not_attended hr₂ hl₁ hk₁ (hexpiry ▸ hlate) ⟨cs', hl', hserved⟩
    · exact hattended.sweptAt_le hr₁ hkeep

/-- The client of `attendedBroker` is served for a second and a half, and `poll` wakes for it seven
milliseconds late. -/
theorem idle_on_time_attended : ∃ ms',
    turn .sorting 1 attendedBroker (Delays.turn { late := 7 } attendedBroker) = .ok ms' ∧
      Delays.sweptAt { late := 7 } attendedBroker = 1507 ∧ ¬ Attended ms' ⟨[65], 1⟩ := by
  have hclient : (attendedBroker.lock ⟨[65], 1⟩).any fun cs => cs.connected = true ∧
      cs.keepAlive ≠ 0 ∧ expiryOf cs = 1500 := by decide +kernel
  have htime : Delays.sweptAt { late := 7 } attendedBroker = 1507 ∧
      0 ≤ attendedBroker.getNextTimeoutMs := by decide +kernel
  obtain ⟨cs, hl, hcon, hk, hexpiry⟩ := exists_of_any hclient
  obtain ⟨ms', hturn, -⟩ := @idle_turn .sorting 1 attendedBroker (after_reachable _ _)
    not_orphaned_attended { late := 7 }
  have hontime := (@idle_on_time .sorting 1 attendedBroker ⟨[65], 1⟩ cs (after_reachable _ _)
    not_orphaned_attended hl hcon hk).2 [] _ _ ms' rfl htime.2 hturn
  refine ⟨ms', hturn, htime.1, hontime.2.1 ?_⟩
  rw [hexpiry, htime.1]
  decide

end Culex
