import Culex.Broker

/-!
# Whether the expiry sweep ends

The first loop of `processExpiredSessions` looks at the top of the expiry heap, and pops it where
the session can still be locked.  A due entry of a session that is gone stays on top, and the loop
looks at it forever.

* `collectExpired_endless`: with such an entry in the heap, no number of rounds is enough;
* `collectExpired_ends`: without one, a round for each entry is;
* `sweepEnds_iff`: so the loop ends exactly if each due entry has a live session.
-/

namespace Culex

open ManageSessions

/-- The loop comes to its end, and leaves no entry that is due. -/
def SweepEnds (p : Platform) (ms : ManageSessions) : Prop :=
  ∃ rounds sweep ms', collectExpired p rounds {} ms = .ok (sweep, ms') ∧
    ∀ e ∈ ms'.expiryHeap.entries, ms.now < e.expiryMs

/-- The session of every due entry is alive. -/
def DueAlive (ms : ManageSessions) : Prop :=
  ∀ e ∈ ms.expiryHeap.entries, e.expiryMs ≤ ms.now → (ms.lock e.session).isSome

instance (ms : ManageSessions) : Decidable (DueAlive ms) :=
  inferInstanceAs (Decidable (∀ e ∈ ms.expiryHeap.entries, e.expiryMs ≤ ms.now →
    (ms.lock e.session).isSome))

variable {p : Platform} {ms ms' : ManageSessions} {e : ExpiryEntry} {cs : ClientSession}

/-! ### One round -/

/-- What a round notes about a session that it pops. -/
def noted (ms : ManageSessions) (e : ExpiryEntry) (cs : ClientSession) (sweep : Sweep) : Sweep :=
  if ms.now < expiryOf cs then { sweep with newEntries := sweep.newEntries ++ [e.session] }
  else if cs.connected then { sweep with toDisconnect := sweep.toDisconnect ++ [e.session] }
  else sweep

/-- The state after a round that pops the top. -/
def popExpiry (p : Platform) (ms : ManageSessions) : ManageSessions :=
  { ms with expiryHeap := ms.expiryHeap.pop p.expiryOrder }

/-- The session's time is not up. -/
def ManageSessions.fresh (ms : ManageSessions) (r : SessionRef) : Bool :=
  (ms.lock r).any fun cs => ms.now < expiryOf cs

/-- The session is connected, and its time is up. -/
def ManageSessions.lapsed (ms : ManageSessions) (r : SessionRef) : Bool :=
  (ms.lock r).any fun cs => cs.connected && expiryOf cs ≤ ms.now

theorem fresh_eq_true_iff {r : SessionRef} :
    ms.fresh r = true ↔ ∃ cs, ms.lock r = some cs ∧ ms.now < expiryOf cs := by
  unfold fresh
  rw [Option.any_eq_true]
  exact exists_congr fun cs => and_congr_right fun _ => decide_eq_true_iff

theorem lapsed_eq_true_iff {r : SessionRef} :
    ms.lapsed r = true ↔
      ∃ cs, ms.lock r = some cs ∧ cs.connected = true ∧ expiryOf cs ≤ ms.now := by
  unfold lapsed
  rw [Option.any_eq_true]
  refine exists_congr fun cs => and_congr_right fun _ => ?_
  rw [Bool.and_eq_true, decide_eq_true_iff]

theorem fresh_popExpiry : (popExpiry p ms).fresh = ms.fresh := rfl

theorem lapsed_popExpiry : (popExpiry p ms).lapsed = ms.lapsed := rfl

theorem noted_toDisconnect (hl : ms.lock e.session = some cs) (sweep : Sweep) :
    (noted ms e cs sweep).toDisconnect =
      sweep.toDisconnect ++ if ms.lapsed e.session then [e.session] else [] := by
  have hlapsed : ms.lapsed e.session = (cs.connected && expiryOf cs ≤ ms.now) := by
    rw [lapsed, hl, Option.any_some]
  rw [hlapsed]
  unfold noted
  by_cases hfresh : ms.now < expiryOf cs
  · simp [hfresh, not_le.2 hfresh]
  · cases cs.connected <;> simp [hfresh, not_lt.1 hfresh]

theorem noted_newEntries (hl : ms.lock e.session = some cs) (sweep : Sweep) :
    (noted ms e cs sweep).newEntries =
      sweep.newEntries ++ if ms.fresh e.session then [e.session] else [] := by
  have hfresh : ms.fresh e.session = decide (ms.now < expiryOf cs) := by
    rw [fresh, hl, Option.any_some]
  rw [hfresh]
  unfold noted
  by_cases hnow : ms.now < expiryOf cs
  · simp [hnow]
  · cases cs.connected <;> simp [hnow]

theorem collectExpired_stopped (rounds : ℕ) (sweep : Sweep)
    (h : ∀ e, ms.expiryHeap.top = some e → ms.now < e.expiryMs) :
    collectExpired p (rounds + 1) sweep ms = .ok (sweep, ms) := by
  rw [collectExpired]
  cases htop : ms.expiryHeap.top with
  | none => rfl
  | some e => simp only [if_pos (h e htop)]

theorem collectExpired_alive (rounds : ℕ) (sweep : Sweep) (htop : ms.expiryHeap.top = some e)
    (hdue : e.expiryMs ≤ ms.now) (hl : ms.lock e.session = some cs) :
    collectExpired p (rounds + 1) sweep ms =
      collectExpired p rounds (noted ms e cs sweep) (popExpiry p ms) := by
  rw [collectExpired]
  simp only [htop, if_neg (not_lt.2 hdue), hl]
  rfl

theorem collectExpired_dead (rounds : ℕ) (sweep : Sweep) (htop : ms.expiryHeap.top = some e)
    (hdue : e.expiryMs ≤ ms.now) (hl : ms.lock e.session = none) :
    collectExpired p (rounds + 1) sweep ms = collectExpired p rounds sweep ms := by
  rw [collectExpired]
  simp only [htop, if_neg (not_lt.2 hdue), hl]

/-- A heap whose top is not due has no due entry. -/
theorem not_due_of_top (htop : ∀ t, ms.expiryHeap.top = some t → ms.now < t.expiryMs) :
    ∀ e ∈ ms.expiryHeap.entries, ms.now < e.expiryMs := by
  intro e he
  cases h : ms.expiryHeap.top with
  | none =>
    rw [MinHeap.top_eq_none.1 h] at he
    cases he
  | some t => exact (htop t h).trans_le (MinHeap.top_le h he)

/-! ### The loop -/

/-- Where a due entry has lost its session, the loop does not end in any number of rounds. -/
theorem collectExpired_endless (he : e ∈ ms.expiryHeap.entries) (hdue : e.expiryMs ≤ ms.now)
    (hdead : ms.lock e.session = none) (rounds : ℕ) (sweep : Sweep) :
    collectExpired p rounds sweep ms = .error .endless := by
  induction rounds generalizing ms sweep with
  | zero => rfl
  | succ rounds ih =>
    cases htop : ms.expiryHeap.top with
    | none =>
      rw [MinHeap.top_eq_none.1 htop] at he
      cases he
    | some t =>
      have htdue : t.expiryMs ≤ ms.now := (MinHeap.top_le htop he).trans hdue
      cases hl : ms.lock t.session with
      | none =>
        rw [collectExpired_dead rounds sweep htop htdue hl]
        exact ih he hdue hdead sweep
      | some cs =>
        -- the top is alive, so it is another entry, and the dead one is still there afterwards
        have hmem : e ∈ (popExpiry p ms).expiryHeap.entries := by
          have hperm := (MinHeap.perm_pop p.expiryOrder htop).mem_iff.1 he
          rcases List.mem_cons.1 hperm with rfl | hmem
          · rw [hdead] at hl
            cases hl
          · exact hmem
        rw [collectExpired_alive rounds sweep htop htdue hl]
        exact ih hmem hdue hdead _

/-- Otherwise it ends, and nothing due is left; only the heap has changed. -/
theorem collectExpired_ends (h : DueAlive ms) {rounds : ℕ}
    (hrounds : ms.expiryHeap.entries.length < rounds) (sweep : Sweep) :
    ∃ sweep' ms', collectExpired p rounds sweep ms = .ok (sweep', ms') ∧
      ∀ e ∈ ms'.expiryHeap.entries, ms.now < e.expiryMs := by
  induction rounds generalizing ms sweep with
  | zero => omega
  | succ rounds ih =>
    by_cases hstop : ∀ e, ms.expiryHeap.top = some e → ms.now < e.expiryMs
    · exact ⟨sweep, ms, collectExpired_stopped rounds sweep hstop, not_due_of_top hstop⟩
    · push Not at hstop
      obtain ⟨t, htop, hdue⟩ := hstop
      obtain ⟨cs, hl⟩ := Option.isSome_iff_exists.1 (h t (MinHeap.top_mem htop) hdue)
      have halive : DueAlive (popExpiry p ms) := fun e he hdue' =>
        h e (MinHeap.mem_of_mem_pop p.expiryOrder he) hdue'
      have hlen : (popExpiry p ms).expiryHeap.entries.length + 1 = ms.expiryHeap.entries.length :=
        MinHeap.length_pop p.expiryOrder htop
      obtain ⟨sweep', ms', hok, hdone⟩ := ih halive (by omega) (noted ms t cs sweep)
      exact ⟨sweep', ms', (collectExpired_alive rounds sweep htop hdue hl).trans hok, hdone⟩

/-- What the loop pops out of the heap: entries that are due, of sessions that are alive, until
none is due. -/
structure Collects (ms : ManageSessions) (popped : List ExpiryEntry)
    (heap : MinHeap ExpiryEntry.expiryMs) : Prop where
  perm : ms.expiryHeap.entries.Perm (popped ++ heap.entries)
  due : ∀ e ∈ popped, e.expiryMs ≤ ms.now ∧ (ms.lock e.session).isSome
  rest : ∀ e ∈ heap.entries, ms.now < e.expiryMs

/-- What the rounds that pop some entries note. -/
theorem collectExpired_collects {rounds : ℕ} {sweep sweep' : Sweep}
    (h : collectExpired p rounds sweep ms = .ok (sweep', ms')) :
    ∃ popped heap, Collects ms popped heap ∧ ms' = { ms with expiryHeap := heap } ∧
      sweep'.toDisconnect =
        sweep.toDisconnect ++ (popped.map ExpiryEntry.session).filter ms.lapsed ∧
      sweep'.newEntries =
        sweep.newEntries ++ (popped.map ExpiryEntry.session).filter ms.fresh := by
  induction rounds generalizing ms sweep with
  | zero => cases h
  | succ rounds ih =>
    by_cases hstop : ∀ e, ms.expiryHeap.top = some e → ms.now < e.expiryMs
    · rw [collectExpired_stopped rounds sweep hstop] at h
      obtain ⟨rfl, rfl⟩ := Prod.mk.inj (Except.ok.inj h)
      exact ⟨[], ms.expiryHeap, ⟨.refl _, by simp, not_due_of_top hstop⟩, rfl, by simp, by simp⟩
    · push Not at hstop
      obtain ⟨e, htop, hdue⟩ := hstop
      cases hl : ms.lock e.session with
      | none =>
        rw [collectExpired_dead rounds sweep htop hdue hl] at h
        exact ih h
      | some cs =>
        rw [collectExpired_alive rounds sweep htop hdue hl] at h
        obtain ⟨popped, heap, hcollects, rfl, hdisconnect, hnew⟩ := ih h
        refine ⟨e :: popped, heap, ⟨?_, ?_, hcollects.rest⟩, rfl, ?_, ?_⟩
        · exact (MinHeap.perm_pop p.expiryOrder htop).trans (hcollects.perm.cons e)
        · exact List.forall_mem_cons.2 ⟨⟨hdue, by rw [hl]; rfl⟩, hcollects.due⟩
        · rw [hdisconnect, noted_toDisconnect hl, List.map_cons, List.filter_cons]
          split_ifs <;> simp [lapsed_popExpiry]
        · rw [hnew, noted_newEntries hl, List.map_cons, List.filter_cons]
          split_ifs <;> simp [fresh_popExpiry]

/-- **The expiry sweep ends exactly if the session of each due entry is alive**, and then
`processExpiredSessions` returns. -/
theorem sweepEnds_iff : (SweepEnds p ms ↔ DueAlive ms) ∧
    ((∃ ms', ms.processExpiredSessions p = .ok ms') ↔ DueAlive ms) := by
  have hendless : ¬ DueAlive ms → ∀ rounds sweep, collectExpired p rounds sweep ms =
      .error .endless := by
    intro h
    unfold DueAlive at h
    push Not at h
    obtain ⟨e, he, hdue, hdead⟩ := h
    exact collectExpired_endless he hdue (Option.not_isSome_iff_eq_none.1 (by simpa using hdead))
  constructor
  · constructor
    · rintro ⟨rounds, sweep, ms', hok, -⟩
      by_contra hdead
      rw [hendless hdead rounds {}] at hok
      cases hok
    · intro h
      obtain ⟨sweep, ms', hok, hdone⟩ := @collectExpired_ends p ms h _ (Nat.lt_succ_self _) {}
      exact ⟨_, sweep, ms', hok, hdone⟩
  · constructor
    · rintro ⟨ms', hok⟩
      by_contra hdead
      unfold processExpiredSessions at hok
      rw [hendless hdead] at hok
      cases hok
    · intro h
      obtain ⟨sweep, ms', hok, -⟩ := @collectExpired_ends p ms h _ (Nat.lt_succ_self _) {}
      unfold processExpiredSessions
      rw [hok]
      exact ⟨_, rfl⟩

/-- A client that connects twice with a clean session, within its keep-alive time. -/
def connectedTwice : ManageSessions :=
  after .sorting (.newConnection 3 :: arrive 0 (connectFrameWith 4 1 65 2) ++
    .newConnection 4 :: arrive 2 (connectFrameWith 4 1 65 2) ++ [.tick 1500])

/-- When the first entry is due, its session is gone. -/
theorem not_sweepEnds_connectedTwice :
    Reachable .sorting connectedTwice ∧ ¬ SweepEnds .sorting connectedTwice := by
  have hdead : ∃ e ∈ connectedTwice.expiryHeap.entries, e.expiryMs ≤ connectedTwice.now ∧
      (connectedTwice.lock e.session).isNone := by decide +kernel
  obtain ⟨e, he, hdue, hdead⟩ := hdead
  refine ⟨after_reachable _ _, ?_⟩
  rintro ⟨rounds, sweep, ms', hok, -⟩
  rw [collectExpired_endless he hdue (Option.isNone_iff_eq_none.1 hdead)] at hok
  cases hok

end Culex
