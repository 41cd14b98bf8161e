import Culex.Downfall

/-!
# Entries that outlive their sessions

Nothing takes an entry out of the expiry heap when its session goes.  The sweep takes out the entries
of live sessions only, so that an orphan stays, and the first sweep after its time does not end.

* `Orphans`: the events that make orphans, a clean CONNECT over a session that is scheduled, and a
  malformed packet from a clean session that is;
* `orphaned_step`, `orphaned_iff`: there is an orphan exactly if there was such an event;
* `sweepable_iff`: so the sweep returns at any later time exactly if there was none;
* `endless_of_run`: an orphan stays one, and ends each run that sweeps after its time.
-/

namespace Culex

open ManageSessions

/-- An entry of the expiry heap whose session is gone. -/
def Orphaned (ms : ManageSessions) : Prop :=
  ∃ e ∈ ms.expiryHeap.entries, ms.lock e.session = none

/-- An event of a kind removes a session. -/
def Kind.Removes (ms : ManageSessions) (r : SessionRef) (cs : ClientSession) : Kind → Prop
  | .connect _ cn => cn.clientId = r.clientId ∧ cn.cf.cleansession = true
  | .malformed id => ms.getClientId id = r.clientId ∧ cs.cleansession = true
  | .calm _ => False
  | .newConnection _ => False
  | .closeConnection _ => False
  | .expire => False

/-- The event removes a session that has an entry in the expiry heap. -/
def Orphans (p : Platform) (ms : ManageSessions) (e : Event) : Prop :=
  ∃ entry ∈ ms.expiryHeap.entries, ∃ cs, ms.lock entry.session = some cs ∧
    (e.kind p ms).Removes ms entry.session cs

variable {p : Platform} {ms ms' ms₁ : ManageSessions} {e : Event} {r : SessionRef}
  {cs : ClientSession} {cn : Connect} {id t : ℕ} {packet : Packet} {handled : Handled}
  {entry : ExpiryEntry} {events : List Event}

/-! ### One event -/

theorem orphaned_congr (hheap : ms'.expiryHeap = ms.expiryHeap)
    (hlock : ∀ r, ms'.lock r = none ↔ ms.lock r = none) : Orphaned ms' ↔ Orphaned ms := by
  unfold Orphaned
  rw [hheap]
  exact exists_congr fun e => and_congr_right fun _ => hlock e.session

/-- An event that removes nobody makes no orphans. -/
theorem orphaned_of_not_removes (hkind : ∀ r cs, ¬ (e.kind p ms).Removes ms r cs)
    (h : Orphaned ms' ↔ Orphaned ms) : Orphaned ms' ↔ Orphaned ms ∨ Orphans p ms e := by
  rw [h, or_iff_left]
  rintro ⟨entry, -, cs, -, hremoves⟩
  exact hkind _ _ hremoves

theorem Calm.lock_eq_none_iff {sub : Option SessionRef} {log : List Call}
    (h : Calm sub log ms ms') (r : SessionRef) : ms'.lock r = none ↔ ms.lock r = none := by
  refine ⟨fun hnone => ?_, h.dead r⟩
  by_contra hsome
  obtain ⟨cs, hl⟩ := Option.ne_none_iff_exists'.1 hsome
  obtain ⟨cs', hl', -⟩ := h.alive r cs hl
  cases hnone.symm.trans hl'

/-- The sweep takes out no entry of a session that it leaves dead, and removes no session that it
leaves an entry of. -/
theorem Expires.orphaned_iff {popped : List ExpiryEntry} {heap : MinHeap ExpiryEntry.expiryMs}
    (ht : Timed ms) (h : Expires p ms popped heap ms') : Orphaned ms' ↔ Orphaned ms := by
  have hrest : ∀ e ∈ heap.entries, e.session ∉ (sweepOf ms popped).toDisconnect := by
    intro e he hmem
    obtain ⟨e', he', hsame⟩ := List.mem_map.1 (List.mem_filter.1 hmem).1
    exact (ht.nodup_popped h.collects).2 e' he' e he (congrArg SessionRef.obj hsame)
  have hnone : ∀ r, r ∉ (sweepOf ms popped).toDisconnect →
      (ms'.lock r = none ↔ ms.lock r = none) := by
    intro r hr
    rw [h.lock_not_toDisconnect hr]
    split_ifs <;> simp
  constructor
  · rintro ⟨e, he, hdead⟩
    rw [h.entries.mem_iff, List.mem_append] at he
    rcases he with he | he
    · -- what is scheduled again is alive
      obtain ⟨r, hr, hd⟩ := List.mem_filterMap.1 he
      obtain ⟨cs, hl, -, rfl⟩ := deadline_eq_some_iff.1 hd
      have hout : r ∉ (sweepOf ms popped).toDisconnect := fun hmem => Expires.disjoint hmem hr
      cases hl.symm.trans ((hnone r hout).1 hdead)
    · exact ⟨e, h.collects.perm.mem_iff.2 (List.mem_append_right _ he),
        (hnone _ (hrest e he)).1 hdead⟩
  · rintro ⟨e, he, hdead⟩
    rw [h.collects.perm.mem_iff, List.mem_append] at he
    have hheap : e ∈ heap.entries := by
      refine he.resolve_left fun hpopped => ?_
      have halive := (h.collects.due e hpopped).2
      rw [hdead] at halive
      cases halive
    refine ⟨e, h.entries.mem_iff.2 (List.mem_append_right _ hheap), ?_⟩
    exact (hnone _ (hrest e hheap)).2 hdead

/-! ### CONNECT -/

/-- The entries after a CONNECT: those from before, and perhaps one of the session that it has
registered. -/
theorem connectHandler_entries (hp : packet.pkt = .connect cn)
    (hh : connectHandler p packet t ms = .ok handled) :
    ∃ new : List ExpiryEntry, handled.state.expiryHeap.entries.Perm
        (new ++ ms.expiryHeap.entries) ∧
      ∀ e ∈ new, (handled.state.lock e.session).isSome := by
  by_cases hrenews : Renews ms cn
  · have hheap : (vacated cn ms).expiryHeap = ms.expiryHeap := by rw [vacated_eq]
    have hnow : (vacated cn ms).now = ms.now := by rw [vacated_eq]
    by_cases hlevel : cn.level = 4
    · have hreg := (connectHandler_connects hp hh).1.client
      rw [registration, if_pos hrenews, if_pos hlevel] at hreg
      have halive := lock_of_lookup hreg
      rw [connectHandler_new hp hrenews hlevel] at hh
      obtain rfl := Except.ok.inj hh
      have hregisters := registers_scheduleExpiry p ⟨cn.clientId, ms.nextObj⟩ cn t (vacated cn ms)
      rw [hnow] at hregisters
      refine ⟨_, hheap ▸ hregisters.entries, fun e he => ?_⟩
      split_ifs at he
      · cases he
      · obtain rfl := List.mem_singleton.1 he
        rw [halive]
        rfl
    · rw [connectHandler_rejected hp hrenews hlevel] at hh
      obtain rfl := Except.ok.inj hh
      exact ⟨[], by rw [hheap, List.nil_append], by simp⟩
  · obtain ⟨⟨old, hl⟩, hclean⟩ := not_renews_iff.1 hrenews
    rw [connectHandler_resumed hp hl hclean] at hh
    have hheap : (takeOver ⟨cn.clientId, old.obj⟩ old.state ms).1.expiryHeap = ms.expiryHeap := by
      rw [takeOver_eq]
    cases hres : resendPending p old.state (takeOver ⟨cn.clientId, old.obj⟩ old.state ms).1 with
    | error fault =>
      rw [hres] at hh
      cases hh
    | ok ms₁ =>
      rw [hres] at hh
      obtain rfl := Except.ok.inj hh
      obtain ⟨log, rfl, -⟩ := resendPending_calls hres
      refine ⟨[], ?_, by simp⟩
      simp only [List.nil_append]
      rw [setSession_eq, hheap]

/-- What is registered for a client after a CONNECT of it, among the sessions there were before. -/
theorem Connects.lock_eq_none_iff (h : Connects cn id ms ms₁) (hr : r.obj < ms.nextObj) :
    ms₁.lock r = none ↔
      ms.lock r = none ∨ cn.clientId = r.clientId ∧ cn.cf.cleansession = true := by
  by_cases hc : r.clientId = cn.clientId
  · have hclient := hc ▸ h.client
    unfold registration at hclient
    by_cases hrenews : Renews ms cn
    · rw [if_pos hrenews, hc] at hclient
      have hgone : ms₁.lock r = none := by
        by_contra hsome
        obtain ⟨cs, hl⟩ := Option.ne_none_iff_exists'.1 hsome
        rw [lock_eq_some_iff, hc, hclient] at hl
        split_ifs at hl
        -- what has been registered is a new object
        have hobj : ms.nextObj = r.obj := congrArg Registered.obj (Option.some.inj hl)
        omega
      refine iff_of_true hgone ?_
      rcases hrenews with hnone | hclean
      · left
        unfold lock
        rw [hc, hnone]
      · exact .inr ⟨hc.symm, hclean⟩
    · obtain ⟨⟨old, hl⟩, hclean⟩ := not_renews_iff.1 hrenews
      rw [if_neg hrenews, hc] at hclient
      unfold lock
      rw [hc, hclient, hl, hclean]
      simp
  · rw [lock_of_connects h hc, or_iff_left]
    exact fun hboth => hc hboth.1.symm

theorem orphaned_connect (ht : Timed ms) (hp : packet.pkt = .connect cn)
    (hh : connectHandler p packet id ms = .ok handled) :
    Orphaned handled.state ↔ Orphaned ms ∨ ∃ entry ∈ ms.expiryHeap.entries, ∃ cs,
      ms.lock entry.session = some cs ∧ cn.clientId = entry.session.clientId ∧
        cn.cf.cleansession = true := by
  obtain ⟨hconnects, -⟩ := connectHandler_connects hp hh
  obtain ⟨new, hperm, hnew⟩ := connectHandler_entries hp hh
  constructor
  · rintro ⟨e, he, hdead⟩
    rw [hperm.mem_iff, List.mem_append] at he
    rcases he with he | he
    · have halive := hnew e he
      rw [hdead] at halive
      cases halive
    · cases hl : ms.lock e.session with
      | none => exact .inl ⟨e, he, hl⟩
      | some cs =>
        rcases (hconnects.lock_eq_none_iff (ht.allocated e he)).1 hdead with hnone | hremoves
        · cases hl.symm.trans hnone
        · exact .inr ⟨e, he, cs, hl, hremoves⟩
  · rintro (⟨e, he, hdead⟩ | ⟨e, he, cs, -, hremoves⟩)
    · exact ⟨e, hperm.mem_iff.2 (List.mem_append_right _ he),
        (hconnects.lock_eq_none_iff (ht.allocated e he)).2 (.inl hdead)⟩
    · exact ⟨e, hperm.mem_iff.2 (List.mem_append_right _ he),
        (hconnects.lock_eq_none_iff (ht.allocated e he)).2 (.inr hremoves)⟩

/-! ### Parsing -/

theorem orphaned_purge {old : Registered} {clientId : Bytes}
    (hl : ms.sessionRegistry.lookup clientId = some old) :
    Orphaned (purge clientId old ms) ↔ Orphaned ms ∨ ∃ entry ∈ ms.expiryHeap.entries, ∃ cs,
      ms.lock entry.session = some cs ∧ clientId = entry.session.clientId ∧
        cs.cleansession = true := by
  unfold purge
  split_ifs with hclean
  · have hnone : ∀ r, (ms.removeFromRegistry clientId).lock r = none ↔
        ms.lock r = none ∨ clientId = r.clientId := by
      intro r
      unfold lock ManageSessions.removeFromRegistry
      by_cases hc : clientId = r.clientId
      · have hgone : (ms.sessionRegistry.erase clientId).lookup r.clientId = none := by
          rw [← hc, AList.lookup_erase]
        simp only [hgone, true_iff]
        exact .inr hc
      · simp [AList.lookup_erase_ne (Ne.symm hc), hc]
    unfold Orphaned
    simp only [hnone]
    constructor
    · rintro ⟨e, he, hdead⟩
      cases hlock : ms.lock e.session with
      | none => exact .inl ⟨e, he, hlock⟩
      | some cs =>
        have hc := hdead.resolve_left (by rw [hlock]; simp)
        refine .inr ⟨e, he, cs, hlock, hc, ?_⟩
        have hreg := lock_eq_some_iff.1 hlock
        rw [← hc, hl] at hreg
        exact congrArg (fun x : Registered => x.state.cleansession) (Option.some.inj hreg) ▸ hclean
    · rintro (⟨e, he, hdead⟩ | ⟨e, he, cs, -, hc, -⟩)
      · exact ⟨e, he, .inl hdead⟩
      · exact ⟨e, he, .inr hc⟩
  · rw [or_iff_left]
    rintro ⟨e, he, cs, hlock, hc, hcs⟩
    have hreg := lock_eq_some_iff.1 hlock
    rw [← hc, hl] at hreg
    exact hclean (congrArg (fun x : Registered => x.state.cleansession) (Option.some.inj hreg) ▸ hcs)

/-- **There is an orphan after an event if there was one before, or the event has made one.** -/
theorem orphaned_step (hr : Reachable p ms) (h : e.apply p ms = .ok ms') :
    Orphaned ms' ↔ Orphaned ms ∨ Orphans p ms e := by
  cases e with
  | newConnection fd =>
    obtain rfl := Except.ok.inj h
    exact orphaned_of_not_removes (fun _ _ h => h) Iff.rfl
  | closeConnection fd =>
    obtain rfl := Except.ok.inj h
    exact orphaned_of_not_removes (fun _ _ h => h) Iff.rfl
  | tick elapsed =>
    obtain rfl := Except.ok.inj h
    exact orphaned_of_not_removes (fun _ _ h => h) Iff.rfl
  | receive id data =>
    refine orphaned_of_not_removes (fun _ _ h => h) ?_
    simp only [Event.apply] at h
    split at h
    · obtain rfl := Except.ok.inj h
      exact Iff.rfl
    · obtain rfl := Except.ok.inj h
      rw [setTransport_eq]
      exact Iff.rfl
  | processRetransmissions =>
    obtain ⟨log, hcalm⟩ : ∃ log, Calm none log ms ms' := retransmitLoop_calm hr.sound h
    refine orphaned_of_not_removes (fun _ _ h => h) ?_
    exact orphaned_congr (retransmitLoop_steady hr.sound h).expiryHeap hcalm.lock_eq_none_iff
  | processExpiredSessions =>
    obtain ⟨popped, heap, hexpires⟩ := processExpiredSessions_expires h
    exact orphaned_of_not_removes (fun _ _ h => h) (hexpires.orphaned_iff hr.timed)
  | parseData id beyond =>
    have hparses := parses_of_apply h
    have hkind : Event.kind p (.parseData id beyond) ms =
        (Event.arrival p (.parseData id beyond) ms).kind ms := rfl
    unfold Orphans
    rw [hkind]
    generalize Event.arrival p (.parseData id beyond) ms = arrival at hparses
    cases hparses with
    | nothing =>
      rw [or_iff_left (by rintro ⟨_, _, _, _, hno⟩; exact hno)]
      exact Iff.rfl
    | @malformed old hl =>
      have hclosed : ∀ ms : ManageSessions, Orphaned (endTask id (ms.forceDisconnect id)) ↔
          Orphaned ms := by
        intro ms
        refine orphaned_congr ?_ fun r => ?_
        · unfold endTask forceDisconnect
          cases ms.transports.lookup id <;> rfl
        · exact iff_of_eq (congrArg (· = none) (Tame.lock_forceDisconnect id r))
      rw [hclosed, orphaned_purge hl]
      rfl
    | @packet pkt handled ms₁ hd hf =>
      have hs₁ : Sound (takeOut pkt id ms) := (Tame.setTransport _ _).sound hr.sound
      have htake : Orphaned (takeOut pkt id ms) ↔ Orphaned ms := by
        unfold takeOut
        rw [setTransport_eq]
        exact Iff.rfl
      have hend : Orphaned (endTask id ms₁) ↔ Orphaned ms₁ := Iff.rfl
      rw [hend]
      rcases dispatch_cases hs₁ hd hf with ⟨cn, hty, hp, hhandle, rfl⟩ |
        ⟨⟨sub, log, hcalm⟩, hsteady, -, hlooks⟩
      · have hconnect := orphaned_connect (hr.timed.onward (takeOut_onward pkt id ms)) hp hhandle
        have hfinish : Orphaned (finishConnect cn id handled.buff handled.state) ↔
            Orphaned handled.state := by
          rw [finishConnect_eq]
          exact Iff.rfl
        rw [hfinish, hconnect, htake, Arrival.kind, Packet.kind_connect hty hp]
        unfold takeOut
        rw [setTransport_eq]
        rfl
      · have hcalmKind : (Arrival.packet id pkt).kind ms = .calm (subscriberOf pkt id ms) :=
          Packet.kind_calm fun cn hty hp => (hlooks hty).1 cn hp
        rw [hcalmKind, or_iff_left (by rintro ⟨_, _, _, _, hno⟩; exact hno)]
        exact (orphaned_congr hsteady.expiryHeap hcalm.lock_eq_none_iff).trans htake

/-! ### Runs -/

theorem serve_snoc {last : Event} : serve p (events ++ [last]) = .ok ms' ↔
    ∃ ms, serve p events = .ok ms ∧ last.apply p ms = .ok ms' := by
  unfold serve
  rw [List.foldlM_append, except_bind_eq_ok]
  refine exists_congr fun ms => and_congr_right fun _ => ?_
  rw [List.foldlM_cons, except_bind_eq_ok]
  constructor
  · rintro ⟨ms₁, hlast, h⟩
    obtain rfl := Except.ok.inj h
    exact hlast
  · exact fun hlast => ⟨ms', hlast, rfl⟩

/-- **There is an orphan exactly if an event has made one.** -/
theorem orphaned_iff (h : serve p events = .ok ms) : Orphaned ms ↔ ∃ before e rest ms₁,
    events = before ++ e :: rest ∧ serve p before = .ok ms₁ ∧ Orphans p ms₁ e := by
  induction events using List.reverseRecOn generalizing ms with
  | nil =>
    obtain rfl := Except.ok.inj h
    refine iff_of_false ?_ ?_
    · rintro ⟨e, he, -⟩
      cases he
    · rintro ⟨before, e, rest, ms₁, he, -⟩
      cases before <;> cases he
  | append_singleton events last ih =>
    obtain ⟨ms₁, h₁, hlast⟩ := serve_snoc.1 h
    rw [orphaned_step (reachable_of_serve h₁) hlast, ih h₁]
    constructor
    · rintro (⟨before, e, rest, ms₂, rfl, hserve, horphans⟩ | horphans)
      · exact ⟨before, e, rest ++ [last], ms₂, by simp, hserve, horphans⟩
      · exact ⟨events, last, [], ms₁, rfl, h₁, horphans⟩
    · rintro ⟨before, e, rest, ms₂, he, hserve, horphans⟩
      rcases List.eq_nil_or_concat rest with rfl | ⟨rest', last', rfl⟩
      · obtain ⟨rfl, hlast'⟩ := List.append_inj' he rfl
        obtain rfl := List.head_eq_of_cons_eq hlast'
        obtain rfl := Except.ok.inj (hserve.symm.trans h₁)
        exact .inr horphans
      · rw [List.concat_eq_append, ← List.cons_append, ← List.append_assoc] at he
        obtain ⟨rfl, -⟩ := List.append_inj' he rfl
        exact .inl ⟨before, e, rest', ms₂, rfl, hserve, horphans⟩

/-- **The sweep returns at any later time exactly if no event has made an orphan.** -/
theorem sweepable_iff (h : serve p events = .ok ms) :
    (∀ elapsed : ℕ, ∃ ms', processExpiredSessions p { ms with now := ms.now + elapsed } = .ok ms') ↔
      ∀ before e rest ms₁, events = before ++ e :: rest → serve p before = .ok ms₁ →
        ¬ Orphans p ms₁ e := by
  have hnone : (∀ before e rest ms₁, events = before ++ e :: rest → serve p before = .ok ms₁ →
      ¬ Orphans p ms₁ e) ↔ ¬ Orphaned ms := by
    rw [orphaned_iff h]
    push Not
    rfl
  rw [hnone]
  constructor
  · rintro hreturns ⟨e, he, hdead⟩
    -- wait until the orphan is due
    have hdue : e.expiryMs ≤ ms.now + ((e.expiryMs - ms.now).toNat : ℤ) := by
      have := Int.self_le_toNat (e.expiryMs - ms.now)
      omega
    obtain ⟨ms', hok⟩ := hreturns (e.expiryMs - ms.now).toNat
    have hendless := @processExpiredSessions_endless p
      { ms with now := ms.now + ((e.expiryMs - ms.now).toNat : ℤ) } e he hdue hdead
    cases hendless.symm.trans hok
  · intro hnot elapsed
    refine processExpiredSessions_returns fun e he _ => ?_
    by_contra hdead
    exact hnot ⟨e, he, Option.not_isSome_iff_eq_none.1 hdead⟩

/-- The entry is in the heap, and its session is gone. -/
structure StaysOrphan (entry : ExpiryEntry) (ms : ManageSessions) : Prop where
  mem : entry ∈ ms.expiryHeap.entries
  dead : ms.lock entry.session = none

theorem StaysOrphan.move (h : StaysOrphan entry ms) (hm : Move p ms ms') :
    StaysOrphan entry ms' := by
  cases hm with
  | onward ho =>
    refine ⟨ho.expiryHeap ▸ h.mem, ?_⟩
    by_contra halive
    obtain ⟨cs', hl'⟩ := Option.ne_none_iff_exists'.1 halive
    obtain ⟨cs, hl, -⟩ := ho.alive _ cs' hl'
    cases h.dead.symm.trans hl
  | register hreg hnew hr hid =>
    refine ⟨hreg.mem_entries.2 (.inr h.mem), ?_⟩
    by_contra halive
    obtain ⟨cs', hl'⟩ := Option.ne_none_iff_exists'.1 halive
    rcases hreg.lock _ cs' hl' with ⟨hsame, -⟩ | ⟨-, hl⟩
    · exact hnew entry h.mem (congrArg SessionRef.obj hsame)
    · cases h.dead.symm.trans hl
  | sweep hs =>
    have hmem := h.mem
    rw [hs.collects.perm.mem_iff, List.mem_append] at hmem
    -- the sweep pops the entries of live sessions
    have hheap := hmem.resolve_left fun hpopped => by
      have halive := (hs.collects.due entry hpopped).2
      rw [h.dead] at halive
      cases halive
    refine ⟨hs.entries.mem_iff.2 (List.mem_append_right _ hheap), ?_⟩
    by_contra halive
    obtain ⟨cs', hl'⟩ := Option.ne_none_iff_exists'.1 halive
    obtain ⟨cs, hl, -⟩ := hs.sweeps.alive _ cs' hl'
    cases h.dead.symm.trans hl

/-- **An orphan stays one whatever happens, and each sweep after its time is without an end.** -/
theorem endless_of_run (hr : Reachable p ms) (hmem : entry ∈ ms.expiryHeap.entries)
    (hdead : ms.lock entry.session = none) (hrun : Run (BrokerStep p) ms events ms') :
    entry ∈ ms'.expiryHeap.entries ∧ ms'.lock entry.session = none ∧
      (entry.expiryMs ≤ ms'.now → Event.apply p .processExpiredSessions ms' = .error .endless) := by
  have hkept : Reachable p ms' ∧ StaysOrphan entry ms' := by
    refine hrun.invariant (I := fun ms => Reachable p ms ∧ StaysOrphan entry ms)
      ⟨hr, hmem, hdead⟩ ?_
    rintro ms₁ e ms₂ ⟨hr₁, horphan⟩ hstep
    refine ⟨hr₁.step hstep, ?_⟩
    have hmoves := e.moves hr₁.timed hr₁.sound hr₁.transportsAllocated hstep
    exact (hr₁.timed.moves horphan (fun _ _ _ h hm => h.move hm) hmoves).2
  exact ⟨hkept.2.mem, hkept.2.dead, fun hdue =>
    processExpiredSessions_endless hkept.2.mem hdue hkept.2.dead⟩

/-- Client `A` connects twice with a clean session, within its keep-alive time. -/
def replacedEarly : List Event :=
  .newConnection 3 :: arrive 0 (connectFrameWith 4 1 65 2) ++
    .newConnection 4 :: arrive 2 (connectFrameWith 4 1 65 2)

theorem serve_replacedEarly : ∃ ms, serve .sorting replacedEarly = .ok ms ∧
    ∃ e ∈ ms.expiryHeap.entries, e.expiryMs = 1500 ∧ ms.now = 0 ∧ (ms.lock e.session).isNone := by
  have hok : (serve .sorting replacedEarly).toOption.any fun ms =>
      ∃ e ∈ ms.expiryHeap.entries, e.expiryMs = 1500 ∧ ms.now = 0 ∧
        (ms.lock e.session).isNone := by decide +kernel
  exact exists_of_any_ok hok

/-- The second CONNECT makes an orphan, so there will be a time to sweep without an end. -/
theorem sweepable_iff_replacedEarly : ∃ ms, serve .sorting replacedEarly = .ok ms ∧
    ((∀ elapsed : ℕ, ∃ ms', processExpiredSessions .sorting { ms with now := ms.now + elapsed } =
      .ok ms') ↔ ∀ before e rest ms₁, replacedEarly = before ++ e :: rest →
        serve .sorting before = .ok ms₁ → ¬ Orphans .sorting ms₁ e) := by
  obtain ⟨ms, hserve, -⟩ := serve_replacedEarly
  exact ⟨ms, hserve, sweepable_iff hserve⟩

/-- That is after the keep-alive time of the first one. -/
theorem endless_of_run_replacedEarly : ∃ ms, Reachable .sorting ms ∧
    Event.apply .sorting .processExpiredSessions { ms with now := ms.now + 1500 } =
      .error .endless := by
  obtain ⟨ms, hserve, e, hmem, hexpiry, hnow, hdead⟩ := serve_replacedEarly
  have hr := reachable_of_serve hserve
  have htick : Run (BrokerStep .sorting) ms [.tick 1500] { ms with now := ms.now + 1500 } :=
    Run.nil.snoc rfl
  refine ⟨ms, hr, (endless_of_run hr hmem (Option.isNone_iff_eq_none.1 hdead) htick).2.2 ?_⟩
  show e.expiryMs ≤ ms.now + 1500
  omega

end Culex
