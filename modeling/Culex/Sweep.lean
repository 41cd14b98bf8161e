import Culex.Binding

/-!
# What the sweep does

The loops of `processExpiredSessions` after the first one.  The second disconnects the sessions it
is given one by one, and closing the transport of one can take the transport of a later one; the
third schedules sessions again.

* `sessions_foldl_disconnectExpired`: the sockets that the second loop closes;
* `lock_foldl_disconnectExpired`: what it does to a session, by the state it finds at its turn;
* `lock_foldl_scheduleExpiry`, `entries_foldl_scheduleExpiry`: the third loop.
-/

namespace Culex

open ManageSessions

/-- The transport of a session is alive, and serves the socket. -/
def Holds (ms : ManageSessions) (r : SessionRef) (fd : ℕ) : Prop :=
  ∃ cs id clientId, ms.lock r = some cs ∧ cs.session = some id ∧
    ms.socketOf id = some (fd, clientId) ∧ (ms.sessions.lookup fd = some id ∨ id ∈ ms.tasks)

/-- The entry that a session is scheduled with. -/
def ManageSessions.deadline (ms : ManageSessions) (r : SessionRef) : Option ExpiryEntry :=
  (ms.lock r).bind fun cs => if cs.keepAlive = 0 then none else some ⟨expiryOf cs, r⟩

variable {p : Platform} {ms ms' : ManageSessions} {r r' : SessionRef} {cs : ClientSession}
  {rs : List SessionRef} {fd : ℕ}

/-! ### Transports that are alive -/

theorem lockTransport_eq_some_iff {transport : Option ℕ} {id : ℕ} :
    ms.lockTransport transport = some id ↔ transport = some id ∧
      ∃ fd clientId, ms.socketOf id = some (fd, clientId) ∧
        (ms.sessions.lookup fd = some id ∨ id ∈ ms.tasks) := by
  rw [lockTransport_eq]
  cases transport with
  | none => simp
  | some id' =>
    rw [Option.bind_some, Option.bind_eq_some_iff, Option.some.injEq]
    constructor
    · rintro ⟨socket, hs, hif⟩
      split_ifs at hif with hopen
      obtain rfl := Option.some.inj hif
      exact ⟨rfl, socket.1, socket.2, hs, hopen⟩
    · rintro ⟨rfl, fd, clientId, hs, hopen⟩
      exact ⟨(fd, clientId), hs, if_pos hopen⟩

/-- A live transport serves a socket. -/
theorem exists_holds_iff (hl : ms.lock r = some cs) :
    (∃ fd, Holds ms r fd) ↔ (ms.lockTransport cs.session).isSome := by
  rw [Option.isSome_iff_exists]
  constructor
  · rintro ⟨fd, cs', id, clientId, hl', hs, hid, hopen⟩
    obtain rfl := Option.some.inj (hl.symm.trans hl')
    exact ⟨id, lockTransport_eq_some_iff.2 ⟨hs, fd, clientId, hid, hopen⟩⟩
  · rintro ⟨id, hid⟩
    obtain ⟨hs, fd, clientId, hid, hopen⟩ := lockTransport_eq_some_iff.1 hid
    exact ⟨fd, cs, id, clientId, hl, hs, hid, hopen⟩

/-- A session has one socket. -/
theorem Holds.unique {fd' : ℕ} (h : Holds ms r fd) (h' : Holds ms r fd') : fd = fd' := by
  obtain ⟨cs, id, clientId, hl, hs, hid, -⟩ := h
  obtain ⟨cs', id', clientId', hl', hs', hid', -⟩ := h'
  obtain rfl := Option.some.inj (hl.symm.trans hl')
  obtain rfl := Option.some.inj (hs.symm.trans hs')
  exact congrArg Prod.fst (Option.some.inj (hid.symm.trans hid'))

theorem holds_congr (hl : ms'.lock r = ms.lock r) (hsocket : ms'.socketOf = ms.socketOf)
    (hfd : ms'.sessions.lookup fd = ms.sessions.lookup fd) (htasks : ms'.tasks = ms.tasks) :
    Holds ms' r fd ↔ Holds ms r fd := by
  unfold Holds
  rw [hl, hsocket, hfd, htasks]

/-! ### Disconnecting a session -/

/-- Where two objects have one client id, at most one is alive. -/
theorem lock_eq_none_of_ne (hl : ms.lock r = some cs) (hne : r' ≠ r)
    (hc : r'.clientId = r.clientId) : ms.lock r' = none := by
  rw [lock_eq_some_iff] at hl
  unfold lock
  rw [hc, hl]
  refine if_neg fun hobj => hne ?_
  obtain ⟨clientId, obj⟩ := r
  obtain ⟨clientId', obj'⟩ := r'
  obtain rfl : clientId' = clientId := hc
  obtain rfl : obj = obj' := hobj
  rfl

theorem lock_removeFromRegistry (hl : ms.lock r = some cs) :
    (ms.removeFromRegistry r.clientId).lock r' = if r' = r then none else ms.lock r' := by
  have hlookup : ∀ clientId, (ms.removeFromRegistry r.clientId).sessionRegistry.lookup clientId =
      if clientId = r.clientId then none else ms.sessionRegistry.lookup clientId := by
    intro clientId
    split_ifs with hc
    · rw [hc]
      exact AList.lookup_erase _ _
    · exact AList.lookup_erase_ne hc
  by_cases hc : r'.clientId = r.clientId
  · have hgone : (ms.removeFromRegistry r.clientId).lock r' = none :=
      lock_eq_none_of_lookup ((hlookup r'.clientId).trans (if_pos hc))
    rw [hgone]
    split_ifs with he
    · rfl
    · exact (lock_eq_none_of_ne hl he hc).symm
  · rw [if_neg fun he => hc (congrArg _ he)]
    unfold lock
    rw [hlookup, if_neg hc]

theorem disconnectExpired_dead (hl : ms.lock r = some cs)
    (hdead : ms.lockTransport cs.session = none) : ms.disconnectExpired r = ms := by
  unfold disconnectExpired
  simp only [hl, hdead]

theorem disconnectExpired_alive {id : ℕ} (hl : ms.lock r = some cs)
    (halive : ms.lockTransport cs.session = some id) :
    ms.disconnectExpired r =
      if cs.cleansession then (ms.forceDisconnect id).removeFromRegistry r.clientId
      else (ms.forceDisconnect id).setSession r cs.offline := by
  unfold disconnectExpired
  simp only [hl, halive]
  rfl

theorem lock_forceDisconnect (id : ℕ) : (ms.forceDisconnect id).lock r = ms.lock r :=
  lock_congr (forceDisconnect_sessionRegistry id) r

/-- A session that is disconnected is removed if it is a clean one, and goes offline otherwise. -/
theorem lock_disconnectExpired (hl : ms.lock r = some cs) :
    (ms.disconnectExpired r).lock r =
      if (ms.lockTransport cs.session).isSome then
        if cs.cleansession then none else some cs.offline
      else some cs := by
  cases halive : ms.lockTransport cs.session with
  | none => rw [disconnectExpired_dead hl halive, hl]; rfl
  | some id =>
    have hl₁ : (ms.forceDisconnect id).lock r = some cs := (lock_forceDisconnect id).trans hl
    rw [disconnectExpired_alive hl halive, Option.isSome_some, if_pos rfl]
    split_ifs
    · rw [lock_removeFromRegistry hl₁, if_pos rfl]
    · exact lock_setSession_self _ _ _ hl₁

theorem lock_disconnectExpired_ne (hne : r' ≠ r) :
    (ms.disconnectExpired r).lock r' = ms.lock r' := by
  cases hl : ms.lock r with
  | none =>
    unfold disconnectExpired
    rw [hl]
  | some cs =>
    cases halive : ms.lockTransport cs.session with
    | none => rw [disconnectExpired_dead hl halive]
    | some id =>
      have hl₁ : (ms.forceDisconnect id).lock r = some cs := (lock_forceDisconnect id).trans hl
      rw [disconnectExpired_alive hl halive]
      split_ifs
      · rw [lock_removeFromRegistry hl₁, if_neg hne, lock_forceDisconnect]
      · rw [lock_setSession_ne _ _ _ _ hne, lock_forceDisconnect]

/-- Only the registry and the table of sockets change. -/
theorem disconnectExpired_eq (r : SessionRef) (ms : ManageSessions) :
    ms.disconnectExpired r = { ms with
      sessionRegistry := (ms.disconnectExpired r).sessionRegistry
      sessions := (ms.disconnectExpired r).sessions } := by
  have hforce : ∀ id, ms.forceDisconnect id = { ms with
      sessions := (ms.forceDisconnect id).sessions } := by
    intro id
    unfold forceDisconnect
    cases ms.transports.lookup id <;> rfl
  unfold disconnectExpired
  cases ms.lock r with
  | none => rfl
  | some cs =>
    simp only
    cases ms.lockTransport cs.session with
    | none => rfl
    | some id =>
      simp only
      rw [hforce]
      split_ifs
      · rfl
      · rw [setSession_eq]

theorem socketOf_disconnectExpired : (ms.disconnectExpired r).socketOf = ms.socketOf := by
  rw [disconnectExpired_eq]
  rfl

theorem tasks_disconnectExpired : (ms.disconnectExpired r).tasks = ms.tasks := by
  rw [disconnectExpired_eq]

open Classical in
/-- Its socket is closed, whoever serves it by then. -/
theorem sessions_disconnectExpired :
    (ms.disconnectExpired r).sessions.lookup fd =
      if Holds ms r fd then none else ms.sessions.lookup fd := by
  cases hl : ms.lock r with
  | none =>
    have hnot : ¬ Holds ms r fd := by
      rintro ⟨cs, id, clientId, hl', -⟩
      cases hl.symm.trans hl'
    rw [if_neg hnot]
    unfold disconnectExpired
    rw [hl]
  | some cs =>
    cases halive : ms.lockTransport cs.session with
    | none =>
      have hnot : ¬ Holds ms r fd := by
        intro hholds
        have hsome := (exists_holds_iff hl).1 ⟨fd, hholds⟩
        rw [halive] at hsome
        cases hsome
      rw [disconnectExpired_dead hl halive, if_neg hnot]
    | some id =>
      obtain ⟨hs, fd', clientId, hid, hopen⟩ := lockTransport_eq_some_iff.1 halive
      have hown : Holds ms r fd' := ⟨cs, id, clientId, hl, hs, hid, hopen⟩
      have hiff : Holds ms r fd ↔ fd = fd' := ⟨fun h => h.unique hown, fun he => he ▸ hown⟩
      have hsessions : (ms.disconnectExpired r).sessions = ms.sessions.erase fd' := by
        have hforce : (ms.forceDisconnect id).sessions = ms.sessions.erase fd' := by
          rw [sessions_forceDisconnect, hid]
        rw [disconnectExpired_alive hl halive]
        split_ifs
        · exact hforce
        · rw [setSession_eq, hforce]
      simp only [hsessions, hiff]
      split_ifs with he
      · rw [he]
        exact AList.lookup_erase _ _
      · exact AList.lookup_erase_ne he

/-! ### Disconnecting them all -/

theorem lock_foldl_disconnectExpired_not_mem (hr : r ∉ rs) :
    (rs.foldl disconnectExpired ms).lock r = ms.lock r := by
  induction rs generalizing ms with
  | nil => rfl
  | cons r₁ rs ih =>
    rw [List.mem_cons, not_or] at hr
    rw [List.foldl_cons, ih hr.2, lock_disconnectExpired_ne hr.1]

theorem foldl_disconnectExpired_eq (rs : List SessionRef) (ms : ManageSessions) :
    rs.foldl disconnectExpired ms = { ms with
      sessionRegistry := (rs.foldl disconnectExpired ms).sessionRegistry
      sessions := (rs.foldl disconnectExpired ms).sessions } := by
  induction rs generalizing ms with
  | nil => rfl
  | cons r rs ih =>
    rw [List.foldl_cons, ih, disconnectExpired_eq]

open Classical in
/-- **The second loop closes the sockets that the sessions hold before it.** -/
theorem sessions_foldl_disconnectExpired (hn : rs.Nodup) :
    (rs.foldl disconnectExpired ms).sessions.lookup fd =
      if ∃ r ∈ rs, Holds ms r fd then none else ms.sessions.lookup fd := by
  induction rs generalizing ms with
  | nil => simp
  | cons r rs ih =>
    rw [List.nodup_cons] at hn
    rw [List.foldl_cons, ih hn.2, sessions_disconnectExpired]
    by_cases hown : Holds ms r fd
    · have hany : ∃ r' ∈ r :: rs, Holds ms r' fd := ⟨r, List.mem_cons_self, hown⟩
      rw [if_pos hown, ite_self, if_pos hany]
    · -- where the first session leaves the socket alone, the others hold it as before
      have hsame : ∀ r' ∈ rs, Holds (ms.disconnectExpired r) r' fd ↔ Holds ms r' fd := by
        intro r' hr'
        have hne : r' ≠ r := fun he => hn.1 (he ▸ hr')
        refine holds_congr (lock_disconnectExpired_ne hne) socketOf_disconnectExpired ?_
          tasks_disconnectExpired
        rw [sessions_disconnectExpired, if_neg hown]
      have hiff : (∃ r' ∈ rs, Holds (ms.disconnectExpired r) r' fd) ↔
          ∃ r' ∈ r :: rs, Holds ms r' fd := by
        rw [List.exists_mem_cons_iff, or_iff_right hown]
        exact exists_congr fun r' => and_congr_right (hsame r')
      rw [if_neg hown, if_congr hiff rfl rfl]

/-- **What the second loop does to a session**, by the state that it finds at its turn. -/
theorem lock_foldl_disconnectExpired {earlier later : List SessionRef}
    (hn : (earlier ++ r :: later).Nodup) (hl : ms.lock r = some cs) :
    ((earlier ++ r :: later).foldl disconnectExpired ms).lock r =
      if ((earlier.foldl disconnectExpired ms).lockTransport cs.session).isSome then
        if cs.cleansession then none else some cs.offline
      else some cs := by
  obtain ⟨-, hlater, hdisjoint⟩ := List.nodup_append.1 hn
  have hfirst : r ∉ earlier := fun hmem => hdisjoint r hmem r List.mem_cons_self rfl
  have hl₁ : (earlier.foldl disconnectExpired ms).lock r = some cs :=
    (lock_foldl_disconnectExpired_not_mem hfirst).trans hl
  rw [List.foldl_append, List.foldl_cons,
    lock_foldl_disconnectExpired_not_mem (List.nodup_cons.1 hlater).1, lock_disconnectExpired hl₁]

/-- A transport is still alive at the turn of its session, where a task holds it or no earlier
session has closed its socket. -/
theorem isSome_lockTransport_foldl (hn : rs.Nodup) {transport : Option ℕ} :
    ((rs.foldl disconnectExpired ms).lockTransport transport).isSome ↔ ∃ id fd clientId,
      transport = some id ∧ ms.socketOf id = some (fd, clientId) ∧
        (id ∈ ms.tasks ∨ ms.sessions.lookup fd = some id ∧ ∀ r ∈ rs, ¬ Holds ms r fd) := by
  have hsocket : (rs.foldl disconnectExpired ms).socketOf = ms.socketOf := by
    rw [foldl_disconnectExpired_eq]
    rfl
  have htasks : (rs.foldl disconnectExpired ms).tasks = ms.tasks := by
    rw [foldl_disconnectExpired_eq]
  have hopen : ∀ fd id, (rs.foldl disconnectExpired ms).sessions.lookup fd = some id ↔
      ms.sessions.lookup fd = some id ∧ ∀ r ∈ rs, ¬ Holds ms r fd := by
    intro fd id
    rw [sessions_foldl_disconnectExpired hn]
    split_ifs with hany
    · obtain ⟨r, hr, hholds⟩ := hany
      exact iff_of_false (by simp) fun hnot => hnot.2 r hr hholds
    · push Not at hany
      exact (and_iff_left hany).symm
  simp only [Option.isSome_iff_exists, lockTransport_eq_some_iff, hsocket, htasks, hopen]
  constructor
  · rintro ⟨id, hs, fd, clientId, hid, hcases⟩
    exact ⟨id, fd, clientId, hs, hid, hcases.symm⟩
  · rintro ⟨id, fd, clientId, hs, hid, hcases⟩
    exact ⟨id, hs, fd, clientId, hid, hcases.symm⟩

/-! ### Scheduling -/

theorem lock_scheduleExpiry :
    (scheduleExpiry p r ms).lock r' =
      if r' = r then (ms.lock r).map ClientSession.expiring else ms.lock r' := by
  unfold scheduleExpiry
  cases hl : ms.lock r with
  | none =>
    split_ifs with he
    · rw [he]
      exact hl
    · rfl
  | some cs =>
    simp only [Option.map_some]
    unfold ClientSession.expiring
    split_ifs with hk he he
    · rw [he]
      exact hl
    · rfl
    · rw [he]
      exact lock_setSession_self _ _ _ hl
    · exact lock_setSession_ne _ _ _ _ he

theorem expiring_expiring (cs : ClientSession) : cs.expiring.expiring = cs.expiring := by
  unfold ClientSession.expiring
  split_ifs <;> rfl

theorem lock_foldl_scheduleExpiry :
    (rs.foldl (fun ms r => scheduleExpiry p r ms) ms).lock r =
      if r ∈ rs then (ms.lock r).map ClientSession.expiring else ms.lock r := by
  induction rs generalizing ms with
  | nil => simp
  | cons r₁ rs ih =>
    rw [List.foldl_cons, ih, lock_scheduleExpiry]
    by_cases he : r = r₁
    · subst he
      rw [if_pos rfl, if_pos List.mem_cons_self, Option.map_map]
      have hagain : ClientSession.expiring ∘ ClientSession.expiring = ClientSession.expiring := by
        funext cs
        exact expiring_expiring cs
      rw [hagain, ite_self]
    · simp [he]

theorem foldl_scheduleExpiry_eq (rs : List SessionRef) :
    rs.foldl (fun ms r => scheduleExpiry p r ms) ms = { ms with
      sessionRegistry := (rs.foldl (fun ms r => scheduleExpiry p r ms) ms).sessionRegistry
      expiryHeap := (rs.foldl (fun ms r => scheduleExpiry p r ms) ms).expiryHeap } := by
  induction rs generalizing ms with
  | nil => rfl
  | cons r rs ih =>
    rw [List.foldl_cons, ih, scheduleExpiry_eq]

/-- Scheduling does not move what a session is scheduled with. -/
theorem deadline_scheduleExpiry : (scheduleExpiry p r ms).deadline r' = ms.deadline r' := by
  have hsame : ∀ cs : ClientSession, expiryOf cs.expiring = expiryOf cs ∧
      cs.expiring.keepAlive = cs.keepAlive := by
    intro cs
    rw [expiring_eq]
    exact ⟨rfl, rfl⟩
  unfold deadline
  rw [lock_scheduleExpiry]
  split_ifs with he
  · rw [he]
    cases ms.lock r with
    | none => rfl
    | some cs => simp only [Option.map_some, Option.bind_some, hsame]
  · rfl

theorem deadline_eq_some_iff {e : ExpiryEntry} : ms.deadline r = some e ↔
    ∃ cs, ms.lock r = some cs ∧ cs.keepAlive ≠ 0 ∧ e = ⟨expiryOf cs, r⟩ := by
  unfold deadline
  rw [Option.bind_eq_some_iff]
  refine exists_congr fun cs => and_congr_right fun _ => ?_
  split_ifs with hk
  · simp [hk]
  · simp [hk, eq_comm]

theorem entries_scheduleExpiry :
    (scheduleExpiry p r ms).expiryHeap.entries.Perm
      ((ms.deadline r).toList ++ ms.expiryHeap.entries) := by
  unfold scheduleExpiry deadline
  cases ms.lock r with
  | none => exact .refl _
  | some cs =>
    simp only [Option.bind_some]
    split_ifs
    · exact .refl _
    · rw [setSession_eq]
      exact MinHeap.entries_push_perm _ _ _

/-- **The third loop puts one entry for each session that it is given**, if it has a keep-alive
time. -/
theorem entries_foldl_scheduleExpiry :
    (rs.foldl (fun ms r => scheduleExpiry p r ms) ms).expiryHeap.entries.Perm
      (rs.filterMap ms.deadline ++ ms.expiryHeap.entries) := by
  induction rs generalizing ms with
  | nil => exact .refl _
  | cons r rs ih =>
    have hsame : (scheduleExpiry p r ms).deadline = ms.deadline :=
      funext fun _ => deadline_scheduleExpiry
    have hcons : (r :: rs).filterMap ms.deadline =
        (ms.deadline r).toList ++ rs.filterMap ms.deadline := by
      rw [List.filterMap_cons]
      cases ms.deadline r <;> rfl
    rw [List.foldl_cons, hcons]
    refine ih.trans ?_
    rw [hsame]
    refine (List.Perm.append_left _ entries_scheduleExpiry).trans ?_
    rw [← List.append_assoc]
    exact List.perm_append_comm.append_right _

/-! ### The whole sweep -/

/-- The sessions popped that are to be disconnected, and those that are to be scheduled again. -/
def sweepOf (ms : ManageSessions) (popped : List ExpiryEntry) : Sweep where
  toDisconnect := (popped.map ExpiryEntry.session).filter ms.lapsed
  newEntries := (popped.map ExpiryEntry.session).filter ms.fresh

/-- A sweep that pops some entries, and leaves a heap. -/
structure Expires (p : Platform) (ms : ManageSessions) (popped : List ExpiryEntry)
    (heap : MinHeap ExpiryEntry.expiryMs) (ms' : ManageSessions) : Prop where
  collects : Collects ms popped heap
  eq : ms' = sweepOut p (sweepOf ms popped) { ms with expiryHeap := heap }

theorem processExpiredSessions_expires (h : ms.processExpiredSessions p = .ok ms') :
    ∃ popped heap, Expires p ms popped heap ms' := by
  unfold processExpiredSessions at h
  rw [except_bind_eq_ok] at h
  obtain ⟨⟨sweep, ms₁⟩, hc, h⟩ := h
  obtain rfl := Except.ok.inj h
  obtain ⟨popped, heap, hcollects, rfl, hdisconnect, hnew⟩ := collectExpired_collects hc
  refine ⟨popped, heap, hcollects, ?_⟩
  have hsweep : sweep = sweepOf ms popped := by
    obtain ⟨toDisconnect, newEntries⟩ := sweep
    exact congr (congrArg _ hdisconnect) hnew
  rw [hsweep]
  rfl

namespace Expires

variable {popped : List ExpiryEntry} {heap : MinHeap ExpiryEntry.expiryMs}

theorem sweeps (h : Expires p ms popped heap ms') : Sweeps ms ms' := by
  have hpop : Sweeps ms { ms with expiryHeap := heap } := ⟨fun r cs h => ⟨cs, h, .refl cs⟩, rfl⟩
  rw [h.eq]
  exact hpop.trans (.sweepOut _)

/-- The third loop, after the first two. -/
theorem lock_eq (h : Expires p ms popped heap ms') :
    ms'.lock r = if r ∈ (sweepOf ms popped).newEntries then
        (((sweepOf ms popped).toDisconnect.foldl disconnectExpired
          { ms with expiryHeap := heap }).lock r).map ClientSession.expiring
      else ((sweepOf ms popped).toDisconnect.foldl disconnectExpired
        { ms with expiryHeap := heap }).lock r := by
  rw [h.eq]
  exact lock_foldl_scheduleExpiry

/-- No session is both disconnected and scheduled again. -/
theorem disjoint (hr : r ∈ (sweepOf ms popped).toDisconnect) :
    r ∉ (sweepOf ms popped).newEntries := by
  intro hr'
  obtain ⟨cs, hl, -, hle⟩ := lapsed_eq_true_iff.1 (List.mem_filter.1 hr).2
  obtain ⟨cs', hl', hlt⟩ := fresh_eq_true_iff.1 (List.mem_filter.1 hr').2
  obtain rfl := Option.some.inj (hl.symm.trans hl')
  exact absurd hle (not_le.2 hlt)

theorem lock_toDisconnect (h : Expires p ms popped heap ms')
    (hr : r ∈ (sweepOf ms popped).toDisconnect) :
    ms'.lock r = ((sweepOf ms popped).toDisconnect.foldl disconnectExpired
      { ms with expiryHeap := heap }).lock r := by
  rw [h.lock_eq, if_neg (disjoint hr)]

theorem lock_not_toDisconnect (h : Expires p ms popped heap ms')
    (hr : r ∉ (sweepOf ms popped).toDisconnect) :
    ms'.lock r = if r ∈ (sweepOf ms popped).newEntries then
      (ms.lock r).map ClientSession.expiring else ms.lock r := by
  rw [h.lock_eq, lock_foldl_disconnectExpired_not_mem hr]
  rfl

theorem entries (h : Expires p ms popped heap ms') :
    ms'.expiryHeap.entries.Perm
      ((sweepOf ms popped).newEntries.filterMap ms.deadline ++ heap.entries) := by
  have hsame : ∀ r ∈ (sweepOf ms popped).newEntries,
      ((sweepOf ms popped).toDisconnect.foldl disconnectExpired
        { ms with expiryHeap := heap }).deadline r = ms.deadline r := by
    intro r hr
    unfold deadline
    rw [lock_foldl_disconnectExpired_not_mem fun hr' => disjoint hr' hr]
    rfl
  have hheap : ((sweepOf ms popped).toDisconnect.foldl disconnectExpired
      { ms with expiryHeap := heap }).expiryHeap = heap := by
    rw [foldl_disconnectExpired_eq]
  have hperm := @entries_foldl_scheduleExpiry p
    ((sweepOf ms popped).toDisconnect.foldl disconnectExpired { ms with expiryHeap := heap })
    (sweepOf ms popped).newEntries
  rw [List.filterMap_congr hsame, hheap] at hperm
  rw [h.eq]
  exact hperm

/-- The sockets are those that the second loop leaves. -/
theorem sessions_eq (h : Expires p ms popped heap ms') :
    ms'.sessions = ((sweepOf ms popped).toDisconnect.foldl disconnectExpired
      { ms with expiryHeap := heap }).sessions := by
  rw [h.eq, sweepOut, foldl_scheduleExpiry_eq]

open Classical in
theorem sessions (h : Expires p ms popped heap ms')
    (hn : (sweepOf ms popped).toDisconnect.Nodup) {fd : ℕ} :
    ms'.sessions.lookup fd =
      if ∃ r ∈ (sweepOf ms popped).toDisconnect, Holds ms r fd then none
      else ms.sessions.lookup fd := by
  rw [h.sessions_eq, sessions_foldl_disconnectExpired hn]
  rfl

/-- The transports that are alive after the sweep. -/
theorem isSome_lockTransport (h : Expires p ms popped heap ms')
    (hn : (sweepOf ms popped).toDisconnect.Nodup) {transport : Option ℕ} :
    (ms'.lockTransport transport).isSome ↔ ∃ id fd clientId,
      transport = some id ∧ ms.socketOf id = some (fd, clientId) ∧
        (id ∈ ms.tasks ∨ ms.sessions.lookup fd = some id ∧
          ∀ r ∈ (sweepOf ms popped).toDisconnect, ¬ Holds ms r fd) := by
  have hsame : ms'.lockTransport = ((sweepOf ms popped).toDisconnect.foldl disconnectExpired
      { ms with expiryHeap := heap }).lockTransport := by
    rw [h.eq, sweepOut, foldl_scheduleExpiry_eq]
    exact lockTransport_congr rfl rfl rfl
  rw [hsame, isSome_lockTransport_foldl hn]
  rfl

/-- **What the sweep does to a session that it is to disconnect**: nothing where its transport has
died or an earlier session has closed its socket. -/
theorem lock_disconnected (h : Expires p ms popped heap ms')
    (hn : (sweepOf ms popped).toDisconnect.Nodup) {earlier later : List SessionRef}
    (hsplit : (sweepOf ms popped).toDisconnect = earlier ++ r :: later)
    (hl : ms.lock r = some cs) :
    ((∃ id fd clientId, cs.session = some id ∧ ms.socketOf id = some (fd, clientId) ∧
        (id ∈ ms.tasks ∨ ms.sessions.lookup fd = some id ∧ ∀ r ∈ earlier, ¬ Holds ms r fd)) →
      ms'.lock r = if cs.cleansession then none else some cs.offline) ∧
    ((¬ ∃ id fd clientId, cs.session = some id ∧ ms.socketOf id = some (fd, clientId) ∧
        (id ∈ ms.tasks ∨ ms.sessions.lookup fd = some id ∧ ∀ r ∈ earlier, ¬ Holds ms r fd)) →
      ms'.lock r = some cs) := by
  have hr : r ∈ (sweepOf ms popped).toDisconnect := by
    rw [hsplit]
    exact List.mem_append_right _ List.mem_cons_self
  have hl₁ : ({ ms with expiryHeap := heap } : ManageSessions).lock r = some cs := hl
  rw [hsplit] at hn
  have hearlier : earlier.Nodup := (List.nodup_append.1 hn).1
  have hiff := @isSome_lockTransport_foldl { ms with expiryHeap := heap } earlier hearlier
    cs.session
  rw [h.lock_toDisconnect hr, hsplit, lock_foldl_disconnectExpired hn hl₁]
  constructor
  · intro halive
    exact if_pos (hiff.2 halive)
  · intro hdead
    exact if_neg fun hsome => hdead (hiff.1 hsome)

end Expires

end Culex
