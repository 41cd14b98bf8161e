import Culex.KeepAlive

/-!
# Whom the sweep disconnects

`processExpiredSessions` is to disconnect the clients that have exceeded their keep-alive time, and
no others.  It does so through their transports.

* `enforced_iff`: a sweep disconnects all of them exactly if each still has its transport when its
  turn comes;
* `spared_iff`: a client in time keeps its connection exactly if no client that is late is served on
  its socket, and in any case its session, with one entry in the heap.
-/

namespace Culex

open ManageSessions

/-- A connected session whose keep-alive time is over. -/
structure Overdue (ms : ManageSessions) (r : SessionRef) (cs : ClientSession) : Prop where
  lock : ms.lock r = some cs
  connected : cs.connected = true
  keepAlive : cs.keepAlive ≠ 0
  late : expiryOf cs ≤ ms.now

/-- What the sweep is for: no late session is left connected; a clean one has been removed, and
another marked disconnected. -/
structure Enforced (ms ms' : ManageSessions) : Prop where
  none_left : ∀ r cs, ¬ Overdue ms' r cs
  disconnected : ∀ r cs, Overdue ms r cs →
    ms'.lock r = if cs.cleansession then none else some cs.offline

/-- Every late session has a live transport, and does not lose it before its turn: a task holds it,
or no other late session is served on its socket. -/
def OnTime (ms : ManageSessions) : Prop :=
  ∀ r cs, Overdue ms r cs → ∃ fd, Holds ms r fd ∧
    ((∃ id ∈ ms.tasks, cs.session = some id) ∨
      ∀ r' cs', Overdue ms r' cs' → Holds ms r' fd → r' = r)

/-- No two live transports have one socket: a descriptor is not given out again while it is open. -/
def SocketsDistinct (ms : ManageSessions) : Prop :=
  ∀ id id' fd clientId clientId', ms.socketOf id = some (fd, clientId) →
    ms.socketOf id' = some (fd, clientId') → (ms.lockTransport (some id)).isSome →
      (ms.lockTransport (some id')).isSome → id = id'

/-- Every object has one entry at most in the expiry heap. -/
def OneEach (ms : ManageSessions) : Prop :=
  (ms.expiryHeap.entries.map fun e => e.session.obj).Nodup

/-- What the sweep leaves a session that is in time: it stays registered and as connected as it was,
its socket stays open, and if it had a due entry it has one entry, at the time it expires. -/
structure Spared (ms ms' : ManageSessions) (r : SessionRef) (cs : ClientSession) : Prop where
  registered : ∃ cs', ms'.lock r = some cs' ∧ cs'.connected = cs.connected
  socket : ∀ id fd clientId, cs.session = some id → ms.socketOf id = some (fd, clientId) →
    ms.sessions.lookup fd = some id → ms'.sessions.lookup fd = some id
  entry : (∃ e ∈ ms.expiryHeap.entries, e.session = r ∧ e.expiryMs ≤ ms.now) →
    ms'.expiryHeap.entries.filter (fun e => e.session.obj = r.obj) = [⟨expiryOf cs, r⟩]

/-- No late session is served on the socket of the session. -/
def Unshared (ms : ManageSessions) (cs : ClientSession) : Prop :=
  ∀ id fd clientId, cs.session = some id → ms.socketOf id = some (fd, clientId) →
    ms.sessions.lookup fd = some id → ∀ r' cs', Overdue ms r' cs' → ¬ Holds ms r' fd

variable {p : Platform} {ms ms' : ManageSessions} {r : SessionRef} {cs : ClientSession}
  {popped : List ExpiryEntry} {heap : MinHeap ExpiryEntry.expiryMs}

/-! ### The late sessions are the ones to disconnect -/

/-- What the sweep disconnects is late. -/
theorem Timed.overdue_of_mem (h : Timed ms) (hc : Collects ms popped heap)
    (hr : r ∈ (sweepOf ms popped).toDisconnect) : ∃ cs, Overdue ms r cs := by
  obtain ⟨hmem, hlapsed⟩ := List.mem_filter.1 hr
  obtain ⟨e, he, rfl⟩ := List.mem_map.1 hmem
  obtain ⟨cs, hl, hcon, hlate⟩ := lapsed_eq_true_iff.1 hlapsed
  have hentry := hc.perm.mem_iff.2 (List.mem_append_left _ he)
  exact ⟨cs, hl, hcon, h.keepAlive e hentry cs hl hcon, hlate⟩

/-- What is late and has a live transport is disconnected. -/
theorem Timed.mem_of_overdue (h : Timed ms) (hc : Collects ms popped heap) (ho : Overdue ms r cs)
    {fd : ℕ} (hholds : Holds ms r fd) : r ∈ (sweepOf ms popped).toDisconnect :=
  h.popped_of_due hc ho.lock ho.connected ho.keepAlive
    ((exists_holds_iff ho.lock).1 ⟨fd, hholds⟩) ho.late

/-- A late session after the sweep was late before it, and is as it was. -/
theorem Expires.overdue (hs : Expires p ms popped heap ms') {cs' : ClientSession}
    (ho : Overdue ms' r cs') : ∃ cs, Overdue ms r cs := by
  obtain ⟨cs, hl, hswept⟩ := hs.sweeps.alive r cs' ho.lock
  have hlate := ho.late
  have hk := ho.keepAlive
  rw [hs.sweeps.eq] at hlate
  rw [hswept.eq] at hlate hk
  exact ⟨cs, hl, hswept.connected ho.connected, hk, hlate⟩

/-- Disconnecting all of them is enough. -/
theorem Expires.enforced_of (hs : Expires p ms popped heap ms')
    (h : ∀ r cs, Overdue ms r cs → ms'.lock r = if cs.cleansession then none else some cs.offline) :
    Enforced ms ms' := by
  refine ⟨fun r cs' ho => ?_, h⟩
  obtain ⟨cs, ho₀⟩ := hs.overdue ho
  have hl := (h r cs ho₀).symm.trans ho.lock
  split_ifs at hl
  have hcon := ho.connected
  rw [← Option.some.inj hl] at hcon
  cases hcon

/-! ### All of them -/

theorem enforced_of_onTime (h : Timed ms) (hs : Expires p ms popped heap ms') (ht : OnTime ms) :
    Enforced ms ms' := by
  refine hs.enforced_of fun r cs ho => ?_
  obtain ⟨fd, hholds, hturn⟩ := ht r cs ho
  obtain ⟨earlier, later, hsplit⟩ := List.append_of_mem (h.mem_of_overdue hs.collects ho hholds)
  have hn := h.nodup_toDisconnect hs.collects
  obtain ⟨cs', id, clientId, hl, hid, hsocket, hopen⟩ := hholds
  obtain rfl := Option.some.inj (ho.lock.symm.trans hl)
  refine (hs.lock_disconnected hn hsplit ho.lock).1 ⟨id, fd, clientId, hid, hsocket, ?_⟩
  rcases hturn with ⟨id', htask, hid'⟩ | hsole
  · obtain rfl := Option.some.inj (hid.symm.trans hid')
    exact .inl htask
  · refine hopen.symm.imp_right fun hopen => ⟨hopen, fun r' hr' hholds' => ?_⟩
    have hmem : r' ∈ (sweepOf ms popped).toDisconnect := hsplit ▸ List.mem_append_left _ hr'
    obtain ⟨cs', ho'⟩ := h.overdue_of_mem hs.collects hmem
    obtain rfl := hsole r' cs' ho' hholds'
    rw [hsplit, List.nodup_append] at hn
    exact hn.2.2 r' hr' r' List.mem_cons_self rfl

/-- A late session that the sweep has dealt with had its transport at its turn. -/
theorem Enforced.turn (he : Enforced ms ms') (h : Timed ms) (hs : Expires p ms popped heap ms')
    (ho : Overdue ms r cs) : r ∈ (sweepOf ms popped).toDisconnect ∧
      ∀ earlier later, (sweepOf ms popped).toDisconnect = earlier ++ r :: later →
        ∃ id fd clientId, cs.session = some id ∧ ms.socketOf id = some (fd, clientId) ∧
          (id ∈ ms.tasks ∨ ms.sessions.lookup fd = some id ∧ ∀ r' ∈ earlier, ¬ Holds ms r' fd) := by
  have hgone := he.disconnected r cs ho
  have hleft : ∀ cs', cs'.connected = true → ms'.lock r ≠ some cs' := by
    intro cs' hcon hl
    rw [hgone] at hl
    split_ifs at hl
    rw [← Option.some.inj hl] at hcon
    cases hcon
  have hmem : r ∈ (sweepOf ms popped).toDisconnect := by
    by_contra hnot
    have hl := hs.lock_not_toDisconnect hnot
    rw [ho.lock] at hl
    split_ifs at hl
    · refine hleft cs.expiring ?_ hl
      rw [expiring_eq]
      exact ho.connected
    · exact hleft cs ho.connected hl
  refine ⟨hmem, fun earlier later hsplit => ?_⟩
  by_contra hdead
  exact hleft cs ho.connected
    ((hs.lock_disconnected (h.nodup_toDisconnect hs.collects) hsplit ho.lock).2 hdead)

theorem onTime_of_enforced (h : Timed ms) (hs : Expires p ms popped heap ms')
    (hd : SocketsDistinct ms) (he : Enforced ms ms') : OnTime ms := by
  intro r cs ho
  obtain ⟨hmem, hturn⟩ := he.turn h hs ho
  obtain ⟨earlier, later, hsplit⟩ := List.append_of_mem hmem
  obtain ⟨id, fd, clientId, hid, hsocket, hopen⟩ := hturn earlier later hsplit
  have hholds : Holds ms r fd :=
    ⟨cs, id, clientId, ho.lock, hid, hsocket, hopen.symm.imp_left And.left⟩
  refine ⟨fd, hholds, ?_⟩
  by_cases htask : id ∈ ms.tasks
  · exact .inl ⟨id, htask, hid⟩
  · refine .inr fun r' cs' ho' hholds' => ?_
    obtain ⟨hlookup, hfirst⟩ := hopen.resolve_left htask
    by_contra hne
    -- the other one comes later, and then its socket has been closed
    obtain ⟨hmem', hturn'⟩ := he.turn h hs ho'
    have hlater : r' ∈ later := by
      rw [hsplit, List.mem_append, List.mem_cons] at hmem'
      exact (hmem'.resolve_left fun hr' => hfirst r' hr' hholds').resolve_left hne
    obtain ⟨between, rest, rfl⟩ := List.append_of_mem hlater
    obtain ⟨id', fd', clientId', hid', hsocket', hopen'⟩ :=
      hturn' (earlier ++ r :: between) rest (by rw [hsplit]; simp)
    have hfd : fd' = fd := Holds.unique
      ⟨cs', id', clientId', ho'.lock, hid', hsocket', hopen'.symm.imp_left And.left⟩ hholds'
    subst hfd
    have htask' : id' ∈ ms.tasks :=
      hopen'.resolve_right fun hopen' => hopen'.2 r (by simp) hholds
    have hsame := hd id id' fd' clientId clientId' hsocket hsocket'
      (isSome_lockTransport hsocket (.inl hlookup)) (isSome_lockTransport hsocket' (.inr htask'))
    exact htask (hsame ▸ htask')

/-- **A sweep disconnects every client that has exceeded its keep-alive time** if each of them still
has its transport at its turn, and, where no two live transports have one socket, only then. -/
theorem enforced_iff (h : Reachable p ms) (hs : ms.processExpiredSessions p = .ok ms') :
    (OnTime ms → Enforced ms ms') ∧ (SocketsDistinct ms → (Enforced ms ms' ↔ OnTime ms)) := by
  obtain ⟨popped, heap, hexpires⟩ := processExpiredSessions_expires hs
  have hforward := enforced_of_onTime h.timed hexpires
  exact ⟨hforward, fun hd => ⟨onTime_of_enforced h.timed hexpires hd, hforward⟩⟩

/-- Client `A` has connected, and its keep-alive time has passed. -/
def silentClient : ManageSessions :=
  after .sorting (.newConnection 3 :: arrive 0 (connectFrameWith 4 1 65 2) ++ [.tick 1500])

/-- The same with its socket closed in between. -/
def vanishedClient : ManageSessions :=
  after .sorting (.newConnection 3 :: arrive 0 (connectFrameWith 4 1 65 2) ++
    [.closeConnection 3, .tick 1500])

/-- The only session there is. -/
theorem eq_of_sole {clientId : Bytes} {obj : ℕ} (hk : ms.sessionRegistry.keys = [clientId])
    (ho : (ms.lock ⟨clientId, obj⟩).isSome) (hl : ms.lock r = some cs) : r = ⟨clientId, obj⟩ := by
  have hmem : r.clientId ∈ ms.sessionRegistry.keys :=
    AList.mem_keys.1 (AList.lookup_isSome.1 (by rw [lock_eq_some_iff.1 hl]; rfl))
  rw [hk, List.mem_singleton] at hmem
  by_contra hne
  obtain ⟨cs', hl'⟩ := Option.isSome_iff_exists.1 ho
  cases (lock_eq_none_of_ne hl' hne hmem).symm.trans hl

/-- It is disconnected. -/
theorem enforced_silent : ∃ ms', silentClient.processExpiredSessions .sorting = .ok ms' ∧
    Enforced silentClient ms' := by
  have hok : (silentClient.processExpiredSessions .sorting).toOption.any fun _ => True := by
    decide +kernel
  obtain ⟨ms', hs, -⟩ := exists_of_any_ok hok
  have hreach : Reachable .sorting silentClient := after_reachable _ _
  refine ⟨ms', hs, (enforced_iff hreach hs).1 fun r cs ho => ?_⟩
  have hkeys : silentClient.sessionRegistry.keys = [[65]] := by decide +kernel
  have hsole := fun r cs => @eq_of_sole silentClient r cs [65] 1 hkeys (by decide +kernel)
  have hsession : (silentClient.lock ⟨[65], 1⟩).all fun cs => cs.session = some 0 := by
    decide +kernel
  have hl := ho.lock
  obtain rfl := hsole r cs hl
  rw [hl, Option.all_some] at hsession
  refine ⟨3, ⟨cs, 0, [65], hl, of_decide_eq_true hsession, by decide +kernel, ?_⟩, .inr ?_⟩
  · exact .inl (by decide +kernel)
  · exact fun r' cs' ho' _ => hsole r' cs' ho'.lock

/-- Without its transport it stays connected. -/
theorem not_enforced_vanished : Reachable .sorting vanishedClient ∧
    ∃ ms', vanishedClient.processExpiredSessions .sorting = .ok ms' ∧ ∃ r cs, Overdue ms' r cs := by
  refine ⟨after_reachable _ _, ?_⟩
  have hok : (vanishedClient.processExpiredSessions .sorting).toOption.any fun ms' =>
      ((ms'.lock ⟨[65], 1⟩).any fun cs =>
        cs.connected = true ∧ cs.keepAlive ≠ 0 ∧ expiryOf cs ≤ ms'.now) = true := by
    decide +kernel
  obtain ⟨ms', hs, hany⟩ := exists_of_any_ok hok
  obtain ⟨cs, hl, hcon, hk, hlate⟩ := exists_of_any hany
  exact ⟨ms', hs, ⟨[65], 1⟩, cs, hl, hcon, hk, hlate⟩

/-! ### No others -/

/-- A list whose keys differ has one element of a key. -/
theorem filter_key_eq {α β : Type} [DecidableEq β] {key : α → β} {l : List α} {x : α}
    (hn : (l.map key).Nodup) (hx : x ∈ l) : l.filter (fun y => key y = key x) = [x] := by
  induction l with
  | nil => cases hx
  | cons y l ih =>
    rw [List.map_cons, List.nodup_cons] at hn
    rcases List.mem_cons.1 hx with rfl | hx
    · have hnone : l.filter (fun z => key z = key x) = [] := by
        refine List.filter_eq_nil_iff.2 fun z hz hkey => hn.1 ?_
        rw [← of_decide_eq_true hkey]
        exact List.mem_map_of_mem hz
      rw [List.filter_cons_of_pos (by simp), hnone]
    · have hne : key y ≠ key x := fun he => hn.1 (he ▸ List.mem_map_of_mem hx)
      rw [List.filter_cons_of_neg (by simpa using hne), ih hn.2 hx]

theorem Reachable.oneEach (h : Reachable p ms) : OneEach ms := h.timed.unique

/-- A session that is in time is scheduled again if it is popped, and is else left alone. -/
theorem Expires.lock_fresh (hs : Expires p ms popped heap ms') (hl : ms.lock r = some cs)
    (hfresh : ms.now < expiryOf cs) :
    ∃ cs', ms'.lock r = some cs' ∧ cs'.connected = cs.connected := by
  have hnot : r ∉ (sweepOf ms popped).toDisconnect := by
    intro hr
    obtain ⟨cs', hl', -, hlate⟩ := lapsed_eq_true_iff.1 (List.mem_filter.1 hr).2
    obtain rfl := Option.some.inj (hl.symm.trans hl')
    exact absurd hlate (not_le.2 hfresh)
  rw [hs.lock_not_toDisconnect hnot, hl]
  split_ifs
  · refine ⟨cs.expiring, rfl, ?_⟩
    rw [expiring_eq]
  · exact ⟨cs, rfl, rfl⟩

/-- Its due entry is replaced by one at the time it expires. -/
theorem Timed.entry_fresh (h : Timed ms) (hs : Expires p ms popped heap ms')
    (hl : ms.lock r = some cs) (hfresh : ms.now < expiryOf cs)
    (hdue : ∃ e ∈ ms.expiryHeap.entries, e.session = r ∧ e.expiryMs ≤ ms.now) :
    ms'.expiryHeap.entries.filter (fun e => e.session.obj = r.obj) = [⟨expiryOf cs, r⟩] := by
  obtain ⟨e, he, rfl, hle⟩ := hdue
  have hk : cs.keepAlive ≠ 0 := by
    intro hk
    have hactive := h.active e.session cs hl
    rw [expiryOf, hk] at hfresh
    have hzero : ((0 : UInt16).toNat : ℤ) * 1500 = 0 := rfl
    omega
  have hpopped : e ∈ popped := by
    rw [hs.collects.perm.mem_iff, List.mem_append] at he
    refine he.resolve_right fun hrest => ?_
    exact absurd hle (not_le.2 (hs.collects.rest e hrest))
  have hnew : e.session ∈ (sweepOf ms popped).newEntries :=
    List.mem_filter.2 ⟨List.mem_map_of_mem hpopped, fresh_eq_true_iff.2 ⟨cs, hl, hfresh⟩⟩
  have hmem : (⟨expiryOf cs, e.session⟩ : ExpiryEntry) ∈ ms'.expiryHeap.entries := by
    rw [hs.entries.mem_iff]
    exact List.mem_append_left _ (List.mem_filterMap.2
      ⟨_, hnew, deadline_eq_some_iff.2 ⟨cs, hl, hk, rfl⟩⟩)
  have hunique : (ms'.expiryHeap.entries.map fun e => e.session.obj).Nodup := (h.sweep hs).unique
  exact filter_key_eq hunique hmem

/-- The sweep closes the sockets of the late sessions. -/
theorem Timed.closed_iff (h : Timed ms) (hs : Expires p ms popped heap ms') {id fd : ℕ}
    (hopen : ms.sessions.lookup fd = some id) : ms'.sessions.lookup fd = some id ↔
      ∀ r' cs', Overdue ms r' cs' → ¬ Holds ms r' fd := by
  rw [hs.sessions (h.nodup_toDisconnect hs.collects)]
  split_ifs with hany
  · obtain ⟨r', hr', hholds⟩ := hany
    obtain ⟨cs', ho⟩ := h.overdue_of_mem hs.collects hr'
    exact iff_of_false (by simp) fun hnot => hnot r' cs' ho hholds
  · push Not at hany
    refine iff_of_true hopen fun r' cs' ho hholds => ?_
    exact hany r' (h.mem_of_overdue hs.collects ho hholds) hholds

/-- **Entries do not multiply, and the sweep spares a client in time** exactly if no late one is
served on its socket. -/
theorem spared_iff (h : Reachable p ms) : OneEach ms ∧
    ∀ ms', ms.processExpiredSessions p = .ok ms' → ∀ r cs, ms.lock r = some cs →
      ms.now < expiryOf cs → (Spared ms ms' r cs ↔ Unshared ms cs) := by
  refine ⟨h.oneEach, fun ms' hs r cs hl hfresh => ?_⟩
  obtain ⟨popped, heap, hexpires⟩ := processExpiredSessions_expires hs
  constructor
  · intro hspared id fd clientId hid hsocket hopen
    exact (h.timed.closed_iff hexpires hopen).1 (hspared.socket id fd clientId hid hsocket hopen)
  · intro hunshared
    refine ⟨hexpires.lock_fresh hl hfresh, ?_, h.timed.entry_fresh hexpires hl hfresh⟩
    intro id fd clientId hid hsocket hopen
    exact (h.timed.closed_iff hexpires hopen).2 (hunshared id fd clientId hid hsocket hopen)

/-- Client `A` has connected and is active within its keep-alive time, which then passes. -/
def activeClient : ManageSessions :=
  after .sorting (.newConnection 3 :: arrive 0 (connectFrameWith 4 1 65 2) ++ .tick 1000 ::
    arrive 0 [0x40, 2, 0, 1] ++ [.tick 500])

/-- Its entry is due, and is put off. -/
theorem spared_active : ∃ ms' cs, activeClient.processExpiredSessions .sorting = .ok ms' ∧
    activeClient.lock ⟨[65], 1⟩ = some cs ∧ Spared activeClient ms' ⟨[65], 1⟩ cs ∧
      ∃ e ∈ activeClient.expiryHeap.entries, e.expiryMs ≤ activeClient.now := by
  have hok : (activeClient.processExpiredSessions .sorting).toOption.any fun _ => True := by
    decide +kernel
  have hfresh : (activeClient.lock ⟨[65], 1⟩).any fun cs => activeClient.now < expiryOf cs := by
    decide +kernel
  have hkeys : activeClient.sessionRegistry.keys = [[65]] := by decide +kernel
  obtain ⟨ms', hs, -⟩ := exists_of_any_ok hok
  obtain ⟨cs, hl, hlt⟩ := exists_of_any hfresh
  refine ⟨ms', cs, hs, hl, ?_, by decide +kernel⟩
  refine ((spared_iff (after_reachable _ _)).2 ms' hs ⟨[65], 1⟩ cs hl hlt).2 ?_
  intro id fd clientId _ _ _ r' cs' ho' _
  obtain rfl := eq_of_sole hkeys (by rw [hl]; rfl) ho'.lock
  obtain rfl := Option.some.inj (hl.symm.trans ho'.lock)
  exact absurd ho'.late (not_le.2 hlt)

/-- Client `A` and, on the same transport, client `B` have connected, and the keep-alive time of the
former has passed. -/
def sharedTransport : ManageSessions :=
  after .sorting (.newConnection 3 :: arrive 0 (connectFrameWith 4 1 65 2) ++
    arrive 0 (connectFrameWith 4 10 66 2) ++ [.tick 1500])

/-- The sweep closes the transport of the latter. -/
theorem not_spared_shared : Reachable .sorting sharedTransport ∧
    ∃ ms' r cs, sharedTransport.processExpiredSessions .sorting = .ok ms' ∧
      sharedTransport.lock r = some cs ∧ sharedTransport.now < expiryOf cs ∧
        ¬ Spared sharedTransport ms' r cs := by
  refine ⟨after_reachable _ _, ?_⟩
  have hok : (sharedTransport.processExpiredSessions .sorting).toOption.any fun ms' =>
      ms'.sessions.lookup 3 = none := by
    decide +kernel
  have hfresh : (sharedTransport.lock ⟨[66], 2⟩).any fun cs =>
      sharedTransport.now < expiryOf cs ∧ cs.session = some 0 := by
    decide +kernel
  obtain ⟨ms', hs, hclosed⟩ := exists_of_any_ok hok
  obtain ⟨cs, hl, hlt, hsession⟩ := exists_of_any hfresh
  refine ⟨ms', ⟨[66], 2⟩, cs, hs, hl, hlt, fun hspared => ?_⟩
  have hopen := hspared.socket 0 3 [66] hsession (by decide +kernel) (by decide +kernel)
  cases hclosed.symm.trans hopen

end Culex
