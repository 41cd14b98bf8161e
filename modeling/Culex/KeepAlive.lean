import Culex.Steady
import Culex.Sweep

/-!
# The expiry heap

Activity does not touch the expiry heap: an entry may come before the time at which its session
expires, and the sweep puts it off.  `Timed` says what the heap is good for all the same: an object
has one entry at most, and a connected session that has a keep-alive time and a live transport has
one that does not come too late.

* `Onward`: what an event other than an accepted CONNECT and the sweep does;
* `Registers`: what registering and scheduling a new session does;
* `Timed.sweep`: the sweep keeps the invariant;
* `Event.moves`: an event consists of moves, each of one of three kinds;
* `Reachable.timed`: the invariant holds of every reachable state.
-/

namespace Culex

open ManageSessions

/-- What the expiry heap is good for. -/
structure Timed (ms : ManageSessions) : Prop where
  /-- An object has one entry at most. -/
  unique : (ms.expiryHeap.entries.map fun e => e.session.obj).Nodup
  allocated : ∀ e ∈ ms.expiryHeap.entries, e.session.obj < ms.nextObj
  /-- The clock has not gone back. -/
  active : ∀ r cs, ms.lock r = some cs → cs.lastActivity ≤ ms.now
  owned : ∀ r cs id, ms.lock r = some cs → cs.session = some id → id < ms.nextObj
  covered : ∀ r cs, ms.lock r = some cs → cs.connected = true → cs.keepAlive ≠ 0 →
    (ms.lockTransport cs.session).isSome →
      ∃ e ∈ ms.expiryHeap.entries, e.session = r ∧ e.expiryMs ≤ expiryOf cs
  keepAlive : ∀ e ∈ ms.expiryHeap.entries, ∀ cs, ms.lock e.session = some cs →
    cs.connected = true → cs.keepAlive ≠ 0

/-- What becomes of a session over an event at a time. -/
structure Lasts (now : ℤ) (cs cs' : ClientSession) : Prop where
  session : cs'.session = cs.session
  connected : cs'.connected = true → cs.connected = true ∧ cs'.keepAlive = cs.keepAlive
  lastActivity : cs'.lastActivity = cs.lastActivity ∨ cs'.lastActivity = now

/-- Sessions and transports go and do not come, and the heap stays. -/
structure Onward (ms ms' : ManageSessions) : Prop where
  now : ms.now ≤ ms'.now
  nextObj : ms.nextObj ≤ ms'.nextObj
  expiryHeap : ms'.expiryHeap = ms.expiryHeap
  died : ∀ id, id < ms.nextObj → ms.lockTransport (some id) = none →
    ms'.lockTransport (some id) = none
  alive : ∀ r cs', ms'.lock r = some cs' → ∃ cs, ms.lock r = some cs ∧ Lasts ms.now cs cs'

variable {p : Platform} {ms ms' ms₁ : ManageSessions} {r : SessionRef} {cs cs' : ClientSession}
  {cn : Connect} {id t : ℕ} {packet : Packet} {entry : Registered}

theorem Lasts.refl (now : ℤ) (cs : ClientSession) : Lasts now cs cs :=
  ⟨rfl, fun h => ⟨h, rfl⟩, .inl rfl⟩

/-! ### Steps that go onward -/

/-- A transport that is alive afterwards was alive before. -/
theorem died_of (h : ∀ id fd clientId, id < ms.nextObj → ms'.socketOf id = some (fd, clientId) →
    ms'.sessions.lookup fd = some id ∨ id ∈ ms'.tasks → (ms.lockTransport (some id)).isSome) :
    ∀ id, id < ms.nextObj → ms.lockTransport (some id) = none →
      ms'.lockTransport (some id) = none := by
  intro id hid hdead
  by_contra halive
  obtain ⟨id', halive⟩ := Option.ne_none_iff_exists'.1 halive
  obtain ⟨he, fd, clientId, hs, hopen⟩ := lockTransport_eq_some_iff.1 halive
  obtain rfl := Option.some.inj he
  have hsome := h id fd clientId hid hs hopen
  rw [hdead] at hsome
  cases hsome

theorem isSome_lockTransport {fd : ℕ} {clientId : Bytes} (hs : ms.socketOf id = some (fd, clientId))
    (hopen : ms.sessions.lookup fd = some id ∨ id ∈ ms.tasks) :
    (ms.lockTransport (some id)).isSome :=
  Option.isSome_iff_exists.2 ⟨id, lockTransport_eq_some_iff.2 ⟨rfl, fd, clientId, hs, hopen⟩⟩

namespace Onward

theorem refl (ms : ManageSessions) : Onward ms ms :=
  ⟨le_refl _, le_refl _, rfl, fun _ _ h => h, fun _ cs h => ⟨cs, h, .refl _ cs⟩⟩

theorem of_calm {sub : Option SessionRef} {log : List Call} (hc : Calm sub log ms ms')
    (hs : Steady ms ms') : Onward ms ms' where
  now := hs.now.ge
  nextObj := hc.nextObj.ge
  expiryHeap := hs.expiryHeap
  died := by
    refine died_of fun id fd clientId _ hsocket hopen => ?_
    rw [hc.socketOf] at hsocket
    rw [hc.sessions, hs.tasks] at hopen
    exact isSome_lockTransport hsocket hopen
  alive r cs' hl' := by
    obtain ⟨cs, hl, hactive⟩ := hs.active r cs' hl'
    obtain ⟨cs₁, hl₁, hk⟩ := hc.alive r cs hl
    obtain rfl := Option.some.inj (hl₁.symm.trans hl')
    exact ⟨cs, hl, hk.session, fun hcon => ⟨hk.connected ▸ hcon, hk.keepAlive⟩, hactive⟩

/-- A step that changes the tables of sockets and of sessions. -/
theorem of_tables (hnow : ms'.now = ms.now) (hnext : ms.nextObj ≤ ms'.nextObj)
    (hheap : ms'.expiryHeap = ms.expiryHeap)
    (hsocket : ∀ id socket, ms'.socketOf id = some socket →
      ∃ clientId, ms.socketOf id = some (socket.1, clientId))
    (hsessions : ∀ fd id, ms'.sessions.lookup fd = some id → ms.sessions.lookup fd = some id)
    (htasks : ∀ id ∈ ms'.tasks, id ∈ ms.tasks)
    (halive : ∀ r cs', ms'.lock r = some cs' → ∃ cs, ms.lock r = some cs ∧ Lasts ms.now cs cs') :
    Onward ms ms' := by
  refine ⟨hnow.ge, hnext, hheap, died_of fun id fd clientId' _ hs hopen => ?_, halive⟩
  obtain ⟨clientId, hs⟩ := hsocket id _ hs
  exact isSome_lockTransport hs (hopen.imp (hsessions fd id) (htasks id))

theorem trans (h : Onward ms ms₁) (h' : Onward ms₁ ms') (hnow : ms₁.now = ms.now) :
    Onward ms ms' where
  now := h.now.trans h'.now
  nextObj := h.nextObj.trans h'.nextObj
  expiryHeap := h'.expiryHeap.trans h.expiryHeap
  died id hid hdead := h'.died id (hid.trans_le h.nextObj) (h.died id hid hdead)
  alive r cs₂ hl₂ := by
    obtain ⟨cs₁, hl₁, hlasts'⟩ := h'.alive r cs₂ hl₂
    obtain ⟨cs, hl, hlasts⟩ := h.alive r cs₁ hl₁
    refine ⟨cs, hl, hlasts'.session.trans hlasts.session, fun hcon => ?_, ?_⟩
    · obtain ⟨hcon₁, hk₁⟩ := hlasts'.connected hcon
      obtain ⟨hcon₀, hk₀⟩ := hlasts.connected hcon₁
      exact ⟨hcon₀, hk₁.trans hk₀⟩
    · rcases hlasts'.lastActivity with he | he
      · rw [he]
        exact hlasts.lastActivity
      · exact .inr (he.trans hnow)

theorem endTask (id : ℕ) (ms : ManageSessions) : Onward ms (endTask id ms) :=
  of_tables rfl (le_refl _) rfl (fun _ socket hs => ⟨socket.2, hs⟩) (fun _ _ h => h)
    (fun _ hmem => List.mem_of_mem_erase hmem) fun _ cs h => ⟨cs, h, .refl _ cs⟩

theorem removeSession (fd : ℕ) (ms : ManageSessions) : Onward ms (ms.removeSession fd) := by
  refine of_tables rfl (le_refl _) rfl (fun _ socket hs => ⟨socket.2, hs⟩) ?_ (fun _ h => h)
    fun _ cs h => ⟨cs, h, .refl _ cs⟩
  intro fd' id hfd
  by_cases he : fd' = fd
  · rw [he] at hfd
    cases (AList.lookup_erase fd ms.sessions).symm.trans hfd
  · exact (AList.lookup_erase_ne he).symm.trans hfd

theorem addSession (fd : ℕ) (ms : ManageSessions) : Onward ms (ms.addSession fd) := by
  refine ⟨le_refl _, Nat.le_succ _, rfl, died_of ?_, fun r cs hl => ⟨cs, hl, .refl _ cs⟩⟩
  intro id fd' clientId hid hsocket hopen
  rw [socketOf_addSession, if_neg hid.ne] at hsocket
  refine isSome_lockTransport hsocket (hopen.imp_left fun hopen => ?_)
  by_cases he : fd' = fd
  · subst he
    rw [ManageSessions.addSession, AList.lookup_insert] at hopen
    exact absurd (Option.some.inj hopen) hid.ne'
  · exact (AList.lookup_insert_ne he).symm.trans hopen

/-- Bytes arrive on a live transport, and a task is queued for them. -/
theorem receive {id' : ℕ} (data : Bytes) (hlock : ms.lockTransport (some id) = some id') :
    Onward ms
      { setTransport id (fun t => { t with recvBuff := t.recvBuff ++ data }) ms with
        tasks := (setTransport id (fun t => { t with recvBuff := t.recvBuff ++ data }) ms).tasks ++
          [id] } := by
  have hcalm : Calm none [] ms
      (setTransport id (fun t => { t with recvBuff := t.recvBuff ++ data }) ms) :=
    .setTransport id fun _ => ⟨rfl, rfl⟩
  have hsocketOf := hcalm.socketOf
  rw [setTransport_eq] at hsocketOf ⊢
  refine ⟨le_refl _, le_refl _, rfl, died_of ?_, fun r cs hl => ⟨cs, hl, .refl _ cs⟩⟩
  intro id₁ fd clientId _ hsocket hopen
  by_cases he : id₁ = id
  · rw [he, hlock]
    rfl
  · have hs₁ : ms.socketOf id₁ = some (fd, clientId) :=
      (congrFun hsocketOf id₁).symm.trans hsocket
    refine isSome_lockTransport hs₁ (hopen.imp_right fun hmem => ?_)
    exact (List.mem_append.1 hmem).resolve_right fun hmem => he (List.mem_singleton.1 hmem)

theorem forceDisconnect (id : ℕ) (ms : ManageSessions) : Onward ms (ms.forceDisconnect id) := by
  unfold ManageSessions.forceDisconnect
  cases ms.transports.lookup id with
  | none => exact refl ms
  | some t => exact removeSession t.fd ms

theorem purge (clientId : Bytes) (entry : Registered) (ms : ManageSessions) :
    Onward ms (purge clientId entry ms) := by
  unfold Culex.purge
  split_ifs
  · exact of_tables rfl (le_refl _) rfl (fun _ socket hs => ⟨socket.2, hs⟩) (fun _ _ h => h)
      (fun _ h => h) fun r cs hl => ⟨cs, lock_of_removeFromRegistry hl, .refl _ cs⟩
  · exact refl ms

/-- The end of a CONNECT. -/
theorem finishConnect (cn : Connect) (id : ℕ) (buff : Bytes) (ms : ManageSessions) :
    Onward ms (finishConnect cn id buff ms) := by
  unfold Culex.finishConnect
  split_ifs
  · refine of_tables ?_ ?_ ?_ ?_ ?_ ?_ ?_
    all_goals unfold ManageSessions.pushDataToSend ManageSessions.record
    · rw [setTransport_eq]
    · rw [setTransport_eq]
    · rw [setTransport_eq]
    · intro id' socket hs
      unfold setTransport ManageSessions.socketOf at hs
      cases hl : ms.transports.lookup id with
      | none =>
        simp only [hl] at hs
        exact ⟨socket.2, hs⟩
      | some t =>
        simp only [hl] at hs
        by_cases he : id' = id
        · rw [he, AList.lookup_insert] at hs
          obtain rfl := Option.some.inj hs
          exact ⟨t.clientId, by rw [ManageSessions.socketOf, he, hl]; rfl⟩
        · rw [AList.lookup_insert_ne he] at hs
          exact ⟨socket.2, hs⟩
    · rw [setTransport_eq]
      exact fun _ _ h => h
    · rw [setTransport_eq]
      exact fun _ h => h
    · rw [setTransport_eq]
      exact fun _ cs h => ⟨cs, h, .refl _ cs⟩
  · have hpush : Onward ms (ms.pushDataToSend id buff) :=
      of_tables rfl (le_refl _) rfl (fun _ socket hs => ⟨socket.2, hs⟩) (fun _ _ h => h)
        (fun _ h => h) fun _ cs h => ⟨cs, h, .refl _ cs⟩
    exact hpush.trans (forceDisconnect id _) rfl

/-- Disconnecting the old session of a client closes its socket at most. -/
theorem sessions_evictedBy {fd : ℕ} (h : (evictedBy cn ms).lookup fd = some id) :
    ms.sessions.lookup fd = some id := by
  unfold evictedBy evicted at h
  cases hl : ms.sessionRegistry.lookup cn.clientId with
  | none =>
    rw [hl] at h
    exact h
  | some entry =>
    simp only [hl] at h
    split_ifs at h
    · cases ht : ms.lockTransport entry.state.session with
      | none =>
        rw [ht] at h
        exact h
      | some t =>
        simp only [ht, sessions_forceDisconnect] at h
        cases hs : ms.socketOf t with
        | none =>
          rw [hs] at h
          exact h
        | some socket =>
          simp only [hs] at h
          by_cases he : fd = socket.1
          · rw [he, AList.lookup_erase] at h
            cases h
          · rwa [AList.lookup_erase_ne he] at h
    · exact h

/-- The state in which a new session is created. -/
theorem vacated (cn : Connect) (ms : ManageSessions) : Onward ms (vacated cn ms) := by
  have hlookup := fun r : SessionRef => @lookup_vacated ms cn r.clientId
  have hsessions := @sessions_vacated ms cn
  rw [vacated_eq] at hlookup hsessions ⊢
  refine of_tables rfl (Nat.le_succ _) rfl (fun _ socket hs => ⟨socket.2, hs⟩) ?_ (fun _ h => h) ?_
  · intro fd id hfd
    rw [hsessions] at hfd
    exact sessions_evictedBy hfd
  · intro r cs hl
    have hl' := lock_eq_some_iff.1 hl
    rw [hlookup] at hl'
    split_ifs at hl'
    exact ⟨cs, lock_eq_some_iff.2 hl', .refl _ cs⟩

/-- A CONNECT that resumes a session. -/
theorem resumed (hl : ms.sessionRegistry.lookup cn.clientId = some entry)
    (hrenews : ¬ Renews ms cn)
    (hres : resendPending p entry.state (takeOver ⟨cn.clientId, entry.obj⟩ entry.state ms).1 =
      .ok ms') :
    Onward ms (ms'.setSession ⟨cn.clientId, entry.obj⟩ (resumedSession cn entry.state)) := by
  have hconnects : Connects cn 0 ms _ := .resumed hrenews hl hres
  have heq := takeOver_eq ⟨cn.clientId, entry.obj⟩ entry.state ms
  obtain ⟨log, hms', -⟩ := resendPending_calls hres
  rw [heq] at hms'
  refine of_tables ?_ ?_ ?_ ?_ ?_ ?_ ?_
  · rw [setSession_eq, hms']
  · rw [setSession_eq, hms']
  · rw [setSession_eq, hms']
  · intro id socket hs
    rw [hconnects.socketOf] at hs
    exact ⟨socket.2, hs⟩
  · intro fd id hfd
    rw [hconnects.sessions] at hfd
    exact sessions_evictedBy hfd
  · intro id hmem
    rwa [hconnects.tasks] at hmem
  · intro r cs' hl'
    by_cases hc : r.clientId = cn.clientId
    · have hreg := hc ▸ lock_eq_some_iff.1 hl'
      rw [hconnects.client, registration, if_neg hrenews, hl, Option.map_some,
        Option.some.injEq, Registered.mk.injEq] at hreg
      obtain ⟨hobj, rfl⟩ := hreg
      refine ⟨entry.state, ?_, rfl, fun hcon => Bool.noConfusion hcon, .inl rfl⟩
      rw [lock_eq_some_iff, hc, hl, ← hobj]
    · exact ⟨cs', (lock_of_connects hconnects hc).symm.trans hl', .refl _ cs'⟩

end Onward

/-! ### Registering a session -/

/-- What registering and scheduling a new session does. -/
structure Registers (r : SessionRef) (cn : Connect) (id : ℕ) (ms ms' : ManageSessions) :
    Prop where
  lock : ∀ r' cs, ms'.lock r' = some cs →
    r' = r ∧ cs = (newSession cn id ms.now).expiring ∨ r' ≠ r ∧ ms.lock r' = some cs
  entries : ms'.expiryHeap.entries.Perm
    ((if cn.keepAlive = 0 then [] else [⟨expiryOf (newSession cn id ms.now), r⟩]) ++
      ms.expiryHeap.entries)
  nextObj : ms'.nextObj = ms.nextObj
  now : ms'.now = ms.now
  lockTransport : ms'.lockTransport = ms.lockTransport

theorem registers_scheduleExpiry (p : Platform) (r : SessionRef) (cn : Connect) (id : ℕ)
    (ms : ManageSessions) : Registers r cn id ms
      (scheduleExpiry p r (ms.addToRegistry r (newSession cn id ms.now))) := by
  set ms₁ := ms.addToRegistry r (newSession cn id ms.now) with hms₁
  have hl₁ : ms₁.lock r = some (newSession cn id ms.now) := by
    rw [lock_eq_some_iff, lookup_addToRegistry, if_pos rfl]
  constructor
  case lock =>
    intro r' cs hl
    rw [lock_scheduleExpiry, hl₁] at hl
    split_ifs at hl with he
    · exact .inl ⟨he, (Option.some.inj hl).symm⟩
    · refine .inr ⟨he, ?_⟩
      have hl' := lock_eq_some_iff.1 hl
      rw [lookup_addToRegistry] at hl'
      split_ifs at hl' with hc
      · cases (lock_eq_none_of_ne hl₁ he hc).symm.trans hl
      · exact lock_eq_some_iff.2 hl'
  case entries =>
    have hdeadline : ms₁.deadline r = if cn.keepAlive = 0 then none else
        some ⟨expiryOf (newSession cn id ms.now), r⟩ := by
      rw [deadline, hl₁]
      rfl
    have hperm : (scheduleExpiry p r ms₁).expiryHeap.entries.Perm
        ((ms₁.deadline r).toList ++ ms.expiryHeap.entries) := entries_scheduleExpiry
    rw [hdeadline] at hperm
    split_ifs at hperm ⊢
    · exact hperm
    · exact hperm
  all_goals rw [scheduleExpiry_eq]
  case nextObj => rfl
  case now => rfl
  case lockTransport => exact lockTransport_congr rfl rfl rfl

theorem Registers.mem_entries (h : Registers r cn id ms ms') {e : ExpiryEntry} :
    e ∈ ms'.expiryHeap.entries ↔
      cn.keepAlive ≠ 0 ∧ e = ⟨expiryOf (newSession cn id ms.now), r⟩ ∨
        e ∈ ms.expiryHeap.entries := by
  rw [h.entries.mem_iff, List.mem_append]
  refine or_congr_left ?_
  split_ifs with hk
  · simp [hk]
  · simp [hk]

/-! ### The invariant -/

namespace Timed

theorem init : Timed {} where
  unique := List.nodup_nil
  allocated e he := absurd he List.not_mem_nil
  active r cs hl := by cases hl
  owned r cs id hl := by cases hl
  covered r cs hl := by cases hl
  keepAlive e he := absurd he List.not_mem_nil

theorem onward (h : Timed ms) (ho : Onward ms ms') : Timed ms' where
  unique := by
    rw [ho.expiryHeap]
    exact h.unique
  allocated e he := by
    rw [ho.expiryHeap] at he
    exact (h.allocated e he).trans_le ho.nextObj
  active r cs' hl' := by
    obtain ⟨cs, hl, hlasts⟩ := ho.alive r cs' hl'
    refine le_trans ?_ ho.now
    rcases hlasts.lastActivity with he | he
    · rw [he]
      exact h.active r cs hl
    · exact he.le
  owned r cs' id hl' hs := by
    obtain ⟨cs, hl, hlasts⟩ := ho.alive r cs' hl'
    exact (h.owned r cs id hl (hlasts.session.symm.trans hs)).trans_le ho.nextObj
  covered r cs' hl' hcon' hk' halive' := by
    obtain ⟨cs, hl, hlasts⟩ := ho.alive r cs' hl'
    obtain ⟨hcon, hk⟩ := hlasts.connected hcon'
    have halive : (ms.lockTransport cs.session).isSome := by
      by_contra hdead
      rw [Option.not_isSome_iff_eq_none] at hdead
      rw [hlasts.session] at halive'
      cases hs : cs.session with
      | none =>
        rw [hs] at halive'
        cases halive'
      | some id =>
        rw [hs] at hdead halive'
        rw [ho.died id (h.owned r cs id hl hs) hdead] at halive'
        cases halive'
    obtain ⟨e, he, hr, hle⟩ := h.covered r cs hl hcon (hk ▸ hk') halive
    refine ⟨e, ho.expiryHeap ▸ he, hr, hle.trans ?_⟩
    -- activity moves the time on
    have hactive : cs.lastActivity ≤ cs'.lastActivity := by
      rcases hlasts.lastActivity with he | he
      · exact he.ge
      · rw [he]
        exact h.active r cs hl
    unfold expiryOf
    rw [hk]
    omega
  keepAlive e he cs' hl' hcon' := by
    rw [ho.expiryHeap] at he
    obtain ⟨cs, hl, hlasts⟩ := ho.alive _ cs' hl'
    obtain ⟨hcon, hk⟩ := hlasts.connected hcon'
    rw [hk]
    exact h.keepAlive e he cs hl hcon

/-- A new session is registered and scheduled. -/
theorem register (h : Timed ms) (hreg : Registers r cn id ms ms')
    (hnew : ∀ e ∈ ms.expiryHeap.entries, e.session.obj ≠ r.obj) (hr : r.obj < ms.nextObj)
    (hid : id < ms.nextObj) : Timed ms' := by
  have hsame := expiring_eq (newSession cn id ms.now)
  constructor
  case unique =>
    rw [(hreg.entries.map _).nodup_iff]
    split_ifs
    · exact h.unique
    · refine List.nodup_cons.2 ⟨fun hmem => ?_, h.unique⟩
      obtain ⟨e, he, hobj⟩ := List.mem_map.1 hmem
      exact hnew e he hobj
  case allocated =>
    intro e he
    rw [hreg.nextObj]
    rcases hreg.mem_entries.1 he with ⟨-, rfl⟩ | he
    · exact hr
    · exact h.allocated e he
  case active =>
    intro r' cs hl
    rw [hreg.now]
    rcases hreg.lock r' cs hl with ⟨-, rfl⟩ | ⟨-, hl⟩
    · rw [hsame]
      exact le_refl _
    · exact h.active r' cs hl
  case owned =>
    intro r' cs id' hl hs
    rw [hreg.nextObj]
    rcases hreg.lock r' cs hl with ⟨-, rfl⟩ | ⟨-, hl⟩
    · rw [hsame] at hs
      exact Option.some.inj hs ▸ hid
    · exact h.owned r' cs id' hl hs
  case covered =>
    intro r' cs hl hcon hk halive
    rcases hreg.lock r' cs hl with ⟨rfl, rfl⟩ | ⟨hne, hl⟩
    · rw [hsame] at hk ⊢
      exact ⟨_, hreg.mem_entries.2 (.inl ⟨hk, rfl⟩), rfl, le_refl _⟩
    · rw [hreg.lockTransport] at halive
      obtain ⟨e, he, hr', hle⟩ := h.covered r' cs hl hcon hk halive
      exact ⟨e, hreg.mem_entries.2 (.inr he), hr', hle⟩
  case keepAlive =>
    intro e he cs hl hcon
    rcases hreg.lock _ cs hl with ⟨hr', rfl⟩ | ⟨hne, hl⟩
    · rw [hsame]
      rcases hreg.mem_entries.1 he with ⟨hk, -⟩ | he
      · exact hk
      · exact absurd (congrArg _ hr') (hnew e he)
    · rcases hreg.mem_entries.1 he with ⟨-, rfl⟩ | he
      · exact absurd rfl hne
      · exact h.keepAlive e he cs hl hcon

/-! ### The sweep -/

section Expiring

variable {popped : List ExpiryEntry} {heap : MinHeap ExpiryEntry.expiryMs}

theorem nodup_popped (h : Timed ms) (hc : Collects ms popped heap) :
    ((popped.map ExpiryEntry.session).map SessionRef.obj).Nodup ∧
      ∀ e ∈ popped, ∀ e' ∈ heap.entries, e.session.obj ≠ e'.session.obj := by
  have hunique := h.unique
  rw [(hc.perm.map _).nodup_iff, List.map_append, List.nodup_append] at hunique
  refine ⟨?_, fun e he e' he' => ?_⟩
  · rw [List.map_map]
    exact hunique.1
  · exact hunique.2.2 _ (List.mem_map_of_mem he) _ (List.mem_map_of_mem he')

theorem nodup_toDisconnect (h : Timed ms) (hc : Collects ms popped heap) :
    (sweepOf ms popped).toDisconnect.Nodup :=
  (List.Nodup.of_map _ (h.nodup_popped hc).1).filter _

/-- A session that expires, and whose transport is alive, is popped by the sweep. -/
theorem popped_of_due (h : Timed ms) (hc : Collects ms popped heap) (hl : ms.lock r = some cs)
    (hcon : cs.connected = true) (hk : cs.keepAlive ≠ 0)
    (halive : (ms.lockTransport cs.session).isSome) (hdue : expiryOf cs ≤ ms.now) :
    r ∈ (sweepOf ms popped).toDisconnect := by
  obtain ⟨e, he, rfl, hle⟩ := h.covered r cs hl hcon hk halive
  have hpopped : e ∈ popped := by
    rw [hc.perm.mem_iff, List.mem_append] at he
    refine he.resolve_right fun hrest => ?_
    have hlate := hc.rest e hrest
    omega
  exact List.mem_filter.2 ⟨List.mem_map_of_mem hpopped, lapsed_eq_true_iff.2 ⟨cs, hl, hcon, hdue⟩⟩

theorem entries_expires (h : Timed ms) (hs : Expires p ms popped heap ms') :
    (ms'.expiryHeap.entries.map fun e => e.session.obj).Nodup ∧
      ∀ e ∈ ms'.expiryHeap.entries, ∃ e₀ ∈ ms.expiryHeap.entries, e₀.session = e.session := by
  obtain ⟨hnodup, hdisjoint⟩ := h.nodup_popped hs.collects
  have hnew : ∀ e ∈ (sweepOf ms popped).newEntries.filterMap ms.deadline,
      ∃ e₀ ∈ popped, e₀.session = e.session := by
    intro e he
    obtain ⟨r, hr, hd⟩ := List.mem_filterMap.1 he
    obtain ⟨e₀, he₀, rfl⟩ := List.mem_map.1 (List.mem_filter.1 hr).1
    obtain ⟨cs, -, -, rfl⟩ := deadline_eq_some_iff.1 hd
    exact ⟨e₀, he₀, rfl⟩
  constructor
  · rw [(hs.entries.map _).nodup_iff, List.map_append, List.nodup_append]
    refine ⟨?_, ?_, ?_⟩
    · have hpairwise : ((sweepOf ms popped).newEntries).Pairwise fun r r' => r.obj ≠ r'.obj :=
        List.pairwise_map.1 (hnodup.sublist (List.filter_sublist.map _))
      unfold List.Nodup
      rw [List.pairwise_map, List.pairwise_filterMap]
      refine hpairwise.imp fun {r r'} hne e hd e' hd' => ?_
      obtain ⟨cs, -, -, rfl⟩ := deadline_eq_some_iff.1 hd
      obtain ⟨cs', -, -, rfl⟩ := deadline_eq_some_iff.1 hd'
      exact hne
    · have hunique := h.unique
      rw [(hs.collects.perm.map _).nodup_iff, List.map_append, List.nodup_append] at hunique
      exact hunique.2.1
    · intro obj hobj obj' hobj'
      obtain ⟨e, he, rfl⟩ := List.mem_map.1 hobj
      obtain ⟨e', he', rfl⟩ := List.mem_map.1 hobj'
      obtain ⟨e₀, he₀, hsame⟩ := hnew e he
      rw [← hsame]
      exact hdisjoint e₀ he₀ e' he'
  · intro e he
    rw [hs.entries.mem_iff, List.mem_append] at he
    rcases he with he | he
    · obtain ⟨e₀, he₀, hsame⟩ := hnew e he
      exact ⟨e₀, hs.collects.perm.mem_iff.2 (List.mem_append_left _ he₀), hsame⟩
    · exact ⟨e, hs.collects.perm.mem_iff.2 (List.mem_append_right _ he), rfl⟩

/-- What is alive after the sweep was alive before. -/
theorem lockTransport_expires (h : Timed ms) (hs : Expires p ms popped heap ms') (id : ℕ)
    (halive : (ms'.lockTransport (some id)).isSome) : (ms.lockTransport (some id)).isSome := by
  obtain ⟨id', fd, clientId, he, hsocket, hopen⟩ :=
    (hs.isSome_lockTransport (h.nodup_toDisconnect hs.collects)).1 halive
  obtain rfl := Option.some.inj he
  exact Culex.isSome_lockTransport hsocket (hopen.symm.imp_left And.left)

/-- A session that is connected after the sweep, and whose transport is alive, was not due. -/
theorem lt_expiryOf_of_connected (h : Timed ms)
    (hs : Expires p ms popped heap ms') (hl : ms.lock r = some cs) (hl' : ms'.lock r = some cs')
    (hcon' : cs'.connected = true) (hk : cs.keepAlive ≠ 0) (hid : cs.session = some id)
    (halive' : (ms'.lockTransport (some id)).isSome) : ms.now < expiryOf cs := by
  by_contra hdue
  obtain ⟨_, hl₀, hswept⟩ := hs.sweeps.alive r cs' hl'
  obtain rfl := Option.some.inj (hl.symm.trans hl₀)
  have halive := h.lockTransport_expires hs id halive'
  have hmem := h.popped_of_due hs.collects hl (hswept.connected hcon') hk (hid ▸ halive)
    (not_lt.1 hdue)
  have hn := h.nodup_toDisconnect hs.collects
  obtain ⟨earlier, later, hsplit⟩ := List.append_of_mem hmem
  obtain ⟨id', fd, clientId, he', hsocket, hopen⟩ := (hs.isSome_lockTransport hn).1 halive'
  -- so it was disconnected
  have hgone := (hs.lock_disconnected hn hsplit hl).1
    ⟨id', fd, clientId, hid.trans he', hsocket, hopen.imp_right fun hopen =>
      ⟨hopen.1, fun r hr => hopen.2 r (hsplit ▸ List.mem_append_left _ hr)⟩⟩
  rw [hl'] at hgone
  split_ifs at hgone
  rw [Option.some.inj hgone] at hcon'
  cases hcon'

/-- **The sweep keeps the invariant.** -/
theorem sweep (h : Timed ms) (hs : Expires p ms popped heap ms') : Timed ms' where
  unique := (h.entries_expires hs).1
  allocated e he := by
    obtain ⟨e₀, he₀, hsame⟩ := (h.entries_expires hs).2 e he
    rw [hs.sweeps.eq, ← hsame]
    exact h.allocated e₀ he₀
  active r cs' hl' := by
    obtain ⟨cs, hl, hswept⟩ := hs.sweeps.alive r cs' hl'
    rw [hs.sweeps.eq, hswept.eq]
    exact h.active r cs hl
  owned r cs' id hl' hid := by
    obtain ⟨cs, hl, hswept⟩ := hs.sweeps.alive r cs' hl'
    rw [hswept.eq] at hid
    rw [hs.sweeps.eq]
    exact h.owned r cs id hl hid
  covered r cs' hl' hcon' hk' halive' := by
    obtain ⟨cs, hl, hswept⟩ := hs.sweeps.alive r cs' hl'
    have hcon := hswept.connected hcon'
    have hexpiry : expiryOf cs' = expiryOf cs := by rw [hswept.eq]; rfl
    have hsession : cs'.session = cs.session := by rw [hswept.eq]
    have hk : cs.keepAlive ≠ 0 := by
      rw [hswept.eq] at hk'
      exact hk'
    obtain ⟨id, hid⟩ : ∃ id, cs.session = some id := by
      cases hid : cs.session with
      | none =>
        rw [hsession, hid] at halive'
        cases halive'
      | some id => exact ⟨id, rfl⟩
    rw [hsession, hid] at halive'
    have halive := h.lockTransport_expires hs id halive'
    obtain ⟨e, he, rfl, hle⟩ := h.covered r cs hl hcon hk (hid ▸ halive)
    rw [hexpiry]
    rw [hs.collects.perm.mem_iff, List.mem_append] at he
    rcases he with he | he
    · have hahead := h.lt_expiryOf_of_connected hs hl hl' hcon' hk hid halive'
      refine ⟨⟨expiryOf cs, e.session⟩, ?_, rfl, le_refl _⟩
      have hnew : e.session ∈ (sweepOf ms popped).newEntries :=
        List.mem_filter.2 ⟨List.mem_map_of_mem he, fresh_eq_true_iff.2 ⟨cs, hl, hahead⟩⟩
      have hdeadline : ms.deadline e.session = some ⟨expiryOf cs, e.session⟩ :=
        deadline_eq_some_iff.2 ⟨cs, hl, hk, rfl⟩
      rw [hs.entries.mem_iff]
      exact List.mem_append_left _ (List.mem_filterMap.2 ⟨_, hnew, hdeadline⟩)
    · exact ⟨e, hs.entries.mem_iff.2 (List.mem_append_right _ he), rfl, hle⟩
  keepAlive e he cs' hl' hcon' := by
    obtain ⟨e₀, he₀, hsame⟩ := (h.entries_expires hs).2 e he
    obtain ⟨cs, hl, hswept⟩ := hs.sweeps.alive _ cs' hl'
    rw [hswept.eq]
    exact h.keepAlive e₀ he₀ cs (hsame ▸ hl) (hswept.connected hcon')

end Expiring

end Timed

/-! ### Events -/

/-- A packet is found in the buffer of a transport. -/
theorem socketOf_of_arrival {beyond : ByteReader.Mem} {id' : ℕ}
    (h : Event.arrival p (.parseData id beyond) ms = .packet id' packet) :
    id' = id ∧ ∃ socket, ms.socketOf id = some socket := by
  simp only [Event.arrival] at h
  split_ifs at h
  cases ht : ms.transports.lookup id with
  | none =>
    rw [ht] at h
    cases h
  | some t =>
    simp only [ht] at h
    refine ⟨?_, _, by rw [ManageSessions.socketOf, ht]; rfl⟩
    split at h
    · cases h
    · split_ifs at h
      exact (Arrival.packet.inj h).1.symm

theorem takeOut_onward (packet : Packet) (id : ℕ) (ms : ManageSessions) :
    Onward ms (takeOut packet id ms) := by
  have hcalm : Calm none [] ms (takeOut packet id ms) := takeOut_calm
  have hsocket := hcalm.socketOf
  unfold takeOut at hsocket ⊢
  rw [setTransport_eq] at hsocket ⊢
  refine .of_tables rfl (le_refl _) rfl (fun id socket hs => ⟨socket.2, ?_⟩) (fun _ _ h => h)
    (fun _ h => h) fun _ cs h => ⟨cs, h, .refl _ cs⟩
  rw [hsocket] at hs
  exact hs

/-- One of the moves that events consist of. -/
inductive Move (p : Platform) : ManageSessions → ManageSessions → Prop
  | onward {ms ms' : ManageSessions} (h : Onward ms ms') : Move p ms ms'
  | register {ms ms' : ManageSessions} {r : SessionRef} {cn : Connect} {id : ℕ}
    (h : Registers r cn id ms ms') (hnew : ∀ e ∈ ms.expiryHeap.entries, e.session.obj ≠ r.obj)
    (hr : r.obj < ms.nextObj) (hid : id < ms.nextObj) : Move p ms ms'
  | sweep {ms ms' : ManageSessions} {popped : List ExpiryEntry}
    {heap : MinHeap ExpiryEntry.expiryMs} (h : Expires p ms popped heap ms') : Move p ms ms'

/-- Several moves. -/
abbrev Movement (p : Platform) : ManageSessions → ManageSessions → Prop :=
  Relation.ReflTransGen (Move p)

namespace Movement

theorem onward (h : Onward ms ms') : Movement p ms ms' := .single (.onward h)

/-- A CONNECT vacates the client id and registers a new session, or resumes the old one. -/
theorem connect {handled : Handled} (h : Timed ms) (ha : TransportsAllocated ms)
    {socket : ℕ × Bytes} (hid : ms.socketOf id = some socket) (hp : packet.pkt = .connect cn)
    (hc : connectHandler p packet id ms = .ok handled) : Movement p ms handled.state := by
  by_cases hrenews : Renews ms cn
  · have hvacated : Onward ms (vacated cn ms) := .vacated cn ms
    by_cases hlevel : cn.level = 4
    · rw [connectHandler_new hp hrenews hlevel] at hc
      obtain rfl := Except.ok.inj hc
      have hlt := ha id socket hid
      refine (onward hvacated).tail ?_
      have hregister := @Move.register p _ _ _ _ _
        (registers_scheduleExpiry p ⟨cn.clientId, ms.nextObj⟩ cn id (vacated cn ms))
      rw [vacated_eq] at hregister ⊢
      exact hregister (fun e he => (h.allocated e he).ne) (Nat.lt_succ_self _) (hlt.trans_le
        (Nat.le_succ _))
    · rw [connectHandler_rejected hp hrenews hlevel] at hc
      obtain rfl := Except.ok.inj hc
      exact onward hvacated
  · obtain ⟨⟨entry, hl⟩, hclean⟩ := not_renews_iff.1 hrenews
    rw [connectHandler_resumed hp hl hclean] at hc
    cases hres : resendPending p entry.state
        (takeOver ⟨cn.clientId, entry.obj⟩ entry.state ms).1 with
    | error e =>
      rw [hres] at hc
      cases hc
    | ok ms₁ =>
      rw [hres] at hc
      obtain rfl := Except.ok.inj hc
      exact onward (.resumed hl hrenews hres)

end Movement

/-- **An event consists of moves.** -/
theorem Event.moves {e : Event} (h : Timed ms) (hs : Sound ms) (ha : TransportsAllocated ms)
    (happly : e.apply p ms = .ok ms') : Movement p ms ms' := by
  cases e with
  | newConnection fd =>
    obtain rfl := Except.ok.inj happly
    exact .onward (.addSession fd ms)
  | closeConnection fd =>
    obtain rfl := Except.ok.inj happly
    exact .onward (.removeSession fd ms)
  | receive id data =>
    simp only [Event.apply] at happly
    cases hlock : ms.lockTransport (some id) with
    | none =>
      rw [hlock] at happly
      obtain rfl := Except.ok.inj happly
      exact .refl
    | some id' =>
      rw [hlock] at happly
      obtain rfl := Except.ok.inj happly
      exact .onward (.receive data hlock)
  | parseData id beyond =>
    have hparses := parses_of_apply happly
    generalize harr : Event.arrival p (.parseData id beyond) ms = arrival at hparses
    cases hparses with
    | nothing => exact .onward (.endTask id ms)
    | @malformed entry hl =>
      have hpurge : Movement p ms _ := .onward (.purge (ms.getClientId id) entry ms)
      exact (hpurge.tail (.onward (.forceDisconnect id _))).tail (.onward (.endTask id _))
    | @packet pkt handled ms₁ hd hf =>
      obtain ⟨-, socket, hid⟩ := socketOf_of_arrival harr
      have htake : Onward ms (takeOut pkt id ms) := takeOut_onward pkt id ms
      have hcalm : Calm none [] ms (takeOut pkt id ms) := takeOut_calm
      have hs₁ : Sound (takeOut pkt id ms) := (Tame.setTransport _ _).sound hs
      have hmoves : Movement p ms (takeOut pkt id ms) := .onward htake
      refine hmoves.trans (.tail ?_ (.onward (.endTask id ms₁)))
      rcases dispatch_cases hs₁ hd hf with ⟨cn, -, hp, hhandle, rfl⟩ | ⟨⟨sub, log, hc⟩, hsteady, -⟩
      · have ha₁ : TransportsAllocated (takeOut pkt id ms) := by
          intro id' socket' hs'
          rw [hcalm.socketOf] at hs'
          exact (ha id' socket' hs').trans_eq hcalm.nextObj.symm
        have hconnect := Movement.connect (h.onward htake) ha₁
          ((congrFun hcalm.socketOf id).trans hid) hp hhandle
        exact hconnect.tail (.onward (.finishConnect cn id _ _))
      · exact Movement.onward (.of_calm hc hsteady)
  | processExpiredSessions =>
    obtain ⟨popped, heap, hexpires⟩ := processExpiredSessions_expires happly
    exact .single (.sweep hexpires)
  | processRetransmissions =>
    obtain ⟨log, hcalm⟩ : ∃ log, Calm none log ms ms' := retransmitLoop_calm hs happly
    exact .onward (.of_calm hcalm (retransmitLoop_steady hs happly))
  | tick elapsed =>
    obtain rfl := Except.ok.inj happly
    refine .onward ⟨?_, le_refl _, rfl, fun _ _ h => h, fun _ cs h => ⟨cs, h, .refl _ cs⟩⟩
    exact Int.le_add_of_nonneg_right (Int.natCast_nonneg elapsed)

/-- A move keeps the invariant. -/
theorem Timed.move (h : Timed ms) (hm : Move p ms ms') : Timed ms' := by
  cases hm with
  | onward ho => exact h.onward ho
  | register hreg hnew hr hid => exact h.register hreg hnew hr hid
  | sweep hs => exact h.sweep hs

/-- What every move keeps, several moves keep. -/
theorem Timed.moves {I : ManageSessions → Prop} (h : Timed ms) (hms : I ms)
    (hstep : ∀ ms ms', Timed ms → I ms → Move p ms ms' → I ms') (hm : Movement p ms ms') :
    Timed ms' ∧ I ms' := by
  induction hm with
  | refl => exact ⟨h, hms⟩
  | tail _ hm ih => exact ⟨ih.1.move hm, hstep _ _ ih.1 ih.2 hm⟩

/-- What holds at the start and over every move holds of every reachable state. -/
theorem Reachable.of_move {I : ManageSessions → Prop} (h : Reachable p ms) (hinit : I {})
    (hstep : ∀ ms ms', Timed ms → I ms → Move p ms ms' → I ms') : Timed ms ∧ I ms := by
  have hall : Reachable p ms ∧ Timed ms ∧ I ms := by
    refine h.invariant (I := fun ms => Reachable p ms ∧ Timed ms ∧ I ms) ⟨.init, .init, hinit⟩
      fun ms e ms' hms happly => ⟨hms.1.step happly, ?_⟩
    have hmoves := e.moves hms.2.1 hms.1.sound hms.1.transportsAllocated happly
    exact hms.2.1.moves hms.2.2 hstep hmoves
  exact hall.2

/-- **The invariant holds of every reachable state.** -/
theorem Reachable.timed (h : Reachable p ms) : Timed ms :=
  (h.of_move (I := fun _ => True) trivial fun _ _ _ _ _ => trivial).1

end Culex
