import Culex.Evolving

/-!
# Sessions and the transports they are bound to

A connected session should have a transport of its own: one in the table of sockets, with the
session's client id (`Bound`).  Sockets that close leave their session connected, a second CONNECT
on a transport takes it from its first client, and a client that connects again on its own transport
closes it.

* `Safe`: the kinds of events that do none of this to a connected session;
* `Change.bound_iff`: exactly they keep the binding;
* `bound_of_safe`: so it holds over every run of such events.
-/

namespace Culex

open ManageSessions

/-- Every connected session is bound to a transport of its own. -/
structure Bound (ms : ManageSessions) : Prop where
  /-- Its transport is present and has its client id. -/
  transport : ∀ clientId entry, ms.sessionRegistry.lookup clientId = some entry →
    entry.state.connected = true → ∃ id fd, entry.state.session = some id ∧
      ms.socketOf id = some (fd, clientId) ∧ ms.sessions.lookup fd = some id
  /-- No two of them share it. -/
  unshared : ∀ clientId entry clientId' entry', ms.sessionRegistry.lookup clientId = some entry →
    ms.sessionRegistry.lookup clientId' = some entry' → entry.state.connected = true →
      entry'.state.connected = true → entry.state.session = entry'.state.session →
        clientId = clientId'

/-- A connected client's pointer to its transport. -/
def ManageSessions.binding (ms : ManageSessions) (clientId : Bytes) : Option (Option ℕ) :=
  (ms.sessionRegistry.lookup clientId).bind fun entry =>
    if entry.state.connected then some entry.state.session else none

/-- A transport is present, and is the client's. -/
def Present (ms : ManageSessions) (clientId : Bytes) (id : ℕ) : Prop :=
  ∃ fd, ms.socketOf id = some (fd, clientId) ∧ ms.sessions.lookup fd = some id

/-- A socket has the transport of a connected client. -/
def Occupied (ms : ManageSessions) (fd : ℕ) (clientId : Bytes) : Prop :=
  ∃ id, ms.binding clientId = some (some id) ∧ ms.socketOf id = some (fd, clientId) ∧
    ms.sessions.lookup fd = some id

/-- The kinds of events that leave every connected client a transport of its own. -/
def Safe (ms : ManageSessions) : Kind → Prop
  | .calm _ => True
  | .newConnection fd => ∀ clientId, ¬ Occupied ms fd clientId
  | .closeConnection fd => ∀ clientId, ¬ Occupied ms fd clientId
  | .malformed id => ∀ socket, ms.socketOf id = some socket → ∀ clientId,
      Occupied ms socket.1 clientId → clientId = socket.2 ∧
        ∀ entry, ms.sessionRegistry.lookup clientId = some entry → entry.state.cleansession = true
  | .connect id cn =>
    if cn.level = 4 then
      -- no other client has the transport, and a new session finds it open
      (∀ clientId, ms.binding clientId = some (some id) → clientId = cn.clientId) ∧
        (Renews ms cn → (∃ clientId, Present ms clientId id) ∧
          ms.binding cn.clientId ≠ some (some id))
    else
      ∀ socket, ms.socketOf id = some socket → ∀ clientId, Occupied ms socket.1 clientId →
        clientId = cn.clientId
  | .expire => True

variable {p : Platform} {ms ms' ms₁ : ManageSessions} {clientId : Bytes} {id fd : ℕ}
  {entry : Registered} {r : SessionRef} {cs cs' : ClientSession} {cn : Connect}

/-! ### The binding of clients -/

theorem binding_eq_some_iff {transport : Option ℕ} :
    ms.binding clientId = some transport ↔ ∃ entry,
      ms.sessionRegistry.lookup clientId = some entry ∧ entry.state.connected = true ∧
        entry.state.session = transport := by
  unfold ManageSessions.binding
  rw [Option.bind_eq_some_iff]
  refine exists_congr fun entry => and_congr_right fun _ => ?_
  split_ifs with hc
  · simp [hc]
  · simp [hc]

/-- The two parts of `Bound` are one. -/
theorem bound_iff_binding : Bound ms ↔ ∀ clientId transport,
    ms.binding clientId = some transport → ∃ id, transport = some id ∧ Present ms clientId id := by
  constructor
  · intro h clientId transport hb
    obtain ⟨entry, hl, hc, rfl⟩ := binding_eq_some_iff.1 hb
    obtain ⟨id, fd, hs, hsocket, hfd⟩ := h.transport clientId entry hl hc
    exact ⟨id, hs, fd, hsocket, hfd⟩
  · intro h
    constructor
    · intro clientId entry hl hc
      obtain ⟨id, hs, fd, hsocket, hfd⟩ := h clientId _ (binding_eq_some_iff.2 ⟨entry, hl, hc, rfl⟩)
      exact ⟨id, fd, hs, hsocket, hfd⟩
    · intro clientId entry clientId' entry' hl hl' hc hc' hs
      obtain ⟨id, hid, fd, hsocket, -⟩ :=
        h clientId _ (binding_eq_some_iff.2 ⟨entry, hl, hc, rfl⟩)
      obtain ⟨id', hid', fd', hsocket', -⟩ :=
        h clientId' _ (binding_eq_some_iff.2 ⟨entry', hl', hc', rfl⟩)
      obtain rfl : id = id' := Option.some.inj (hid.symm.trans (hs.trans hid'))
      exact congrArg Prod.snd (Option.some.inj (hsocket.symm.trans hsocket'))

theorem binding_congr
    (h : ms'.sessionRegistry.lookup clientId = ms.sessionRegistry.lookup clientId) :
    ms'.binding clientId = ms.binding clientId := by
  unfold ManageSessions.binding
  rw [h]

theorem binding_of_lookup (hl : ms.sessionRegistry.lookup clientId = some entry) :
    ms.binding clientId = if entry.state.connected then some entry.state.session else none := by
  rw [ManageSessions.binding, hl, Option.bind_some]

theorem binding_of_lookup_eq_none (hl : ms.sessionRegistry.lookup clientId = none) :
    ms.binding clientId = none := by
  rw [ManageSessions.binding, hl, Option.bind_none]

theorem Calm.binding {sub : Option SessionRef} {log : List Call} (h : Calm sub log ms ms') :
    ms'.binding clientId = ms.binding clientId := by
  cases hl : ms.sessionRegistry.lookup clientId with
  | none =>
    rw [binding_of_lookup_eq_none hl]
    cases hl' : ms'.sessionRegistry.lookup clientId with
    | none => exact binding_of_lookup_eq_none hl'
    | some entry' =>
      have hdead := h.dead ⟨clientId, entry'.obj⟩ (lock_eq_none_of_lookup hl)
      cases hdead.symm.trans (lock_of_lookup hl')
  | some entry =>
    obtain ⟨cs', hl', hk⟩ := h.alive _ _ (lock_of_lookup hl)
    rw [binding_of_lookup hl, binding_of_lookup (lock_eq_some_iff.1 hl'), hk.connected, hk.session]

/-! ### Closing sockets -/

theorem Bound.present (h : Bound ms) {transport : Option ℕ}
    (hb : ms.binding clientId = some transport) :
    ∃ id fd, transport = some id ∧ ms.socketOf id = some (fd, clientId) ∧
      ms.sessions.lookup fd = some id := by
  obtain ⟨id, rfl, fd, hsocket, hfd⟩ := bound_iff_binding.1 h clientId transport hb
  exact ⟨id, fd, rfl, hsocket, hfd⟩

/-- A socket has one client. -/
theorem Occupied.unique {clientId' : Bytes} (h : Occupied ms fd clientId)
    (h' : Occupied ms fd clientId') : clientId = clientId' := by
  obtain ⟨id, -, hsocket, hfd⟩ := h
  obtain ⟨id', -, hsocket', hfd'⟩ := h'
  obtain rfl := Option.some.inj (hfd.symm.trans hfd')
  exact congrArg Prod.snd (Option.some.inj (hsocket.symm.trans hsocket'))

/-- Between `ms` and `ms'` the sockets `C` have been closed, and the clients `G` have gone. -/
structure Closes (C : ℕ → Prop) (G : Bytes → Prop) (ms ms' : ManageSessions) : Prop where
  socketOf : ms'.socketOf = ms.socketOf
  closed : ∀ fd, C fd → ms'.sessions.lookup fd = none
  opened : ∀ fd, ¬ C fd → ms'.sessions.lookup fd = ms.sessions.lookup fd
  gone : ∀ clientId, G clientId → ms'.binding clientId = none
  stayed : ∀ clientId, ¬ G clientId → ms'.binding clientId = ms.binding clientId

section Closing

variable {C D : ℕ → Prop} {G H : Bytes → Prop}

/-- The binding is kept exactly if no client that has stayed was served on a closed socket. -/
theorem Closes.bound_iff (hc : Closes C G ms ms') (h : Bound ms) :
    Bound ms' ↔ ∀ fd clientId, C fd → Occupied ms fd clientId → G clientId := by
  constructor
  · rintro h' fd clientId hfd ⟨id, hb, hid, hlookup⟩
    by_contra hnot
    obtain ⟨id', fd', he, hid', hfd'⟩ := h'.present ((hc.stayed clientId hnot).trans hb)
    obtain rfl := Option.some.inj he
    rw [hc.socketOf, hid] at hid'
    obtain ⟨rfl, -⟩ := Prod.mk.inj (Option.some.inj hid')
    rw [hc.closed fd hfd] at hfd'
    cases hfd'
  · intro hcond
    rw [bound_iff_binding]
    intro clientId transport hb
    by_cases hg : G clientId
    · rw [hc.gone clientId hg] at hb
      cases hb
    · rw [hc.stayed clientId hg] at hb
      obtain ⟨id, fd, rfl, hid, hfd⟩ := h.present hb
      have hfree : ¬ C fd := fun hclosed => hg (hcond fd clientId hclosed ⟨id, hb, hid, hfd⟩)
      exact ⟨id, rfl, fd, (congrFun hc.socketOf id).trans hid, (hc.opened fd hfree).trans hfd⟩

theorem Closes.trans (h : Closes C G ms ms₁) (h' : Closes D H ms₁ ms') :
    Closes (fun fd => C fd ∨ D fd) (fun clientId => G clientId ∨ H clientId) ms ms' where
  socketOf := h'.socketOf.trans h.socketOf
  closed fd hfd := by
    by_cases hd : D fd
    · exact h'.closed fd hd
    · exact (h'.opened fd hd).trans (h.closed fd (hfd.resolve_right hd))
  opened fd hfd := by
    rw [not_or] at hfd
    exact (h'.opened fd hfd.2).trans (h.opened fd hfd.1)
  gone clientId hg := by
    by_cases hh : H clientId
    · exact h'.gone clientId hh
    · exact (h'.stayed clientId hh).trans (h.gone clientId (hg.resolve_right hh))
  stayed clientId hg := by
    rw [not_or] at hg
    exact (h'.stayed clientId hg.2).trans (h.stayed clientId hg.1)

/-- Nothing is closed where the tables and the bindings stay. -/
theorem Closes.nothing (hsocket : ms'.socketOf = ms.socketOf)
    (hsessions : ms'.sessions = ms.sessions)
    (hbinding : ∀ clientId, ms'.binding clientId = ms.binding clientId) :
    Closes (fun _ => False) (fun _ => False) ms ms' where
  socketOf := hsocket
  closed _ hfalse := hfalse.elim
  opened _ _ := by rw [hsessions]
  gone _ hfalse := hfalse.elim
  stayed clientId _ := hbinding clientId

theorem removeSession_closes (fd : ℕ) :
    Closes (fun fd' => fd' = fd) (fun _ => False) ms (ms.removeSession fd) where
  socketOf := rfl
  closed := by
    rintro fd' rfl
    exact AList.lookup_erase _ _
  opened _ hne := AList.lookup_erase_ne hne
  gone _ hfalse := hfalse.elim
  stayed _ _ := rfl

/-- Closing a transport closes its socket. -/
theorem forceDisconnect_closes (t : ℕ) :
    Closes (fun fd => ∃ socket, ms.socketOf t = some socket ∧ socket.1 = fd) (fun _ => False) ms
      (ms.forceDisconnect t) := by
  have hsessions := @sessions_forceDisconnect ms t
  have hsocket : (ms.forceDisconnect t).socketOf = ms.socketOf := by
    unfold forceDisconnect
    cases ms.transports.lookup t <;> rfl
  constructor
  case socketOf => exact hsocket
  case closed =>
    rintro fd ⟨socket, hs, rfl⟩
    rw [hsessions, hs]
    exact AList.lookup_erase _ _
  case opened =>
    intro fd hne
    rw [hsessions]
    cases hs : ms.socketOf t with
    | none => rfl
    | some socket => exact AList.lookup_erase_ne fun he => hne ⟨socket, hs, he.symm⟩
  case gone => exact fun _ hfalse => hfalse.elim
  case stayed =>
    exact fun clientId _ => binding_congr (by rw [forceDisconnect_sessionRegistry])

/-- A client whose session is removed or put offline is gone. -/
theorem gone_closes (hsocket : ms'.socketOf = ms.socketOf) (hsessions : ms'.sessions = ms.sessions)
    (hgone : ms'.binding clientId = none)
    (hothers : ∀ clientId', clientId' ≠ clientId →
      ms'.sessionRegistry.lookup clientId' = ms.sessionRegistry.lookup clientId') :
    Closes (fun _ => False) (fun clientId' => clientId' = clientId) ms ms' where
  socketOf := hsocket
  closed _ hfalse := hfalse.elim
  opened _ _ := by rw [hsessions]
  gone clientId' he := he ▸ hgone
  stayed clientId' hne := binding_congr (hothers clientId' hne)

theorem removeFromRegistry_closes (clientId : Bytes) :
    Closes (fun _ => False) (fun clientId' => clientId' = clientId) ms
      (ms.removeFromRegistry clientId) :=
  gone_closes rfl rfl (binding_of_lookup_eq_none (AList.lookup_erase _ _))
    fun _ hne => AList.lookup_erase_ne hne

end Closing

theorem Bound.removeSession_iff (h : Bound ms) (fd : ℕ) :
    Bound (ms.removeSession fd) ↔ Safe ms (.closeConnection fd) :=
  ((removeSession_closes fd).bound_iff h).trans
    ⟨fun hcond clientId ho => hcond fd clientId rfl ho,
      fun hcond _ clientId he ho => hcond clientId (he ▸ ho)⟩

/-! ### New connections -/

/-- Transports have been created. -/
def TransportsAllocated (ms : ManageSessions) : Prop :=
  ∀ id socket, ms.socketOf id = some socket → id < ms.nextObj

theorem socketOf_addSession (fd id : ℕ) :
    (ms.addSession fd).socketOf id = if id = ms.nextObj then some (fd, []) else ms.socketOf id := by
  unfold addSession ManageSessions.socketOf
  split_ifs with he
  · rw [he]
    simp only [AList.lookup_insert, Option.map_some]
  · simp only [AList.lookup_insert_ne he]

theorem Bound.addSession_iff (h : Bound ms) (ha : TransportsAllocated ms) (fd : ℕ) :
    Bound (ms.addSession fd) ↔ Safe ms (.newConnection fd) := by
  have hbinding : ∀ clientId, (ms.addSession fd).binding clientId = ms.binding clientId :=
    fun _ => binding_congr rfl
  have hsocket : ∀ id socket, ms.socketOf id = some socket →
      (ms.addSession fd).socketOf id = some socket := by
    intro id socket hs
    have hne : id ≠ ms.nextObj := (ha id socket hs).ne
    rw [socketOf_addSession, if_neg hne, hs]
  constructor
  · rintro h' clientId ⟨id, hb, hid, hfd⟩
    obtain ⟨id', fd', he, hid', hfd'⟩ := h'.present ((hbinding clientId).trans hb)
    obtain rfl := Option.some.inj he
    rw [hsocket id _ hid] at hid'
    obtain ⟨rfl, -⟩ := Prod.mk.inj (Option.some.inj hid')
    have hnew : (ms.addSession fd).sessions.lookup fd = some ms.nextObj := AList.lookup_insert _
    obtain rfl := Option.some.inj (hnew.symm.trans hfd')
    exact absurd (ha _ _ hid) (lt_irrefl _)
  · intro hsafe
    rw [bound_iff_binding]
    intro clientId transport hb
    rw [hbinding] at hb
    obtain ⟨id, fd', rfl, hid, hfd⟩ := h.present hb
    have hne : fd' ≠ fd := fun he => hsafe clientId ⟨id, hb, he ▸ hid, he ▸ hfd⟩
    exact ⟨id, rfl, fd', hsocket id _ hid, (AList.lookup_insert_ne hne).trans hfd⟩

/-! ### CONNECT -/

/-- Disconnecting the old session closes the socket that its client was served on. -/
theorem evictedBy_spec (h : Bound ms) (cn : Connect) :
    (∀ fd, Occupied ms fd cn.clientId → (evictedBy cn ms).lookup fd = none) ∧
      ∀ fd, ¬ Occupied ms fd cn.clientId →
        (evictedBy cn ms).lookup fd = ms.sessions.lookup fd := by
  have hfree : ms.binding cn.clientId = none → ∀ fd, ¬ Occupied ms fd cn.clientId := by
    rintro hb fd ⟨id, hb', -, -⟩
    cases hb.symm.trans hb'
  cases hl : ms.sessionRegistry.lookup cn.clientId with
  | none =>
    have hsame : evictedBy cn ms = ms.sessions := by rw [evictedBy, hl]
    have hb := binding_of_lookup_eq_none hl
    rw [hsame]
    exact ⟨fun fd ho => absurd ho (hfree hb fd), fun _ _ => rfl⟩
  | some entry =>
    have hsame : evictedBy cn ms = evicted ms entry.state := by rw [evictedBy, hl]
    have hb := binding_of_lookup hl
    rw [hsame, evicted]
    cases hcon : entry.state.connected with
    | false =>
      rw [hcon] at hb
      exact ⟨fun fd ho => absurd ho (hfree hb fd), fun _ _ => rfl⟩
    | true =>
      rw [hcon, if_pos rfl] at hb
      obtain ⟨id, fd, hs, hid, hfd⟩ := h.present hb
      have hlock : ms.lockTransport entry.state.session = some id := by
        rw [lockTransport_eq, hs, Option.bind_some, hid, Option.bind_some, if_pos (.inl hfd)]
      have herase : (ms.forceDisconnect id).sessions = ms.sessions.erase fd := by
        rw [sessions_forceDisconnect, hid]
      have hocc : ∀ fd', Occupied ms fd' cn.clientId ↔ fd' = fd := by
        intro fd'
        constructor
        · rintro ⟨id', hb', hid', -⟩
          obtain rfl := Option.some.inj (hs.symm.trans (Option.some.inj (hb.symm.trans hb')))
          exact congrArg Prod.fst (Option.some.inj (hid'.symm.trans hid))
        · rintro rfl
          exact ⟨id, hs ▸ hb, hid, hfd⟩
      rw [if_pos rfl, hlock]
      simp only [herase, hocc]
      constructor
      · rintro fd' rfl
        exact AList.lookup_erase _ _
      · exact fun fd' hne => AList.lookup_erase_ne hne

/-- The binding of its client after a CONNECT. -/
theorem Connects.binding (h : Connects cn id ms ms₁) :
    ms₁.binding cn.clientId = if Renews ms cn ∧ cn.level = 4 then some (some id) else none := by
  have hclient := h.client
  unfold registration at hclient
  by_cases hrenews : Renews ms cn
  · rw [if_pos hrenews] at hclient
    by_cases hlevel : cn.level = 4
    · rw [if_pos hlevel] at hclient
      have hstate : (newSession cn id ms.now).expiring.connected = true ∧
          (newSession cn id ms.now).expiring.session = some id := by
        rw [expiring_eq]
        exact ⟨rfl, rfl⟩
      rw [binding_of_lookup hclient, if_pos hstate.1, hstate.2, if_pos (And.intro hrenews hlevel)]
    · rw [if_neg hlevel] at hclient
      rw [binding_of_lookup_eq_none hclient, if_neg fun hboth => hlevel hboth.2]
  · rw [if_neg hrenews] at hclient
    rw [if_neg fun hboth => hrenews hboth.1]
    obtain ⟨⟨entry, hl⟩, -⟩ := not_renews_iff.1 hrenews
    rw [hl] at hclient
    exact binding_of_lookup hclient

/-- Where no session is created, a CONNECT ends the connection of its client. -/
theorem Connects.closes (h : Connects cn id ms ms₁) (hb : Bound ms)
    (hnot : ¬ (Renews ms cn ∧ cn.level = 4)) :
    Closes (fun fd => Occupied ms fd cn.clientId) (fun clientId => clientId = cn.clientId) ms
      ms₁ where
  socketOf := h.socketOf
  closed fd ho := by
    rw [h.sessions]
    exact (evictedBy_spec hb cn).1 fd ho
  opened fd ho := by
    rw [h.sessions]
    exact (evictedBy_spec hb cn).2 fd ho
  gone := by
    rintro clientId rfl
    rw [h.binding, if_neg hnot]
  stayed clientId hne := binding_congr (h.others clientId hne)

/-- A rejected CONNECT. -/
theorem Connects.rejected_bound_iff (h : Connects cn id ms ms₁) (hb : Bound ms)
    (hlevel : cn.level ≠ 4) (buff : Bytes) :
    Bound (finishConnect cn id buff ms₁) ↔ Safe ms (.connect id cn) := by
  have hpush : Closes (fun _ => False) (fun _ => False) ms₁ (ms₁.pushDataToSend id buff) :=
    .nothing rfl rfl fun _ => rfl
  have hcloses := ((h.closes hb fun hboth => hlevel hboth.2).trans hpush).trans
    (forceDisconnect_closes id)
  have hfinish : finishConnect cn id buff ms₁ =
      (ms₁.pushDataToSend id buff).forceDisconnect id := if_neg hlevel
  have hsocket : (ms₁.pushDataToSend id buff).socketOf id = ms.socketOf id :=
    congrFun h.socketOf id
  rw [hfinish, hcloses.bound_iff hb]
  simp only [Safe, if_neg hlevel, or_false]
  constructor
  · intro hcond socket hs clientId ho
    exact hcond socket.1 clientId (.inr ⟨socket, hsocket.trans hs, rfl⟩) ho
  · rintro hcond fd clientId (ho' | ⟨socket, hs, rfl⟩) ho
    · exact ho.unique ho'
    · exact hcond socket (hsocket.symm.trans hs) clientId ho

/-- The transport of an accepted CONNECT gets its client id. -/
theorem socketOf_finishConnect (h : Connects cn id ms ms₁) (hlevel : cn.level = 4) (buff : Bytes)
    (id' : ℕ) :
    (finishConnect cn id buff ms₁).socketOf id' =
      if id' = id then (ms.socketOf id).map fun socket => (socket.1, cn.clientId)
      else ms.socketOf id' := by
  rw [finishConnect, if_pos hlevel, ← h.socketOf]
  show (setTransport id (fun t => { t with clientId := cn.clientId }) ms₁).socketOf id' = _
  unfold setTransport ManageSessions.socketOf
  cases hl : ms₁.transports.lookup id with
  | none =>
    split_ifs with he
    · rw [he, hl]
      rfl
    · rfl
  | some t =>
    simp only
    split_ifs with he
    · rw [he, AList.lookup_insert]
      rfl
    · rw [AList.lookup_insert_ne he]

/-! ### An accepted CONNECT -/

namespace Connects

theorem sessions_finishConnect (h : Connects cn id ms ms₁) (hlevel : cn.level = 4) (buff : Bytes) :
    (finishConnect cn id buff ms₁).sessions = evictedBy cn ms := by
  rw [finishConnect, if_pos hlevel, setTransport_eq, ← h.sessions]
  rfl

theorem binding_finishConnect (id : ℕ) (buff clientId : Bytes) :
    (finishConnect cn id buff ms₁).binding clientId = ms₁.binding clientId := by
  refine binding_congr ?_
  rw [finishConnect_eq]

theorem binding_finishConnect_ne (h : Connects cn id ms ms₁) (buff : Bytes) {clientId : Bytes}
    (hne : clientId ≠ cn.clientId) :
    (finishConnect cn id buff ms₁).binding clientId = ms.binding clientId :=
  (binding_finishConnect id buff clientId).trans (binding_congr (h.others clientId hne))

/-- Every binding is good, so the CONNECT was safe. -/
theorem safe_of_finishConnect (h : Connects cn id ms ms₁) (hb : Bound ms) (hlevel : cn.level = 4)
    {buff : Bytes} (h' : Bound (finishConnect cn id buff ms₁)) : Safe ms (.connect id cn) := by
  have hsocket := socketOf_finishConnect h hlevel buff
  have hsessions := h.sessions_finishConnect hlevel buff
  simp only [Safe, if_pos hlevel]
  constructor
  · -- another client on the transport would find the new client id there
    intro clientId hc
    by_contra hne
    obtain ⟨id', fd, he, hid, -⟩ := h'.present ((h.binding_finishConnect_ne buff hne).trans hc)
    obtain rfl := Option.some.inj he
    rw [hsocket, if_pos rfl, Option.map_eq_some_iff] at hid
    obtain ⟨socket, -, hid⟩ := hid
    exact hne (congrArg Prod.snd hid).symm
  · intro hrenews
    have hnew : (finishConnect cn id buff ms₁).binding cn.clientId = some (some id) := by
      rw [binding_finishConnect, h.binding, if_pos ⟨hrenews, hlevel⟩]
    obtain ⟨id', fd, he, hid, hfd⟩ := h'.present hnew
    obtain rfl := Option.some.inj he
    rw [hsocket, if_pos rfl, Option.map_eq_some_iff] at hid
    obtain ⟨⟨fd', clientId⟩, hid, he⟩ := hid
    obtain rfl : fd' = fd := congrArg Prod.fst he
    rw [hsessions] at hfd
    have hfree : ¬ Occupied ms fd' cn.clientId := by
      intro ho
      rw [(evictedBy_spec hb cn).1 fd' ho] at hfd
      cases hfd
    rw [(evictedBy_spec hb cn).2 fd' hfree] at hfd
    refine ⟨⟨clientId, fd', hid, hfd⟩, fun hown => hfree ?_⟩
    obtain ⟨id₀, fd₀, he₀, hid₀, hfd₀⟩ := hb.present hown
    obtain rfl := Option.some.inj he₀
    obtain ⟨rfl, -⟩ := Prod.mk.inj (Option.some.inj (hid₀.symm.trans hid))
    exact ⟨id, hown, hid₀, hfd₀⟩

/-- The CONNECT was safe, so every binding is good. -/
theorem bound_finishConnect (h : Connects cn id ms ms₁) (hb : Bound ms) (hlevel : cn.level = 4)
    (buff : Bytes) (hsafe : Safe ms (.connect id cn)) : Bound (finishConnect cn id buff ms₁) := by
  have hsocket := socketOf_finishConnect h hlevel buff
  have hsessions := h.sessions_finishConnect hlevel buff
  simp only [Safe, if_pos hlevel] at hsafe
  obtain ⟨hsole, hopen⟩ := hsafe
  rw [bound_iff_binding]
  intro clientId transport hc
  by_cases hne : clientId = cn.clientId
  · subst hne
    rw [binding_finishConnect, h.binding] at hc
    split_ifs at hc with hboth
    obtain rfl := Option.some.inj hc
    obtain ⟨⟨clientId, fd, hid, hfd⟩, hown⟩ := hopen hboth.1
    refine ⟨id, rfl, fd, ?_, ?_⟩
    · rw [hsocket, if_pos rfl, hid]
      rfl
    · rw [hsessions, (evictedBy_spec hb cn).2 fd, hfd]
      rintro ⟨id', hb', -, hfd'⟩
      obtain rfl := Option.some.inj (hfd.symm.trans hfd')
      exact hown hb'
  · rw [h.binding_finishConnect_ne buff hne] at hc
    obtain ⟨id', fd, rfl, hid, hfd⟩ := hb.present hc
    have hother : id' ≠ id := by
      rintro rfl
      exact hne (hsole clientId hc)
    refine ⟨id', rfl, fd, ?_, ?_⟩
    · rw [hsocket, if_neg hother, hid]
    · rw [hsessions, (evictedBy_spec hb cn).2 fd, hfd]
      exact fun ho => hne (Occupied.unique ⟨id', hc, hid, hfd⟩ ho)

theorem accepted_bound_iff (h : Connects cn id ms ms₁) (hb : Bound ms) (hlevel : cn.level = 4)
    (buff : Bytes) : Bound (finishConnect cn id buff ms₁) ↔ Safe ms (.connect id cn) :=
  ⟨h.safe_of_finishConnect hb hlevel, h.bound_finishConnect hb hlevel buff⟩

end Connects

/-! ### The sweep -/

/-- What the sweep relies on for a session that it is going to disconnect: the socket of its
transport has been closed or is still its own. -/
def OwnSocket (ms : ManageSessions) (r : SessionRef) : Prop :=
  ∀ cs, ms.lock r = some cs → ∃ id fd, cs.session = some id ∧
    ms.socketOf id = some (fd, r.clientId) ∧
      (ms.sessions.lookup fd = none ∨ ms.sessions.lookup fd = some id)

theorem OwnSocket.of_closes {C : ℕ → Prop} {G : Bytes → Prop} (h : OwnSocket ms r)
    (hc : Closes C G ms ms') (hs : Sweeps ms ms') : OwnSocket ms' r := by
  intro cs' hl'
  obtain ⟨cs, hl, hswept⟩ := hs.alive r cs' hl'
  obtain ⟨id, fd, hsession, hid, hfd⟩ := h cs hl
  refine ⟨id, fd, ?_, (congrFun hc.socketOf id).trans hid, ?_⟩
  · rw [hswept.eq, hsession]
  · by_cases hclosed : C fd
    · exact .inl (hc.closed fd hclosed)
    · rw [hc.opened fd hclosed]
      exact hfd

/-- Disconnecting an expired session closes no socket of another client. -/
theorem disconnectExpired_closes (ho : OwnSocket ms r) :
    ∃ C G, Closes C G ms (ms.disconnectExpired r) ∧
      ∀ fd clientId, C fd → Occupied ms fd clientId → G clientId := by
  have hsame : ∃ C G, Closes C G ms ms ∧
      ∀ fd clientId, C fd → Occupied ms fd clientId → G clientId :=
    ⟨_, _, .nothing rfl rfl fun _ => rfl, fun _ _ hfalse => hfalse.elim⟩
  unfold disconnectExpired
  cases hl : ms.lock r with
  | none => exact hsame
  | some cs =>
    obtain ⟨id, fd, hs, hid, hfd⟩ := ho cs hl
    simp only
    cases hlock : ms.lockTransport cs.session with
    | none => exact hsame
    | some t =>
      have ht : t = id := by
        rw [lockTransport_eq, hs, Option.bind_some, hid, Option.bind_some] at hlock
        split_ifs at hlock
        exact (Option.some.inj hlock).symm
      subst ht
      simp only
      have hl₁ : (ms.forceDisconnect t).lock r = some cs :=
        (lock_congr (forceDisconnect_sessionRegistry t) r).trans hl
      have hgone : Closes (fun _ => False) (fun clientId => clientId = r.clientId)
          (ms.forceDisconnect t)
          (if cs.cleansession then (ms.forceDisconnect t).removeFromRegistry r.clientId
            else (ms.forceDisconnect t).setSession r { cs with connected := false }) := by
        split_ifs
        · exact removeFromRegistry_closes r.clientId
        · have hreg := lookup_setSession hl₁ { cs with connected := false }
          refine gone_closes ?_ ?_ ?_ fun clientId hne => (hreg clientId).trans (if_neg hne)
          · rw [setSession_eq]
            rfl
          · rw [setSession_eq]
          · rw [binding_of_lookup ((hreg r.clientId).trans (if_pos rfl))]
            rfl
      refine ⟨_, _, (forceDisconnect_closes t).trans hgone, ?_⟩
      rintro fd' clientId hclosed ⟨id', -, hid', hfd'⟩
      obtain ⟨socket, hsocket, rfl⟩ := hclosed.resolve_right fun hfalse => hfalse
      obtain rfl := Option.some.inj (hsocket.symm.trans hid)
      rcases hfd with hfd | hfd
      · cases hfd.symm.trans hfd'
      · obtain rfl := Option.some.inj (hfd.symm.trans hfd')
        exact .inr (congrArg Prod.snd (Option.some.inj (hid'.symm.trans hid)))

theorem foldl_disconnectExpired_bound {rs : List SessionRef} (hb : Bound ms)
    (ho : ∀ r ∈ rs, OwnSocket ms r) : Bound (rs.foldl disconnectExpired ms) := by
  induction rs generalizing ms with
  | nil => exact hb
  | cons r rs ih =>
    obtain ⟨C, G, hc, hfree⟩ := disconnectExpired_closes (ho r List.mem_cons_self)
    refine ih ((hc.bound_iff hb).2 hfree) fun r' hr' => ?_
    exact (ho r' (List.mem_cons_of_mem _ hr')).of_closes hc (.disconnectExpired r)

theorem scheduleExpiry_closes (r : SessionRef) :
    Closes (fun _ => False) (fun _ => False) ms (scheduleExpiry p r ms) := by
  refine .nothing ?_ ?_ fun clientId => ?_
  · rw [scheduleExpiry_eq]
    rfl
  · rw [scheduleExpiry_eq]
  · cases hl : ms.lock r with
    | none =>
      have hsame : scheduleExpiry p r ms = ms := by
        unfold scheduleExpiry
        rw [hl]
      rw [hsame]
    | some cs =>
      have hreg := lookup_scheduleExpiry (p := p) hl clientId
      by_cases hc : clientId = r.clientId
      · subst hc
        rw [if_pos rfl] at hreg
        rw [binding_of_lookup hreg, binding_of_lookup (lock_eq_some_iff.1 hl), expiring_eq]
      · exact binding_congr (hreg.trans (if_neg hc))

/-- **The sweep keeps the binding.** -/
theorem sweepOut_bound (hb : Bound ms) {sweep : Sweep}
    (hconnected : ∀ r ∈ sweep.toDisconnect, ∃ cs, ms.lock r = some cs ∧ cs.connected = true) :
    Bound (sweepOut p sweep ms) := by
  have ho : ∀ r ∈ sweep.toDisconnect, OwnSocket ms r := by
    intro r hr cs hl
    obtain ⟨cs', hl', hc⟩ := hconnected r hr
    obtain rfl := Option.some.inj (hl.symm.trans hl')
    obtain ⟨id, fd, hs, hid, hfd⟩ := hb.transport _ _ (lock_eq_some_iff.1 hl) hc
    exact ⟨id, fd, hs, hid, .inr hfd⟩
  have hschedule : ∀ (rs : List SessionRef) (ms₁ : ManageSessions), Bound ms₁ →
      Bound (rs.foldl (fun ms r => scheduleExpiry p r ms) ms₁) := by
    intro rs
    induction rs with
    | nil => exact fun _ h => h
    | cons r rs ih =>
      intro ms₁ h
      exact ih _ (((scheduleExpiry_closes r).bound_iff h).2 fun _ _ hfalse => hfalse.elim)
  exact hschedule _ _ (foldl_disconnectExpired_bound hb ho)

/-! ### Runs -/

theorem bound_tasks_iff (tasks : List ℕ) : Bound { ms with tasks } ↔ Bound ms :=
  ⟨fun h => ⟨h.transport, h.unshared⟩, fun h => ⟨h.transport, h.unshared⟩⟩

/-- A malformed packet. -/
theorem malformed_bound_iff (hb : Bound ms)
    (hl : ms.sessionRegistry.lookup (ms.getClientId id) = some entry) :
    Bound ((purge (ms.getClientId id) entry ms).forceDisconnect id) ↔ Safe ms (.malformed id) := by
  have hpurge : Closes (fun _ => False)
      (fun clientId => clientId = ms.getClientId id ∧ entry.state.cleansession = true) ms
      (purge (ms.getClientId id) entry ms) := by
    unfold purge
    split_ifs with hclean
    · simpa [hclean] using removeFromRegistry_closes (ms.getClientId id)
    · have hnothing : Closes (fun _ => False) (fun _ => False) ms ms :=
        .nothing rfl rfl fun _ => rfl
      simpa [hclean] using hnothing
  have hid : ∀ socket, ms.socketOf id = some socket → ms.getClientId id = socket.2 := by
    intro socket hs
    rw [getClientId_eq, hs]
    rfl
  rw [(hpurge.trans (forceDisconnect_closes id)).bound_iff hb, hpurge.socketOf]
  simp only [Safe, false_or, or_false]
  constructor
  · intro hcond socket hs clientId ho
    obtain ⟨rfl, hclean⟩ := hcond socket.1 clientId ⟨socket, hs, rfl⟩ ho
    refine ⟨hid socket hs, fun entry' hl' => ?_⟩
    obtain rfl := Option.some.inj (hl.symm.trans hl')
    exact hclean
  · rintro hcond fd clientId ⟨socket, hs, rfl⟩ ho
    obtain ⟨rfl, hclean⟩ := hcond socket hs clientId ho
    exact ⟨(hid socket hs).symm, hclean entry (hid socket hs ▸ hl)⟩

/-- **An event keeps the binding exactly if it is safe.** -/
theorem Change.bound_iff {k : Kind} (hb : Bound ms) (ha : TransportsAllocated ms)
    (h : Change p ms ms' k) : Bound ms' ↔ Safe ms k := by
  cases k with
  | calm subscriber =>
    obtain ⟨log, hcalm⟩ := h
    have hcloses : Closes (fun _ => False) (fun _ => False) ms ms' :=
      .nothing hcalm.socketOf hcalm.sessions fun _ => hcalm.binding
    exact iff_of_true ((hcloses.bound_iff hb).2 fun _ _ hfalse => hfalse.elim) trivial
  | newConnection fd =>
    obtain rfl := h
    exact hb.addSession_iff ha fd
  | closeConnection fd =>
    obtain rfl := h
    exact hb.removeSession_iff fd
  | malformed id =>
    obtain ⟨entry, tasks, hl, rfl⟩ := h
    rw [bound_tasks_iff]
    exact malformed_bound_iff hb hl
  | connect id cn =>
    obtain ⟨ms₁, tasks, hconnects, rfl⟩ := h
    rw [bound_tasks_iff]
    by_cases hlevel : cn.level = 4
    · exact hconnects.accepted_bound_iff hb hlevel _
    · exact hconnects.rejected_bound_iff hb hlevel _
  | expire =>
    obtain ⟨sweep, heap, hconnected, rfl⟩ := h
    have hpop : Bound { ms with expiryHeap := heap } := ⟨hb.transport, hb.unshared⟩
    exact iff_of_true (sweepOut_bound hpop hconnected) trivial

/-- No event creates a transport but a new connection. -/
theorem Change.transportsAllocated {k : Kind} (h : Change p ms ms' k)
    (ha : TransportsAllocated ms) : TransportsAllocated ms' := by
  obtain ⟨log, hevolves⟩ := h.evolves
  have hkeep : (∀ id socket, ms'.socketOf id = some socket → ∃ socket', ms.socketOf id =
      some socket') → TransportsAllocated ms' := by
    intro hback id socket hs
    obtain ⟨socket', hs'⟩ := hback id socket hs
    exact (ha id socket' hs').trans_le hevolves.nextObj
  cases k with
  | calm subscriber =>
    obtain ⟨log, hcalm⟩ := h
    refine hkeep fun id socket hs => ⟨socket, ?_⟩
    rwa [← hcalm.socketOf]
  | newConnection fd =>
    obtain rfl := h
    intro id socket hs
    rw [socketOf_addSession] at hs
    split_ifs at hs with he
    · rw [he]
      exact Nat.lt_succ_self _
    · exact (ha id socket hs).trans_le (Nat.le_succ _)
  | closeConnection fd =>
    obtain rfl := h
    exact hkeep fun id socket hs => ⟨socket, hs⟩
  | malformed id =>
    obtain ⟨entry, tasks, -, rfl⟩ := h
    have hsweeps := (@purge_sweeps ms (ms.getClientId id) entry).trans (.forceDisconnect id)
    refine hkeep fun id' socket hs => ⟨socket, ?_⟩
    rw [hsweeps.eq] at hs
    exact hs
  | connect id cn =>
    obtain ⟨ms₁, tasks, hconnects, rfl⟩ := h
    refine hkeep fun id' socket hs => ?_
    by_cases hlevel : cn.level = 4
    · have hs' : (finishConnect cn id (packConnack (connackFor cn ms)) ms₁).socketOf id' =
          some socket := hs
      rw [socketOf_finishConnect hconnects hlevel] at hs'
      split_ifs at hs' with he
      · obtain ⟨socket', hs', -⟩ := Option.map_eq_some_iff.1 hs'
        exact ⟨socket', he ▸ hs'⟩
      · exact ⟨socket, hs'⟩
    · have hfinish : (finishConnect cn id (packConnack (connackFor cn ms)) ms₁).socketOf =
          ms₁.socketOf := by
        rw [finishConnect, if_neg hlevel]
        exact (forceDisconnect_closes id).socketOf
      have hs' : (finishConnect cn id (packConnack (connackFor cn ms)) ms₁).socketOf id' =
          some socket := hs
      rw [hfinish, hconnects.socketOf] at hs'
      exact ⟨socket, hs'⟩
  | expire =>
    obtain ⟨sweep, heap, -, rfl⟩ := h
    have hsweeps := @Sweeps.sweepOut p { ms with expiryHeap := heap } sweep
    refine hkeep fun id socket hs => ⟨socket, ?_⟩
    rw [hsweeps.eq] at hs
    exact hs

theorem Reachable.transportsAllocated (h : Reachable p ms) : TransportsAllocated ms := by
  refine h.of_change (fun id socket hs => ?_) fun ms ms' k _ ha hk _ => hk.transportsAllocated ha
  cases hs

/-- A step of the broker that is safe. -/
def SafeStep (p : Platform) (ms : ManageSessions) (e : Event) : Prop := Safe ms (e.kind p ms)

/-- **The binding holds over every run of safe events**, and the next event keeps it exactly if it
is safe, too. -/
theorem bound_of_safe {events : List Event}
    (hrun : Run (Meeting (BrokerStep p) (SafeStep p)) {} events ms) :
    Bound ms ∧ ∀ e ms', BrokerStep p ms e ms' → (Bound ms' ↔ SafeStep p ms e) := by
  have hreach : Reachable p ms := ⟨events, hrun.of_meeting⟩
  have hstep : ∀ ms e ms', Reachable p ms → Bound ms → BrokerStep p ms e ms' →
      (Bound ms' ↔ SafeStep p ms e) := fun ms e ms' hms hb hs =>
    (e.apply_change hms.sound hs).bound_iff hb hms.transportsAllocated
  have hbound : Reachable p ms ∧ Bound ms := by
    refine hrun.invariant (I := fun ms => Reachable p ms ∧ Bound ms) ⟨.init, ⟨?_, ?_⟩⟩ ?_
    · intro clientId entry hl
      cases hl
    · intro clientId entry clientId' entry' hl
      cases hl
    · intro ms e ms' hms hs
      exact ⟨hms.1.step hs.2, (hstep ms e ms' hms.1 hms.2 hs.2).2 hs.1⟩
  exact ⟨hbound.2, fun e ms' => hstep ms e ms' hreach hbound.2⟩

/-- A socket is open, and the CONNECT of client `A` has arrived on it. -/
def arrived : ManageSessions := after .sorting [.newConnection 3, .receive 0 (connectFrame 65 2)]

/-- A client that connects on a new transport. -/
theorem bound_of_safe_connect : ∃ ms', BrokerStep .sorting arrived (.parseData 0 fun _ => 0) ms' ∧
    Bound ms' ∧ (ms'.binding [65]).isSome := by
  have hempty : ∀ ms : ManageSessions, ms.sessionRegistry.entries.isEmpty → ∀ clientId,
      ms.binding clientId = none := by
    intro ms he clientId
    refine binding_of_lookup_eq_none (AList.lookup_eq_none.2 ?_)
    rw [AList.mem_keys, AList.keys, List.isEmpty_iff.1 he]
    exact List.not_mem_nil
  have hfree : ∀ ms : ManageSessions, ms.sessionRegistry.entries.isEmpty → ∀ fd clientId,
      ¬ Occupied ms fd clientId := by
    rintro ms he fd clientId ⟨id, hb, -, -⟩
    cases (hempty ms he clientId).symm.trans hb
  have hnone : arrived.sessionRegistry.entries.isEmpty := by decide +kernel
  have hkind : Event.kind .sorting (.parseData 0 fun _ => 0) arrived =
      .connect 0 (connectA true) := by decide +kernel
  have hpresent : Present arrived [] 0 := ⟨3, by decide +kernel, by decide +kernel⟩
  have hok : (Event.apply .sorting (.parseData 0 fun _ => 0) arrived).toOption.any
      fun ms' => (ms'.binding [65]).isSome = true := by decide +kernel
  obtain ⟨ms', hstep, hbinding⟩ := exists_of_any_ok hok
  have hsafe : SafeStep .sorting arrived (.parseData 0 fun _ => 0) := by
    rw [SafeStep, hkind]
    refine ⟨fun clientId hb => ?_, fun _ => ⟨⟨[], hpresent⟩, ?_⟩⟩
    · cases (hempty arrived hnone clientId).symm.trans hb
    · rw [hempty arrived hnone]
      simp
  have hnew : SafeStep .sorting {} (.newConnection 3) := hfree {} rfl 3
  have hrun : Run (Meeting (BrokerStep .sorting) (SafeStep .sorting)) {}
      [.newConnection 3, .receive 0 (connectFrame 65 2), .parseData 0 fun _ => 0] ms' :=
    ((Run.nil.snoc ⟨hnew, rfl⟩).snoc ⟨trivial, rfl⟩).snoc ⟨hsafe, hstep⟩
  exact ⟨ms', hstep, (bound_of_safe hrun).1, hbinding⟩

/-- Client `A` connects, and its socket is closed. -/
def socketClosed : ManageSessions :=
  after .sorting (.newConnection 3 :: arrive 0 (connectFrame 65 2) ++ [.closeConnection 3])

/-- It stays connected without a transport. -/
theorem not_bound_closed : Reachable .sorting socketClosed ∧ ¬ Bound socketClosed := by
  refine ⟨after_reachable _ _, fun h => ?_⟩
  have hconnected : ((socketClosed.binding [65]).bind id).isSome := by decide +kernel
  have hsockets : socketClosed.sessions.entries.isEmpty := by decide +kernel
  obtain ⟨transport, hb⟩ := Option.isSome_iff_exists.1 hconnected
  obtain ⟨_, hb, rfl⟩ := Option.bind_eq_some_iff.1 hb
  obtain ⟨id, fd, -, -, hfd⟩ := h.present hb
  have hmem : fd ∈ socketClosed.sessions := AList.lookup_isSome.1 (by rw [hfd]; rfl)
  rw [AList.mem_keys, AList.keys, List.isEmpty_iff.1 hsockets] at hmem
  cases hmem

end Culex
