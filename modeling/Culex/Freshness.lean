import Culex.Phases

/-!
# The freshness of packet identifiers

The generator of a session counts from 1 to 65535 and starts again, without a look at what is still
open.  `Ledger` keeps the books that it does not keep: how many messages were sent on the session,
and the exchanges that no PUBACK or PUBCOMP has ended.

* `ExchangeStep.counted`: the n-th identifier is a function of n;
* `fresh_iff_timely`: so the identifiers of a run are fresh exactly if no exchange stays open until
  the counter has come round to it.
-/

namespace Culex

open ManageSessions

/-- What is sent on a session with a positive QoS, and the acknowledgments that come in on a
transport. -/
inductive ExchangeAction
  | send (packet : Packet)
  | puback (t : ℕ) (packetId : UInt16)
  | pubrec (t : ℕ) (packetId : UInt16)
  | pubcomp (t : ℕ) (packetId : UInt16)

/-- The exchange of a message that was sent. -/
structure Exchange where
  /-- The messages sent before it. -/
  number : ℕ
  packetId : UInt16
  qos : UInt8
  /-- Whether its PUBREC has come. -/
  received : Bool := false

/-- The exchanges of a session: how many were started, and the ones that are open. -/
structure Ledger where
  sent : ℕ := 0
  opened : List Exchange := []

/-- The books after an action; `packetId` is the identifier that is allocated for a message. -/
def Ledger.after (ledger : Ledger) (packetId : UInt16) : ExchangeAction → Ledger
  | .send packet =>
    { sent := ledger.sent + 1
      opened := ledger.opened ++ [⟨ledger.sent, packetId, packet.header.qos, false⟩] }
  | .puback _ id =>
    { ledger with opened := ledger.opened.filter fun e => ¬ (e.packetId = id ∧ e.qos = 1) }
  | .pubrec _ id =>
    { ledger with opened := ledger.opened.map fun e =>
        if e.packetId = id ∧ e.qos ≠ 1 then { e with received := true } else e }
  | .pubcomp _ id =>
    { ledger with opened := ledger.opened.filter fun e =>
        ¬ (e.packetId = id ∧ e.qos ≠ 1 ∧ e.received) }

/-- A handler takes the acknowledgment of a client for its session `r`. -/
def Acknowledged (handler : PacketHandler) (type : PacketType) (r : SessionRef) (t : ℕ)
    (packetId : UInt16) (ms ms' : ManageSessions) : Prop :=
  ∃ cs packet handled, Serves ms t r cs ∧ packet.header.type = type ∧
    packet.pkt = .ack { packetId } ∧ handler packet t ms = .ok handled ∧ ms' = handled.state

/-- An action on the session `r`, and its entry in the books. -/
def ExchangeStep (p : Platform) (r : SessionRef) (x : ManageSessions × Ledger) (a : ExchangeAction)
    (x' : ManageSessions × Ledger) : Prop :=
  (∃ cs, x.1.lock r = some cs ∧ x'.2 = x.2.after cs.allocatePacketId.1 a) ∧
    match a with
    | .send packet => ∃ pub, IsPublish packet pub ∧ 0 < packet.header.qos ∧
        sendToClient p (some r) packet x.1 = .ok x'.1
    | .puback t id => Acknowledged pubackHandler .puback r t id x.1 x'.1
    | .pubrec t id => Acknowledged pubrecHandler .pubrec r t id x.1 x'.1
    | .pubcomp t id => Acknowledged pubcompHandler .pubcomp r t id x.1 x'.1

/-- The identifier for a message is not 0, and it is the one of no open exchange, as long as there
is such an identifier. -/
def FreshId (r : SessionRef) (x : ManageSessions × Ledger) : ExchangeAction → Prop
  | .send _ => x.2.opened.length < 65535 → ∀ cs, x.1.lock r = some cs →
      cs.allocatePacketId.1 ≠ 0 ∧ ∀ e ∈ x.2.opened, e.packetId ≠ cs.allocatePacketId.1
  | _ => True

/-- A message is sent when no exchange is open that was started a multiple of 65535 messages
earlier. -/
def Timely (x : ManageSessions × Ledger) : ExchangeAction → Prop
  | .send _ => x.2.opened.length < 65535 → ∀ e ∈ x.2.opened, ¬ 65535 ∣ x.2.sent - e.number
  | _ => True

variable {p : Platform} {r : SessionRef} {ms ms' : ManageSessions} {cs : ClientSession} {t : ℕ}
  {x x' : ManageSessions × Ledger} {a : ExchangeAction} {c₀ : ℕ}

/-! ### The counter -/

theorem toNat_allocatePacketId (cs : ClientSession) :
    cs.allocatePacketId.1.toNat = cs.nextPacketId.toNat % 65535 + 1 := by
  have hlt := cs.nextPacketId.toNat_lt
  have hnext : (cs.nextPacketId + 1).toNat = (cs.nextPacketId.toNat + 1) % 65536 :=
    UInt16.toNat_add _ _
  simp only [ClientSession.allocatePacketId]
  split_ifs with h
  · have hzero : (cs.nextPacketId + 1).toNat = 0 := by
      rw [h]
      rfl
    show 1 = _
    omega
  · have hpos : (cs.nextPacketId + 1).toNat ≠ 0 := fun h0 => h (UInt16.toNat_inj.1 h0)
    omega

/-- The counter and the identifiers of the open exchanges go by the number of messages sent. -/
def Counted (r : SessionRef) (c₀ : ℕ) (x : ManageSessions × Ledger) : Prop :=
  ∃ cs, x.1.lock r = some cs ∧ cs.nextPacketId.toNat % 65535 = (c₀ + x.2.sent) % 65535 ∧
    ∀ e ∈ x.2.opened, e.number < x.2.sent ∧ e.packetId.toNat = (c₀ + e.number) % 65535 + 1

/-- An acknowledgment leaves the counter alone. -/
theorem Acknowledged.nextPacketId {type : PacketType} {id : UInt16} {handler : PacketHandler}
    (hh : handler = pubackHandler ∨ handler = pubrecHandler ∨ handler = pubcompHandler)
    (h : Acknowledged handler type r t id ms ms') (hl : ms.lock r = some cs) :
    ∃ cs', Serves ms' t r cs' ∧ cs'.nextPacketId = cs.nextPacketId := by
  obtain ⟨cs₀, packet, handled, hserves, -, hp, hok, rfl⟩ := h
  obtain rfl := Option.some.inj (hl.symm.trans hserves.lock)
  rcases hh with rfl | rfl | rfl
  · rw [pubackHandler_eq hserves hp] at hok
    obtain rfl := Except.ok.inj hok
    exact ⟨_, hserves.setSession _, rfl⟩
  · rw [pubrecHandler_eq hserves hp] at hok
    obtain rfl := Except.ok.inj hok
    exact ⟨_, (hserves.setSession _).pushDataToSend _, rfl⟩
  · rw [pubcompHandler_eq hserves hp] at hok
    obtain rfl := Except.ok.inj hok
    exact ⟨_, hserves.setSession _, rfl⟩

/-- An acknowledgment starts no exchange, and changes the identifier of none. -/
theorem Ledger.mem_after {ledger : Ledger} {id : UInt16} {e : Exchange}
    (ha : ∀ packet, a ≠ .send packet) (he : e ∈ (ledger.after id a).opened) :
    (ledger.after id a).sent = ledger.sent ∧
      ∃ e' ∈ ledger.opened, e.number = e'.number ∧ e.packetId = e'.packetId := by
  cases a with
  | send packet => exact absurd rfl (ha packet)
  | puback _ _ | pubcomp _ _ => exact ⟨rfl, e, List.mem_of_mem_filter he, rfl, rfl⟩
  | pubrec _ _ =>
    obtain ⟨e', he', rfl⟩ := List.mem_map.1 he
    refine ⟨rfl, e', he', ?_⟩
    split_ifs <;> exact ⟨rfl, rfl⟩

theorem Ledger.sent_after {ledger : Ledger} {id : UInt16} (ha : ∀ packet, a ≠ .send packet) :
    (ledger.after id a).sent = ledger.sent := by
  cases a with
  | send packet => exact absurd rfl (ha packet)
  | puback _ _ | pubrec _ _ | pubcomp _ _ => rfl

/-- What an acknowledgment leaves of the books is counted. -/
theorem Counted.acknowledged (h : Counted r c₀ x) (ha : ∀ packet, a ≠ .send packet)
    (hcounter : ∀ cs, x.1.lock r = some cs →
      ∃ cs', Serves x'.1 t r cs' ∧ cs'.nextPacketId = cs.nextPacketId) {id : UInt16}
    (hledger : x'.2 = x.2.after id a) : Counted r c₀ x' := by
  obtain ⟨cs, hl, hcount, hopened⟩ := h
  obtain ⟨cs', hserves, hnext⟩ := hcounter cs hl
  refine ⟨cs', hserves.lock, ?_, fun e he => ?_⟩
  · rw [hnext, hledger, Ledger.sent_after ha]
    exact hcount
  · rw [hledger] at he ⊢
    obtain ⟨hsent, e', he', hnumber, hid⟩ := Ledger.mem_after ha he
    rw [hsent, hnumber, hid]
    exact hopened e' he'

/-- **What a step does to the books.** -/
theorem ExchangeStep.counted (h : ExchangeStep p r x a x') (hx : Counted r c₀ x) :
    Counted r c₀ x' := by
  obtain ⟨⟨cs, hl, hledger⟩, hstep⟩ := h
  cases a with
  | send packet =>
    obtain ⟨pub, hpub, hq, hsend⟩ := hstep
    obtain ⟨cs₀, hl₀, hcount, hopened⟩ := hx
    obtain rfl := Option.some.inj (hl.symm.trans hl₀)
    rw [sendToClient_publish p hpub hl, Except.ok.injEq] at hsend
    have hlock := @lock_delivered_self p r cs packet pub x.1 hl hq
    have hid := toNat_allocatePacketId cs
    have hsent : x'.2.sent = x.2.sent + 1 := congrArg Ledger.sent hledger
    have hnext : (tracked cs packet pub).nextPacketId = cs.allocatePacketId.1 := rfl
    refine ⟨_, hsend ▸ hlock, ?_, fun e he => ?_⟩
    · rw [hnext, hid, hsent]
      omega
    · rw [hledger] at he
      rcases List.mem_append.1 he with he | he
      · obtain ⟨hlt, heid⟩ := hopened e he
        exact ⟨by omega, heid⟩
      · obtain rfl := List.mem_singleton.1 he
        refine ⟨?_, ?_⟩
        · show x.2.sent < x'.2.sent
          omega
        · show cs.allocatePacketId.1.toNat = (c₀ + x.2.sent) % 65535 + 1
          omega
  | puback t id =>
    exact hx.acknowledged (fun _ h => by cases h) (fun _ => hstep.nextPacketId (.inl rfl)) hledger
  | pubrec t id =>
    exact hx.acknowledged (fun _ h => by cases h) (fun _ => hstep.nextPacketId (.inr (.inl rfl)))
      hledger
  | pubcomp t id =>
    exact hx.acknowledged (fun _ h => by cases h) (fun _ => hstep.nextPacketId (.inr (.inr rfl)))
      hledger

/-! ### Steps that can be taken -/

theorem Serves.delivered {packet : Packet} {pub : Publish} (h : Serves ms t r cs)
    (hq : 0 < packet.header.qos) :
    Serves (delivered p r cs packet pub ms) t r (tracked cs packet pub) := by
  refine ⟨?_, lock_delivered_self h.lock hq⟩
  have hrouted : Routed packet pub ms (Culex.delivered p r cs packet pub ms) :=
    delivered_routed h.lock
  have htransports := hrouted.transports
  rw [← h.clientId, getClientId, getClientId, htransports]

theorem isPublish_packetSeven : IsPublish packetSeven messageSeven := ⟨rfl, rfl⟩

/-- A message can always be sent to a session that is served. -/
theorem send_step (h : Serves x.1 t r cs) :
    ExchangeStep p r x (.send packetSeven)
      (delivered p r cs packetSeven messageSeven x.1,
        x.2.after cs.allocatePacketId.1 (.send packetSeven)) :=
  ⟨⟨cs, h.lock, rfl⟩, messageSeven, isPublish_packetSeven, by decide,
    sendToClient_publish p isPublish_packetSeven h.lock⟩

/-- An acknowledgment always comes through. -/
theorem puback_step (h : Serves x.1 t r cs) (id : UInt16) : ∃ ms' cs', Serves ms' t r cs' ∧
    ExchangeStep p r x (.puback t id) (ms', x.2.after cs.allocatePacketId.1 (.puback t id)) := by
  let packet : Packet := { header := { type := .puback }, pktLen := 4, pkt := .ack ⟨id⟩ }
  exact ⟨_, _, h.setSession _, ⟨cs, h.lock, rfl⟩, cs, packet, _, h, rfl, rfl,
    pubackHandler_eq h rfl, rfl⟩

/-! ### Freshness -/

/-- **The identifier that comes next is fresh exactly if no exchange is as old as the counter is
long.** -/
theorem Counted.fresh_iff (h : Counted r c₀ x) : FreshId r x a ↔ Timely x a := by
  obtain ⟨cs, hl, hcount, hopened⟩ := h
  cases a with
  | puback _ _ | pubrec _ _ | pubcomp _ _ => exact Iff.rfl
  | send packet =>
    have hid := toNat_allocatePacketId cs
    have hdiffer : ∀ e ∈ x.2.opened,
        e.packetId ≠ cs.allocatePacketId.1 ↔ ¬ 65535 ∣ x.2.sent - e.number := by
      intro e he
      obtain ⟨hlt, heid⟩ := hopened e he
      rw [ne_eq, ← UInt16.toNat_inj, heid, hid, hcount]
      omega
    refine imp_congr_right fun _ => ?_
    constructor
    · exact fun hfresh e he => (hdiffer e he).1 ((hfresh cs hl).2 e he)
    · intro htimely cs₀ hl₀
      obtain rfl := Option.some.inj (hl.symm.trans hl₀)
      exact ⟨cs.allocatePacketId_ne_zero, fun e he => (hdiffer e he).2 (htimely e he)⟩

theorem counted_start (hl : ms.lock r = some cs) : Counted r cs.nextPacketId.toNat (ms, {}) :=
  ⟨cs, hl, rfl, fun _ he => absurd he List.not_mem_nil⟩

/-- **Freshness over every run**: all the identifiers that are allocated in a run are fresh if and
only if every message of it is sent in time. -/
theorem fresh_iff_timely (hl : ms.lock r = some cs) {actions : List ExchangeAction} :
    Run (Meeting (ExchangeStep p r) (FreshId r)) (ms, {}) actions x ↔
      Run (Meeting (ExchangeStep p r) Timely) (ms, {}) actions x :=
  Run.meeting_congr (I := Counted r cs.nextPacketId.toNat) (counted_start hl)
    (fun _ _ _ hx hstep => hstep.counted hx) fun _ _ _ hx _ => hx.fresh_iff

/-- A message is sent in time, and its exchange is open then. -/
theorem send_timely (h : Serves x.1 t r cs)
    (htimely : ∀ e ∈ x.2.opened, ¬ 65535 ∣ x.2.sent - e.number) :
    ∃ x' cs' e, Meeting (ExchangeStep p r) Timely x (.send packetSeven) x' ∧ Serves x'.1 t r cs' ∧
      x'.2.sent = x.2.sent + 1 ∧ x'.2.opened = x.2.opened ++ [e] ∧ e.number = x.2.sent :=
  ⟨_, _, _, ⟨fun _ => htimely, send_step h⟩, h.delivered (by decide), rfl, rfl, rfl⟩

/-- Three messages to a client, of which it has acknowledged none when the third is sent. -/
theorem fresh_iff_timely_open : ∃ r x, x.2.opened.length = 3 ∧
    Run (Meeting (ExchangeStep .sorting r) (FreshId r)) (oneClient, {})
      [.send packetSeven, .send packetSeven, .send packetSeven] x := by
  obtain ⟨r, cs, hserves, -, -⟩ := oneClient_serves
  obtain ⟨x₁, cs₁, e₁, hfirst, hserves₁, hsent₁, hopened₁, hnumber₁⟩ :=
    @send_timely .sorting r cs 0 (oneClient, {}) hserves fun e he => absurd he List.not_mem_nil
  rw [List.nil_append] at hopened₁
  rw [Nat.zero_add] at hsent₁
  obtain ⟨x₂, cs₂, e₂, hsecond, hserves₂, hsent₂, hopened₂, hnumber₂⟩ :=
    @send_timely .sorting r cs₁ 0 x₁ hserves₁ fun e he => by
      rw [hopened₁, List.mem_singleton] at he
      rw [he, hsent₁, hnumber₁]
      decide
  rw [hsent₁] at hsent₂ hnumber₂
  obtain ⟨x₃, cs₃, e₃, hthird, -, -, hopened₃, -⟩ :=
    @send_timely .sorting r cs₂ 0 x₂ hserves₂ fun e he => by
      simp only [hopened₂, hopened₁, List.mem_append, List.mem_singleton] at he
      rcases he with rfl | rfl
      · rw [hsent₂, hnumber₁]
        decide
      · rw [hsent₂, hnumber₂]
        decide
  refine ⟨r, x₃, ?_, (fresh_iff_timely hserves.lock).2
    (((Run.nil.snoc hfirst).snoc hsecond).snoc hthird)⟩
  rw [hopened₃, hopened₂, hopened₁]
  rfl

/-! ### A slow acknowledgment -/

/-- One exchange stays open, and `n` more are started and ended. -/
theorem exists_slow_run (h : Serves ms t r cs) (n : ℕ) (hn : n < 65535) :
    ∃ actions x, Run (ExchangeStep p r) (ms, {}) actions x ∧ (∃ cs', Serves x.1 t r cs') ∧
      x.2.sent = n + 1 ∧ ∃ e, x.2.opened = [e] ∧ e.number = 0 := by
  induction n with
  | zero =>
    exact ⟨_, _, Run.nil.snoc (send_step h), ⟨_, h.delivered (by decide)⟩, rfl, _, rfl, rfl⟩
  | succ n ih =>
    obtain ⟨actions, x, hrun, ⟨cs₁, h₁⟩, hsent, e, hopened, hnumber⟩ := ih (by omega)
    have hcounted : Counted r cs.nextPacketId.toNat x :=
      hrun.invariant (counted_start h.lock) fun _ _ _ hx hstep => hstep.counted hx
    -- the identifier of the new message is not the one of the slow exchange
    have htimely : Timely x (.send packetSeven) := by
      intro _ e' he'
      rw [hopened, List.mem_singleton] at he'
      rw [he', hnumber, hsent]
      omega
    have hfresh := (hcounted.fresh_iff.2 htimely (by simp [hopened]) cs₁ h₁.lock).2 e
      (by rw [hopened]; exact List.mem_singleton.2 rfl)
    have hsend := send_step (p := p) h₁
    have h₂ : Serves (delivered p r cs₁ packetSeven messageSeven _) t r _ :=
      h₁.delivered (by decide)
    obtain ⟨ms₃, cs₃, h₃, hack⟩ := puback_step (p := p)
      (x := (_, x.2.after cs₁.allocatePacketId.1 (.send packetSeven))) h₂ cs₁.allocatePacketId.1
    refine ⟨_, _, (hrun.snoc hsend).snoc hack, ⟨cs₃, h₃⟩, ?_, e, ?_, hnumber⟩
    · show x.2.sent + 1 = n + 1 + 1
      rw [hsent]
    · simp [Ledger.after, hopened, hfresh, packetSeven]

/-- A client leaves one message without an acknowledgment, and acknowledges the 65534 that follow:
the next message gets the identifier of the first. -/
theorem not_fresh_slow : Reachable .sorting oneClient ∧ ∃ r actions x,
    Run (ExchangeStep .sorting r) (oneClient, {}) actions x ∧
      (∃ x', ExchangeStep .sorting r x (.send packetSeven) x') ∧ x.2.opened.length = 1 ∧
        ¬ FreshId r x (.send packetSeven) := by
  obtain ⟨r, cs, hserves, -, -⟩ := oneClient_serves
  obtain ⟨actions, x, hrun, ⟨cs', hserves'⟩, hsent, e, hopened, hnumber⟩ :=
    exists_slow_run (p := .sorting) hserves 65534 (by norm_num)
  have hcounted : Counted r cs.nextPacketId.toNat x :=
    hrun.invariant (counted_start hserves.lock) fun _ _ _ hx hstep => hstep.counted hx
  refine ⟨after_reachable _ _, r, actions, x, hrun, ⟨_, send_step hserves'⟩,
    by rw [hopened]; rfl, fun hfresh => ?_⟩
  have htimely := hcounted.fresh_iff.1 hfresh (by simp [hopened]) e (by simp [hopened])
  rw [hsent, hnumber] at htimely
  exact htimely (by norm_num)

end Culex
