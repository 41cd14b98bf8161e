import Culex.Delivery

/-!
# How far a message fans out

The loop of `routePacket` pushes a PUBLISH to every connected subscriber whose transport is alive.
Those it comes to while the QoS of the packet is positive (`handed`) take the message over: a
connected one stores it and gets a retransmission, and an offline one queues it.

`Fanned` says this of two states, and `routeLoop_fanned` that the loop does exactly this.
-/

namespace Culex

open ManageSessions

/-- The subscriptions to which a packet comes with a positive QoS: all up to the first connected one
of QoS 0. -/
def handed (connectedAt : SessionRef → Option Bool) (qos : UInt8) (subs : List Subscription) :
    List Subscription :=
  if 0 < qos then subs.takeWhile fun sub => ¬ (connectedAt sub.session = some true ∧ sub.qos = 0)
  else []

/-- Between `ms` and `ms'` a message has been offered to the subscriptions `subs`, to those in
`kept` with a positive QoS; `log` are the calls. -/
structure Fanned (pub : Publish) (subs kept : List Subscription) (log : List Call)
    (ms ms' : ManageSessions) : Prop where
  connectedAt : ms'.connectedAt = ms.connectedAt
  transportOf : ms'.transportOf = ms.transportOf
  calls : ms'.calls = ms.calls ++ log
  /-- What is pushed are frames of the message. -/
  frames : ∀ t data, .pushDataToSend t data ∈ log → ∃ header, data = publishBytes header pub
  /-- They are pushed to the transports of the connected subscribers. -/
  pushed : ∀ t, (∃ data, .pushDataToSend t data ∈ log) ↔
    ∃ sub ∈ subs, ms.connectedAt sub.session = some true ∧ ms.transportOf sub.session = some t
  stored : ∀ r, (∃ pkt, .storeMessage r pkt ∈ log) ↔
    ∃ sub ∈ kept, ms.connectedAt sub.session = some false ∧ sub.session = r
  inflight : ∀ r cs, ms.lock r = some cs → ∃ cs', ms'.lock r = some cs' ∧
    ∀ k, k ∈ cs'.inflight ↔ k ∈ cs.inflight ∨
      k = pub.packetId ∧ ∃ sub ∈ kept, ms.connectedAt sub.session = some true ∧ sub.session = r
  entries : ms'.retransmitHeap.entries.length =
    ms.retransmitHeap.entries.length + kept.countP fun sub => ms.connectedAt sub.session = some true

section Handed

variable {connectedAt : SessionRef → Option Bool} {qos : UInt8} {sub : Subscription}
  {subs : List Subscription}

theorem pos_min_iff_qos {a b : UInt8} : 0 < min a b ↔ 0 < a ∧ b ≠ 0 := by
  rw [UInt8.lt_iff_toNat_lt, UInt8.lt_iff_toNat_lt, toNat_min, Ne, ← UInt8.toNat_inj]
  simp only [UInt8.toNat_zero]
  omega

/-- The loop over a list is the round for its first element and the loop over the others. -/
theorem handed_connected (hc : connectedAt sub.session = some true) :
    handed connectedAt qos (sub :: subs) =
      handed connectedAt qos [sub] ++ handed connectedAt (min qos sub.qos) subs := by
  unfold handed
  simp only [pos_min_iff_qos]
  by_cases hq : 0 < qos <;> by_cases hs : sub.qos = 0 <;> simp [hq, hs, hc]

theorem handed_singleton_connected (hc : connectedAt sub.session = some true) :
    handed connectedAt qos [sub] = if 0 < min qos sub.qos then [sub] else [] := by
  unfold handed
  simp only [pos_min_iff_qos]
  by_cases hq : 0 < qos <;> by_cases hs : sub.qos = 0 <;> simp [hq, hs, hc]

theorem handed_singleton_of_ne (hc : connectedAt sub.session ≠ some true) :
    handed connectedAt qos [sub] = if 0 < qos then [sub] else [] := by
  unfold handed
  split_ifs <;> simp [hc]

theorem handed_of_ne (hc : connectedAt sub.session ≠ some true) :
    handed connectedAt qos (sub :: subs) =
      handed connectedAt qos [sub] ++ handed connectedAt qos subs := by
  unfold handed
  by_cases hq : 0 < qos <;> simp [hq, hc]

end Handed

namespace Fanned

variable {pub : Publish} {subs subs' kept kept' : List Subscription} {log log' : List Call}
  {ms ms₁ ms₂ : ManageSessions}

theorem refl (pub : Publish) (ms : ManageSessions) : Fanned pub [] [] [] ms ms where
  connectedAt := rfl
  transportOf := rfl
  calls := (List.append_nil _).symm
  frames _ _ h := absurd h List.not_mem_nil
  pushed := by simp
  stored := by simp
  inflight _ cs h := ⟨cs, h, by simp⟩
  entries := rfl

theorem trans (h : Fanned pub subs kept log ms ms₁) (h' : Fanned pub subs' kept' log' ms₁ ms₂) :
    Fanned pub (subs ++ subs') (kept ++ kept') (log ++ log') ms ms₂ where
  connectedAt := h'.connectedAt.trans h.connectedAt
  transportOf := h'.transportOf.trans h.transportOf
  calls := by rw [h'.calls, h.calls, List.append_assoc]
  frames t data hmem := (List.mem_append.1 hmem).elim (h.frames t data) (h'.frames t data)
  pushed t := by
    have hpushed' := h'.pushed t
    rw [h.connectedAt, h.transportOf] at hpushed'
    simp only [List.mem_append, exists_or, or_and_right, h.pushed t, hpushed']
  stored r := by
    have hstored' := h'.stored r
    rw [h.connectedAt] at hstored'
    simp only [List.mem_append, exists_or, or_and_right, h.stored r, hstored']
  inflight r cs hl := by
    obtain ⟨cs₁, hl₁, hk₁⟩ := h.inflight r cs hl
    obtain ⟨cs₂, hl₂, hk₂⟩ := h'.inflight r cs₁ hl₁
    refine ⟨cs₂, hl₂, fun k => ?_⟩
    rw [h.connectedAt] at hk₂
    simp only [hk₂, hk₁, List.mem_append, or_and_right, exists_or, and_or_left, or_assoc]
  entries := by
    rw [h'.entries, h.entries, h.connectedAt, List.countP_append, Nat.add_assoc]

end Fanned

/-! ### The loop -/

variable {p : Platform} {packet : Packet} {pub : Publish} {ms : ManageSessions}
  {sub : Subscription} {cs : ClientSession}

/-- Offering a message to a session that is gone does nothing. -/
theorem fanned_dead (hl : ms.lock sub.session = none) :
    Fanned pub [sub] (handed ms.connectedAt packet.header.qos [sub]) [] ms ms := by
  have hc := connectedAt_eq_none hl
  rw [handed_singleton_of_ne (by rw [hc]; simp)]
  refine { Fanned.refl pub ms with pushed := ?_, stored := ?_, inflight := ?_, entries := ?_ }
  · simp [hc]
  · split_ifs <;> simp [hc]
  · intro r cs hcs
    exact ⟨cs, hcs, by split_ifs <;> simp [hc]⟩
  · split_ifs <;> simp [hc]

/-- A connected session gets the message pushed, and takes it over if its QoS is positive. -/
theorem fanned_connected (hl : ms.lock sub.session = some cs) (hcon : cs.connected = true) :
    ∃ log, Fanned pub [sub] (handed ms.connectedAt packet.header.qos [sub]) log ms
      (delivered p sub.session cs (packet.withQos (min packet.header.qos sub.qos)) pub ms) := by
  have hc : ms.connectedAt sub.session = some true := by rw [connectedAt_of_lock hl, hcon]
  have hr := @delivered_routed p (packet.withQos (min packet.header.qos sub.qos)) pub ms _ _ hl
  have ht := transportOf_of_lock hl
  rw [handed_singleton_connected hc]
  refine ⟨_, hr.connectedAt, hr.transportOf, calls_delivered, ?_, ?_, ?_, ?_, ?_⟩
  · intro t data hmem
    simp only [List.mem_cons, reduceCtorEq, Option.mem_toList, Option.map_eq_some_iff,
      Call.pushDataToSend.injEq, false_or] at hmem
    obtain ⟨_, -, -, hdata⟩ := hmem
    exact ⟨_, hdata.symm⟩
  · intro t
    simp [hc, ht]
  · intro r
    split_ifs <;> simp [hc]
  · intro r cs₀ hl₀
    by_cases hq : 0 < min packet.header.qos sub.qos
    · -- only the session of the subscription takes the message over
      rw [if_pos hq]
      by_cases he : r = sub.session
      · subst he
        obtain rfl := Option.some.inj (hl.symm.trans hl₀)
        refine ⟨_, lock_delivered_self hl hq, fun k => ?_⟩
        show k ∈ cs.inflight.insertNew pub.packetId _ ↔ _
        rw [Inflight.mem_insertNew]
        simp [hc, or_comm]
      · refine ⟨cs₀, (lock_delivered_ne he).trans hl₀, fun k => ?_⟩
        simp [Ne.symm he]
    · rw [if_neg hq, delivered_of_not_pos hq]
      exact ⟨cs₀, by simpa using hl₀, by simp⟩
  · by_cases hq : 0 < min packet.header.qos sub.qos
    · rw [if_pos hq, (entries_delivered hq).length_eq]
      simp [hc]
    · rw [if_neg hq, delivered_of_not_pos hq, pushIfAlive_eq]
      rfl

/-- An offline session queues the message if its QoS is positive. -/
theorem fanned_offline (hl : ms.lock sub.session = some cs) (hcon : cs.connected = false) :
    ∃ log, Fanned pub [sub] (handed ms.connectedAt packet.header.qos [sub]) log ms
      (queued sub.session cs packet ms) := by
  have hc : ms.connectedAt sub.session = some false := by rw [connectedAt_of_lock hl, hcon]
  have hr : Routed packet pub ms (queued sub.session cs packet ms) := queued_routed hl
  rw [handed_singleton_of_ne (by rw [hc]; simp)]
  by_cases hq : 0 < packet.header.qos
  · rw [if_pos hq]
    refine ⟨[.storeMessage sub.session packet], hr.connectedAt, hr.transportOf, ?_, ?_, ?_, ?_, ?_,
      ?_⟩
    · unfold queued
      rw [if_pos hq, setSession_eq]
      rfl
    · simp
    · simp [hc]
    · intro r
      simp [hc, eq_comm]
    · intro r cs₀ hl₀
      by_cases he : r = sub.session
      · subst he
        obtain rfl := Option.some.inj (hl.symm.trans hl₀)
        refine ⟨cs.storeMessage packet, ?_, fun k => by simp [hc, ClientSession.storeMessage]⟩
        unfold queued
        rw [if_pos hq]
        exact lock_setSession_self _ _ _ hl
      · exact ⟨cs₀, (lock_queued_ne he).trans hl₀, by simp [Ne.symm he]⟩
    · unfold queued
      rw [if_pos hq, setSession_eq]
      simp [hc, record]
  · rw [if_neg hq]
    have hsame : queued sub.session cs packet ms = ms := if_neg hq
    rw [hsame]
    exact ⟨[], { Fanned.refl pub ms with pushed := by simp [hc] }⟩

/-- **The loop fans the message out.** -/
theorem routeLoop_fanned (h : IsPublish packet pub) (subs : List Subscription) :
    ∃ ms' packet' log, routeLoop p subs (ms, packet) = .ok (ms', packet') ∧
      Fanned pub subs (handed ms.connectedAt packet.header.qos subs) log ms ms' := by
  suffices hrec : ∃ ms' m, routeLoop p subs (ms, packet) = .ok (ms', packet.withQos m) ∧
      m ≤ packet.header.qos ∧
      ∃ log, Fanned pub subs (handed ms.connectedAt packet.header.qos subs) log ms ms' by
    obtain ⟨ms', m, hloop, -, log, hf⟩ := hrec
    exact ⟨ms', _, log, hloop, hf⟩
  refine @routeLoop_rec p packet pub ms (fun subs packet ms ms' =>
    ∃ log, Fanned pub subs (handed ms.connectedAt packet.header.qos subs) log ms ms')
    ?nil ?dead ?connected ?offline h subs
  case nil =>
    intro packet ms
    have hnil : handed ms.connectedAt packet.header.qos [] = [] := by
      unfold handed
      split_ifs <;> rfl
    rw [hnil]
    exact ⟨[], .refl pub ms⟩
  case dead =>
    intro sub subs packet ms ms' hl ⟨log, hf⟩
    have hc := connectedAt_eq_none hl
    rw [handed_of_ne (by rw [hc]; simp)]
    exact ⟨_, (fanned_dead hl).trans hf⟩
  case connected =>
    intro sub subs packet ms ms' cs hl hcon ⟨log, hf⟩
    have hc : ms.connectedAt sub.session = some true := by rw [connectedAt_of_lock hl, hcon]
    obtain ⟨log₁, hf₁⟩ := @fanned_connected p packet pub ms sub cs hl hcon
    rw [hf₁.connectedAt] at hf
    rw [handed_connected hc]
    exact ⟨_, hf₁.trans hf⟩
  case offline =>
    intro sub subs packet ms ms' cs hl hcon ⟨log, hf⟩
    have hc : ms.connectedAt sub.session = some false := by rw [connectedAt_of_lock hl, hcon]
    obtain ⟨log₁, hf₁⟩ := @fanned_offline packet pub ms sub cs hl hcon
    rw [hf₁.connectedAt] at hf
    rw [handed_of_ne (by rw [hc]; simp)]
    exact ⟨_, hf₁.trans hf⟩

/-- **Routing fans the message out.** -/
theorem routePacket_fanned (h : IsPublish packet pub) (r : Option SessionRef) :
    ∃ ms' packet' log, routePacket p packet r ms = .ok (ms', packet') ∧
      Fanned pub (routeTargets p pub ms)
        (handed ms.connectedAt packet.header.qos (routeTargets p pub ms)) log ms ms' := by
  have hstart : Fanned pub [] [] [.routePacket packet] ms (routeStart packet pub ms) :=
    { Fanned.refl pub ms with
      calls := rfl
      frames := by simp
      pushed := by simp
      stored := by simp }
  obtain ⟨ms', packet', log, hloop, hf⟩ :=
    @routeLoop_fanned p packet pub (routeStart packet pub ms) h (routeTargets p pub ms)
  exact ⟨ms', packet', _, (routePacket_eq h r).trans hloop, hstart.trans hf⟩

end Culex
