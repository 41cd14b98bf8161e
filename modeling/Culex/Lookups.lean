import Culex.Rejection

/-!
# Looking up the session of a client

Handlers dereference what `sessionPresent` returns for the client id of their transport, and so does
`parseData` after a malformed packet.  A transport need not have a registered session: not before
its CONNECT, not after a rejected one, and not when the session has been removed.

* `Avoids`: the decoder never dereferences a session;
* `dispatch_null_iff`, `Event.apply_null_iff`: what asks for a session, handler by handler;
* `serve_null_iff`: so the broker dereferences a null pointer exactly where the session of the first
  such packet is missing.
-/

namespace Culex

open ByteReader ManageSessions

/-- The packets whose handlers ask for the session of their client. -/
def Packet.NeedsSession (packet : Packet) : Prop :=
  match packet.header.type with
  | .publish => (packet.header.qos ≠ 0 ∧ packet.header.qos ≠ 1) ∧ ∃ pub, packet.pkt = .publish pub
  | .puback => ∃ ack, packet.pkt = .ack ack
  | .pubrec => ∃ ack, packet.pkt = .ack ack
  | .pubrel => ∃ ack, packet.pkt = .ack ack
  | .pubcomp => ∃ ack, packet.pkt = .ack ack
  | _ => False

/-- What arrives on the transport asks for the session of its client. -/
def Arrival.AsksFor : Arrival → ℕ → Prop
  | .nothing, _ => False
  | .packet id pkt, id' => id = id' ∧ pkt.NeedsSession
  | .malformed id, id' => id = id'

/-- What the broker makes of some events, up to the first one that ends it. -/
def serve (p : Platform) (events : List Event) : Except Fault ManageSessions :=
  events.foldlM (fun ms e => e.apply p ms) {}

/-! ### The decoder -/

section Decoding

variable {core : Core}

theorem avoids_decodeLengthLoop (n rounds bytesRead len multiplier : ℕ) :
    Avoids .nullSession (decodeLengthLoop n rounds bytesRead len multiplier) := by
  induction rounds generalizing bytesRead len multiplier with
  | zero => exact avoids_fail (by decide)
  | succ rounds ih =>
    unfold decodeLengthLoop
    split
    · exact avoids_pure _
    · refine avoids_bind (avoids_peek (by decide)) fun nextbyte => ?_
      simp only
      split
      · exact avoids_fail (by decide)
      · refine avoids_bind (avoids_skip 1) fun _ => ?_
        split
        · exact ih _ _ _
        · exact avoids_pure _

theorem avoids_isPartial (n : ℕ) : Avoids .nullSession (isPartial n) := by
  refine avoids_bind avoids_cursor fun start => ?_
  split_ifs
  · exact avoids_pure _
  · refine avoids_bind (avoids_decodeLengthLoop n 4 0 0 1) fun len => ?_
    simp only
    split_ifs
    · exact avoids_pure _
    · refine avoids_bind avoids_cursor fun buff => ?_
      split_ifs
      · exact avoids_pure _
      · exact avoids_pure _

/-- An unpacker avoids what the reader of its fields avoids. -/
theorem avoids_framed {packet : Packet} {n : ℕ} {fields : ℤ → Packet → Decoder (ℤ × Packet)}
    (h : ∀ len packet, Avoids .nullSession (fields len packet)) :
    Avoids .nullSession (framed packet n fields) := by
  refine avoids_bind avoids_cursor fun start => avoids_bind (avoids_isPartial n) ?_
  rintro ⟨partialPacket, len⟩
  simp only
  split_ifs
  · exact avoids_pure _
  · exact avoids_bind avoids_cursor fun buff => h _ _

theorem avoids_unpackU8 : Avoids .nullSession core.unpackU8 :=
  core.unpackU8_eq ▸ avoids_u8 (by decide)

theorem avoids_unpackU16 : Avoids .nullSession core.unpackU16 :=
  core.unpackU16_eq ▸ avoids_u16 (by decide)

theorem avoids_unpackString16 : Avoids .nullSession core.unpackString16 :=
  core.unpackString16_eq ▸ avoids_string16 (by decide)

theorem avoids_unpackIf (flag : Bool) : Avoids .nullSession (unpackIf core flag) := by
  unfold unpackIf
  split_ifs
  · exact avoids_unpackString16
  · exact avoids_pure _

theorem avoids_unpackConnect (header : Header) (packet : Packet) (n : ℕ) :
    Avoids .nullSession (unpackConnect core header packet n) := by
  refine avoids_framed fun len packet => avoids_bind avoids_unpackString16 fun name => ?_
  split_ifs
  · exact avoids_pure _
  · refine avoids_bind ?_ fun cn => avoids_pure _
    refine avoids_bind avoids_unpackU8 fun level => avoids_bind avoids_unpackU8 fun byte => ?_
    refine avoids_bind avoids_unpackU16 fun keep => avoids_bind avoids_unpackString16 fun id => ?_
    refine avoids_bind (avoids_unpackIf _) fun _ => avoids_bind (avoids_unpackIf _) fun _ => ?_
    refine avoids_bind (avoids_unpackIf _) fun _ => avoids_bind (avoids_unpackIf _) fun _ => ?_
    exact avoids_pure _

theorem avoids_unpackPublish (header : Header) (packet : Packet) (n : ℕ) :
    Avoids .nullSession (unpackPublish core header packet n) := by
  refine avoids_framed fun len packet => avoids_bind avoids_unpackString16 fun topic => ?_
  refine avoids_bind ?_ ?_
  · unfold unpackPublishId
    split_ifs
    · exact avoids_bind avoids_unpackU16 fun _ => avoids_pure _
    · exact avoids_pure _
  · rintro ⟨packetId, size⟩
    refine avoids_bind ?_ fun payload => avoids_pure _
    unfold unpackPayload
    split_ifs
    · exact avoids_fail (by decide)
    · exact avoids_bytes (by decide) _

theorem avoids_unpackAck (header : Header) (packet : Packet) (n : ℕ) :
    Avoids .nullSession (unpackAck core header packet n) :=
  avoids_framed fun _ _ => avoids_bind avoids_unpackU16 fun _ => avoids_pure _

theorem avoids_unpackTuples (rounds : ℕ) (len : ℤ) :
    Avoids .nullSession (unpackTuples core rounds len) := by
  induction rounds generalizing len with
  | zero => exact avoids_pure _
  | succ rounds ih =>
    unfold unpackTuples
    split_ifs
    · refine avoids_bind avoids_unpackString16 fun topic => ?_
      refine avoids_bind avoids_unpackU8 fun qos => ?_
      exact avoids_bind (ih _) fun rest => avoids_pure _
    · exact avoids_pure _

theorem avoids_unpackSubscribe (header : Header) (packet : Packet) (n : ℕ) :
    Avoids .nullSession (unpackSubscribe core header packet n) :=
  avoids_framed fun _ _ => avoids_bind avoids_unpackU16 fun _ =>
    avoids_bind (avoids_unpackTuples _ _) fun _ => avoids_pure _

theorem avoids_unpackTopics (rounds : ℕ) (len : UInt64) :
    Avoids .nullSession (unpackTopics core rounds len) := by
  induction rounds generalizing len with
  | zero => exact avoids_fail (by decide)
  | succ rounds ih =>
    unfold unpackTopics
    split_ifs
    · refine avoids_bind avoids_unpackString16 fun topic => ?_
      exact avoids_bind (ih _) fun rest => avoids_pure _
    · exact avoids_pure _

theorem avoids_unpackUnsubscribe (header : Header) (packet : Packet) (n : ℕ) :
    Avoids .nullSession (unpackUnsubscribe core header packet n) := by
  refine avoids_framed fun len packet => ?_
  split_ifs
  · exact avoids_pure _
  · refine avoids_bind avoids_unpackU16 fun packetId => ?_
    exact avoids_bind (avoids_unpackTopics _ _) fun topics => avoids_pure _

theorem avoids_unpack (core : Core) (n : ℕ) : Avoids .nullSession (unpack core n) := by
  have hall : ∀ handler ∈ unpackHandlers core, ∀ unpacker, handler = some unpacker →
      ∀ header packet, Avoids .nullSession (unpacker header packet n) := by
    intro handler hmem unpacker he header packet
    simp only [unpackHandlers, List.mem_cons, List.not_mem_nil, or_false] at hmem
    subst he
    rcases hmem with h | h | h | h | h | h | h | h | h | h | h
    case inr.inl => exact Option.some.inj h ▸ avoids_unpackConnect header packet n
    case inr.inr.inr.inl => exact Option.some.inj h ▸ avoids_unpackPublish header packet n
    case inr.inr.inr.inr.inr.inr.inr.inr.inl =>
      exact Option.some.inj h ▸ avoids_unpackSubscribe header packet n
    case inr.inr.inr.inr.inr.inr.inr.inr.inr.inr =>
      exact Option.some.inj h ▸ avoids_unpackUnsubscribe header packet n
    all_goals first
      | exact Option.some.inj h ▸ avoids_unpackAck header packet n
      | cases h
  refine avoids_bind avoids_unpackU8 fun byte => ?_
  simp only
  split
  · exact avoids_fail (by decide)
  · next handler hhandler => exact hall _ (List.mem_of_getElem? hhandler) handler rfl _ _
  · exact avoids_pure _

end Decoding

/-! ### The handlers -/

section Handlers

variable {p : Platform} {packet : Packet} {t : ℕ} {ms : ManageSessions} {handled : Handled}

/-- CONNECT asks for no session that has to be there. -/
theorem connectHandler_returns (ha : AllResendable ms) :
    ∃ handled, connectHandler p packet t ms = .ok handled := by
  cases hp : packet.pkt with
  | connect cn =>
    by_cases hrenews : Renews ms cn
    · by_cases hlevel : cn.level = 4
      · exact ⟨_, connectHandler_new hp hrenews hlevel⟩
      · exact ⟨_, connectHandler_rejected hp hrenews hlevel⟩
    · obtain ⟨⟨entry, hl⟩, hclean⟩ := not_renews_iff.1 hrenews
      obtain ⟨handled, hh, -⟩ := connectHandler_resends (p := p) (t := t) ha hp hl hclean
      exact ⟨handled, hh⟩
  | _ =>
    unfold connectHandler
    rw [hp]
    exact ⟨_, rfl⟩

theorem publishHandler_null_iff (ht : packet.header.type = .publish) :
    publishHandler p packet t ms = .error .nullSession ↔ packet.NeedsSession ∧
      ms.sessionRegistry.lookup (ms.getClientId t) = none := by
  have hneeds : packet.NeedsSession ↔ (packet.header.qos ≠ 0 ∧ packet.header.qos ≠ 1) ∧
      ∃ pub, packet.pkt = .publish pub := by
    unfold Packet.NeedsSession
    rw [ht]
  have hroutes : ∀ pub, packet.pkt = .publish pub →
      (packet.header.qos = 0 ∨ packet.header.qos = 1) →
        ∃ handled, publishHandler p packet t ms = .ok handled := by
    intro pub hp hqos
    obtain ⟨ms', m, hroute, -⟩ := @routePacket_routed p packet pub
      (ms.updateActivity (ms.getClientId t)) ⟨ht, hp⟩ none
    unfold publishHandler
    simp only [hp, hroute, ok_bind]
    split_ifs with h0 h1
    · exact ⟨_, rfl⟩
    · exact ⟨_, rfl⟩
    · exact (hqos.elim h0 h1).elim
  by_cases hqos : packet.header.qos ≠ 0 ∧ packet.header.qos ≠ 1
  · rw [(publishHandler_ends packet t ms hqos.1 hqos.2).null_iff, hneeds, and_iff_right hqos]
  · rw [hneeds]
    refine iff_of_false (fun h => ?_) fun h => hqos h.1.1
    cases hp : packet.pkt with
    | publish pub =>
      obtain ⟨handled, hh⟩ := hroutes pub hp (by rwa [not_and_or, not_not, not_not] at hqos)
      cases hh.symm.trans h
    | _ =>
      unfold publishHandler at h
      rw [hp] at h
      cases h

/-- **What dereferences a null pointer when it is handled.** -/
theorem dispatch_null_iff (hs : Sound ms) (ha : AllResendable ms) :
    dispatch p packet t ms = .error .nullSession ↔ packet.NeedsSession ∧
      ms.sessionRegistry.lookup (ms.getClientId t) = none := by
  have hnever : ∀ {result : Except Fault Handled} {needs : Prop},
      result ≠ .error .nullSession → ¬ needs → (result = .error .nullSession ↔ needs ∧
        ms.sessionRegistry.lookup (ms.getClientId t) = none) :=
    fun hresult hneeds => iff_of_false hresult fun h => hneeds h.1
  have hpublish := @publishHandler_null_iff p packet t ms
  unfold Packet.NeedsSession at hpublish ⊢
  unfold dispatch handlers
  cases ht : packet.header.type with
  | publish =>
    rw [ht] at hpublish
    exact hpublish rfl
  | connect =>
    obtain ⟨handled, hh⟩ := @connectHandler_returns p packet t ms ha
    refine hnever (fun h => ?_) fun h => h
    cases hh.symm.trans h
  | unsubscribe =>
    refine hnever (fun h => ?_) fun h => h
    have h : unsubscribeHandler packet t ms = .error .nullSession := h
    unfold unsubscribeHandler at h
    split at h <;> cases h
  | subscribe =>
    refine hnever (fun h => ?_) fun h => h
    have h : subscribeHandler p packet t ms = .error .nullSession := h
    unfold subscribeHandler at h
    split at h <;> cases h
  | puback => exact (pubackHandler_ends packet t ms).null_iff
  | pubrec => exact (pubrecHandler_ends packet t ms).null_iff
  | pubrel => exact (pubrelHandler_ends packet hs.routes).null_iff
  | pubcomp => exact (pubcompHandler_ends packet t ms).null_iff
  | _ => exact hnever (fun h => (by cases h)) fun h => h

/-- The end of `parseData` asks for no session. -/
theorem finish_ne_null : finish packet t handled ≠ .error .nullSession := by
  intro h
  unfold finish at h
  split_ifs at h
  split at h
  · cases h
  · cases h

end Handlers

/-! ### The events -/

section Events

variable {p : Platform} {e : Event} {ms : ManageSessions} {events : List Event}

theorem collectExpired_ne_null {rounds : ℕ} {sweep : Sweep} :
    collectExpired p rounds sweep ms ≠ .error .nullSession := by
  intro h
  induction rounds generalizing sweep ms with
  | zero => cases h
  | succ rounds ih =>
    unfold collectExpired at h
    split at h
    · cases h
    · split_ifs at h
      split at h
      · exact ih h
      · exact ih h

theorem sessionRegistry_takeOut {packet : Packet} {id : ℕ} :
    (takeOut packet id ms).sessionRegistry = ms.sessionRegistry := by
  unfold takeOut
  rw [setTransport_eq]

theorem getClientId_takeOut {packet : Packet} {id t : ℕ} :
    (takeOut packet id ms).getClientId t = ms.getClientId t := by
  rw [getClientId_eq, (@takeOut_calm ms id packet none).socketOf, ← getClientId_eq]

theorem derefSession_null_iff {t : ℕ} : ms.derefSession t = .error .nullSession ↔
    ms.sessionRegistry.lookup (ms.getClientId t) = none := by
  unfold derefSession
  cases ms.sessionRegistry.lookup (ms.getClientId t) with
  | none => exact iff_of_true rfl rfl
  | some entry => exact iff_of_false (by simp) (by simp)

theorem except_map_eq_error {α β : Type} {x : Except Fault α} {f : α → β} {e : Fault} :
    x.map f = .error e ↔ x = .error e := by
  cases x with
  | ok a => exact iff_of_false (fun h => (by cases h)) fun h => (by cases h)
  | error e' => exact ⟨fun h => congrArg Except.error (Except.error.inj h), fun h => h ▸ rfl⟩

/-- What follows does not matter to a failure that it does not have. -/
theorem except_bind_eq_error {α β : Type} {x : Except Fault α} {f : α → Except Fault β} {e : Fault}
    (hf : ∀ a, f a ≠ .error e) : (x >>= f) = .error e ↔ x = .error e := by
  cases x with
  | ok a => exact iff_of_false (hf a) fun h => (by cases h)
  | error e' => exact ⟨fun h => congrArg Except.error (Except.error.inj h), fun h => h ▸ rfl⟩

theorem processExpiredSessions_ne_null :
    ms.processExpiredSessions p ≠ .error .nullSession := by
  intro h
  unfold processExpiredSessions at h
  cases hc : collectExpired p (ms.expiryHeap.entries.length + 1) {} ms with
  | ok result =>
    rw [hc] at h
    cases h
  | error fault =>
    rw [hc] at h
    obtain rfl : fault = .nullSession := Except.error.inj h
    exact collectExpired_ne_null hc

theorem AllResendable.takeOut {packet : Packet} {id : ℕ} (h : AllResendable ms) :
    AllResendable (takeOut packet id ms) := fun r cs hl =>
  h r cs ((lock_congr sessionRegistry_takeOut r).symm.trans hl)

theorem parseData_null_iff {id : ℕ} {beyond : Mem} (hr : Reachable p ms) (hmem : id ∈ ms.tasks) :
    parseData p id beyond ms = .error .nullSession ↔ ∃ id',
      (Event.arrival p (.parseData id beyond) ms).AsksFor id' ∧
        ms.sessionRegistry.lookup (ms.getClientId id') = none := by
  have hnothing : ∀ {result : Except Fault ManageSessions}, result ≠ .error .nullSession →
      (result = .error .nullSession ↔ ∃ id', Arrival.nothing.AsksFor id' ∧
        ms.sessionRegistry.lookup (ms.getClientId id') = none) :=
    fun hresult => iff_of_false hresult fun ⟨_, hasks, _⟩ => hasks
  simp only [Event.arrival, if_pos hmem]
  unfold parseData
  cases ms.transports.lookup id with
  | none => exact hnothing fun h => (by cases h)
  | some t =>
    simp only
    cases hu : unpack p.toCore t.recvBuff.length (holding t.recvBuff beyond) 0 with
    | error fault =>
      refine hnothing fun h => ?_
      obtain rfl : fault = .nullSession := Except.error.inj h
      exact avoids_unpack p.toCore _ _ _ hu
    | ok result =>
      obtain ⟨⟨rc, pkt⟩, cursor⟩ := result
      simp only [ok_bind]
      split_ifs with hrc hpartial
      · -- a packet has been unpacked
        have hs : Sound (takeOut pkt id ms) := (Tame.setTransport _ _).sound hr.sound
        have hdispatch := @dispatch_null_iff p pkt id _ hs hr.allResendable.takeOut
        rw [sessionRegistry_takeOut, getClientId_takeOut] at hdispatch
        refine (except_bind_eq_error fun _ => finish_ne_null).trans (hdispatch.trans
          ⟨fun h => ⟨id, ⟨rfl, h.1⟩, h.2⟩, ?_⟩)
        rintro ⟨id', ⟨rfl, hneeds⟩, hnone⟩
        exact ⟨hneeds, hnone⟩
      · exact hnothing fun h => (by cases h)
      · -- a malformed packet
        refine (except_bind_eq_error fun _ h => (by cases h)).trans (derefSession_null_iff.trans
          ⟨fun h => ⟨id, rfl, h⟩, ?_⟩)
        rintro ⟨id', rfl, hnone⟩
        exact hnone

/-- **A null pointer is dereferenced exactly where what arrives asks for a session that is
missing.** -/
theorem Event.apply_null_iff (hr : Reachable p ms) : e.apply p ms = .error .nullSession ↔
    ∃ id, (e.arrival p ms).AsksFor id ∧ ms.sessionRegistry.lookup (ms.getClientId id) = none := by
  have hnever : e.arrival p ms = .nothing → e.apply p ms ≠ .error .nullSession →
      (e.apply p ms = .error .nullSession ↔ ∃ id, (e.arrival p ms).AsksFor id ∧
        ms.sessionRegistry.lookup (ms.getClientId id) = none) := by
    intro ha he
    refine iff_of_false he ?_
    rintro ⟨id, hasks, -⟩
    rw [ha] at hasks
    exact hasks
  cases e with
  | parseData id beyond =>
    by_cases hmem : id ∈ ms.tasks
    · simp only [Event.apply, if_pos hmem]
      exact except_map_eq_error.trans (parseData_null_iff hr hmem)
    · refine hnever (if_neg hmem) fun h => ?_
      simp only [Event.apply, if_neg hmem] at h
      cases h
  | newConnection fd => exact hnever rfl fun h => (by cases h)
  | closeConnection fd => exact hnever rfl fun h => (by cases h)
  | tick elapsed => exact hnever rfl fun h => (by cases h)
  | receive id data =>
    refine hnever rfl fun h => ?_
    simp only [Event.apply] at h
    split at h
    · cases h
    · cases h
  | processExpiredSessions => exact hnever rfl processExpiredSessions_ne_null
  | processRetransmissions =>
    refine hnever rfl fun h => ?_
    obtain ⟨es, ms', hok, -⟩ := @processRetransmissions_run p ms hr.sound
    cases hok.symm.trans h

/-- Events that have been served lead to a reachable state. -/
theorem reachable_of_serve (h : serve p events = .ok ms) : Reachable p ms :=
  ⟨events, .of_except (fun _ _ _ h => h) h⟩

/-- **Serving events dereferences no null pointer exactly if the session of each client that sends
what asks for it is registered.** -/
theorem serve_null_iff : serve p events ≠ .error .nullSession ↔
    ∀ before e rest ms, events = before ++ e :: rest → serve p before = .ok ms →
      ∀ id, (e.arrival p ms).AsksFor id →
        (ms.sessionRegistry.lookup (ms.getClientId id)).isSome := by
  have hfirst : serve p events = .error .nullSession ↔ ∃ before e rest ms,
      events = before ++ e :: rest ∧ serve p before = .ok ms ∧
        e.apply p ms = .error .nullSession := foldlM_eq_error_iff
  rw [Ne, hfirst]
  constructor
  · intro hnull before e rest ms he hserve id hasks
    by_contra hmissing
    rw [Bool.not_eq_true, Option.isSome_eq_false_iff, Option.isNone_iff_eq_none] at hmissing
    have hr := reachable_of_serve hserve
    exact hnull ⟨before, e, rest, ms, he, hserve,
      (Event.apply_null_iff hr).2 ⟨id, hasks, hmissing⟩⟩
  · rintro hall ⟨before, e, rest, ms, he, hserve, hnull⟩
    obtain ⟨id, hasks, hnone⟩ := (Event.apply_null_iff (reachable_of_serve hserve)).1 hnull
    have hsome := hall before e rest ms he hserve id hasks
    rw [hnone] at hsome
    cases hsome

/-- A new connection, and on it a byte that no packet starts with. -/
def strayByte : List Event := .newConnection 3 :: arrive 0 [0x00]

/-- The null pointer is dereferenced. -/
theorem not_serve_stray : serve .sorting strayByte = .error .nullSession := by
  have hnull : (match serve .sorting strayByte with
      | .error fault => decide (fault = .nullSession)
      | .ok _ => false) = true := by decide +kernel
  cases h : serve .sorting strayByte with
  | ok ms =>
    rw [h] at hnull
    cases hnull
  | error fault =>
    rw [h] at hnull
    rw [of_decide_eq_true hnull]

end Events

end Culex
