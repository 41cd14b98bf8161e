import Culex.Downfall

/-!
# A jam of the retransmission heap

`processRetransmissions` ends where the first entry is due and its session is gone, and does not pop
the entry.  Sessions do not come back, and whatever is scheduled later comes behind what is due.  So
the heap is jammed for good: from then on no message is resent to any client, and no entry leaves.

* `RetryAhead`: what every event but `processRetransmissions` does to the heap;
* `Reachable.retryAllocated`: the sessions that entries name have been created;
* `retransmits_nothing_of_run`: the jam.
-/

namespace Culex

open ManageSessions

/-- The first entry of the retransmission heap is due, and its session is gone. -/
def Jammed (ms : ManageSessions) : Prop :=
  ∃ entry, ms.retransmitHeap.top = some entry ∧ entry.retryMs ≤ ms.now ∧
    ms.lock entry.session = none

/-- A step adds to the retransmission heap, behind what is due, and for live sessions. -/
structure RetryAhead (ms ms' : ManageSessions) : Prop where
  top : ∀ entry, ms.retransmitHeap.top = some entry → entry.retryMs ≤ ms.now →
    ms'.retransmitHeap.top = some entry
  stays : ∀ entry ∈ ms.retransmitHeap.entries, entry ∈ ms'.retransmitHeap.entries
  entries : ∀ entry ∈ ms'.retransmitHeap.entries, entry ∈ ms.retransmitHeap.entries ∨
    (ms.lock entry.session).isSome

variable {p : Platform} {ms ms' ms₁ : ManageSessions} {e : Event} {r : SessionRef}
  {id t : ℕ} {packet : Packet} {handled : Handled} {events : List Event}

/-! ### Steps -/

/-- Routing schedules retransmissions for live sessions. -/
theorem routePacket_entries {pub : Publish} (h : IsPublish packet pub)
    {session : Option SessionRef} {packet' : Packet}
    (hroute : routePacket p packet session ms = .ok (ms', packet')) :
    ∀ entry ∈ ms'.retransmitHeap.entries, entry ∈ ms.retransmitHeap.entries ∨
      (ms.lock entry.session).isSome := by
  have hloop := @routeLoop_rec p packet pub (routeStart packet pub ms)
    (fun _ _ ms ms' => ∀ entry ∈ ms'.retransmitHeap.entries,
      entry ∈ ms.retransmitHeap.entries ∨ (ms.lock entry.session).isSome)
    ?nil ?dead ?connected ?offline h (routeTargets p pub ms)
  case nil => exact fun _ _ _ hmem => .inl hmem
  case dead =>
    intro sub subs packet ms ms' _ hrest
    exact hrest
  case connected =>
    intro sub subs packet ms ms' cs hl _ hrest entry hmem
    have hr := @delivered_routed p (packet.withQos (min packet.header.qos sub.qos)) pub ms _ _ hl
    rcases hrest entry hmem with hmem | halive
    · by_cases hq : 0 < (packet.withQos (min packet.header.qos sub.qos)).header.qos
      · rw [(entries_delivered hq).mem_iff, List.mem_cons] at hmem
        refine hmem.symm.imp_right ?_
        rintro rfl
        exact Option.isSome_iff_exists.2 ⟨cs, hl⟩
      · rw [delivered_of_not_pos hq, pushIfAlive_eq] at hmem
        exact .inl hmem
    · refine .inr ?_
      by_contra hdead
      rw [hr.dead _ (Option.not_isSome_iff_eq_none.1 hdead)] at halive
      cases halive
  case offline =>
    intro sub subs packet ms ms' cs hl _ hrest entry hmem
    have hr : Routed packet pub ms (queued sub.session cs packet ms) := queued_routed hl
    have hheap : (queued sub.session cs packet ms).retransmitHeap = ms.retransmitHeap := by
      unfold queued
      split_ifs
      · rw [setSession_eq]
        rfl
      · rfl
    refine (hrest entry hmem).imp (fun hmem => hheap ▸ hmem) fun halive => ?_
    by_contra hdead
    rw [hr.dead _ (Option.not_isSome_iff_eq_none.1 hdead)] at halive
    cases halive
  obtain ⟨ms₁, m, hloop, -, hentries⟩ := hloop
  rw [routePacket_eq h, hloop] at hroute
  obtain ⟨rfl, -⟩ := Prod.mk.inj (Except.ok.inj hroute)
  exact hentries

namespace RetryAhead

theorem of_eq (h : ms'.retransmitHeap = ms.retransmitHeap) : RetryAhead ms ms' where
  top entry htop _ := by rw [h, htop]
  stays entry hmem := by rwa [h]
  entries entry hmem := .inl (by rwa [h] at hmem)

theorem trans (h : RetryAhead ms ms₁) (h' : RetryAhead ms₁ ms') (hnow : ms.now ≤ ms₁.now)
    (hlock : ∀ r, ms.lock r = none → ms₁.lock r = none) : RetryAhead ms ms' where
  top entry htop hdue := h'.top entry (h.top entry htop hdue) (hdue.trans hnow)
  stays entry hmem := h'.stays entry (h.stays entry hmem)
  entries entry hmem := by
    rcases h'.entries entry hmem with hmem | halive
    · exact h.entries entry hmem
    · refine .inr ?_
      by_contra hdead
      rw [hlock _ (Option.not_isSome_iff_eq_none.1 hdead)] at halive
      cases halive

theorem routePacket {pub : Publish} (h : IsPublish packet pub) {session : Option SessionRef}
    {packet' : Packet} (hroute : routePacket p packet session ms = .ok (ms', packet')) :
    RetryAhead ms ms' := by
  obtain ⟨ms₁, m, hroute', hrouted, -⟩ := @routePacket_routed p packet pub ms h session
  obtain ⟨rfl, -⟩ := Prod.mk.inj (Except.ok.inj (hroute'.symm.trans hroute))
  obtain ⟨new, hperm, -⟩ := hrouted.heap
  exact ⟨hrouted.top, fun entry hmem => hperm.mem_iff.2 (List.mem_append_right _ hmem),
    routePacket_entries h hroute⟩

theorem setSession (r : SessionRef) (cs : ClientSession) : RetryAhead ms (ms.setSession r cs) :=
  of_eq (by rw [setSession_eq])

theorem setSession_pushDataToSend (r : SessionRef) (cs : ClientSession) (t : ℕ) (data : Bytes) :
    RetryAhead ms ((ms.setSession r cs).pushDataToSend t data) :=
  of_eq (by rw [setSession_eq]; rfl)

theorem publishHandler (ht : packet.header.type = .publish)
    (h : publishHandler p packet t ms = .ok handled) : RetryAhead ms handled.state := by
  rcases publishHandler_ok ht h with ⟨pub, ms₁, packet', hp, -, hroute, -, hstate⟩ |
    ⟨r, cs, pub, -, -, -, -, hstate⟩ | ⟨-, rfl⟩
  · have hsteady : Steady ms (ms.updateActivity (ms.getClientId t)) := .updateActivity _
    have hactive : RetryAhead ms (ms.updateActivity (ms.getClientId t)) :=
      of_eq (Tame.updateActivity _).retransmitHeap
    have hcalm : Calm none [] ms (ms.updateActivity (ms.getClientId t)) := .updateActivity _
    have hrouted := hactive.trans (routePacket ⟨ht, hp⟩ hroute) hsteady.now.ge hcalm.dead
    rcases hstate with hstate | ⟨data, hstate⟩ <;> rw [hstate]
    · exact hrouted
    · exact ⟨hrouted.top, hrouted.stays, hrouted.entries⟩
  · rw [hstate]
    exact setSession_pushDataToSend _ _ t _
  · exact of_eq rfl

theorem pubrelHandler (h : pubrelHandler p packet t ms = .ok handled) :
    RetryAhead ms handled.state := by
  rcases pubrelHandler_ok h with ⟨r, cs, ack, -, -, hcases⟩ | ⟨-, hstate⟩
  · have hnow : (released r cs ack.packetId ms).now = ms.now := by rw [released, setSession_eq]
    have hreleased : RetryAhead ms (released r cs ack.packetId ms) := setSession _ _
    rcases hcases with ⟨hf, ms₁, packet', hroute, hstate⟩ | ⟨-, hstate⟩
    · obtain ⟨pub, hpub⟩ := isPublish_of_routePacket hf hroute
      have hrouted := hreleased.trans (routePacket hpub hroute) hnow.ge fun r' hdead => by
        rw [released, lock_setSession]
        split_ifs with he
        · rw [← he, hdead]
          rfl
        · exact hdead
      rw [hstate]
      exact ⟨hrouted.top, hrouted.stays, hrouted.entries⟩
    · rw [hstate]
      exact ⟨hreleased.top, hreleased.stays, hreleased.entries⟩
  · rw [hstate]
    exact of_eq rfl

theorem dispatch (h : dispatch p packet t ms = .ok handled) : RetryAhead ms handled.state := by
  unfold Culex.dispatch handlers at h
  cases hty : packet.header.type <;> rw [hty] at h <;> simp only [PacketType.code] at h
  case connect => exact of_eq (connectHandler_tame h).retransmitHeap
  case publish => exact publishHandler hty h
  case puback =>
    rcases (pubackHandler_ends packet t ms).ok h with ⟨r, cs, -, ack, -, rfl⟩ | ⟨-, rfl⟩
    · exact setSession _ _
    · exact of_eq rfl
  case pubrec =>
    rcases (pubrecHandler_ends packet t ms).ok h with ⟨r, cs, -, ack, -, rfl⟩ | ⟨-, rfl⟩
    · exact setSession_pushDataToSend _ _ t _
    · exact of_eq rfl
  case pubrel => exact pubrelHandler h
  case pubcomp =>
    rcases (pubcompHandler_ends packet t ms).ok h with ⟨r, cs, -, ack, -, rfl⟩ | ⟨-, rfl⟩
    · exact setSession _ _
    · exact of_eq rfl
  case subscribe => exact of_eq (subscribeHandler_tame h).retransmitHeap
  case unsubscribe =>
    have h : unsubscribeHandler packet t ms = .ok handled := h
    unfold unsubscribeHandler at h
    split at h
    · cases h
    · obtain rfl := Except.ok.inj h
      exact of_eq rfl
  case pingreq =>
    have h : pingreqHandler packet t ms = .ok handled := h
    obtain rfl := Except.ok.inj h
    exact of_eq (Tame.updateActivity (ms.getClientId t)).retransmitHeap
  case reserved15 => cases h
  all_goals
    obtain rfl := Except.ok.inj h
    exact of_eq rfl

end RetryAhead

/-! ### Events -/

/-- An event other than `processRetransmissions` adds to the retransmission heap. -/
theorem Event.apply_ahead (hne : e ≠ .processRetransmissions) (h : e.apply p ms = .ok ms') :
    RetryAhead ms ms' := by
  cases e with
  | newConnection fd =>
    obtain rfl := Except.ok.inj h
    exact .of_eq rfl
  | closeConnection fd =>
    obtain rfl := Except.ok.inj h
    exact .of_eq rfl
  | tick elapsed =>
    obtain rfl := Except.ok.inj h
    exact .of_eq rfl
  | receive id data =>
    simp only [apply] at h
    split at h
    · obtain rfl := Except.ok.inj h
      exact .of_eq rfl
    · obtain rfl := Except.ok.inj h
      rw [setTransport_eq]
      exact .of_eq rfl
  | processExpiredSessions => exact .of_eq (processExpiredSessions_tame h).retransmitHeap
  | processRetransmissions => exact absurd rfl hne
  | parseData id beyond =>
    have hparses := parses_of_apply h
    generalize Event.arrival p (.parseData id beyond) ms = arrival at hparses
    cases hparses with
    | nothing => exact .of_eq rfl
    | @malformed old hl =>
      have hpurge : Tame ms (purge (ms.getClientId id) old ms) := by
        unfold purge
        split_ifs
        · exact .removeFromRegistry _
        · exact .refl ms
      have htame : Tame ms ((purge (ms.getClientId id) old ms).forceDisconnect id) :=
        hpurge.trans (.forceDisconnect id)
      exact .of_eq htame.retransmitHeap
    | @packet pkt handled ms₁ hd hf =>
      have htake : takeOut pkt id ms =
          { ms with transports := (takeOut pkt id ms).transports } := by
        unfold takeOut
        rw [setTransport_eq]
      have hdispatch : RetryAhead ms handled.state := by
        have hahead := RetryAhead.dispatch hd
        rw [htake] at hahead
        exact ⟨hahead.top, hahead.stays, hahead.entries⟩
      have hfinish := (finish_tame hf).retransmitHeap
      have hall : RetryAhead ms ms₁ := by
        refine ⟨?_, ?_, ?_⟩ <;> rw [hfinish]
        · exact hdispatch.top
        · exact hdispatch.stays
        · exact hdispatch.entries
      exact ⟨hall.top, hall.stays, hall.entries⟩

/-- A move takes the clock back at no time. -/
theorem Move.now_le (h : Move p ms ms') : ms.now ≤ ms'.now := by
  cases h with
  | onward ho => exact ho.now
  | register hreg => exact hreg.now.ge
  | sweep hs =>
    rw [hs.sweeps.eq]

theorem Event.now_le (hr : Reachable p ms) (h : e.apply p ms = .ok ms') : ms.now ≤ ms'.now := by
  have hmoves := e.moves hr.timed hr.sound hr.transportsAllocated h
  clear h
  induction hmoves with
  | refl => exact le_refl _
  | tail _ hm ih => exact ih.trans hm.now_le

/-- A session that is gone stays gone. -/
theorem Event.apply_dead (hr : Reachable p ms) (h : e.apply p ms = .ok ms')
    (hdead : ms.lock r = none) (hobj : r.obj < ms.nextObj) : ms'.lock r = none := by
  by_contra halive
  obtain ⟨cs', hl'⟩ := Option.ne_none_iff_exists'.1 halive
  obtain ⟨log, hevolves⟩ := (e.apply_change hr.sound h).evolves
  rcases hevolves.alive r cs' hl' with ⟨cs, hl, -⟩ | ⟨hnew, -⟩
  · cases hdead.symm.trans hl
  · omega

theorem Event.nextObj_le (hr : Reachable p ms) (h : e.apply p ms = .ok ms') :
    ms.nextObj ≤ ms'.nextObj := by
  obtain ⟨log, hevolves⟩ := (e.apply_change hr.sound h).evolves
  exact hevolves.nextObj

/-- The rounds of `processRetransmissions` schedule for live sessions. -/
theorem retransmitLoop_entries {rounds : ℕ} (hs : Sound ms)
    (h : retransmitLoop p rounds ms = .ok ms') : ∀ entry ∈ ms'.retransmitHeap.entries,
      entry ∈ ms.retransmitHeap.entries ∨ (ms.lock entry.session).isSome := by
  induction rounds generalizing ms with
  | zero => cases h
  | succ rounds ih =>
    by_cases hstop : Stopped ms
    · rw [retransmitLoop_stopped hstop] at h
      obtain rfl := Except.ok.inj h
      exact fun _ hmem => .inl hmem
    · obtain ⟨e, ms₁, hres⟩ := @exists_resends p ms hs hstop
      rw [retransmitLoop_resends hres] at h
      obtain ⟨log, hcalm⟩ := @Resends.calm p ms ms₁ none hs e hres
      obtain ⟨cs, packet, pub, ms₂, hrerouted, rfl⟩ := hres.spec hs
      obtain ⟨packet', hroute⟩ := hrerouted.route
      intro entry hmem
      rcases ih (hres.sound hs) h entry hmem with hmem | halive
      · exact routePacket_entries hrerouted.isPublish.withDup hroute entry
          (MinHeap.mem_of_mem_pop p.retransmitOrder hmem)
      · refine .inr ?_
        by_contra hdead
        rw [hcalm.dead _ (Option.not_isSome_iff_eq_none.1 hdead)] at halive
        cases halive

/-- The sessions of all entries have been created. -/
theorem Reachable.retryAllocated (h : Reachable p ms) :
    ∀ entry ∈ ms.retransmitHeap.entries, entry.session.obj < ms.nextObj := by
  have hboth : Reachable p ms ∧
      ∀ entry ∈ ms.retransmitHeap.entries, entry.session.obj < ms.nextObj := by
    refine h.invariant (I := fun ms => Reachable p ms ∧
      ∀ entry ∈ ms.retransmitHeap.entries, entry.session.obj < ms.nextObj)
      ⟨.init, fun entry hmem => by cases hmem⟩ ?_
    rintro ms₁ e ms₂ ⟨hr, hentries⟩ hstep
    refine ⟨hr.step hstep, fun entry hmem => ?_⟩
    have hold : entry ∈ ms₁.retransmitHeap.entries ∨ (ms₁.lock entry.session).isSome := by
      by_cases he : e = .processRetransmissions
      · subst he
        exact retransmitLoop_entries hr.sound hstep entry hmem
      · exact (Event.apply_ahead he hstep).entries entry hmem
    refine lt_of_lt_of_le ?_ (Event.nextObj_le hr hstep)
    rcases hold with hmem | halive
    · exact hentries entry hmem
    · obtain ⟨cs, hl⟩ := Option.isSome_iff_exists.1 halive
      exact hr.allocated.registered _ cs hl
  exact hboth.2

/-! ### Runs -/

theorem Jammed.retransmits_nothing (h : Jammed ms) :
    Event.apply p .processRetransmissions ms = .ok ms := by
  obtain ⟨entry, htop, -, hdead⟩ := h
  refine retransmitLoop_stopped ?_ _
  rintro e he - ⟨cs, hl, -⟩
  obtain rfl := Option.some.inj (htop.symm.trans he)
  cases hdead.symm.trans hl

/-- **A jammed heap stays jammed**: whatever happens, the entry stays on top with its session gone,
nothing is ever resent again, and every other entry stays as well. -/
theorem retransmits_nothing_of_run (hr : Reachable p ms) (hj : Jammed ms)
    (hrun : Run (BrokerStep p) ms events ms') :
    Jammed ms' ∧ ms'.retransmitHeap.top = ms.retransmitHeap.top ∧
      Event.apply p .processRetransmissions ms' = .ok ms' ∧
        ∀ entry ∈ ms.retransmitHeap.entries, entry ∈ ms'.retransmitHeap.entries := by
  have hkept : Reachable p ms' ∧ Jammed ms' ∧ ms'.retransmitHeap.top = ms.retransmitHeap.top ∧
      ∀ entry ∈ ms.retransmitHeap.entries, entry ∈ ms'.retransmitHeap.entries := by
    refine hrun.invariant (I := fun ms' => Reachable p ms' ∧ Jammed ms' ∧
      ms'.retransmitHeap.top = ms.retransmitHeap.top ∧
        ∀ entry ∈ ms.retransmitHeap.entries, entry ∈ ms'.retransmitHeap.entries)
      ⟨hr, hj, rfl, fun _ hmem => hmem⟩ ?_
    rintro ms₁ e ms₂ ⟨hr₁, hj₁, htop₁, hstays⟩ hstep
    refine ⟨hr₁.step hstep, ?_⟩
    by_cases he : e = .processRetransmissions
    · subst he
      obtain rfl := Except.ok.inj (hj₁.retransmits_nothing.symm.trans hstep)
      exact ⟨hj₁, htop₁, hstays⟩
    · have hahead := Event.apply_ahead he hstep
      obtain ⟨entry, htop, hdue, hdead⟩ := hj₁
      have hobj := hr₁.retryAllocated entry (MinHeap.top_mem htop)
      have htop₂ := hahead.top entry htop hdue
      exact ⟨⟨entry, htop₂, hdue.trans (Event.now_le hr₁ hstep),
        Event.apply_dead hr₁ hstep hdead hobj⟩, htop₂.trans (htop.symm.trans htop₁),
          fun e he => hahead.stays e (hstays e he)⟩
  exact ⟨hkept.2.1, hkept.2.2.1, hkept.2.1.retransmits_nothing, hkept.2.2.2⟩

/-- Client `A` is sent a message, connects again with a clean session, and the retry is due. -/
def jammedBroker : ManageSessions :=
  after .sorting (.newConnection 3 :: arrive 0 (connectFrame 65 2) ++
    arrive 0 (subscribeFrame 116 1) ++ arrive 0 (publishFrame 1 116 7 1) ++
      .newConnection 4 :: arrive 2 (connectFrame 65 2) ++ [.tick 5000])

/-- It subscribes again, and is sent another message, whose retry is due six seconds later. -/
def laterTraffic : List Event :=
  arrive 2 (subscribeFrame 116 1) ++ arrive 2 (publishFrame 1 116 2 1) ++
    [.tick 6000, .processRetransmissions]

/-- That message is not sent again: both entries stay. -/
theorem retransmits_nothing_of_run_jammed : ∃ ms',
    Run (BrokerStep .sorting) jammedBroker laterTraffic ms' ∧ Jammed ms' ∧
      ms'.retransmitHeap.top = jammedBroker.retransmitHeap.top ∧
      Event.apply .sorting .processRetransmissions ms' = .ok ms' ∧
      ms'.retransmitHeap.entries.length = 2 := by
  have htop : jammedBroker.retransmitHeap.top.any fun entry =>
      entry.retryMs ≤ jammedBroker.now ∧ (jammedBroker.lock entry.session).isNone := by
    decide +kernel
  obtain ⟨entry, htop, hdue, hdead⟩ := exists_of_any htop
  have hj : Jammed jammedBroker := ⟨entry, htop, hdue, Option.isNone_iff_eq_none.1 hdead⟩
  obtain ⟨ms', hok, hlength⟩ := @exists_of_any_ok _ _
    (laterTraffic.foldlM (fun ms e => e.apply .sorting ms) jammedBroker)
    (fun ms => ms.retransmitHeap.entries.length = 2) _ (by decide +kernel)
  have hrun : Run (BrokerStep .sorting) jammedBroker laterTraffic ms' :=
    .of_except (fun _ _ _ hstep => hstep) hok
  obtain ⟨hj', htop', hnothing, -⟩ := retransmits_nothing_of_run (after_reachable _ _) hj hrun
  exact ⟨ms', hrun, hj', htop', hnothing, hlength⟩

end Culex
