import Culex.Fanout
import Culex.HeadOfLine
import Culex.Identifiers

/-!
# Whether a retransmission is targeted

A due PUBLISH is not sent to the session of its entry again, but routed like a new message: every
subscriber of the topic gets another copy, and for every connected one another retransmission is
scheduled.

* `Targeted`: what a round should do, and nothing else;
* `Harmless`: the states where routing happens to do nothing else;
* `targeted_iff`: a round is targeted exactly there, and without such rounds only, inflight messages
  and retransmissions get more.
-/

namespace Culex

open ManageSessions

/-- The bytes are the packet once more, under this identifier: a PUBLISH with its duplicate flag set
and with a positive QoS, since others have no identifier, or the acknowledgment. -/
def IsRetransmission (packetId : UInt16) (packet : Packet) (data : Bytes) : Prop :=
  match packet.pkt with
  | .publish pub => HoldsId data pub packetId ∧
      ∃ first rest, data = first :: rest ∧ first &&& 0x08 ≠ 0 ∧ first &&& 0x06 ≠ 0
  | _ => data = (buildAck packetId packet.header.type []).1

/-- No session has an inflight message more, and there is no retransmission more. -/
structure NotGrown (ms ms' : ManageSessions) : Prop where
  inflight : ∀ r cs', ms'.lock r = some cs' → ∃ cs, ms.lock r = some cs ∧
    (∀ k ∈ cs'.inflight, k ∈ cs.inflight) ∧ cs'.inflight.keys.length ≤ cs.inflight.keys.length
  entries : ms'.retransmitHeap.entries.length ≤ ms.retransmitHeap.entries.length

/-- What the round for an entry should do. -/
structure Targeted (ms : ManageSessions) (e : RetransmitEntry) (ms' : ManageSessions) : Prop
    extends NotGrown ms ms' where
  /-- Bytes go to the transport of the entry's session only, and are its packet. -/
  pushed : ∀ t data, .pushDataToSend t data ∈ ms'.calls.drop ms.calls.length →
    ms.transportOf e.session = some t ∧
      ∃ packet, storedFor ms e = some packet ∧ IsRetransmission e.packetId packet data
  /-- Nobody else has a copy queued. -/
  queued : ∀ r pkt, .storeMessage r pkt ∈ ms'.calls.drop ms.calls.length → r = e.session

/-- Routing a message once more is harmless: nothing can be pushed, and among the subscriptions to
which it comes with a positive QoS the offline ones are those of the session `r` itself, the
connected ones have the message inflight, and there is one of these at most. -/
structure Harmless (p : Platform) (ms : ManageSessions) (r : SessionRef) (pub : Publish)
    (qos : UInt8) : Prop where
  silent : ∀ sub ∈ routeTargets p pub ms, ms.connectedAt sub.session = some true →
    ms.transportOf sub.session = none
  queued : ∀ sub ∈ handed ms.connectedAt qos (routeTargets p pub ms),
    ms.connectedAt sub.session = some false → sub.session = r
  inflight : ∀ sub ∈ handed ms.connectedAt qos (routeTargets p pub ms),
    ∀ cs ∈ ms.lock sub.session, cs.connected = true → pub.packetId ∈ cs.inflight
  single : (handed ms.connectedAt qos (routeTargets p pub ms)).countP
    (fun sub => ms.connectedAt sub.session = some true) ≤ 1

/-- The round for an entry is harmless. -/
def HarmlessRound (p : Platform) (ms : ManageSessions) (e : RetransmitEntry) : Prop :=
  ∀ packet pub, storedFor ms e = some packet → packet.pkt = .publish pub →
    Harmless p ms e.session pub packet.header.qos

variable {p : Platform} {ms ms' : ManageSessions} {e : RetransmitEntry} {packet : Packet}
  {pub : Publish}

/-! ### Growth -/

theorem Inflight.length_keys_le {m m' : Inflight} (h : ∀ k ∈ m', k ∈ m) :
    m'.keys.length ≤ m.keys.length :=
  (m'.nodupKeys.subperm h).length_le

namespace NotGrown

theorem of_eq (hr : ms'.sessionRegistry = ms.sessionRegistry)
    (hh : ms'.retransmitHeap = ms.retransmitHeap) : NotGrown ms ms' where
  inflight r cs' hl := ⟨cs', by rw [← hl, lock_congr hr], fun _ hk => hk, le_rfl⟩
  entries := by rw [hh]

theorem trans {ms₁ : ManageSessions} (h : NotGrown ms ms₁) (h' : NotGrown ms₁ ms') :
    NotGrown ms ms' where
  inflight r cs' hl := by
    obtain ⟨cs₁, hl₁, hmem', hlen'⟩ := h'.inflight r cs' hl
    obtain ⟨cs, hl₀, hmem, hlen⟩ := h.inflight r cs₁ hl₁
    exact ⟨cs, hl₀, fun k hk => hmem k (hmem' k hk), hlen'.trans hlen⟩
  entries := h'.entries.trans h.entries

end NotGrown

/-! ### One round -/

theorem Header.pack_and_six {header : Header} (hq : header.qos = 0) : header.pack &&& 0x06 = 0 := by
  obtain ⟨type, dup, qos, retain⟩ := header
  simp only at hq
  subst hq
  cases type <;> cases dup <;> cases retain <;> decide

/-- No frame of a message is a retransmission: with a positive QoS it holds the identifier 0. -/
theorem not_isRetransmission {packetId : UInt16} (hp : packet.pkt = .publish pub)
    (hid : packetId ≠ 0) (header : Header) :
    ¬ IsRetransmission packetId packet (publishBytes header pub) := by
  unfold IsRetransmission
  rw [hp]
  rintro ⟨hholds, first, rest, hdata, -, hqos⟩
  by_cases hq : 0 < header.qos
  · exact hid ((holdsId_publishBytes hq).1 hholds)
  · have hfirst : header.pack = first := (List.cons.inj hdata).1
    have hzero : header.qos = 0 := by simpa [UInt8.pos_iff_ne_zero] using hq
    exact hqos (hfirst ▸ Header.pack_and_six hzero)

/-- A round fans the message of its entry out, and pops the entry. -/
theorem Resends.fanned (hs : Sound ms) (h : Resends p ms e ms') :
    ∃ packet pub log ms₁, Culex.storedFor ms e = some packet ∧ IsPublish packet pub ∧
      pub.packetId = e.packetId ∧
      Fanned pub (routeTargets p pub ms)
        (handed ms.connectedAt packet.header.qos (routeTargets p pub ms)) log ms ms₁ ∧
      ms' = popRetransmit p ms₁ ∧
      ms'.retransmitHeap.entries.length + 1 = ms₁.retransmitHeap.entries.length := by
  obtain ⟨cs, packet, pub, ms₁, hr, rfl⟩ := h.spec hs
  obtain ⟨ms₂, packet', log, hroute, hf⟩ :=
    @routePacket_fanned p packet.withDup pub ms hr.isPublish.withDup none
  obtain ⟨packet'', hroute'⟩ := hr.route
  rw [hroute', Except.ok.injEq, Prod.mk.injEq] at hroute
  obtain ⟨rfl, -⟩ := hroute
  have hst : Culex.storedFor ms e = some packet := by
    unfold Culex.storedFor
    rw [hr.lock, Option.bind_some, if_pos (hs.retransmit e (MinHeap.top_mem h.top)).1, hr.lookup]
  have htop : ms₁.retransmitHeap.top = some e := hr.routed.top e h.top h.due
  exact ⟨packet, pub, log, ms₁, hst, hr.isPublish, hr.packetId, hf, rfl,
    MinHeap.length_pop p.retransmitOrder htop⟩

/-- **A round is targeted exactly if it is harmless.** -/
theorem Resends.targeted_iff_harmless (hs : Sound ms) (h : Resends p ms e ms') :
    Targeted ms e ms' ↔ HarmlessRound p ms e := by
  have hid := (hs.retransmit e (MinHeap.top_mem h.top)).2
  obtain ⟨packet, pub, log, ms₁, hst, hpub, hpid, hf, rfl, hlen⟩ := h.fanned hs
  have hlock : ∀ r, (popRetransmit p ms₁).lock r = ms₁.lock r := fun _ => rfl
  have hdrop : (popRetransmit p ms₁).calls.drop ms.calls.length = log := by
    show ms₁.calls.drop _ = log
    rw [hf.calls, List.drop_left]
  have hentries := hf.entries
  constructor
  · intro htarget packet' pub' hst' hpub'
    obtain rfl := Option.some.inj (hst.symm.trans hst')
    obtain rfl : pub' = pub := by simpa [hpub.pkt] using hpub'.symm
    refine ⟨fun sub hsub hc => ?_, fun sub hsub hc => ?_, fun sub hsub cs hl hc => ?_, ?_⟩
    · by_contra hne
      obtain ⟨t, ht⟩ := Option.ne_none_iff_exists'.1 hne
      -- a frame is pushed, and it cannot be the retransmission
      obtain ⟨data, hmem⟩ := (hf.pushed t).2 ⟨sub, hsub, hc, ht⟩
      obtain ⟨-, packet', hst', hret⟩ := htarget.pushed t data (hdrop ▸ hmem)
      obtain rfl := Option.some.inj (hst.symm.trans hst')
      obtain ⟨header, rfl⟩ := hf.frames t data hmem
      exact not_isRetransmission hpub.pkt hid header hret
    · obtain ⟨pkt, hmem⟩ := (hf.stored sub.session).2 ⟨sub, hsub, hc, rfl⟩
      exact htarget.queued _ pkt (hdrop ▸ hmem)
    · obtain ⟨cs', hl', hk⟩ := hf.inflight _ cs hl
      obtain ⟨cs₀, hl₀, hsub', -⟩ := htarget.inflight _ cs' hl'
      obtain rfl := Option.some.inj (hl.symm.trans hl₀)
      have hc' : ms.connectedAt sub.session = some true := by rw [connectedAt_of_lock hl, hc]
      exact hsub' _ ((hk _).2 (.inr ⟨rfl, sub, hsub, hc', rfl⟩))
    · -- each connected session gets an entry, and one entry is popped
      have := htarget.entries
      omega
  · intro hround
    have hharm := hround packet pub hst hpub.pkt
    have hsilent : ∀ t data, .pushDataToSend t data ∉ log := by
      intro t data hmem
      obtain ⟨sub, hsub, hc, ht⟩ := (hf.pushed t).1 ⟨data, hmem⟩
      rw [hharm.silent sub hsub hc] at ht
      cases ht
    refine ⟨⟨fun r cs' hl' => ?_, ?_⟩, fun t data hmem => ?_, fun r pkt hmem => ?_⟩
    · -- a session that is alive now was alive before
      have hc : ms.connectedAt r = some cs'.connected := by
        rw [← hf.connectedAt]
        exact connectedAt_of_lock hl'
      obtain ⟨cs, hl, -⟩ := Option.map_eq_some_iff.1 hc
      obtain ⟨cs₁, hl₁, hk⟩ := hf.inflight r cs hl
      obtain rfl := Option.some.inj (hl₁.symm.trans hl')
      have hsub : ∀ k ∈ cs₁.inflight, k ∈ cs.inflight := by
        intro k hmem
        rcases (hk k).1 hmem with hmem | ⟨rfl, sub, hsub, hcon, rfl⟩
        · exact hmem
        · rw [connectedAt_of_lock hl, Option.some.injEq] at hcon
          exact hharm.inflight sub hsub cs hl hcon
      exact ⟨cs, hl, hsub, Inflight.length_keys_le hsub⟩
    · have := hharm.single
      omega
    · exact absurd (hdrop ▸ hmem) (hsilent t data)
    · obtain ⟨sub, hsub, hc, rfl⟩ := (hf.stored r).1 ⟨pkt, hdrop ▸ hmem⟩
      exact hharm.queued sub hsub hc

/-! ### Runs of retries -/

/-- The actions that are harmless. -/
def HarmlessAction (p : Platform) (ms : ManageSessions) : RetryAction → Prop
  | .tick _ => True
  | .resend e => HarmlessRound p ms e

/-- Over harmless rounds nothing grows, however much time passes between them. -/
theorem notGrown_of_run (hs : Sound ms) {actions : List RetryAction}
    (hrun : Run (Meeting (RetryStep p) (HarmlessAction p)) ms actions ms') : NotGrown ms ms' := by
  have hboth : Sound ms' ∧ NotGrown ms ms' := by
    refine hrun.invariant (I := fun s => Sound s ∧ NotGrown ms s) ⟨hs, .of_eq rfl rfl⟩ ?_
    rintro s a s' ⟨hs₁, hgrown⟩ ⟨hharm, hstep⟩
    refine ⟨hstep.sound hs₁, hgrown.trans ?_⟩
    cases a with
    | tick elapsed =>
      cases hstep
      exact .of_eq rfl rfl
    | resend e => exact ((Resends.targeted_iff_harmless hs₁ hstep).2 hharm).toNotGrown
  exact hboth.2

/-- **Retransmission is targeted exactly in harmless rounds.**  A call of `processRetransmissions`
is a run of rounds; each round, after any number of others and at any time, is targeted exactly if it
is harmless; and over harmless rounds nothing grows. -/
theorem targeted_iff (hr : Reachable p ms) :
    (∃ (es : List RetransmitEntry) (ms' : ManageSessions), ms.processRetransmissions p = .ok ms' ∧
        Run (RetryStep p) ms (es.map .resend) ms') ∧
      (∀ actions ms₁ e ms', Run (RetryStep p) ms actions ms₁ → Resends p ms₁ e ms' →
        (Targeted ms₁ e ms' ↔ HarmlessRound p ms₁ e)) ∧
      ∀ actions ms', Run (Meeting (RetryStep p) (HarmlessAction p)) ms actions ms' →
        NotGrown ms ms' := by
  have hs := hr.sound
  refine ⟨?_, fun actions ms₁ e ms' hrun hround => ?_, fun actions ms' hrun => ?_⟩
  · obtain ⟨es, ms', hok, hrun, -⟩ := @processRetransmissions_run p ms hs
    exact ⟨es, ms', hok, hrun⟩
  · have hs₁ : Sound ms₁ := hrun.invariant hs fun s a s' hs hstep => hstep.sound hs
    exact hround.targeted_iff_harmless hs₁
  · exact notGrown_of_run hs hrun

/-- The PUBLISH that these runs route, as it is stored. -/
def packetTwo : Packet := { packetSeven with pkt := .publish { messageSeven with packetId := 2 } }

/-- The connection of the subscriber breaks before the retransmission is due. -/
def subscriberGone : ManageSessions :=
  after .sorting (.newConnection 3 :: arrive 0 (connectFrame 65 2) ++
    arrive 0 (subscribeFrame 116 1) ++ arrive 0 (publishFrame 1 116 2 1) ++
      [.closeConnection 3, .tick 5000])

/-- The entry for its message. -/
def entryTwo (session : SessionRef) : RetransmitEntry := ⟨5000, 2, .publish, session⟩

/-- Its round is targeted. -/
theorem targeted_iff_gone : ∃ ms', Resends .sorting subscriberGone (entryTwo ⟨[65], 1⟩) ms' ∧
    Targeted subscriberGone (entryTwo ⟨[65], 1⟩) ms' := by
  have hr : Reachable .sorting subscriberGone := after_reachable _ _
  have htop : subscriberGone.retransmitHeap.top = some (entryTwo ⟨[65], 1⟩) := by decide +kernel
  have hst : storedFor subscriberGone (entryTwo ⟨[65], 1⟩) = some packetTwo := by decide +kernel
  have hround : HarmlessRound .sorting subscriberGone (entryTwo ⟨[65], 1⟩) := by
    intro packet pub hst' hpub
    obtain rfl := Option.some.inj (hst.symm.trans hst')
    cases hpub
    exact ⟨by decide +kernel, by decide +kernel, by decide +kernel, by decide +kernel⟩
  obtain ⟨ms', h⟩ := @exists_resends_of_top .sorting _ _ hr.sound htop (by decide +kernel)
    (by rw [hst]; rfl)
  exact ⟨ms', h, ((targeted_iff hr).2.1 [] _ _ ms' .nil h).2 hround⟩

/-- Two clients have got a message that nobody acknowledges, and its retransmissions are due. -/
def twoDue : ManageSessions :=
  after .sorting (.newConnection 3 :: arrive 0 (connectFrame 65 2) ++
    arrive 0 (subscribeFrame 116 1) ++ .newConnection 4 :: arrive 2 (connectFrame 66 2) ++
    arrive 2 (subscribeFrame 116 1) ++ arrive 2 (publishFrame 1 116 2 1) ++ [.tick 5000])

/-- The round for `B` sends the message to `A` as well, and there is one retransmission more after
it; a call of `processRetransmissions` doubles their number. -/
theorem not_targeted_two :
    Reachable .sorting twoDue ∧
      (∃ ms', Resends .sorting twoDue (entryTwo ⟨[66], 3⟩) ms' ∧
        ¬ Targeted twoDue (entryTwo ⟨[66], 3⟩) ms') ∧
      ∃ ms', twoDue.processRetransmissions .sorting = .ok ms' ∧ ¬ NotGrown twoDue ms' := by
  have hr : Reachable .sorting twoDue := after_reachable _ _
  have htop : twoDue.retransmitHeap.top = some (entryTwo ⟨[66], 3⟩) := by decide +kernel
  have hst : storedFor twoDue (entryTwo ⟨[66], 3⟩) = some packetTwo := by decide +kernel
  have hbefore : twoDue.retransmitHeap.entries.length = 2 := by decide +kernel
  have hafter : (twoDue.processRetransmissions .sorting).map
      (fun ms => ms.retransmitHeap.entries.length) = .ok 4 := by decide +kernel
  refine ⟨hr, ?_, ?_⟩
  · obtain ⟨ms', h⟩ := @exists_resends_of_top .sorting _ _ hr.sound htop (by decide +kernel)
      (by rw [hst]; rfl)
    refine ⟨ms', h, fun htarget => ?_⟩
    have hharm := (h.targeted_iff_harmless hr.sound).1 htarget packetTwo _ hst rfl
    exact absurd hharm.single (by decide +kernel)
  · obtain ⟨es, ms', hok, -⟩ := @processRetransmissions_run .sorting _ hr.sound
    refine ⟨ms', hok, fun hgrown => ?_⟩
    rw [hok, Except.map, Except.ok.injEq] at hafter
    have := hgrown.entries
    omega

end Culex
