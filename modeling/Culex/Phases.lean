import Culex.Sound
import Culex.Broker

/-!
# The phases of outbound QoS 2 messages

A PUBLISH that is stored waits for its PUBREC, and then its PUBREL for the PUBCOMP.  The handler of
PUBREC stores the PUBREL, but the PUBLISH stays where it is: so the two phases are exclusive only
over runs without a PUBREC that answers anything.
-/

namespace Culex

open ManageSessions

/-- What happens to the outbound QoS 2 messages of a session. -/
inductive PhaseAction
  | storeInflight (packet : Packet)
  | pubrec (packetId : UInt16)
  | pubcomp (packetId : UInt16)

/-- An action on the session `r`, which is served on the transport `t`. -/
def PhaseStep (t : ℕ) (r : SessionRef) (ms : ManageSessions) (a : PhaseAction)
    (ms' : ManageSessions) : Prop :=
  match a with
  | .storeInflight packet => packet.header.type = .publish ∧ packet.header.qos = 2 ∧
      ∃ cs cs', ms.lock r = some cs ∧ cs.storeInflight packet = .ok cs' ∧ ms' = ms.setSession r cs'
  | .pubrec packetId => ∃ packet handled, packet.header.type = .pubrec ∧
      packet.pkt = .ack { packetId } ∧ pubrecHandler packet t ms = .ok handled ∧
        ms' = handled.state
  | .pubcomp packetId => ∃ packet handled, packet.header.type = .pubcomp ∧
      packet.pkt = .ack { packetId } ∧ pubcompHandler packet t ms = .ok handled ∧
        ms' = handled.state

/-- A packet id is in one phase at most. -/
def ClientSession.Exclusive (cs : ClientSession) : Prop :=
  ∀ packetId, ¬ (packetId ∈ cs.inflight ∧ packetId ∈ cs.inflightAck)

/-- After an action the phases are exclusive, and what has been acknowledged is over. -/
def PhasesKept (a : PhaseAction) (cs : ClientSession) : Prop :=
  cs.Exclusive ∧
    match a with
    | .storeInflight _ => True
    | .pubrec packetId => packetId ∉ cs.inflight
    | .pubcomp packetId => packetId ∉ cs.inflight ∧ packetId ∉ cs.inflightAck

/-- The action comes in its phase as the two maps have it: a PUBLISH is stored under an id that
waits for no PUBCOMP, and PUBREC and PUBCOMP have an id under which no PUBLISH is stored. -/
def InPhase (r : SessionRef) (ms : ManageSessions) (a : PhaseAction) : Prop :=
  ∀ cs, ms.lock r = some cs →
    match a with
    | .storeInflight packet => ∀ pub, packet.pkt = .publish pub → pub.packetId ∉ cs.inflightAck
    | .pubrec packetId => packetId ∉ cs.inflight
    | .pubcomp packetId => packetId ∉ cs.inflight

variable {ms ms' : ManageSessions} {t : ℕ} {r : SessionRef} {cs cs' : ClientSession}
  {a : PhaseAction}

/-! ### One action -/

/-- What an action does to the two maps of the session. -/
def Moves (a : PhaseAction) (cs cs' : ClientSession) : Prop :=
  match a with
  | .storeInflight packet => ∃ pub, packet.pkt = .publish pub ∧
      (∀ k, k ∈ cs'.inflight ↔ k = pub.packetId ∨ k ∈ cs.inflight) ∧
        ∀ k, k ∈ cs'.inflightAck ↔ k ∈ cs.inflightAck
  | .pubrec packetId => (∀ k, k ∈ cs'.inflight ↔ k ∈ cs.inflight) ∧
      ∀ k, k ∈ cs'.inflightAck ↔ k = packetId ∨ k ∈ cs.inflightAck
  | .pubcomp packetId => (∀ k, k ∈ cs'.inflight ↔ k ∈ cs.inflight) ∧
      ∀ k, k ∈ cs'.inflightAck ↔ k ≠ packetId ∧ k ∈ cs.inflightAck

theorem PhaseStep.moves (hserves : Serves ms t r cs) (h : PhaseStep t r ms a ms') :
    ∃ cs', Serves ms' t r cs' ∧ Moves a cs cs' := by
  cases a with
  | storeInflight packet =>
    obtain ⟨-, -, cs₀, cs', hl, hstore, rfl⟩ := h
    obtain rfl := Option.some.inj (hserves.lock.symm.trans hl)
    refine ⟨cs', hserves.setSession cs', ?_⟩
    unfold ClientSession.storeInflight at hstore
    split at hstore
    · next pub hp =>
      obtain rfl := Except.ok.inj hstore
      exact ⟨pub, hp, fun k => Inflight.mem_insertNew k, fun k => Iff.rfl⟩
    · cases hstore
  | pubrec packetId =>
    obtain ⟨packet, handled, -, hp, hh, rfl⟩ := h
    rw [pubrecHandler_eq hserves hp] at hh
    obtain rfl := Except.ok.inj hh
    exact ⟨_, (hserves.setSession _).pushDataToSend _, fun k => Iff.rfl,
      fun k => Inflight.mem_insertNew k⟩
  | pubcomp packetId =>
    obtain ⟨packet, handled, -, hp, hh, rfl⟩ := h
    rw [pubcompHandler_eq hserves hp] at hh
    obtain rfl := Except.ok.inj hh
    exact ⟨_, hserves.setSession _, fun k => Iff.rfl, fun k => AList.mem_erase⟩

/-- **An action keeps the phases exactly if it comes in its phase.** -/
theorem Moves.kept_iff (h : Moves a cs cs') (hex : cs.Exclusive) (hl : ms.lock r = some cs) :
    PhasesKept a cs' ↔ InPhase r ms a := by
  have hphase : ∀ P : ClientSession → Prop, (∀ cs₀, ms.lock r = some cs₀ → P cs₀) ↔ P cs := by
    intro P
    constructor
    · exact fun hall => hall cs hl
    · intro hcs cs₀ hl₀
      obtain rfl := Option.some.inj (hl.symm.trans hl₀)
      exact hcs
  unfold PhasesKept InPhase
  rw [hphase]
  unfold ClientSession.Exclusive at hex ⊢
  cases a with
  | storeInflight packet =>
    obtain ⟨pub, hp, hin, hack⟩ := h
    simp only [hin, hack, and_true]
    constructor
    · intro hall pub' hp' hmem
      obtain rfl := Packet.Variant.publish.inj (hp.symm.trans hp')
      exact hall _ ⟨.inl rfl, hmem⟩
    · rintro hfree k ⟨rfl | hk, hmem⟩
      · exact hfree pub hp hmem
      · exact hex k ⟨hk, hmem⟩
  | pubrec packetId =>
    obtain ⟨hin, hack⟩ := h
    simp only [hin, hack]
    constructor
    · exact fun hboth => hboth.2
    · refine fun hfree => ⟨?_, hfree⟩
      rintro k ⟨hk, rfl | hmem⟩
      · exact hfree hk
      · exact hex k ⟨hk, hmem⟩
  | pubcomp packetId =>
    obtain ⟨hin, hack⟩ := h
    simp only [hin, hack]
    constructor
    · exact fun hboth => hboth.2.1
    · intro hfree
      exact ⟨fun k hk => hex k ⟨hk.1, hk.2.2⟩, hfree, fun hk => hk.1 rfl⟩

/-! ### Runs -/

/-- **Over every run of actions in their phases** the phases are exclusive, and the next action
keeps them exactly if it comes in its phase, too. -/
theorem phases_of_run {actions : List PhaseAction} (hserves : Serves ms t r cs)
    (hstart : cs.Exclusive) (hrun : Run (Meeting (PhaseStep t r) (InPhase r)) ms actions ms') :
    ∃ cs', Serves ms' t r cs' ∧ cs'.Exclusive ∧ ∀ a ms'', PhaseStep t r ms' a ms'' →
      ∃ cs'', ms''.lock r = some cs'' ∧ (PhasesKept a cs'' ↔ InPhase r ms' a) := by
  obtain ⟨cs', hserves', hex⟩ : ∃ cs', Serves ms' t r cs' ∧ cs'.Exclusive := by
    refine hrun.invariant (I := fun ms' => ∃ cs', Serves ms' t r cs' ∧ cs'.Exclusive)
      ⟨cs, hserves, hstart⟩ ?_
    rintro ms₁ a ms₂ ⟨cs₁, hserves₁, hex₁⟩ ⟨hphase, hstep⟩
    obtain ⟨cs₂, hserves₂, hmoves⟩ := hstep.moves hserves₁
    exact ⟨cs₂, hserves₂, ((hmoves.kept_iff hex₁ hserves₁.lock).2 hphase).1⟩
  refine ⟨cs', hserves', hex, fun a ms'' hstep => ?_⟩
  obtain ⟨cs'', hserves'', hmoves⟩ := hstep.moves hserves'
  exact ⟨cs'', hserves''.lock, hmoves.kept_iff hex hserves'.lock⟩

/-- The session of a client that has connected has nothing inflight. -/
theorem oneClient_serves : ∃ r cs, Serves oneClient 0 r cs ∧ cs.inflight = ∅ ∧
    cs.inflightAck = ∅ := by
  have hid : oneClient.getClientId 0 = [65] := by decide +kernel
  have hreg : (oneClient.sessionRegistry.lookup [65]).any fun entry =>
      entry.state.inflight.entries.isEmpty ∧ entry.state.inflightAck.entries.isEmpty := by
    decide +kernel
  obtain ⟨entry, hl, hin, hack⟩ := exists_of_any hreg
  exact ⟨⟨[65], entry.obj⟩, entry.state, ⟨hid, lock_of_lookup hl⟩,
    AList.ext (List.isEmpty_iff.1 hin), AList.ext (List.isEmpty_iff.1 hack)⟩

theorem exclusive_of_empty (h : cs.inflight = ∅) : cs.Exclusive := by
  rintro packetId ⟨hin, -⟩
  rw [h] at hin
  cases hin

/-- The message with QoS 2. -/
def packetSevenTwice : Packet := { packetSeven with header := { packetSeven.header with qos := 2 } }

/-- The next message. -/
def packetEightTwice : Packet :=
  { packetSevenTwice with pkt := .publish { messageSeven with packetId := 8 } }

theorem storeInflight_step {packet : Packet} {pub : Publish} (h : Serves ms t r cs)
    (hp : packet.pkt = .publish pub) (ht : packet.header.type = .publish)
    (hq : packet.header.qos = 2) :
    ∃ ms' cs', PhaseStep t r ms (.storeInflight packet) ms' ∧ Serves ms' t r cs' ∧
      (∀ k, k ∈ cs'.inflight ↔ k = pub.packetId ∨ k ∈ cs.inflight) ∧
        ∀ k, k ∈ cs'.inflightAck ↔ k ∈ cs.inflightAck := by
  have hstore : ∃ cs', cs.storeInflight packet = .ok cs' := by
    unfold ClientSession.storeInflight
    rw [hp]
    exact ⟨_, rfl⟩
  obtain ⟨cs', hstore⟩ := hstore
  have hstep : PhaseStep t r ms (.storeInflight packet) (ms.setSession r cs') :=
    ⟨ht, hq, cs, cs', h.lock, hstore, rfl⟩
  obtain ⟨cs₁, hserves, pub', hp', hmoves⟩ := hstep.moves h
  obtain rfl := Packet.Variant.publish.inj (hp.symm.trans hp')
  exact ⟨_, cs₁, hstep, hserves, hmoves⟩

theorem pubrec_step (h : Serves ms t r cs) (k : UInt16) :
    ∃ ms', PhaseStep t r ms (.pubrec k) ms' := by
  let packet : Packet := { header := { type := .pubrec }, pktLen := 4, pkt := .ack ⟨k⟩ }
  exact ⟨_, packet, _, rfl, rfl, pubrecHandler_eq h rfl, rfl⟩

/-- Two messages with QoS 2 are stored.  A PUBREC for neither of them keeps the phases, one for the
first does not. -/
theorem phases_of_run_stored : ∃ r ms, Run (Meeting (PhaseStep 0 r) (InPhase r)) oneClient
      [.storeInflight packetSevenTwice, .storeInflight packetEightTwice] ms ∧
    (∃ ms' cs', PhaseStep 0 r ms (.pubrec 9) ms' ∧ ms'.lock r = some cs' ∧
      PhasesKept (.pubrec 9) cs') ∧
    ∃ ms' cs', PhaseStep 0 r ms (.pubrec 7) ms' ∧ ms'.lock r = some cs' ∧
      ¬ PhasesKept (.pubrec 7) cs' := by
  obtain ⟨r, cs, hserves, hin, hack⟩ := oneClient_serves
  obtain ⟨ms₁, cs₁, hseven, hserves₁, hin₁, hack₁⟩ :=
    @storeInflight_step _ 0 r cs packetSevenTwice messageSeven hserves rfl rfl rfl
  obtain ⟨ms₂, cs₂, height, hserves₂, hin₂, -⟩ :=
    @storeInflight_step _ 0 r cs₁ packetEightTwice { messageSeven with packetId := 8 } hserves₁ rfl
      rfl rfl
  have hnone : ∀ k, k ∉ cs.inflight ∧ k ∉ cs.inflightAck := by
    intro k
    rw [hin, hack]
    exact ⟨AList.notMem_empty k, AList.notMem_empty k⟩
  have hphase : InPhase r oneClient (.storeInflight packetSevenTwice) := by
    intro cs₀ hl₀ pub _
    obtain rfl := Option.some.inj (hserves.lock.symm.trans hl₀)
    exact (hnone _).2
  have hphase₁ : InPhase r ms₁ (.storeInflight packetEightTwice) := by
    intro cs₀ hl₀ pub _
    obtain rfl := Option.some.inj (hserves₁.lock.symm.trans hl₀)
    exact fun hmem => (hnone _).2 ((hack₁ _).1 hmem)
  have hrun : Run (Meeting (PhaseStep 0 r) (InPhase r)) oneClient
      [.storeInflight packetSevenTwice, .storeInflight packetEightTwice] ms₂ :=
    (Run.nil.snoc ⟨hphase, hseven⟩).snoc ⟨hphase₁, height⟩
  have hstored : ∀ k, k ∈ cs₂.inflight ↔ k = 8 ∨ k = 7 := by
    intro k
    rw [hin₂, hin₁]
    simp [hnone, messageSeven]
  obtain ⟨cs₃, hserves₃, -, hnext⟩ := phases_of_run hserves (exclusive_of_empty hin) hrun
  obtain ⟨ms', hnine⟩ := pubrec_step hserves₂ 9
  obtain ⟨ms'', hagain⟩ := pubrec_step hserves₂ 7
  obtain ⟨cs', hl', hkept⟩ := hnext _ _ hnine
  obtain ⟨cs'', hl'', hlost⟩ := hnext _ _ hagain
  refine ⟨r, ms₂, hrun, ⟨ms', cs', hnine, hl', hkept.2 fun cs₀ hl₀ => ?_⟩,
    ⟨ms'', cs'', hagain, hl'', fun hkept => ?_⟩⟩
  · obtain rfl := Option.some.inj (hserves₂.lock.symm.trans hl₀)
    show (9 : UInt16) ∉ cs₂.inflight
    rw [hstored]
    decide
  · exact hlost.1 hkept cs₂ hserves₂.lock ((hstored 7).2 (.inr rfl))

/-- A message with QoS 2 is stored, and its PUBREC comes: the message stays. -/
theorem not_phasesKept_pubrec : ∃ r cs ms' cs', Serves oneClient 0 r cs ∧ cs.Exclusive ∧
    Run (PhaseStep 0 r) oneClient [.storeInflight packetSevenTwice, .pubrec 7] ms' ∧
      ms'.lock r = some cs' ∧ 7 ∈ cs'.inflight ∧ 7 ∈ cs'.inflightAck := by
  obtain ⟨r, cs, hserves, hin, -⟩ := oneClient_serves
  have hstored : PhaseStep 0 r oneClient (.storeInflight packetSevenTwice) _ :=
    ⟨rfl, rfl, cs, _, hserves.lock, rfl, rfl⟩
  obtain ⟨cs₁, hserves₁, pub, hp, hin₁, -⟩ := hstored.moves hserves
  have hseven : pub.packetId = 7 := by
    obtain rfl := Packet.Variant.publish.inj hp
    rfl
  let packet : Packet :=
    { header := { type := .pubrec }, pktLen := 4, pkt := .ack { packetId := 7 } }
  have hreceived : PhaseStep 0 r _ (.pubrec 7) _ :=
    ⟨packet, _, rfl, rfl, pubrecHandler_eq hserves₁ rfl, rfl⟩
  obtain ⟨cs₂, hserves₂, hin₂, hack₂⟩ := hreceived.moves hserves₁
  exact ⟨r, cs, _, cs₂, hserves, exclusive_of_empty hin, (Run.nil.snoc hstored).snoc hreceived,
    hserves₂.lock, (hin₂ 7).2 ((hin₁ 7).2 (.inl hseven.symm)), (hack₂ 7).2 (.inl rfl)⟩

end Culex
