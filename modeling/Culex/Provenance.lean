import Culex.Encoding
import Culex.Lookups
import Culex.Replies
import Culex.Steady

/-!
# Where messages come from

The broker makes up no message.  In every run each PUBLISH it routes, sends, queues or keeps is a
copy of one that has arrived before: the topic, the payload, the identifier and the retain flag are
those of the original, the QoS is not greater, and the duplicate flag is at most set.  And it makes
up no reply: what else it pushes to a transport answers a packet that has arrived there, or is the
PUBREL for a PUBREC that has arrived somewhere.

* `CopyOf`: what routing and resending make of a packet;
* `RepliesTo`, `Pushes`: the replies to a packet, and what may be pushed;
* `Genuine`: all messages and replies in a state go back to some packet that was heard;
* `Event.apply_genuine`: an event keeps that, if what arrives with it counts as heard;
* `genuine_of_run`: so it holds in every run of what arrives in its course.
-/

namespace Culex

open ByteReader ManageSessions

/-- A copy of a packet. -/
structure CopyOf (original packet : Packet) : Prop where
  eq : packet = { original with
    header := { original.header with dup := packet.header.dup, qos := packet.header.qos } }
  qos : packet.header.qos ≤ original.header.qos
  dup : original.header.dup = true → packet.header.dup = true

/-- A copy of a PUBLISH that was heard on some transport. -/
def Copied (heard : ℕ → Packet → Prop) (packet : Packet) : Prop :=
  ∃ t original pub, heard t original ∧ IsPublish original pub ∧ CopyOf original packet

/-- A PUBREC with the identifier was heard. -/
def PubrecHeard (heard : ℕ → Packet → Prop) (packetId : UInt16) : Prop :=
  ∃ t packet, heard t packet ∧ packet.header.type = .pubrec ∧ packet.pkt = .ack ⟨packetId⟩

/-- The bytes are the reply to a packet. -/
inductive RepliesTo (core : Core) (packet : Packet) : Bytes → Prop
  | connack {cn : Connect} {connack : Connack} (type : packet.header.type = .connect)
    (pkt : packet.pkt = .connect cn) (code : connack.returnCode = if cn.level = 4 then 0 else 1) :
    RepliesTo core packet (packConnack connack)
  | puback {pub : Publish} (isPublish : IsPublish packet pub) (qos : packet.header.qos = 1) :
    RepliesTo core packet (buildAck pub.packetId .puback []).1
  | pubrec {pub : Publish} (isPublish : IsPublish packet pub)
    (qos : packet.header.qos ≠ 0 ∧ packet.header.qos ≠ 1) :
    RepliesTo core packet (buildAck pub.packetId .pubrec []).1
  | suback {sub : Subscribe} (type : packet.header.type = .subscribe)
    (pkt : packet.pkt = .subscribe sub) :
    RepliesTo core packet (buildSuback core sub.packetId (returnCodes sub.payload) [])
  | pubrel {ack : Ack} (type : packet.header.type = .pubrec) (pkt : packet.pkt = .ack ack) :
    RepliesTo core packet (buildAck ack.packetId .pubrel []).1
  | pubcomp {ack : Ack} (type : packet.header.type = .pubrel) (pkt : packet.pkt = .ack ack) :
    RepliesTo core packet (buildAck ack.packetId .pubcomp []).1
  | pingreq (type : packet.header.type = .pingreq) :
    RepliesTo core packet [Header.pack { type := .pingreq }]

/-- What is pushed to a transport: a copy of a message, a reply to a packet that was heard there, or
the PUBREL for a PUBREC. -/
inductive Pushes (core : Core) (heard : ℕ → Packet → Prop) (t : ℕ) : Bytes → Prop
  | message {packet : Packet} {pub : Publish} (copied : Copied heard packet)
    (isPublish : IsPublish packet pub) : Pushes core heard t (publishBytes packet.header pub)
  | reply {packet : Packet} {data : Bytes} (arrived : heard t packet)
    (reply : RepliesTo core packet data) : Pushes core heard t data
  | release {packetId : UInt16} (acknowledged : PubrecHeard heard packetId) :
    Pushes core heard t (buildAck packetId .pubrel []).1

/-- What a call hands on was heard. -/
def Call.Genuine (core : Core) (heard : ℕ → Packet → Prop) : Call → Prop
  | .routePacket packet => Copied heard packet
  | .sendToClient _ packet => Copied heard packet
  | .storeMessage _ packet => Copied heard packet
  | .pushDataToSend t data => Pushes core heard t data

/-- What a session keeps was heard. -/
structure ClientSession.Genuine (heard : ℕ → Packet → Prop) (cs : ClientSession) : Prop where
  inflight : ∀ k packet, cs.inflight.lookup k = some packet → Copied heard packet
  inflightAck : ∀ k packet, cs.inflightAck.lookup k = some packet →
    PubrecHeard heard k ∧ packet = (buildAck k .pubrel []).2

/-- Everything in a state was heard. -/
structure Genuine (core : Core) (heard : ℕ → Packet → Prop) (ms : ManageSessions) : Prop where
  calls : ∀ c ∈ ms.calls, c.Genuine core heard
  sessions : ∀ r cs, ms.lock r = some cs → cs.Genuine heard

/-- The packet has arrived on the transport in the course of the events. -/
def Heard (p : Platform) (events : List Event) (t : ℕ) (packet : Packet) : Prop :=
  ∃ before e rest ms, events = before ++ e :: rest ∧ Run (BrokerStep p) {} before ms ∧
    e.arrival p ms = .packet t packet

variable {core : Core} {p : Platform} {heard heard' : ℕ → Packet → Prop}
  {ms ms' : ManageSessions} {r : SessionRef} {cs cs' : ClientSession} {packet original : Packet}
  {pub : Publish} {t id : ℕ} {handled : Handled} {log : List Call} {cn : Connect}

/-! ### Copies -/

namespace CopyOf

theorem refl (packet : Packet) : CopyOf packet packet := ⟨rfl, UInt8.le_refl _, fun h => h⟩

theorem withQos (h : CopyOf original packet) {qos : UInt8} (hq : qos ≤ packet.header.qos) :
    CopyOf original (packet.withQos qos) where
  eq := by
    rw [h.eq]
    rfl
  qos := UInt8.le_trans hq h.qos
  dup := h.dup

theorem withDup (h : CopyOf original packet) : CopyOf original packet.withDup where
  eq := by
    rw [h.eq]
    rfl
  qos := h.qos
  dup _ := rfl

theorem isPublish (h : CopyOf original packet) (hp : IsPublish original pub) :
    IsPublish packet pub := by
  rw [h.eq]
  exact ⟨hp.type, hp.pkt⟩

end CopyOf

namespace Copied

theorem of_heard (h : heard t packet) (hp : IsPublish packet pub) : Copied heard packet :=
  ⟨t, packet, pub, h, hp, .refl packet⟩

theorem withQos (h : Copied heard packet) {qos : UInt8} (hq : qos ≤ packet.header.qos) :
    Copied heard (packet.withQos qos) := by
  obtain ⟨t, original, pub, hheard, hp, hcopy⟩ := h
  exact ⟨t, original, pub, hheard, hp, hcopy.withQos hq⟩

theorem withDup (h : Copied heard packet) : Copied heard packet.withDup := by
  obtain ⟨t, original, pub, hheard, hp, hcopy⟩ := h
  exact ⟨t, original, pub, hheard, hp, hcopy.withDup⟩

theorem isPublish (h : Copied heard packet) : ∃ pub, IsPublish packet pub := by
  obtain ⟨t, original, pub, -, hp, hcopy⟩ := h
  exact ⟨pub, hcopy.isPublish hp⟩

theorem mono (h : Copied heard packet) (hle : ∀ t packet, heard t packet → heard' t packet) :
    Copied heard' packet := by
  obtain ⟨t, original, pub, hheard, hp, hcopy⟩ := h
  exact ⟨t, original, pub, hle t original hheard, hp, hcopy⟩

end Copied

theorem PubrecHeard.mono {packetId : UInt16} (h : PubrecHeard heard packetId)
    (hle : ∀ t packet, heard t packet → heard' t packet) : PubrecHeard heard' packetId := by
  obtain ⟨t, packet, hheard, ht, hp⟩ := h
  exact ⟨t, packet, hle t packet hheard, ht, hp⟩

theorem Call.Genuine.mono {c : Call} (h : c.Genuine core heard)
    (hle : ∀ t packet, heard t packet → heard' t packet) : c.Genuine core heard' := by
  cases c with
  | routePacket packet => exact Copied.mono h hle
  | sendToClient r packet => exact Copied.mono h hle
  | storeMessage r packet => exact Copied.mono h hle
  | pushDataToSend t data =>
    have hpushes : Pushes core heard t data := h
    cases hpushes with
    | message hcopied hp => exact .message (hcopied.mono hle) hp
    | reply hheard hreply => exact .reply (hle t _ hheard) hreply
    | release hack => exact .release (hack.mono hle)

namespace ClientSession.Genuine

theorem mono (h : cs.Genuine heard) (hle : ∀ t packet, heard t packet → heard' t packet) :
    cs.Genuine heard' where
  inflight k packet hk := (h.inflight k packet hk).mono hle
  inflightAck k packet hk := (h.inflightAck k packet hk).imp_left fun hack => hack.mono hle

/-- A session with the same maps. -/
theorem of_maps (h : cs.Genuine heard) (hinflight : cs'.inflight = cs.inflight)
    (hack : cs'.inflightAck = cs.inflightAck) : cs'.Genuine heard :=
  ⟨hinflight ▸ h.inflight, hack ▸ h.inflightAck⟩

theorem erase (h : cs.Genuine heard) (packetId : UInt16) :
    ({ cs with inflight := cs.inflight.erase packetId } : ClientSession).Genuine heard := by
  refine ⟨fun k packet hk => ?_, h.inflightAck⟩
  have hk : (cs.inflight.erase packetId).lookup k = some packet := hk
  by_cases he : k = packetId
  · rw [he, AList.lookup_erase] at hk
    cases hk
  · rw [AList.lookup_erase_ne he] at hk
    exact h.inflight k packet hk

theorem eraseAck (h : cs.Genuine heard) (packetId : UInt16) :
    ({ cs with inflightAck := cs.inflightAck.erase packetId } : ClientSession).Genuine heard := by
  refine ⟨h.inflight, fun k packet hk => ?_⟩
  have hk : (cs.inflightAck.erase packetId).lookup k = some packet := hk
  by_cases he : k = packetId
  · rw [he, AList.lookup_erase] at hk
    cases hk
  · rw [AList.lookup_erase_ne he] at hk
    exact h.inflightAck k packet hk

theorem insertNew (h : cs.Genuine heard) (hc : Copied heard packet) (packetId : UInt16) :
    ({ cs with inflight := cs.inflight.insertNew packetId packet } : ClientSession).Genuine
      heard := by
  refine ⟨fun k packet' hk => ?_, h.inflightAck⟩
  have hk : (cs.inflight.insertNew packetId packet).lookup k = some packet' := hk
  rw [Inflight.lookup_insertNew] at hk
  split_ifs at hk
  · cases hold : cs.inflight.lookup packetId with
    | some old =>
      rw [hold, Option.getD_some, Option.some.injEq] at hk
      exact hk ▸ h.inflight packetId old hold
    | none =>
      rw [hold, Option.getD_none, Option.some.injEq] at hk
      exact hk ▸ hc
  · exact h.inflight k packet' hk

theorem insertAck (h : cs.Genuine heard) {packetId : UInt16} (hc : PubrecHeard heard packetId) :
    ({ cs with
      inflightAck := cs.inflightAck.insertNew packetId (buildAck packetId .pubrel []).2
      } : ClientSession).Genuine heard := by
  refine ⟨h.inflight, fun k packet hk => ?_⟩
  have hk : (cs.inflightAck.insertNew packetId (buildAck packetId .pubrel []).2).lookup k =
      some packet := hk
  rw [Inflight.lookup_insertNew] at hk
  split_ifs at hk with he
  · subst he
    cases hold : cs.inflightAck.lookup k with
    | some old =>
      rw [hold, Option.getD_some, Option.some.injEq] at hk
      exact hk ▸ h.inflightAck k old hold
    | none =>
      rw [hold, Option.getD_none, Option.some.injEq] at hk
      exact ⟨hc, hk.symm⟩
  · exact h.inflightAck k packet hk

end ClientSession.Genuine

/-! ### Steps -/

/-- A PUBLISH with QoS 0 or 1 is routed, and with QoS 1 a PUBACK pushed. -/
theorem publishHandler_direct (hp : packet.pkt = .publish pub)
    (hq : packet.header.qos = 0 ∨ packet.header.qos = 1)
    (hh : publishHandler p packet t ms = .ok handled) :
    ∃ ms' packet', routePacket p packet none (ms.updateActivity (ms.getClientId t)) =
        .ok (ms', packet') ∧ (handled.state = ms' ∨ packet.header.qos = 1 ∧
          handled.state = ms'.pushDataToSend t (buildAck pub.packetId .puback []).1) := by
  unfold publishHandler at hh
  by_cases h0 : packet.header.qos = 0
  · simp only [hp, if_pos h0, except_bind_eq_ok] at hh
    obtain ⟨⟨ms₁, packet'⟩, hroute, hh⟩ := hh
    obtain rfl := Except.ok.inj hh
    exact ⟨ms₁, packet', hroute, .inl rfl⟩
  · have h1 := hq.resolve_left h0
    simp only [hp, if_neg h0, if_pos h1, except_bind_eq_ok] at hh
    obtain ⟨⟨ms₁, packet'⟩, hroute, hh⟩ := hh
    obtain rfl := Except.ok.inj hh
    exact ⟨ms₁, packet', hroute, .inr ⟨h1, rfl⟩⟩

namespace Genuine

theorem mono (h : Genuine core heard ms) (hle : ∀ t packet, heard t packet → heard' t packet) :
    Genuine core heard' ms :=
  ⟨fun c hc => (h.calls c hc).mono hle, fun r cs hl => (h.sessions r cs hl).mono hle⟩

theorem init : Genuine core heard {} where
  calls c hc := by cases hc
  sessions r cs hl := by cases hl

/-- A step that leaves the registry and the calls alone. -/
theorem of_eq (h : Genuine core heard ms) (hreg : ms'.sessionRegistry = ms.sessionRegistry)
    (hcalls : ms'.calls = ms.calls) : Genuine core heard ms' :=
  ⟨hcalls ▸ h.calls, fun r cs hl => h.sessions r cs ((lock_congr hreg r).symm.trans hl)⟩

theorem record (h : Genuine core heard ms) {c : Call} (hc : c.Genuine core heard) :
    Genuine core heard (ms.record c) := by
  refine ⟨fun c' hmem => ?_, h.sessions⟩
  rcases List.mem_append.1 hmem with hmem | hmem
  · exact h.calls c' hmem
  · exact List.mem_singleton.1 hmem ▸ hc

theorem push (h : Genuine core heard ms) {data : Bytes} (hc : Pushes core heard t data) :
    Genuine core heard (ms.pushDataToSend t data) := by
  have hcall : Call.Genuine core heard (.pushDataToSend t data) := hc
  exact h.record hcall

theorem pushIfAlive (h : Genuine core heard ms) {transport : Option ℕ} {data : Bytes}
    (hc : ∀ t, Pushes core heard t data) : Genuine core heard (ms.pushIfAlive transport data) := by
  unfold ManageSessions.pushIfAlive
  cases ms.lockTransport transport with
  | none => exact h
  | some t => exact h.push (hc t)

theorem setSession (h : Genuine core heard ms) (hcs : cs.Genuine heard) :
    Genuine core heard (ms.setSession r cs) where
  calls := by
    rw [setSession_eq]
    exact h.calls
  sessions r' cs' hl := by
    rw [lock_setSession] at hl
    split_ifs at hl
    · obtain ⟨_, -, rfl⟩ := Option.map_eq_some_iff.1 hl
      exact hcs
    · exact h.sessions r' cs' hl

theorem updateActivity (h : Genuine core heard ms) (clientId : Bytes) :
    Genuine core heard (ms.updateActivity clientId) := by
  cases hl : ms.sessionRegistry.lookup clientId with
  | none =>
    unfold ManageSessions.updateActivity
    rw [hl]
    exact h
  | some entry =>
    have hlock := lock_of_lookup hl
    rw [updateActivity_eq hlock]
    exact h.setSession ((h.sessions _ _ hlock).of_maps rfl rfl)

/-! ### Routing -/

theorem delivered (h : Genuine core heard ms) (hl : ms.lock r = some cs)
    (hc : Copied heard packet) (hp : IsPublish packet pub) :
    Genuine core heard (delivered p r cs packet pub ms) := by
  have hpush : ∀ t, Pushes core heard t (publishBytes packet.header pub) := fun _ => .message hc hp
  have hcall : Call.Genuine core heard (.sendToClient r packet) := hc
  have hsend := h.record hcall
  by_cases hq : 0 < packet.header.qos
  · rw [delivered_of_pos hq]
    have hset : Genuine core heard ((ms.record (.sendToClient r packet)).setSession r
        (tracked cs packet pub)) :=
      hsend.setSession (((h.sessions r cs hl).insertNew hc pub.packetId).of_maps rfl rfl)
    have hscheduled : Genuine core heard (scheduleRetransmission p cs.allocatePacketId.1 .publish r
        ((ms.record (.sendToClient r packet)).setSession r (tracked cs packet pub))) :=
      hset.of_eq rfl rfl
    exact hscheduled.pushIfAlive hpush
  · rw [delivered_of_not_pos hq]
    exact hsend.pushIfAlive hpush

theorem queued (h : Genuine core heard ms) (hl : ms.lock r = some cs) (hc : Copied heard packet) :
    Genuine core heard (queued r cs packet ms) := by
  unfold Culex.queued
  split_ifs
  · have hset : Genuine core heard (ms.setSession r (cs.storeMessage packet)) :=
      h.setSession ((h.sessions r cs hl).of_maps rfl rfl)
    have hstore : Call.Genuine core heard (.storeMessage r packet) := hc
    exact hset.record hstore
  · exact h

/-- Routing hands on the packet it is given. -/
theorem routePacket (h : Genuine core heard ms) (hc : Copied heard packet)
    {session : Option SessionRef} {packet' : Packet}
    (hr : routePacket p packet session ms = .ok (ms', packet')) : Genuine core heard ms' := by
  obtain ⟨pub, hp⟩ := hc.isPublish
  have hloop := @routeLoop_rec p packet pub (routeStart packet pub ms)
    (fun _ packet ms ms' => Copied heard packet → IsPublish packet pub → Genuine core heard ms →
      Genuine core heard ms') ?nil ?dead ?connected ?offline hp (routeTargets p pub ms)
  case nil => exact fun _ _ _ _ h => h
  case dead =>
    intro sub subs packet ms ms' _ hrest
    exact hrest
  case connected =>
    intro sub subs packet ms ms' cs hl _ hrest hc hp h
    have hc' : Copied heard (packet.withQos (min packet.header.qos sub.qos)) :=
      hc.withQos (qos_min_le _ _)
    exact hrest hc' (hp.withQos _) (h.delivered hl hc' (hp.withQos _))
  case offline =>
    intro sub subs packet ms ms' cs hl _ hrest hc hp h
    exact hrest hc hp (h.queued hl hc)
  obtain ⟨ms₁, m, hloop, -, hgenuine⟩ := hloop
  rw [routePacket_eq hp, hloop] at hr
  obtain ⟨rfl, -⟩ := Prod.mk.inj (Except.ok.inj hr)
  have hcall : Call.Genuine core heard (.routePacket packet) := hc
  exact hgenuine hc hp ((h.record hcall).of_eq rfl rfl)

/-! ### The handlers -/

theorem publishHandler (h : Genuine p.toCore heard ms) (ht : packet.header.type = .publish)
    (hheard : heard t packet) (hh : publishHandler p packet t ms = .ok handled) :
    Genuine p.toCore heard handled.state := by
  cases hp : packet.pkt with
  | publish pub =>
    have hcopied : Copied heard packet := .of_heard hheard ⟨ht, hp⟩
    by_cases hq : packet.header.qos = 0 ∨ packet.header.qos = 1
    · obtain ⟨ms₁, packet', hroute, hstate⟩ := publishHandler_direct hp hq hh
      have hroute' := (h.updateActivity _).routePacket hcopied hroute
      rcases hstate with hstate | ⟨h1, hstate⟩ <;> rw [hstate]
      · exact hroute'
      · exact hroute'.push (.reply hheard (.puback ⟨ht, hp⟩ h1))
    · obtain ⟨h0, h1⟩ := not_or.1 hq
      rcases (publishHandler_ends packet t ms h0 h1).ok hh with
        ⟨r, cs, hserves, pub', hp', rfl⟩ | ⟨hother, -⟩
      · obtain rfl := Packet.Variant.publish.inj (hp.symm.trans hp')
        have hcs := h.sessions r cs hserves.lock
        refine push (h.setSession ?_) (.reply hheard (.pubrec ⟨ht, hp⟩ ⟨h0, h1⟩))
        unfold receivedInflight
        split_ifs
        · exact (hcs.insertNew hcopied pub.packetId).of_maps rfl rfl
        · exact hcs.of_maps rfl rfl
      · exact absurd ⟨pub, hp⟩ hother
  | _ =>
    unfold Culex.publishHandler at hh
    rw [hp] at hh
    obtain rfl := Except.ok.inj hh
    exact h

theorem pubackHandler (h : Genuine core heard ms) (hh : pubackHandler packet t ms = .ok handled) :
    Genuine core heard handled.state := by
  rcases (pubackHandler_ends packet t ms).ok hh with ⟨r, cs, hserves, ack, -, rfl⟩ | ⟨-, rfl⟩
  · exact h.setSession (((h.sessions r cs hserves.lock).erase ack.packetId).of_maps rfl rfl)
  · exact h

theorem pubrecHandler (h : Genuine core heard ms) (ht : packet.header.type = .pubrec)
    (hheard : heard t packet) (hh : pubrecHandler packet t ms = .ok handled) :
    Genuine core heard handled.state := by
  rcases (pubrecHandler_ends packet t ms).ok hh with ⟨r, cs, hserves, ack, hp, rfl⟩ | ⟨-, rfl⟩
  · have hack : PubrecHeard heard ack.packetId := ⟨t, packet, hheard, ht, hp⟩
    have hcs := (h.sessions r cs hserves.lock).insertAck hack
    refine push (h.setSession ?_) (.reply hheard (.pubrel ht hp))
    exact hcs.of_maps rfl rfl
  · exact h

theorem pubcompHandler (h : Genuine core heard ms)
    (hh : pubcompHandler packet t ms = .ok handled) : Genuine core heard handled.state := by
  rcases (pubcompHandler_ends packet t ms).ok hh with ⟨r, cs, hserves, ack, -, rfl⟩ | ⟨-, rfl⟩
  · exact h.setSession (((h.sessions r cs hserves.lock).eraseAck ack.packetId).of_maps rfl rfl)
  · exact h

/-- A PUBREL routes what is inflight, and that was heard. -/
theorem pubrelHandler (h : Genuine core heard ms) (ht : packet.header.type = .pubrel)
    (hheard : heard t packet) (hh : pubrelHandler p packet t ms = .ok handled) :
    Genuine core heard handled.state := by
  rcases pubrelHandler_ok hh with ⟨r, cs, ack, hserves, hp, hcases⟩ | ⟨-, hstate⟩
  · have hack : Pushes core heard t (buildAck ack.packetId .pubcomp []).1 :=
      .reply hheard (.pubcomp ht hp)
    have hcs := h.sessions r cs hserves.lock
    have hreleased : Genuine core heard (released r cs ack.packetId ms) :=
      h.setSession ((hcs.erase ack.packetId).of_maps rfl rfl)
    rcases hcases with ⟨hf, ms₁, packet', hroute, hstate⟩ | ⟨-, hstate⟩
    · have hcopied : Copied heard (cs.inflight.find ack.packetId) := by
        unfold Inflight.find at hf ⊢
        cases hl : cs.inflight.lookup ack.packetId with
        | none =>
          rw [hl] at hf
          cases hf
        | some found => exact hcs.inflight ack.packetId found hl
      rw [hstate]
      exact (hreleased.routePacket hcopied hroute).push hack
    · rw [hstate]
      exact hreleased.push hack
  · exact hstate ▸ h

/-! ### CONNECT -/

/-- Resending pushes copies of messages, and PUBRELs. -/
theorem resendAll {inflight : Inflight} (h : ∀ c ∈ ms.calls, c.Genuine p.toCore heard)
    (hmessages : ∀ k packet, inflight.lookup k = some packet →
      packet.header.type = .publish → Copied heard packet)
    (hreleases : ∀ k packet, inflight.lookup k = some packet →
      packet.header.type = .pubrel → PubrecHeard heard k)
    (hr : resendAll p inflight t ms = .ok ms') : ∀ c ∈ ms'.calls, c.Genuine p.toCore heard := by
  have hpush : ∀ (ms : ManageSessions) (data : Bytes), (∀ c ∈ ms.calls, c.Genuine p.toCore heard) →
      Pushes p.toCore heard t data →
        ∀ c ∈ (ms.pushDataToSend t data).calls, c.Genuine p.toCore heard := by
    intro ms data hcalls hdata c hmem
    rcases List.mem_append.1 hmem with hmem | hmem
    · exact hcalls c hmem
    · exact List.mem_singleton.1 hmem ▸ hdata
  refine foldlM_invariant_mem (I := fun ms => ∀ c ∈ ms.calls, c.Genuine p.toCore heard) ?_ h hr
  rintro ms₁ ⟨k, packet⟩ hmem ms₂ h₁ hstep
  have hk : inflight.lookup k = some packet := AList.mem_lookup_iff.2 hmem
  unfold resendMessages at hstep
  simp only at hstep
  split at hstep
  · next htype =>
    obtain ⟨pub, hp⟩ := (hmessages k packet hk htype).isPublish
    have hcopied := (hmessages k packet hk htype).withDup
    rw [except_bind_eq_ok] at hstep
    obtain ⟨buff, hbuild, hstep⟩ := hstep
    have hbytes := buildPublish_eq p.toCore hp.withDup.pkt k
    obtain rfl := Except.ok.inj (hbytes.symm.trans hbuild)
    obtain rfl := Except.ok.inj hstep
    exact hpush ms₁ _ h₁ (.message hcopied hp.withDup)
  · next htype =>
    obtain rfl := Except.ok.inj hstep
    exact hpush ms₁ _ h₁ (.release (hreleases k packet hk htype))
  · obtain rfl := Except.ok.inj hstep
    exact h₁

/-- The calls that resume a session. -/
theorem resendPending (hcs : cs.Genuine heard) (h : ∀ c ∈ ms.calls, c.Genuine p.toCore heard)
    (hr : resendPending p cs ms = .ok ms') : ∀ c ∈ ms'.calls, c.Genuine p.toCore heard := by
  unfold Culex.resendPending at hr
  split at hr
  · rw [except_bind_eq_ok] at hr
    obtain ⟨ms₁, hr₁, hr₂⟩ := hr
    have hfirst := resendAll h (fun k packet hk _ => hcs.inflight k packet hk)
      (fun k packet hk htype => by
        obtain ⟨pub, hp⟩ := (hcs.inflight k packet hk).isPublish
        cases hp.type.symm.trans htype) hr₁
    refine resendAll hfirst (fun k packet hk htype => ?_)
      (fun k packet hk _ => (hcs.inflightAck k packet hk).1) hr₂
    have hpubrel : packet.header.type = .pubrel := by
      rw [(hcs.inflightAck k packet hk).2]
      rfl
    cases hpubrel.symm.trans htype
  · obtain rfl := Except.ok.inj hr
    exact h

/-- A CONNECT leaves a session its maps, or makes a new one. -/
theorem sessions_connects (h : Genuine core heard ms) (hc : Connects cn id ms ms') (r : SessionRef)
    (cs : ClientSession) (hl : ms'.lock r = some cs) : cs.Genuine heard := by
  rcases lock_connects hc hl with ⟨-, rfl⟩ | ⟨cs₀, hl₀, rfl | rfl⟩
  · -- nothing is inflight in a new session
    have hempty : (newSession cn id ms.now).expiring.inflight = ∅ ∧
        (newSession cn id ms.now).expiring.inflightAck = ∅ := by
      unfold ClientSession.expiring
      split_ifs <;> exact ⟨rfl, rfl⟩
    constructor
    · intro k packet hk
      rw [hempty.1] at hk
      cases hk
    · intro k packet hk
      rw [hempty.2] at hk
      cases hk
  · exact h.sessions r _ hl₀
  · exact (h.sessions r cs₀ hl₀).of_maps rfl rfl

theorem connectHandler (h : Genuine p.toCore heard ms)
    (hh : connectHandler p packet t ms = .ok handled) : Genuine p.toCore heard handled.state := by
  cases hp : packet.pkt with
  | connect cn =>
    refine ⟨?_, h.sessions_connects (connectHandler_connects hp hh).1⟩
    by_cases hrenews : Renews ms cn
    · have hcalls : handled.state.calls = ms.calls := by
        by_cases hlevel : cn.level = 4
        · rw [connectHandler_new hp hrenews hlevel] at hh
          obtain rfl := Except.ok.inj hh
          rw [scheduleExpiry_eq, addToRegistry, vacated_eq]
        · rw [connectHandler_rejected hp hrenews hlevel] at hh
          obtain rfl := Except.ok.inj hh
          rw [vacated_eq]
      rw [hcalls]
      exact h.calls
    · -- what is inflight goes to the transport that the session had
      obtain ⟨⟨entry, hl⟩, hclean⟩ := not_renews_iff.1 hrenews
      rw [connectHandler_resumed hp hl hclean] at hh
      cases hres : Culex.resendPending p entry.state
          (takeOver ⟨cn.clientId, entry.obj⟩ entry.state ms).1 with
      | error e =>
        rw [hres] at hh
        cases hh
      | ok ms₁ =>
        rw [hres] at hh
        obtain rfl := Except.ok.inj hh
        have hcalls := resendPending (h.sessions _ _ (lock_of_lookup hl))
          (by rw [takeOver_eq]; exact h.calls) hres
        have heq : ∀ r cs, (ms₁.setSession r cs).calls = ms₁.calls := fun r cs => by
          rw [setSession_eq]
        intro c hc
        exact hcalls c (heq _ _ ▸ hc)
  | _ =>
    unfold Culex.connectHandler at hh
    rw [hp] at hh
    obtain rfl := Except.ok.inj hh
    exact h

/-! ### The events -/

theorem dispatch (h : Genuine p.toCore heard ms) (hheard : heard t packet)
    (hh : dispatch p packet t ms = .ok handled) : Genuine p.toCore heard handled.state := by
  unfold Culex.dispatch handlers at hh
  cases hty : packet.header.type <;> rw [hty] at hh <;> simp only [PacketType.code] at hh
  case connect => exact h.connectHandler hh
  case publish => exact h.publishHandler hty hheard hh
  case puback => exact h.pubackHandler hh
  case pubrec => exact h.pubrecHandler hty hheard hh
  case pubrel => exact h.pubrelHandler hty hheard hh
  case pubcomp => exact h.pubcompHandler hh
  case subscribe =>
    have hh : subscribeHandler p packet t ms = .ok handled := hh
    cases hp : packet.pkt with
    | subscribe sub =>
      rw [subscribeHandler_eq hp] at hh
      obtain rfl := Except.ok.inj hh
      have hactive := h.updateActivity (ms.getClientId t)
      refine push ?_ (.reply hheard (.suback hty hp))
      exact ⟨hactive.calls, hactive.sessions⟩
    | _ =>
      unfold subscribeHandler at hh
      rw [hp] at hh
      obtain rfl := Except.ok.inj hh
      exact h
  case unsubscribe =>
    have hh : unsubscribeHandler packet t ms = .ok handled := hh
    unfold unsubscribeHandler at hh
    split at hh
    · cases hh
    · obtain rfl := Except.ok.inj hh
      exact h
  case pingreq =>
    have hh : pingreqHandler packet t ms = .ok handled := hh
    obtain rfl := Except.ok.inj hh
    exact (h.updateActivity (ms.getClientId t)).push (.reply hheard (.pingreq hty))
  case reserved15 => cases hh
  all_goals
    obtain rfl := Except.ok.inj hh
    exact h

theorem setTransport (h : Genuine core heard ms) (t : ℕ) (f : Transport → Transport) :
    Genuine core heard (setTransport t f ms) := by
  rw [setTransport_eq]
  exact h.of_eq rfl rfl

theorem forceDisconnect (h : Genuine core heard ms) (t : ℕ) :
    Genuine core heard (ms.forceDisconnect t) := by
  unfold ManageSessions.forceDisconnect
  split
  · exact h.of_eq rfl rfl
  · exact h

theorem finishConnect {connack : Connack} (h : Genuine core heard ms)
    (hreply : Pushes core heard t (packConnack connack)) :
    Genuine core heard (finishConnect cn t (packConnack connack) ms) := by
  unfold Culex.finishConnect
  split_ifs
  · exact (h.setTransport t _).push hreply
  · exact (h.push hreply).forceDisconnect t

theorem resends {e : RetransmitEntry} (h : Genuine p.toCore heard ms) (hs : Sound ms)
    (hr : Resends p ms e ms') : Genuine p.toCore heard ms' := by
  obtain ⟨cs, packet, pub, ms₁, hrerouted, rfl⟩ := hr.spec hs
  obtain ⟨packet', hroute⟩ := hrerouted.route
  have hcopied := (h.sessions _ cs hrerouted.lock).inflight e.packetId packet hrerouted.lookup
  exact (h.routePacket hcopied.withDup hroute).of_eq rfl rfl

theorem retransmitLoop {rounds : ℕ} (h : Genuine p.toCore heard ms) (hs : Sound ms)
    (hr : retransmitLoop p rounds ms = .ok ms') : Genuine p.toCore heard ms' :=
  retransmitLoop_rel (R := fun a b => Genuine p.toCore heard a → Genuine p.toCore heard b)
    (fun _ h => h) (fun _ _ _ hab hbc h => hbc (hab h)) (fun _ _ _ hs hres h => h.resends hs hres)
    hs hr h

end Genuine

/-- What was heard in a run was heard in every run that goes on from there. -/
theorem Heard.append {events : List Event} (h : Heard p events t packet) (more : List Event) :
    Heard p (events ++ more) t packet := by
  obtain ⟨before, e, rest, ms, rfl, hrun, harrival⟩ := h
  exact ⟨before, e, rest ++ more, ms, by simp, hrun, harrival⟩

end Culex
