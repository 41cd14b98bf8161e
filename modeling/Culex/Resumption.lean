import Culex.Evolving

/-!
# What a resumed session is sent

A CONNECT that resumes a session sends what is inflight to the transport that the session had
before, and what is queued to nobody.  On the new transport there is the CONNACK alone, so nothing
is lost only where there was nothing to lose.
-/

namespace Culex

open ManageSessions

/-- The bytes pushed to a transport, in their order. -/
def sentTo (t : ℕ) (log : List Call) : List Bytes :=
  log.filterMap fun
    | .pushDataToSend t' data => if t' = t then some data else none
    | .routePacket _ => none
    | .sendToClient .. => none
    | .storeMessage .. => none

/-- The bytes are the packet: a PUBLISH, with either duplicate flag, or a PUBREL with the identifier
it is stored under. -/
def Conveys (p : Platform) (packetId : UInt16) (packet : Packet) (data : Bytes) : Prop :=
  match packet.header.type with
  | .publish => ∃ dup, buildPublish p.toCore
      { packet with header := { packet.header with dup } } packetId [] = .ok data
  | .pubrel => data = (buildAck packetId .pubrel []).1
  | _ => False

/-- Everything a session holds for its client is sent on a transport. -/
structure ResumesAll (p : Platform) (t : ℕ) (cs : ClientSession) (log : List Call) : Prop where
  inflight : ∀ k packet, cs.inflight.lookup k = some packet →
    ∃ data ∈ sentTo t log, Conveys p k packet data
  inflightAck : ∀ k packet, cs.inflightAck.lookup k = some packet →
    ∃ data ∈ sentTo t log, Conveys p k packet data
  /-- The queued messages are sent in the order in which they were stored. -/
  messageQueue : ∃ frames, frames.Sublist (sentTo t log) ∧
    List.Forall₂ (fun packet data => ∃ k, Conveys p k packet data) cs.messageQueue frames

/-- Handling the CONNECT returns, and everything the session holds is sent on its transport. -/
def Resumes (p : Platform) (packet : Packet) (t : ℕ) (cs : ClientSession) (ms : ManageSessions) :
    Prop :=
  ∃ handled ms' log, connectHandler p packet t ms = .ok handled ∧
    finish packet t handled = .ok ms' ∧ ms'.calls = ms.calls ++ log ∧ ResumesAll p t cs log

variable {p : Platform} {ms ms' : ManageSessions} {packet : Packet} {cn : Connect} {t : ℕ}
  {entry : Registered} {handled : Handled} {log log' : List Call}

theorem sentTo_append : sentTo t (log ++ log') = sentTo t log ++ sentTo t log' :=
  List.filterMap_append

/-- What goes to another transport. -/
theorem sentTo_eq_nil (h : ∀ c ∈ log, ∃ id data, id ≠ t ∧ c = .pushDataToSend id data) :
    sentTo t log = [] := by
  apply List.filterMap_eq_nil_iff.2
  intro c hc
  obtain ⟨id, data, hne, rfl⟩ := h c hc
  exact if_neg hne

/-- The header byte of a PUBLISH is not that of a CONNACK, whatever its flags are. -/
theorem Header.pack_ne_connack {header : Header} (h : header.type = .publish) :
    header.pack ≠ 0x20 := by
  intro he
  have hbit := congrArg (fun b : UInt8 => b.toBitVec.getLsbD 4) he
  simp [Header.pack, h, PacketType.code] at hbit

/-- The second byte of a CONNACK's body is lost. -/
theorem packConnack_eq (connack : Connack) :
    packConnack connack = [0x20, 2, connack.pack.toUInt8] := by
  have hlength : (encodeLength 2 []).2 = [2] := by
    rw [encodeLength, encodeLengthLoop]
    rfl
  unfold packConnack
  simp only [hlength]
  rfl

/-- A CONNACK is neither a PUBLISH nor a PUBREL. -/
theorem not_conveys_packConnack {k : UInt16} {connack : Connack} :
    ¬ Conveys p k packet (packConnack connack) := by
  rw [packConnack_eq]
  intro h
  unfold Conveys at h
  split at h
  · next htype =>
    obtain ⟨dup, h⟩ := h
    cases hp : packet.pkt with
    | publish pub =>
      have hp' : ({ packet with header := { packet.header with dup } } : Packet).pkt =
          .publish pub := hp
      rw [buildPublish_eq p.toCore hp'] at h
      have hhead := congrArg List.head? (Except.ok.inj h)
      have hne : Header.pack { packet.header with dup } ≠ 0x20 := Header.pack_ne_connack htype
      exact hne (Option.some.inj hhead)
    | _ =>
      unfold buildPublish at h
      rw [hp] at h
      cases h
  · have hpubrel : (buildAck k .pubrel []).1.head? = some 0x60 := rfl
    rw [← h] at hpubrel
    cases hpubrel
  · exact h

/-- What is resent goes to the transport that the session had. -/
theorem resumed_calls (hp : packet.pkt = .connect cn)
    (hl : ms.sessionRegistry.lookup cn.clientId = some entry)
    (hclean : cn.cf.cleansession = false) (hh : connectHandler p packet t ms = .ok handled) :
    ∃ log, handled.state.calls = ms.calls ++ log ∧
      ∀ c ∈ log, ∃ id data, entry.state.session = some id ∧ c = .pushDataToSend id data := by
  rw [connectHandler_resumed hp hl hclean] at hh
  have heq := takeOver_eq ⟨cn.clientId, entry.obj⟩ entry.state ms
  revert hh heq
  generalize (takeOver ⟨cn.clientId, entry.obj⟩ entry.state ms).1 = ms₁
  intro hh heq
  cases hres : resendPending p entry.state ms₁ with
  | error e =>
    rw [hres] at hh
    cases hh
  | ok ms₂ =>
    rw [hres] at hh
    obtain rfl := Except.ok.inj hh
    obtain ⟨log, rfl, hlog⟩ := resendPending_calls hres
    refine ⟨log, ?_, fun c hc => ?_⟩
    · simp only
      rw [setSession_eq, heq]
    · obtain ⟨id, data, hlock, rfl⟩ := hlog c hc
      rw [lockTransport_eq, Option.bind_eq_some_iff] at hlock
      obtain ⟨id', hs, hlock⟩ := hlock
      obtain ⟨socket, -, hlock⟩ := Option.bind_eq_some_iff.1 hlock
      split_ifs at hlock
      exact ⟨id, data, hs.trans hlock, rfl⟩

/-- On a new transport, the CONNACK is all that is sent. -/
theorem resumed_sentTo (hp : packet.pkt = .connect cn)
    (hl : ms.sessionRegistry.lookup cn.clientId = some entry)
    (hclean : cn.cf.cleansession = false) (hnew : entry.state.session ≠ some t)
    (hh : connectHandler p packet t ms = .ok handled) (hf : finish packet t handled = .ok ms')
    (hlog : ms'.calls = ms.calls ++ log) :
    sentTo t log = [packConnack (connackFor cn ms)] := by
  obtain ⟨pushed, hcalls, hpushed⟩ := resumed_calls hp hl hclean hh
  obtain ⟨-, hcode, hbuff⟩ := connectHandler_connects hp hh
  rw [finish_connect hp hcode, hbuff] at hf
  obtain rfl := Except.ok.inj hf
  rw [finishConnect_eq] at hlog
  simp only at hlog
  rw [hcalls, List.append_assoc] at hlog
  obtain rfl := List.append_cancel_left hlog
  rw [sentTo_append, sentTo_eq_nil, List.nil_append]
  · simp [sentTo]
  · intro c hc
    obtain ⟨id, data, hs, rfl⟩ := hpushed c hc
    exact ⟨id, data, fun he => hnew (he ▸ hs), rfl⟩

/-- Where everything is sent on the new transport, there is nothing to send. -/
theorem Resumes.empty (hp : packet.pkt = .connect cn)
    (hl : ms.sessionRegistry.lookup cn.clientId = some entry)
    (hclean : cn.cf.cleansession = false) (hnew : entry.state.session ≠ some t)
    (h : Resumes p packet t entry.state ms) :
    entry.state.inflight = ∅ ∧ entry.state.inflightAck = ∅ ∧ entry.state.messageQueue = [] := by
  obtain ⟨handled, ms', log, hh, hf, hlog, hall⟩ := h
  have hsent := resumed_sentTo hp hl hclean hnew hh hf hlog
  have hnone : ∀ k pkt, ¬ ∃ data ∈ sentTo t log, Conveys p k pkt data := by
    rintro k pkt ⟨data, hdata, hconveys⟩
    rw [hsent, List.mem_singleton] at hdata
    subst hdata
    exact not_conveys_packConnack hconveys
  have hempty : ∀ m : Inflight, (∀ k pkt, m.lookup k = some pkt →
      ∃ data ∈ sentTo t log, Conveys p k pkt data) → m = ∅ := by
    intro m hm
    refine AList.ext (List.eq_nil_iff_forall_not_mem.2 ?_)
    rintro ⟨k, pkt⟩ hmem
    exact hnone k pkt (hm k pkt (AList.mem_lookup_iff.2 hmem))
  refine ⟨hempty _ hall.inflight, hempty _ hall.inflightAck, ?_⟩
  obtain ⟨frames, hsub, hframes⟩ := hall.messageQueue
  cases hqueue : entry.state.messageQueue with
  | nil => rfl
  | cons pkt rest =>
    rw [hqueue, List.forall₂_cons_left_iff] at hframes
    obtain ⟨data, _, ⟨k, hfirst⟩, -, rfl⟩ := hframes
    exact absurd ⟨data, hsub.subset List.mem_cons_self, hfirst⟩ (hnone k pkt)

/-- A session with nothing in it is resumed. -/
theorem resumes_of_empty (hp : packet.pkt = .connect cn)
    (hl : ms.sessionRegistry.lookup cn.clientId = some entry)
    (hclean : cn.cf.cleansession = false) (hin : entry.state.inflight = ∅)
    (hack : entry.state.inflightAck = ∅) (hqueue : entry.state.messageQueue = []) :
    Resumes p packet t entry.state ms := by
  have hres : resendPending p entry.state
      (takeOver ⟨cn.clientId, entry.obj⟩ entry.state ms).1 =
        .ok (takeOver ⟨cn.clientId, entry.obj⟩ entry.state ms).1 := by
    unfold resendPending
    rw [hin, hack]
    split <;> rfl
  have hh := connectHandler_resumed (p := p) (t := t) hp hl hclean
  rw [hres] at hh
  obtain ⟨handled, hh⟩ : ∃ handled, connectHandler p packet t ms = .ok handled := ⟨_, hh⟩
  obtain ⟨log, hcalls, -⟩ := resumed_calls hp hl hclean hh
  obtain ⟨-, hcode, -⟩ := connectHandler_connects hp hh
  refine ⟨handled, _, log ++ [.pushDataToSend t handled.buff], hh, finish_connect hp hcode, ?_, ?_⟩
  · rw [finishConnect_eq]
    simp only
    rw [hcalls, List.append_assoc]
  · refine ⟨fun k packet hk => ?_, fun k packet hk => ?_, [], List.nil_sublist _, ?_⟩
    · rw [hin] at hk
      cases hk
    · rw [hack] at hk
      cases hk
    · rw [hqueue]
      exact .nil

/-- **Resuming a session on a new transport loses nothing exactly if it holds nothing.**  In a
reachable state the queue is what was stored for the client while it was offline. -/
theorem resumes_iff (hp : packet.pkt = .connect cn)
    (hl : ms.sessionRegistry.lookup cn.clientId = some entry)
    (hclean : cn.cf.cleansession = false) (hnew : entry.state.session ≠ some t) :
    (Resumes p packet t entry.state ms ↔ entry.state.inflight = ∅ ∧ entry.state.inflightAck = ∅ ∧
      entry.state.messageQueue = []) ∧
    (Reachable p ms → entry.state.messageQueue =
      ms.calls.filterMap (Call.queuedFor ⟨cn.clientId, entry.obj⟩)) := by
  refine ⟨⟨fun h => h.empty hp hl hclean hnew, ?_⟩, fun hr => hr.queued _ _ (lock_of_lookup hl)⟩
  rintro ⟨hin, hack, hqueue⟩
  exact resumes_of_empty hp hl hclean hin hack hqueue

/-- Client `A` connects again, on a new transport, with nothing pending. -/
theorem resumes_iff_gone : ∃ entry, goneClient.sessionRegistry.lookup [65] = some entry ∧
    Resumes .sorting (connectPacketA false) 2 entry.state goneClient := by
  have hreg : (goneClient.sessionRegistry.lookup [65]).any fun entry =>
      entry.state.session ≠ some 2 ∧ entry.state.inflight.entries.isEmpty ∧
        entry.state.inflightAck.entries.isEmpty ∧ entry.state.messageQueue.isEmpty := by
    decide +kernel
  obtain ⟨entry, hl, hnew, hin, hack, hqueue⟩ := exists_of_any hreg
  have hp : (connectPacketA false).pkt = .connect (connectA false) := rfl
  refine ⟨entry, hl, (resumes_iff hp hl rfl hnew).1.2 ⟨?_, ?_, List.isEmpty_iff.1 hqueue⟩⟩
  · exact AList.ext (List.isEmpty_iff.1 hin)
  · exact AList.ext (List.isEmpty_iff.1 hack)

/-- Client `A` subscribes to `t` without a clean session and falls silent; once it has expired, `B`
publishes to `t` with QoS 1, and then a connection for `A` is opened. -/
def missedMessage : ManageSessions :=
  after .sorting (.newConnection 3 :: arrive 0 (connectFrameWith 4 1 65 0) ++
    arrive 0 (subscribeFrame 116 1) ++ [.tick 5000, .processExpiredSessions, .newConnection 4] ++
    arrive 2 (connectFrame 66 2) ++ arrive 2 (publishFrame 1 116 7 1) ++ [.newConnection 5])

/-- The message is not sent when `A` connects again. -/
theorem not_resumes_missed : Reachable .sorting missedMessage ∧ ∃ entry,
    missedMessage.sessionRegistry.lookup [65] = some entry ∧
      entry.state.messageQueue.length = 1 ∧ entry.state.session ≠ some 4 ∧
        ¬ Resumes .sorting (connectPacketA false) 4 entry.state missedMessage := by
  refine ⟨after_reachable _ _, ?_⟩
  have hreg : (missedMessage.sessionRegistry.lookup [65]).any fun entry =>
      entry.state.messageQueue.length = 1 ∧ entry.state.session ≠ some 4 := by decide +kernel
  obtain ⟨entry, hl, hqueue, hnew⟩ := exists_of_any hreg
  refine ⟨entry, hl, hqueue, hnew, fun h => ?_⟩
  have hp : (connectPacketA false).pkt = .connect (connectA false) := rfl
  obtain ⟨-, -, hnone⟩ := h.empty hp hl rfl hnew
  rw [hnone] at hqueue
  cases hqueue

end Culex
