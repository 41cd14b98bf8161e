import Culex.Resumption

/-!
# The replies of the broker

What the handlers put into their output buffers: two bytes and one byte of the body for CONNACK and
the acknowledgments, a single byte for PINGRESP, and nothing for UNSUBACK.  The announced Remaining
Length is 2, so that a reader of the stream takes a byte of the next reply with each frame.

* `Reply.Put.shape`: the bytes of each reply;
* `truthful_iff`: so no sequence of replies can be split into its frames, but the empty one.
-/

namespace Culex

open ByteReader ManageSessions

/-- A reply: its type, the identifier it answers, and the bytes put for it. -/
structure Reply where
  type : PacketType
  packetId : Option UInt16 := none
  bytes : Bytes

/-- The replies that handlers put into their output buffers. -/
inductive Reply.Put (p : Platform) : Reply → Prop
  | connect {packet : Packet} {t : ℕ} {ms : ManageSessions} {handled : Handled} {cn : Connect}
      (hp : packet.pkt = .connect cn) (hh : connectHandler p packet t ms = .ok handled) :
      Put p { type := .connack, bytes := handled.buff }
  | publish {packet : Packet} {t : ℕ} {ms : ManageSessions} {handled : Handled} {pub : Publish}
      (hp : packet.pkt = .publish pub) (h1 : packet.header.qos = 1)
      (hh : publishHandler p packet t ms = .ok handled) :
      Put p { type := .puback, packetId := some pub.packetId, bytes := handled.buff }
  | publishTwice {packet : Packet} {t : ℕ} {ms : ManageSessions} {handled : Handled} {pub : Publish}
      (hp : packet.pkt = .publish pub) (h0 : packet.header.qos ≠ 0) (h1 : packet.header.qos ≠ 1)
      (hh : publishHandler p packet t ms = .ok handled) :
      Put p { type := .pubrec, packetId := some pub.packetId, bytes := handled.buff }
  | pubrec {packet : Packet} {t : ℕ} {ms : ManageSessions} {handled : Handled} {ack : Ack}
      (hp : packet.pkt = .ack ack) (hh : pubrecHandler packet t ms = .ok handled) :
      Put p { type := .pubrel, packetId := some ack.packetId, bytes := handled.buff }
  | pubrel {packet : Packet} {t : ℕ} {ms : ManageSessions} {handled : Handled} {ack : Ack}
      (hp : packet.pkt = .ack ack) (hh : pubrelHandler p packet t ms = .ok handled) :
      Put p { type := .pubcomp, packetId := some ack.packetId, bytes := handled.buff }
  | unsubscribe {packet : Packet} {t : ℕ} {ms : ManageSessions} {handled : Handled}
      {unsub : Unsubscribe} (hp : packet.pkt = .unsubscribe unsub)
      (hh : unsubscribeHandler packet t ms = .ok handled) :
      Put p { type := .unsuback, packetId := some unsub.packetId, bytes := handled.buff }
  | pingreq {packet : Packet} {t : ℕ} {ms : ManageSessions} {handled : Handled}
      (hh : pingreqHandler packet t ms = .ok handled) :
      Put p { type := .pingresp, bytes := handled.buff }

/-! ### Splitting a stream -/

/-- The value and the size of a Remaining Length field. -/
def remainingLength : Bytes → Option (ℕ × ℕ)
  | [] => none
  | b :: rest =>
    if b < 128 then some (b.toNat, 1)
    else (remainingLength rest).map fun field => (b.toNat - 128 + 128 * field.1, field.2 + 1)

/-- The first frame of a stream, one header byte, the Remaining Length and that many bytes, and what
follows it. -/
def takeFrame : Bytes → Option (Bytes × Bytes)
  | [] => none
  | header :: rest =>
    (remainingLength rest).bind fun field =>
      if field.2 + field.1 ≤ rest.length then
        some (header :: rest.take (field.2 + field.1), rest.drop (field.2 + field.1))
      else none

/-- The frames of a stream, at most the given number of them. -/
def splitFrames : ℕ → Bytes → Option (List Bytes)
  | _, [] => some []
  | 0, _ :: _ => none
  | n + 1, b :: stream =>
    (takeFrame (b :: stream)).bind fun x => (splitFrames n x.2).map (x.1 :: ·)

/-- The type of a frame. -/
def frameType (frame : Bytes) : Option PacketType :=
  frame.head?.map fun header => (Header.unpack header).type

/-- A frame is that of a reply: it has its type, and where this is an acknowledgment `unpack` finds
the identifier in it. -/
structure Answers (p : Platform) (reply : Reply) (frame : Bytes) : Prop where
  type : frameType frame = some reply.type
  packetId : reply.type ∈ [PacketType.puback, .pubrec, .pubrel, .pubcomp] → ∀ beyond,
    ∃ packet cursor packetId, reply.packetId = some packetId ∧ packet.pkt = .ack { packetId } ∧
      unpack p.toCore frame.length (holding frame beyond) 0 = .ok ((mqttOk, packet), cursor)

/-- The stream of the replies. -/
def replyStream (replies : List Reply) : Bytes := (replies.map Reply.bytes).flatten

/-- Splitting the stream of the replies gives one frame for each of them. -/
def Truthful (p : Platform) (replies : List Reply) : Prop :=
  ∃ frames, splitFrames (replyStream replies).length (replyStream replies) = some frames ∧
    List.Forall₂ (Answers p) replies frames

variable {p : Platform} {reply : Reply} {replies : List Reply} {stream frame rest : Bytes}
  {frames : List Bytes}

/-! ### The bytes of the replies -/

/-- A header byte and its type. -/
def headers : List (UInt8 × PacketType) :=
  [(0x20, .connack), (0x40, .puback), (0x50, .pubrec), (0x60, .pubrel), (0x70, .pubcomp)]

/-- The bytes that are put for a reply. -/
inductive Reply.Shape : Reply → Prop
  | short {header : UInt8} {type : PacketType} (h : (header, type) ∈ headers)
      (packetId : Option UInt16) (body : UInt8) : Shape ⟨type, packetId, [header, 2, body]⟩
  | ping : Shape ⟨.pingresp, none, [0xC0]⟩
  | nothing (packetId : Option UInt16) : Shape ⟨.unsuback, packetId, []⟩

theorem buildAck_bytes (packetId : UInt16) {header : UInt8} {type : PacketType}
    (h : (header, type) ∈ headers) :
    (buildAck packetId type []).1 = [header, 2, (htons packetId).toUInt8] := by
  simp only [headers, List.mem_cons, Prod.mk.injEq, List.not_mem_nil, or_false] at h
  rcases h with ⟨rfl, rfl⟩ | ⟨rfl, rfl⟩ | ⟨rfl, rfl⟩ | ⟨rfl, rfl⟩ | ⟨rfl, rfl⟩ <;> rfl

/-- A CONNACK and the acknowledgments have one byte of a body of two. -/
theorem Reply.Shape.ack {type : PacketType} (packetId : UInt16) {header : UInt8}
    (h : (header, type) ∈ headers) :
    Reply.Shape ⟨type, some packetId, (buildAck packetId type []).1⟩ := by
  rw [buildAck_bytes packetId h]
  exact .short h _ _

theorem Reply.Put.shape (h : reply.Put p) : reply.Shape := by
  have hpuback : ((0x40 : UInt8), PacketType.puback) ∈ headers := by decide
  have hpubrec : ((0x50 : UInt8), PacketType.pubrec) ∈ headers := by decide
  have hpubrel : ((0x60 : UInt8), PacketType.pubrel) ∈ headers := by decide
  have hpubcomp : ((0x70 : UInt8), PacketType.pubcomp) ∈ headers := by decide
  cases h with
  | connect hp hh =>
    obtain ⟨-, -, hbuff⟩ := connectHandler_connects hp hh
    rw [hbuff, packConnack_eq]
    exact .short (by decide) _ _
  | @publish packet t ms handled pub hp h1 hh =>
    have h0 : packet.header.qos ≠ 0 := by
      rw [h1]
      decide
    unfold publishHandler at hh
    simp only [hp, if_neg h0, if_pos h1, except_bind_eq_ok] at hh
    obtain ⟨x, -, hh⟩ := hh
    obtain rfl := Except.ok.inj hh
    exact .ack pub.packetId hpuback
  | @publishTwice packet t ms handled pub hp h0 h1 hh =>
    rcases (publishHandler_ends packet t ms h0 h1).ok hh with ⟨_, _, -, pub', hp', rfl⟩ | ⟨hno, -⟩
    · obtain rfl := Packet.Variant.publish.inj (hp.symm.trans hp')
      exact .ack pub.packetId hpubrec
    · exact absurd ⟨pub, hp⟩ hno
  | @pubrec packet t ms handled ack hp hh =>
    rcases (pubrecHandler_ends packet t ms).ok hh with ⟨_, _, -, ack', hp', rfl⟩ | ⟨hno, -⟩
    · obtain rfl := Packet.Variant.ack.inj (hp.symm.trans hp')
      exact .ack ack.packetId hpubrel
    · exact absurd ⟨ack, hp⟩ hno
  | @pubrel packet t ms handled ack hp hh =>
    unfold pubrelHandler at hh
    simp only [hp, except_bind_eq_ok] at hh
    obtain ⟨x, -, hh⟩ := hh
    split_ifs at hh
    · rw [except_bind_eq_ok] at hh
      obtain ⟨y, -, hh⟩ := hh
      obtain rfl := Except.ok.inj hh
      exact .ack ack.packetId hpubcomp
    · obtain rfl := Except.ok.inj hh
      exact .ack ack.packetId hpubcomp
  | unsubscribe hp hh =>
    unfold unsubscribeHandler at hh
    rw [hp] at hh
    obtain rfl := Except.ok.inj hh
    exact .nothing _
  | pingreq hh =>
    obtain rfl := Except.ok.inj hh
    exact .ping

/-! ### Reading the stream -/

theorem replyStream_cons : replyStream (reply :: replies) = reply.bytes ++ replyStream replies := by
  unfold replyStream
  rw [List.map_cons, List.flatten_cons]

theorem frameType_of_takeFrame (h : takeFrame stream = some (frame, rest)) :
    frameType frame = frameType stream := by
  cases stream with
  | nil => cases h
  | cons header stream =>
    unfold takeFrame at h
    obtain ⟨field, -, h⟩ := Option.bind_eq_some_iff.1 h
    split_ifs at h
    obtain ⟨rfl, -⟩ := Prod.mk.inj (Option.some.inj h)
    rfl

theorem splitFrames_cons {n : ℕ} (h : splitFrames n stream = some (frame :: frames)) :
    ∃ n' rest, takeFrame stream = some (frame, rest) ∧ splitFrames n' rest = some frames := by
  cases stream with
  | nil =>
    unfold splitFrames at h
    cases h
  | cons b stream =>
    cases n with
    | zero => cases h
    | succ n =>
      unfold splitFrames at h
      obtain ⟨⟨frame', rest⟩, htake, h⟩ := Option.bind_eq_some_iff.1 h
      obtain ⟨frames', hrest, he⟩ := Option.map_eq_some_iff.1 h
      obtain ⟨rfl, rfl⟩ := List.cons.inj he
      exact ⟨n, rest, htake, hrest⟩

/-- A frame with the Remaining Length 2 takes a byte more than was put for it. -/
theorem takeFrame_short {header body : UInt8}
    (h : takeFrame (header :: 2 :: body :: stream) = some (frame, rest)) :
    rest = stream.tail ∧ stream ≠ [] := by
  have hfield : remainingLength (2 :: body :: stream) = some (2, 1) := rfl
  simp only [takeFrame, hfield, Option.bind_some] at h
  split_ifs at h with hlength
  obtain ⟨-, rfl⟩ := Prod.mk.inj (Option.some.inj h)
  cases stream with
  | nil => exact absurd hlength (by simp)
  | cons b stream => exact ⟨rfl, List.cons_ne_nil b stream⟩

/-- What the frames of the stream can start with. -/
theorem frameType_replyStream (h : ∀ reply ∈ replies, reply.Shape) {type : PacketType}
    (ht : frameType (replyStream replies) = some type) : type ≠ .unsuback ∧ type ≠ .pingresp := by
  induction replies with
  | nil => cases ht
  | cons reply replies ih =>
    rw [replyStream_cons] at ht
    cases h reply List.mem_cons_self with
    | @short header type' hmem _ _ =>
      obtain rfl := Option.some.inj ht
      simp only [headers, List.mem_cons, Prod.mk.injEq, List.not_mem_nil, or_false] at hmem
      rcases hmem with ⟨rfl, -⟩ | ⟨rfl, -⟩ | ⟨rfl, -⟩ | ⟨rfl, -⟩ | ⟨rfl, -⟩ <;> decide
    | ping =>
      obtain rfl := Option.some.inj ht
      decide
    | nothing _ => exact ih (fun reply' hr => h reply' (List.mem_cons_of_mem _ hr)) ht

/-- One byte later, no UNSUBACK starts. -/
theorem frameType_tail_ne_unsuback (h : ∀ reply ∈ replies, reply.Shape) {type : PacketType}
    (ht : frameType (replyStream replies).tail = some type) : type ≠ .unsuback := by
  induction replies with
  | nil => cases ht
  | cons reply replies ih =>
    have htail : ∀ reply ∈ replies, reply.Shape :=
      fun reply' hr => h reply' (List.mem_cons_of_mem _ hr)
    rw [replyStream_cons] at ht
    cases h reply List.mem_cons_self with
    | short hmem _ _ =>
      obtain rfl := Option.some.inj ht
      decide
    | ping => exact (frameType_replyStream htail ht).1
    | nothing _ => exact ih htail ht

/-- A frame that starts one byte late is not that of the reply. -/
theorem frameType_tail_ne (h : ∀ reply' ∈ reply :: replies, reply'.Shape) :
    frameType (replyStream (reply :: replies)).tail ≠ some reply.type := by
  intro ht
  have hrest : ∀ reply ∈ replies, reply.Shape :=
    fun reply' hr => h reply' (List.mem_cons_of_mem _ hr)
  rw [replyStream_cons] at ht
  cases h reply List.mem_cons_self with
  | @short header type hmem _ _ =>
    have htwo : (Header.unpack 2).type = .reserved0 := by decide
    obtain rfl : .reserved0 = type := htwo.symm.trans (Option.some.inj ht)
    simp [headers] at hmem
  | ping => exact (frameType_replyStream hrest ht).2 rfl
  | nothing _ => exact frameType_tail_ne_unsuback hrest ht rfl

/-- **No stream of replies can be split into their frames**, but the empty one. -/
theorem truthful_iff (h : ∀ reply ∈ replies, reply.Put p) : Truthful p replies ↔ replies = [] := by
  have hshape : ∀ reply ∈ replies, reply.Shape := fun reply hr => (h reply hr).shape
  constructor
  · rintro ⟨frames, hsplit, hall⟩
    cases replies with
    | nil => rfl
    | cons reply replies =>
      obtain ⟨frame₁, frames₁, hanswers, hrest, rfl⟩ := List.forall₂_cons_left_iff.1 hall
      obtain ⟨n, rest₁, htake, hsplit₁⟩ := splitFrames_cons hsplit
      have ht := (frameType_of_takeFrame htake).symm.trans hanswers.type
      cases hshape reply List.mem_cons_self with
      | ping => exact absurd rfl (frameType_replyStream hshape ht).2
      | nothing _ => exact absurd rfl (frameType_replyStream hshape ht).1
      | short hmem _ _ =>
        -- the frame takes a byte of the next reply, and the next frame starts too late
        rw [replyStream_cons] at htake
        obtain ⟨rfl, hne⟩ := takeFrame_short htake
        cases replies with
        | nil => exact absurd rfl hne
        | cons reply₂ replies =>
          obtain ⟨frame₂, frames₂, hanswers₂, -, rfl⟩ := List.forall₂_cons_left_iff.1 hrest
          obtain ⟨n₂, rest₂, htake₂, -⟩ := splitFrames_cons hsplit₁
          have ht₂ := (frameType_of_takeFrame htake₂).symm.trans hanswers₂.type
          exact absurd ht₂ (frameType_tail_ne fun reply' hr =>
            hshape reply' (List.mem_cons_of_mem _ hr))
  · rintro rfl
    exact ⟨[], rfl, .nil⟩

/-- The message with QoS 2, which is answered with a PUBREC. -/
def packetSevenReceived : Packet :=
  { packetSeven with header := { packetSeven.header with qos := 2 } }

/-- A PUBACK, a PUBREC and a PINGRESP. -/
theorem truthful_iff_acks : ∃ replies : List Reply, (∀ reply ∈ replies, reply.Put .sorting) ∧
    replies.map Reply.type = [.puback, .pubrec, .pingresp] ∧
      replyStream replies = [0x40, 2, 0, 0x50, 2, 0, 0xC0] ∧ ¬ Truthful .sorting replies := by
  have hack : (publishHandler .sorting packetSeven 0 oneClient).toOption.any
      fun handled => handled.buff = [0x40, 2, 0] := by decide +kernel
  have hrec : (publishHandler .sorting packetSevenReceived 0 oneClient).toOption.any
      fun handled => handled.buff = [0x50, 2, 0] := by decide +kernel
  obtain ⟨acked, hh, hbuff⟩ := exists_of_any_ok hack
  obtain ⟨received, hh', hbuff'⟩ := exists_of_any_ok hrec
  let replies : List Reply :=
    [{ type := .puback, packetId := some 7, bytes := acked.buff },
      { type := .pubrec, packetId := some 7, bytes := received.buff },
      { type := .pingresp, bytes := [0xC0] }]
  have hput : ∀ reply ∈ replies, reply.Put .sorting := by
    intro reply hr
    simp only [replies, List.mem_cons, List.not_mem_nil, or_false] at hr
    rcases hr with rfl | rfl | rfl
    · exact .publish rfl rfl hh
    · exact .publishTwice rfl (by decide) (by decide) hh'
    · exact @Reply.Put.pingreq .sorting {} 0 {} _ rfl
  refine ⟨replies, hput, rfl, ?_, fun htruthful => ?_⟩
  · simp [replyStream, replies, hbuff, hbuff']
  · exact List.cons_ne_nil _ _ ((truthful_iff hput).1 htruthful)

/-- The reply to a PUBLISH with QoS 1 is a byte short. -/
theorem not_truthful_puback : ∃ reply : Reply, reply.Put .sorting ∧ reply.type = .puback ∧
    reply.packetId = some 7 ∧ ¬ Truthful .sorting [reply] := by
  have hok : (publishHandler .sorting packetSeven 0 oneClient).toOption.any
      fun handled => handled.buff = [0x40, 2, 0] := by decide +kernel
  obtain ⟨handled, hh, hbuff⟩ := exists_of_any_ok hok
  refine ⟨_, .publish rfl rfl hh, rfl, rfl, ?_⟩
  rintro ⟨frames, hsplit, -⟩
  rw [replyStream_cons] at hsplit
  simp only [hbuff] at hsplit
  have hnone : splitFrames 3 [0x40, 2, 0] = none := by decide
  cases hnone.symm.trans hsplit

end Culex
