import Culex.Frame
import Culex.Wire

/-!
# The fields of each packet type

Each field reader of the decoder against the wire format: what it accepts is exactly what `Wire`
spells (`Spells`), for CONNECT up to the reserved bit of the flags byte, for the two list payloads
together with the condition under which their loops stop.  `unpack_complete` then turns `unpack` on
a complete frame into the field reader of its type.
-/

namespace Culex

open ByteReader

variable (core : Core)

/-! ### CONNECT -/

theorem spells_unpackIf (flag : Bool) :
    Spells (unpackIf core flag) fun s l => Wire.Sendable flag s ∧ l = Wire.optional flag s := by
  cases flag
  · refine (spells_pure []).congr fun s l => ?_
    constructor
    · rintro ⟨rfl, rfl⟩
      exact ⟨rfl, rfl⟩
    · rintro ⟨rfl, rfl⟩
      exact ⟨rfl, rfl⟩
  · exact core.spells_string16

theorem spells_connectFields :
    Spells (unpackConnectFields core) Wire.IsConnectFields := by
  refine (spells_bind core.spells_u8 fun level => spells_bind core.spells_u8 fun byte =>
    spells_bind core.spells_u16 fun keepAlive => spells_bind core.spells_string16 fun clientId =>
    spells_bind (spells_unpackIf core _) fun willTopic =>
    spells_bind (spells_unpackIf core _) fun willMsg =>
    spells_bind (spells_unpackIf core _) fun username =>
    spells_bind (spells_unpackIf core _) fun passwd => spells_pure _).congr fun cn l => ?_
  constructor
  · rintro ⟨level, _, _, rfl, ⟨byte, _, _, rfl, ⟨keepAlive, _, _, rfl, ⟨clientId, _, _, ⟨hc, rfl⟩,
      ⟨willTopic, _, _, ⟨ht, rfl⟩, ⟨willMsg, _, _, ⟨hm, rfl⟩, ⟨username, _, _, ⟨hu, rfl⟩,
      ⟨passwd, _, _, ⟨hp, rfl⟩, ⟨rfl, rfl⟩, rfl⟩, rfl⟩, rfl⟩, rfl⟩, rfl⟩, rfl⟩, rfl⟩, rfl⟩
    refine ⟨⟨hc, ht, hm, hu, hp⟩, byte, rfl, ?_⟩
    simp [Wire.connectFields]
  · rintro ⟨⟨hc, ht, hm, hu, hp⟩, flags, hcf, rfl⟩
    rw [← hcf] at ht hm hu hp
    refine ⟨cn.level, _, _, rfl, ⟨flags, _, _, rfl, ⟨cn.keepAlive, _, _, rfl,
      ⟨cn.clientId, _, _, ⟨hc, rfl⟩, ⟨cn.willTopic, _, _, ⟨ht, rfl⟩, ⟨cn.willMsg, _, _, ⟨hm, rfl⟩,
      ⟨cn.username, _, _, ⟨hu, rfl⟩, ⟨cn.passwd, _, _, ⟨hp, rfl⟩, ⟨?_, rfl⟩, rfl⟩, rfl⟩, rfl⟩, rfl⟩,
      rfl⟩, rfl⟩, rfl⟩, ?_⟩
    · rw [hcf]
    · rw [hcf]
      simp [Wire.connectFields]

theorem str16_protocolName : str16 protocolName = Wire.protocolName := by decide

theorem total_unpackIf (flag : Bool) : Total (unpackIf core flag) 65537 := by
  cases flag
  · exact total_pure _ _
  · exact core.total_string16

theorem total_connectFields : Total (unpackConnectFields core) 327700 :=
  (total_bind core.total_u8 fun _ => total_bind core.total_u8 fun _ =>
    total_bind core.total_u16 fun _ => total_bind core.total_string16 fun _ =>
    total_bind (total_unpackIf core _) fun _ => total_bind (total_unpackIf core _) fun _ =>
    total_bind (total_unpackIf core _) fun _ => total_bind (total_unpackIf core _) fun _ =>
    total_pure _ 0).mono (by norm_num)

/-! ### PUBLISH -/

theorem spells_publishId (qos : UInt8) (size : ℤ) :
    Spells (unpackPublishId core qos size) fun x l =>
      (if 0 < qos then x.2 = size - 2 else x = (0, size)) ∧
        l = if 0 < qos then be16 x.1 else [] := by
  unfold unpackPublishId
  by_cases hq : 0 < qos
  · simp only [if_pos hq]
    refine (spells_bind core.spells_u16 fun packetId => spells_pure _).congr fun x l => ?_
    constructor
    · rintro ⟨packetId, _, _, rfl, ⟨rfl, rfl⟩, rfl⟩
      exact ⟨rfl, by simp⟩
    · rintro ⟨hx, rfl⟩
      exact ⟨x.1, _, [], rfl, ⟨Prod.ext rfl hx, rfl⟩, by simp⟩
  · simp only [if_neg hq]
    exact spells_pure _

theorem spells_payload (size : ℤ) :
    Spells (unpackPayload size) fun s l => (s.length : ℤ) = size ∧ l = s := by
  unfold unpackPayload
  refine (spells_ite (spells_fail _) (spells_bytes _ _)).congr fun s l => ?_
  split_ifs with h
  · constructor
    · exact False.elim
    · rintro ⟨hs, -⟩
      omega
  · constructor
    · rintro ⟨hs, rfl⟩
      exact ⟨by omega, rfl⟩
    · rintro ⟨hs, rfl⟩
      exact ⟨by omega, rfl⟩

/-! ### The list payloads -/

/-- The entries after which the loop of `unpackSubscribe` stops. -/
def TuplesFill : ℤ → List Tuple → Prop
  | payloadLen, [] => payloadLen ≤ 0
  | payloadLen, t :: ts => 0 < payloadLen ∧ TuplesFill (payloadLen - (2 + t.topic.length + 1)) ts

theorem spells_tuples (rounds : ℕ) (payloadLen : ℤ) (h : payloadLen.toNat ≤ rounds) :
    Spells (unpackTuples core rounds payloadLen) fun ts l => TuplesFill payloadLen ts ∧
      (∀ t ∈ ts, t.topic.length < 65536) ∧ l = ts.flatMap Wire.tuple := by
  induction rounds generalizing payloadLen with
  | zero =>
    refine (spells_pure []).congr fun ts l => ?_
    constructor
    · rintro ⟨rfl, rfl⟩
      exact ⟨by simp only [TuplesFill]; omega, by simp, rfl⟩
    · rintro ⟨hf, -, rfl⟩
      cases ts with
      | nil => exact ⟨rfl, rfl⟩
      | cons t ts => exact absurd hf.1 (by omega)
  | succ rounds ih =>
    unfold unpackTuples
    by_cases hpos : 0 < payloadLen
    · rw [if_pos hpos]
      refine (spells_bind core.spells_string16 fun topic => spells_bind core.spells_u8 fun qos =>
        spells_bind (ih _ (by omega)) fun rest => spells_pure _).congr fun ts l => ?_
      constructor
      · rintro ⟨topic, _, _, ⟨ht, rfl⟩, ⟨qos, _, _, rfl, ⟨rest, _, _, ⟨hf, hr, rfl⟩, ⟨rfl, rfl⟩,
          rfl⟩, rfl⟩, rfl⟩
        refine ⟨⟨hpos, hf⟩, ?_, by simp [Wire.tuple]⟩
        simpa using ⟨ht, hr⟩
      · rintro ⟨hf, hr, rfl⟩
        cases ts with
        | nil => exact absurd hf (by simp only [TuplesFill]; omega)
        | cons t ts =>
          refine ⟨t.topic, _, _, ⟨hr t (by simp), rfl⟩, ⟨t.qos, _, _, rfl, ⟨ts, _, [],
            ⟨hf.2, fun t' h' => hr t' (by simp [h']), rfl⟩, ⟨rfl, rfl⟩, rfl⟩, rfl⟩, ?_⟩
          simp [Wire.tuple]
    · rw [if_neg hpos]
      refine (spells_pure []).congr fun ts l => ?_
      constructor
      · rintro ⟨rfl, rfl⟩
        exact ⟨by simp only [TuplesFill]; omega, by simp, rfl⟩
      · rintro ⟨hf, -, rfl⟩
        cases ts with
        | nil => exact ⟨rfl, rfl⟩
        | cons t ts => exact absurd hf.1 hpos

/-- Entries that take up the payload exactly stop the loop. -/
theorem tuplesFill_length (ts : List Tuple) : TuplesFill (ts.flatMap Wire.tuple).length ts := by
  induction ts with
  | nil => simp [TuplesFill]
  | cons t ts ih =>
    simp only [TuplesFill, List.flatMap_cons, List.length_append, Wire.length_tuple]
    refine ⟨by push_cast; omega, ?_⟩
    convert ih using 1
    push_cast
    omega

/-- The loop never stops before the payload is used up. -/
theorem le_of_tuplesFill {payloadLen : ℤ} {ts : List Tuple} (h : TuplesFill payloadLen ts) :
    payloadLen ≤ (ts.flatMap Wire.tuple).length := by
  induction ts generalizing payloadLen with
  | nil => simpa [TuplesFill] using h
  | cons t ts ih =>
    have := ih h.2
    simp only [List.flatMap_cons, List.length_append, Wire.length_tuple]
    push_cast
    omega

theorem total_tuples (rounds : ℕ) (payloadLen : ℤ) :
    Total (unpackTuples core rounds payloadLen) (65538 * rounds) := by
  induction rounds generalizing payloadLen with
  | zero => exact total_pure _ _
  | succ rounds ih =>
    unfold unpackTuples
    by_cases hpos : 0 < payloadLen
    · rw [if_pos hpos]
      exact (total_bind core.total_string16 fun _ => total_bind core.total_u8 fun _ =>
        total_bind (ih _) fun _ => total_pure _ 0).mono (by omega)
    · rw [if_neg hpos]
      exact total_pure _ _

/-- The topics after which the loop of `unpackUnsubscribe` stops. -/
def TopicsFill : UInt64 → List Bytes → Prop
  | payloadLen, [] => payloadLen = 0
  | payloadLen, t :: ts => payloadLen ≠ 0 ∧ TopicsFill (payloadLen - UInt64.ofNat (2 + t.length)) ts

theorem spells_topics (rounds : ℕ) (payloadLen : UInt64) :
    Spells (unpackTopics core rounds payloadLen) fun ts l => TopicsFill payloadLen ts ∧
      ts.length < rounds ∧ (∀ t ∈ ts, t.length < 65536) ∧ l = ts.flatMap str16 := by
  induction rounds generalizing payloadLen with
  | zero =>
    refine (spells_fail _).congr fun ts l => ?_
    simp
  | succ rounds ih =>
    unfold unpackTopics
    by_cases h0 : payloadLen = 0
    · rw [if_neg (not_not.2 h0)]
      refine (spells_pure []).congr fun ts l => ?_
      constructor
      · rintro ⟨rfl, rfl⟩
        exact ⟨h0, by simp, by simp, rfl⟩
      · rintro ⟨hf, -, -, rfl⟩
        cases ts with
        | nil => exact ⟨rfl, rfl⟩
        | cons t ts => exact absurd h0 hf.1
    · rw [if_pos h0]
      refine (spells_bind core.spells_string16 fun topic =>
        spells_bind (ih _) fun rest => spells_pure _).congr fun ts l => ?_
      constructor
      · rintro ⟨topic, _, _, ⟨ht, rfl⟩, ⟨rest, _, _, ⟨hf, hn, hr, rfl⟩, ⟨rfl, rfl⟩, rfl⟩, rfl⟩
        refine ⟨⟨h0, hf⟩, by simpa using hn, ?_, by simp⟩
        simpa using ⟨ht, hr⟩
      · rintro ⟨hf, hn, hr, rfl⟩
        cases ts with
        | nil => exact absurd hf h0
        | cons t ts =>
          refine ⟨t, _, _, ⟨hr t (by simp), rfl⟩, ⟨ts, _, [],
            ⟨hf.2, by simpa using hn, fun t' h' => hr t' (by simp [h']), rfl⟩, ⟨rfl, rfl⟩, rfl⟩, ?_⟩
          simp

/-- The loop stops exactly on the topics that take up its counter modulo 2⁶⁴, with nothing left
over on the way. -/
theorem topicsFill_iff {payloadLen : UInt64} {ts : List Bytes}
    (hlen : (ts.flatMap str16).length < 2 ^ 64) :
    TopicsFill payloadLen ts ↔ payloadLen = UInt64.ofNat (ts.flatMap str16).length := by
  induction ts generalizing payloadLen with
  | nil => simp [TopicsFill]
  | cons t ts ih =>
    simp only [List.flatMap_cons, List.length_append, length_str16] at hlen ⊢
    simp only [TopicsFill]
    rw [ih (by omega), UInt64.sub_eq_iff_eq_add, ← UInt64.ofNat_add, Nat.add_comm _ (2 + t.length)]
    constructor
    · exact And.right
    · intro h
      refine ⟨?_, h⟩
      rintro rfl
      have := congrArg UInt64.toNat h
      rw [UInt64.toNat_ofNat', Nat.mod_eq_of_lt hlen] at this
      simp at this
      omega

theorem length_le_flatMap_str16 (ts : List Bytes) : 2 * ts.length ≤ (ts.flatMap str16).length := by
  induction ts with
  | nil => simp
  | cons t ts ih =>
    simp only [List.flatMap_cons, List.length_append, length_str16, List.length_cons]
    omega

theorem ofInt_natCast (m : ℕ) : UInt64.ofInt (m : ℤ) = UInt64.ofNat m := by
  have h : ((m : ℤ) % 2 ^ 64).toNat = m % 2 ^ 64 := by omega
  rw [UInt64.ofInt, h, ← UInt64.toNat_inj, UInt64.toNat_ofNat', UInt64.toNat_ofNat', Nat.mod_mod]

theorem topicsFill_of_length {len : ℕ} {ts : List Bytes} (hlen : len ≤ 2097151)
    (h : 2 + (ts.flatMap str16).length = len) : TopicsFill (UInt64.ofInt (len - 2)) ts := by
  rw [topicsFill_iff (by omega), ← ofInt_natCast]
  congr 1
  omega

/-- The wrapped counter of a body shorter than the packet identifier cannot be used up within the
address space, so the topics take up the body exactly. -/
theorem TopicsFill.length_eq {len : ℕ} {ts : List Bytes} (hlen : len ≤ 2097151)
    (h : TopicsFill (UInt64.ofInt (len - 2)) ts)
    (hspace : 4 + (ts.flatMap str16).length ≤ addressSpace) :
    2 + (ts.flatMap str16).length = len := by
  have hA : addressSpace = 2 ^ 64 := rfl
  rw [topicsFill_iff (by omega)] at h
  have hn := congrArg UInt64.toNat h
  rw [UInt64.toNat_ofNat', Nat.mod_eq_of_lt (by omega)] at hn
  obtain rfl | rfl | h2 : len = 0 ∨ len = 1 ∨ 2 ≤ len := by omega
  · have : (UInt64.ofInt ((0 : ℕ) - 2)).toNat = 2 ^ 64 - 2 := by decide
    omega
  · have : (UInt64.ofInt ((1 : ℕ) - 2)).toNat = 2 ^ 64 - 1 := by decide
    omega
  · rw [show ((len : ℤ) - 2) = ((len - 2 : ℕ) : ℤ) by omega, ofInt_natCast,
      UInt64.toNat_ofNat', Nat.mod_eq_of_lt (by omega)] at hn
    omega

/-! ### A complete frame -/

/-- The types whose body is a packet identifier. -/
def IsAck (t : PacketType) : Prop :=
  t = .puback ∨ t = .pubrec ∨ t = .pubrel ∨ t = .pubcomp

/-- The types with an entry in the jump table. -/
def HasUnpacker (t : PacketType) : Prop :=
  t = .connect ∨ t = .publish ∨ IsAck t ∨ t = .subscribe ∨ t = .unsubscribe

/-- What an unpacker returns on a frame with header `h`, total length `pktLen` and Remaining Length
`len`, and the bytes it takes after the length field. -/
inductive Outcome (h : Header) (pktLen len : ℕ) : ℤ × Packet → Bytes → Prop
  | connect {cn : Connect} {l : Bytes} (ht : h.type = .connect) (hl : Wire.IsConnectFields cn l) :
      Outcome h pktLen len (mqttOk, ⟨h, pktLen, .connect cn⟩) (Wire.protocolName ++ l)
  | badName {name : Bytes} (ht : h.type = .connect) (hname : name ≠ protocolName)
      (hlen : name.length < 65536) :
      Outcome h pktLen len (-mqttErr, ⟨h, pktLen, .connack {}⟩) (str16 name)
  | publish {pub : Publish} (ht : h.type = .publish) (htopic : pub.topic.length < 65536)
      (hid : h.qos = 0 → pub.packetId = 0) (hlen : (Wire.publishBody h.qos pub).length = len) :
      Outcome h pktLen len (mqttOk, ⟨h, pktLen, .publish pub⟩) (Wire.publishBody h.qos pub)
  | ack {a : Ack} (ht : IsAck h.type) :
      Outcome h pktLen len (mqttOk, ⟨h, pktLen, .ack a⟩) (be16 a.packetId)
  | subscribe {sub : Subscribe} (ht : h.type = .subscribe) (hfill : TuplesFill (len - 2) sub.payload)
      (htopic : ∀ t ∈ sub.payload, t.topic.length < 65536) :
      Outcome h pktLen len (mqttOk, ⟨h, pktLen, .subscribe sub⟩) (Wire.subscribeBody sub)
  | unsubscribe {unsub : Unsubscribe} (ht : h.type = .unsubscribe) (hflags : h.pack &&& 0x02 = 0x02)
      (hfill : TopicsFill (UInt64.ofInt (len - 2)) unsub.topics)
      (hrounds : unsub.topics.length < addressSpace)
      (htopic : ∀ t ∈ unsub.topics, t.length < 65536) :
      Outcome h pktLen len (mqttOk, ⟨h, pktLen, .unsubscribe unsub⟩) (Wire.unsubscribeBody unsub)
  | badFlags (ht : h.type = .unsubscribe) (hflags : h.pack &&& 0x02 ≠ 0x02) :
      Outcome h pktLen len (-mqttErr, ⟨h, 0, .connack {}⟩) []

section Outcomes

variable {n len k : ℕ} {mem : Mem} {h : Header} {x : ℤ × Packet} {q : ℕ}

/-- From the spelling of the fields to the run of the unpacker. -/
theorem framed_iff {fields : ℤ → Packet → Decoder (ℤ × Packet)} {packet : Packet}
    {S : ℤ × Packet → Bytes → Prop} (hc : Complete mem n len k)
    (hS : Spells (fields len { packet with pktLen := 1 + k + len }) S) :
    framed packet n fields mem 1 = .ok (x, q) ↔
      ∃ l, S x l ∧ At mem (1 + k) l ∧ q = 1 + k + l.length ∧ q ≤ addressSpace := by
  have hk := hc.bounds
  have hA : addressSpace = 2 ^ 64 := rfl
  rw [framed_complete hc]
  exact hS mem (1 + k) (by omega) x q

theorem unpackConnect_iff (hc : Complete mem n len k) (ht : h.type = .connect) :
    unpackConnect core h { header := h } n mem 1 = .ok (x, q) ↔
      ∃ l, Outcome h (1 + k + len) len x l ∧ At mem (1 + k) l ∧ q = 1 + k + l.length ∧
        q ≤ addressSpace := by
  refine framed_iff hc ((spells_bind core.spells_string16 fun name => spells_ite (spells_pure _)
    (spells_bind (spells_connectFields core) fun cn => spells_pure _)).congr fun x l => ?_)
  constructor
  · rintro ⟨name, l₁, l₂, ⟨hn, rfl⟩, hx, rfl⟩
    split_ifs at hx with hname
    · obtain ⟨rfl, rfl⟩ := hx
      rw [List.append_nil]
      exact .badName ht hname hn
    · obtain ⟨cn, l, _, hl, ⟨rfl, rfl⟩, rfl⟩ := hx
      rw [not_not.1 hname, str16_protocolName, List.append_nil]
      exact .connect ht hl
  · intro ho
    cases ho with
    | @connect cn l _ hl =>
      refine ⟨protocolName, Wire.protocolName, l, ⟨by decide, str16_protocolName.symm⟩, ?_, rfl⟩
      rw [if_neg (not_not.2 rfl)]
      exact ⟨cn, l, [], hl, ⟨rfl, rfl⟩, by simp⟩
    | @badName name _ hname hlen =>
      refine ⟨name, str16 name, [], ⟨hlen, rfl⟩, ?_, by simp⟩
      rw [if_pos hname]
      exact ⟨rfl, rfl⟩
    | publish ht' | subscribe ht' | unsubscribe ht' | badFlags ht' => rw [ht] at ht'; cases ht'
    | ack ht' => rw [ht] at ht'; simp [IsAck] at ht'

theorem unpackPublish_iff (hc : Complete mem n len k) (ht : h.type = .publish) :
    unpackPublish core h { header := h } n mem 1 = .ok (x, q) ↔
      ∃ l, Outcome h (1 + k + len) len x l ∧ At mem (1 + k) l ∧ q = 1 + k + l.length ∧
        q ≤ addressSpace := by
  refine framed_iff hc ((spells_bind core.spells_string16 fun topic =>
    spells_bind (spells_publishId core _ _) fun y =>
    spells_bind (spells_payload y.2) fun payload => spells_pure _).congr fun x l => ?_)
  constructor
  · rintro ⟨topic, _, _, ⟨hn, rfl⟩, ⟨y, _, _, ⟨hy, rfl⟩, ⟨_, payload, _, ⟨hp, rfl⟩, ⟨rfl, rfl⟩,
      rfl⟩, rfl⟩, rfl⟩
    have hbody := @Outcome.publish h (1 + k + len) len ⟨topic, y.1, payload⟩ ht hn
    simp only [Wire.publishBody] at hbody
    -- the identifier is there with a positive QoS, and takes two bytes off the payload
    by_cases hq : 0 < h.qos
    · have hq0 : h.qos ≠ 0 := UInt8.pos_iff_ne_zero.1 hq
      simp only [if_pos hq] at hy hbody ⊢
      rw [List.append_nil]
      refine hbody (fun h0 => absurd h0 hq0) ?_
      simp only [List.length_append, length_str16, length_be16]
      omega
    · simp only [if_neg hq] at hy hbody ⊢
      subst hy
      rw [List.append_nil]
      refine hbody (fun _ => rfl) ?_
      simp only [List.length_append, length_str16, List.length_nil]
      simp only at hp
      omega
  · intro ho
    cases ho with
    | @publish pub _ htopic hid hlen =>
      simp only [Wire.publishBody] at hlen ⊢
      refine ⟨pub.topic, _, _, ⟨htopic, rfl⟩, ?_, rfl⟩
      by_cases hq : 0 < h.qos
      · simp only [if_pos hq, List.length_append, length_str16, length_be16] at hlen ⊢
        refine ⟨(pub.packetId, len - (pub.topic.length + 2) - 2), _, _, ⟨rfl, rfl⟩,
          ⟨pub.payload, _, [], ⟨?_, rfl⟩, ⟨rfl, rfl⟩, rfl⟩, by simp⟩
        simp only
        omega
      · have hq0 : h.qos = 0 := by
          by_contra hq0
          exact hq (UInt8.pos_iff_ne_zero.2 hq0)
        simp only [if_neg hq, List.length_append, length_str16, List.length_nil] at hlen ⊢
        refine ⟨(0, len - (pub.topic.length + 2)), _, _, ⟨rfl, rfl⟩,
          ⟨pub.payload, _, [], ⟨?_, rfl⟩, ⟨?_, rfl⟩, rfl⟩, by simp⟩
        · simp only
          omega
        · rw [← hid hq0]
    | connect ht' | badName ht' | subscribe ht' | unsubscribe ht' | badFlags ht' =>
      rw [ht] at ht'; cases ht'
    | ack ht' => rw [ht] at ht'; simp [IsAck] at ht'

theorem unpackAck_iff (hc : Complete mem n len k) (ht : IsAck h.type) :
    unpackAck core h { header := h } n mem 1 = .ok (x, q) ↔
      ∃ l, Outcome h (1 + k + len) len x l ∧ At mem (1 + k) l ∧ q = 1 + k + l.length ∧
        q ≤ addressSpace := by
  refine framed_iff hc ((spells_bind core.spells_u16 fun packetId => spells_pure _).congr
    fun x l => ?_)
  constructor
  · rintro ⟨packetId, _, _, rfl, ⟨rfl, rfl⟩, rfl⟩
    rw [List.append_nil]
    exact @Outcome.ack h _ _ ⟨packetId⟩ ht
  · intro ho
    cases ho with
    | @ack a => exact ⟨a.packetId, _, [], rfl, ⟨rfl, rfl⟩, by simp⟩
    | connect ht' | badName ht' | publish ht' | subscribe ht' | unsubscribe ht' | badFlags ht' =>
      rw [ht'] at ht; simp [IsAck] at ht

theorem unpackSubscribe_iff (hc : Complete mem n len k) (ht : h.type = .subscribe) :
    unpackSubscribe core h { header := h } n mem 1 = .ok (x, q) ↔
      ∃ l, Outcome h (1 + k + len) len x l ∧ At mem (1 + k) l ∧ q = 1 + k + l.length ∧
        q ≤ addressSpace := by
  refine framed_iff hc ((spells_bind core.spells_u16 fun packetId =>
    spells_bind (spells_tuples core _ _ le_rfl) fun payload => spells_pure _).congr fun x l => ?_)
  constructor
  · rintro ⟨packetId, _, _, rfl, ⟨payload, _, _, ⟨hf, ht', rfl⟩, ⟨rfl, rfl⟩, rfl⟩, rfl⟩
    rw [List.append_nil]
    exact @Outcome.subscribe h _ _ ⟨packetId, payload⟩ ht hf ht'
  · intro ho
    cases ho with
    | @subscribe sub _ hf ht' =>
      exact ⟨sub.packetId, _, _, rfl, ⟨sub.payload, _, [], ⟨hf, ht', rfl⟩, ⟨rfl, rfl⟩, rfl⟩,
        by simp [Wire.subscribeBody]⟩
    | connect ht' | badName ht' | publish ht' | unsubscribe ht' | badFlags ht' =>
      rw [ht] at ht'; cases ht'
    | ack ht' => rw [ht] at ht'; simp [IsAck] at ht'

theorem unpackUnsubscribe_iff (hc : Complete mem n len k) (ht : h.type = .unsubscribe) :
    unpackUnsubscribe core h { header := h } n mem 1 = .ok (x, q) ↔
      ∃ l, Outcome h (1 + k + len) len x l ∧ At mem (1 + k) l ∧ q = 1 + k + l.length ∧
        q ≤ addressSpace := by
  refine framed_iff hc ((spells_ite (spells_pure _) (spells_bind core.spells_u16 fun packetId =>
    spells_bind (spells_topics core _ _) fun topics => spells_pure _)).congr fun x l => ?_)
  split_ifs with hflags
  · constructor
    · rintro ⟨rfl, rfl⟩
      exact .badFlags ht hflags
    · intro ho
      cases ho with
      | badFlags => exact ⟨rfl, rfl⟩
      | unsubscribe _ hflags' => exact absurd hflags' hflags
      | connect ht' | badName ht' | publish ht' | subscribe ht' => rw [ht] at ht'; cases ht'
      | ack ht' => rw [ht] at ht'; simp [IsAck] at ht'
  · constructor
    · rintro ⟨packetId, _, _, rfl, ⟨topics, _, _, ⟨hf, hr, ht', rfl⟩, ⟨rfl, rfl⟩, rfl⟩, rfl⟩
      rw [List.append_nil]
      exact @Outcome.unsubscribe h _ _ ⟨packetId, topics⟩ ht (not_not.1 hflags) hf hr ht'
    · intro ho
      cases ho with
      | badFlags _ hflags' => exact absurd hflags' hflags
      | @unsubscribe unsub _ _ hf hr ht' =>
        exact ⟨unsub.packetId, _, _, rfl, ⟨unsub.topics, _, [], ⟨hf, hr, ht', rfl⟩, ⟨rfl, rfl⟩,
          rfl⟩, by simp [Wire.unsubscribeBody]⟩
      | connect ht' | badName ht' | publish ht' | subscribe ht' => rw [ht] at ht'; cases ht'
      | ack ht' => rw [ht] at ht'; simp [IsAck] at ht'

theorem Outcome.pktLen_eq {pktLen : ℕ} {pkt : Packet} {l : Bytes}
    (ho : Outcome h pktLen len (mqttOk, pkt) l) : pkt.pktLen = pktLen := by
  generalize hx : (mqttOk, pkt) = x at ho
  cases ho with
  | badName | badFlags => simp [mqttOk, mqttErr] at hx
  | _ => cases hx; rfl

end Outcomes

/-! ### `unpack` -/

section Unpack

variable {n : ℕ} {mem : Mem}

theorem unpackU8_zero : core.unpackU8 mem 0 = .ok (mem 0, 1) := by
  rw [core.unpackU8_eq, u8_apply, if_pos (by decide)]

theorem unpack_handler {handler : Header → Packet → ℕ → Decoder (ℤ × Packet)}
    (hh : (unpackHandlers core)[(Header.unpack (mem 0)).type.code]? = some (some handler)) :
    unpack core n mem 0 =
      handler (Header.unpack (mem 0)) { header := Header.unpack (mem 0) } n mem 1 := by
  unfold unpack
  rw [bind_ok (unpackU8_zero core)]
  simp only [hh]

/-- The types without a handler inside the jump table are rejected. -/
theorem unpack_noHandler
    (hh : (unpackHandlers core)[(Header.unpack (mem 0)).type.code]? = some none) :
    unpack core n mem 0 = .ok ((-mqttErr, { header := Header.unpack (mem 0) }), 1) := by
  unfold unpack
  rw [bind_ok (unpackU8_zero core)]
  simp only [hh]
  rfl

/-- The types beyond the jump table read past its end. -/
theorem unpack_tableIndex (hh : (unpackHandlers core)[(Header.unpack (mem 0)).type.code]? = none) :
    unpack core n mem 0 = .error .tableIndex := by
  unfold unpack
  rw [bind_ok (unpackU8_zero core)]
  simp only [hh]
  rfl

/-- The opening shared by all unpackers. -/
theorem unpack_framed (ht : HasUnpacker (Header.unpack (mem 0)).type) :
    ∃ fields, unpack core n mem 0 =
      framed { header := Header.unpack (mem 0) } n fields mem 1 := by
  obtain ht | ht | (ht | ht | ht | ht) | ht | ht := ht <;>
    exact ⟨_, unpack_handler core (by rw [ht]; rfl)⟩

/-- **`unpack` on a complete frame.** -/
theorem unpack_complete {len k : ℕ} (hc : Complete mem n len k)
    (ht : HasUnpacker (Header.unpack (mem 0)).type) {x : ℤ × Packet} {q : ℕ} :
    unpack core n mem 0 = .ok (x, q) ↔
      ∃ l, Outcome (Header.unpack (mem 0)) (1 + k + len) len x l ∧ At mem (1 + k) l ∧
        q = 1 + k + l.length ∧ q ≤ addressSpace := by
  rcases ht with ht | ht | ht | ht | ht
  · rw [unpack_handler core (by rw [ht]; rfl)]
    exact unpackConnect_iff core hc ht
  · rw [unpack_handler core (by rw [ht]; rfl)]
    exact unpackPublish_iff core hc ht
  · rw [@unpack_handler core n mem (unpackAck core)
      (by obtain ht | ht | ht | ht := ht <;> rw [ht] <;> rfl)]
    exact unpackAck_iff core hc ht
  · rw [unpack_handler core (by rw [ht]; rfl)]
    exact unpackSubscribe_iff core hc ht
  · rw [unpack_handler core (by rw [ht]; rfl)]
    exact unpackUnsubscribe_iff core hc ht

/-- **`unpack` on an incomplete frame.** -/
theorem unpack_incomplete (hc : ∀ len k, ¬ Complete mem n len k)
    (ht : HasUnpacker (Header.unpack (mem 0)).type) :
    unpack core n mem 0 = (incompleteCursor mem n).map fun q =>
      ((mqttPartialPacket, { header := Header.unpack (mem 0) }), q) := by
  obtain ⟨fields, hf⟩ := unpack_framed core (n := n) ht
  rw [hf, framed_incomplete hc]

/-- The types by what the jump table holds for them. -/
theorem hasUnpacker_or (t : PacketType) :
    HasUnpacker t ∨ (unpackHandlers core)[t.code]? = some none ∨
      (unpackHandlers core)[t.code]? = none := by
  cases t <;> simp [HasUnpacker, IsAck, PacketType.code, unpackHandlers]

/-- A packet is only accepted from a complete frame. -/
theorem complete_of_unpack {pkt : Packet} {q : ℕ}
    (h : unpack core n mem 0 = .ok ((mqttOk, pkt), q)) :
    HasUnpacker (Header.unpack (mem 0)).type ∧ ∃ len k, Complete mem n len k := by
  rcases hasUnpacker_or core (Header.unpack (mem 0)).type with ht | ht | ht
  · refine ⟨ht, ?_⟩
    by_contra hc
    have hc' : ∀ len k, ¬ Complete mem n len k := fun len k h' => hc ⟨len, k, h'⟩
    rw [unpack_incomplete core hc' ht] at h
    cases hi : incompleteCursor mem n with
    | error e => rw [hi] at h; cases h
    | ok q' => rw [hi] at h; cases h
  · rw [unpack_noHandler core ht] at h
    cases h
  · rw [unpack_tableIndex core ht] at h
    cases h

variable {core}

/-- The run behind an accepted packet. -/
theorem exists_outcome {pkt : Packet} {q : ℕ} (hr : unpack core n mem 0 = .ok ((mqttOk, pkt), q)) :
    HasUnpacker (Header.unpack (mem 0)).type ∧ ∃ len k l, Complete mem n len k ∧
      Outcome (Header.unpack (mem 0)) (1 + k + len) len (mqttOk, pkt) l ∧ At mem (1 + k) l ∧
        q = 1 + k + l.length ∧ q ≤ addressSpace := by
  obtain ⟨ht, len, k, hc⟩ := complete_of_unpack core hr
  obtain ⟨l, ho, hl, hq, hA⟩ := (unpack_complete core hc ht).1 hr
  exact ⟨ht, len, k, l, hc, ho, hl, hq, hA⟩

/-- An accepted packet has a length. -/
theorem pktLen_ne_zero {pkt : Packet} {q : ℕ} (hr : unpack core n mem 0 = .ok ((mqttOk, pkt), q)) :
    pkt.pktLen ≠ 0 := by
  obtain ⟨-, len, k, l, -, ho, -, -, -⟩ := exists_outcome hr
  rw [ho.pktLen_eq]
  omega

end Unpack

end Culex
