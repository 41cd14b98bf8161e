import Culex.Delivery
import Culex.Stream

/-!
# The encoders against the decoder

What the broker sends, read by its own decoder: the Remaining Length field, a PUBLISH and a SUBACK.
`encodeLength_eq` says that the encoder appends the digits of `Wire.remainingLength` and counts none
of them, and `decodeLengthLoop_digits` and `decodeLengthLoop_rejects` say what the decoder makes of
the digits, by induction on them.

* `not_lengthCodec`: no length is counted, and the lengths read back are the ones of at most three
  digits;
* `roundTrips_iff`: a PUBLISH comes back with its identifier if and only if it has none;
* `not_isSuback`: what is sent for a SUBACK is one but for its first byte.
-/

namespace Culex

open ByteReader

/-! ### Digits -/

theorem ofInt_natCast_byte {d : ℕ} (h : d < 128) : UInt8.ofInt (d : ℤ) = UInt8.ofNat d := by
  have hall : ∀ d < 128, UInt8.ofInt ((d : ℕ) : ℤ) = UInt8.ofNat d := by decide +kernel
  exact hall d h

theorem or_128 {d : ℕ} (h : d < 128) : UInt8.ofNat d ||| 128 = UInt8.ofNat (d + 128) := by
  have hall : ∀ d < 128, UInt8.ofNat d ||| 128 = UInt8.ofNat (d + 128) := by decide +kernel
  exact hall d h

/-- The loop of the encoder appends the digits, and leaves its counter alone. -/
theorem encodeLengthLoop_eq {encodedbyte : ℤ} (he : encodedbyte + 1 ≤ 4) (len : ℕ) (buff : Bytes) :
    encodeLengthLoop encodedbyte len buff = (encodedbyte, buff ++ Wire.remainingLength len) := by
  induction len using Wire.remainingLength.induct generalizing buff with
  | case1 len h =>
    have hdiv : (len : ℤ).tdiv 128 = 0 := by
      rw [Int.tdiv_eq_ediv_of_nonneg (by omega)]
      omega
    have hmod : (len : ℤ).tmod 128 = len := by
      rw [Int.tmod_eq_emod_of_nonneg (by omega)]
      omega
    rw [encodeLengthLoop, if_neg (by omega)]
    simp only [hdiv, hmod]
    rw [if_neg (by omega), ofInt_natCast_byte h, Wire.remainingLength_of_lt h]
  | case2 len h ih =>
    have hdiv : (len : ℤ).tdiv 128 = (len / 128 : ℕ) := by
      rw [Int.tdiv_eq_ediv_of_nonneg (by omega)]
      omega
    have hmod : (len : ℤ).tmod 128 = (len % 128 : ℕ) := by
      rw [Int.tmod_eq_emod_of_nonneg (by omega)]
      omega
    rw [encodeLengthLoop, if_neg (by omega)]
    simp only [hdiv, hmod]
    have hdigit : len % 128 < 128 := Nat.mod_lt _ (by norm_num)
    rw [if_pos (by omega), ih, ofInt_natCast_byte hdigit, or_128 hdigit,
      Wire.remainingLength_of_le (show 128 ≤ len by omega), List.append_assoc,
      List.singleton_append]

/-- **The encoder on every length**: the digits are appended, and the count returned is 0. -/
theorem encodeLength_eq (len : ℕ) (buff : Bytes) :
    encodeLength len buff = (0, buff ++ Wire.remainingLength len) :=
  encodeLengthLoop_eq (by norm_num) len buff

theorem length_remainingLength_pos (len : ℕ) : 0 < (Wire.remainingLength len).length := by
  rw [Wire.remainingLength]
  split_ifs <;> simp

/-- The number of digits, by the powers of 128. -/
theorem length_remainingLength_le_iff (k len : ℕ) :
    (Wire.remainingLength len).length ≤ k + 1 ↔ len < 128 ^ (k + 1) := by
  induction k generalizing len with
  | zero =>
    rcases lt_or_ge len 128 with h | h
    · simp [Wire.remainingLength_of_lt h, h]
    · have hpos := length_remainingLength_pos (len / 128)
      rw [Wire.remainingLength_of_le h, List.length_cons]
      omega
  | succ k ih =>
    rcases lt_or_ge len 128 with h | h
    · have hpow : 128 ^ 1 ≤ 128 ^ (k + 1 + 1) := Nat.pow_le_pow_right (by norm_num) (by omega)
      rw [Wire.remainingLength_of_lt h, List.length_singleton]
      omega
    · rw [Wire.remainingLength_of_le h, List.length_cons, Nat.add_le_add_iff_right, ih,
        Nat.div_lt_iff_lt_mul (by norm_num), ← pow_succ]

/-! ### Reading digits -/

/-- The loop of the decoder takes the digits of a field whose last one it can still weigh. -/
theorem decodeLengthLoop_digits {n rounds bytesRead acc multiplier len : ℕ} {mem : Mem} {pos : ℕ}
    (hl : At mem pos (Wire.remainingLength len))
    (hn : bytesRead + (Wire.remainingLength len).length ≤ n)
    (hr : (Wire.remainingLength len).length ≤ rounds)
    (hm : multiplier * 128 ^ (Wire.remainingLength len).length ≤ 128 ^ 3)
    (hp : pos + (Wire.remainingLength len).length ≤ addressSpace) :
    decodeLengthLoop n rounds bytesRead acc multiplier mem pos =
      .ok (UInt64.ofNat (acc + len * multiplier), pos + (Wire.remainingLength len).length) := by
  induction len using Wire.remainingLength.induct
    generalizing rounds bytesRead acc multiplier pos with
  | case1 len h =>
    rw [Wire.remainingLength_of_lt h] at hl hn hr hm hp ⊢
    rw [List.length_singleton] at hn hr hm hp ⊢
    obtain ⟨rounds, rfl⟩ : ∃ r, rounds = r + 1 := ⟨rounds - 1, by omega⟩
    have hb : (mem pos).toNat = len := by
      rw [hl.1, toNat_ofNat_of_lt (by omega)]
    rw [decodeLengthLoop_succ (by omega) (by omega) (by omega), hb, if_pos h,
      Nat.mod_eq_of_lt h]
  | case2 len h ih =>
    rw [Wire.remainingLength_of_le (by omega)] at hl hn hr hm hp ⊢
    rw [List.length_cons] at hn hr hm hp ⊢
    obtain ⟨rounds, rfl⟩ : ∃ r, rounds = r + 1 := ⟨rounds - 1, by omega⟩
    have hb : (mem pos).toNat = len % 128 + 128 := by
      rw [hl.1, toNat_ofNat_of_lt (by omega)]
    rw [pow_succ'] at hm
    have hone : 1 ≤ 128 ^ (Wire.remainingLength (len / 128)).length :=
      Nat.one_le_pow _ _ (by norm_num)
    have hm' : multiplier * 128 * 128 ^ (Wire.remainingLength (len / 128)).length ≤ 128 ^ 3 := by
      rw [Nat.mul_assoc]
      exact hm
    have hle : multiplier * 128 ≤ 128 ^ 3 := (Nat.le_mul_of_pos_right _ hone).trans hm'
    rw [decodeLengthLoop_succ (by omega) (by omega) (by omega), hb, if_neg (by omega),
      ih hl.2 (by omega) (by omega) hm' (by omega)]
    have hdigits : acc + (len % 128 + 128) % 128 * multiplier + len / 128 * (multiplier * 128)
        = acc + len * multiplier := by
      have hlen : len % 128 + 128 * (len / 128) = len := Nat.mod_add_div len 128
      calc acc + (len % 128 + 128) % 128 * multiplier + len / 128 * (multiplier * 128)
          = acc + (len % 128 + 128 * (len / 128)) * multiplier := by
            rw [Nat.add_mod_right, Nat.mod_mod]
            ring
        _ = acc + len * multiplier := by rw [hlen]
    rw [hdigits, Nat.add_assoc, Nat.add_comm 1]

/-- A round that can read and cannot weigh a digit more throws. -/
theorem decodeLengthLoop_heavy {n rounds bytesRead acc multiplier : ℕ} {mem : Mem} {pos : ℕ}
    (hn : bytesRead < n) (hm : 16384 < multiplier) (hp : pos < addressSpace) :
    decodeLengthLoop n rounds bytesRead acc multiplier mem pos =
      .error (.runtimeError "Malformed Remaining Length!!") := by
  cases rounds with
  | zero => rfl
  | succ rounds =>
    have hpeek : peek Fault.wildPointer mem pos = .ok (mem pos, pos) := by
      rw [peek_apply, if_pos hp]
    rw [decodeLengthLoop, if_neg (by omega), bind_ok hpeek, if_pos (by omega)]
    rfl

/-- The loop throws on a field with a digit that it cannot weigh. -/
theorem decodeLengthLoop_rejects {n rounds bytesRead acc multiplier len : ℕ} {mem : Mem} {pos : ℕ}
    (hl : At mem pos (Wire.remainingLength len))
    (hn : bytesRead + (Wire.remainingLength len).length ≤ n)
    (hm : 128 ^ 3 < multiplier * 128 ^ (Wire.remainingLength len).length)
    (hp : pos + (Wire.remainingLength len).length ≤ addressSpace) :
    decodeLengthLoop n rounds bytesRead acc multiplier mem pos =
      .error (.runtimeError "Malformed Remaining Length!!") := by
  have hpos := length_remainingLength_pos len
  rcases lt_or_ge 16384 multiplier with hheavy | hlight
  · exact decodeLengthLoop_heavy (by omega) hheavy (by omega)
  induction len using Wire.remainingLength.induct
    generalizing rounds bytesRead acc multiplier pos with
  | case1 len h =>
    rw [Wire.remainingLength_of_lt h, List.length_singleton] at hm
    omega
  | case2 len h ih =>
    rw [Wire.remainingLength_of_le (by omega)] at hl hn hm hp
    rw [List.length_cons] at hn hm hp
    cases rounds with
    | zero => rfl
    | succ rounds =>
      have hb : (mem pos).toNat = len % 128 + 128 := by
        rw [hl.1, toNat_ofNat_of_lt (by omega)]
      have hm' : 128 ^ 3 < multiplier * 128 * 128 ^ (Wire.remainingLength (len / 128)).length := by
        rwa [Nat.mul_assoc, ← pow_succ']
      have hpos' := length_remainingLength_pos (len / 128)
      rw [decodeLengthLoop_succ (by omega) hlight (by omega), hb, if_neg (by omega)]
      -- the next digit is too heavy already, or one of the digits behind it is
      rcases lt_or_ge 16384 (multiplier * 128) with hheavy | hlight'
      · exact decodeLengthLoop_heavy (by omega) hheavy (by omega)
      · exact ih hl.2 (by omega) hm' (by omega) hpos' hlight'

/-! ### The Remaining Length field -/

/-- `decodeLength` finds a length in a field, wherever it is stored and whatever follows it, and
takes just the bytes of the field. -/
def ReadsBack (len : ℕ) (field : Bytes) : Prop :=
  ∀ (mem : Mem) (pos n : ℕ), At mem pos field → field.length ≤ n →
    pos + field.length ≤ addressSpace →
      decodeLength n mem pos = .ok (UInt64.ofNat len, pos + field.length)

/-- The codec on one length: the encoder appends up to four bytes and returns their number, and the
decoder reads them back. -/
def LengthCodec (len : ℕ) (buff : Bytes) : Prop :=
  ∃ field, encodeLength len buff = ((field.length : ℤ), buff ++ field) ∧ 1 ≤ field.length ∧
    field.length ≤ 4 ∧ ReadsBack len field

theorem readsBack_of_le {len : ℕ} (h : len ≤ 2097151) :
    ReadsBack len (Wire.remainingLength len) := by
  intro mem pos n hl hn hp
  have h3 : (Wire.remainingLength len).length ≤ 2 + 1 :=
    (length_remainingLength_le_iff 2 len).2 (by omega)
  have hm : 1 * 128 ^ (Wire.remainingLength len).length ≤ 128 ^ 3 := by
    rw [Nat.one_mul]
    exact Nat.pow_le_pow_right (by norm_num) h3
  rw [decodeLength, decodeLengthLoop_digits hl (by omega) (by omega) hm hp, Nat.zero_add,
    Nat.mul_one]

/-- A field of more than three bytes is not read back. -/
theorem not_readsBack_of_gt {len : ℕ} (h : 2097151 < len) (hmax : len ≤ 268435455) :
    ¬ ReadsBack len (Wire.remainingLength len) := by
  intro hback
  have h3 : ¬ (Wire.remainingLength len).length ≤ 2 + 1 := by
    rw [length_remainingLength_le_iff]
    omega
  have h4 : (Wire.remainingLength len).length ≤ 3 + 1 :=
    (length_remainingLength_le_iff 3 len).2 (by omega)
  have hA : addressSpace = 2 ^ 64 := rfl
  have hm : 128 ^ 3 < 1 * 128 ^ (Wire.remainingLength len).length := by
    rw [Nat.one_mul]
    exact Nat.pow_lt_pow_right (by norm_num) (by omega)
  have hl := at_holding (Wire.remainingLength len) fun _ => 0
  have hd := hback _ 0 4 hl h4 (by omega)
  rw [decodeLength, decodeLengthLoop_rejects hl (by omega) hm (by omega)] at hd
  cases hd

/-- **The Remaining Length codec.**  The encoder counts no byte, so that the codec fails on every
length; what it appends is right, and is read back as long as it has at most three bytes. -/
theorem not_lengthCodec {len : ℕ} (hmax : len ≤ 268435455) (buff : Bytes) :
    ¬ LengthCodec len buff ∧ ∃ field, encodeLength len buff = (0, buff ++ field) ∧
      1 ≤ field.length ∧ field.length ≤ 4 ∧ (ReadsBack len field ↔ len ≤ 2097151) := by
  have hpos := length_remainingLength_pos len
  have h4 : (Wire.remainingLength len).length ≤ 3 + 1 :=
    (length_remainingLength_le_iff 3 len).2 (by omega)
  refine ⟨?_, Wire.remainingLength len, encodeLength_eq len buff, hpos, h4, ?_, readsBack_of_le⟩
  · rintro ⟨field, hfield, h1, -⟩
    rw [encodeLength_eq, Prod.mk.injEq] at hfield
    omega
  · intro hback
    by_contra hgt
    exact not_readsBack_of_gt (by omega) hmax hback

theorem not_lengthCodec_four : ¬ LengthCodec 2097152 [] ∧ ∃ field,
    encodeLength (2097152 : ℕ) [] = (0, [] ++ field) ∧ 1 ≤ field.length ∧ field.length ≤ 4 ∧
      (ReadsBack 2097152 field ↔ 2097152 ≤ 2097151) :=
  not_lengthCodec (by norm_num) []

/-- An empty packet: the field is one byte, and the count is 0. -/
theorem not_forall_lengthCodec : ¬ ∀ len ≤ 268435455, ∀ buff, LengthCodec len buff := by
  intro h
  obtain ⟨field, hfield, h1, -⟩ := h 0 (by norm_num) []
  rw [encodeLength_eq, Prod.mk.injEq] at hfield
  omega

/-! ### PUBLISH -/

section Publish

variable (core : Core) {packet : Packet} {pub : Publish} {packetId : UInt16}

/-- A PUBLISH that a frame with a Remaining Length of at most three bytes can carry. -/
structure Publishable (packet : Packet) (pub : Publish) : Prop extends IsPublish packet pub where
  qos_le : packet.header.qos ≤ 2
  topic_le : pub.topic.length ≤ 65535
  remaining_le : (Wire.publishBody packet.header.qos pub).length ≤ 2097151

/-- A PUBLISH comes back from the bytes that are built of it with an identifier, whatever follows
them. -/
def RoundTrips (packet : Packet) (pub : Publish) (packetId : UInt16) : Prop :=
  ∃ bytes, buildPublish core packet packetId [] = .ok bytes ∧
    ∀ (trailing : Bytes) (beyond : Mem), ∃ back cursor pub',
      unpack core (bytes ++ trailing).length (holding (bytes ++ trailing) beyond) 0
        = .ok ((mqttOk, back), cursor) ∧
      back.header = packet.header ∧ back.pktLen = bytes.length ∧ back.pkt = .publish pub' ∧
      pub'.topic = pub.topic ∧ pub'.payload = pub.payload ∧
      (0 < packet.header.qos → pub'.packetId = packetId)

/-- The packet that is on the wire: its identifier is 0. -/
def onWire (packet : Packet) (pub : Publish) : Packet where
  header := packet.header
  pktLen := (publishBytes packet.header pub).length
  pkt := .publish { pub with packetId := 0 }

theorem length_publishBody (qos : UInt8) (pub : Publish) :
    (Wire.publishBody qos pub).length =
      2 + pub.topic.length + (if 0 < qos then 2 else 0) + pub.payload.length := by
  unfold Wire.publishBody
  split_ifs <;> simp only [List.length_append, length_str16, length_be16, List.length_nil] <;> omega

theorem body_onWire (packet : Packet) (pub : Publish) :
    Wire.body (onWire packet pub) =
      Wire.publishBody packet.header.qos { pub with packetId := 0 } := rfl

/-- The announced length of a PUBLISH is the one of its body. -/
theorem announced_eq (h : Publishable packet pub) :
    (if 0 < packet.header.qos then toInt (2 + pub.topic.length + pub.payload.length) + 2
      else toInt (2 + pub.topic.length + pub.payload.length)) =
        ((Wire.body (onWire packet pub)).length : ℤ) := by
  have hlen := h.remaining_le
  rw [length_publishBody] at hlen
  rw [toInt_of_range (by omega) (by omega), body_onWire, length_publishBody]
  split_ifs <;> push_cast <;> ring

theorem publishBytes_eq (h : Publishable packet pub) :
    publishBytes packet.header pub = Wire.frame (onWire packet pub) := by
  unfold publishBytes Wire.frame
  simp only
  rw [announced_eq h, encodeLength_eq, body_onWire]
  simp only [Wire.publishBody, str16, onWire, List.nil_append, List.cons_append,
    List.append_assoc]

theorem wellFormed_onWire (h : Publishable packet pub) : Wire.WellFormed (onWire packet pub) where
  variant := by
    have ht := h.topic_le
    refine ⟨h.type, UInt8.lt_of_le_of_lt h.qos_le (by decide), ?_, fun _ => rfl⟩
    show pub.topic.length < 65536
    omega
  length_le := by
    have hlen := h.remaining_le
    rw [length_publishBody] at hlen
    rwa [body_onWire, length_publishBody]
  pktLen := congrArg List.length (publishBytes_eq h)

/-- What is built is decoded, as the packet with the identifier 0. -/
theorem unpack_publishBytes (h : Publishable packet pub) (trailing : Bytes) (beyond : Mem) :
    ∃ cursor, unpack core (publishBytes packet.header pub ++ trailing).length
      (holding (publishBytes packet.header pub ++ trailing) beyond) 0
        = .ok ((mqttOk, onWire packet pub), cursor) := by
  have hl := at_holding (publishBytes packet.header pub ++ trailing) beyond
  rw [at_append, publishBytes_eq h] at hl
  rw [publishBytes_eq h]
  exact unpack_frame core (wellFormed_onWire h) hl.1 (by rw [List.length_append]; omega)

/-- **The round trip of a PUBLISH** holds exactly without an identifier: the encoder packs 0 in
place of the one it is given. -/
theorem roundTrips_iff (h : Publishable packet pub) (hp : packetId ≠ 0) :
    RoundTrips core packet pub packetId ↔ packet.header.qos = 0 := by
  have hbuild := buildPublish_eq core h.pkt packetId
  constructor
  · rintro ⟨bytes, hbytes, hback⟩
    obtain ⟨back, cursor, pub', hun, -, -, hpub, -, -, hid⟩ := hback [] fun _ => 0
    rw [hbuild] at hbytes
    cases hbytes
    obtain ⟨cursor', hun'⟩ := unpack_publishBytes core h [] fun _ => 0
    rw [hun'] at hun
    cases hun
    cases hpub
    by_contra hq
    exact hp (hid (UInt8.pos_iff_ne_zero.2 hq)).symm
  · intro hq
    refine ⟨_, hbuild, fun trailing beyond => ?_⟩
    obtain ⟨cursor, hun⟩ := unpack_publishBytes core h trailing beyond
    refine ⟨_, cursor, _, hun, rfl, rfl, rfl, rfl, rfl, fun hpos => ?_⟩
    rw [hq] at hpos
    exact absurd hpos (by decide)

/-- `"/a"` with one byte of payload. -/
def smallPublish (qos : UInt8) : Packet where
  header := { type := .publish, qos }
  pkt := .publish { topic := [47, 97], payload := [1] }

theorem publishable_small {qos : UInt8} (hq : qos ≤ 2) :
    Publishable (smallPublish qos) { topic := [47, 97], payload := [1] } where
  type := rfl
  pkt := rfl
  qos_le := hq
  topic_le := by decide
  remaining_le := by
    rw [length_publishBody]
    split_ifs <;> simp

theorem roundTrips_iff_plain :
    RoundTrips Core.bigEndian (smallPublish 0) { topic := [47, 97], payload := [1] } 7 :=
  (roundTrips_iff Core.bigEndian (publishable_small (by decide)) (by decide)).2 rfl

/-- With QoS 1 the identifier 7 comes back as 0. -/
theorem not_roundTrips_seven : ¬ ∀ (core : Core) (packet : Packet) (pub : Publish)
    (packetId : UInt16), Publishable packet pub → packetId ≠ 0 →
      RoundTrips core packet pub packetId := by
  intro hall
  have h := @publishable_small 1 (by decide)
  obtain ⟨bytes, hbytes, hback⟩ := hall Core.bigEndian _ _ 7 h (by decide)
  obtain ⟨back, cursor, pub', hun, -, -, hpub, -, -, hid⟩ := hback [] fun _ => 0
  rw [buildPublish_eq Core.bigEndian h.pkt] at hbytes
  cases hbytes
  obtain ⟨cursor', hun'⟩ := unpack_publishBytes Core.bigEndian h [] fun _ => 0
  rw [hun'] at hun
  cases hun
  cases hpub
  exact absurd (hid (by decide)) (by decide)

end Publish

/-! ### SUBACK -/

section Suback

variable (core : Core) {packetId : UInt16} {codes frame : Bytes}

/-- `frame` is the SUBACK of MQTT 3.1.1 for an identifier and a list of return codes. -/
def IsSuback (packetId : UInt16) (codes frame : Bytes) : Prop :=
  ∃ header field, frame = header :: (field ++ (be16 packetId ++ codes)) ∧ header >>> 4 = 9 ∧
    header &&& 0x0F = 0 ∧ field.length ≤ 4 ∧ ReadsBack (codes.length + 2) field

/-- A decoder of that grammar. -/
def readSuback (availableBytes : ℕ) : Decoder (Option (UInt16 × Bytes)) := do
  let byte ← core.unpackU8
  if byte >>> 4 ≠ 9 ∨ byte &&& 0x0F ≠ 0 then
    return none
  else
    let len ← decodeLength availableBytes
    let packetId ← core.unpackU16
    let codes ← bytes .wildPointer (len.toNat - 2)
    return some (packetId, codes)

/-- What the decoder makes of `frame`, whatever follows it. -/
def ReadsSuback (frame : Bytes) (result : Option (UInt16 × Bytes)) : Prop :=
  ∀ (trailing : Bytes) (beyond : Mem), ∃ cursor,
    readSuback core (frame ++ trailing).length (holding (frame ++ trailing) beyond) 0
      = .ok (result, cursor)

/-- The decoder recovers the identifier and the codes from a SUBACK. -/
theorem readsSuback_of_isSuback (h : IsSuback packetId codes frame)
    (hlen : codes.length + 2 ≤ 2097151) : ReadsSuback core frame (some (packetId, codes)) := by
  obtain ⟨header, field, rfl, htype, hflags, hfield, hback⟩ := h
  intro trailing beyond
  have hA : addressSpace = 2 ^ 64 := rfl
  have hl := at_holding (header :: (field ++ (be16 packetId ++ codes)) ++ trailing) beyond
  generalize
    holding (header :: (field ++ (be16 packetId ++ codes)) ++ trailing) beyond = mem at hl ⊢
  obtain ⟨h₀, hrest⟩ := (at_append _ _ _ _).1 hl |>.1
  obtain ⟨h₁, h₂, h₃⟩ : At mem 1 field ∧ At mem (1 + field.length) (be16 packetId) ∧
      At mem (1 + field.length + 2) codes := by
    simpa only [at_append, length_be16, Nat.zero_add] using hrest
  have hbyte : core.unpackU8 mem 0 = .ok (header, 1) := by
    rw [unpackU8_zero, h₀]
  have hdec := hback mem 1 _ h₁ (show field.length ≤
    (header :: (field ++ (be16 packetId ++ codes)) ++ trailing).length by simp; omega) (by omega)
  have hid : core.unpackU16 mem (1 + field.length) = .ok (packetId, 1 + field.length + 2) :=
    (core.spells_u16 mem _ (by omega) packetId _).2 ⟨_, rfl, h₂, rfl, by omega⟩
  have hcodes : bytes Fault.wildPointer codes.length mem (1 + field.length + 2)
      = .ok (codes, 1 + field.length + 2 + codes.length) :=
    (spells_bytes _ _ mem _ (by omega) codes _).2 ⟨_, ⟨rfl, rfl⟩, h₃, rfl, by omega⟩
  have hcount : (UInt64.ofNat (codes.length + 2)).toNat - 2 = codes.length := by
    rw [UInt64.toNat_ofNat', Nat.mod_eq_of_lt (by omega)]
    omega
  refine ⟨1 + field.length + 2 + codes.length, ?_⟩
  unfold readSuback
  rw [bind_ok hbyte, if_neg (by simp [htype, hflags]), bind_ok hdec, bind_ok hid, hcount,
    bind_ok hcodes]
  rfl

/-- A first byte with another type is turned down. -/
theorem readsSuback_none {header : UInt8} {rest : Bytes} (h : header >>> 4 ≠ 9) :
    ReadsSuback core (header :: rest) none := by
  intro trailing beyond
  have h₀ := (at_holding (header :: rest ++ trailing) beyond).1
  have hbyte : core.unpackU8 (holding (header :: rest ++ trailing) beyond) 0 = .ok (header, 1) := by
    rw [unpackU8_zero, h₀]
  refine ⟨1, ?_⟩
  unfold readSuback
  rw [bind_ok hbyte, if_pos (.inl h)]
  rfl

/-- The bytes of `packSuback`, for any announced length. -/
theorem suback_bytes (suback : Suback) (len : ℤ) (buff : Bytes) :
    (have header : Header := { type := .suback }
     have buff := buff ++ [UInt8.ofNat header.type.code]
     have remainingLen := len
     match encodeLength remainingLen [] with
     | (_, b) =>
       have buff := buff ++ b
       have buff := core.packU16 buff suback.packetId
       buff ++ suback.returnCodes) =
      buff ++ 9 :: ((encodeLength len []).2 ++ (be16 suback.packetId ++ suback.returnCodes)) := by
  have hcode : UInt8.ofNat PacketType.suback.code = 9 := rfl
  simp only [hcode, core.packU16_eq, List.append_assoc, List.cons_append, List.nil_append]

-- Between functions, since the kernel computes the announced length on applied ones.
theorem packSuback_def : packSuback = fun core suback buff =>
    let header : Header := { type := .suback }
    let buff := buff ++ [UInt8.ofNat header.type.code]
    let remainingLen := toInt (2 + suback.returnCodes.length)
    let (_, b) := encodeLength remainingLen []
    let buff := buff ++ b
    let buff := core.packU16 buff suback.packetId
    buff ++ suback.returnCodes := rfl

theorem packSuback_eq (suback : Suback) (buff : Bytes) :
    packSuback core suback buff =
      buff ++ 9 :: ((encodeLength (toInt (2 + suback.returnCodes.length)) []).2
        ++ (be16 suback.packetId ++ suback.returnCodes)) := by
  rw [packSuback_def]
  beta_reduce
  generalize toInt (2 + suback.returnCodes.length) = len
  exact suback_bytes core suback len buff

/-- What `buildSuback` appends. -/
theorem buildSuback_eq (hlen : codes.length + 2 ≤ 2097151) (buff : Bytes) :
    buildSuback core packetId codes buff =
      buff ++ 9 :: (Wire.remainingLength (codes.length + 2) ++ (be16 packetId ++ codes)) := by
  have hcast : toInt (2 + codes.length) = ((codes.length + 2 : ℕ) : ℤ) := by
    rw [toInt_of_range (by omega) (by omega)]
    push_cast
    ring
  rw [buildSuback, packSuback_eq, hcast, encodeLength_eq, List.nil_append]

/-- `buildSuback` appends one SUBACK frame, of which the decoder recovers what went in. -/
def SubackBuilt (packetId : UInt16) (codes buff : Bytes) : Prop :=
  ∃ frame, buildSuback core packetId codes buff = buff ++ frame ∧ IsSuback packetId codes frame ∧
    ReadsSuback core frame (some (packetId, codes))

theorem not_isSuback_nine (rest : Bytes) : ¬ IsSuback packetId codes (9 :: rest) := by
  rintro ⟨header, field, he, htype, -⟩
  rw [List.cons.injEq] at he
  rw [← he.1] at htype
  exact absurd htype (by decide)

/-- **The encoding of a SUBACK.**  Its first byte is the type itself, where the type nibble is 0, so
that no SUBACK is built and the decoder finds none; with `0x90` in its place the frame is right. -/
theorem not_subackBuilt (packetId : UInt16) (hlen : codes.length + 2 ≤ 2097151) (buff : Bytes) :
    ¬ SubackBuilt core packetId codes buff ∧
      ∃ rest, buildSuback core packetId codes buff = buff ++ 9 :: rest ∧
        ReadsSuback core (9 :: rest) none ∧ IsSuback packetId codes (0x90 :: rest) ∧
        ReadsSuback core (0x90 :: rest) (some (packetId, codes)) := by
  have hbuild : buildSuback core packetId codes buff = _ := buildSuback_eq core hlen buff
  have hright : IsSuback packetId codes
      (0x90 :: (Wire.remainingLength (codes.length + 2) ++ (be16 packetId ++ codes))) := by
    refine ⟨_, _, rfl, by decide, by decide, ?_, readsBack_of_le hlen⟩
    exact (length_remainingLength_le_iff 3 _).2 (by omega)
  refine ⟨?_, _, hbuild, readsSuback_none core (by decide), hright,
    readsSuback_of_isSuback core hright hlen⟩
  rintro ⟨frame, hframe, hsub, -⟩
  rw [hbuild, List.append_cancel_left_eq] at hframe
  exact not_isSuback_nine _ (hframe ▸ hsub)

theorem not_subackBuilt_granted : ¬ SubackBuilt Core.bigEndian 7 [1, 0x80] [] ∧
    ∃ rest, buildSuback Core.bigEndian 7 [1, 0x80] [] = [] ++ 9 :: rest ∧
      ReadsSuback Core.bigEndian (9 :: rest) none ∧ IsSuback 7 [1, 0x80] (0x90 :: rest) ∧
      ReadsSuback Core.bigEndian (0x90 :: rest) (some (7, [1, 0x80])) :=
  not_subackBuilt Core.bigEndian 7 (by decide) []

/-- The answer to a SUBSCRIBE with one topic: `[9, 3, 0, 7, 1]`. -/
theorem not_forall_subackBuilt : ¬ ∀ (core : Core) (packetId : UInt16) (codes buff : Bytes),
    codes.length + 2 ≤ 2097151 → SubackBuilt core packetId codes buff := by
  intro hall
  obtain ⟨frame, hframe, hsub, -⟩ := hall Core.bigEndian 7 [1] [] (by decide)
  rw [buildSuback_eq _ (by decide), List.append_cancel_left_eq] at hframe
  exact not_isSuback_nine _ (hframe ▸ hsub)

end Suback

end Culex
