import Culex.Decode
import Culex.Lib.Reassembly

/-!
# Stream reassembly

The receive side of a connection over a TCP stream.  `Wire.frame` lays a packet out as bytes;
`unpack_frame` says that a frame is decoded whatever follows it, `unpack_cut` that every cut of one
is partial whatever lies behind the available bytes.  With these two the receiver of
`Reassembly.run` emits the packets of a stream exactly, under every segmentation.
-/

namespace Culex

open ByteReader

/-! ### The Remaining Length field -/

/-- The three forms of a Remaining Length field of at most three bytes. -/
theorem remainingLength_cases {len : ℕ} (h : len ≤ 2097151) :
    (len < 128 ∧ Wire.remainingLength len = [UInt8.ofNat len]) ∨
    (128 ≤ len ∧ len < 16384 ∧ Wire.remainingLength len =
      [UInt8.ofNat (len % 128 + 128), UInt8.ofNat (len / 128)]) ∨
    (16384 ≤ len ∧ Wire.remainingLength len =
      [UInt8.ofNat (len % 128 + 128), UInt8.ofNat (len / 128 % 128 + 128),
        UInt8.ofNat (len / 16384)]) := by
  rcases lt_or_ge len 128 with h₁ | h₁
  · exact .inl ⟨h₁, Wire.remainingLength_of_lt h₁⟩
  rcases lt_or_ge len 16384 with h₂ | h₂
  · refine .inr (.inl ⟨h₁, h₂, ?_⟩)
    rw [Wire.remainingLength_of_le h₁, Wire.remainingLength_of_lt (by omega)]
  · refine .inr (.inr ⟨h₂, ?_⟩)
    rw [Wire.remainingLength_of_le h₁, Wire.remainingLength_of_le (by omega),
      Wire.remainingLength_of_lt (by omega), Nat.div_div_eq_div_mul]

theorem toNat_ofNat_of_lt {n : ℕ} (h : n < 256) : (UInt8.ofNat n).toNat = n := by
  rw [UInt8.toNat_ofNat']
  omega

theorem length_remainingLength {len : ℕ} (h : len ≤ 2097151) :
    1 ≤ (Wire.remainingLength len).length ∧ (Wire.remainingLength len).length ≤ 3 := by
  rcases remainingLength_cases h with ⟨-, he⟩ | ⟨-, -, he⟩ | ⟨-, he⟩ <;> rw [he] <;> simp

/-- A stored Remaining Length field is read back. -/
theorem lengthField_of_at {mem : Mem} {pos len : ℕ} (h : len ≤ 2097151)
    (hl : At mem pos (Wire.remainingLength len)) :
    lengthField mem pos = some (len, (Wire.remainingLength len).length) := by
  unfold lengthField
  rcases remainingLength_cases h with ⟨h₁, he⟩ | ⟨h₁, h₂, he⟩ | ⟨h₁, he⟩
  · rw [he] at hl ⊢
    simp only [hl.1, toNat_ofNat_of_lt (show len < 256 by omega), if_pos h₁]
    rfl
  · rw [he] at hl ⊢
    obtain ⟨hb₁, hb₂, -⟩ := hl
    have e₁ : (mem pos).toNat = len % 128 + 128 := hb₁ ▸ toNat_ofNat_of_lt (by omega)
    have e₂ : (mem (pos + 1)).toNat = len / 128 := hb₂ ▸ toNat_ofNat_of_lt (by omega)
    simp only [e₁, e₂]
    rw [if_neg (by omega), if_pos (by omega)]
    simp only [List.length_cons, List.length_nil, Option.some.injEq, Prod.mk.injEq,
      and_true]
    omega
  · rw [he] at hl ⊢
    obtain ⟨hb₁, hb₂, hb₃, -⟩ := hl
    have e₁ : (mem pos).toNat = len % 128 + 128 := hb₁ ▸ toNat_ofNat_of_lt (by omega)
    have e₂ : (mem (pos + 1)).toNat = len / 128 % 128 + 128 := hb₂ ▸ toNat_ofNat_of_lt (by omega)
    have e₃ : (mem (pos + 2)).toNat = len / 16384 := hb₃ ▸ toNat_ofNat_of_lt (by omega)
    simp only [e₁, e₂, e₃]
    rw [if_neg (by omega), if_neg (by omega), if_pos (by omega)]
    simp only [List.length_cons, List.length_nil, Option.some.injEq, Prod.mk.injEq,
      and_true]
    omega

/-- A cut Remaining Length field is not closed before its cut, whatever follows. -/
theorem lt_of_lengthField_of_cut {mem : Mem} {pos len m len' k : ℕ} (h : len ≤ 2097151)
    (hm : m < (Wire.remainingLength len).length)
    (hl : At mem pos ((Wire.remainingLength len).take m))
    (hf : lengthField mem pos = some (len', k)) : m < k := by
  obtain ⟨hk, -, -⟩ := lengthField_bounds hf
  unfold lengthField at hf
  rcases remainingLength_cases h with ⟨h₁, he⟩ | ⟨h₁, h₂, he⟩ | ⟨h₁, he⟩
  · rw [he, List.length_singleton] at hm
    omega
  · rw [he] at hl hm
    simp only [List.length_cons, List.length_nil] at hm
    obtain rfl | rfl : m = 0 ∨ m = 1 := by omega
    · omega
    · have e₁ : (mem pos).toNat = len % 128 + 128 := hl.1 ▸ toNat_ofNat_of_lt (by omega)
      simp only [e₁] at hf
      rw [if_neg (by omega)] at hf
      split_ifs at hf <;> cases hf <;> omega
  · rw [he] at hl hm
    simp only [List.length_cons, List.length_nil] at hm
    obtain rfl | rfl | rfl : m = 0 ∨ m = 1 ∨ m = 2 := by omega
    · omega
    · have e₁ : (mem pos).toNat = len % 128 + 128 := hl.1 ▸ toNat_ofNat_of_lt (by omega)
      simp only [e₁] at hf
      rw [if_neg (by omega)] at hf
      split_ifs at hf <;> cases hf <;> omega
    · have e₁ : (mem pos).toNat = len % 128 + 128 := hl.1 ▸ toNat_ofNat_of_lt (by omega)
      have e₂ : (mem (pos + 1)).toNat = len / 128 % 128 + 128 :=
        hl.2.1 ▸ toNat_ofNat_of_lt (by omega)
      simp only [e₁, e₂] at hf
      rw [if_neg (by omega), if_neg (by omega)] at hf
      split_ifs at hf
      cases hf
      omega

/-! ### Frames -/

section Frames

variable {p : Packet}

theorem length_frame (p : Packet) :
    (Wire.frame p).length =
      1 + (Wire.remainingLength (Wire.body p).length).length + (Wire.body p).length := by
  simp only [Wire.frame, List.length_cons, List.length_append]
  omega

/-- The types a well-formed packet can have are the ones with an unpacker. -/
theorem hasUnpacker_of_variantOk {h : Header} {v : Packet.Variant} (hv : Wire.VariantOk h v) :
    HasUnpacker h.type := by
  cases v with
  | connect cn => exact .inl (hv.1 ▸ rfl)
  | publish pub => exact .inr (.inl hv.1)
  | ack a =>
    refine .inr (.inr (.inl ?_))
    rcases hv with rfl | rfl | rfl | rfl <;> simp [IsAck]
  | subscribe sub => exact .inr (.inr (.inr (.inl (hv.1 ▸ rfl))))
  | unsubscribe unsub => exact .inr (.inr (.inr (.inr (hv.1 ▸ rfl))))
  | connack c => exact hv.elim

theorem qos_lt_of_variantOk {h : Header} {v : Packet.Variant} (hv : Wire.VariantOk h v) :
    h.qos < 4 := by
  cases v with
  | connect cn => exact hv.1 ▸ by decide
  | publish pub => exact UInt8.lt_trans hv.2.1 (by decide)
  | ack a => rcases hv with rfl | rfl | rfl | rfl <;> decide
  | subscribe sub => exact hv.1 ▸ by decide
  | unsubscribe unsub => exact hv.1 ▸ by decide
  | connack c => exact hv.elim

/-- The body of a well-formed packet is read back as the packet. -/
theorem outcome_body (hp : Wire.WellFormed p) :
    Outcome p.header p.pktLen (Wire.body p).length (mqttOk, p) (Wire.body p) := by
  obtain ⟨hv, hlen, hpkt⟩ := hp
  obtain ⟨h, pktLen, v⟩ := p
  simp only [Wire.body] at hv hlen ⊢
  cases v with
  | connect cn =>
    obtain ⟨rfl, hq, hs⟩ := hv
    exact .connect rfl ⟨hs, cn.cf.pack, ConnectFlags.unpack_pack hq, rfl⟩
  | publish pub =>
    obtain ⟨ht, -, htopic, hid⟩ := hv
    exact .publish ht htopic hid rfl
  | ack a =>
    refine .ack ?_
    rcases hv with rfl | rfl | rfl | rfl <;> simp [IsAck]
  | subscribe sub =>
    obtain ⟨rfl, htopic⟩ := hv
    refine .subscribe rfl ?_ htopic
    have hfill := tuplesFill_length sub.payload
    simp only [Wire.subscribeBody, List.length_append, length_be16]
    rwa [show (((2 + (sub.payload.flatMap Wire.tuple).length : ℕ) : ℤ) - 2) =
      (sub.payload.flatMap Wire.tuple).length by omega]
  | unsubscribe unsub =>
    obtain ⟨rfl, htopic⟩ := hv
    simp only [Wire.unsubscribeBody, List.length_append, length_be16] at hlen ⊢
    have hrounds := length_le_flatMap_str16 unsub.topics
    have hA : addressSpace = 2 ^ 64 := rfl
    exact .unsubscribe rfl (by decide) (topicsFill_of_length hlen rfl) (by omega) htopic
  | connack c => exact hv.elim

theorem at_frame {mem : Mem} (hl : At mem 0 (Wire.frame p)) :
    mem 0 = p.header.pack ∧ At mem 1 (Wire.remainingLength (Wire.body p).length) ∧
      At mem (1 + (Wire.remainingLength (Wire.body p).length).length) (Wire.body p) := by
  obtain ⟨h₀, hrest⟩ := hl
  exact ⟨h₀, (at_append _ _ _ _).1 hrest⟩

variable (core : Core) {mem : Mem} {n : ℕ}

/-- **A frame is decoded**, whatever follows it. -/
theorem unpack_frame (hp : Wire.WellFormed p) (hl : At mem 0 (Wire.frame p))
    (hn : (Wire.frame p).length ≤ n) : ∃ q, unpack core n mem 0 = .ok ((mqttOk, p), q) := by
  obtain ⟨h₀, hlen, hbody⟩ := at_frame hl
  have hheader : Header.unpack (mem 0) = p.header := by
    rw [h₀, Header.unpack_pack (qos_lt_of_variantOk hp.variant)]
  have hc : Complete mem n (Wire.body p).length _ :=
    ⟨lengthField_of_at hp.length_le hlen, length_frame p ▸ hn⟩
  have ho := outcome_body hp
  have hA : addressSpace = 2 ^ 64 := rfl
  have hle := hp.length_le
  have hk := length_remainingLength hp.length_le
  rw [hp.pktLen, length_frame] at ho
  refine ⟨_, (unpack_complete core hc ?_).2 ⟨_, hheader.symm ▸ ho, hbody, rfl, by omega⟩⟩
  rw [hheader]
  exact hasUnpacker_of_variantOk hp.variant

/-- What the length field of a frame that is cut off can look like to the decoder. -/
theorem lengthField_cut (hp : Wire.WellFormed p) {b rest : Bytes} (hl : At mem 1 b)
    (hrest : b ++ rest = Wire.remainingLength (Wire.body p).length ++ Wire.body p) :
    lengthField mem 1 = some ((Wire.body p).length,
        (Wire.remainingLength (Wire.body p).length).length) ∨
      b.length ≤ 2 ∧ ∀ len k, lengthField mem 1 = some (len, k) → b.length < k := by
  rcases le_or_gt (Wire.remainingLength (Wire.body p).length).length b.length with hle | hlt
  · -- the cut is behind the length field
    have hfront : Wire.remainingLength (Wire.body p).length <+: b :=
      List.prefix_of_prefix_length_le (List.prefix_append _ _) ⟨rest, hrest⟩ hle
    obtain ⟨c, rfl⟩ := hfront
    exact .inl (lengthField_of_at hp.length_le ((at_append _ _ _ _).1 hl).1)
  · -- the cut is inside the length field
    have hk := length_remainingLength hp.length_le
    have hfront : b <+: Wire.remainingLength (Wire.body p).length :=
      List.prefix_of_prefix_length_le ⟨rest, hrest⟩ (List.prefix_append _ _) hlt.le
    refine .inr ⟨by omega, fun len k hf => ?_⟩
    refine lt_of_lengthField_of_cut hp.length_le hlt ?_ hf
    rwa [← List.prefix_iff_eq_take.1 hfront]

/-- **A cut frame is partial**, wherever it is cut and whatever lies behind the cut. -/
theorem unpack_cut (hp : Wire.WellFormed p) {b : Bytes} (hb : b ≠ []) (hcut : b <+: Wire.frame p)
    (hne : b ≠ Wire.frame p) (hl : At mem 0 b) :
    ∃ pkt q, unpack core b.length mem 0 = .ok ((mqttPartialPacket, pkt), q) := by
  obtain ⟨rest, hrest⟩ := hcut
  obtain ⟨x, b, rfl⟩ := List.exists_cons_of_ne_nil hb
  obtain ⟨h₀, hl⟩ := hl
  rw [Wire.frame, List.cons_append, List.cons.injEq] at hrest
  obtain ⟨rfl, hrest⟩ := hrest
  have hheader : Header.unpack (mem 0) = p.header := by
    rw [h₀, Header.unpack_pack (qos_lt_of_variantOk hp.variant)]
  have ht : HasUnpacker (Header.unpack (mem 0)).type := by
    rw [hheader]
    exact hasUnpacker_of_variantOk hp.variant
  have hrestne : rest ≠ [] := by
    rintro rfl
    rw [List.append_nil] at hrest
    exact hne (by rw [Wire.frame, hrest])
  have hpos : 0 < rest.length := List.length_pos_iff.2 hrestne
  have hlen := congrArg List.length hrest
  rw [List.length_append, List.length_append] at hlen
  have hfield := lengthField_cut hp hl hrest
  -- so no reading of it makes the frame complete
  have hc : ∀ len k, ¬ Complete mem (b.length + 1) len k := by
    intro len k hc
    rcases hfield with hf | ⟨-, hf⟩
    · have hcomp := hc.2
      have hc' : Complete mem (1 + (Wire.remainingLength (Wire.body p).length).length +
        (Wire.body p).length) _ _ := ⟨hf, le_rfl⟩
      obtain ⟨rfl, rfl⟩ := hc.unique hc'
      omega
    · have := hf len k hc.1
      have := hc.2
      omega
  rw [List.length_cons, unpack_incomplete core hc ht]
  unfold incompleteCursor
  by_cases h1 : b.length + 1 ≤ 1
  · rw [if_pos h1]
    exact ⟨_, _, rfl⟩
  rw [if_neg h1]
  cases hf : lengthField mem 1 with
  | some x => exact ⟨_, _, rfl⟩
  | none =>
    rcases hfield with hf' | ⟨h2, -⟩
    · rw [hf] at hf'
      cases hf'
    · simp only
      rw [if_pos (by omega)]
      exact ⟨_, _, rfl⟩

end Frames

/-! ### The receiver -/

/-- The decoder as the receiver sees it: the return code of `unpack` on the buffered bytes, with
`beyond i` behind them at call `i`. -/
def verdict (core : Core) (beyond : ℕ → Mem) (call : ℕ) (buffer : Bytes) :
    Reassembly.Verdict Packet :=
  match unpack core buffer.length (holding buffer (beyond call)) 0 with
  | .ok ((rc, pkt), _) =>
    if rc = mqttOk then .emit pkt pkt.pktLen
    else if rc = mqttPartialPacket then .wait
    else .reject
  | .error _ => .reject

theorem framed_verdict (core : Core) (beyond : ℕ → Mem) :
    Reassembly.Framed (verdict core beyond) Wire.frame Wire.WellFormed where
  ne_nil _ _ := List.cons_ne_nil _ _
  emit p hp i rest := by
    have hl := at_holding (Wire.frame p ++ rest) (beyond i)
    obtain ⟨q, hq⟩ := unpack_frame core hp ((at_append _ _ _ _).1 hl).1
      (n := (Wire.frame p ++ rest).length) (by rw [List.length_append]; omega)
    unfold verdict
    rw [hq, ← hp.pktLen]
    rfl
  wait p hp i b hb hcut hne := by
    obtain ⟨pkt, q, hq⟩ := unpack_cut core hp hb hcut hne (at_holding b (beyond i))
    unfold verdict
    rw [hq]
    rfl

/-- **Stream reassembly is exact.**  However the concatenation of the packets' frames is cut into
chunks, and whatever lies behind the buffered bytes at each call, the packets are emitted in order
and the buffer ends empty. -/
theorem reassembly_exact (core : Core) (beyond : ℕ → Mem) {packets : List Packet}
    (hp : ∀ p ∈ packets, Wire.WellFormed p) {chunks : List Bytes}
    (hs : chunks.flatten = packets.flatMap Wire.frame) :
    ∃ calls, Reassembly.run (verdict core beyond) chunks = some ⟨[], packets, calls⟩ :=
  Reassembly.run_frames (framed_verdict core beyond) hp hs

/-- A PUBLISH and a PUBACK. -/
def publishAndAck : List Packet :=
  [{ header := { type := .publish, qos := 1 }, pktLen := 9,
      pkt := .publish { topic := [47, 97], packetId := 7, payload := [1] } },
    { header := { type := .puback }, pktLen := 4, pkt := .ack { packetId := 9 } }]

theorem wellFormed_publishAndAck : ∀ p ∈ publishAndAck, Wire.WellFormed p := by
  intro p hp
  simp only [publishAndAck, List.mem_cons, List.not_mem_nil, or_false] at hp
  rcases hp with rfl | rfl
  · exact ⟨⟨rfl, by decide, by decide, by decide⟩, by decide, by decide +kernel⟩
  · exact ⟨.inl rfl, by decide, by decide +kernel⟩

/-- Cut inside the header, inside the topic, and across the two packets. -/
theorem reassembly_exact_publishAndAck :
    ∃ calls, Reassembly.run (verdict Core.bigEndian fun _ _ => 0xFF)
      [[0x32], [7, 0, 2, 47], [97, 0, 7, 1, 0x40, 2, 0], [9]] = some ⟨[], publishAndAck, calls⟩ :=
  reassembly_exact Core.bigEndian _ wellFormed_publishAndAck (by decide +kernel)

end Culex
