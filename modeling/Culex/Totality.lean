import Culex.Decode

/-!
# Totality of the decoder

When `unpack` comes back with a return code and without having read behind the available bytes.
`Returns` is the demand; `Readable` is the exact condition on the bytes: the type nibble is inside
the jump table, the Remaining Length field is closed within the available bytes and within three of
its own, and what the type takes from the rest of the frame is there.  The decoder checks the last
of these for no packet type.
-/

namespace Culex

open ByteReader

variable (core : Core)

/-- `unpack` returns one of its three codes, and every byte it read was available.  Each byte is
read at the cursor, which then moves past it. -/
def Returns (mem : Mem) (n : ℕ) : Prop :=
  ∃ rc pkt q, unpack core n mem 0 = .ok ((rc, pkt), q) ∧
    (rc = mqttOk ∨ rc = mqttPartialPacket ∨ rc = -mqttErr) ∧ q ≤ n

/-- What the unpacker of type `h.type` takes from the body is there.  `avail` are the available
bytes after the length field, `body` the first of them that belong to the frame. -/
def BodyReadable (h : Header) (avail body : Bytes) : Prop :=
  match h.type with
  | .connect =>
    (∃ name rest, name ≠ protocolName ∧ name.length < 65536 ∧ avail = str16 name ++ rest) ∨
      ∃ cn l rest, Wire.IsConnectFields cn l ∧ avail = Wire.protocolName ++ l ++ rest
  | .publish =>
    ∃ pub : Publish, pub.topic.length < 65536 ∧ (h.qos = 0 → pub.packetId = 0) ∧
      body = Wire.publishBody h.qos pub
  | .puback | .pubrec | .pubrel | .pubcomp => 2 ≤ avail.length
  | .subscribe =>
    ∃ (sub : Subscribe) (rest : Bytes), (∀ t ∈ sub.payload, t.topic.length < 65536) ∧
      TuplesFill (body.length - 2) sub.payload ∧ avail = Wire.subscribeBody sub ++ rest
  | .unsubscribe =>
    h.pack &&& 0x02 = 0x02 → ∃ unsub : Unsubscribe, (∀ t ∈ unsub.topics, t.length < 65536) ∧
      body = Wire.unsubscribeBody unsub
  | _ => True

/-- The bytes the decoder goes for are there. -/
structure Readable (mem : Mem) (n : ℕ) : Prop where
  /-- The type nibble is inside the jump table. -/
  type : (Header.unpack (mem 0)).type.code < 11
  /-- The length field ends within the available bytes. -/
  length : HasUnpacker (Header.unpack (mem 0)).type → 2 ≤ n →
    ∃ len k, lengthField mem 1 = some (len, k) ∧ 1 + k ≤ n
  /-- The body of a complete frame can be read. -/
  body : ∀ len k, Complete mem n len k →
    BodyReadable (Header.unpack (mem 0)) (slice mem (1 + k) (n - (1 + k))) (slice mem (1 + k) len)

variable {core} {mem : Mem} {n : ℕ}

/-! ### Types without an unpacker, and incomplete frames -/

theorem code_lt_of_noHandler {t : PacketType} (h : (unpackHandlers core)[t.code]? = some none) :
    t.code < 11 := by
  by_contra hc
  rw [List.getElem?_eq_none (by simp only [unpackHandlers, List.length_cons, List.length_nil]; omega)]
    at h
  cases h

theorem le_code_of_tableIndex {t : PacketType} (h : (unpackHandlers core)[t.code]? = none) :
    11 ≤ t.code := by
  simpa only [unpackHandlers, List.getElem?_eq_none_iff, List.length_cons, List.length_nil] using h

theorem HasUnpacker.code_lt {t : PacketType} (h : HasUnpacker t) : t.code < 11 := by
  rcases h with rfl | rfl | (rfl | rfl | rfl | rfl) | rfl | rfl <;> decide

/-- An incomplete frame is answered without reading too far exactly if its length field is closed,
or if the header byte is all there is. -/
theorem incompleteCursor_ok_iff (mem : Mem) {n : ℕ} (hn : 1 ≤ n) :
    (∃ q, incompleteCursor mem n = .ok q ∧ q ≤ n) ↔
      (2 ≤ n → ∃ len k, lengthField mem 1 = some (len, k) ∧ 1 + k ≤ n) := by
  unfold incompleteCursor
  rcases Nat.eq_or_lt_of_le hn with rfl | h₂
  · simp
  rw [if_neg (by omega)]
  cases hf : lengthField mem 1 with
  | none =>
    simp only [reduceCtorEq, false_and, exists_false, imp_false]
    split_ifs with h₃
    · constructor
      · rintro ⟨q, hq, hqn⟩
        cases hq
        omega
      · intro h
        omega
    · constructor
      · rintro ⟨q, hq, -⟩
        cases hq
      · intro h
        omega
  | some x =>
    obtain ⟨len, k⟩ := x
    constructor
    · rintro ⟨q, hq, hqn⟩ -
      cases hq
      exact ⟨len, k, rfl, by omega⟩
    · intro h
      obtain ⟨_, _, he, hk⟩ := h h₂
      cases he
      exact ⟨_, rfl, by omega⟩

/-! ### Complete frames -/

section Complete

variable {len k : ℕ}

/-- Entries that stop the loop overshoot the payload by less than one entry. -/
theorem TuplesFill.length_le {payloadLen : ℤ} {ts : List Tuple} (h : TuplesFill payloadLen ts)
    (ht : ∀ t ∈ ts, t.topic.length < 65536) :
    ((ts.flatMap Wire.tuple).length : ℤ) ≤ max payloadLen 0 + 65538 := by
  induction ts generalizing payloadLen with
  | nil => simp; omega
  | cons t ts ih =>
    have ht₁ := ht t (by simp)
    have hrest := ih h.2 fun t' h' => ht t' (by simp [h'])
    obtain ⟨hpos, hfill⟩ := h
    simp only [List.flatMap_cons, List.length_append, Wire.length_tuple]
    push_cast
    rcases lt_or_ge payloadLen (2 + t.topic.length + 1) with hlt | hge
    · -- the entry overshoots, so it is the last one
      cases ts with
      | nil => simp; omega
      | cons t' ts => exact absurd hfill.1 (by omega)
    · omega

/-- The fields of a complete frame with header `h` can be spelled within reach. -/
def InReach (mem : Mem) (n len k : ℕ) (h : Header) : Prop :=
  ∃ x l, Outcome h (1 + k + len) len x l ∧ At mem (1 + k) l ∧ 1 + k + l.length ≤ n ∧
    1 + k + l.length ≤ addressSpace

/-- On a complete frame the demand is that some spelling of the fields is within reach. -/
theorem returns_iff_inReach (hc : Complete mem n len k)
    (ht : HasUnpacker (Header.unpack (mem 0)).type) :
    Returns core mem n ↔ InReach mem n len k (Header.unpack (mem 0)) := by
  constructor
  · rintro ⟨rc, pkt, q, hr, -, hq⟩
    obtain ⟨l, ho, hl, rfl, hspace⟩ := (unpack_complete core hc ht).1 hr
    exact ⟨_, l, ho, hl, hq, hspace⟩
  · rintro ⟨⟨rc, pkt⟩, l, ho, hl, hq, hspace⟩
    refine ⟨rc, pkt, _, (unpack_complete core hc ht).2 ⟨l, ho, hl, rfl, hspace⟩, ?_, hq⟩
    generalize hx : (rc, pkt) = x at ho
    cases ho <;> cases hx <;> simp

/-- A spelling within reach is read off the available bytes, type by type. -/
theorem InReach.bodyReadable {header : Header} (hc : Complete mem n len k)
    (h : InReach mem n len k header) :
    BodyReadable header (slice mem (1 + k) (n - (1 + k))) (slice mem (1 + k) len) := by
  obtain ⟨-, hk, hlen⟩ := hc.bounds
  have hn := hc.2
  have hreach := at_iff_slice_append mem (1 + k) (n - (1 + k))
  obtain ⟨x, l, ho, hl, hle, hspace⟩ := h
  unfold BodyReadable
  cases ho with
  | @connect cn m ht' hm =>
    rw [ht']
    obtain ⟨rest, hrest⟩ := (hreach _).1 ⟨hl, by omega⟩
    exact .inr ⟨cn, m, rest, hm, hrest⟩
  | @badName name ht' hname hlt =>
    rw [ht']
    obtain ⟨rest, hrest⟩ := (hreach _).1 ⟨hl, by omega⟩
    exact .inl ⟨name, rest, hname, hlt, hrest⟩
  | @publish pub ht' htopic hid hlen' =>
    rw [ht', ← hlen']
    exact ⟨pub, htopic, hid, slice_of_at hl⟩
  | ack ht' =>
    rw [length_be16] at hle
    rcases ht' with ht' | ht' | ht' | ht' <;>
      (rw [ht']; show 2 ≤ List.length _; rw [length_slice]; omega)
  | @subscribe sub ht' hfill htopic =>
    rw [ht']
    obtain ⟨rest, hrest⟩ := (hreach _).1 ⟨hl, by omega⟩
    refine ⟨sub, rest, htopic, ?_, hrest⟩
    rwa [length_slice]
  | @unsubscribe unsub ht' hflags hfill hrounds htopic =>
    rw [ht']
    have hb : (Wire.unsubscribeBody unsub).length = 2 + (unsub.topics.flatMap str16).length := by
      simp [Wire.unsubscribeBody, Nat.add_comm]
    rw [hb] at hspace
    have := hfill.length_eq hlen (by have := hc.bounds; omega)
    rw [← this, ← hb]
    exact fun _ => ⟨unsub, htopic, slice_of_at hl⟩
  | badFlags ht' hflags =>
    rw [ht']
    exact fun hflags' => absurd hflags' hflags

/-- What can be read off the available bytes is a spelling within reach, type by type. -/
theorem inReach_of_bodyReadable {h : Header} (hc : Complete mem n len k) (ht : HasUnpacker h.type)
    (hb : BodyReadable h (slice mem (1 + k) (n - (1 + k))) (slice mem (1 + k) len)) :
    InReach mem n len k h := by
  obtain ⟨-, hk, hlen⟩ := hc.bounds
  have hn := hc.2
  have hA : addressSpace = 2 ^ 64 := rfl
  have hreach := at_iff_slice_append mem (1 + k) (n - (1 + k))
  have hbody : ∀ {l : Bytes}, slice mem (1 + k) len = l → At mem (1 + k) l ∧ l.length = len := by
    rintro l rfl
    exact ⟨at_slice _ _ _, length_slice _ _ _⟩
  unfold BodyReadable at hb
  rcases ht with ht | ht | ht | ht | ht
  · rw [ht] at hb
    rcases hb with ⟨name, rest, hname, hlt, hrest⟩ | ⟨cn, l, rest, hcn, hrest⟩
    · obtain ⟨hl, hle⟩ := (hreach _).2 ⟨rest, hrest⟩
      have := length_str16 name
      exact ⟨_, _, .badName ht hname hlt, hl, by omega, by omega⟩
    · obtain ⟨hl, hle⟩ := (hreach _).2 ⟨rest, hrest⟩
      have hbound := Wire.length_connectFields_le hcn
      have hname : Wire.protocolName.length = 6 := rfl
      rw [List.length_append] at hle
      exact ⟨_, _, .connect ht hcn, hl, by rw [List.length_append]; omega,
        by rw [List.length_append]; omega⟩
  · rw [ht] at hb
    obtain ⟨pub, htopic, hid, hpub⟩ := hb
    obtain ⟨hl, hlen'⟩ := hbody hpub
    exact ⟨_, _, .publish ht htopic hid hlen', hl, by omega, by omega⟩
  · have h2 : 2 ≤ n - (1 + k) := by
      rcases ht with ht | ht | ht | ht <;>
        (rw [ht] at hb; exact (length_slice mem (1 + k) (n - (1 + k))) ▸ hb)
    obtain ⟨v, l, rfl, hl, -⟩ :=
      (total_u16 Fault.wildPointer).exists_spelling (spells_u16 _) mem (1 + k) (by omega)
    exact ⟨_, _, @Outcome.ack _ _ _ ⟨v⟩ ht, hl, by rw [length_be16]; omega,
      by rw [length_be16]; omega⟩
  · rw [ht] at hb
    obtain ⟨sub, rest, htopic, hfill, hrest⟩ := hb
    obtain ⟨hl, hle⟩ := (hreach _).2 ⟨rest, hrest⟩
    rw [length_slice] at hfill
    have hbound := hfill.length_le htopic
    have hb : (Wire.subscribeBody sub).length = 2 + (sub.payload.flatMap Wire.tuple).length := by
      simp [Wire.subscribeBody, Nat.add_comm]
    exact ⟨_, _, .subscribe ht hfill htopic, hl, by omega, by omega⟩
  · rw [ht] at hb
    by_cases hflags : h.pack &&& 0x02 = 0x02
    · obtain ⟨unsub, htopic, hunsub⟩ := hb hflags
      obtain ⟨hl, hlen'⟩ := hbody hunsub
      have hlen'' : 2 + (unsub.topics.flatMap str16).length = len := by
        rw [← hlen']
        simp [Wire.unsubscribeBody, Nat.add_comm]
      have hrounds := length_le_flatMap_str16 unsub.topics
      exact ⟨_, _, .unsubscribe ht hflags (topicsFill_of_length hlen hlen'') (by omega) htopic, hl,
        by omega, by omega⟩
    · exact ⟨_, _, .badFlags ht hflags, trivial, by rw [List.length_nil]; omega,
        by rw [List.length_nil]; omega⟩

end Complete

/-! ### The exact condition -/

/-- **Totality of the decoder.**  On at least one byte, `unpack` returns a code without reading too
far exactly if the bytes it goes for are there. -/
theorem returns_iff (hn : 1 ≤ n) : Returns core mem n ↔ Readable mem n := by
  have hbody : ∀ {len k}, Complete mem n len k → HasUnpacker (Header.unpack (mem 0)).type →
      (Returns core mem n ↔ BodyReadable (Header.unpack (mem 0))
        (slice mem (1 + k) (n - (1 + k))) (slice mem (1 + k) len)) := fun hc ht =>
    (returns_iff_inReach hc ht).trans
      ⟨fun h => h.bodyReadable hc, fun h => inReach_of_bodyReadable hc ht h⟩
  rcases hasUnpacker_or core (Header.unpack (mem 0)).type with ht | ht | ht
  · -- a type with an unpacker
    by_cases hc : ∃ len k, Complete mem n len k
    · obtain ⟨len, k, hc⟩ := hc
      rw [hbody hc ht]
      constructor
      · intro hb
        refine ⟨ht.code_lt, fun _ _ => ⟨len, k, hc.1, by have := hc.2; omega⟩, fun len' k' hc' => ?_⟩
        obtain ⟨rfl, rfl⟩ := hc.unique hc'
        exact hb
      · intro h
        exact h.body len k hc
    · -- of an incomplete frame only the length field is read
      have hc' : ∀ len k, ¬ Complete mem n len k := fun len k h => hc ⟨len, k, h⟩
      have hcursor := incompleteCursor_ok_iff mem hn
      unfold Returns
      rw [unpack_incomplete core hc' ht]
      constructor
      · rintro ⟨rc, pkt, q, hr, -, hq⟩
        refine ⟨ht.code_lt, fun _ => hcursor.1 ?_, fun len k h => absurd h (hc' len k)⟩
        cases hi : incompleteCursor mem n with
        | error e => rw [hi] at hr; cases hr
        | ok q' => rw [hi] at hr; cases hr; exact ⟨_, rfl, hq⟩
      · intro h
        obtain ⟨q, hi, hq⟩ := hcursor.2 (h.length ht)
        rw [hi]
        exact ⟨_, _, q, rfl, .inr (.inl rfl), hq⟩
  · -- a null entry of the table rejects the packet after its first byte
    have hno : ¬ HasUnpacker (Header.unpack (mem 0)).type := by
      rintro (h | h | (h | h | h | h) | h | h) <;>
        (rw [h] at ht; simp [unpackHandlers, PacketType.code] at ht)
    constructor
    · intro _
      refine ⟨code_lt_of_noHandler ht, fun h => absurd h hno, fun len k _ => ?_⟩
      unfold BodyReadable
      split <;> first | trivial | exact absurd (by simp_all [HasUnpacker, IsAck]) hno
    · intro _
      exact ⟨_, _, 1, unpack_noHandler core ht, .inr (.inr rfl), hn⟩
  · -- the table has no entry
    constructor
    · rintro ⟨rc, pkt, q, hr, -⟩
      rw [unpack_tableIndex core ht] at hr
      cases hr
    · intro h
      have := le_code_of_tableIndex ht
      have := h.type
      omega

/-- At a complete PUBACK. -/
theorem returns_iff_ack :
    1 ≤ 4 ∧ (Returns Core.bigEndian (fun i => [0x40, 2, 0, 7].getD i 0) 4 ↔
      Readable (fun i => [0x40, 2, 0, 7].getD i 0) 4) :=
  ⟨by decide, returns_iff (by decide)⟩

/-- The header byte of an UNSUBACK indexes the jump table behind its end. -/
theorem not_returns_unsuback : ¬ Returns Core.bigEndian (fun _ => 0xB0) 1 := by
  rintro ⟨rc, pkt, q, hr, -⟩
  rw [unpack_tableIndex Core.bigEndian (by decide)] at hr
  cases hr

end Culex
