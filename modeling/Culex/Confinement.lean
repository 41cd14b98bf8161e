import Culex.Decode

/-!
# Frame confinement

Whether an accepted packet is a function of its own frame.  `Confined` says that it is: the frame
lies within the available bytes, and any memory with the same frame decodes to the same packet.
`confined_iff_cursor` reduces this to the cursor, which must not have passed the end of the frame;
`confined_iff` says for which inputs that is so, in terms of the wire format alone.  PUBLISH and
UNSUBSCRIBE always are; the identifier of an acknowledgment, the last entries of SUBSCRIBE and the
strings of CONNECT can lie behind the frame that announced them.
-/

namespace Culex

open ByteReader

variable (core : Core)

/-- What is accepted from `mem` is determined by the bytes of its frame. -/
def Confined (mem : Mem) (n : ℕ) : Prop :=
  ∀ pkt q, unpack core n mem 0 = .ok ((mqttOk, pkt), q) →
    pkt.pktLen ≤ n ∧ ∀ mem' n', (∀ i < pkt.pktLen, mem' i = mem i) → pkt.pktLen ≤ n' →
      ∃ q', unpack core n' mem' 0 = .ok ((mqttOk, pkt), q')

/-- Where the first `n` bytes hold a complete frame, the fields of its type lie inside it: both
bytes of an acknowledgment's identifier, SUBSCRIBE entries that fill the frame, and, if the body
starts with the protocol name, the CONNECT fields that the flags announce. -/
def FieldsInside (mem : Mem) (n : ℕ) : Prop :=
  ∀ len k, Complete mem n len k →
    (IsAck (Header.unpack (mem 0)).type → 2 ≤ len) ∧
    ((Header.unpack (mem 0)).type = .subscribe →
      ∃ sub : Subscribe, (∀ t ∈ sub.payload, t.topic.length < 65536) ∧
        slice mem (1 + k) len = Wire.subscribeBody sub) ∧
    ((Header.unpack (mem 0)).type = .connect → At mem (1 + k) Wire.protocolName →
      ∃ cn l rest, Wire.IsConnectFields cn l ∧
        slice mem (1 + k) len = Wire.protocolName ++ l ++ rest)

variable {core}

section Outcomes

variable {h : Header} {pktLen len : ℕ} {pkt : Packet} {l l' : Bytes}

/-- Two spellings of CONNECT fields differ in the flags byte only. -/
theorem isConnectFields_tail {cn : Connect} (h : Wire.IsConnectFields cn l) :
    ∃ flags, l = cn.level :: flags :: (Wire.connectFields 0 cn).drop 2 := by
  obtain ⟨-, flags, -, rfl⟩ := h
  exact ⟨flags, rfl⟩

theorem connectFields_drop_ne_nil (cn : Connect) : (Wire.connectFields 0 cn).drop 2 ≠ [] := by
  simp [Wire.connectFields, be16]

/-- All spellings of one accepted packet have the same length and end in the same byte. -/
theorem Outcome.spelling_unique (ho : Outcome h pktLen len (mqttOk, pkt) l)
    (ho' : Outcome h pktLen len (mqttOk, pkt) l') :
    l.length = l'.length ∧ l.getLast? = l'.getLast? ∧ l ≠ [] := by
  generalize hx : (mqttOk, pkt) = x at ho
  generalize hx' : (mqttOk, pkt) = x' at ho'
  cases ho with
  | badName | badFlags => simp [mqttOk, mqttErr] at hx
  | @connect cn m _ hm =>
    cases ho' <;> cases hx <;> cases hx'
    rename_i m' _ hm'
    obtain ⟨f, rfl⟩ := isConnectFields_tail hm
    obtain ⟨f', rfl⟩ := isConnectFields_tail hm'
    have hne := connectFields_drop_ne_nil cn
    refine ⟨by simp, ?_, by simp [Wire.protocolName]⟩
    simp [List.getLast?_append, List.getLast?_cons, List.getLast?_eq_some_getLast hne]
  | publish => cases ho' <;> cases hx <;> cases hx'; simp [Wire.publishBody, str16, be16]
  | ack => cases ho' <;> cases hx <;> cases hx'; simp [be16]
  | subscribe => cases ho' <;> cases hx <;> cases hx'; simp [Wire.subscribeBody, be16]
  | unsubscribe => cases ho' <;> cases hx <;> cases hx'; simp [Wire.unsubscribeBody, be16]

end Outcomes

variable {mem : Mem} {n : ℕ} {pkt : Packet} {q : ℕ}

/-- A packet whose fields ended inside its frame is decoded from the frame alone. -/
theorem unpack_of_frame (hr : unpack core n mem 0 = .ok ((mqttOk, pkt), q)) (hq : q ≤ pkt.pktLen)
    {mem' : Mem} {n' : ℕ} (hm : ∀ i < pkt.pktLen, mem' i = mem i) (hn : pkt.pktLen ≤ n') :
    unpack core n' mem' 0 = .ok ((mqttOk, pkt), q) := by
  obtain ⟨ht, len, k, l, hc, ho, hl, rfl, hA⟩ := exists_outcome hr
  rw [ho.pktLen_eq] at hq hm hn
  have h0 : mem' 0 = mem 0 := hm 0 (by omega)
  have hc' : Complete mem' n' len k := hc.congr hm hn
  rw [unpack_complete core hc' (by rw [h0]; exact ht), h0]
  exact ⟨l, ho, at_congr (fun i _ hi => hm i (by omega)) hl, rfl, hA⟩

/-- If the frame determines the packet, the decoder stayed inside the frame: the last byte it took
is part of the result, so it cannot be free. -/
theorem Confined.cursor_le (hconf : Confined core mem n)
    (hr : unpack core n mem 0 = .ok ((mqttOk, pkt), q)) : q ≤ pkt.pktLen := by
  by_contra hq
  obtain ⟨ht, len, k, l, hc, ho, hl, hql, -⟩ := exists_outcome hr
  have hlen := ho.pktLen_eq
  -- change the last byte read, which lies behind the frame
  let mem' : Mem := Function.update mem (q - 1) (mem (q - 1) + 1)
  have hm : ∀ i < pkt.pktLen, mem' i = mem i := by
    intro i hi
    exact Function.update_of_ne (by omega) _ _
  obtain ⟨q', hr'⟩ := (hconf pkt q hr).2 mem' n hm (hconf pkt q hr).1
  obtain ⟨-, len', k', l', hc', ho', hl', -, -⟩ := exists_outcome hr'
  have hcm : Complete mem' n len k := hc.congr (fun i hi => hm i (by omega)) hc.2
  obtain ⟨rfl, rfl⟩ := hcm.unique hc'
  rw [hm 0 (by omega)] at ho'
  obtain ⟨hlen', hlast, hne⟩ := ho.spelling_unique ho'
  have hpos : 0 < l.length := List.length_pos_iff.2 hne
  have hne' : l' ≠ [] := List.length_pos_iff.1 (by omega)
  have hpos' : 1 + k + (l.length - 1) = q - 1 := by omega
  rw [at_getLast? hl hne, at_getLast? hl' hne', ← hlen', hpos', Option.some.injEq] at hlast
  have hs : mem' (q - 1) = mem (q - 1) + 1 := Function.update_self _ _ _
  rw [hs] at hlast
  simp at hlast

/-- Confinement is a matter of the cursor. -/
theorem confined_iff_cursor :
    Confined core mem n ↔
      ∀ pkt q, unpack core n mem 0 = .ok ((mqttOk, pkt), q) → q ≤ pkt.pktLen := by
  constructor
  · intro hconf pkt q hr
    exact hconf.cursor_le hr
  · intro h pkt q hr
    obtain ⟨-, len, k, l, hc, ho, -, -, -⟩ := exists_outcome hr
    refine ⟨by rw [ho.pktLen_eq]; exact hc.2, fun mem' n' hm hn => ?_⟩
    exact ⟨q, unpack_of_frame hr (h pkt q hr) hm hn⟩

/-! ### The exact condition -/

section Exact

variable {len k : ℕ}

variable (core) in
/-- A run on a complete frame, from the bytes its fields take. -/
theorem unpack_of_outcome (hc : Complete mem n len k)
    (ht : HasUnpacker (Header.unpack (mem 0)).type) {l : Bytes}
    (ho : Outcome (Header.unpack (mem 0)) (1 + k + len) len (mqttOk, pkt) l)
    (hl : At mem (1 + k) l) (hspace : 1 + k + l.length ≤ addressSpace) :
    unpack core n mem 0 = .ok ((mqttOk, pkt), 1 + k + l.length) :=
  (unpack_complete core hc ht).2 ⟨l, ho, hl, rfl, hspace⟩

/-- A decoder that stays inside its frame finds the fields there. -/
theorem fieldsInside_of_cursor
    (h : ∀ pkt q, unpack core n mem 0 = .ok ((mqttOk, pkt), q) → q ≤ pkt.pktLen) :
    FieldsInside mem n := by
  intro len k hc
  obtain ⟨-, hk, hlen⟩ := hc.bounds
  have hA : addressSpace = 2 ^ 64 := rfl
  -- an accepted packet's fields end inside the frame
  have hin : ∀ {pkt : Packet} {l : Bytes}, HasUnpacker (Header.unpack (mem 0)).type →
      Outcome (Header.unpack (mem 0)) (1 + k + len) len (mqttOk, pkt) l → At mem (1 + k) l →
      1 + k + l.length ≤ addressSpace → l.length ≤ len := by
    intro pkt l ht ho hl hspace
    have := h pkt _ (unpack_of_outcome core hc ht ho hl hspace)
    rw [ho.pktLen_eq] at this
    omega
  refine ⟨fun ht => ?_, fun ht => ?_, fun ht hname => ?_⟩
  · obtain ⟨v, l, rfl, hl, -⟩ :=
      core.total_u16.exists_spelling core.spells_u16 mem (1 + k) (by omega)
    exact hin (.inr (.inr (.inl ht))) (@Outcome.ack _ _ _ ⟨v⟩ ht) hl (by simp; omega)
  · obtain ⟨v, l, rfl, hl, -⟩ :=
      core.total_u16.exists_spelling core.spells_u16 mem (1 + k) (by omega)
    obtain ⟨ts, l', ⟨hfill, htopic, rfl⟩, hl', hle⟩ :=
      (total_tuples core ((len : ℤ) - 2).toNat (len - 2)).exists_spelling
        (spells_tuples core _ _ le_rfl) mem (1 + k + 2) (by omega)
    have hbody : At mem (1 + k) (Wire.subscribeBody ⟨v, ts⟩) := (at_append _ _ _ _).2 ⟨hl, hl'⟩
    have hlen' : (Wire.subscribeBody ⟨v, ts⟩).length = 2 + (ts.flatMap Wire.tuple).length := by
      simp [Wire.subscribeBody, Nat.add_comm]
    have hinside := hin (.inr (.inr (.inr (.inl ht)))) (@Outcome.subscribe _ _ _ ⟨v, ts⟩ ht hfill
      htopic) hbody (by omega)
    have hused := le_of_tuplesFill hfill
    refine ⟨⟨v, ts⟩, htopic, ?_⟩
    rw [← slice_of_at hbody]
    congr 1
    omega
  · obtain ⟨cn, l, hcn, hl, hle⟩ :=
      (total_connectFields core).exists_spelling (spells_connectFields core) mem
        (1 + k + 6) (by omega)
    have hbody : At mem (1 + k) (Wire.protocolName ++ l) := (at_append _ _ _ _).2 ⟨hname, hl⟩
    have hinside := hin (.inl ht) (.connect ht hcn) hbody (by simp [Wire.protocolName]; omega)
    obtain ⟨rest, hrest⟩ := (at_iff_slice_append mem (1 + k) len _).1 ⟨hbody, hinside⟩
    exact ⟨cn, l, rest, hcn, hrest⟩

/-- Fields that lie inside the frame keep the decoder there. -/
theorem FieldsInside.cursor_le (h : FieldsInside mem n)
    (hr : unpack core n mem 0 = .ok ((mqttOk, pkt), q)) : q ≤ pkt.pktLen := by
  obtain ⟨ht, len, k, l, hc, ho, hl, rfl, hspace⟩ := exists_outcome hr
  obtain ⟨hack, hsub, hconnect⟩ := h len k hc
  obtain ⟨hk₁, hk, hlen⟩ := hc.bounds
  have hA : addressSpace = 2 ^ 64 := rfl
  rw [ho.pktLen_eq]
  -- the decoder is a function: it suffices that some fields inside the frame are accepted
  have hfun : ∀ {pkt' : Packet} {l' rest : Bytes},
      Outcome (Header.unpack (mem 0)) (1 + k + len) len (mqttOk, pkt') l' →
      slice mem (1 + k) len = l' ++ rest → l.length ≤ len := by
    intro pkt' l' rest ho' hslice
    obtain ⟨hl', hle⟩ := (at_iff_slice_append mem (1 + k) len l').2 ⟨rest, hslice⟩
    have hr' := unpack_of_outcome core hc ht ho' hl' (by omega)
    have hq := congrArg Prod.snd (Except.ok.inj (hr.symm.trans hr'))
    simp only at hq
    omega
  suffices l.length ≤ len by omega
  generalize hx : (mqttOk, pkt) = x at ho
  cases ho with
  | badName | badFlags => simp [mqttOk, mqttErr] at hx
  | @connect cn m ht' hm =>
    rw [at_append] at hl
    obtain ⟨cn', l', rest, hl', hslice⟩ := hconnect ht' hl.1
    exact hfun (.connect ht' hl') hslice
  | publish ht' htopic hid hlen' => exact hlen'.le
  | ack ht' => exact hack ht'
  | subscribe ht' hfill htopic =>
    obtain ⟨sub', htopic', hslice⟩ := hsub ht'
    have hnil : slice mem (1 + k) len = Wire.subscribeBody sub' ++ [] := by
      rw [hslice, List.append_nil]
    refine hfun (.subscribe ht' ?_ htopic') hnil
    have hlen' : len = 2 + (sub'.payload.flatMap Wire.tuple).length := by
      rw [← length_slice mem (1 + k) len, hslice]
      simp [Wire.subscribeBody, Nat.add_comm]
    have := tuplesFill_length sub'.payload
    rwa [show ((sub'.payload.flatMap Wire.tuple).length : ℤ) = len - 2 by omega] at this
  | @unsubscribe unsub ht' hflags hfill hrounds htopic =>
    have hb : (Wire.unsubscribeBody unsub).length = 2 + (unsub.topics.flatMap str16).length := by
      simp [Wire.unsubscribeBody, Nat.add_comm]
    rw [hb] at hspace ⊢
    exact (hfill.length_eq hlen (by omega)).le

end Exact

/-- **Frame confinement.**  What is accepted is determined by its own frame exactly when the fields
of the packet type lie inside it. -/
theorem confined_iff : Confined core mem n ↔ FieldsInside mem n := by
  rw [confined_iff_cursor]
  constructor
  · exact fieldsInside_of_cursor
  · intro h pkt q hr
    exact h.cursor_le hr

/-- A PUBACK that announces no body, followed by two bytes of something else. -/
def bareAck : Mem := fun i => if i = 0 then 0x40 else if i = 3 then 7 else 0

/-- Its identifier is taken from behind its frame. -/
theorem not_confined_bareAck : ¬ Confined Core.bigEndian bareAck 2 := by
  intro h
  have hrun : unpack Core.bigEndian 2 bareAck 0 =
      .ok ((mqttOk, { header := { type := .puback }, pktLen := 2, pkt := .ack ⟨7⟩ }), 4) := by
    decide +kernel
  have h4 : 4 ≤ 2 := h.cursor_le hrun
  omega

end Culex
