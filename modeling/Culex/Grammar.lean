import Culex.Broker
import Culex.Stream

/-!
# The grammar of the list payloads

A SUBSCRIBE and an UNSUBSCRIBE should be taken if and only if the frame is exactly an identifier
followed by complete entries, and turned down otherwise.  The unpackers turn nothing down for its
payload: `grammar_iff` says on which frames they keep to the grammar all the same.
-/

namespace Culex

open ByteReader

/-! ### Frames and bodies -/

/-- The value and the size of a Remaining Length field as MQTT has it, of at most four bytes. -/
def remainingField (mem : Mem) (pos : ℕ) : Option (ℕ × ℕ) :=
  match lengthField mem pos with
  | some field => some field
  | none =>
    if (mem (pos + 3)).toNat < 128 then
      some ((mem pos).toNat % 128 + (mem (pos + 1)).toNat % 128 * 128
        + (mem (pos + 2)).toNat % 128 * 16384 + (mem (pos + 3)).toNat * 2097152, 4)
    else none

/-- A complete frame among `n` available bytes, with the Remaining Length `len` in `k` bytes. -/
def WholeFrame (mem : Mem) (n len k : ℕ) : Prop :=
  remainingField mem 1 = some (len, k) ∧ 1 + k + len ≤ n

/-- A body that is an identifier and a list of complete entries, as many as given. -/
inductive ListBody : PacketType → Packet.Variant → ℕ → Bytes → Prop
  | subscribe {sub : Subscribe} (h : ∀ t ∈ sub.payload, t.topic.length < 65536) :
      ListBody .subscribe (.subscribe sub) sub.payload.length (Wire.subscribeBody sub)
  | unsubscribe {unsub : Unsubscribe} (h : ∀ t ∈ unsub.topics, t.length < 65536) :
      ListBody .unsubscribe (.unsubscribe unsub) unsub.topics.length (Wire.unsubscribeBody unsub)

/-- The body of the frame is in the grammar of its type. -/
def Grammatical (mem : Mem) (len k : ℕ) : Prop :=
  ∃ v entries, ListBody (Header.unpack (mem 0)).type v entries (slice mem (1 + k) len)

/-- The flags byte that `unpackUnsubscribe` turns down. -/
def FlagMissing (h : Header) : Prop := h.type = .unsubscribe ∧ h.pack &&& 0x02 ≠ 0x02

/-- The frame is decoded by the grammar: it is taken exactly if it is in it, as the entries that it
spells, each of which is a round of the loop; and otherwise it is turned down. -/
def GrammarKept (core : Core) (mem : Mem) (n len k : ℕ) : Prop :=
  ∃ rc pkt cursor, unpack core n mem 0 = .ok ((rc, pkt), cursor) ∧
    (rc = mqttOk ↔ Grammatical mem len k) ∧
    (∀ v entries, ListBody (Header.unpack (mem 0)).type v entries (slice mem (1 + k) len) →
      rc = mqttOk → pkt.pkt = v ∧ entries ≤ len) ∧
    (rc ≠ mqttOk → rc = -mqttErr)

variable {core : Core} {mem : Mem} {n len k : ℕ}

theorem WholeFrame.complete (h : WholeFrame mem n len k) (hk : k ≤ 3) : Complete mem n len k := by
  obtain ⟨hfield, hle⟩ := h
  refine ⟨?_, hle⟩
  unfold remainingField at hfield
  cases hl : lengthField mem 1 with
  | some field =>
    rw [hl] at hfield
    exact hfield
  | none =>
    rw [hl] at hfield
    simp only at hfield
    split_ifs at hfield
    cases hfield
    omega

/-- A field of four bytes throws. -/
theorem WholeFrame.unpack_eq_error (h : WholeFrame mem n len k) (hk : ¬ k ≤ 3)
    (ht : HasUnpacker (Header.unpack (mem 0)).type) :
    unpack core n mem 0 = .error (.runtimeError "Malformed Remaining Length!!") := by
  obtain ⟨hfield, hle⟩ := h
  have hnone : lengthField mem 1 = none := by
    cases hl : lengthField mem 1 with
    | none => rfl
    | some field =>
      obtain ⟨len', k'⟩ := field
      have hbounds := lengthField_bounds hl
      rw [remainingField, hl] at hfield
      cases hfield
      omega
  have hc : ∀ len' k', ¬ Complete mem n len' k' := by
    rintro len' k' ⟨hsome, -⟩
    rw [hnone] at hsome
    cases hsome
  rw [unpack_incomplete core hc ht, incompleteCursor, if_neg (by omega), hnone]
  simp only
  rw [if_neg (by omega)]
  rfl

/-! ### Bodies in the grammar -/

theorem length_le_flatMap_tuple (ts : List Tuple) :
    3 * ts.length ≤ (ts.flatMap Wire.tuple).length := by
  induction ts with
  | nil => simp
  | cons t ts ih =>
    simp only [List.flatMap_cons, List.length_append, Wire.length_tuple, List.length_cons]
    omega

theorem ListBody.entries_le {type : PacketType} {v : Packet.Variant} {entries : ℕ} {l : Bytes}
    (h : ListBody type v entries l) : entries ≤ l.length := by
  cases h with
  | @subscribe sub _ =>
    have hle := length_le_flatMap_tuple sub.payload
    simp only [Wire.subscribeBody, List.length_append, length_be16]
    omega
  | @unsubscribe unsub _ =>
    have hle := length_le_flatMap_str16 unsub.topics
    simp only [Wire.unsubscribeBody, List.length_append, length_be16]
    omega

/-- **A body in the grammar is taken**, unless it is for its flags. -/
theorem unpack_listBody (hc : Complete mem n len k) {v : Packet.Variant} {entries : ℕ}
    (h : ListBody (Header.unpack (mem 0)).type v entries (slice mem (1 + k) len))
    (hflag : ¬ FlagMissing (Header.unpack (mem 0))) :
    unpack core n mem 0 = .ok ((mqttOk, ⟨Header.unpack (mem 0), 1 + k + len, v⟩), 1 + k + len) := by
  have hb := hc.bounds
  have hA : addressSpace = 2 ^ 64 := rfl
  generalize hs : slice mem (1 + k) len = l at h
  have hlen : l.length = len := by rw [← hs, length_slice]
  have hat : At mem (1 + k) l := hs ▸ at_slice mem (1 + k) len
  generalize ht : (Header.unpack (mem 0)).type = type at h
  cases h with
  | @subscribe sub htopic =>
    have hfill : TuplesFill ((len : ℤ) - 2) sub.payload := by
      have hsize : ((len : ℤ) - 2) = (sub.payload.flatMap Wire.tuple).length := by
        rw [← hlen, Wire.subscribeBody, List.length_append, length_be16]
        push_cast
        ring
      rw [hsize]
      exact tuplesFill_length sub.payload
    refine (unpack_complete core hc (by simp [ht, HasUnpacker])).2
      ⟨_, .subscribe ht hfill htopic, hat, by rw [hlen], by omega⟩
  | @unsubscribe unsub htopic =>
    have hsize : 2 + (unsub.topics.flatMap str16).length = len := by
      rw [← hlen, Wire.unsubscribeBody, List.length_append, length_be16]
    have hrounds := length_le_flatMap_str16 unsub.topics
    have hflags : (Header.unpack (mem 0)).pack &&& 0x02 = 0x02 := by
      by_contra hne
      exact hflag ⟨ht, hne⟩
    refine (unpack_complete core hc (by simp [ht, HasUnpacker])).2
      ⟨_, .unsubscribe ht hflags (topicsFill_of_length hb.2.2 hsize) (by omega) htopic, hat,
        by rw [hlen], by omega⟩

/-- **What comes back of a frame** is taken, or has its flags turned down. -/
theorem returnCode_of_unpack (hc : Complete mem n len k)
    (ht : (Header.unpack (mem 0)).type = .subscribe ∨ (Header.unpack (mem 0)).type = .unsubscribe)
    {rc : ℤ} {pkt : Packet} {cursor : ℕ} (h : unpack core n mem 0 = .ok ((rc, pkt), cursor)) :
    (rc = mqttOk ∧ ¬ FlagMissing (Header.unpack (mem 0))) ∨
      (rc = -mqttErr ∧ FlagMissing (Header.unpack (mem 0))) := by
  have hu : HasUnpacker (Header.unpack (mem 0)).type := by
    rcases ht with ht | ht <;> simp [ht, HasUnpacker]
  obtain ⟨l, ho, -⟩ := (unpack_complete core hc hu).1 h
  cases ho with
  | subscribe hsub => exact .inl ⟨rfl, fun hm => by rw [hm.1] at hsub; cases hsub⟩
  | unsubscribe _ hflags => exact .inl ⟨rfl, fun hm => hm.2 hflags⟩
  | badFlags hun hflags => exact .inr ⟨rfl, hun, hflags⟩
  | connect ht' | badName ht' | publish ht' =>
    rcases ht with ht | ht <;> rw [ht] at ht' <;> cases ht'
  | ack ht' => rcases ht with ht | ht <;> rw [ht] at ht' <;> simp [IsAck] at ht'

theorem unpack_flagMissing (hc : Complete mem n len k) (h : FlagMissing (Header.unpack (mem 0))) :
    unpack core n mem 0 = .ok ((-mqttErr, ⟨Header.unpack (mem 0), 0, .connack {}⟩), 1 + k) := by
  have hb := hc.bounds
  have hA : addressSpace = 2 ^ 64 := rfl
  exact (unpack_complete core hc (by simp [h.1, HasUnpacker])).2
    ⟨[], .badFlags h.1 h.2, trivial, rfl, by omega⟩

/-! ### The grammar -/

/-- **The grammar is kept** exactly on the frames with a length field of at most three bytes in
which the body is in the grammar, or for an UNSUBSCRIBE with the wrong flags, is not. -/
theorem grammar_iff (hf : WholeFrame mem n len k)
    (ht : (Header.unpack (mem 0)).type = .subscribe ∨
      (Header.unpack (mem 0)).type = .unsubscribe) :
    GrammarKept core mem n len k ↔
      k ≤ 3 ∧ (FlagMissing (Header.unpack (mem 0)) ↔ ¬ Grammatical mem len k) := by
  have hu : HasUnpacker (Header.unpack (mem 0)).type := by
    rcases ht with ht | ht <;> simp [ht, HasUnpacker]
  have hne : ¬ (-mqttErr = mqttOk) := by decide
  constructor
  · rintro ⟨rc, pkt, cursor, hr, hok, -⟩
    have hk : k ≤ 3 := by
      by_contra hk
      rw [hf.unpack_eq_error hk hu] at hr
      cases hr
    refine ⟨hk, ?_⟩
    rcases returnCode_of_unpack (hf.complete hk) ht hr with ⟨rfl, hflag⟩ | ⟨rfl, hflag⟩
    · exact iff_of_false hflag (not_not.2 (hok.1 rfl))
    · exact iff_of_true hflag fun hg => hne (hok.2 hg)
  · rintro ⟨hk, hiff⟩
    have hc := hf.complete hk
    by_cases hflag : FlagMissing (Header.unpack (mem 0))
    · refine ⟨_, _, _, unpack_flagMissing hc hflag, iff_of_false hne (hiff.1 hflag), ?_,
        fun _ => rfl⟩
      exact fun _ _ _ herr => absurd herr hne
    · have hg : Grammatical mem len k := not_not.1 fun hg => hflag (hiff.2 hg)
      obtain ⟨v, entries, hbody⟩ := hg
      have hr := @unpack_listBody core _ _ _ _ hc _ _ hbody hflag
      refine ⟨_, _, _, hr, iff_of_true rfl ⟨v, entries, hbody⟩, fun v' entries' hbody' _ => ?_,
        fun herr => absurd rfl herr⟩
      -- a body spells one list only, as it is decoded to one packet
      have hr' := @unpack_listBody core _ _ _ _ hc _ _ hbody' hflag
      rw [hr] at hr'
      cases hr'
      refine ⟨rfl, ?_⟩
      have hle := hbody'.entries_le
      rwa [length_slice] at hle

/-- A SUBSCRIBE with one topic. -/
theorem grammar_iff_oneTopic :
    GrammarKept Core.bigEndian (holding (subscribeFrame 116 1) fun _ => 0) 8 6 1 := by
  have hf : WholeFrame (holding (subscribeFrame 116 1) fun _ => 0) 8 6 1 := by
    constructor <;> decide
  have ht : (Header.unpack (holding (subscribeFrame 116 1) (fun _ => 0) 0)).type = .subscribe := by
    decide
  have hs : slice (holding (subscribeFrame 116 1) fun _ => 0) 2 6
      = Wire.subscribeBody { packetId := 1, payload := [⟨[116], 1⟩] } := by decide
  refine (grammar_iff hf (.inl ht)).2 ⟨by decide, iff_of_false (fun hm => ?_) (not_not.2 ?_)⟩
  · rw [hm.1] at ht
    cases ht
  · have hbody := @ListBody.subscribe { packetId := 1, payload := [⟨[116], 1⟩] } (by decide)
    rw [← ht, ← hs] at hbody
    exact ⟨_, _, hbody⟩

/-- A SUBSCRIBE with the identifier 1 and an entry that ends with its length: the body is not in the
grammar, and it is taken. -/
theorem not_grammarKept_cutOff :
    WholeFrame (holding [0x82, 4, 0, 1, 0, 5] fun _ => 0) 6 4 1 ∧
      (Header.unpack (holding [0x82, 4, 0, 1, 0, 5] (fun _ => 0) 0)).type = .subscribe ∧
      ¬ GrammarKept Core.bigEndian (holding [0x82, 4, 0, 1, 0, 5] fun _ => 0) 6 4 1 := by
  have hf : WholeFrame (holding [0x82, 4, 0, 1, 0, 5] fun _ => 0) 6 4 1 := by
    constructor <;> decide
  have ht : (Header.unpack (holding [0x82, 4, 0, 1, 0, 5] (fun _ => 0) 0)).type = .subscribe := by
    decide
  refine ⟨hf, ht, ?_⟩
  rintro ⟨rc, pkt, cursor, hr, hok, -⟩
  rcases returnCode_of_unpack (hf.complete (by decide)) (.inl ht) hr with ⟨rfl, -⟩ | ⟨-, hm, -⟩
  · obtain ⟨v, entries, hbody⟩ := hok.1 rfl
    rw [ht] at hbody
    generalize hs : slice (holding [0x82, 4, 0, 1, 0, 5] fun _ => 0) (1 + 1) 4 = l at hbody
    cases hbody with
    | @subscribe sub _ =>
      have hlen := congrArg List.length hs
      have hle := length_le_flatMap_tuple sub.payload
      rw [length_slice, Wire.subscribeBody, List.length_append, length_be16] at hlen
      have hnil : sub.payload = [] := List.length_eq_zero_iff.1 (by omega)
      rw [hnil] at hlen
      simp at hlen
  · rw [ht] at hm
    cases hm

end Culex
