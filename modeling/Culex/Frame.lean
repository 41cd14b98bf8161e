import Culex.Unpack

/-!
# Finding the end of a frame

What `isPartial` sees.  `lengthField` reads the Remaining Length field of at most three bytes as a
function of the memory; `decodeLength_eq` and `isPartial_eq` say exactly what the two functions
return for every memory and every number of available bytes, and `framed_complete` reduces an
unpacker on a complete frame to its fields.
-/

namespace Culex

open ByteReader

/-- The value and the size of the Remaining Length field at `pos`, if it has at most three bytes. -/
def lengthField (mem : Mem) (pos : ℕ) : Option (ℕ × ℕ) :=
  let b₁ := (mem pos).toNat
  let b₂ := (mem (pos + 1)).toNat
  let b₃ := (mem (pos + 2)).toNat
  if b₁ < 128 then some (b₁, 1)
  else if b₂ < 128 then some (b₁ % 128 + b₂ * 128, 2)
  else if b₃ < 128 then some (b₁ % 128 + b₂ % 128 * 128 + b₃ * 16384, 3)
  else none

theorem lengthField_bounds {mem : Mem} {pos len k : ℕ} (h : lengthField mem pos = some (len, k)) :
    1 ≤ k ∧ k ≤ 3 ∧ len ≤ 2097151 := by
  unfold lengthField at h
  simp only at h
  split_ifs at h <;> cases h <;> omega

/-- The field depends on its own bytes only. -/
theorem lengthField_congr {mem mem' : Mem} {pos len k : ℕ}
    (h : lengthField mem pos = some (len, k)) (hm : ∀ i, pos ≤ i → i < pos + k → mem' i = mem i) :
    lengthField mem' pos = some (len, k) := by
  have hk := lengthField_bounds h
  have h₁ := hm pos le_rfl (by omega)
  unfold lengthField at h ⊢
  simp only [h₁] at h ⊢
  split_ifs at h with c₁ c₂ c₃
  · rw [if_pos c₁, h]
  · cases h
    rw [hm (pos + 1) (by omega) (by omega), if_neg c₁, if_pos c₂]
  · cases h
    rw [hm (pos + 1) (by omega) (by omega), hm (pos + 2) (by omega) (by omega), if_neg c₁,
      if_neg c₂, if_pos c₃]

theorem and_127 (b : UInt8) : (b &&& 127).toNat = b.toNat % 128 :=
  forall_byte (p := fun b => (b &&& 127).toNat = b.toNat % 128) (by decide +kernel) b

theorem and_128_ne_zero (b : UInt8) : b &&& 128 ≠ 0 ↔ 128 ≤ b.toNat :=
  forall_byte (p := fun b => b &&& 128 ≠ 0 ↔ 128 ≤ b.toNat) (by decide +kernel) b

/-- One round of the loop that reads a byte and does not throw. -/
theorem decodeLengthLoop_succ {n rounds bytesRead len multiplier : ℕ} {mem : Mem} {pos : ℕ}
    (hn : bytesRead < n) (hm : multiplier ≤ 16384) (hp : pos < addressSpace) :
    decodeLengthLoop n (rounds + 1) bytesRead len multiplier mem pos =
      if (mem pos).toNat < 128 then
        .ok (UInt64.ofNat (len + (mem pos).toNat % 128 * multiplier), pos + 1)
      else
        decodeLengthLoop n rounds (bytesRead + 1) (len + (mem pos).toNat % 128 * multiplier)
          (multiplier * 128) mem (pos + 1) := by
  have hpeek : peek Fault.wildPointer mem pos = .ok (mem pos, pos) := by
    rw [peek_apply, if_pos hp]
  rw [decodeLengthLoop, if_neg (by omega), bind_ok hpeek]
  simp only [and_127]
  rw [if_neg (by omega), bind_ok (skip_apply 1 mem pos)]
  by_cases hb : (mem pos).toNat < 128
  · rw [if_pos hb, if_neg (by rw [and_128_ne_zero]; omega)]
    rfl
  · rw [if_neg hb, if_pos (by rw [and_128_ne_zero]; omega)]

theorem decodeLengthLoop_short {n rounds bytesRead len multiplier : ℕ} {mem : Mem} {pos : ℕ}
    (hn : n ≤ bytesRead) :
    decodeLengthLoop n (rounds + 1) bytesRead len multiplier mem pos = .ok (0 - 1, pos) := by
  rw [decodeLengthLoop, if_pos hn]
  rfl

/-- **`decodeLength` on every input.** -/
theorem decodeLength_eq (n : ℕ) (mem : Mem) {pos : ℕ} (hp : pos + 4 ≤ addressSpace) :
    decodeLength n mem pos =
      match lengthField mem pos with
      | some (len, k) => if k ≤ n then .ok (UInt64.ofNat len, pos + k) else .ok (0 - 1, pos + n)
      | none =>
        if n ≤ 3 then .ok (0 - 1, pos + n)
        else .error (.runtimeError "Malformed Remaining Length!!") := by
  unfold decodeLength lengthField
  simp only
  -- byte by byte: the bytes run out, or this one closes the field, or the next one is looked at
  rcases Nat.eq_zero_or_pos n with rfl | h₀
  · rw [decodeLengthLoop_short le_rfl]
    split_ifs <;> first | rfl | omega
  rw [decodeLengthLoop_succ h₀ (by norm_num) (by omega)]
  by_cases c₁ : (mem pos).toNat < 128
  · rw [if_pos c₁, if_pos c₁]
    simp only
    rw [if_pos (by omega), Nat.mod_eq_of_lt c₁]
    simp
  rw [if_neg c₁, if_neg c₁]
  rcases Nat.eq_or_lt_of_le h₀ with rfl | h₁
  · rw [decodeLengthLoop_short le_rfl]
    split_ifs <;> first | rfl | omega
  rw [decodeLengthLoop_succ h₁ (by norm_num) (by omega)]
  by_cases c₂ : (mem (pos + 1)).toNat < 128
  · rw [if_pos c₂, if_pos c₂]
    simp only
    rw [if_pos (by omega), Nat.mod_eq_of_lt c₂]
    simp
  rw [if_neg c₂, if_neg c₂]
  rcases Nat.eq_or_lt_of_le h₁ with rfl | h₂
  · rw [decodeLengthLoop_short le_rfl]
    split_ifs <;> first | rfl | omega
  rw [decodeLengthLoop_succ h₂ (by norm_num) (by omega)]
  rw [show pos + 1 + 1 = pos + 2 by omega]
  by_cases c₃ : (mem (pos + 2)).toNat < 128
  · rw [if_pos c₃, if_pos c₃]
    simp only
    rw [if_pos (by omega), Nat.mod_eq_of_lt c₃]
    simp
  rw [if_neg c₃, if_neg c₃]
  simp only
  rcases Nat.eq_or_lt_of_le h₂ with rfl | h₃
  · rw [decodeLengthLoop_short le_rfl]
    rfl
  -- the fourth byte is looked at and then rejected, whatever it is
  have hpeek : peek Fault.wildPointer mem (pos + 2 + 1) = .ok (mem (pos + 2 + 1), pos + 2 + 1) := by
    rw [peek_apply, if_pos (by omega)]
  rw [if_neg (by omega), decodeLengthLoop, if_neg (by omega), bind_ok hpeek]
  rfl

theorem toInt_minusOne : toInt (((0 - 1 : UInt64)).toNat : ℤ) = -1 := by decide

theorem toInt_length {len : ℕ} (h : len ≤ 2097151) :
    toInt ((UInt64.ofNat len).toNat : ℤ) = len := by
  rw [UInt64.toNat_ofNat', Nat.mod_eq_of_lt (by omega)]
  exact toInt_of_range (by omega) (by omega)

/-- **`isPartial` on every input.** -/
theorem isPartial_eq (n : ℕ) (mem : Mem) {pos : ℕ} (hp : pos + 4 ≤ addressSpace) :
    isPartial n mem pos =
      if n ≤ 1 then .ok ((true, 0), pos)
      else
        match lengthField mem pos with
        | some (len, k) =>
          if k ≤ n then .ok ((decide (n < 1 + k + len), (len : ℤ)), pos + k)
          else .ok ((true, -1), pos + n)
        | none =>
          if n ≤ 3 then .ok ((true, -1), pos + n)
          else .error (.runtimeError "Malformed Remaining Length!!") := by
  unfold isPartial
  rw [bind_ok (cursor_apply mem pos)]
  by_cases h₁ : n ≤ 1
  · rw [if_pos h₁, if_pos h₁]
    rfl
  rw [if_neg h₁, if_neg h₁]
  have hd := decodeLength_eq n mem hp
  cases hf : lengthField mem pos with
  | none =>
    -- no byte of the field closes it: an end of the input is found before, or an exception thrown
    rw [hf] at hd
    simp only at hd ⊢
    by_cases h₃ : n ≤ 3
    · rw [if_pos h₃] at hd ⊢
      rw [bind_ok hd, toInt_minusOne]
      rfl
    · rw [if_neg h₃] at hd ⊢
      rw [bind_error hd]
  | some x =>
    obtain ⟨len, k⟩ := x
    obtain ⟨hk, -, hlen⟩ := lengthField_bounds hf
    rw [hf] at hd
    simp only at hd ⊢
    by_cases hkn : k ≤ n
    · rw [if_pos hkn] at hd ⊢
      rw [bind_ok hd, toInt_length hlen, if_neg (by omega), bind_ok (cursor_apply mem _),
        Nat.add_sub_cancel_left]
      by_cases hc : n < 1 + k + len
      · rw [if_pos (by omega), decide_eq_true hc]
        rfl
      · rw [if_neg (by omega), decide_eq_false hc]
        rfl
    · rw [if_neg hkn] at hd ⊢
      rw [bind_ok hd, toInt_minusOne]
      rfl

/-- A complete frame of `n` available bytes: the Remaining Length is `len`, its field has `k`
bytes, and nothing of the announced rest is missing. -/
def Complete (mem : Mem) (n len k : ℕ) : Prop :=
  lengthField mem 1 = some (len, k) ∧ 1 + k + len ≤ n

theorem Complete.bounds {mem : Mem} {n len k : ℕ} (h : Complete mem n len k) :
    1 ≤ k ∧ k ≤ 3 ∧ len ≤ 2097151 :=
  lengthField_bounds h.1

theorem Complete.unique {mem : Mem} {n n' len len' k k' : ℕ} (h : Complete mem n len k)
    (h' : Complete mem n' len' k') : len = len' ∧ k = k' := by
  have := h.1.symm.trans h'.1
  simpa using this

theorem Complete.congr {mem mem' : Mem} {n n' len k : ℕ} (h : Complete mem n len k)
    (hm : ∀ i < 1 + k + len, mem' i = mem i) (hn : 1 + k + len ≤ n') :
    Complete mem' n' len k :=
  ⟨lengthField_congr h.1 fun i _ hi => hm i (by omega), hn⟩

/-- Where `isPartial` leaves the cursor on an incomplete frame.  A field that is cut off is read one
byte beyond the available ones, and one of more than three bytes throws. -/
def incompleteCursor (mem : Mem) (n : ℕ) : Except Fault ℕ :=
  if n ≤ 1 then .ok 1
  else
    match lengthField mem 1 with
    | some (_, k) => .ok (1 + min k n)
    | none => if n ≤ 3 then .ok (1 + n) else .error (.runtimeError "Malformed Remaining Length!!")

section Framed

variable {packet : Packet} {fields : ℤ → Packet → Decoder (ℤ × Packet)} {mem : Mem} {n len k : ℕ}

/-- On a complete frame an unpacker runs its fields. -/
theorem framed_complete (h : Complete mem n len k) :
    framed packet n fields mem 1 =
      fields len { packet with pktLen := 1 + k + len } mem (1 + k) := by
  obtain ⟨hk, -, -⟩ := h.bounds
  have hi := isPartial_eq n mem (show 1 + 4 ≤ addressSpace by decide)
  have hlen := h.2
  rw [h.1, if_neg (by omega)] at hi
  simp only at hi
  rw [if_pos (by omega), decide_eq_false (by omega)] at hi
  unfold framed
  rw [bind_ok (cursor_apply mem 1), bind_ok hi]
  simp only [Bool.false_eq_true, if_false]
  rw [bind_ok (cursor_apply mem _)]
  have : packetLen (1 + k - 1) (len : ℤ) = 1 + k + len := by
    unfold packetLen
    omega
  simp only [this]

/-- On an incomplete frame an unpacker asks for more, or `decodeLength` has thrown. -/
theorem framed_incomplete (h : ∀ len k, ¬ Complete mem n len k) :
    framed packet n fields mem 1 =
      (incompleteCursor mem n).map fun q => ((mqttPartialPacket, packet), q) := by
  have hi := isPartial_eq n mem (show 1 + 4 ≤ addressSpace by decide)
  unfold framed incompleteCursor
  rw [bind_ok (cursor_apply mem 1)]
  by_cases h₁ : n ≤ 1
  · rw [if_pos h₁] at hi ⊢
    rw [bind_ok hi]
    rfl
  rw [if_neg h₁] at hi ⊢
  cases hf : lengthField mem 1 with
  | none =>
    rw [hf] at hi
    simp only at hi ⊢
    by_cases h₃ : n ≤ 3
    · rw [if_pos h₃] at hi ⊢
      rw [bind_ok hi]
      rfl
    · rw [if_neg h₃] at hi ⊢
      rw [bind_error hi]
      rfl
  | some x =>
    obtain ⟨len, k⟩ := x
    rw [hf] at hi
    simp only at hi ⊢
    by_cases hkn : k ≤ n
    · have hc : n < 1 + k + len := by
        by_contra hc
        exact h len k ⟨hf, by omega⟩
      rw [if_pos hkn, decide_eq_true hc] at hi
      rw [Nat.min_eq_left hkn, bind_ok hi]
      rfl
    · rw [if_neg hkn] at hi
      rw [Nat.min_eq_right (by omega), bind_ok hi]
      rfl

end Framed

end Culex
