import Culex.Frame
import Culex.Lib.Tracing

/-!
# Where a frame is cut off

`isPartial` decides whether a whole packet has arrived.  `tracedIsPartial` is the same function on
readers that list what they read (`erase_tracedIsPartial`), and `partialExact_iff` says on which
inputs it stays within the available bytes and tells a whole frame from one that is cut off:

* `fieldAt`: the Remaining Length field, of at most four bytes, apart from how it is decoded;
* `mem_reads_decodeLengthLoop`: the addresses that the loop reads, by induction on its rounds;
* `CutInField`: the frames that are cut off inside the field, where one byte too many is read;
  elsewhere what lies behind the available bytes makes no difference (`isPartial_congr`).
-/

namespace Culex

open ByteReader Traced

/-! ### With the addresses -/

/-- `decodeLengthLoop`, with the addresses it reads. -/
def tracedDecodeLengthLoop (availableBytes : ℕ) : ℕ → ℕ → ℕ → ℕ → Traced Fault UInt64
  | 0, _, _, _ => quiet (fail (.runtimeError "Malformed Remaining Length!!"))
  | rounds + 1, bytesRead, len, multiplier =>
    if availableBytes ≤ bytesRead then
      return 0 - 1
    else do
      let nextbyte ← Traced.peek .wildPointer
      let len := len + (nextbyte &&& 127).toNat * multiplier
      let multiplier := multiplier * 128
      if 128 * 128 * 128 < multiplier then
        quiet (fail (.runtimeError "Malformed Remaining Length!!"))
      else do
        quiet (skip 1)
        if nextbyte &&& 128 ≠ 0 then
          tracedDecodeLengthLoop availableBytes rounds (bytesRead + 1) len multiplier
        else
          return UInt64.ofNat len

/-- `decodeLength`, with the addresses it reads. -/
def tracedDecodeLength (availableBytes : ℕ) : Traced Fault UInt64 :=
  tracedDecodeLengthLoop availableBytes 4 0 0 1

/-- `isPartial`, with the addresses it reads. -/
def tracedIsPartial (availableBytes : ℕ) : Traced Fault (Bool × ℤ) := do
  let start ← quiet cursor
  if availableBytes ≤ 1 then
    return (true, 0)
  else
    let len ← tracedDecodeLength availableBytes
    let remainingLen := toInt len.toNat
    if remainingLen < 0 then
      return (true, remainingLen)
    else
      let buff ← quiet cursor
      let lengthOfRemainingLen := buff - start
      if (availableBytes : ℤ) < 1 + lengthOfRemainingLen + remainingLen then
        return (true, remainingLen)
      else
        return (false, remainingLen)

theorem erase_tracedDecodeLengthLoop (n rounds bytesRead len multiplier : ℕ) :
    erase (tracedDecodeLengthLoop n rounds bytesRead len multiplier) =
      decodeLengthLoop n rounds bytesRead len multiplier := by
  induction rounds generalizing bytesRead len multiplier with
  | zero => rfl
  | succ rounds ih =>
    unfold tracedDecodeLengthLoop decodeLengthLoop
    simp only [erase_ite, erase_bind, erase_pure, erase_quiet, erase_peek, ih]

/-- **The two are the same function.** -/
theorem erase_tracedIsPartial (n : ℕ) : erase (tracedIsPartial n) = isPartial n := by
  unfold tracedIsPartial isPartial tracedDecodeLength decodeLength
  simp only [erase_ite, erase_bind, erase_pure, erase_quiet, erase_tracedDecodeLengthLoop]

theorem honest_tracedDecodeLengthLoop (n rounds bytesRead len multiplier : ℕ) :
    Honest (tracedDecodeLengthLoop n rounds bytesRead len multiplier) := by
  induction rounds generalizing bytesRead len multiplier with
  | zero => exact honest_quiet fun _ _ _ => rfl
  | succ rounds ih =>
    unfold tracedDecodeLengthLoop
    refine honest_ite (honest_pure _) (honest_bind (honest_peek _) fun nextbyte => ?_)
    refine honest_ite (honest_quiet fun _ _ _ => rfl) ?_
    refine honest_bind (honest_quiet fun _ _ _ => rfl) fun _ => ?_
    exact honest_ite (ih _ _ _) (honest_pure _)

/-- No byte is looked at but those listed. -/
theorem honest_tracedIsPartial (n : ℕ) : Honest (tracedIsPartial n) := by
  unfold tracedIsPartial
  refine honest_bind (honest_quiet fun _ _ _ => rfl) fun start => ?_
  refine honest_ite (honest_pure _) (honest_bind (honest_tracedDecodeLengthLoop _ _ _ _ _) ?_)
  intro len
  refine honest_ite (honest_pure _) ?_
  refine honest_bind (honest_quiet fun _ _ _ => rfl) fun buff => ?_
  exact honest_ite (honest_pure _) (honest_pure _)

/-! ### What is read -/

section Reads

variable {n rounds bytesRead len multiplier : ℕ} {mem : Mem} {pos : ℕ}

theorem reads_decodeLengthLoop_short (hn : n ≤ bytesRead) :
    reads (tracedDecodeLengthLoop n rounds bytesRead len multiplier) mem pos = [] := by
  cases rounds with
  | zero => rfl
  | succ rounds =>
    unfold tracedDecodeLengthLoop
    rw [if_pos hn]
    rfl

/-- A round that reads a byte: the byte is the last one, or is continued. -/
theorem reads_decodeLengthLoop_succ (hn : bytesRead < n) (hm : multiplier ≤ 16384)
    (hp : pos < addressSpace) :
    reads (tracedDecodeLengthLoop n (rounds + 1) bytesRead len multiplier) mem pos =
      pos :: if (mem pos).toNat < 128 then []
        else reads (tracedDecodeLengthLoop n rounds (bytesRead + 1)
          (len + (mem pos).toNat % 128 * multiplier) (multiplier * 128)) mem (pos + 1) := by
  have hpeek : erase (Traced.peek Fault.wildPointer) mem pos = .ok (mem pos, pos) := by
    rw [erase_peek, peek_apply, if_pos hp]
  have hskip : erase (quiet (skip 1) : Traced Fault Unit) mem pos = .ok ((), pos + 1) := rfl
  rw [tracedDecodeLengthLoop, if_neg (by omega), reads_bind_ok hpeek, reads_peek hp]
  simp only [and_127]
  rw [if_neg (by omega), reads_bind_ok hskip, reads_quiet]
  by_cases hb : (mem pos).toNat < 128
  · rw [if_pos hb, if_neg (by rw [and_128_ne_zero]; omega)]
    rfl
  · rw [if_neg hb, if_pos (by rw [and_128_ne_zero]; omega)]
    rfl

/-- The last round throws once it has read its byte. -/
theorem reads_decodeLengthLoop_heavy (hn : bytesRead < n) (hm : 16384 < multiplier)
    (hp : pos < addressSpace) :
    reads (tracedDecodeLengthLoop n (rounds + 1) bytesRead len multiplier) mem pos = [pos] := by
  have hpeek : erase (Traced.peek Fault.wildPointer) mem pos = .ok (mem pos, pos) := by
    rw [erase_peek, peek_apply, if_pos hp]
  rw [tracedDecodeLengthLoop, if_neg (by omega), reads_bind_ok hpeek, reads_peek hp,
    if_pos (by omega)]
  rfl

/-- **The addresses that the loop reads**: one a round, as long as the bytes before are continued
and are counted as available. -/
theorem mem_reads_decodeLengthLoop (hrounds : rounds + bytesRead = 4)
    (hm : multiplier = 128 ^ bytesRead) (hp : pos + rounds ≤ addressSpace) (i : ℕ) :
    i ∈ reads (tracedDecodeLengthLoop n rounds bytesRead len multiplier) mem pos ↔
      pos ≤ i ∧ i < pos + rounds ∧ bytesRead + (i - pos) < n ∧
        ∀ j, pos ≤ j → j < i → 128 ≤ (mem j).toNat := by
  induction rounds generalizing bytesRead len multiplier pos with
  | zero =>
    refine iff_of_false ?_ fun h => by omega
    exact List.not_mem_nil
  | succ rounds ih =>
    by_cases hn : n ≤ bytesRead
    · rw [reads_decodeLengthLoop_short hn]
      exact iff_of_false List.not_mem_nil fun h => by omega
    have hn : bytesRead < n := not_le.1 hn
    cases rounds with
    | zero =>
      -- the fourth byte is looked at and then rejected, whatever it is
      obtain rfl : bytesRead = 3 := by omega
      rw [reads_decodeLengthLoop_heavy hn (by omega) (by omega), List.mem_singleton]
      constructor
      · rintro rfl
        exact ⟨le_refl _, by omega, by omega, fun j hj hj' => by omega⟩
      · rintro ⟨hle, hlt, -, -⟩
        omega
    | succ rounds =>
      have hweight : multiplier ≤ 16384 := by
        rw [hm]
        exact Nat.pow_le_pow_right (by norm_num) (show bytesRead ≤ 2 by omega)
      have hm' : multiplier * 128 = 128 ^ (bytesRead + 1) := by rw [hm, pow_succ]
      rw [reads_decodeLengthLoop_succ hn hweight (by omega), List.mem_cons]
      by_cases hb : (mem pos).toNat < 128
      · rw [if_pos hb, or_iff_left List.not_mem_nil]
        constructor
        · rintro rfl
          exact ⟨le_refl _, by omega, by omega, fun j hj hj' => by omega⟩
        · rintro ⟨hle, -, -, hcont⟩
          by_contra hne
          have hpos := hcont pos (le_refl _) (by omega)
          omega
      · rw [if_neg hb, ih (by omega) hm' (by omega)]
        constructor
        · rintro (rfl | ⟨hle, hlt, hav, hcont⟩)
          · exact ⟨le_refl _, by omega, by omega, fun j hj hj' => by omega⟩
          · refine ⟨by omega, by omega, by omega, fun j hj hj' => ?_⟩
            rcases Nat.eq_or_lt_of_le hj with rfl | hj
            · omega
            · exact hcont j (by omega) hj'
        · rintro ⟨hle, hlt, hav, hcont⟩
          rcases Nat.eq_or_lt_of_le hle with rfl | hle
          · exact .inl rfl
          · exact .inr ⟨by omega, by omega, by omega, fun j hj hj' => hcont j (by omega) hj'⟩

/-- The addresses that `isPartial` reads. -/
theorem mem_reads_isPartial (i : ℕ) :
    i ∈ reads (tracedIsPartial n) mem 1 ↔
      2 ≤ n ∧ 1 ≤ i ∧ i ≤ 4 ∧ i ≤ n ∧ ∀ j, 1 ≤ j → j < i → 128 ≤ (mem j).toNat := by
  have hstart : erase (quiet cursor : Traced Fault ℕ) mem 1 = .ok (1, 1) := rfl
  unfold tracedIsPartial
  rw [reads_bind_ok hstart, reads_quiet, List.nil_append]
  by_cases hn : n ≤ 1
  · rw [if_pos hn]
    exact iff_of_false List.not_mem_nil fun h => by omega
  · rw [if_neg hn, reads_bind_of_quiet, tracedDecodeLength,
      mem_reads_decodeLengthLoop (by norm_num) (by norm_num) (by decide)]
    · constructor
      · rintro ⟨hle, hlt, hav, hcont⟩
        exact ⟨by omega, hle, by omega, by omega, hcont⟩
      · rintro ⟨-, hle, hlt, hav, hcont⟩
        exact ⟨hle, by omega, by omega, hcont⟩
    · -- what follows the field is arithmetic
      intro len mem pos
      simp only
      split_ifs
      · rfl
      · rw [reads_bind_of_quiet, reads_quiet]
        intro buff mem pos
        split_ifs <;> rfl

end Reads

/-! ### The field -/

/-- The value and the size of the Remaining Length field at `pos`, if it has at most so many
bytes. -/
def fieldAt (mem : Mem) : ℕ → ℕ → Option (ℕ × ℕ)
  | 0, _ => none
  | bytes + 1, pos =>
    let b := (mem pos).toNat
    if b < 128 then some (b, 1)
    else (fieldAt mem bytes (pos + 1)).map fun (value, size) => (b - 128 + 128 * value, size + 1)

theorem fieldAt_three (mem : Mem) (pos : ℕ) : fieldAt mem 3 pos = lengthField mem pos := by
  have h₁ := (mem pos).toNat_lt
  have h₂ := (mem (pos + 1)).toNat_lt
  unfold lengthField
  simp only [fieldAt, Nat.add_assoc, Nat.reduceAdd]
  split_ifs <;> simp <;> omega

theorem fieldAt_succ_of_some {mem : Mem} {bytes pos value size : ℕ}
    (h : fieldAt mem bytes pos = some (value, size)) :
    fieldAt mem (bytes + 1) pos = some (value, size) := by
  induction bytes generalizing pos value size with
  | zero => cases h
  | succ bytes ih =>
    rw [fieldAt] at h ⊢
    split_ifs at h ⊢ with hb
    · exact h
    · obtain ⟨⟨value', size'⟩, hrest, he⟩ := Option.map_eq_some_iff.1 h
      rw [ih hrest, Option.map_some, he]

/-- A field is found with a byte less, or needs them all. -/
theorem fieldAt_succ {mem : Mem} {bytes pos value size : ℕ}
    (h : fieldAt mem (bytes + 1) pos = some (value, size)) :
    fieldAt mem bytes pos = some (value, size) ∨
      fieldAt mem bytes pos = none ∧ size = bytes + 1 := by
  induction bytes generalizing pos value size with
  | zero =>
    rw [fieldAt] at h
    split_ifs at h
    · exact .inr ⟨rfl, (congrArg Prod.snd (Option.some.inj h)).symm⟩
    · cases h
  | succ bytes ih =>
    rw [fieldAt] at h ⊢
    split_ifs at h ⊢ with hb
    · exact .inl h
    · obtain ⟨⟨value', size'⟩, hrest, he⟩ := Option.map_eq_some_iff.1 h
      rcases ih hrest with hsome | ⟨hnone, hsize⟩
      · exact .inl (by rw [hsome, Option.map_some, he])
      · have hsize' : size' + 1 = size := congrArg Prod.snd he
        exact .inr ⟨by rw [hnone, Option.map_none], by omega⟩

/-! ### Whole frames and frames that are cut off -/

/-- What is asked of `isPartial`: it stays within the available bytes, and it says that nothing is
missing just where a field of at most four bytes and all that the field announces are available. -/
structure PartialExact (mem : Mem) (n : ℕ) : Prop where
  inBounds : ∀ i ∈ reads (tracedIsPartial n) mem 1, i < n
  exact : ∀ (len : ℤ) (cursor : ℕ), isPartial n mem 1 = .ok ((false, len), cursor) ↔
    ∃ value size : ℕ, fieldAt mem 4 1 = some (value, size) ∧ 1 + size + value ≤ n ∧
      len = value ∧ cursor = 1 + size

/-- The available bytes end inside the field, after one byte of it at least and three at most. -/
def CutInField (mem : Mem) (n : ℕ) : Prop :=
  2 ≤ n ∧ n ≤ 4 ∧ ∀ i, 1 ≤ i → i < n → 128 ≤ (mem i).toNat

/-- The whole frame is there, and its field has four bytes. -/
def LongFrame (mem : Mem) (n : ℕ) : Prop :=
  ∃ value, fieldAt mem 4 1 = some (value, 4) ∧ 5 + value ≤ n

/-- Four bytes of a field that announces nothing. -/
example : LongFrame (holding [0x30, 0x80, 0x80, 0x80, 0] fun _ => 0) 5 :=
  ⟨0, by decide, by decide⟩

variable {mem mem' : Mem} {n : ℕ}

/-- The byte behind the available ones is read if and only if these end inside the field. -/
theorem inBounds_iff : (∀ i ∈ reads (tracedIsPartial n) mem 1, i < n) ↔ ¬ CutInField mem n := by
  constructor
  · rintro h ⟨h2, h4, hcont⟩
    have hlt := h n (mem_reads_isPartial n |>.2 ⟨h2, by omega, h4, le_refl n, hcont⟩)
    omega
  · intro h i hi
    obtain ⟨h2, h1, h4, hle, hcont⟩ := (mem_reads_isPartial i).1 hi
    rcases Nat.eq_or_lt_of_le hle with rfl | hlt
    · exact absurd ⟨h2, h4, hcont⟩ h
    · exact hlt

/-- Otherwise what lies behind the available bytes makes no difference. -/
theorem isPartial_congr (h : ¬ CutInField mem n) (hm : ∀ i < n, mem' i = mem i) :
    isPartial n mem' 1 = isPartial n mem 1 := by
  rw [← erase_tracedIsPartial]
  have hsame := honest_tracedIsPartial n mem mem' 1 fun i hi => hm i (inBounds_iff.2 h i hi)
  exact congrArg Prod.snd hsame

/-- `isPartial` finds the whole frames with a field of at most three bytes. -/
theorem isPartial_eq_false_iff (len : ℤ) (cursor : ℕ) :
    isPartial n mem 1 = .ok ((false, len), cursor) ↔
      ∃ value size : ℕ, fieldAt mem 3 1 = some (value, size) ∧ 1 + size + value ≤ n ∧
        len = value ∧ cursor = 1 + size := by
  have heq := isPartial_eq n mem (show 1 + 4 ≤ addressSpace by decide)
  rw [fieldAt_three]
  constructor
  · intro h
    rw [heq] at h
    by_cases h1 : n ≤ 1
    · rw [if_pos h1] at h
      cases h
    rw [if_neg h1] at h
    cases hf : lengthField mem 1 with
    | none =>
      simp only [hf] at h
      split_ifs at h
      cases h
    | some x =>
      obtain ⟨value, size⟩ := x
      simp only [hf] at h
      split_ifs at h with hk
      · have hinj := Except.ok.inj h
        simp only [Prod.mk.injEq, decide_eq_false_iff_not] at hinj
        obtain ⟨⟨hle, rfl⟩, rfl⟩ := hinj
        exact ⟨value, size, rfl, by omega, rfl, rfl⟩
      · cases h
  · rintro ⟨value, size, hf, hle, rfl, rfl⟩
    obtain ⟨hk, -, -⟩ := lengthField_bounds hf
    rw [heq, if_neg (by omega), hf]
    simp only
    rw [if_pos (by omega), decide_eq_false (by omega)]

/-- **When `isPartial` is exact and in bounds**: unless the available bytes end inside the field, or
a whole frame has a field of four bytes. -/
theorem partialExact_iff (mem : Mem) (n : ℕ) :
    PartialExact mem n ↔ ¬ CutInField mem n ∧ ¬ LongFrame mem n := by
  constructor
  · intro h
    refine ⟨inBounds_iff.1 h.inBounds, ?_⟩
    rintro ⟨value, hf, hle⟩
    -- the frame is whole, and `isPartial` does not say so
    have hfalse := (h.exact value 5).2 ⟨value, 4, hf, by omega, rfl, rfl⟩
    obtain ⟨value', size, hf', -, -, hcursor⟩ := (isPartial_eq_false_iff _ _).1 hfalse
    rw [fieldAt_three] at hf'
    have hsize := lengthField_bounds hf'
    omega
  · rintro ⟨hcut, hlong⟩
    refine ⟨inBounds_iff.2 hcut, fun len cursor => ?_⟩
    rw [isPartial_eq_false_iff]
    constructor
    · rintro ⟨value, size, hf, hrest⟩
      exact ⟨value, size, fieldAt_succ_of_some hf, hrest⟩
    · rintro ⟨value, size, hf, hle, hlen, hcursor⟩
      rcases fieldAt_succ hf with hf' | ⟨-, rfl⟩
      · exact ⟨value, size, hf', hle, hlen, hcursor⟩
      · exact absurd ⟨value, hf, by omega⟩ hlong

/-- The header of a PUBLISH and one continued byte are available: the next byte is read. -/
theorem not_partialExact_cut : ¬ ∀ (mem : Mem) (n : ℕ), PartialExact mem n := by
  intro h
  have hcut : CutInField (holding [0x30, 0x80] fun _ => 0) 2 := by
    refine ⟨le_refl 2, by norm_num, fun i h1 h2 => ?_⟩
    obtain rfl : i = 1 := by omega
    decide
  have hread := (h (holding [0x30, 0x80] fun _ => 0) 2).inBounds 2
    ((mem_reads_isPartial 2).2 ⟨le_refl 2, by norm_num, by norm_num, le_refl 2, hcut.2.2⟩)
  omega

end Culex
