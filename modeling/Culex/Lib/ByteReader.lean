import Mathlib.Tactic

/-!
# Readers over byte memory

A `Reader` takes bytes at a cursor of an unbounded memory, without being told where the memory
that belongs to it ends.  The only failure of the primitive readers is a cursor that leaves the
address space of a 64-bit pointer.

* `Reader`, its monad, and the big-endian primitives `u8`, `u16`, `bytes`, `string16`;
* `At mem pos l`: the list `l` is stored at `pos`;
* `Spells r S`: the reader `r` succeeds exactly on the spellings `S` describes, which gives at once
  completeness (a spelled value is read), soundness (what is read was spelled) and locality (the
  result depends on the consumed bytes only);
* `Total r k`: the reader succeeds wherever `k` bytes can be addressed, and takes at most `k`;
* `Avoids e r`: the reader never fails with `e`.
-/

namespace ByteReader

/-- Byte memory: the byte at each address. -/
abbrev Mem := ℕ → UInt8

/-- The number of addresses of a 64-bit pointer. -/
def addressSpace : ℕ := 2 ^ 64

/-- A reader with failures in `ε`: from a cursor it fails, or returns a value and the cursor
after the bytes it took. -/
def Reader (ε α : Type) : Type := Mem → ℕ → Except ε (α × ℕ)

variable {ε α β : Type}

instance : Monad (Reader ε) where
  pure a := fun _ pos => .ok (a, pos)
  bind r f := fun mem pos =>
    match r mem pos with
    | .ok (a, pos') => f a mem pos'
    | .error e => .error e

/-- Fail with `e`. -/
def fail (e : ε) : Reader ε α := fun _ _ => .error e

/-- The current cursor. -/
def cursor : Reader ε ℕ := fun _ pos => .ok (pos, pos)

/-- The byte under the cursor; `oob` is the failure of an address no pointer can hold. -/
def peek (oob : ε) : Reader ε UInt8 := fun mem pos =>
  if pos < addressSpace then .ok (mem pos, pos) else .error oob

/-- Advance the cursor. -/
def skip (n : ℕ) : Reader ε Unit := fun _ pos => .ok ((), pos + n)

/-- The `n` bytes stored from `pos` on. -/
def slice (mem : Mem) (pos : ℕ) : ℕ → List UInt8
  | 0 => []
  | n + 1 => mem pos :: slice mem (pos + 1) n

/-- Copy `n` bytes. -/
def bytes (oob : ε) (n : ℕ) : Reader ε (List UInt8) := fun mem pos =>
  if pos + n ≤ addressSpace then .ok (slice mem pos n, pos + n) else .error oob

/-- One byte. -/
def u8 (oob : ε) : Reader ε UInt8 := do
  let b ← peek oob
  skip 1
  return b

/-- A big-endian word. -/
def u16 (oob : ε) : Reader ε UInt16 := do
  let hi ← u8 oob
  let lo ← u8 oob
  return UInt16.ofNat (hi.toNat * 256 + lo.toNat)

/-- A string behind its big-endian 16-bit length. -/
def string16 (oob : ε) : Reader ε (List UInt8) := do
  let n ← u16 oob
  bytes oob n.toNat

/-! ### Runs of readers -/

@[simp] theorem pure_apply (a : α) (mem : Mem) (pos : ℕ) :
    (pure a : Reader ε α) mem pos = .ok (a, pos) := rfl

theorem bind_apply (r : Reader ε α) (f : α → Reader ε β) (mem : Mem) (pos : ℕ) :
    (r >>= f) mem pos =
      match r mem pos with
      | .ok (a, pos') => f a mem pos'
      | .error e => .error e := rfl

theorem bind_ok {r : Reader ε α} {f : α → Reader ε β} {mem : Mem} {pos pos' : ℕ} {a : α}
    (h : r mem pos = .ok (a, pos')) : (r >>= f) mem pos = f a mem pos' := by
  rw [bind_apply, h]

theorem bind_error {r : Reader ε α} {f : α → Reader ε β} {mem : Mem} {pos : ℕ} {e : ε}
    (h : r mem pos = .error e) : (r >>= f) mem pos = .error e := by
  rw [bind_apply, h]

theorem bind_eq_ok {r : Reader ε α} {f : α → Reader ε β} {mem : Mem} {pos q : ℕ} {b : β} :
    (r >>= f) mem pos = .ok (b, q) ↔
      ∃ a pos', r mem pos = .ok (a, pos') ∧ f a mem pos' = .ok (b, q) := by
  rw [bind_apply]
  cases h : r mem pos with
  | error e => simp
  | ok x =>
    obtain ⟨a, pos'⟩ := x
    constructor
    · intro hf
      exact ⟨a, pos', rfl, hf⟩
    · rintro ⟨a', p, he, hf⟩
      cases he
      exact hf

@[simp] theorem fail_apply (e : ε) (mem : Mem) (pos : ℕ) :
    (fail e : Reader ε α) mem pos = .error e := rfl

@[simp] theorem cursor_apply (mem : Mem) (pos : ℕ) :
    (cursor : Reader ε ℕ) mem pos = .ok (pos, pos) := rfl

@[simp] theorem skip_apply (n : ℕ) (mem : Mem) (pos : ℕ) :
    (skip n : Reader ε Unit) mem pos = .ok ((), pos + n) := rfl

theorem peek_apply (oob : ε) (mem : Mem) (pos : ℕ) :
    peek oob mem pos = if pos < addressSpace then .ok (mem pos, pos) else .error oob := rfl

theorem u8_apply (oob : ε) (mem : Mem) (pos : ℕ) :
    u8 oob mem pos = if pos < addressSpace then .ok (mem pos, pos + 1) else .error oob := by
  by_cases h : pos < addressSpace
  · have hp : peek oob mem pos = .ok (mem pos, pos) := by rw [peek_apply, if_pos h]
    rw [if_pos h]
    exact bind_ok hp
  · have hp : peek oob mem pos = .error oob := by rw [peek_apply, if_neg h]
    rw [if_neg h]
    exact bind_error hp

/-! ### Stored lists -/

/-- The list `l` is stored at `pos`. -/
def At (mem : Mem) (pos : ℕ) : List UInt8 → Prop
  | [] => True
  | b :: l => mem pos = b ∧ At mem (pos + 1) l

@[simp] theorem at_nil (mem : Mem) (pos : ℕ) : At mem pos [] := trivial

@[simp] theorem at_cons (mem : Mem) (pos : ℕ) (b : UInt8) (l : List UInt8) :
    At mem pos (b :: l) ↔ mem pos = b ∧ At mem (pos + 1) l := Iff.rfl

theorem at_append (mem : Mem) (pos : ℕ) (l m : List UInt8) :
    At mem pos (l ++ m) ↔ At mem pos l ∧ At mem (pos + l.length) m := by
  induction l generalizing pos with
  | nil => simp
  | cons b l ih =>
    rw [List.cons_append, at_cons, at_cons, ih, List.length_cons, and_assoc,
      show pos + 1 + l.length = pos + (l.length + 1) by omega]

@[simp] theorem length_slice (mem : Mem) (pos n : ℕ) : (slice mem pos n).length = n := by
  induction n generalizing pos with
  | zero => rfl
  | succ n ih => simp [slice, ih]

theorem at_slice (mem : Mem) (pos n : ℕ) : At mem pos (slice mem pos n) := by
  induction n generalizing pos with
  | zero => trivial
  | succ n ih => exact ⟨rfl, ih (pos + 1)⟩

theorem slice_of_at {mem : Mem} {pos : ℕ} {l : List UInt8} (h : At mem pos l) :
    slice mem pos l.length = l := by
  induction l generalizing pos with
  | nil => rfl
  | cons b l ih => rw [List.length_cons, slice, h.1, ih h.2]

theorem at_iff_slice (mem : Mem) (pos : ℕ) (l : List UInt8) :
    At mem pos l ↔ slice mem pos l.length = l :=
  ⟨slice_of_at, fun h => h ▸ at_slice mem pos _⟩

theorem slice_add (mem : Mem) (pos m n : ℕ) :
    slice mem pos (m + n) = slice mem pos m ++ slice mem (pos + m) n := by
  have h : At mem pos (slice mem pos m ++ slice mem (pos + m) n) := by
    rw [at_append, length_slice]
    exact ⟨at_slice _ _ _, at_slice _ _ _⟩
  simpa using slice_of_at h

/-- Equal bytes in the range make equal slices. -/
theorem slice_congr {mem mem' : Mem} {pos n : ℕ}
    (h : ∀ i, pos ≤ i → i < pos + n → mem' i = mem i) : slice mem' pos n = slice mem pos n := by
  induction n generalizing pos with
  | zero => rfl
  | succ n ih =>
    rw [slice, slice, h pos le_rfl (by omega), ih fun i hi hi' => h i (by omega) (by omega)]

theorem at_congr {mem mem' : Mem} {pos : ℕ} {l : List UInt8}
    (h : ∀ i, pos ≤ i → i < pos + l.length → mem' i = mem i) (hl : At mem pos l) :
    At mem' pos l := by
  rw [at_iff_slice] at hl ⊢
  rw [slice_congr h, hl]

/-- The lists stored at the start of a range are the prefixes of its slice. -/
theorem at_iff_slice_append (mem : Mem) (pos n : ℕ) (l : List UInt8) :
    At mem pos l ∧ l.length ≤ n ↔ ∃ rest, slice mem pos n = l ++ rest := by
  constructor
  · rintro ⟨hl, hn⟩
    obtain ⟨d, rfl⟩ := Nat.exists_eq_add_of_le hn
    exact ⟨slice mem (pos + l.length) d, by rw [slice_add, slice_of_at hl]⟩
  · rintro ⟨rest, hs⟩
    have h := at_slice mem pos n
    rw [hs, at_append] at h
    refine ⟨h.1, ?_⟩
    have hlen := congrArg List.length hs
    rw [length_slice, List.length_append] at hlen
    omega

/-- The last byte of a stored list. -/
theorem at_getLast? {mem : Mem} {pos : ℕ} {l : List UInt8} (h : At mem pos l) (hl : l ≠ []) :
    l.getLast? = some (mem (pos + (l.length - 1))) := by
  obtain ⟨init, b, rfl⟩ := List.eq_nil_or_concat' l |>.resolve_left hl
  rw [at_append] at h
  rw [List.getLast?_concat, List.length_append, List.length_singleton, Nat.add_sub_cancel, h.2.1]

/-- Memory that holds `l` from address 0 on, and `beyond` behind it. -/
def holding (l : List UInt8) (beyond : Mem) : Mem := fun i => l.getD i (beyond i)

theorem at_holding (l : List UInt8) (beyond : Mem) : At (holding l beyond) 0 l := by
  rw [at_iff_slice]
  have h : ∀ (m l' : List UInt8), slice (holding (m ++ l') beyond) m.length l'.length = l' := by
    intro m l'
    induction l' generalizing m with
    | nil => rfl
    | cons b l' ih =>
      have := ih (m ++ [b])
      rw [List.append_assoc, List.singleton_append, List.length_append] at this
      rw [List.length_cons, slice]
      refine congrArg₂ _ ?_ this
      simp [holding]
  exact h [] l

/-! ### What a reader accepts -/

/-- `r` reads `a` exactly where some spelling `S a` of it is stored, and stops right after it. -/
def Spells (r : Reader ε α) (S : α → List UInt8 → Prop) : Prop :=
  ∀ mem pos, pos ≤ addressSpace → ∀ a q, r mem pos = .ok (a, q) ↔
    ∃ l, S a l ∧ At mem pos l ∧ q = pos + l.length ∧ q ≤ addressSpace

/-- The spelling of a big-endian word. -/
def be16 (v : UInt16) : List UInt8 := [UInt8.ofNat (v.toNat / 256), UInt8.ofNat (v.toNat % 256)]

/-- The spelling of a string behind its length. -/
def str16 (s : List UInt8) : List UInt8 := be16 (UInt16.ofNat s.length) ++ s

@[simp] theorem length_be16 (v : UInt16) : (be16 v).length = 2 := rfl

@[simp] theorem length_str16 (s : List UInt8) : (str16 s).length = 2 + s.length := by
  simp [str16, Nat.add_comm]

theorem Spells.congr {r : Reader ε α} {S T : α → List UInt8 → Prop} (h : Spells r S)
    (hST : ∀ a l, S a l ↔ T a l) : Spells r T := by
  intro mem pos hp a q
  rw [h mem pos hp a q]
  simp only [hST]

theorem spells_pure (a : α) : Spells (pure a : Reader ε α) fun b l => b = a ∧ l = [] := by
  intro mem pos hp b q
  rw [pure_apply]
  constructor
  · intro h
    cases h
    exact ⟨[], ⟨rfl, rfl⟩, trivial, rfl, hp⟩
  · rintro ⟨l, ⟨rfl, rfl⟩, -, rfl, -⟩
    rfl

theorem spells_fail (e : ε) : Spells (fail e : Reader ε α) fun _ _ => False := by
  intro mem pos _ b q
  simp

theorem spells_bind {r : Reader ε α} {f : α → Reader ε β} {S : α → List UInt8 → Prop}
    {T : α → β → List UInt8 → Prop} (hr : Spells r S) (hf : ∀ a, Spells (f a) (T a)) :
    Spells (r >>= f) fun b l => ∃ a l₁ l₂, S a l₁ ∧ T a b l₂ ∧ l = l₁ ++ l₂ := by
  intro mem pos hp b q
  rw [bind_eq_ok]
  constructor
  · rintro ⟨a, p, ha, hb⟩
    obtain ⟨l₁, hS, h₁, rfl, hp'⟩ := (hr mem pos hp a p).1 ha
    obtain ⟨l₂, hT, h₂, rfl, hq⟩ := (hf a mem _ hp' b q).1 hb
    refine ⟨l₁ ++ l₂, ⟨a, l₁, l₂, hS, hT, rfl⟩, (at_append _ _ _ _).2 ⟨h₁, h₂⟩, ?_, hq⟩
    rw [List.length_append, Nat.add_assoc]
  · rintro ⟨l, ⟨a, l₁, l₂, hS, hT, rfl⟩, hl, rfl, hq⟩
    rw [List.length_append] at hq
    obtain ⟨h₁, h₂⟩ := (at_append _ _ _ _).1 hl
    have hp' : pos + l₁.length ≤ addressSpace := by omega
    refine ⟨a, pos + l₁.length, (hr mem pos hp a _).2 ⟨l₁, hS, h₁, rfl, hp'⟩, ?_⟩
    refine (hf a mem _ hp' b _).2 ⟨l₂, hT, h₂, ?_, ?_⟩
    · rw [List.length_append, Nat.add_assoc]
    · rw [List.length_append]; exact hq

theorem spells_ite {p : Prop} [Decidable p] {r s : Reader ε α} {S T : α → List UInt8 → Prop}
    (hr : Spells r S) (hs : Spells s T) :
    Spells (if p then r else s) fun a l => if p then S a l else T a l := by
  by_cases h : p
  · simpa only [if_pos h] using hr
  · simpa only [if_neg h] using hs

theorem spells_u8 (oob : ε) : Spells (u8 oob) fun b l => l = [b] := by
  intro mem pos hp b q
  rw [u8_apply]
  constructor
  · intro h
    split_ifs at h with hlt
    cases h
    exact ⟨[mem pos], rfl, ⟨rfl, trivial⟩, rfl, hlt⟩
  · rintro ⟨l, rfl, ⟨rfl, -⟩, rfl, hq⟩
    rw [if_pos (by simpa using hq)]
    rfl

theorem spells_bytes (oob : ε) (n : ℕ) :
    Spells (bytes oob n) fun s l => s.length = n ∧ l = s := by
  intro mem pos hp s q
  unfold bytes
  constructor
  · intro h
    split_ifs at h with hle
    cases h
    exact ⟨_, ⟨length_slice _ _ _, rfl⟩, at_slice _ _ _, by rw [length_slice], hle⟩
  · rintro ⟨l, ⟨rfl, rfl⟩, hl, rfl, hq⟩
    rw [if_pos hq, slice_of_at hl]

theorem be16_eq_iff (a b : UInt8) (v : UInt16) :
    be16 v = [a, b] ↔ v = UInt16.ofNat (a.toNat * 256 + b.toNat) := by
  have ha := a.toNat_lt
  have hb := b.toNat_lt
  have hv := v.toNat_lt
  simp only [be16, List.cons.injEq, and_true, ← UInt8.toNat_inj, ← UInt16.toNat_inj,
    UInt8.toNat_ofNat', UInt16.toNat_ofNat']
  omega

theorem spells_u16 (oob : ε) : Spells (u16 oob) fun v l => l = be16 v := by
  refine (spells_bind (spells_u8 oob) fun hi =>
    spells_bind (spells_u8 oob) fun lo => spells_pure _).congr fun v l => ?_
  constructor
  · rintro ⟨a, _, _, rfl, ⟨b, _, _, rfl, ⟨hv, rfl⟩, rfl⟩, rfl⟩
    exact ((be16_eq_iff a b v).2 hv).symm
  · rintro rfl
    refine ⟨_, _, _, rfl, ⟨_, _, _, rfl, ⟨?_, rfl⟩, rfl⟩, rfl⟩
    exact (be16_eq_iff _ _ v).1 rfl

theorem spells_string16 (oob : ε) :
    Spells (string16 oob) fun s l => s.length < 65536 ∧ l = str16 s := by
  refine (spells_bind (spells_u16 oob) fun n => spells_bytes oob _).congr fun s l => ?_
  constructor
  · rintro ⟨v, _, _, rfl, ⟨hs, rfl⟩, rfl⟩
    have hv := v.toNat_lt
    refine ⟨by omega, ?_⟩
    rw [str16, hs, UInt16.ofNat_toNat]
  · rintro ⟨hs, rfl⟩
    refine ⟨UInt16.ofNat s.length, _, s, rfl, ⟨?_, rfl⟩, rfl⟩
    rw [UInt16.toNat_ofNat']
    exact (Nat.mod_eq_of_lt hs).symm

/-! ### Readers that cannot fail -/

/-- `r` succeeds wherever `k` bytes can be addressed, and takes at most `k` of them. -/
def Total (r : Reader ε α) (k : ℕ) : Prop :=
  ∀ mem pos, pos + k ≤ addressSpace → ∃ a q, r mem pos = .ok (a, q) ∧ pos ≤ q ∧ q ≤ pos + k

theorem total_pure (a : α) (k : ℕ) : Total (pure a : Reader ε α) k :=
  fun _ pos _ => ⟨a, pos, rfl, le_rfl, Nat.le_add_right _ _⟩

theorem total_bind {r : Reader ε α} {f : α → Reader ε β} {j k : ℕ} (hr : Total r j)
    (hf : ∀ a, Total (f a) k) : Total (r >>= f) (j + k) := by
  intro mem pos hp
  obtain ⟨a, p, ha, hpp, hpj⟩ := hr mem pos (by omega)
  obtain ⟨b, q, hb, hpq, hqk⟩ := hf a mem p (by omega)
  exact ⟨b, q, by rw [bind_ok ha, hb], by omega, by omega⟩

theorem total_u8 (oob : ε) : Total (u8 oob) 1 := by
  intro mem pos hp
  refine ⟨mem pos, pos + 1, ?_, by omega, le_rfl⟩
  exact (spells_u8 oob mem pos (by omega) _ _).2 ⟨_, rfl, ⟨rfl, trivial⟩, rfl, hp⟩

theorem total_u16 (oob : ε) : Total (u16 oob) 2 :=
  total_bind (total_u8 oob) fun _ => total_bind (total_u8 oob) fun _ => total_pure _ 0

theorem total_string16 (oob : ε) : Total (string16 oob) 65537 := by
  refine total_bind (total_u16 oob) (k := 65535) fun n => ?_
  intro mem pos hp
  have hn := n.toNat_lt
  refine ⟨slice mem pos n.toNat, pos + n.toNat, ?_, by omega, by omega⟩
  unfold bytes
  rw [if_pos (by omega)]

theorem Total.mono {r : Reader ε α} {j k : ℕ} (h : Total r j) (hjk : j ≤ k) : Total r k := by
  intro mem pos hp
  obtain ⟨a, q, ha, h1, h2⟩ := h mem pos (by omega)
  exact ⟨a, q, ha, h1, by omega⟩

/-- A total reader finds some spelling wherever it starts. -/
theorem Total.exists_spelling {r : Reader ε α} {k : ℕ} (ht : Total r k)
    {S : α → List UInt8 → Prop} (hS : Spells r S) (mem : Mem) (pos : ℕ)
    (hp : pos + k ≤ addressSpace) : ∃ a l, S a l ∧ At mem pos l ∧ l.length ≤ k := by
  obtain ⟨a, q, ha, h1, h2⟩ := ht mem pos hp
  obtain ⟨l, hl, hat, rfl, -⟩ := (hS mem pos (by omega) a q).1 ha
  exact ⟨a, l, hl, hat, by omega⟩

/-! ### Failures that a reader does not have -/

/-- `r` never fails with `e`. -/
def Avoids (e : ε) (r : Reader ε α) : Prop := ∀ mem pos, r mem pos ≠ .error e

section Avoiding

variable {e oob : ε}

theorem avoids_pure (a : α) : Avoids e (pure a : Reader ε α) := fun _ _ h => (by cases h)

theorem avoids_bind {r : Reader ε α} {f : α → Reader ε β} (hr : Avoids e r)
    (hf : ∀ a, Avoids e (f a)) : Avoids e (r >>= f) := by
  intro mem pos h
  rw [bind_apply] at h
  cases hres : r mem pos with
  | ok result =>
    rw [hres] at h
    exact hf _ _ _ h
  | error e' =>
    rw [hres] at h
    obtain rfl := Except.error.inj h
    exact hr mem pos hres

theorem avoids_fail (h : oob ≠ e) : Avoids e (fail oob : Reader ε α) :=
  fun _ _ he => h (Except.error.inj he)

theorem avoids_cursor : Avoids e (cursor : Reader ε ℕ) := fun _ _ h => (by cases h)

theorem avoids_skip (n : ℕ) : Avoids e (skip n : Reader ε Unit) := fun _ _ h => (by cases h)

theorem avoids_peek (h : oob ≠ e) : Avoids e (peek oob : Reader ε UInt8) := by
  intro mem pos he
  unfold peek at he
  split_ifs at he
  exact h (Except.error.inj he)

theorem avoids_bytes (h : oob ≠ e) (n : ℕ) : Avoids e (bytes oob n : Reader ε (List UInt8)) := by
  intro mem pos he
  unfold bytes at he
  split_ifs at he
  exact h (Except.error.inj he)

theorem avoids_u8 (h : oob ≠ e) : Avoids e (u8 oob : Reader ε UInt8) :=
  avoids_bind (avoids_peek h) fun _ => avoids_bind (avoids_skip 1) fun _ => avoids_pure _

theorem avoids_u16 (h : oob ≠ e) : Avoids e (u16 oob : Reader ε UInt16) :=
  avoids_bind (avoids_u8 h) fun _ => avoids_bind (avoids_u8 h) fun _ => avoids_pure _

theorem avoids_string16 (h : oob ≠ e) : Avoids e (string16 oob : Reader ε (List UInt8)) :=
  avoids_bind (avoids_u16 h) fun n => avoids_bytes h n.toNat

end Avoiding

end ByteReader
