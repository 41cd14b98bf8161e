import Culex.Lib.ByteReader

/-!
# Readers that list what they read

A `Reader` has no memory of the addresses it looks at, and the result need not show them: a reader
can look at a byte and go on as if it had not.  A `Traced` reader lists them in order.

* `Traced`, its monad, and the primitives `peek` and `quiet`;
* `erase`: the reader without the list, and how it goes through the monad;
* `Honest`: nothing but the bytes at the listed addresses has been looked at.
-/

namespace ByteReader

/-- A reader that lists the addresses it reads. -/
def Traced (ε α : Type) : Type := Mem → ℕ → List ℕ × Except ε (α × ℕ)

variable {ε α β : Type}

namespace Traced

instance : Monad (Traced ε) where
  pure a := fun _ pos => ([], .ok (a, pos))
  bind r f := fun mem pos =>
    match r mem pos with
    | (reads, .ok (a, pos')) => (reads ++ (f a mem pos').1, (f a mem pos').2)
    | (reads, .error e) => (reads, .error e)

/-- A reader that looks at no byte. -/
def quiet (r : Reader ε α) : Traced ε α := fun mem pos => ([], r mem pos)

/-- The byte under the cursor. -/
def peek (oob : ε) : Traced ε UInt8 := fun mem pos =>
  (if pos < addressSpace then [pos] else [], ByteReader.peek oob mem pos)

/-- The reader without the list. -/
def erase (r : Traced ε α) : Reader ε α := fun mem pos => (r mem pos).2

/-- The addresses that are read. -/
def reads (r : Traced ε α) (mem : Mem) (pos : ℕ) : List ℕ := (r mem pos).1

theorem bind_def (r : Traced ε α) (f : α → Traced ε β) (mem : Mem) (pos : ℕ) :
    (r >>= f) mem pos =
      match erase r mem pos with
      | .ok (a, pos') => (reads r mem pos ++ reads (f a) mem pos', erase (f a) mem pos')
      | .error e => (reads r mem pos, .error e) := by
  unfold erase reads
  show (match r mem pos with
    | (reads, .ok (a, pos')) => (reads ++ (f a mem pos').1, (f a mem pos').2)
    | (reads, .error e) => (reads, .error e)) = _
  rcases r mem pos with ⟨l, e | ⟨a, pos'⟩⟩
  · rfl
  · rfl

/-! ### Without the list -/

@[simp] theorem erase_pure (a : α) : erase (pure a : Traced ε α) = pure a := rfl

@[simp] theorem erase_quiet (r : Reader ε α) : erase (quiet r) = r := rfl

@[simp] theorem erase_peek (oob : ε) : erase (peek oob) = ByteReader.peek oob := rfl

@[simp] theorem erase_bind (r : Traced ε α) (f : α → Traced ε β) :
    erase (r >>= f) = erase r >>= fun a => erase (f a) := by
  funext mem pos
  show ((r >>= f) mem pos).2 = _
  rw [bind_def, bind_apply]
  rcases erase r mem pos with e | ⟨a, pos'⟩
  · rfl
  · rfl

theorem erase_ite (c : Prop) [Decidable c] (r s : Traced ε α) :
    erase (if c then r else s) = if c then erase r else erase s := by
  split_ifs
  · rfl
  · rfl

/-! ### What is read -/

section Reads

variable {r : Traced ε α} {f : α → Traced ε β} {mem : Mem} {pos pos' : ℕ} {a : α}

@[simp] theorem reads_quiet (r : Reader ε α) (mem : Mem) (pos : ℕ) : reads (quiet r) mem pos = [] :=
  rfl

theorem reads_peek {oob : ε} (h : pos < addressSpace) : reads (peek oob) mem pos = [pos] := if_pos h

theorem reads_bind_ok (h : erase r mem pos = .ok (a, pos')) :
    reads (r >>= f) mem pos = reads r mem pos ++ reads (f a) mem pos' := by
  show ((r >>= f) mem pos).1 = _
  rw [bind_def, h]

theorem reads_bind_error {e : ε} (h : erase r mem pos = .error e) :
    reads (r >>= f) mem pos = reads r mem pos := by
  show ((r >>= f) mem pos).1 = _
  rw [bind_def, h]

/-- What follows reads nothing. -/
theorem reads_bind_of_quiet (h : ∀ a mem pos, reads (f a) mem pos = []) :
    reads (r >>= f) mem pos = reads r mem pos := by
  cases he : erase r mem pos with
  | error e => exact reads_bind_error he
  | ok x => rw [reads_bind_ok he, h, List.append_nil]

end Reads

/-! ### Honest readers -/

/-- The reader does the same on every memory that has the same bytes at the listed addresses. -/
def Honest (r : Traced ε α) : Prop :=
  ∀ mem mem' pos, (∀ i ∈ reads r mem pos, mem' i = mem i) → r mem' pos = r mem pos

theorem honest_pure (a : α) : Honest (pure a : Traced ε α) := fun _ _ _ _ => rfl

theorem honest_quiet {r : Reader ε α} (h : ∀ mem mem' pos, r mem' pos = r mem pos) :
    Honest (quiet r) := fun mem mem' pos _ => congrArg (Prod.mk []) (h mem mem' pos)

theorem honest_peek (oob : ε) : Honest (peek oob) := by
  intro mem mem' pos h
  unfold peek
  rw [peek_apply, peek_apply]
  split_ifs with hp
  · rw [h pos (by rw [reads_peek hp]; exact List.mem_singleton_self pos)]
  · rfl

theorem honest_bind {r : Traced ε α} {f : α → Traced ε β} (hr : Honest r)
    (hf : ∀ a, Honest (f a)) : Honest (r >>= f) := by
  intro mem mem' pos h
  cases he : erase r mem pos with
  | error e =>
    have hfirst : r mem' pos = r mem pos :=
      hr mem mem' pos fun i hi => h i (by rwa [reads_bind_error he])
    have he' : erase r mem' pos = .error e := (congrArg Prod.snd hfirst).trans he
    rw [bind_def, bind_def, he, he']
    exact congrArg (·, _) (congrArg Prod.fst hfirst)
  | ok x =>
    obtain ⟨a, pos'⟩ := x
    have hfirst : r mem' pos = r mem pos := hr mem mem' pos fun i hi => h i (by
      rw [reads_bind_ok he]
      exact List.mem_append_left _ hi)
    have hsecond : f a mem' pos' = f a mem pos' := hf a mem mem' pos' fun i hi => h i (by
      rw [reads_bind_ok he]
      exact List.mem_append_right _ hi)
    have he' : erase r mem' pos = .ok (a, pos') := (congrArg Prod.snd hfirst).trans he
    rw [bind_def, bind_def, he, he']
    unfold reads erase
    simp only [hfirst, hsecond]

theorem honest_ite {c : Prop} [Decidable c] {r s : Traced ε α} (hr : Honest r) (hs : Honest s) :
    Honest (if c then r else s) := by
  split_ifs
  · exact hr
  · exact hs

end Traced

end ByteReader
