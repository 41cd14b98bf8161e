import Mathlib.Tactic

/-!
# Steps that may fail

The rules for `Except`: what a sequence returned, what a loop keeps, and where a loop failed.  A
loop is a `foldlM`; its invariant is about the states between the rounds that succeed.  A closed
computation is evaluated by `exists_of_any_ok`.
-/

section

variable {ε σ α β : Type}

@[simp] theorem ok_bind (x : α) (f : α → Except ε β) :
    ((.ok x : Except ε α) >>= f) = f x := rfl

/-- A sequence returns what its second part returns on what the first one did. -/
theorem except_bind_eq_ok {x : Except ε α} {f : α → Except ε β} {b : β} :
    (x >>= f) = .ok b ↔ ∃ a, x = .ok a ∧ f a = .ok b := by
  cases x with
  | error e => exact ⟨fun h => (by cases h), fun ⟨_, h, _⟩ => (by cases h)⟩
  | ok a => simp

/-- What every step of a loop keeps, the loop keeps; a step may be known to be one for an element of
the list. -/
theorem foldlM_invariant_mem {f : σ → α → Except ε σ} {I : σ → Prop} {l : List α}
    (hstep : ∀ s, ∀ a ∈ l, ∀ s', I s → f s a = .ok s' → I s') {s s' : σ} (h : I s)
    (hf : l.foldlM f s = .ok s') : I s' := by
  induction l generalizing s with
  | nil => exact Except.ok.inj hf ▸ h
  | cons a l ih =>
    rw [List.foldlM_cons, except_bind_eq_ok] at hf
    obtain ⟨s₁, ha, hf⟩ := hf
    have hs₁ := hstep s a List.mem_cons_self s₁ h ha
    exact ih (fun s b hb => hstep s b (List.mem_cons_of_mem a hb)) hs₁ hf

/-- What every step of a loop keeps, the loop keeps. -/
theorem foldlM_invariant {f : σ → α → Except ε σ} {I : σ → Prop}
    (hstep : ∀ s a s', I s → f s a = .ok s' → I s') {l : List α} {s s' : σ} (h : I s)
    (hf : l.foldlM f s = .ok s') : I s' :=
  foldlM_invariant_mem (fun s a _ => hstep s a) h hf

/-- A loop that appends to a list what each round gives. -/
theorem foldlM_append_eq_ok {f : List β → α → Except ε (List β)} {g : α → List β} {l : List α}
    (hstep : ∀ a ∈ l, ∀ result, f result a = .ok (result ++ g a)) (result : List β) :
    l.foldlM f result = .ok (result ++ l.flatMap g) := by
  induction l generalizing result with
  | nil =>
    rw [List.flatMap_nil, List.append_nil]
    rfl
  | cons a l ih =>
    have hrest := ih (fun b hb => hstep b (List.mem_cons_of_mem a hb)) (result ++ g a)
    rw [List.foldlM_cons, hstep a List.mem_cons_self, ok_bind, hrest, List.flatMap_cons,
      List.append_assoc]

/-- What is carried out fails at its first step that fails. -/
theorem foldlM_eq_error_iff {next : σ → α → Except ε σ} {as : List α} {s : σ} {e : ε} :
    as.foldlM next s = .error e ↔ ∃ before a rest s', as = before ++ a :: rest ∧
      before.foldlM next s = .ok s' ∧ next s' a = .error e := by
  constructor
  · intro h
    induction as generalizing s with
    | nil => cases h
    | cons a as ih =>
      rw [List.foldlM_cons] at h
      cases ha : next s a with
      | error e' =>
        rw [ha] at h
        exact ⟨[], a, as, s, rfl, rfl, ha.trans h⟩
      | ok s₁ =>
        rw [ha] at h
        obtain ⟨before, a', rest, s', rfl, hbefore, ha'⟩ := ih h
        refine ⟨a :: before, a', rest, s', rfl, ?_, ha'⟩
        rw [List.foldlM_cons, ha]
        exact hbefore
  · rintro ⟨before, a, rest, s', rfl, hbefore, ha⟩
    rw [List.foldlM_append, hbefore]
    show (a :: rest).foldlM next s' = .error e
    rw [List.foldlM_cons, ha]
    rfl

/-- What a computation is evaluated to. -/
theorem exists_of_any_ok {x : Except ε α} {P : α → Prop} [DecidablePred P]
    (h : x.toOption.any fun a => P a) : ∃ a, x = .ok a ∧ P a := by
  cases x with
  | error e => cases h
  | ok a => exact ⟨a, rfl, of_decide_eq_true h⟩

theorem exists_of_any {x : Option α} {P : α → Prop} [DecidablePred P]
    (h : x.any fun a => P a) : ∃ a, x = some a ∧ P a := by
  cases x with
  | none => cases h
  | some a => exact ⟨a, rfl, of_decide_eq_true h⟩

end
