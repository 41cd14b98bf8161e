import Culex.Lib.Fallible

/-!
# Runs of labelled transition relations

`Run step s as s'` says that the actions `as` lead from `s` to `s'`.  The rules are the two that
safety proofs use: an invariant of the steps is an invariant of the runs, with or without the
history of actions.  `Meeting step cond` restricts a relation to the steps that meet a condition,
so that `Run (Meeting step cond)` are the runs whose steps all meet it.
-/

variable {σ α : Type}

/-- The actions `as` lead from `s` to the last state, the newest action at the end. -/
inductive Run (step : σ → α → σ → Prop) (s : σ) : List α → σ → Prop
  | nil : Run step s [] s
  | snoc {as : List α} {s' s'' : σ} {a : α} (run : Run step s as s') (last : step s' a s'') :
      Run step s (as ++ [a]) s''

/-- The steps that meet a condition on the state before them and on their action. -/
def Meeting (step : σ → α → σ → Prop) (cond : σ → α → Prop) (s : σ) (a : α) (s' : σ) : Prop :=
  cond s a ∧ step s a s'

namespace Run

variable {step step' : σ → α → σ → Prop} {s s' : σ} {as : List α}

/-- What holds at first and is kept by every step, given the history, holds of every run. -/
theorem history {I : List α → σ → Prop} (h : Run step s as s') (hinit : I [] s)
    (hstep : ∀ as s' a s'', I as s' → step s' a s'' → I (as ++ [a]) s'') : I as s' := by
  induction h with
  | nil => exact hinit
  | snoc _ last ih => exact hstep _ _ _ _ ih last

/-- What holds at first and is kept by every step holds of every state reached. -/
theorem invariant {I : σ → Prop} (h : Run step s as s') (hinit : I s)
    (hstep : ∀ s' a s'', I s' → step s' a s'' → I s'') : I s' :=
  h.history (I := fun _ => I) hinit fun _ => hstep

/-- A step before a run. -/
theorem cons {s₀ : σ} {a : α} (h : Run step s as s') (first : step s₀ a s) :
    Run step s₀ (a :: as) s' := by
  induction h with
  | nil => exact .snoc .nil first
  | snoc _ last ih => exact .snoc ih last

/-- A run after a run. -/
theorem append {s'' : σ} {bs : List α} (h : Run step s as s') (h' : Run step s' bs s'') :
    Run step s (as ++ bs) s'' := by
  induction h' with
  | nil => rwa [List.append_nil]
  | snoc _ last ih =>
    rw [← List.append_assoc]
    exact .snoc ih last

theorem mono (h : Run step s as s') (hs : ∀ s a s', step s a s' → step' s a s') :
    Run step' s as s' := by
  induction h with
  | nil => exact .nil
  | snoc _ last ih => exact .snoc ih (hs _ _ _ last)

/-- A run seen through a map of the states. -/
theorem map {τ : Type} {step' : τ → α → τ → Prop} {f : σ → τ} (h : Run step s as s')
    (hs : ∀ s a s', step s a s' → step' (f s) a (f s')) : Run step' (f s) as (f s') := by
  induction h with
  | nil => exact .nil
  | snoc _ last ih => exact .snoc ih (hs _ _ _ last)

/-- A run of some kind of actions only. -/
theorem of_map {β : Type} {f : β → α} {bs : List β} (h : Run step s (bs.map f) s') :
    Run (fun s b s' => step s (f b) s') s bs s' := by
  refine h.history (I := fun actions s' => ∀ bs : List β, actions = bs.map f →
    Run (fun s b s' => step s (f b) s') s bs s') ?_ ?_ bs rfl
  · intro bs hbs
    obtain rfl := List.map_eq_nil_iff.1 hbs.symm
    exact .nil
  · intro actions s' a s'' ih hstep bs hbs
    obtain ⟨bs, last, rfl, rfl, hlast⟩ := List.map_eq_append_iff.1 hbs.symm
    obtain ⟨b, rfl, rfl⟩ := List.map_eq_singleton_iff.1 hlast
    exact .snoc (ih bs rfl) hstep

/-- A run that has been carried out. -/
theorem of_foldlM {next : σ → α → Option σ} (hnext : ∀ s a s', next s a = some s' → step s a s')
    (h : as.foldlM next s = some s') : Run step s as s' := by
  induction as using List.reverseRecOn generalizing s' with
  | nil =>
    cases h
    exact .nil
  | append_singleton as a ih =>
    rw [List.foldlM_append, Option.bind_eq_bind, Option.bind_eq_some_iff] at h
    obtain ⟨s₁, h₁, h⟩ := h
    have ha : next s₁ a = some s' := by simpa using h
    exact .snoc (ih h₁) (hnext _ _ _ ha)

/-- A run that has been carried out, where steps may fail. -/
theorem of_except {ε : Type} {next : σ → α → Except ε σ}
    (hnext : ∀ s a s', next s a = .ok s' → step s a s') (h : as.foldlM next s = .ok s') :
    Run step s as s' := by
  induction as using List.reverseRecOn generalizing s' with
  | nil =>
    cases h
    exact .nil
  | append_singleton as a ih =>
    rw [List.foldlM_append, except_bind_eq_ok] at h
    obtain ⟨s₁, h₁, h⟩ := h
    rw [List.foldlM_cons, except_bind_eq_ok] at h
    obtain ⟨s₂, ha, h⟩ := h
    obtain rfl := Except.ok.inj h
    exact .snoc (ih h₁) (hnext _ _ _ ha)

/-- Under an invariant two conditions that agree allow the same runs. -/
theorem meeting_congr {I : σ → Prop} {cond cond' : σ → α → Prop} (hinit : I s)
    (hkeep : ∀ s a s', I s → step s a s' → I s')
    (hcond : ∀ s a s', I s → step s a s' → (cond s a ↔ cond' s a)) :
    Run (Meeting step cond) s as s' ↔ Run (Meeting step cond') s as s' := by
  have hall : ∀ {c c' : σ → α → Prop}, (∀ s a s', I s → step s a s' → c s a → c' s a) →
      Run (Meeting step c) s as s' → Run (Meeting step c') s as s' := by
    intro c c' hc h
    have hI : ∀ {as s'}, Run (Meeting step c) s as s' → I s' := fun h =>
      h.invariant hinit fun s' a s'' hs' hstep => hkeep s' a s'' hs' hstep.2
    induction h with
    | nil => exact .nil
    | snoc run last ih => exact .snoc ih ⟨hc _ _ _ (hI run) last.2 last.1, last.2⟩
  constructor
  · exact hall fun s a s' hs hstep => (hcond s a s' hs hstep).1
  · exact hall fun s a s' hs hstep => (hcond s a s' hs hstep).2

/-- A run seen through a map of the states, where some steps are not seen. -/
theorem stutters {τ β : Type} {step' : τ → β → τ → Prop} {f : σ → τ} {I : σ → Prop}
    (h : Run step s as s') (hinit : I s)
    (hs : ∀ s a s', I s → step s a s' → I s' ∧ (f s' = f s ∨ ∃ b, step' (f s) b (f s'))) :
    I s' ∧ ∃ bs, Run step' (f s) bs (f s') := by
  induction h with
  | nil => exact ⟨hinit, [], .nil⟩
  | snoc run last ih =>
    obtain ⟨hI, bs, hrun⟩ := ih
    obtain ⟨hI', hsame | ⟨b, hb⟩⟩ := hs _ _ _ hI last
    · exact ⟨hI', bs, hsame ▸ hrun⟩
    · exact ⟨hI', bs ++ [b], .snoc hrun hb⟩

theorem of_meeting {cond : σ → α → Prop} (h : Run (Meeting step cond) s as s') :
    Run step s as s' :=
  h.mono fun _ _ _ hstep => hstep.2

end Run
