import Culex.Lib.Run
import Mathlib.Logic.Function.Basic

/-!
# Interleaved threads

Threads with a state of their own act one at a time on a state that they share.

* `Threads`, `Interleaves`: the states, and the steps of any thread in any order;
* `Interleaves.refines`: threads that a map of the shared state takes to other ones;
* `Run.meeting_or`: where a step against a condition does lasting harm, a run either meets the
  condition throughout or ends harmed.
-/

variable {ι α σ τ π : Type}

/-- The state of some threads. -/
structure Threads (ι σ π : Type) where
  shared : σ
  own : ι → π

/-- A thread takes a step: `next i a` says what action `a` of thread `i` does, if it is enabled. -/
def Interleaves [DecidableEq ι] (next : ι → α → σ → π → Option (σ × π)) (s : Threads ι σ π)
    (step : ι × α) (s' : Threads ι σ π) : Prop :=
  ∃ shared own, next step.1 step.2 s.shared (s.own step.1) = some (shared, own) ∧
    s' = ⟨shared, Function.update s.own step.1 own⟩

/-- The state after a step, if it is enabled. -/
def Threads.next [DecidableEq ι] (next : ι → α → σ → π → Option (σ × π)) (s : Threads ι σ π)
    (step : ι × α) : Option (Threads ι σ π) :=
  (next step.1 step.2 s.shared (s.own step.1)).map fun x =>
    ⟨x.1, Function.update s.own step.1 x.2⟩

namespace Interleaves

variable [DecidableEq ι] {next : ι → α → σ → π → Option (σ × π)} {s s' : Threads ι σ π} {i j : ι}
  {a : α}

/-- The other threads stay where they are. -/
theorem own_of_ne (h : Interleaves next s (i, a) s') (hj : j ≠ i) : s'.own j = s.own j := by
  obtain ⟨shared, own, -, rfl⟩ := h
  exact Function.update_of_ne hj own s.own

/-- The step of the thread itself. -/
theorem step_self (h : Interleaves next s (i, a) s') :
    next i a s.shared (s.own i) = some (s'.shared, s'.own i) := by
  obtain ⟨shared, own, hnext, rfl⟩ := h
  simp only [Function.update_self]
  exact hnext

theorem of_next {step : ι × α} (h : s.next next step = some s') : Interleaves next s step s' := by
  obtain ⟨⟨shared, own⟩, hnext, rfl⟩ := Option.map_eq_some_iff.1 h
  exact ⟨shared, own, hnext, rfl⟩

theorem mk {shared : σ} {own : π} (h : next i a s.shared (s.own i) = some (shared, own)) :
    Interleaves next s (i, a) ⟨shared, Function.update s.own i own⟩ := ⟨shared, own, h, rfl⟩

/-- A step that is enabled, and where it leads. -/
theorem exists_of_next {shared : σ} {own : π}
    (h : next i a s.shared (s.own i) = some (shared, own)) :
    ∃ s', Interleaves next s (i, a) s' ∧ s'.shared = shared ∧ s'.own i = own :=
  ⟨_, .mk h, rfl, Function.update_self ..⟩

/-- The threads whose shared state is seen through a map. -/
theorem refines {next' : ι → α → τ → π → Option (τ × π)} {f : σ → τ}
    (hnext : ∀ i a shared own shared' own', next i a shared own = some (shared', own') →
      next' i a (f shared) own = some (f shared', own')) {step : ι × α}
    (h : Interleaves next s step s') :
    Interleaves next' ⟨f s.shared, s.own⟩ step ⟨f s'.shared, s'.own⟩ := by
  obtain ⟨shared, own, hstep, rfl⟩ := h
  exact ⟨f shared, own, hnext _ _ _ _ _ _ hstep, rfl⟩

end Interleaves

/-- Where the first step against a condition does harm, and harm lasts, a run meets the condition
throughout or has done harm. -/
theorem Run.meeting_or {step : σ → α → σ → Prop} {cond : σ → α → Prop} {H : σ → Prop} {s s' : σ}
    {as : List α} (h : Run step s as s')
    (hfirst : ∀ as s₁ a s₂, Run (Meeting step cond) s as s₁ → step s₁ a s₂ → ¬ cond s₁ a → H s₂)
    (hlast : ∀ s₁ a s₂, H s₁ → step s₁ a s₂ → H s₂) :
    Run (Meeting step cond) s as s' ∨ H s' := by
  induction h with
  | nil => exact .inl .nil
  | @snoc as s₁ s₂ a run last ih =>
    rcases ih with hmeets | hharm
    · by_cases hc : cond s₁ a
      · exact .inl (.snoc hmeets ⟨hc, last⟩)
      · exact .inr (hfirst as s₁ a s₂ hmeets last hc)
    · exact .inr (hlast s₁ a s₂ hharm last)
