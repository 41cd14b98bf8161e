import Mathlib.Data.List.Sort

/-!
# Priority queues

A priority queue whose top is an entry with the least key.  Among entries with equal keys the
library leaves the order open: `HeapOrder` is what a heap promises about `push` and `pop` on its
underlying sequence, and everything here holds for every such heap.

* `MinHeap key`: the underlying sequence, with the least entry in front as a field;
* `push`, `pop`, `top` and what they do to the entries;
* `HeapOrder.sorting`: a heap that keeps these promises.
-/

variable {α κ : Type} [LinearOrder κ]

/-- No entry is less than the one in front. -/
def FrontLe (key : α → κ) : List α → Prop
  | [] => True
  | t :: l => ∀ e ∈ l, key t ≤ key e

/-- A way to arrange the entries of a heap. -/
structure HeapOrder (key : α → κ) where
  push : α → List α → List α
  pop : List α → List α
  push_perm : ∀ e l, (push e l).Perm (e :: l)
  pop_perm : ∀ t l, (pop (t :: l)).Perm l
  push_front : ∀ e l, FrontLe key l → FrontLe key (push e l)
  pop_front : ∀ t l, FrontLe key (t :: l) → FrontLe key (pop (t :: l))
  /-- A greater entry does not displace the top. -/
  push_top : ∀ e t l, key t < key e → (push e (t :: l)).head? = some t

/-- A heap with its least entry in front. -/
structure MinHeap (key : α → κ) where
  entries : List α
  front : FrontLe key entries

namespace MinHeap

variable {key : α → κ}

/-- The empty heap. -/
def empty : MinHeap key := ⟨[], trivial⟩

/-- An entry with the least key. -/
def top (h : MinHeap key) : Option α := h.entries.head?

def push (o : HeapOrder key) (e : α) (h : MinHeap key) : MinHeap key :=
  ⟨o.push e h.entries, o.push_front e _ h.front⟩

/-- Remove the top; an empty heap is left as it is. -/
def pop (o : HeapOrder key) : MinHeap key → MinHeap key
  | ⟨[], _⟩ => empty
  | ⟨t :: l, front⟩ => ⟨o.pop (t :: l), o.pop_front t l front⟩

variable (o : HeapOrder key) {e t : α} {h : MinHeap key}

theorem top_le (ht : h.top = some t) (he : e ∈ h.entries) : key t ≤ key e := by
  obtain ⟨entries, front⟩ := h
  cases entries with
  | nil => cases ht
  | cons t' l =>
    cases ht
    rcases List.mem_cons.1 he with rfl | he
    · exact le_rfl
    · exact front e he

theorem top_mem (ht : h.top = some t) : t ∈ h.entries := List.mem_of_head? ht

theorem top_eq_none : h.top = none ↔ h.entries = [] := List.head?_eq_none_iff

theorem entries_push_perm (e : α) (h : MinHeap key) : (h.push o e).entries.Perm (e :: h.entries) :=
  o.push_perm e h.entries

theorem top_push (ht : h.top = some t) (he : key t < key e) : (h.push o e).top = some t := by
  obtain ⟨entries, front⟩ := h
  cases entries with
  | nil => cases ht
  | cons t' l =>
    cases ht
    exact o.push_top e t l he

/-- The entries are the top and what `pop` leaves. -/
theorem perm_pop (ht : h.top = some t) : h.entries.Perm (t :: (h.pop o).entries) := by
  obtain ⟨entries, front⟩ := h
  cases entries with
  | nil => cases ht
  | cons t' l =>
    cases ht
    exact ((o.pop_perm t l).cons t).symm

theorem mem_of_mem_pop {x : α} (hx : x ∈ (h.pop o).entries) : x ∈ h.entries := by
  cases ht : h.top with
  | none =>
    obtain ⟨entries, front⟩ := h
    have : entries = [] := top_eq_none.1 ht
    subst this
    cases hx
  | some t =>
    rw [(perm_pop o ht).mem_iff]
    exact List.mem_cons_of_mem _ hx

theorem length_pop (ht : h.top = some t) :
    (h.pop o).entries.length + 1 = h.entries.length := by
  rw [(perm_pop o ht).length_eq, List.length_cons]

end MinHeap

/-- The heap that sorts its entries again after every `pop`. -/
def HeapOrder.sorting (key : α → κ) : HeapOrder key where
  push e
    | [] => [e]
    | t :: l => if key e < key t then e :: t :: l else t :: e :: l
  pop l := l.tail.insertionSort fun a b => key a ≤ key b
  push_perm e l := by
    cases l with
    | nil => exact .refl _
    | cons t l =>
      simp only
      split_ifs
      · exact .refl _
      · exact .swap _ _ _
  pop_perm t l := List.perm_insertionSort _ l
  push_front e l h := by
    cases l with
    | nil => exact fun _ hx => absurd hx List.not_mem_nil
    | cons t l =>
      simp only
      split_ifs with hlt
      · intro x hx
        rcases List.mem_cons.1 hx with rfl | hx
        · exact hlt.le
        · exact hlt.le.trans (h x hx)
      · intro x hx
        rcases List.mem_cons.1 hx with rfl | hx
        · exact not_lt.1 hlt
        · exact h x hx
  pop_front t l _ := by
    have : Std.Total fun a b : α => key a ≤ key b := ⟨fun a b => le_total _ _⟩
    have : IsTrans α fun a b => key a ≤ key b := ⟨fun _ _ _ => le_trans⟩
    have hs := List.pairwise_insertionSort (fun a b => key a ≤ key b) l
    show FrontLe key (l.insertionSort _)
    cases hl : l.insertionSort fun a b => key a ≤ key b with
    | nil => trivial
    | cons a m =>
      rw [hl] at hs
      exact (List.pairwise_cons.1 hs).1
  push_top e t l h := by
    simp only
    rw [if_neg (not_lt.2 h.le)]
    rfl
