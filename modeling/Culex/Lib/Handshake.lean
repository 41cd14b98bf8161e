import Mathlib.Tactic
import Mathlib.Data.List.DropRight

/-!
# Exactly-once handshakes

A sender puts a message under a key, possibly several times, and then releases the key, possibly
several times.  The puts of a key up to its next release are a cycle, and each cycle is to be emitted
once, with the message of its first put.

* `pending`: the message of the open cycle of a key after a history;
* `emitted`: the messages of the closed cycles, in the order in which they are closed;
* what one more event does to both.
-/

namespace Handshake

/-- An event of the sender. -/
inductive Event (κ μ : Type)
  | put (k : κ) (m : μ)
  | release (k : κ)

variable {κ μ : Type} [DecidableEq κ]

/-- Whether the event closes the cycles of a key. -/
def Event.releases (k : κ) : Event κ μ → Bool
  | .put _ _ => false
  | .release k' => k' = k

/-- The message an event puts under a key. -/
def Event.put? (k : κ) : Event κ μ → Option μ
  | .put k' m => if k' = k then some m else none
  | .release _ => none

/-- The events since the last release of a key. -/
def block (hist : List (Event κ μ)) (k : κ) : List (Event κ μ) :=
  hist.rtakeWhile fun e => !e.releases k

/-- The message of the open cycle of a key: the first that was put since the last release.  What
`init` holds was put before the history. -/
def pending (init : κ → Option μ) (hist : List (Event κ μ)) (k : κ) : Option μ :=
  (if hist.any (·.releases k) then none else init k).or ((block hist k).findSome? (·.put? k))

/-- The messages of the closed cycles. -/
def emitted (init : κ → Option μ) (events : List (Event κ μ)) : List μ :=
  (List.range events.length).filterMap fun i =>
    match events[i]? with
    | some (Event.release k) => pending init (events.take i) k
    | _ => none

variable (init : κ → Option μ) (hist : List (Event κ μ))

@[simp] theorem pending_nil : pending init [] = init := by
  funext k
  simp [pending, block]

/-- A put opens a cycle, or belongs to an open one. -/
theorem pending_put (k' : κ) (m : μ) (k : κ) :
    pending init (hist ++ [.put k' m]) k =
      (pending init hist k).or (if k' = k then some m else none) := by
  have hblock : block (hist ++ [.put k' m]) k = block hist k ++ [.put k' m] :=
    List.rtakeWhile_concat_pos _ _ _ rfl
  unfold pending
  rw [hblock, List.findSome?_append, Option.or_assoc, List.any_append]
  simp [Event.releases, Event.put?]

/-- A release closes the cycle of its key. -/
theorem pending_release (k' k : κ) :
    pending init (hist ++ [.release k']) k = if k' = k then none else pending init hist k := by
  by_cases hk : k' = k
  · have hblock : block (hist ++ [.release k']) k = [] :=
      List.rtakeWhile_concat_neg _ _ _ (by simp [Event.releases, hk])
    unfold pending
    rw [hblock, if_pos hk]
    simp [Event.releases, hk]
  · have hblock : block (hist ++ [.release k']) k = block hist k ++ [.release k'] :=
      List.rtakeWhile_concat_pos _ _ _ (by simp [Event.releases, hk])
    unfold pending
    rw [hblock, if_neg hk, List.findSome?_append]
    simp [Event.releases, Event.put?, hk]

/-- A release emits the message of the cycle that it closes. -/
theorem emitted_append (e : Event κ μ) :
    emitted init (hist ++ [e]) = emitted init hist ++
      match e with
      | .release k => (pending init hist k).toList
      | .put _ _ => [] := by
  unfold emitted
  rw [List.length_append, List.length_singleton, List.range_succ, List.filterMap_append]
  refine congrArg₂ (· ++ ·) ?_ ?_
  · apply List.filterMap_congr
    intro i hi
    have hlt : i < hist.length := List.mem_range.1 hi
    rw [List.getElem?_append_left hlt, List.take_append_of_le_length hlt.le]
  · rw [List.filterMap_cons, List.getElem?_concat_length, List.take_left]
    cases e with
    | put k m => rfl
    | release k => cases hp : pending init hist k <;> simp [hp]

end Handshake
