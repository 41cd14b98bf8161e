import Culex.Lib.Run

/-!
# Receivers that take one frame for each read

A receiver that queues a task with each read, and whose tasks take at most one frame each off the
front of the buffer.  The tasks run at any time, so several reads may go before the first of them.

* `Receiver`, `ReceiverStep`: the receiver over a decoder that may say anything where there is no
  frame;
* `Paced`: the reads after which as many frames have arrived as there were reads;
* `lockstep`: then every task that runs finds the next frame, so that the values emitted are the
  first ones, as many as tasks have run, and the buffer holds what is left.
-/

namespace Lockstep

variable {α β : Type}

/-- What the decoder says about the buffer. -/
inductive Answer (α : Type)
  | emit (a : α) (size : ℕ)
  | nothing
  | failure

structure Receiver (α β : Type) where
  buffer : List β := []
  pending : ℕ := 0
  reads : ℕ := 0
  received : List β := []
  emitted : List α := []

inductive Action (β : Type)
  | read (chunk : List β)
  | task

def Receiver.read (s : Receiver α β) (chunk : List β) : Receiver α β :=
  { s with
    buffer := s.buffer ++ chunk
    pending := s.pending + 1
    reads := s.reads + 1
    received := s.received ++ chunk }

/-- A task that is told an answer. -/
def Receiver.task (s : Receiver α β) : Answer α → Receiver α β
  | .emit a size =>
    { s with
      buffer := s.buffer.drop size
      pending := s.pending - 1
      emitted := s.emitted ++ [a] }
  | .nothing => { s with pending := s.pending - 1 }
  | .failure => { s with pending := s.pending - 1 }

/-- The transitions of a receiver whose decoder may say what it `Tells`. -/
def ReceiverStep (Tells : List β → Answer α → Prop) (s : Receiver α β) :
    Action β → Receiver α β → Prop
  | .read chunk, s' => s' = s.read chunk
  | .task, s' => 0 < s.pending ∧ ∃ answer, Tells s.buffer answer ∧ s' = s.task answer

/-- The decoder recognizes the frames of the values that are `ok`, whatever follows. -/
def Recognizes (Tells : List β → Answer α → Prop) (frame : α → List β) (ok : α → Prop) : Prop :=
  ∀ a, ok a → ∀ rest answer, Tells (frame a ++ rest) answer → answer = .emit a (frame a).length

/-- After the read, as many frames have arrived as there were reads, and what has arrived is a part
of the stream. -/
structure PacedRead (frame : α → List β) (as : List α) (s : Receiver α β) (chunk : List β) :
    Prop where
  enough : ((as.take (s.reads + 1)).flatMap frame) <+: s.received ++ chunk
  part : s.received ++ chunk <+: as.flatMap frame
  le : s.reads + 1 ≤ as.length

instance [DecidableEq β] (frame : α → List β) (as : List α) (s : Receiver α β) (chunk : List β) :
    Decidable (PacedRead frame as s chunk) :=
  decidable_of_iff (((as.take (s.reads + 1)).flatMap frame <+: s.received ++ chunk ∧
    s.received ++ chunk <+: as.flatMap frame) ∧ s.reads + 1 ≤ as.length)
    ⟨fun h => ⟨h.1.1, h.1.2, h.2⟩, fun h => ⟨⟨h.enough, h.part⟩, h.le⟩⟩

/-- Every read comes in time. -/
def Paced (frame : α → List β) (as : List α) (s : Receiver α β) : Action β → Prop
  | .read chunk => PacedRead frame as s chunk
  | .task => True

/-- The values emitted are the first ones, one for each task that has run. -/
structure InStep (frame : α → List β) (as : List α) (s : Receiver α β) : Prop where
  emitted : s.emitted = as.take (s.reads - s.pending)
  buffer : s.emitted.flatMap frame ++ s.buffer = s.received
  pending : s.pending ≤ s.reads
  le : s.reads ≤ as.length
  enough : ((as.take s.reads).flatMap frame) <+: s.received
  part : s.received <+: as.flatMap frame

variable {Tells : List β → Answer α → Prop} {frame : α → List β} {ok : α → Prop} {as : List α}
  {s s' : Receiver α β} {actions : List (Action β)}

theorem InStep.init : InStep frame as ({} : Receiver α β) := by
  constructor <;> simp

theorem InStep.read (h : InStep frame as s) {chunk : List β} (hp : PacedRead frame as s chunk) :
    InStep frame as (s.read chunk) where
  emitted := by
    show s.emitted = as.take (s.reads + 1 - (s.pending + 1))
    rw [h.emitted, Nat.add_sub_add_right]
  buffer := by
    show s.emitted.flatMap frame ++ (s.buffer ++ chunk) = s.received ++ chunk
    rw [← List.append_assoc, h.buffer]
  pending := Nat.succ_le_succ h.pending
  le := hp.le
  enough := hp.enough
  part := hp.part

/-- A task that is pending finds the next frame at the front of the buffer. -/
theorem InStep.next (h : InStep frame as s) (hpending : 0 < s.pending) :
    ∃ a rest, as[s.reads - s.pending]? = some a ∧ s.buffer = frame a ++ rest := by
  have hle := h.pending
  have hlt : s.reads - s.pending < as.length := by
    have := h.le
    omega
  refine ⟨as[s.reads - s.pending], ?_⟩
  obtain ⟨later, hlater⟩ := h.enough
  -- the frames that have arrived are those emitted, the next one, and others
  have hsplit : as.take s.reads = as.take (s.reads - s.pending) ++ as[s.reads - s.pending] ::
      (as.take s.reads).drop (s.reads - s.pending + 1) := by
    have htake : (as.take s.reads).take (s.reads - s.pending + 1) =
        as.take (s.reads - s.pending + 1) := by
      rw [List.take_take, min_eq_left (by omega)]
    conv_lhs => rw [← List.take_append_drop (s.reads - s.pending + 1) (as.take s.reads)]
    rw [htake, ← List.take_append_getElem hlt, List.append_assoc, List.singleton_append]
  have hframes : (as.take s.reads).flatMap frame = s.emitted.flatMap frame ++
      (frame as[s.reads - s.pending] ++
        ((as.take s.reads).drop (s.reads - s.pending + 1)).flatMap frame) := by
    rw [h.emitted, ← List.flatMap_cons, ← List.flatMap_append, ← hsplit]
  have hbuffer : s.emitted.flatMap frame ++ s.buffer = s.emitted.flatMap frame ++
      (frame as[s.reads - s.pending] ++
        (((as.take s.reads).drop (s.reads - s.pending + 1)).flatMap frame ++ later)) := by
    rw [h.buffer, ← hlater, hframes]
    simp only [List.append_assoc]
  exact ⟨_, List.getElem?_eq_getElem hlt, List.append_cancel_left hbuffer⟩

theorem InStep.task (hr : Recognizes Tells frame ok) (hok : ∀ a ∈ as, ok a)
    (h : InStep frame as s) (hpending : 0 < s.pending) {answer : Answer α}
    (htells : Tells s.buffer answer) : InStep frame as (s.task answer) := by
  obtain ⟨a, rest, ha, hbuffer⟩ := h.next hpending
  have hle := h.pending
  have hmem : a ∈ as := List.mem_of_getElem? ha
  obtain rfl := hr a (hok a hmem) rest answer (hbuffer ▸ htells)
  constructor
  case emitted =>
    have hone : s.reads - (s.pending - 1) = s.reads - s.pending + 1 := by omega
    show s.emitted ++ [a] = as.take (s.reads - (s.pending - 1))
    rw [hone, List.take_add_one, ha, h.emitted]
    rfl
  case buffer =>
    show (s.emitted ++ [a]).flatMap frame ++ s.buffer.drop (frame a).length = s.received
    rw [← h.buffer, hbuffer, List.drop_left, List.flatMap_append, List.append_assoc]
    simp
  case pending =>
    show s.pending - 1 ≤ s.reads
    omega
  case le => exact h.le
  case enough => exact h.enough
  case part => exact h.part

/-- **One frame for each read.**  If every read completes as many frames as there were reads, every
task takes the next frame. -/
theorem lockstep (hr : Recognizes Tells frame ok) (hok : ∀ a ∈ as, ok a)
    (hrun : Run (Meeting (ReceiverStep Tells) (Paced frame as)) {} actions s) :
    InStep frame as s := by
  refine hrun.invariant .init ?_
  rintro s₁ (chunk | _) s₂ h ⟨hpaced, hstep⟩
  · obtain rfl := hstep
    exact h.read hpaced
  · obtain ⟨hpending, answer, htells, rfl⟩ := hstep
    exact h.task hr hok hpending htells

end Lockstep
