import Mathlib.Tactic

/-!
# Reassembly of framed streams

A receiver that appends chunks to a buffer and lets a decoder take frames off its front.

* `Verdict`, `drain`, `feed`, `run`: the receiver over an arbitrary decoder, which may answer
  differently from call to call;
* `Framed frame ok`: the decoder recognizes every frame in front of any bytes, and waits on every
  cut of one;
* `run_frames`: such a receiver emits exactly the framed values, however the stream is cut.
-/

namespace Reassembly

/-- What a decoder says about a nonempty buffer. -/
inductive Verdict (α : Type)
  | emit (a : α) (size : ℕ)
  | wait
  | reject

/-- The bytes received and not yet used, the values emitted, and the number of decoder calls. -/
structure State (α β : Type) where
  buffer : List β := []
  emitted : List α := []
  calls : ℕ := 0

variable {α β : Type}

section Receiver

variable (decode : ℕ → List β → Verdict α)

/-- Take frames off the buffer until it is empty or the decoder waits.  The result is `none` if the
decoder rejects the buffer, or if the rounds do not suffice. -/
def drain : ℕ → State α β → Option (State α β)
  | 0, _ => none
  | rounds + 1, s =>
    match s.buffer with
    | [] => some s
    | _ :: _ =>
      match decode s.calls s.buffer with
      | .emit a size => drain rounds ⟨s.buffer.drop size, s.emitted ++ [a], s.calls + 1⟩
      | .wait => some { s with calls := s.calls + 1 }
      | .reject => none

/-- Append a chunk and drain the buffer. -/
def feed (s : State α β) (chunk : List β) : Option (State α β) :=
  drain decode ((s.buffer ++ chunk).length + 1) { s with buffer := s.buffer ++ chunk }

/-- Feed the chunks one at a time. -/
def run (chunks : List (List β)) : Option (State α β) := chunks.foldlM (feed decode) {}

/-- The decoder recognizes the frames of the values that are `ok`. -/
structure Framed (frame : α → List β) (ok : α → Prop) : Prop where
  ne_nil : ∀ a, ok a → frame a ≠ []
  emit : ∀ a, ok a → ∀ i rest, decode i (frame a ++ rest) = .emit a (frame a).length
  wait : ∀ a, ok a → ∀ i b, b ≠ [] → b <+: frame a → b ≠ frame a → decode i b = .wait

end Receiver

variable {decode : ℕ → List β → Verdict α} {frame : α → List β} {ok : α → Prop}

/-- What may lie in the buffer between two chunks: a proper cut of the next frame. -/
def Pending (frame : α → List β) (b : List β) : List α → Prop
  | [] => b = []
  | a :: _ => b <+: frame a ∧ b ≠ frame a

theorem drain_nil {rounds : ℕ} {s : State α β} (h : s.buffer = []) :
    drain decode (rounds + 1) s = some s := by
  rw [drain, h]

theorem drain_emit {rounds : ℕ} {s : State α β} {a : α} {size : ℕ} (h : s.buffer ≠ [])
    (hd : decode s.calls s.buffer = .emit a size) :
    drain decode (rounds + 1) s =
      drain decode rounds ⟨s.buffer.drop size, s.emitted ++ [a], s.calls + 1⟩ := by
  obtain ⟨x, l, hx⟩ := List.exists_cons_of_ne_nil h
  rw [drain, hd]
  simp only [hx]

theorem drain_wait {rounds : ℕ} {s : State α β} (h : s.buffer ≠ [])
    (hd : decode s.calls s.buffer = .wait) :
    drain decode (rounds + 1) s = some { s with calls := s.calls + 1 } := by
  obtain ⟨x, l, hx⟩ := List.exists_cons_of_ne_nil h
  rw [drain, hd]
  simp only [hx]

/-- Draining emits the frames the buffer holds completely and leaves a cut of the next one. -/
theorem drain_frames (h : Framed decode frame ok) {rounds : ℕ} {s : State α β}
    (hr : s.buffer.length < rounds) {as : List α} (has : ∀ a ∈ as, ok a) {later : List β}
    (hs : s.buffer ++ later = as.flatMap frame) :
    ∃ done rest b calls, as = done ++ rest ∧
      drain decode rounds s = some ⟨b, s.emitted ++ done, calls⟩ ∧
      b ++ later = rest.flatMap frame ∧ Pending frame b rest := by
  induction rounds generalizing s as with
  | zero => omega
  | succ rounds ih =>
    cases as with
    | nil =>
      have hb : s.buffer = [] := (List.append_eq_nil_iff.1 hs).1
      refine ⟨[], [], [], s.calls, rfl, ?_, hb ▸ hs, rfl⟩
      rw [drain_nil hb, List.append_nil, ← hb]
    | cons a as =>
      have ha : ok a := has a List.mem_cons_self
      rw [List.flatMap_cons] at hs
      -- the buffer and the next frame are both initial parts of what is still to come
      have hbuf : s.buffer <+: frame a ++ as.flatMap frame := ⟨later, hs⟩
      have hframe : frame a <+: frame a ++ as.flatMap frame := List.prefix_append _ _
      rcases le_or_gt (frame a).length s.buffer.length with hle | hlt
      · -- the next frame is complete
        have hcut : frame a <+: s.buffer := List.prefix_of_prefix_length_le hframe hbuf hle
        obtain ⟨b, hb⟩ := hcut
        have hpos : 0 < (frame a).length := List.length_pos_iff.2 (h.ne_nil a ha)
        have hlen : (frame a).length + b.length = s.buffer.length := by
          rw [← hb, List.length_append]
        have hne : s.buffer ≠ [] := List.length_pos_iff.1 (by omega)
        have hd : decode s.calls s.buffer = .emit a (frame a).length := hb ▸ h.emit a ha _ b
        have hdrop : s.buffer.drop (frame a).length = b := by rw [← hb, List.drop_left]
        have hlater : b ++ later = as.flatMap frame := by
          rw [← hb, List.append_assoc] at hs
          exact List.append_cancel_left hs
        obtain ⟨done, rest, b', calls, has', hdrain, hrest, hpending⟩ :=
          ih (s := ⟨b, s.emitted ++ [a], s.calls + 1⟩) (by simp only; omega)
            (fun a' h' => has a' (List.mem_cons_of_mem _ h')) hlater
        refine ⟨a :: done, rest, b', calls, by rw [has', List.cons_append], ?_, hrest, hpending⟩
        rw [drain_emit hne hd, hdrop, hdrain, List.append_assoc, List.singleton_append]
      · -- the next frame is cut
        have hcut : s.buffer <+: frame a := List.prefix_of_prefix_length_le hbuf hframe hlt.le
        have hne : s.buffer ≠ frame a := by
          intro he
          rw [he] at hlt
          exact lt_irrefl _ hlt
        rcases eq_or_ne s.buffer [] with hb | hb
        · refine ⟨[], a :: as, s.buffer, s.calls, rfl, ?_, hs, hcut, hne⟩
          rw [drain_nil hb, List.append_nil]
        · refine ⟨[], a :: as, s.buffer, s.calls + 1, rfl, ?_, hs, hcut, hne⟩
          rw [drain_wait hb (h.wait a ha _ _ hb hcut hne), List.append_nil]

/-- A stream that is used up leaves nothing pending. -/
theorem Pending.eq_nil {b : List β} {as : List α} (h : Pending frame b as)
    (hb : b = as.flatMap frame) : b = [] ∧ as = [] := by
  cases as with
  | nil => exact ⟨h, rfl⟩
  | cons a as =>
    obtain ⟨hcut, hne⟩ := h
    rw [List.flatMap_cons] at hb
    have hle := hcut.length_le
    rw [hb, List.length_append] at hle
    have hrest : as.flatMap frame = [] := List.length_eq_zero_iff.1 (by omega)
    rw [hrest, List.append_nil] at hb
    exact absurd hb hne

theorem foldlM_feed (h : Framed decode frame ok) {chunks : List (List β)} {s : State α β}
    {as : List α} (has : ∀ a ∈ as, ok a) (hs : s.buffer ++ chunks.flatten = as.flatMap frame)
    (hp : Pending frame s.buffer as) :
    ∃ calls, chunks.foldlM (feed decode) s = some ⟨[], s.emitted ++ as, calls⟩ := by
  induction chunks generalizing s as with
  | nil =>
    rw [List.flatten_nil, List.append_nil] at hs
    obtain ⟨hb, rfl⟩ := hp.eq_nil hs
    refine ⟨s.calls, ?_⟩
    rw [List.foldlM_nil, List.append_nil, ← hb]
    rfl
  | cons chunk chunks ih =>
    rw [List.flatten_cons, ← List.append_assoc] at hs
    obtain ⟨done, rest, b, calls, rfl, hdrain, hrest, hpending⟩ :=
      @drain_frames _ _ _ _ _ h ((s.buffer ++ chunk).length + 1)
        { s with buffer := s.buffer ++ chunk } (Nat.lt_succ_self _) as has _ hs
    have hfeed : feed decode s chunk = some ⟨b, s.emitted ++ done, calls⟩ := hdrain
    obtain ⟨calls', hrun⟩ := @ih ⟨b, s.emitted ++ done, calls⟩ rest
      (fun a ha => has a (List.mem_append_right _ ha)) hrest hpending
    refine ⟨calls', ?_⟩
    rw [List.foldlM_cons, hfeed, ← List.append_assoc]
    exact hrun

/-- **Reassembly.**  However the stream is cut into chunks, the receiver emits exactly the framed
values, in order, and ends with an empty buffer. -/
theorem run_frames (h : Framed decode frame ok) {chunks : List (List β)} {as : List α}
    (has : ∀ a ∈ as, ok a) (hs : chunks.flatten = as.flatMap frame) :
    ∃ calls, run decode chunks = some ⟨[], as, calls⟩ := by
  have hp : Pending frame [] as := by
    cases as with
    | nil => rfl
    | cons a as => exact ⟨List.nil_prefix, (h.ne_nil a (has a List.mem_cons_self)).symm⟩
  exact @foldlM_feed _ _ _ _ _ h chunks {} as has hs hp

end Reassembly
