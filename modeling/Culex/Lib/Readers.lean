import Culex.Lib.Interleaving
import Culex.Lib.Reassembly

/-!
# Concurrent readers of a stream

Several readers take values off the front of one buffer.  A reader decodes a value, erases its bytes
and hands it on, in three steps, and others may act in between.

* `Readers.next`: the steps of a reader;
* `Alone`: a value is decoded while no other reader holds one that it has yet to erase;
* `Readers.once_of_alone`: then each value is handed on once;
* `Readers.doubled_of_not_alone`, `Readers.not_once_of_doubled`: else, once all have returned, one
  has been handed on twice.
-/

namespace Readers

open Reassembly

/-- A value that has been handed on, by a reader that found it at a place of the stream. -/
structure Entry (ι α : Type) where
  reader : ι
  place : ℕ
  value : α

/-- The buffer, how many bytes have been erased from it, and what has been handed on. -/
structure Shared (ι α β : Type) where
  buffer : List β
  offset : ℕ := 0
  handled : List (Entry ι α) := []

/-- How far a reader is. -/
inductive Progress (α : Type)
  | queued
  | decoded (place : ℕ) (value : α) (size : ℕ)
  | erased (place : ℕ) (value : α)
  | handled (place : ℕ)
  | rejected
  | returned
  deriving DecidableEq

/-- The steps; what a decoder sees besides the buffer is left open. -/
inductive Action (δ : Type)
  | decode (d : δ)
  | erase
  | handle

variable {ι α β δ : Type} (decode : δ → List β → Verdict α)

/-- A step of a reader. -/
def next (i : ι) : Action δ → Shared ι α β → Progress α → Option (Shared ι α β × Progress α)
  | .decode d, s, .queued =>
    match decode d s.buffer with
    | .emit a size => some (s, .decoded s.offset a size)
    | .wait => some (s, .returned)
    | .reject => some (s, .rejected)
  | .erase, s, .decoded place a size =>
    some ({ s with
      buffer := s.buffer.drop size
      offset := s.offset + min size s.buffer.length }, .erased place a)
  | .handle, s, .erased place a =>
    some ({ s with handled := s.handled ++ [⟨i, place, a⟩] }, .handled place)
  | .handle, s, .rejected => some (s, .returned)
  | _, _, _ => none

/-- A value is decoded from these bytes, whatever follows them. -/
structure Decodes (bytes : List β) : Prop where
  ne_nil : bytes ≠ []
  emit : ∀ d rest, ∃ a, decode d (bytes ++ rest) = .emit a bytes.length

/-- A stream: the pieces are decoded to values, and what follows them is not. -/
structure Stream (pieces : List (List β)) (rest : List β) : Prop where
  decodes : ∀ bytes ∈ pieces, Decodes decode bytes
  rest_ne : ∀ d a size, decode d rest ≠ .emit a size

/-- Where the piece number `k` starts. -/
def start (pieces : List (List β)) (k : ℕ) : ℕ := (pieces.take k).flatten.length

/-- Every reader is queued, and nothing has been erased. -/
def initial (buffer : List β) : Threads ι (Shared ι α β) (Progress α) where
  shared := { buffer }
  own _ := .queued

/-- A reader that decodes a value does so while no other holds one that it has yet to erase. -/
def Alone (s : Threads ι (Shared ι α β) (Progress α)) (step : ι × Action δ) : Prop :=
  ∀ d a size, step.2 = .decode d → s.own step.1 = .queued →
    decode d s.shared.buffer = .emit a size →
      ∀ j, j ≠ step.1 → ∀ place b size', s.own j ≠ .decoded place b size'

/-- Each value has been handed on once at most, and where its bytes have been erased, it has been
handed on or is about to be. -/
structure Once (pieces : List (List β)) (s : Threads ι (Shared ι α β) (Progress α)) : Prop where
  le_one : ∀ k, k < pieces.length →
    (s.shared.handled.map Entry.place).count (start pieces k) ≤ 1
  not_lost : ∀ k, k < pieces.length → start pieces k < s.shared.offset →
    (∃ e ∈ s.shared.handled, e.place = start pieces k) ∨
      ∃ i a, s.own i = .erased (start pieces k) a

/-- Every reader is queued or done. -/
def Quiet (s : Threads ι (Shared ι α β) (Progress α)) : Prop :=
  ∀ i, s.own i = .queued ∨ (∃ place, s.own i = .handled place) ∨ s.own i = .returned

/-- A reader has a value that it found at a place. -/
def Progress.Has (place : ℕ) : Progress α → Prop
  | .decoded place' _ _ => place' = place
  | .erased place' _ => place' = place
  | .handled place' => place' = place
  | .queued => False
  | .rejected => False
  | .returned => False

/-- Two readers have the same value. -/
def Doubled (pieces : List (List β)) (s : Threads ι (Shared ι α β) (Progress α)) : Prop :=
  ∃ k < pieces.length, ∃ i j, i ≠ j ∧ (s.own i).Has (start pieces k) ∧
    (s.own j).Has (start pieces k)

section Stream

variable {decode} {pieces : List (List β)} {rest : List β} {k l : ℕ}

/-! ### Places -/

theorem start_succ {piece : List β} (h : pieces[k]? = some piece) :
    start pieces (k + 1) = start pieces k + piece.length := by
  unfold start
  rw [List.take_add_one, h, List.flatten_append, List.length_append]
  simp

theorem flatten_drop {piece : List β} (h : pieces[k]? = some piece) :
    (pieces.drop k).flatten = piece ++ (pieces.drop (k + 1)).flatten := by
  have hk : k < pieces.length := (List.getElem?_eq_some_iff.1 h).1
  rw [List.drop_eq_getElem_cons hk, List.flatten_cons]
  rw [List.getElem?_eq_getElem hk, Option.some.injEq] at h
  rw [h]

/-- Later pieces start later. -/
theorem start_lt (hp : Stream decode pieces rest) (hkl : k < l) (hl : l ≤ pieces.length) :
    start pieces k < start pieces l := by
  induction l with
  | zero => omega
  | succ l ih =>
    obtain ⟨piece, hpiece⟩ : ∃ piece, pieces[l]? = some piece :=
      ⟨pieces[l], List.getElem?_eq_getElem (by omega)⟩
    have hpos : 0 < piece.length :=
      List.length_pos_iff.2 (hp.decodes piece (List.mem_of_getElem? hpiece)).ne_nil
    rw [start_succ hpiece]
    rcases Nat.lt_succ_iff_lt_or_eq.1 hkl with hlt | rfl
    · have := ih hlt (by omega)
      omega
    · omega

theorem lt_of_start_lt (hp : Stream decode pieces rest) (hk : k ≤ pieces.length)
    (h : start pieces k < start pieces l) : k < l := by
  by_contra hle
  rcases (not_lt.1 hle).eq_or_lt with rfl | hlt
  · exact lt_irrefl _ h
  · exact lt_asymm h (start_lt hp hlt hk)

end Stream

/-! ### Steps -/

section Steps

variable [DecidableEq ι] {decode} {pieces : List (List β)} {rest : List β}
  {s s' : Threads ι (Shared ι α β) (Progress α)} {i : ι} {step : ι × Action δ}

/-- The steps of a reader, by what they find. -/
inductive Moves (decode : δ → List β → Verdict α) (i : ι) (s : Shared ι α β) :
    Action δ → Progress α → Shared ι α β → Progress α → Prop
  | decode {d : δ} {a : α} {size : ℕ} (hd : decode d s.buffer = .emit a size) :
      Moves decode i s (.decode d) .queued s (.decoded s.offset a size)
  | wait {d : δ} (hd : decode d s.buffer = .wait) : Moves decode i s (.decode d) .queued s .returned
  | reject {d : δ} (hd : decode d s.buffer = .reject) :
      Moves decode i s (.decode d) .queued s .rejected
  | erase {place : ℕ} {a : α} {size : ℕ} :
      Moves decode i s .erase (.decoded place a size) { s with
        buffer := s.buffer.drop size
        offset := s.offset + min size s.buffer.length } (.erased place a)
  | handle {place : ℕ} {a : α} :
      Moves decode i s .handle (.erased place a)
        { s with handled := s.handled ++ [⟨i, place, a⟩] } (.handled place)
  | fail : Moves decode i s .handle .rejected s .returned

omit [DecidableEq ι] in
theorem moves_of_next {a : Action δ} {s s' : Shared ι α β} {own own' : Progress α}
    (h : next decode i a s own = some (s', own')) : Moves decode i s a own s' own' := by
  unfold next at h
  split at h
  · split at h
    · next hd =>
      obtain ⟨rfl, rfl⟩ := Prod.mk.inj (Option.some.inj h)
      exact .decode hd
    · next hd =>
      obtain ⟨rfl, rfl⟩ := Prod.mk.inj (Option.some.inj h)
      exact .wait hd
    · next hd =>
      obtain ⟨rfl, rfl⟩ := Prod.mk.inj (Option.some.inj h)
      exact .reject hd
  · obtain ⟨rfl, rfl⟩ := Prod.mk.inj (Option.some.inj h)
    exact .erase
  · obtain ⟨rfl, rfl⟩ := Prod.mk.inj (Option.some.inj h)
    exact .handle
  · obtain ⟨rfl, rfl⟩ := Prod.mk.inj (Option.some.inj h)
    exact .fail
  · cases h

/-- What holds while the readers keep out of each other's way, with `n` values erased. -/
structure Solo (pieces : List (List β)) (rest : List β) (n : ℕ)
    (s : Threads ι (Shared ι α β) (Progress α)) : Prop where
  le : n ≤ pieces.length
  offset : s.shared.offset = start pieces n
  buffer : s.shared.buffer = (pieces.drop n).flatten ++ rest
  /-- One reader at most holds the value at the front. -/
  decoded : ∀ i place a size, s.own i = .decoded place a size →
    place = start pieces n ∧ ∃ piece, pieces[n]? = some piece ∧ size = piece.length
  sole : ∀ i j place a size place' a' size', s.own i = .decoded place a size →
    s.own j = .decoded place' a' size' → i = j
  /-- Each value that has been erased is held by one reader, or has been handed on. -/
  erased : ∀ i place a, s.own i = .erased place a → ∃ k < n, place = start pieces k
  erased_sole : ∀ i j place a a', s.own i = .erased place a → s.own j = .erased place a' → i = j
  erased_new : ∀ i place a, s.own i = .erased place a → ∀ e ∈ s.shared.handled, e.place ≠ place
  handled : ∀ e ∈ s.shared.handled, ∃ k < n, e.place = start pieces k
  nodup : (s.shared.handled.map Entry.place).Nodup
  done : ∀ k < n, (∃ e ∈ s.shared.handled, e.place = start pieces k) ∨
    ∃ i a, s.own i = .erased (start pieces k) a

omit [DecidableEq ι] in
theorem Solo.initial (pieces : List (List β)) (rest : List β) :
    Solo pieces rest 0 (initial (pieces.flatten ++ rest) : Threads ι (Shared ι α β) (Progress α)) where
  le := Nat.zero_le _
  offset := rfl
  buffer := rfl
  decoded _ _ _ _ h := by cases h
  sole _ _ _ _ _ _ _ _ h := by cases h
  erased _ _ _ h := by cases h
  erased_sole _ _ _ _ _ h := by cases h
  erased_new _ _ _ h := by cases h
  handled _ he := absurd he List.not_mem_nil
  nodup := List.nodup_nil
  done k hk := absurd hk (Nat.not_lt_zero k)

/-- A reader that steps to or from a state in which it holds nothing changes nothing. -/
theorem Solo.idle {n : ℕ} (h : Solo pieces rest n s) {own' : Progress α}
    (hbefore : ∀ place a, s.own i ≠ .erased place a)
    (hdecoded : ∀ place a size, own' ≠ .decoded place a size)
    (herased : ∀ place a, own' ≠ .erased place a) :
    Solo pieces rest n ⟨s.shared, Function.update s.own i own'⟩ := by
  have hother : ∀ j, j ≠ i → Function.update s.own i own' j = s.own j :=
    fun j hj => Function.update_of_ne hj own' s.own
  have hstay : ∀ j place a, Function.update s.own i own' j = .erased place a →
      s.own j = .erased place a := by
    intro j place a hj
    by_cases he : j = i
    · subst he
      rw [Function.update_self] at hj
      exact absurd hj (herased place a)
    · rwa [hother j he] at hj
  have hkeep : ∀ j place a size, Function.update s.own i own' j = .decoded place a size →
      s.own j = .decoded place a size := by
    intro j place a size hj
    by_cases he : j = i
    · subst he
      rw [Function.update_self] at hj
      exact absurd hj (hdecoded place a size)
    · rwa [hother j he] at hj
  refine { h with
    decoded := fun j place a size hj => h.decoded j place a size (hkeep j place a size hj)
    sole := fun j j' place a size place' a' size' hj hj' => h.sole j j' place a size place' a' size'
      (hkeep j place a size hj) (hkeep j' place' a' size' hj')
    erased := fun j place a hj => h.erased j place a (hstay j place a hj)
    erased_sole := fun j j' place a a' hj hj' => h.erased_sole j j' place a a' (hstay j place a hj)
      (hstay j' place a' hj')
    erased_new := fun j place a hj => h.erased_new j place a (hstay j place a hj)
    done := fun k hk => (h.done k hk).imp_right ?_ }
  rintro ⟨j, a, hj⟩
  have hne : j ≠ i := fun he => hbefore _ a (he ▸ hj)
  exact ⟨j, a, (hother j hne).trans hj⟩

/-- A value is decoded by a reader that is alone. -/
theorem Solo.take {n : ℕ} (h : Solo pieces rest n s) (hp : Stream decode pieces rest)
    {d : δ} {a : α} {size : ℕ} (hown : s.own i = .queued)
    (hd : decode d s.shared.buffer = .emit a size)
    (halone : ∀ j, j ≠ i → ∀ place b size', s.own j ≠ .decoded place b size') :
    Solo pieces rest n ⟨s.shared, Function.update s.own i (.decoded s.shared.offset a size)⟩ := by
  obtain ⟨piece, hpiece⟩ : ∃ piece, pieces[n]? = some piece := by
    rcases h.le.eq_or_lt with rfl | hlt
    · rw [h.buffer, List.drop_length] at hd
      exact absurd hd (hp.rest_ne d a size)
    · exact ⟨pieces[n], List.getElem?_eq_getElem hlt⟩
  have hsize : size = piece.length := by
    obtain ⟨b, hb⟩ := (hp.decodes piece (List.mem_of_getElem? hpiece)).emit d
      ((pieces.drop (n + 1)).flatten ++ rest)
    rw [h.buffer, flatten_drop hpiece, List.append_assoc, hb] at hd
    exact (Verdict.emit.inj hd).2.symm
  have hother : ∀ j, j ≠ i → Function.update s.own i (.decoded s.shared.offset a size) j =
      s.own j := fun j hj => Function.update_of_ne hj _ s.own
  have hself : Function.update s.own i (.decoded s.shared.offset a size) i =
      .decoded s.shared.offset a size := Function.update_self ..
  have hstay : ∀ j place b, Function.update s.own i (.decoded s.shared.offset a size) j =
      .erased place b → s.own j = .erased place b := by
    intro j place b hj
    by_cases he : j = i
    · rw [he, hself] at hj
      cases hj
    · rwa [hother j he] at hj
  have hsole : ∀ j place b size', Function.update s.own i (.decoded s.shared.offset a size) j =
      .decoded place b size' → j = i := by
    intro j place b size' hj
    by_contra he
    rw [hother j he] at hj
    exact halone j he place b size' hj
  refine { h with
    decoded := fun j place b size' hj => ?_
    sole := fun j j' place b size' place' b' size'' hj hj' =>
      (hsole j place b size' hj).trans (hsole j' place' b' size'' hj').symm
    erased := fun j place b hj => h.erased j place b (hstay j place b hj)
    erased_sole := fun j j' place b b' hj hj' => h.erased_sole j j' place b b' (hstay j place b hj)
      (hstay j' place b' hj')
    erased_new := fun j place b hj => h.erased_new j place b (hstay j place b hj)
    done := fun k hk => (h.done k hk).imp_right ?_ }
  · obtain rfl := hsole j place b size' hj
    obtain ⟨rfl, -, rfl⟩ := Progress.decoded.inj (hself.symm.trans hj)
    exact ⟨h.offset, piece, hpiece, hsize⟩
  · rintro ⟨j, b, hj⟩
    have hne : j ≠ i := by
      rintro rfl
      cases hown.symm.trans hj
    exact ⟨j, b, (hother j hne).trans hj⟩

/-- The value at the front is erased. -/
theorem Solo.erase {n : ℕ} (h : Solo pieces rest n s) (hp : Stream decode pieces rest)
    {place : ℕ} {a : α} {size : ℕ} (hown : s.own i = .decoded place a size) :
    Solo pieces rest (n + 1) ⟨{ s.shared with
      buffer := s.shared.buffer.drop size
      offset := s.shared.offset + min size s.shared.buffer.length },
      Function.update s.own i (.erased place a)⟩ := by
  obtain ⟨rfl, piece, hpiece, rfl⟩ := h.decoded i place a size hown
  have hn : n < pieces.length := (List.getElem?_eq_some_iff.1 hpiece).1
  have hbuffer : s.shared.buffer = piece ++ ((pieces.drop (n + 1)).flatten ++ rest) := by
    rw [h.buffer, flatten_drop hpiece, List.append_assoc]
  have hother : ∀ j, j ≠ i → Function.update s.own i (.erased (start pieces n) a) j = s.own j :=
    fun j hj => Function.update_of_ne hj _ s.own
  have hself : Function.update s.own i (.erased (start pieces n) a) i =
      .erased (start pieces n) a := Function.update_self ..
  -- the values that were erased before start earlier
  have hearlier : ∀ k < n, start pieces k ≠ start pieces n := fun k hk =>
    (start_lt hp hk h.le).ne
  have hcases : ∀ j place' b, Function.update s.own i (.erased (start pieces n) a) j =
      .erased place' b → j = i ∧ place' = start pieces n ∨ j ≠ i ∧ s.own j = .erased place' b := by
    intro j place' b hj
    by_cases he : j = i
    · rw [he, hself] at hj
      exact .inl ⟨he, (Progress.erased.inj hj).1.symm⟩
    · rw [hother j he] at hj
      exact .inr ⟨he, hj⟩
  have hnone : ∀ j place' b size', Function.update s.own i (.erased (start pieces n) a) j ≠
      .decoded place' b size' := by
    intro j place' b size' hj
    by_cases he : j = i
    · rw [he, hself] at hj
      cases hj
    · rw [hother j he] at hj
      exact he (h.sole j i _ _ _ _ _ _ hj hown)
  constructor
  case le => exact hn
  case offset =>
    show s.shared.offset + min piece.length s.shared.buffer.length = _
    rw [start_succ hpiece, h.offset, hbuffer, List.length_append,
      min_eq_left (Nat.le_add_right _ _)]
  case buffer =>
    show s.shared.buffer.drop piece.length = _
    rw [hbuffer, List.drop_left]
  case decoded => exact fun j place' b size' hj => absurd hj (hnone j place' b size')
  case sole => exact fun j _ place' b size' _ _ _ hj => absurd hj (hnone j place' b size')
  case erased =>
    intro j place' b hj
    rcases hcases j place' b hj with ⟨-, rfl⟩ | ⟨-, hj⟩
    · exact ⟨n, Nat.lt_succ_self n, rfl⟩
    · obtain ⟨k, hk, hplace⟩ := h.erased j place' b hj
      exact ⟨k, Nat.lt_succ_of_lt hk, hplace⟩
  case erased_sole =>
    intro j j' place' b b' hj hj'
    rcases hcases j place' b hj with ⟨he, hat⟩ | ⟨hne, hj⟩ <;>
      rcases hcases j' place' b' hj' with ⟨he', hat'⟩ | ⟨hne', hj'⟩
    · exact he.trans he'.symm
    · obtain ⟨k, hk, hplace⟩ := h.erased j' place' b' hj'
      exact absurd (hplace.symm.trans hat) (hearlier k hk)
    · obtain ⟨k, hk, hplace⟩ := h.erased j place' b hj
      exact absurd (hplace.symm.trans hat') (hearlier k hk)
    · exact h.erased_sole j j' place' b b' hj hj'
  case erased_new =>
    intro j place' b hj e he
    rcases hcases j place' b hj with ⟨-, rfl⟩ | ⟨-, hj⟩
    · obtain ⟨k, hk, hplace⟩ := h.handled e he
      exact hplace ▸ hearlier k hk
    · exact h.erased_new j place' b hj e he
  case handled =>
    intro e he
    obtain ⟨k, hk, hplace⟩ := h.handled e he
    exact ⟨k, Nat.lt_succ_of_lt hk, hplace⟩
  case nodup => exact h.nodup
  case done =>
    intro k hk
    rcases Nat.lt_succ_iff_lt_or_eq.1 hk with hk | rfl
    · refine (h.done k hk).imp_right ?_
      rintro ⟨j, b, hj⟩
      have hne : j ≠ i := by
        rintro rfl
        cases hown.symm.trans hj
      exact ⟨j, b, (hother j hne).trans hj⟩
    · exact .inr ⟨i, a, hself⟩

/-- A value is handed on. -/
theorem Solo.handle {n : ℕ} (h : Solo pieces rest n s) {place : ℕ} {a : α}
    (hown : s.own i = .erased place a) :
    Solo pieces rest n ⟨{ s.shared with handled := s.shared.handled ++ [⟨i, place, a⟩] },
      Function.update s.own i (.handled place)⟩ := by
  have hother : ∀ j, j ≠ i → Function.update s.own i (.handled place) j = s.own j :=
    fun j hj => Function.update_of_ne hj _ s.own
  have hself : Function.update s.own i (.handled place) i = .handled place :=
    Function.update_self ..
  have hstay : ∀ j place' b, Function.update s.own i (.handled place) j = .erased place' b →
      j ≠ i ∧ s.own j = .erased place' b := by
    intro j place' b hj
    by_cases he : j = i
    · rw [he, hself] at hj
      cases hj
    · rw [hother j he] at hj
      exact ⟨he, hj⟩
  have hkeep : ∀ j place' b size, Function.update s.own i (.handled place) j =
      .decoded place' b size → s.own j = .decoded place' b size := by
    intro j place' b size hj
    by_cases he : j = i
    · rw [he, hself] at hj
      cases hj
    · rwa [hother j he] at hj
  refine { h with
    decoded := fun j place' b size hj => h.decoded j place' b size (hkeep j place' b size hj)
    sole := fun j j' _ _ _ _ _ _ hj hj' => h.sole j j' _ _ _ _ _ _ (hkeep j _ _ _ hj)
      (hkeep j' _ _ _ hj')
    erased := fun j place' b hj => h.erased j place' b (hstay j place' b hj).2
    erased_sole := fun j j' place' b b' hj hj' => h.erased_sole j j' place' b b'
      (hstay j place' b hj).2 (hstay j' place' b' hj').2
    erased_new := fun j place' b hj e he => ?_
    handled := fun e he => ?_
    nodup := ?_
    done := fun k hk => ?_ }
  · obtain ⟨hne, hj⟩ := hstay j place' b hj
    rcases List.mem_append.1 he with he | he
    · exact h.erased_new j place' b hj e he
    · rw [List.mem_singleton.1 he]
      rintro rfl
      exact hne (h.erased_sole j i _ _ _ hj hown)
  · rcases List.mem_append.1 he with he | he
    · exact h.handled e he
    · rw [List.mem_singleton.1 he]
      exact h.erased i place a hown
  · rw [List.map_append, List.nodup_append]
    refine ⟨h.nodup, List.nodup_singleton _, ?_⟩
    rintro x hx y hy rfl
    obtain ⟨e, he, rfl⟩ := List.mem_map.1 hx
    exact h.erased_new i place a hown e he (List.mem_singleton.1 hy)
  · rcases h.done k hk with ⟨e, he, hplace⟩ | ⟨j, b, hj⟩
    · exact .inl ⟨e, List.mem_append_left _ he, hplace⟩
    · by_cases hne : j = i
      · subst hne
        obtain ⟨hplace, -⟩ := Progress.erased.inj (hown.symm.trans hj)
        exact .inl ⟨⟨j, place, a⟩, List.mem_append_right _ (List.mem_singleton_self _), hplace⟩
      · exact .inr ⟨j, b, (hother j hne).trans hj⟩

/-- A step by which no value is decoded beside another reader. -/
theorem Solo.next {n : ℕ} (h : Solo pieces rest n s) (hp : Stream decode pieces rest)
    (halone : Alone decode s step) (hstep : Interleaves (next decode) s step s') :
    ∃ n, Solo pieces rest n s' := by
  obtain ⟨shared, own, hnext, rfl⟩ := hstep
  obtain ⟨i, a⟩ := step
  have hmoves := moves_of_next hnext
  generalize hown : s.own i = before at hmoves
  cases hmoves with
  | decode hd => exact ⟨n, h.take hp hown hd (halone _ _ _ rfl hown hd)⟩
  | wait _ => exact ⟨n, h.idle (by simp [hown]) (by simp) (by simp)⟩
  | reject _ => exact ⟨n, h.idle (by simp [hown]) (by simp) (by simp)⟩
  | erase => exact ⟨n + 1, h.erase hp hown⟩
  | handle => exact ⟨n, h.handle hown⟩
  | fail => exact ⟨n, h.idle (by simp [hown]) (by simp) (by simp)⟩

omit [DecidableEq ι] in
theorem Solo.once {n : ℕ} (h : Solo pieces rest n s) (hp : Stream decode pieces rest) :
    Once pieces s where
  le_one k _ := List.nodup_iff_count_le_one.1 h.nodup _
  not_lost k hk hoffset := by
    rw [h.offset] at hoffset
    exact h.done k (lt_of_start_lt hp hk.le hoffset)

/-! ### Runs -/

theorem solo_of_alone (hp : Stream decode pieces rest) {steps : List (ι × Action δ)}
    (h : Run (Meeting (Interleaves (next decode)) (Alone decode)) (initial (pieces.flatten ++ rest))
      steps s) :
    ∃ n, Solo pieces rest n s := by
  refine h.invariant (I := fun s => ∃ n, Solo pieces rest n s) ⟨0, Solo.initial pieces rest⟩ ?_
  rintro s a s' ⟨n, hn⟩ ⟨halone, hstep⟩
  exact hn.next hp halone hstep

/-- While values are decoded by one reader at a time, each is handed on once. -/
theorem once_of_alone (hp : Stream decode pieces rest) {steps : List (ι × Action δ)}
    (h : Run (Meeting (Interleaves (next decode)) (Alone decode)) (initial (pieces.flatten ++ rest))
      steps s) :
    Once pieces s := by
  obtain ⟨n, hn⟩ := solo_of_alone hp h
  exact hn.once hp

/-! ### Values taken twice -/

omit [DecidableEq ι] in
theorem Progress.Has.next {place : ℕ} {a : Action δ} {shared shared' : Shared ι α β}
    {own own' : Progress α} (h : own.Has place)
    (hnext : Readers.next decode i a shared own = some (shared', own')) : own'.Has place := by
  cases moves_of_next hnext with
  | decode _ => exact h.elim
  | wait _ => exact h.elim
  | reject _ => exact h.elim
  | erase => exact h
  | handle => exact h
  | fail => exact h.elim

/-- A value that two readers have stays with them. -/
theorem Doubled.next (h : Doubled pieces s) (hstep : Interleaves (next decode) s step s') :
    Doubled pieces s' := by
  obtain ⟨k, hk, i, j, hij, hi, hj⟩ := h
  obtain ⟨i', a⟩ := step
  have hkeep : ∀ j, (s.own j).Has (start pieces k) → (s'.own j).Has (start pieces k) := by
    intro j hj
    by_cases he : j = i'
    · subst he
      exact hj.next hstep.step_self
    · rwa [hstep.own_of_ne he]
  exact ⟨k, hk, i, j, hij, hkeep i hi, hkeep j hj⟩

/-- A value that is decoded beside another reader is the one that the other has. -/
theorem doubled_of_not_alone {n : ℕ} (h : Solo pieces rest n s) (halone : ¬ Alone decode s step)
    (hstep : Interleaves (next decode) s step s') : Doubled pieces s' := by
  obtain ⟨i, action⟩ := step
  unfold Alone at halone
  push Not at halone
  obtain ⟨d, a, size, rfl, hown, hd, j, hj, place, b, size', hother⟩ := halone
  obtain ⟨rfl, piece, hpiece, -⟩ := h.decoded j place b size' hother
  have hn : n < pieces.length := (List.getElem?_eq_some_iff.1 hpiece).1
  refine ⟨n, hn, i, j, Ne.symm hj, ?_, ?_⟩
  · have hnext := hstep.step_self
    unfold Readers.next at hnext
    simp only at hown hd
    simp only [hown, hd, Option.some.injEq, Prod.mk.injEq] at hnext
    rw [← hnext.2]
    exact h.offset
  · rw [hstep.own_of_ne hj, hother]
    rfl

/-- What a reader has handed on is on record. -/
def Logged (s : Threads ι (Shared ι α β) (Progress α)) : Prop :=
  ∀ i place, s.own i = .handled place → ∃ a, ⟨i, place, a⟩ ∈ s.shared.handled

theorem Logged.next (h : Logged s) (hstep : Interleaves (next decode) s step s') : Logged s' := by
  obtain ⟨i, action⟩ := step
  intro j place hj
  have hmoves := moves_of_next hstep.step_self
  by_cases he : j = i
  · subst he
    generalize s.own j = before, s'.own j = own', s'.shared = shared' at hj hmoves
    subst hj
    cases hmoves with
    | @handle place a =>
      exact ⟨a, List.mem_append_right _ (List.mem_singleton_self _)⟩
  · rw [hstep.own_of_ne he] at hj
    obtain ⟨a, ha⟩ := h j place hj
    refine ⟨a, ?_⟩
    generalize s.own i = before, s'.own i = own', s'.shared = shared' at hmoves
    cases hmoves with
    | decode _ => exact ha
    | wait _ => exact ha
    | reject _ => exact ha
    | erase => exact ha
    | handle => exact List.mem_append_left _ ha
    | fail => exact ha

omit [DecidableEq ι] in
/-- Once all have returned, a value that two readers had has been handed on twice. -/
theorem not_once_of_doubled (h : Doubled pieces s) (hquiet : Quiet s) (hlogged : Logged s) :
    ¬ Once pieces s := by
  obtain ⟨k, hk, i, j, hij, hi, hj⟩ := h
  have hrecord : ∀ i, (s.own i).Has (start pieces k) →
      ∃ a, ⟨i, start pieces k, a⟩ ∈ s.shared.handled := by
    intro i hi
    rcases hquiet i with ho | ⟨place, ho⟩ | ho
    · rw [ho] at hi
      exact hi.elim
    · rw [ho] at hi
      exact hi ▸ hlogged i place ho
    · rw [ho] at hi
      exact hi.elim
  obtain ⟨a, ha⟩ := hrecord i hi
  obtain ⟨b, hb⟩ := hrecord j hj
  intro honce
  have hle := honce.le_one k hk
  obtain ⟨before, after, hsplit⟩ := List.append_of_mem ha
  rw [hsplit] at hb hle
  have hother : ⟨j, start pieces k, b⟩ ∈ before ∨ ⟨j, start pieces k, b⟩ ∈ after := by
    rcases List.mem_append.1 hb with hb | hb
    · exact .inl hb
    · rcases List.mem_cons.1 hb with he | hb
      · exact absurd (Entry.mk.inj he).1.symm hij
      · exact .inr hb
  have hcount : 0 < (before.map Entry.place).count (start pieces k) +
      (after.map Entry.place).count (start pieces k) := by
    rcases hother with hb | hb
    · have := List.count_pos_iff.2 (List.mem_map_of_mem (f := Entry.place) hb)
      exact Nat.add_pos_left this _
    · have := List.count_pos_iff.2 (List.mem_map_of_mem (f := Entry.place) hb)
      exact Nat.add_pos_right _ this
  rw [List.map_append, List.map_cons, List.count_append, List.count_cons_self] at hle
  omega

end Steps

end Readers
