import Culex.Observing
import Culex.TopicMap

/-!
# What `split` keeps apart

Two topics are one to the tree if `split` makes the same levels of them.  It looks at no first
character, and not at a `/` that ends a topic behind another character, so that it keeps apart what
differs elsewhere (`split_eq_iff`), and loses a wildcard that is the first level
(`mem_split_iff`).
-/

namespace Culex

/-- A string with a `/` at its end, if it is not empty. -/
def terminated (str : Bytes) : Bytes :=
  if str = [] ∨ str.getLast? = some 47 then str else str ++ [47]

/-! ### The levels and the string -/

section Levels

variable {str str' temp word : Bytes}

theorem terminated_cons (c : UInt8) (h : str ≠ []) :
    terminated (c :: str) = c :: terminated str := by
  obtain ⟨b, rest, rfl⟩ := List.exists_cons_of_ne_nil h
  simp only [terminated, List.getLast?_cons_cons, reduceCtorEq, false_or]
  split_ifs <;> rfl

/-- The levels spell the string. -/
theorem flatMap_splitLoop (h : str ≠ []) (temp : Bytes) :
    (splitLoop temp str).flatMap (· ++ [47]) = temp ++ terminated str := by
  induction str generalizing temp with
  | nil => exact absurd rfl h
  | cons c rest ih =>
    rw [splitLoop]
    by_cases hr : rest = []
    · subst hr
      by_cases hc : c = 47
      · subst hc
        simp [splitLoop, terminated]
      · simp [terminated, hc]
    · rw [terminated_cons c hr]
      split_ifs with hc
      · subst hc
        rw [List.flatMap_cons, ih hr, List.append_assoc]
        rfl
      · rw [ih hr, List.append_assoc]
        rfl

theorem flatMap_splitLoop_nil (str : Bytes) :
    (splitLoop [] str).flatMap (· ++ [47]) = terminated str := by
  by_cases h : str = []
  · rw [h]
    rfl
  · exact flatMap_splitLoop h []

/-- **What `split` looks at**: all but the first character and a `/` that ends the topic behind
another character. -/
theorem splitLoop_eq_iff :
    splitLoop [] str = splitLoop [] str' ↔ terminated str = terminated str' := by
  constructor
  · intro h
    rw [← flatMap_splitLoop_nil, h, flatMap_splitLoop_nil]
  · -- the levels are those of the string that they spell
    have hspelled : ∀ str, split (47 :: terminated str) = slash :: splitLoop [] str := by
      intro str
      rw [← flatMap_splitLoop_nil]
      exact split_join fun word hw => notMem_of_mem_splitLoop List.not_mem_nil hw
    intro h
    have hsplit := hspelled str
    rw [h, hspelled str'] at hsplit
    exact (List.cons.inj hsplit).2.symm

theorem split_eq_iff {s t : Bytes} (hs : s ≠ []) (ht : t ≠ []) :
    split s = split t ↔ terminated s.tail = terminated t.tail := by
  obtain ⟨b, str, rfl⟩ := List.exists_cons_of_ne_nil hs
  obtain ⟨b', str', rfl⟩ := List.exists_cons_of_ne_nil ht
  show slash :: _ = slash :: _ ↔ _
  rw [List.cons_inj_right, splitLoop_eq_iff, List.tail_cons, List.tail_cons]

theorem levels_cons (c : UInt8) (str : Bytes) :
    levels (c :: str) = if c = 47 then [] :: levels str else (levels str).modifyHead (c :: ·) := by
  rw [levels, List.splitOn, List.splitOnP_cons_eq_if_modifyHead]
  by_cases h : c = 47
  · rw [if_pos h, if_pos (by simpa using h)]
    rfl
  · rw [if_neg h, if_neg (by simpa using h)]
    rfl

theorem modifyHead_nil_append (words : List Bytes) :
    words.modifyHead (([] : Bytes) ++ ·) = words := by
  cases words <;> rfl

/-- A level that is not empty is one that `split` makes. -/
theorem mem_splitLoop_iff (hw : word ≠ []) (hs : str ≠ []) (temp : Bytes) :
    word ∈ splitLoop temp str ↔ word ∈ (levels str).modifyHead (temp ++ ·) := by
  induction str generalizing temp with
  | nil => exact absurd rfl hs
  | cons c rest ih =>
    rw [splitLoop, levels_cons]
    by_cases hr : rest = []
    · subst hr
      have hnil : levels [] = [[]] := rfl
      rw [hnil, if_pos rfl]
      split_ifs <;> simp [splitLoop, hw]
    · split_ifs with hc
      · rw [List.modifyHead_cons, List.mem_cons, List.mem_cons, ih hr, modifyHead_nil_append,
          List.append_nil]
      · rw [ih hr, List.modifyHead_modifyHead]
        simp [Function.comp_def]

theorem mem_splitLoop_nil_iff (hw : word ≠ []) : word ∈ splitLoop [] str ↔ word ∈ levels str := by
  by_cases hs : str = []
  · subst hs
    exact iff_of_false List.not_mem_nil fun h => hw (List.mem_singleton.1 h)
  · rw [mem_splitLoop_iff hw hs, modifyHead_nil_append]

end Levels

/-! ### Wildcards -/

/-- A wildcard that is a level. -/
def Wildcard (word : Bytes) : Prop := word = plus ∨ word = hash

instance (word : Bytes) : Decidable (Wildcard word) :=
  inferInstanceAs (Decidable (word = plus ∨ word = hash))

section Wildcards

variable {word : Bytes}

theorem Wildcard.ne_nil (h : Wildcard word) : word ≠ [] := by
  rcases h with rfl | rfl <;> decide

theorem Wildcard.ne_slash (h : Wildcard word) : word ≠ slash := by
  rcases h with rfl | rfl <;> decide

/-- One character. -/
theorem Wildcard.tail_eq_nil {c : UInt8} {rest : Bytes} (h : Wildcard (c :: rest)) : rest = [] := by
  rcases h with h | h <;> exact (List.cons.inj h).2

/-- The first level is no wildcard, or that is a later level, too. -/
def Unled (topic : Bytes) : Prop :=
  ∀ word ∈ (levels topic).head?, Wildcard word → word ∈ (levels topic).tail

/-- **Which wildcards `split` keeps**: the first level is one only if it is repeated. -/
theorem wildcards_kept_iff {topic : Bytes} (h : topic ≠ []) :
    (∀ word ∈ levels topic, Wildcard word → word ∈ split topic) ↔ Unled topic := by
  obtain ⟨c, str, rfl⟩ := List.exists_cons_of_ne_nil h
  have hmem : ∀ word, Wildcard word → (word ∈ split (c :: str) ↔ word ∈ levels str) := by
    intro word hw
    show word ∈ slash :: splitLoop [] str ↔ _
    rw [List.mem_cons, mem_splitLoop_nil_iff hw.ne_nil]
    exact or_iff_right hw.ne_slash
  unfold Unled
  by_cases hc : c = 47
  · -- the first level is empty
    rw [levels_cons, if_pos hc]
    refine iff_of_true (fun word hw hwild => ?_) fun word hw hwild => ?_
    · rw [hmem word hwild]
      exact (List.mem_cons.1 hw).resolve_left hwild.ne_nil
    · exact absurd (Option.mem_some_iff.1 hw).symm hwild.ne_nil
  · obtain ⟨w, ws, hlevels⟩ := List.exists_cons_of_ne_nil (List.splitOnP_ne_nil (· == 47) str)
    replace hlevels : levels str = w :: ws := hlevels
    rw [levels_cons, if_neg hc, hlevels, List.modifyHead_cons, List.head?_cons, List.tail_cons]
    rw [hlevels] at hmem
    constructor
    · intro hkept word hw hwild
      obtain rfl := Option.mem_some_iff.1 hw
      have hin := (hmem _ hwild).1 (hkept _ List.mem_cons_self hwild)
      refine (List.mem_cons.1 hin).resolve_left fun he => ?_
      rw [hwild.tail_eq_nil] at he
      cases he
    · intro hled word hw hwild
      refine (hmem word hwild).2 (List.mem_cons_of_mem _ ?_)
      rcases List.mem_cons.1 hw with rfl | hw
      · exact hled _ rfl hwild
      · exact hw

end Wildcards

/-! ### Keeping topics apart -/

/-- What keeping the topics apart asks of `split`: other levels for another topic, no common node
for two topics without wildcards, and the wildcards of the topic among the levels. -/
structure KeepsApart (s t : Bytes) : Prop where
  apart : split s = split t → s = t
  nodes : Concrete s → Concrete t → s ≠ t → ∀ (tree tree' : TopicTree) (path : Path),
    path ∈ (tree.getNode s).2 → path ∉ (tree'.getNode t).2
  wildcards : ∀ word ∈ levels s, Wildcard word → word ∈ split s

/-- **`split` keeps two topics apart** if and only if they are one topic, or differ behind their
first characters by more than a `/` that ends one of them behind another character, and the first
level is no wildcard that is not repeated. -/
theorem keepsApart_iff {s t : Bytes} (hs : s ≠ []) (ht : t ≠ []) :
    KeepsApart s t ↔ (s = t ∨ terminated s.tail ≠ terminated t.tail) ∧ Unled s := by
  constructor
  · rintro ⟨hapart, -, hwild⟩
    refine ⟨?_, (wildcards_kept_iff hs).1 hwild⟩
    rw [or_iff_not_imp_right, not_not, ← split_eq_iff hs ht]
    exact hapart
  · rintro ⟨hne, hled⟩
    rw [or_iff_not_imp_right, not_not, ← split_eq_iff hs ht] at hne
    refine ⟨hne, fun hcs hct hst tree tree' path hp hp' => ?_, (wildcards_kept_iff hs).2 hled⟩
    rw [TopicTree.mem_getNode_of_concrete hcs] at hp
    rw [TopicTree.mem_getNode_of_concrete hct] at hp'
    exact hst (hne (hp.symm.trans hp'))

/-- `"/a"` and `"/a/b"`. -/
theorem keepsApart_iff_below : KeepsApart [47, 97] topicAB :=
  (keepsApart_iff (by decide) (by decide)).2 ⟨.inr (by decide), by unfold Unled; decide⟩

/-- `"ta"` and `"/a"` have the same levels. -/
theorem not_keepsApart_first :
    ¬ ∀ s t : Bytes, s ≠ [] → t ≠ [] → KeepsApart s t := by
  intro h
  have heq := (h [116, 97] [47, 97] (by decide) (by decide)).apart rfl
  revert heq
  decide

end Culex
