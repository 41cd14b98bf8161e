import Culex.Pointers

/-!
# The tree behind the pointers

What the calls of the tree make of it when they are run over pointers, link by link: every link of
every node holds a child at its own level, so `getLink` finds every key it is asked for and no null
pointer is dereferenced.

* `Moved`: what `getNode` does from a node on, in a tree of which only the nodes below it change;
* `exists_getNode`: it does so on every list of levels, by induction on them;
* `exists_calls`: any calls run to their end, on a tree with the nodes and the subscriptions of the
  `TopicTree`;
* `represented_calls`: the invariant of the representation, after any calls.
-/

namespace Culex

open Node

/-! ### Changing a node of the tree -/

namespace Node

variable {root n : Node} {f : Node → Node} {path q : Path}

/-- Below the node that is changed. -/
theorem find_modify_append (h : root.find path = some n) (q : Path) :
    (modify f path root).find (path ++ q) = (f n).find q := by
  induction path generalizing root with
  | nil =>
    obtain rfl := Option.some.inj h
    rfl
  | cons str path ih =>
    obtain ⟨c, hc, hp⟩ := Option.bind_eq_some_iff.1 ((find_cons root str path).symm.trans h)
    rw [modify, hc]
    show (root.setLink str _).find (str :: (path ++ q)) = _
    rw [find_cons_of_child (child_setLink_self _ _ _)]
    exact ih hp

/-- Neither below the node that is changed nor on the way to it. -/
theorem find_modify_aside (h : ¬ path <+: q) (h' : ¬ q <+: path) :
    (modify f path root).find q = root.find q := by
  induction path generalizing root q with
  | nil => exact absurd List.nil_prefix h
  | cons str path ih =>
    cases hc : root.child str with
    | none => rw [modify, hc]
    | some c =>
      rw [modify, hc]
      cases q with
      | nil => exact absurd List.nil_prefix h'
      | cons s q =>
        by_cases hs : s = str
        · subst hs
          rw [List.cons_prefix_cons] at h h'
          show (root.setLink s _).find (s :: q) = _
          rw [find_cons_of_child (child_setLink_self _ _ _), find_cons_of_child hc]
          exact ih (fun hp => h ⟨rfl, hp⟩) fun hp => h' ⟨rfl, hp⟩
        · rw [find_cons, find_cons, child_setLink_ne _ _ hs]

theorem level_modify_of (hn : root.find path = some n) (hlevel : (f n).level = n.level) :
    (modify f path root).level = root.level := by
  cases path with
  | nil =>
    obtain rfl := Option.some.inj hn
    exact hlevel
  | cons str path =>
    obtain ⟨c, hc, -⟩ := Option.bind_eq_some_iff.1 ((find_cons root str path).symm.trans hn)
    rw [modify, hc, level_setLink]

theorem WellFormed.modify_of (h : root.WellFormed) (hn : root.find path = some n)
    (hf : (f n).WellFormed) (hlevel : (f n).level = n.level) :
    (Node.modify f path root).WellFormed := by
  induction path generalizing root with
  | nil =>
    obtain rfl := Option.some.inj hn
    exact hf
  | cons str path ih =>
    obtain ⟨c, hc, hp⟩ := Option.bind_eq_some_iff.1 ((find_cons root str path).symm.trans hn)
    rw [Node.modify, hc]
    refine h.setLink (ih (h.of_child hc) hp) ?_ (h.key_ne (mem_keys_of_child hc))
    rw [level_modify_of hp hlevel, h.level_of_child hc]

theorem Grows.modify_of (hn : root.find path = some n) (hf : Grows n (f n)) :
    Grows root (modify f path root) := by
  induction path generalizing root with
  | nil =>
    obtain rfl := Option.some.inj hn
    exact hf
  | cons str path ih =>
    obtain ⟨c, hc, hp⟩ := Option.bind_eq_some_iff.1 ((find_cons root str path).symm.trans hn)
    rw [modify, hc]
    exact .setLink hc (ih hp)

theorem WellFormed.of_find (h : root.WellFormed) (hn : root.find path = some n) : n.WellFormed := by
  induction path generalizing root with
  | nil =>
    obtain rfl := Option.some.inj hn
    exact h
  | cons str path ih =>
    obtain ⟨c, hc, hp⟩ := Option.bind_eq_some_iff.1 ((find_cons root str path).symm.trans hn)
    exact ih (h.of_child hc) hp

end Node

/-! ### What `getNode` does -/

/-- What a walk from a node on, in the tree of `w`, ends with: it appends pointers to the nodes `R`
below the node, adds the nodes `S` below it, and changes nothing else. -/
structure Moved (w w' : Walk) (ptr : Path) (paths : List Path) (S R : Path → Prop) : Prop where
  vec : w'.vec = (w.append ptr paths).vec
  missed : w'.missed = w.missed
  nodup : paths.Nodup
  mem : ∀ path, path ∈ paths ↔ R path
  wellFormed : w'.root.WellFormed
  grows : Grows w.root w'.root
  below : ∀ q, (w'.root.find (ptr ++ q)).isSome ↔ (w.root.find (ptr ++ q)).isSome ∨ S q
  aside : ∀ q, ¬ ptr <+: q → ¬ q <+: ptr → w'.root.find q = w.root.find q

variable {o : LinkOrder} {w w' : Walk} {n c : Node} {ptr q : Path} {paths : List Path}
  {S S' R R' : Path → Prop} {str word : Bytes} {words : List Bytes} {depth : ℕ}

theorem getLink_of_find (h : w.root.find (ptr ++ [str]) = some c) :
    w.getLink (some ptr) str = .ok (w, some (ptr ++ [str])) := by
  rw [find_append] at h
  obtain ⟨n, hn, hc⟩ := Option.bind_eq_some_iff.1 h
  obtain ⟨c', hc', -⟩ := Option.bind_eq_some_iff.1 ((find_cons n str []).symm.trans hc)
  exact getLink_of_child hn hc'

theorem not_prefix_snoc (h : ¬ ptr <+: q) (h' : ¬ q <+: ptr) :
    ¬ ptr ++ [str] <+: q ∧ ¬ q <+: ptr ++ [str] := by
  refine ⟨fun hp => h ((List.prefix_append ptr [str]).trans hp), fun hq => ?_⟩
  rcases List.prefix_concat_iff.1 hq with rfl | hq
  · exact h (List.prefix_append ptr [str])
  · exact h' hq

theorem not_prefix_sibling {s : Bytes} (hne : s ≠ str) (rest : Path) :
    ¬ ptr ++ [str] <+: ptr ++ s :: rest ∧ ¬ ptr ++ s :: rest <+: ptr ++ [str] := by
  rw [List.prefix_append_right_inj, List.prefix_append_right_inj, List.cons_prefix_cons,
    List.cons_prefix_cons]
  exact ⟨fun h => hne h.1.symm, fun h => hne h.1⟩

namespace Moved

/-- Pointers are appended, and the tree stays. -/
theorem of_append (hwf : w.root.WellFormed) (hnodup : paths.Nodup)
    (hmem : ∀ path, path ∈ paths ↔ R path) (hS : ∀ q, S q → (w.root.find (ptr ++ q)).isSome) :
    Moved w (w.append ptr paths) ptr paths S R where
  vec := rfl
  missed := rfl
  nodup := hnodup
  mem := hmem
  wellFormed := hwf
  grows := .refl _
  below q := (or_iff_left_of_imp (hS q)).symm
  aside _ _ _ := rfl

theorem congr (h : Moved w w' ptr paths S R)
    (hS : ∀ q, ¬ (w.root.find (ptr ++ q)).isSome → (S q ↔ S' q)) (hR : ∀ q, R q ↔ R' q) :
    Moved w w' ptr paths S' R' :=
  { h with
    mem := fun path => (h.mem path).trans (hR path)
    below := fun q => by
      rw [h.below]
      by_cases hq : (w.root.find (ptr ++ q)).isSome
      · simp only [hq, true_or]
      · rw [hS q hq] }

/-- A walk from a child on, as one from the node on. -/
theorem lift (h : Moved w w' (ptr ++ [str]) paths S R) (hptr : (w.root.find ptr).isSome) :
    Moved w w' ptr (paths.map (str :: ·)) (fun q => ∃ rest, q = str :: rest ∧ S rest)
      (fun q => ∃ rest, q = str :: rest ∧ R rest) where
  vec := by
    rw [h.vec, Walk.append_snoc]
  missed := h.missed
  nodup := h.nodup.map fun _ _ he => (List.cons.inj he).2
  mem path := by
    rw [List.mem_map]
    refine exists_congr fun rest => ?_
    rw [h.mem, and_comm, eq_comm]
  wellFormed := h.wellFormed
  grows := h.grows
  below q := by
    cases q with
    | nil =>
      have hptr' := h.grows.find ptr hptr
      rw [List.append_nil]
      exact iff_of_true hptr' (.inl hptr)
    | cons s rest =>
      by_cases hs : s = str
      · subst hs
        have hb := h.below rest
        rw [List.append_assoc, List.singleton_append] at hb
        simpa using hb
      · obtain ⟨hp, hp'⟩ := @not_prefix_sibling ptr str s hs rest
        rw [h.aside _ hp hp', or_iff_left]
        rintro ⟨rest', he, -⟩
        exact hs (List.cons.inj he).1
  aside q hq hq' := by
    obtain ⟨hp, hp'⟩ := @not_prefix_snoc ptr q str hq hq'
    exact h.aside q hp hp'

/-- Two walks from a node on that find different nodes. -/
theorem trans {w₁ : Walk} {paths' : List Path} (h : Moved w w₁ ptr paths S R)
    (h' : Moved w₁ w' ptr paths' S' R') (hR : ∀ q, R q → ¬ R' q) :
    Moved w w' ptr (paths ++ paths') (fun q => S q ∨ S' q) (fun q => R q ∨ R' q) where
  vec := by
    rw [h'.vec, ← Walk.append_append]
    unfold Walk.append
    simp only [h.vec]
    rfl
  missed := h'.missed.trans h.missed
  nodup := by
    rw [List.nodup_append]
    refine ⟨h.nodup, h'.nodup, ?_⟩
    rintro path hp _ hp' rfl
    exact hR path ((h.mem path).1 hp) ((h'.mem path).1 hp')
  mem path := by rw [List.mem_append, h.mem, h'.mem]
  wellFormed := h'.wellFormed
  grows := h.grows.trans h'.grows
  below q := by rw [h'.below, h.below, or_assoc]
  aside q hq hq' := (h'.aside q hq hq').trans (h.aside q hq hq')

end Moved

/-- Below the first of several links, or below one of the others. -/
theorem exists_link_cons {P : Bytes → Path → Prop} {topic : Bytes} {topics : List Bytes} :
    ((∃ rest, q = topic :: rest ∧ P topic rest) ∨
        ∃ t rest, t ∈ topics ∧ q = t :: rest ∧ P t rest) ↔
      ∃ t rest, t ∈ topic :: topics ∧ q = t :: rest ∧ P t rest := by
  constructor
  · rintro (⟨rest, he, hrest⟩ | ⟨t, rest, ht, he, hrest⟩)
    · exact ⟨topic, rest, List.mem_cons_self, he, hrest⟩
    · exact ⟨t, rest, List.mem_cons_of_mem _ ht, he, hrest⟩
  · rintro ⟨t, rest, ht, he, hrest⟩
    rcases List.mem_cons.1 ht with rfl | ht
    · exact .inl ⟨rest, he, hrest⟩
    · exact .inr ⟨t, rest, ht, he, hrest⟩

/-- The loop over links: each is asked for, and its child is visited. -/
theorem exists_foldlM_visit {visit : ℕ → NodePtr → Walk → Except WalkFault Walk}
    {S R : Node → Path → Prop}
    (hvisit : ∀ (w : Walk) (ptr : Path) (c : Node), w.root.WellFormed →
      w.root.find ptr = some c → ∃ w' paths,
        (∀ depth, c.ShallowerThan depth → visit depth (some ptr) w = .ok w') ∧
          Moved w w' ptr paths (S c) (R c))
    {topics : List Bytes} (htopics : topics.Nodup) {child : Bytes → Node}
    (hwf : w.root.WellFormed) (hptr : (w.root.find ptr).isSome)
    (hc : ∀ topic ∈ topics, w.root.find (ptr ++ [topic]) = some (child topic)) :
    ∃ w' paths,
      (∀ depth, (∀ topic ∈ topics, (child topic).ShallowerThan depth) →
        topics.foldlM (fun w topic => do
          let (w, next) ← w.getLink (some ptr) topic
          visit depth next w) w = .ok w') ∧
      Moved w w' ptr paths
        (fun q => ∃ topic rest, topic ∈ topics ∧ q = topic :: rest ∧ S (child topic) rest)
        (fun q => ∃ topic rest, topic ∈ topics ∧ q = topic :: rest ∧ R (child topic) rest) := by
  induction topics generalizing w with
  | nil =>
    refine ⟨w, [], fun depth _ => rfl, ?_⟩
    have hmoved := @Moved.of_append w ptr []
      (fun q => ∃ topic rest, topic ∈ [] ∧ q = topic :: rest ∧ S (child topic) rest)
      (fun q => ∃ topic rest, topic ∈ [] ∧ q = topic :: rest ∧ R (child topic) rest) hwf
      List.nodup_nil (by simp) (by simp)
    rwa [Walk.append_nil] at hmoved
  | cons topic topics ih =>
    obtain ⟨hnotin, htopics⟩ := List.nodup_cons.1 htopics
    have hfirst := hc topic List.mem_cons_self
    obtain ⟨w₁, paths₁, hv, hm₁⟩ := hvisit w (ptr ++ [topic]) (child topic) hwf hfirst
    -- the other links are as they were
    have hc' : ∀ t ∈ topics, w₁.root.find (ptr ++ [t]) = some (child t) := by
      intro t ht
      have hne : t ≠ topic := fun he => hnotin (he ▸ ht)
      obtain ⟨h, h'⟩ := @not_prefix_sibling ptr topic t hne []
      rw [hm₁.aside _ h h']
      exact hc t (List.mem_cons_of_mem _ ht)
    obtain ⟨w', paths₂, hrest, hm₂⟩ := ih htopics hm₁.wellFormed (hm₁.grows.find ptr hptr) hc'
    refine ⟨w', paths₁.map (topic :: ·) ++ paths₂, fun depth hdepth => ?_, ?_⟩
    · have hget : w.getLink (some ptr) topic = .ok (w, some (ptr ++ [topic])) :=
        getLink_of_find hfirst
      rw [List.foldlM_cons, hget, ok_bind]
      show (visit depth (some (ptr ++ [topic])) w >>= _) = _
      rw [hv depth (hdepth topic List.mem_cons_self), ok_bind]
      exact hrest depth fun t ht => hdepth t (List.mem_cons_of_mem _ ht)
    · refine ((hm₁.lift hptr).trans hm₂ ?_).congr (fun q _ => ?_) fun q => ?_
      · rintro _ ⟨rest, rfl, -⟩ ⟨t, rest', ht, he, -⟩
        exact hnotin ((List.cons.inj he).1 ▸ ht)
      · exact @exists_link_cons q (fun t => S (child t)) topic topics
      · exact @exists_link_cons q (fun t => R (child t)) topic topics

/-- What `getNode` does for a list of levels from a node on. -/
def GetNodeMoves (o : LinkOrder) (words : List Bytes) (w : Walk) (ptr : Path) (n : Node) : Prop :=
  ∃ w' paths,
    (∀ depth, n.ShallowerThan depth → Walk.getNode o depth words (some ptr) w = .ok w') ∧
      Moved w w' ptr paths (n.Spans words) (n.Reaches words)

namespace Node

theorem ShallowerThan.child (h : n.ShallowerThan depth) (hc : n.child str = some c) :
    c.ShallowerThan depth := by
  have hsucc : n.ShallowerThan (depth + 1) := fun path hp => Nat.lt_succ_of_lt (h path hp)
  exact hsucc.of_child hc

theorem ShallowerThan.new (h : n.ShallowerThan depth) (str : Bytes) :
    (Node.new str).ShallowerThan depth := by
  intro path hp
  rw [isSome_find_new] at hp
  rw [hp]
  exact h.pos

end Node

theorem topics_eq_nil_iff (o : LinkOrder) (n : Node) : o.topics n = [] ↔ n.links = [] := by
  rw [← List.length_eq_zero_iff, (o.perm n).length_eq, List.length_eq_zero_iff]
  exact List.map_eq_nil_iff

/-- A wildcard at a leaf ends the walk. -/
theorem getNode_leaf (hword : word = plus ∨ word = hash) (hn : w.root.find ptr = some n)
    (hleaf : o.topics n = []) : Walk.getNode o depth (word :: words) (some ptr) w = .ok w := by
  rw [Walk.getNode, if_pos hword, deref_of_find hn, ok_bind]
  show (if o.topics n ≠ [] then _ else _) = _
  rw [if_neg (not_not.2 hleaf)]
  rfl

theorem getNode_plus_moves (hwf : w.root.WellFormed) (hn : w.root.find ptr = some n)
    (ih : ∀ (w : Walk) ptr c, w.root.WellFormed → w.root.find ptr = some c →
      GetNodeMoves o words w ptr c) : GetNodeMoves o (plus :: words) w ptr n := by
  have hnwf := hwf.of_find hn
  have hptr : (w.root.find ptr).isSome := by
    rw [hn]
    rfl
  have hspans : ∀ t rest, n.Spans (plus :: words) (t :: rest) ↔
      ∃ c, n.child t = some c ∧ c.Spans words rest := by
    intro t rest
    rw [Spans, if_pos rfl]
  have hchild : ∀ t ∈ o.topics n, n.child t = some ((n.child t).getD n) := by
    intro t ht
    obtain ⟨c, hc, -⟩ := hnwf.exists_child ((o.perm n).mem_iff.1 ht)
    rw [hc]
    rfl
  obtain ⟨w', paths, hv, hm⟩ := exists_foldlM_visit ih ((o.perm n).nodup_iff.2 hnwf.nodup)
    hwf hptr fun t ht => find_snoc hn (hchild t ht)
  refine ⟨w', paths, fun depth hdepth => ?_, hm.congr (fun q hq => ?_) fun q => ?_⟩
  · by_cases hleaf : o.topics n = []
    · have hnil := hv depth (by simp [hleaf])
      rw [hleaf] at hnil
      rw [getNode_leaf (.inl rfl) hn hleaf]
      exact hnil
    · rw [Walk.getNode, if_pos (.inl rfl), deref_of_find hn, ok_bind]
      show (if o.topics n ≠ [] then _ else _) = _
      rw [if_pos hleaf, if_pos rfl]
      exact hv depth fun t ht => hdepth.child (hchild t ht)
  · cases q with
    | nil =>
      rw [List.append_nil] at hq
      exact absurd hptr hq
    | cons t rest =>
      rw [hspans]
      constructor
      · rintro ⟨s, rest', hs, he, hS⟩
        obtain ⟨rfl, rfl⟩ := List.cons.inj he
        exact ⟨_, hchild t hs, hS⟩
      · rintro ⟨c, hc, hS⟩
        refine ⟨t, rest, (o.perm n).mem_iff.2 (mem_keys_of_child hc), rfl, ?_⟩
        rw [hc]
        exact hS
  · simp only [Reaches, if_true]
    constructor
    · rintro ⟨t, rest, ht, he, hR⟩
      exact ⟨t, rest, _, he, hchild t ht, hR⟩
    · rintro ⟨t, rest, c, he, hc, hR⟩
      refine ⟨t, rest, (o.perm n).mem_iff.2 (mem_keys_of_child hc), he, ?_⟩
      rw [hc]
      exact hR

theorem getNode_hash_moves (words : List Bytes) (hwf : w.root.WellFormed)
    (hn : w.root.find ptr = some n) : GetNodeMoves o (hash :: words) w ptr n := by
  have hp : hash ≠ plus := by decide
  have hspans : ∀ q, n.Spans (hash :: words) q → (w.root.find (ptr ++ q)).isSome := by
    intro q hq
    cases q with
    | nil =>
      rw [List.append_nil, hn]
      rfl
    | cons t rest =>
      rw [Spans, if_neg hp, if_pos rfl] at hq
      exact absurd hq not_false
  obtain ⟨paths, hlists, hbelow⟩ := (hwf.of_find hn).exists_lists o
  by_cases hleaf : o.topics n = []
  · have hlinks := (topics_eq_nil_iff o n).1 hleaf
    refine ⟨w, [], fun depth _ => getNode_leaf (.inr rfl) hn hleaf, ?_⟩
    have hmoved := @Moved.of_append w ptr [] (n.Spans (hash :: words)) (n.Reaches (hash :: words))
      hwf List.nodup_nil (fun path => by simp [Reaches, hp, hlinks]) hspans
    rwa [Walk.append_nil] at hmoved
  · have hlinks := mt (topics_eq_nil_iff o n).2 hleaf
    refine ⟨w.append ptr paths, paths, fun depth hdepth => ?_,
      .of_append hwf hbelow.nodup ?_ hspans⟩
    · rw [Walk.getNode, if_pos (.inr rfl), deref_of_find hn, ok_bind]
      show (if o.topics n ≠ [] then _ else _) = _
      rw [if_pos hleaf, if_neg hp]
      exact hlists depth hdepth w ptr hn
    · intro path
      rw [hbelow.mem]
      simp [Reaches, hp, hlinks]

/-- The level is there, or an empty node is added for it. -/
theorem moved_addLink (hp : word ≠ plus) (hh : word ≠ hash) (hwf : w.root.WellFormed)
    (hn : w.root.find ptr = some n) :
    Moved w (if n.ispresent word then w else w.addLink ptr word) ptr [] (fun q => q = [word])
        (fun _ => False) ∧
      (if n.ispresent word then w else w.addLink ptr word).root.find (ptr ++ [word]) =
        some ((n.child word).getD (new word)) := by
  have hnwf := hwf.of_find hn
  cases hc : n.child word with
  | some c =>
    have hfound := find_snoc hn hc
    rw [if_pos (hnwf.ispresent_iff.2 ⟨c, hc⟩)]
    refine ⟨?_, hfound⟩
    have hmoved := @Moved.of_append w ptr [] (fun q => q = [word]) (fun _ => False) hwf
      List.nodup_nil (by simp) fun q hq => by
        rw [hq, hfound]
        rfl
    rwa [Walk.append_nil] at hmoved
  | none =>
    have hi : ¬ n.ispresent word := by
      rw [hnwf.ispresent_iff, hc]
      rintro ⟨c, hc'⟩
      cases hc'
    have hadded : (n.addLink word).WellFormed := hnwf.setLink (.new word) rfl ⟨hp, hh⟩
    have hfind := @find_modify_append w.root n (·.addLink word) ptr hn
    rw [if_neg hi]
    constructor
    · constructor
      case vec => exact (congrArg Walk.vec (Walk.append_nil w ptr)).symm
      case missed => rfl
      case nodup => exact List.nodup_nil
      case mem => simp
      case wellFormed => exact hwf.modify_of hn hadded rfl
      case grows => exact .modify_of hn (.addLink hc)
      case below =>
        intro q
        show ((modify _ ptr w.root).find (ptr ++ q)).isSome ↔ _
        rw [hfind, find_append, hn, Option.bind_some]
        cases q with
        | nil => simp
        | cons s q =>
          rw [Node.addLink, isSome_find_setLink]
          by_cases hs : s = word
          · subst hs
            simp [isSome_find_new, find_cons, hc]
          · simp [hs]
      case aside => exact fun q h h' => find_modify_aside h h'
    · show (modify _ ptr w.root).find (ptr ++ [word]) = _
      rw [hfind, find_cons, Node.addLink, child_setLink_self]
      rfl

theorem getNode_literal_moves (hp : word ≠ plus) (hh : word ≠ hash) (hwf : w.root.WellFormed)
    (hn : w.root.find ptr = some n)
    (ih : ∀ (w : Walk) ptr c, w.root.WellFormed → w.root.find ptr = some c →
      GetNodeMoves o words w ptr c) : GetNodeMoves o (word :: words) w ptr n := by
  have hptr : (w.root.find ptr).isSome := by
    rw [hn]
    rfl
  obtain ⟨hadd, hfound⟩ := moved_addLink hp hh hwf hn
  set w₁ := if n.ispresent word then w else w.addLink ptr word with hw₁
  set c := (n.child word).getD (new word) with hc
  obtain ⟨w', paths, hv, hm⟩ := ih w₁ (ptr ++ [word]) c hadd.wellFormed hfound
  have hdepth : ∀ depth, n.ShallowerThan depth → c.ShallowerThan depth := by
    intro depth h
    rw [hc]
    cases hchild : n.child word with
    | some c => exact h.child hchild
    | none => exact h.new word
  have hmoved := hadd.trans (hm.lift (hadd.grows.find ptr hptr)) fun _ h _ => h
  refine ⟨w', _, fun depth h => ?_, hmoved.congr (fun q hq => ?_) fun q => ?_⟩
  · rw [Walk.getNode, if_neg (by rintro (h | h); exacts [hp h, hh h]), deref_of_find hn, ok_bind]
    show (w₁.getLink (some ptr) word >>= _) = _
    rw [getLink_of_find hfound, ok_bind]
    exact hv depth (hdepth depth h)
  · cases q with
    | nil =>
      rw [List.append_nil] at hq
      exact absurd hptr hq
    | cons s rest =>
      rw [Spans, if_neg hp, if_neg hh]
      constructor
      · rintro (he | ⟨rest', he, hs⟩)
        · obtain ⟨rfl, rfl⟩ := List.cons.inj he
          exact ⟨rfl, spans_nil _ _⟩
        · obtain ⟨rfl, rfl⟩ := List.cons.inj he
          exact ⟨rfl, hs⟩
      · rintro ⟨rfl, hs⟩
        exact .inr ⟨rest, rfl, hs⟩
  · simp only [Reaches, if_neg hp, if_neg hh, false_or]
    rfl

/-- **What `getNode` does**, on every list of levels and at every node of a well-formed tree. -/
theorem exists_getNode (o : LinkOrder) (words : List Bytes) (w : Walk) (ptr : Path) (n : Node)
    (hwf : w.root.WellFormed) (hn : w.root.find ptr = some n) : GetNodeMoves o words w ptr n := by
  induction words generalizing w ptr n with
  | nil =>
    refine ⟨w.push (some ptr), [[]], fun depth _ => rfl, ?_⟩
    rw [Walk.push_eq]
    refine .of_append hwf (List.nodup_singleton []) (fun path => by simp [Reaches]) fun q hq => ?_
    cases q with
    | nil =>
      rw [List.append_nil, hn]
      rfl
    | cons s rest => exact absurd hq not_false
  | cons word words ih =>
    by_cases hp : word = plus
    · rw [hp]
      exact getNode_plus_moves hwf hn ih
    by_cases hh : word = hash
    · rw [hh]
      exact getNode_hash_moves words hwf hn
    · exact getNode_literal_moves hp hh hwf hn ih

/-! ### The calls of the tree -/

/-- A tree behind pointers has the nodes and the subscriptions of a `TopicTree`. -/
structure Mirrors (root : Node) (tree : TopicTree) : Prop where
  wellFormed : root.WellFormed
  nodes : SameNodes root tree.root
  subsAt : ∀ path, root.subsAt path = tree.root.subsAt path

section Calls

variable {tree : TopicTree} {topic : Bytes} {f : Node → Node}

/-- What is found is there at the end. -/
theorem isSome_find_of_reaches (hwf : n.WellFormed) (hr : n.Reaches (split topic) q) :
    (n.find q).isSome ∨ n.Spans (split topic) q := by
  have hvis := (⟨n, hwf⟩ : TopicTree).getNode_visited topic
  exact (TopicTree.isSome_find_getNode topic q).1 (hvis.found q ((hvis.mem q).2 hr))

theorem forNodes_eq (hf : OnSubscribers f) (hwf : w.root.WellFormed)
    (hfound : ∀ path ∈ paths, (w.root.find path).isSome) :
    Walk.forNodes f (paths.map some) w = .ok { w with
      root := (paths.foldl (fun (tree : TopicTree) node => tree.modify f hf node)
        (⟨w.root, hwf⟩ : TopicTree)).root } := by
  induction paths generalizing w with
  | nil => rfl
  | cons path paths ih =>
    obtain ⟨n, hn⟩ := Option.isSome_iff_exists.1 (hfound path List.mem_cons_self)
    have hrest : ∀ p ∈ paths, ((Node.modify f path w.root).find p).isSome := by
      intro p hp
      rw [find_modify_isSome hf]
      exact hfound p (List.mem_cons_of_mem _ hp)
    have hnext := @ih { w with root := w.root.modify f path } (hwf.modify hf path) hrest
    show ((w.deref (some path) >>= _) >>= _) = _
    rw [deref_of_find hn, ok_bind]
    exact hnext

theorem subscriptions_eq (hfound : ∀ path ∈ paths, (w.root.find path).isSome) :
    Walk.subscriptions (paths.map some) w =
      .ok (paths.flatMap fun path => (w.root.subsAt path).entries.map Sigma.snd) := by
  unfold Walk.subscriptions
  rw [List.foldlM_map]
  refine foldlM_append_eq_ok (fun path hp result => ?_) []
  obtain ⟨n, hn⟩ := Option.isSome_iff_exists.1 (hfound path hp)
  have hsubs : w.root.subsAt path = n.subscribers := by
    unfold Node.subsAt
    rw [hn]
    rfl
  rw [deref_of_find hn, hsubs]
  rfl

/-- `getNode` from the root of a tree that mirrors another one finds the same nodes. -/
theorem Mirrors.exists_fromRoot (h : Mirrors w.root tree) (o : LinkOrder) (topic : Bytes) :
    ∃ bound w₁, ∃ paths : List Path,
      (∀ depth, bound ≤ depth → Walk.fromRoot o depth topic w = .ok w₁) ∧
      w₁.vec = paths.map some ∧ w₁.missed = w.missed ∧ w₁.root.WellFormed ∧
      Grows w.root w₁.root ∧ paths.Perm (tree.getNode topic).2 ∧
      (∀ path ∈ paths, (w₁.root.find path).isSome) ∧
      ∀ path, (w₁.root.find path).isSome ↔
        (tree.root.find path).isSome ∨ tree.root.Spans (split topic) path := by
  obtain ⟨w₁, paths, hrun, hm⟩ := exists_getNode o (split topic) { w with vec := [] } [] w.root
    h.wellFormed rfl
  obtain ⟨bound, hbound⟩ := h.wellFormed.exists_depth
  have hvis := tree.getNode_visited topic
  have hreach : ∀ path, w.root.Reaches (split topic) path ↔ tree.root.Reaches (split topic) path :=
    fun path => h.nodes.reaches h.wellFormed tree.wellFormed
  have hbelow : ∀ path, (w₁.root.find path).isSome ↔
      (w.root.find path).isSome ∨ w.root.Spans (split topic) path := hm.below
  refine ⟨bound, w₁, paths, fun depth hle => hrun depth (hbound depth hle), ?_, hm.missed,
    hm.wellFormed, hm.grows, ?_, fun path hp => ?_, fun path => ?_⟩
  · rw [hm.vec]
    rfl
  · rw [List.perm_ext_iff_of_nodup hm.nodup hvis.nodup]
    intro path
    rw [hm.mem, hvis.mem, hreach]
  · rw [hbelow]
    exact isSome_find_of_reaches h.wellFormed ((hm.mem path).1 hp)
  · rw [hbelow, h.nodes.spans, h.nodes path]

/-- **A match over pointers** returns the subscriptions of the match in some order. -/
theorem Mirrors.exists_match (h : Mirrors w.root tree) (o : LinkOrder) (topic : Bytes) :
    ∃ bound w', ∃ result : List Subscription,
      (∀ depth, bound ≤ depth → Walk.match o depth topic w = .ok (w', result)) ∧
      w'.missed = w.missed ∧ Mirrors w'.root (tree.match topic).1 ∧
      result.Perm (tree.match topic).2 := by
  obtain ⟨bound, w₁, paths, hrun, hvec, hmissed, hwf, hgrows, hperm, hfound, hnodes⟩ :=
    h.exists_fromRoot o topic
  have hsubs : ∀ path, w₁.root.subsAt path = (tree.match topic).1.root.subsAt path := by
    intro path
    rw [hgrows.subsAt, h.subsAt, tree.subsAt_match]
  refine ⟨bound, w₁, paths.flatMap fun path => (w₁.root.subsAt path).entries.map Sigma.snd,
    fun depth hle => ?_, hmissed, ⟨hwf, fun path => ?_, hsubs⟩, ?_⟩
  · unfold Walk.match
    rw [hrun depth hle, ok_bind, hvec, subscriptions_eq hfound]
    rfl
  · exact (hnodes path).trans (TopicTree.isSome_find_call (.match topic) path).symm
  · refine (hperm.flatMap_right _).trans (.of_eq ?_)
    show _ = (tree.getNode topic).2.flatMap fun node =>
      ((tree.getNode topic).1.root.subsAt node).entries.map Sigma.snd
    exact List.flatMap_congr fun path _ => by rw [hsubs path]; rfl

/-- A call that changes the nodes it finds. -/
theorem Mirrors.exists_forNodes (h : Mirrors w.root tree) (o : LinkOrder) (op : TreeCall)
    (hf : OnSubscribers f) (hg : ∀ n, (f n).subscribers = op.edit n.subscribers) :
    ∃ bound w',
      (∀ depth, bound ≤ depth →
        (Walk.fromRoot o depth op.topic w >>= fun w => w.forNodes f w.vec) = .ok w') ∧
      w'.missed = w.missed ∧ Mirrors w'.root (tree.call op) := by
  obtain ⟨bound, w₁, paths, hrun, hvec, hmissed, hwf, hgrows, hperm, hfound, hnodes⟩ :=
    h.exists_fromRoot o op.topic
  have hvis := tree.getNode_visited op.topic
  have hnodup : paths.Nodup := hperm.nodup_iff.2 hvis.nodup
  refine ⟨bound, { w₁ with root := (paths.foldl (fun (tree : TopicTree) node =>
    tree.modify f hf node) (⟨w₁.root, hwf⟩ : TopicTree)).root }, fun depth hle => ?_, hmissed, ?_⟩
  · rw [hrun depth hle, ok_bind]
    exact (congrArg (fun ptrs => Walk.forNodes f ptrs w₁) hvec).trans (forNodes_eq hf hwf hfound)
  · refine ⟨TopicTree.wellFormed _, fun path => ?_, fun path => ?_⟩
    · rw [TopicTree.isSome_find_call, ← hnodes]
      exact Bool.eq_iff_iff.1 (TopicTree.isSome_find_foldl_modify hf paths ⟨w₁.root, hwf⟩ path)
    · have hcall := @TopicTree.subsAt_call tree op path
      refine (TopicTree.subsAt_foldl_modify hf hg hnodup ⟨w₁.root, hwf⟩ hfound path).trans ?_
      show (if path ∈ paths then op.edit (w₁.root.subsAt path) else w₁.root.subsAt path) = _
      rw [hgrows.subsAt, h.subsAt]
      split_ifs with hp
      · rw [hperm.mem_iff, hvis.mem] at hp
        exact (hcall.1 hp).symm
      · rw [hperm.mem_iff, hvis.mem] at hp
        exact (hcall.2 hp).symm

/-- **A call over pointers** does to the tree what the call does to the `TopicTree`. -/
theorem Mirrors.exists_call (h : Mirrors w.root tree) (o : LinkOrder) (op : TreeCall) :
    ∃ bound w', (∀ depth, bound ≤ depth → Walk.call o depth w op = .ok w') ∧
      w'.missed = w.missed ∧ Mirrors w'.root (tree.call op) := by
  cases op with
  | subscribe filter session qos =>
    exact h.exists_forNodes o (.subscribe filter session qos) (.subscribe session qos) fun _ => rfl
  | unsubscribe filter session =>
    exact h.exists_forNodes o (.unsubscribe filter session) (.unsubscribe session) fun _ => rfl
  | «match» topic =>
    obtain ⟨bound, w', result, hrun, hmissed, hmirrors, -⟩ := h.exists_match o topic
    refine ⟨bound, w', fun depth hle => ?_, hmissed, hmirrors⟩
    show (Walk.match o depth topic w >>= _) = _
    rw [hrun depth hle]
    rfl

/-- Several calls. -/
theorem Mirrors.exists_calls (h : Mirrors w.root tree) (o : LinkOrder) (ops : List TreeCall) :
    ∃ bound w', (∀ depth, bound ≤ depth → Walk.calls o depth ops w = .ok w') ∧
      w'.missed = w.missed ∧ Mirrors w'.root (tree.calls ops) := by
  induction ops generalizing w tree with
  | nil => exact ⟨0, w, fun depth _ => rfl, rfl, h⟩
  | cons op ops ih =>
    obtain ⟨bound₁, w₁, hrun₁, hmissed₁, hmirrors₁⟩ := h.exists_call o op
    obtain ⟨bound₂, w₂, hrun₂, hmissed₂, hmirrors₂⟩ := ih hmirrors₁
    refine ⟨max bound₁ bound₂, w₂, fun depth hle => ?_, hmissed₂.trans hmissed₁, hmirrors₂⟩
    unfold Walk.calls at hrun₂ ⊢
    rw [List.foldlM_cons, hrun₁ depth (le_of_max_le_left hle), ok_bind]
    exact hrun₂ depth (le_of_max_le_right hle)

theorem mirrors_start : Mirrors Walk.start.root .empty :=
  ⟨.new _, fun _ => .rfl, fun _ => rfl⟩

end Calls

/-! ### The invariant of the representation -/

/-- Every entry of the links of every node is a child whose level is the key, and no key is a
wildcard. -/
def Represented (root : Node) : Prop :=
  ∀ path n, root.find path = some n → ∀ entry ∈ n.links,
    (∃ c, entry.2 = some c ∧ c.level = entry.1) ∧ entry.1 ≠ plus ∧ entry.1 ≠ hash

theorem Node.WellFormed.represented {root : Node} (h : root.WellFormed) : Represented root := by
  rintro path n hn ⟨key, link⟩ hentry
  have hwf := h.of_find hn
  have hkey : key ∈ n.links.keys := List.mem_map_of_mem (f := Sigma.fst) hentry
  obtain ⟨c, hc, hlevel⟩ := hwf.exists_child hkey
  have hlink : n.links.dlookup key = some link := List.mem_dlookup hwf.nodup hentry
  refine ⟨⟨c, ?_, hlevel⟩, hwf.key_ne hkey⟩
  exact Option.some.inj (hlink.symm.trans (dlookup_of_child hc))

/-- **The representation of the tree.**  Whatever calls are made, on whatever strings and in
whatever order the links are gone through, they run to their end, given depth enough: no pointer to
no node is dereferenced, `getLink` finds every key it is asked for, and every entry of the links is
a child at its own level, under a key that is no wildcard. -/
theorem represented_calls (o : LinkOrder) (ops : List TreeCall) :
    ∃ bound w, (∀ depth, bound ≤ depth → Walk.calls o depth ops .start = .ok w) ∧
      w.missed = [] ∧ Represented w.root := by
  obtain ⟨bound, w, hrun, hmissed, hmirrors⟩ := mirrors_start.exists_calls o ops
  exact ⟨bound, w, hrun, hmissed, hmirrors.wellFormed.represented⟩

end Culex
