import Culex.Growth
import Culex.Matching

/-!
# What a match leaves behind

A match walks the tree as a subscription does and adds the nodes it misses.  Subscriptions with
wildcards go on to the nodes that are there, so a later match can tell (`match_unobservable_iff`):
the two runs stay `Alike` if the match adds nothing below the first level, and otherwise a filter
with a `+` in the place of an added level tells them apart.
-/

namespace Culex

namespace Node

variable {n n' c : Node} {words : List Bytes} {path : Path}

/-! ### Trees with the same nodes -/

/-- The two trees have the same nodes. -/
def SameNodes (n n' : Node) : Prop := ∀ path, (n.find path).isSome ↔ (n'.find path).isSome

theorem SameNodes.of_child (h : SameNodes n n') {str : Bytes} (hc : n.child str = some c) :
    ∃ c', n'.child str = some c' ∧ SameNodes c c' := by
  have h₁ := (h [str]).1 (isSome_find_cons.2 ⟨c, hc, rfl⟩)
  obtain ⟨c', hc', -⟩ := isSome_find_cons.1 h₁
  refine ⟨c', hc', fun path => ?_⟩
  rw [← find_cons_of_child hc, ← find_cons_of_child hc']
  exact h (str :: path)

theorem SameNodes.symm (h : SameNodes n n') : SameNodes n' n := fun path => (h path).symm

/-- The child at a level, or the one that a walk creates. -/
theorem SameNodes.getD (h : SameNodes n n') (str : Bytes) :
    SameNodes ((n.child str).getD (new str)) ((n'.child str).getD (new str)) := by
  cases hc : n.child str with
  | some c =>
    obtain ⟨c', hc', h'⟩ := h.of_child hc
    rw [hc']
    exact h'
  | none =>
    cases hc' : n'.child str with
    | none => exact fun path => .rfl
    | some c' =>
      obtain ⟨c, hc₁, -⟩ := h.symm.of_child hc'
      cases hc.symm.trans hc₁

theorem SameNodes.nodesIn (h : SameNodes n n') : NodesIn n n' := fun path => (h path).1

/-- What a walk finds depends on the nodes only. -/
theorem SameNodes.reaches (h : SameNodes n n') (hwf : WellFormed n) (hwf' : WellFormed n') :
    n.Reaches words path ↔ n'.Reaches words path :=
  ⟨h.nodesIn.reaches hwf hwf', h.symm.nodesIn.reaches hwf' hwf⟩

theorem SameNodes.spans (h : SameNodes n n') : n.Spans words path ↔ n'.Spans words path := by
  induction words generalizing n n' path with
  | nil => cases path <;> simp [Spans]
  | cons word words ih =>
    cases path with
    | nil => simp
    | cons str rest =>
      rw [Spans, Spans]
      split_ifs with hp hh
      · constructor
        · rintro ⟨c, hc, hs⟩
          obtain ⟨c', hc', h'⟩ := h.of_child hc
          exact ⟨c', hc', (ih h').1 hs⟩
        · rintro ⟨c', hc', hs⟩
          obtain ⟨c, hc, h'⟩ := h.symm.of_child hc'
          exact ⟨c, hc, (ih h').1 hs⟩
      · rfl
      · exact and_congr_right fun _ => ih (h.getD word)

/-! ### Below the first level -/

/-- The node of the level `"/"`, which every topic starts with. -/
def top (n : Node) : Node := (n.child slash).getD (new slash)

theorem isSome_find_top :
    (n.top.find path).isSome ↔ (n.find (slash :: path)).isSome ∨ path = [] := by
  unfold top
  cases hc : n.child slash with
  | none => simp [isSome_find_new, find_cons, hc]
  | some c =>
    rw [find_cons_of_child hc, Option.getD_some, iff_self_or]
    rintro rfl
    rfl

theorem reaches_split (topic : Bytes) :
    n.Reaches (split topic) path ↔
      (topic = [] ∧ path = []) ∨
        ∃ b words rest, topic = b :: words ∧ path = slash :: rest ∧
          n.top.Reaches (splitLoop [] words) rest := by
  cases topic with
  | nil => simp [split, Reaches]
  | cons b words =>
    rw [split, Reaches, if_neg (by decide), if_neg (by decide)]
    simp [top]

theorem spans_split (topic : Bytes) (rest : Path) :
    n.Spans (split topic) (slash :: rest) ↔
      ∃ b words, topic = b :: words ∧ n.top.Spans (splitLoop [] words) rest := by
  cases topic with
  | nil => simp [split, Spans]
  | cons b words =>
    rw [split, Spans, if_neg (by decide), if_neg (by decide)]
    simp [top]

/-- The same subscriptions, and the same nodes below the first level. -/
structure Alike (n n' : Node) : Prop where
  subsAt : ∀ path, n.subsAt path = n'.subsAt path
  top : SameNodes n.top n'.top

end Node

open Node

variable {tree tree' : TopicTree}

theorem Node.Alike.reaches (h : Alike tree.root tree'.root) (topic : Bytes) (path : Path) :
    tree.root.Reaches (split topic) path ↔ tree'.root.Reaches (split topic) path := by
  have hwf := wellFormed_getD tree.wellFormed slash
  have hwf' := wellFormed_getD tree'.wellFormed slash
  rw [reaches_split, reaches_split]
  simp only [show ∀ words rest, tree.root.top.Reaches words rest ↔
    tree'.root.top.Reaches words rest from fun _ _ => h.top.reaches hwf hwf']

/-- A call keeps two trees alike. -/
theorem Node.Alike.call (h : Alike tree.root tree'.root) (op : TreeCall) :
    Alike (tree.call op).root (tree'.call op).root := by
  constructor
  · intro path
    have hreach := h.reaches op.topic path
    by_cases hr : tree.root.Reaches (split op.topic) path
    · rw [(TopicTree.subsAt_call op path).1 hr, (TopicTree.subsAt_call op path).1 (hreach.1 hr),
        h.subsAt]
    · rw [(TopicTree.subsAt_call op path).2 hr,
        (TopicTree.subsAt_call op path).2 fun hr' => hr (hreach.2 hr'), h.subsAt]
  · intro path
    have hfind := h.top path
    rw [isSome_find_top, isSome_find_top] at hfind
    rw [isSome_find_top, isSome_find_top, TopicTree.isSome_find_call,
      TopicTree.isSome_find_call, spans_split, spans_split]
    simp only [h.top.spans]
    rw [or_right_comm, hfind, or_right_comm]

/-! ### Results -/

namespace TopicTree

/-- The clients a match finds, with their QoS. -/
def pairs (tree : TopicTree) (topic : Bytes) : Finset (Bytes × UInt8) :=
  ((tree.match topic).2.map fun sub => (sub.session.clientId, sub.qos)).toFinset

/-- The results of the matches among the calls. -/
def results : TopicTree → List TreeCall → List (Finset (Bytes × UInt8))
  | _, [] => []
  | tree, .match topic :: calls => tree.pairs topic :: (tree.call (.match topic)).results calls
  | tree, op :: calls => (tree.call op).results calls

theorem mem_pairs (topic : Bytes) (pair : Bytes × UInt8) :
    pair ∈ tree.pairs topic ↔ ∃ path, tree.root.Reaches (split topic) path ∧
      ∃ clientId sub, (tree.root.subsAt path).lookup clientId = some sub ∧
        (sub.session.clientId, sub.qos) = pair := by
  simp only [pairs, List.mem_toFinset, List.mem_map, mem_match]
  constructor
  · rintro ⟨sub, ⟨path, hr, clientId, hl⟩, rfl⟩
    exact ⟨path, hr, clientId, sub, hl, rfl⟩
  · rintro ⟨path, hr, clientId, sub, hl, rfl⟩
    exact ⟨sub, ⟨path, hr, clientId, hl⟩, rfl⟩

end TopicTree

theorem Node.Alike.pairs (h : Alike tree.root tree'.root) (topic : Bytes) :
    tree.pairs topic = tree'.pairs topic := by
  ext pair
  rw [TopicTree.mem_pairs, TopicTree.mem_pairs]
  simp only [h.reaches, h.subsAt]

theorem Node.Alike.results (h : Alike tree.root tree'.root) (calls : List TreeCall) :
    tree.results calls = tree'.results calls := by
  induction calls generalizing tree tree' with
  | nil => rfl
  | cons op calls ih =>
    cases op with
    | «match» topic => exact congrArg₂ List.cons (h.pairs topic) (ih (h.call (.match topic)))
    | subscribe filter session qos => exact ih (h.call (.subscribe filter session qos))
    | unsubscribe filter session => exact ih (h.call (.unsubscribe filter session))

/-! ### What is there already -/

namespace Node

/-- Every level that the walk would create is there. -/
def Known : Node → List Bytes → Prop
  | _, [] => True
  | n, word :: words =>
    if word = plus then ∀ str ∈ n.links.keys, ∀ c ∈ n.child str, Known c words
    else if word = hash then True
    else ∃ c ∈ n.child word, Known c words

instance decidableKnown : ∀ n words, Decidable (Known n words)
  | _, [] => inferInstanceAs (Decidable True)
  | n, word :: words =>
    have := fun c => decidableKnown c words
    inferInstanceAs (Decidable (if word = plus then
      ∀ str ∈ n.links.keys, ∀ c ∈ n.child str, Known c words
    else if word = hash then True else ∃ c ∈ n.child word, Known c words))

variable {n n' c : Node} {words : List Bytes} {path : Path}

theorem Known.find (h : Known n words) (hs : n.Spans words path) : (n.find path).isSome := by
  induction words generalizing n path with
  | nil =>
    cases path with
    | nil => rfl
    | cons str rest => cases hs
  | cons word words ih =>
    cases path with
    | nil => rfl
    | cons str rest =>
      rw [Known] at h
      rw [Spans] at hs
      rw [isSome_find_cons]
      split_ifs at h hs with hp hh
      · obtain ⟨c, hc, hs⟩ := hs
        exact ⟨c, hc, ih (h str (mem_keys_of_child hc) c hc) hs⟩
      · obtain ⟨rfl, hs⟩ := hs
        obtain ⟨c, hc, hk⟩ := h
        rw [hc] at hs
        exact ⟨c, hc, ih hk hs⟩

/-- Where a walk first misses a level. -/
theorem exists_missing (h : ¬ Known n words) :
    ∃ init last c, n.find init = some c ∧ c.child last = none ∧ n.Spans words (init ++ [last]) ∧
      last ∈ words ∧ last ≠ plus ∧ last ≠ hash := by
  induction words generalizing n with
  | nil => exact absurd trivial h
  | cons word words ih =>
    rw [Known] at h
    split_ifs at h with hp hh
    · push Not at h
      obtain ⟨str, -, c, hc, hk⟩ := h
      obtain ⟨init, last, d, hd, hl, hs, hmem, hne⟩ := ih hk
      refine ⟨str :: init, last, d, ?_, hl, ?_, List.mem_cons_of_mem _ hmem, hne⟩
      · rw [find_cons_of_child hc, hd]
      · rw [List.cons_append, Spans, if_pos hp]
        exact ⟨c, hc, hs⟩
    · exact absurd trivial h
    · cases hc : n.child word with
      | none =>
        refine ⟨[], word, n, rfl, hc, ?_, List.mem_cons_self, hp, hh⟩
        rw [List.nil_append, Spans, if_neg hp, if_neg hh]
        exact ⟨rfl, spans_nil _ _⟩
      | some c =>
        obtain ⟨init, last, d, hd, hl, hs, hmem, hne⟩ := ih fun hk => h ⟨c, hc, hk⟩
        refine ⟨word :: init, last, d, ?_, hl, ?_, List.mem_cons_of_mem _ hmem, hne⟩
        · rw [find_cons_of_child hc, hd]
        · rw [List.cons_append, Spans, if_neg hp, if_neg hh, hc]
          exact ⟨rfl, hs⟩

/-- Levels without wildcards that are there lead to their node. -/
theorem reaches_append {init : Path} (hinit : ∀ word ∈ init, word ≠ plus ∧ word ≠ hash)
    (hc : n.find init = some c) (path : Path) :
    n.Reaches (init ++ words) (init ++ path) ↔ c.Reaches words path := by
  induction init generalizing n with
  | nil =>
    cases hc
    rfl
  | cons str init ih =>
    obtain ⟨hp, hh⟩ := hinit str List.mem_cons_self
    rw [find_cons, Option.bind_eq_some_iff] at hc
    obtain ⟨d, hd, hc⟩ := hc
    rw [List.cons_append, Reaches, if_neg hp, if_neg hh, hd]
    have ih := ih (fun w hw => hinit w (List.mem_cons_of_mem _ hw)) hc
    simp only [List.cons_append, List.cons.injEq, true_and, exists_eq_left', Option.getD_some, ih]

theorem find_append (init path : Path) :
    n.find (init ++ path) = (n.find init).bind fun c => c.find path := by
  induction init generalizing n with
  | nil => rfl
  | cons str init ih =>
    rw [List.cons_append, find_cons, find_cons, Option.bind_assoc]
    simp only [ih]

/-- The keys on the way to a node that is there are no wildcards. -/
theorem WellFormed.keys_ne (h : WellFormed n) (hp : (n.find path).isSome) :
    ∀ word ∈ path, word ≠ plus ∧ word ≠ hash := by
  induction path generalizing n with
  | nil =>
    intro word hw
    cases hw
  | cons str path ih =>
    obtain ⟨c, hc, hp⟩ := isSome_find_cons.1 hp
    intro word hw
    rcases List.mem_cons.1 hw with rfl | hw
    · exact h.key_ne (mem_keys_of_child hc)
    · exact ih (h.of_child hc) hp word hw

end Node

/-! ### Topics for paths -/

/-- A topic of the given levels below the first one. -/
def join (words : List Bytes) : Bytes := 47 :: words.flatMap (· ++ [47])

theorem splitLoop_append {word : Bytes} (hw : 47 ∉ word) (temp rest : Bytes) :
    splitLoop temp (word ++ 47 :: rest) = (temp ++ word) :: splitLoop [] rest := by
  induction word generalizing temp with
  | nil => rw [List.nil_append, List.append_nil, splitLoop, if_pos rfl]
  | cons b word ih =>
    obtain ⟨hb, hw⟩ := not_or.1 (mt List.mem_cons.2 hw)
    rw [List.cons_append, splitLoop, if_neg (Ne.symm hb), if_neg (by simp), ih hw]
    simp

theorem split_join {words : List Bytes} (hw : ∀ word ∈ words, 47 ∉ word) :
    split (join words) = slash :: words := by
  show slash :: splitLoop [] _ = _
  congr 1
  induction words with
  | nil => rfl
  | cons word words ih =>
    rw [List.flatMap_cons, List.append_assoc, List.singleton_append,
      splitLoop_append (hw word List.mem_cons_self), List.nil_append,
      ih fun w h => hw w (List.mem_cons_of_mem _ h)]

/-- The levels below the first one hold no separator. -/
theorem notMem_of_mem_splitLoop {temp str word : Bytes} (ht : 47 ∉ temp)
    (hw : word ∈ splitLoop temp str) : 47 ∉ word := by
  induction str generalizing temp with
  | nil => cases hw
  | cons b rest ih =>
    rw [splitLoop] at hw
    split_ifs at hw with hb hr
    · rcases List.mem_cons.1 hw with rfl | hw
      · exact ht
      · exact ih List.not_mem_nil hw
    · rw [List.mem_singleton.1 hw]
      simp [ht, Ne.symm hb]
    · exact ih (by simp [ht, Ne.symm hb]) hw

/-- Every node below the first level can be spelled in a topic. -/
def TopicTree.Spelled (tree : TopicTree) : Prop :=
  ∀ path, (tree.root.top.find path).isSome → ∀ word ∈ path, 47 ∉ word

theorem Node.notMem_of_spans {n : Node} {words : List Bytes} {path : Path}
    (hn : ∀ path, (n.find path).isSome → ∀ word ∈ path, 47 ∉ word)
    (hw : ∀ word ∈ words, 47 ∉ word) (hs : n.Spans words path) : ∀ word ∈ path, 47 ∉ word := by
  induction words generalizing n path with
  | nil =>
    cases path with
    | nil => simp
    | cons str rest => cases hs
  | cons word words ih =>
    cases path with
    | nil => simp
    | cons str rest =>
      have hw' : ∀ w ∈ words, 47 ∉ w := fun w h => hw w (List.mem_cons_of_mem _ h)
      have hchild : ∀ c, n.child str = some c →
          ∀ path, (c.find path).isSome → ∀ word ∈ path, 47 ∉ word := by
        intro c hc path hp w hwp
        refine hn (str :: path) ?_ w (List.mem_cons_of_mem _ hwp)
        rwa [find_cons_of_child hc]
      rw [Spans] at hs
      rw [List.forall_mem_cons]
      split_ifs at hs with hp hh
      · obtain ⟨c, hc, hs⟩ := hs
        refine ⟨hn [str] (isSome_find_cons.2 ⟨c, hc, rfl⟩) str List.mem_cons_self, ?_⟩
        exact ih (hchild c hc) hw' hs
      · obtain ⟨rfl, hs⟩ := hs
        refine ⟨hw word List.mem_cons_self, ih ?_ hw' hs⟩
        cases hc : n.child word with
        | some c => exact hchild c hc
        | none =>
          intro path hp
          rw [Option.getD_none, isSome_find_new] at hp
          rw [hp]
          simp

namespace TopicTree

theorem spelled_empty : TopicTree.empty.Spelled := by
  intro path hp
  rw [show TopicTree.empty.root.top = .new slash from rfl, isSome_find_new] at hp
  rw [hp]
  simp

theorem Spelled.call (h : tree.Spelled) (op : TreeCall) : (tree.call op).Spelled := by
  intro path hp
  rw [isSome_find_top, isSome_find_call, spans_split] at hp
  rcases hp with (hp | ⟨b, words, -, hs⟩) | rfl
  · exact h path (isSome_find_top.2 (.inl hp))
  · exact notMem_of_spans h (fun w hw => notMem_of_mem_splitLoop List.not_mem_nil hw) hs
  · simp

theorem Spelled.calls (h : tree.Spelled) (ops : List TreeCall) : (tree.calls ops).Spelled := by
  induction ops generalizing tree with
  | nil => exact h
  | cons op ops ih => exact ih (h.call op)

/-- Every node that a match of the topic would create below the first level is there. -/
def Explored (tree : TopicTree) (topic : Bytes) : Prop := tree.root.top.Known (split topic).tail

instance (tree : TopicTree) (topic : Bytes) : Decidable (tree.Explored topic) :=
  Node.decidableKnown _ _

theorem Explored.alike {topic : Bytes} (h : tree.Explored topic) :
    Alike (tree.call (.match topic)).root tree.root := by
  refine ⟨tree.subsAt_match topic, fun path => ?_⟩
  rw [isSome_find_top, isSome_find_call, spans_split, isSome_find_top]
  constructor
  · rintro ((hp | ⟨b, words, rfl, hs⟩) | hp)
    · exact .inl hp
    · exact isSome_find_top.1 (h.find hs)
    · exact .inr hp
  · rintro (hp | hp)
    · exact .inl (.inl hp)
    · exact .inr hp

/-- A client of the test subscription. -/
def prober : SessionRef := ⟨[], 0⟩

/-- Subscribe to the children of a node and look whether one of them is there. -/
def probe (init : Path) (last : Bytes) : List TreeCall :=
  [.subscribe (join (init ++ [plus])) prober 0, .match (join (init ++ [last]))]

theorem probe_spec {init : Path} {last : Bytes}
    (hinit : ∀ word ∈ init, 47 ∉ word) (hlast : 47 ∉ last)
    (hc : (tree.root.top.find init).isSome) (hne : last ≠ plus ∧ last ≠ hash)
    (hsubs : tree.root.subsAt (slash :: (init ++ [last])) = ∅) :
    ∃ pairs, tree.results (probe init last) = [pairs] ∧
      ((prober.clientId, (0 : UInt8)) ∈ pairs ↔
        (tree.root.top.find (init ++ [last])).isSome) := by
  refine ⟨_, rfl, ?_⟩
  have hkeys := (wellFormed_getD tree.wellFormed slash).keys_ne hc
  obtain ⟨c, hc⟩ := Option.isSome_iff_exists.1 hc
  have hspell : ∀ {word : Bytes}, 47 ∉ word → ∀ w ∈ init ++ [word], 47 ∉ w := by
    intro word hword w hw
    rcases List.mem_append.1 hw with hw | hw
    · exact hinit w hw
    · exact List.mem_singleton.1 hw ▸ hword
  have hfilter : split (join (init ++ [plus])) = slash :: (init ++ [plus]) :=
    split_join (hspell (by decide))
  have hname : split (join (init ++ [last])) = slash :: (init ++ [last]) :=
    split_join (hspell hlast)
  -- the filter leads to the node if it is there
  have hreach : tree.root.Reaches (split (join (init ++ [plus]))) (slash :: (init ++ [last])) ↔
      (tree.root.top.find (init ++ [last])).isSome := by
    rw [hfilter, Reaches, if_neg (by decide), if_neg (by decide)]
    simp only [List.cons.injEq, true_and, exists_eq_left']
    rw [show (tree.root.child slash).getD (.new slash) = tree.root.top from rfl,
      reaches_append hkeys hc, Reaches, if_pos rfl, find_append, hc]
    constructor
    · rintro ⟨str, rest, d, he, hd, -⟩
      obtain ⟨rfl, rfl⟩ := List.cons.inj he
      exact isSome_find_cons.2 ⟨d, hd, rfl⟩
    · intro hs
      obtain ⟨d, hd, -⟩ := isSome_find_cons.1 hs
      exact ⟨last, [], d, rfl, hd, rfl⟩
  have hlit : ∀ word ∈ slash :: (init ++ [last]), word ≠ plus ∧ word ≠ hash := by
    intro word hw
    rcases List.mem_cons.1 hw with rfl | hw
    · decide
    · rcases List.mem_append.1 hw with hw | hw
      · exact hkeys word hw
      · exact List.mem_singleton.1 hw ▸ hne
  rw [← hreach, mem_pairs, hname]
  constructor
  · rintro ⟨path, hr, clientId, sub, hl, -⟩
    rw [(reaches_literal hlit _ _).1 hr] at hl
    by_contra hno
    rw [(subsAt_call _ _).2 hno, hsubs] at hl
    cases hl
  · intro hr
    refine ⟨_, (reaches_literal hlit _ _).2 rfl, prober.clientId, ⟨prober, 0⟩, ?_, rfl⟩
    rw [(subsAt_call _ _).1 hr]
    exact AList.lookup_insert _

/-- Where a match adds a node, a subscription and a second match tell. -/
theorem Spelled.exists_results_ne (hspelled : tree.Spelled) {topic : Bytes}
    (h : ¬ tree.Explored topic) :
    ∃ later, (tree.call (.match topic)).results later ≠ tree.results later := by
  obtain ⟨init, last, c, hc, hl, hs, hmem, hne⟩ := exists_missing h
  obtain ⟨b, words, rfl⟩ : ∃ b words, topic = b :: words := by
    cases topic with
    | nil => cases hmem
    | cons b words => exact ⟨b, words, rfl⟩
  have hinit : (tree.root.top.find init).isSome := Option.isSome_iff_exists.2 ⟨c, hc⟩
  have hlast : 47 ∉ last := notMem_of_mem_splitLoop List.not_mem_nil hmem
  have hmissing : ¬ (tree.root.top.find (init ++ [last])).isSome := by
    rw [find_append, hc, Option.bind_some, find_cons, hl]
    simp
  have hadded : ((tree.call (.match (b :: words))).root.top.find (init ++ [last])).isSome := by
    refine isSome_find_top.2 (.inl ((isSome_find_call _ _).2 (.inr ?_)))
    exact (spans_split _ _).2 ⟨b, words, rfl, hs⟩
  have hinit' : ((tree.call (.match (b :: words))).root.top.find init).isSome := by
    rw [find_append] at hadded
    cases hf : (tree.call (.match (b :: words))).root.top.find init with
    | none => rw [hf] at hadded; cases hadded
    | some d => rfl
  have hsubs : tree.root.subsAt (slash :: (init ++ [last])) = ∅ := by
    have hnone : tree.root.find (slash :: (init ++ [last])) = none := by
      rw [← Option.not_isSome_iff_eq_none]
      exact fun hs => hmissing (isSome_find_top.2 (.inl hs))
    unfold subsAt
    rw [hnone]
    rfl
  have hsubs' : (tree.call (.match (b :: words))).root.subsAt (slash :: (init ++ [last])) = ∅ :=
    (tree.subsAt_match (b :: words) _).trans hsubs
  obtain ⟨found, hfound, hmem₁⟩ := probe_spec (hspelled _ hinit) hlast hinit hne hsubs
  obtain ⟨found', hfound', hmem₂⟩ := probe_spec (hspelled _ hinit) hlast hinit' hne hsubs'
  refine ⟨probe init last, fun he => hmissing (hmem₁.1 ?_)⟩
  rw [hfound, hfound', List.singleton_inj] at he
  exact he ▸ hmem₂.2 hadded

end TopicTree

/-- **When a match is observable.**  After any calls, a match of the topic changes the result of no
later match exactly if the nodes its levels lead to are there, the first level apart. -/
theorem match_unobservable_iff (calls : List TreeCall) (topic : Bytes) :
    (∀ later, ((TopicTree.empty.calls calls).call (.match topic)).results later =
        (TopicTree.empty.calls calls).results later) ↔
      (TopicTree.empty.calls calls).Explored topic := by
  constructor
  · intro h
    by_contra hno
    obtain ⟨later, hlater⟩ := (TopicTree.spelled_empty.calls calls).exists_results_ne hno
    exact hlater (h later)
  · intro h later
    exact h.alike.results later

example : (TopicTree.empty.calls [.match topicAB, .match filterAPlus]).Explored filterAPlus := by
  decide +kernel

/-- Publishing `"/a/b"` first makes a difference to the filter `"/a/+"`. -/
theorem match_observable :
    ¬ ∀ (calls later : List TreeCall) (topic : Bytes),
      ((TopicTree.empty.calls calls).call (.match topic)).results later =
        (TopicTree.empty.calls calls).results later := by
  intro h
  have := h [] [.subscribe filterAPlus someClient 1, .match topicAB] topicAB
  revert this
  decide +kernel

end Culex
