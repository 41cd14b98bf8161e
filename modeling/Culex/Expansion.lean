import Culex.Overlaps

/-!
# What a filter reaches

The nodes that `getNode` finds for a filter, over the life of a tree.  They only become more, so
that an unsubscription reaches what the subscription reached (`unsubscribes_everywhere`).  And they
are the nodes whose path matches the filter, but for the leaves that a `#` stands at
(`exact_iff`).
-/

namespace Culex

open Node

/-! ### Growing over calls -/

section Growing

variable {tree : TopicTree}

theorem TopicTree.nodesIn_call (tree : TopicTree) (op : TreeCall) :
    NodesIn tree.root (tree.call op).root :=
  fun path hp => (TopicTree.isSome_find_call op path).2 (.inl hp)

theorem TopicTree.nodesIn_calls (tree : TopicTree) (ops : List TreeCall) :
    NodesIn tree.root (tree.calls ops).root := by
  induction ops generalizing tree with
  | nil => exact .refl _
  | cons op ops ih =>
    rw [calls, List.foldl_cons]
    exact (tree.nodesIn_call op).trans (ih (tree.call op))

theorem TopicTree.mem_getNode (tree : TopicTree) (filter : Bytes) (path : Path) :
    path ∈ (tree.getNode filter).2 ↔ tree.root.Reaches (split filter) path :=
  (tree.getNode_visited filter).mem path

/-- **A filter reaches more and more nodes.** -/
theorem TopicTree.mem_getNode_calls (ops : List TreeCall) {filter : Bytes} {path : Path}
    (h : path ∈ (tree.getNode filter).2) : path ∈ ((tree.calls ops).getNode filter).2 := by
  rw [mem_getNode] at h ⊢
  exact (tree.nodesIn_calls ops).reaches tree.wellFormed (tree.calls ops).wellFormed h

/-- **Unsubscribing reaches everything that was subscribed**: what a filter reaches stays reached
over any calls, and after an unsubscription the client has no entry at a node where the subscription
put one. -/
theorem unsubscribes_everywhere (tree : TopicTree) (filter : Bytes) (session session' : SessionRef)
    (qos : UInt8) (ops : List TreeCall) (hid : session'.clientId = session.clientId) :
    (∀ path ∈ (tree.getNode filter).2, path ∈ ((tree.calls ops).getNode filter).2) ∧
      ∀ path ∈ (tree.getNode filter).2,
        ((tree.subscribe filter session qos).root.subsAt path).lookup session.clientId
          = some ⟨session, qos⟩ ∧
        session.clientId ∉ (((tree.subscribe filter session qos).calls ops).unsubscribe filter
          session').root.subsAt path := by
  refine ⟨fun path => TopicTree.mem_getNode_calls ops, fun path hpath => ⟨?_, ?_⟩⟩
  · rw [tree.subsAt_subscribe, if_pos hpath, AList.lookup_insert]
  · -- the subscription is the first of the calls
    have h := TopicTree.mem_getNode_calls (.subscribe filter session qos :: ops) hpath
    have hreach : path ∈ (((tree.subscribe filter session qos).calls ops).getNode filter).2 := h
    rw [TopicTree.subsAt_unsubscribe, if_pos hreach, hid, AList.mem_erase]
    exact fun hmem => hmem.1 rfl

/-- A client subscribes with one session and unsubscribes with another one, after a match has added
a node. -/
theorem unsubscribes_everywhere_renewed :
    [slash, [97], [98]] ∈ ((TopicTree.empty.call (.match topicAB)).getNode filterAPlus).2 ∧
      someClient.clientId ∉ ((((TopicTree.empty.call (.match topicAB)).subscribe filterAPlus
        someClient 1).calls [.match [47, 97, 47, 99]]).unsubscribe filterAPlus
          ⟨someClient.clientId, 7⟩).root.subsAt [slash, [97], [98]] := by
  have hmem : [slash, [97], [98]] ∈
      ((TopicTree.empty.call (.match topicAB)).getNode filterAPlus).2 := by decide +kernel
  have h := (unsubscribes_everywhere (TopicTree.empty.call (.match topicAB)) filterAPlus someClient
    ⟨someClient.clientId, 7⟩ 1 [.match [47, 97, 47, 99]] rfl).2 _ hmem
  exact ⟨hmem, h.2⟩

end Growing

/-! ### One level -/

section Exactness

variable {n c : Node} {word str : Bytes} {words : List Bytes} {path rest : Path}

theorem pathMatches_cons (hh : word ≠ hash) :
    PathMatches (word :: words) (str :: rest) ↔
      (word = plus ∨ word = str) ∧ PathMatches words rest := by
  show (if word = hash then True else _) ↔ _
  rw [if_neg hh]

theorem not_pathMatches_nil (hh : word ≠ hash) : ¬ PathMatches (word :: words) [] := by
  show ¬ if word = hash then True else False
  rw [if_neg hh]
  exact not_false

theorem pathMatches_hash (words : List Bytes) (path : Path) : PathMatches (hash :: words) path := by
  show if hash = hash then True else _
  rw [if_pos rfl]
  trivial

theorem not_reaches_nil (hh : word ≠ hash) : ¬ n.Reaches (word :: words) [] :=
  fun hr => not_pathMatches_nil hh ((reaches_iff _ _ _).1 hr).1

/-- A walk to a child that is there. -/
theorem reaches_cons_of_child (hh : word ≠ hash) (hc : n.child str = some c) :
    n.Reaches (word :: words) (str :: rest) ↔
      (word = plus ∨ word = str) ∧ c.Reaches words rest := by
  rw [Reaches, if_neg hh]
  split_ifs with hp
  · rw [and_iff_right (Or.inl hp)]
    constructor
    · rintro ⟨s, r, c', he, hc', hr⟩
      obtain ⟨rfl, rfl⟩ := List.cons.inj he
      cases hc.symm.trans hc'
      exact hr
    · exact fun hr => ⟨str, rest, c, rfl, hc, hr⟩
  · rw [or_iff_right hp]
    constructor
    · rintro ⟨r, he, hr⟩
      obtain ⟨rfl, rfl⟩ := List.cons.inj he
      rw [hc] at hr
      exact ⟨rfl, hr⟩
    · rintro ⟨rfl, hr⟩
      refine ⟨rest, rfl, ?_⟩
      rw [hc]
      exact hr

/-- A walk to a child that it creates. -/
theorem reaches_cons_of_none (hh : word ≠ hash) (hc : n.child str = none) :
    n.Reaches (word :: words) (str :: rest) ↔
      (word ≠ plus ∧ word = str) ∧ (new str).Reaches words rest := by
  rw [Reaches, if_neg hh]
  split_ifs with hp
  · refine iff_of_false ?_ fun h => h.1.1 hp
    rintro ⟨s, r, c, he, hc', -⟩
    obtain ⟨rfl, rfl⟩ := List.cons.inj he
    cases hc.symm.trans hc'
  · constructor
    · rintro ⟨r, he, hr⟩
      obtain ⟨rfl, rfl⟩ := List.cons.inj he
      rw [hc] at hr
      exact ⟨⟨hp, rfl⟩, hr⟩
    · rintro ⟨⟨-, rfl⟩, hr⟩
      refine ⟨rest, rfl, ?_⟩
      rw [hc]
      exact hr

theorem spans_cons_of_child (hh : word ≠ hash) (hc : n.child str = some c) :
    n.Spans (word :: words) (str :: rest) ↔ (word = plus ∨ word = str) ∧ c.Spans words rest := by
  rw [Spans, if_neg hh]
  split_ifs with hp
  · rw [and_iff_right (Or.inl hp)]
    constructor
    · rintro ⟨c', hc', hs⟩
      cases hc.symm.trans hc'
      exact hs
    · exact fun hs => ⟨c, hc, hs⟩
  · rw [or_iff_right hp]
    refine and_congr_right fun hw => ?_
    rw [hw, hc]
    rfl

theorem spans_cons_of_none (hh : word ≠ hash) (hc : n.child str = none) :
    n.Spans (word :: words) (str :: rest) ↔
      (word ≠ plus ∧ word = str) ∧ (new str).Spans words rest := by
  rw [Spans, if_neg hh]
  split_ifs with hp
  · refine iff_of_false ?_ fun h => h.1.1 hp
    rintro ⟨c, hc', -⟩
    cases hc.symm.trans hc'
  · rw [and_iff_right hp]
    refine and_congr_right fun hw => ?_
    rw [hw, hc]
    rfl

/-! ### Filters without `#` -/

/-- Without a `#` a walk finds the nodes that match, among those that are there or that it adds. -/
theorem reaches_iff_matches (hw : hash ∉ words) :
    n.Reaches words path ↔
      ((n.find path).isSome ∨ n.Spans words path) ∧ PathMatches words path := by
  induction words generalizing n path with
  | nil =>
    cases path <;> simp [Reaches, PathMatches]
  | cons word words ih =>
    have hh : word ≠ hash := fun he => hw (he ▸ List.mem_cons_self)
    have ih := fun n path => @ih n path fun hm => hw (List.mem_cons_of_mem _ hm)
    cases path with
    | nil => exact iff_of_false (not_reaches_nil hh) fun h => not_pathMatches_nil hh h.2
    | cons str rest =>
      rw [pathMatches_cons hh]
      cases hc : n.child str with
      | some c =>
        rw [reaches_cons_of_child hh hc, spans_cons_of_child hh hc, find_cons_of_child hc, ih]
        tauto
      | none =>
        -- there is nothing below a level that is added but what the walk adds
        have hfind : (n.find (str :: rest)).isSome ↔ False := by
          rw [find_cons, hc]
          simp
        have hnew : ((new str).find rest).isSome → (new str).Spans words rest := by
          intro h
          obtain rfl := isSome_find_new.1 h
          exact spans_nil _ _
        rw [reaches_cons_of_none hh hc, spans_cons_of_none hh hc, hfind, ih]
        tauto

/-! ### Filters that end with `#` -/

theorem length_eq_of_pathMatches (hw : hash ∉ words) (h : PathMatches words path) :
    path.length = words.length := by
  induction words generalizing path with
  | nil => rw [show path = [] from h]
  | cons word words ih =>
    have hh : word ≠ hash := fun he => hw (he ▸ List.mem_cons_self)
    cases path with
    | nil => exact absurd h (not_pathMatches_nil hh)
    | cons str rest =>
      have hrest := ((pathMatches_cons hh).1 h).2
      rw [List.length_cons, List.length_cons, ih (fun hm => hw (List.mem_cons_of_mem _ hm)) hrest]

/-- Behind a path that matches there is no room. -/
theorem eq_nil_of_pathMatches (hw : hash ∉ words) (h : PathMatches words path)
    (hle : (path ++ rest).length ≤ words.length) : rest = [] := by
  have hlen := length_eq_of_pathMatches hw h
  rw [List.length_append] at hle
  exact List.length_eq_zero_iff.1 (by omega)

theorem isSome_find_of_append (h : (n.find (path ++ rest)).isSome) : (n.find path).isSome := by
  rw [find_append] at h
  cases hf : n.find path with
  | none =>
    rw [hf] at h
    cases h
  | some c => rfl

theorem length_le_of_spans (h : n.Spans words path) : path.length ≤ words.length := by
  induction words generalizing n path with
  | nil =>
    cases path with
    | nil => simp
    | cons str rest => exact h.elim
  | cons word words ih =>
    cases path with
    | nil => simp
    | cons str rest =>
      rw [Spans] at h
      rw [List.length_cons, List.length_cons, Nat.add_le_add_iff_right]
      split_ifs at h
      · obtain ⟨c, -, h⟩ := h
        exact ih h
      · exact ih h.2

/-- A `#` at the end adds nothing. -/
theorem spans_append_hash (hw : hash ∉ words) :
    n.Spans (words ++ [hash]) path ↔ n.Spans words path := by
  induction words generalizing n path with
  | nil =>
    cases path with
    | nil => simp
    | cons str rest =>
      rw [List.nil_append]
      simp only [Spans, if_neg plus_ne_hash.symm, if_true]
  | cons word words ih =>
    have hw' : hash ∉ words := fun hm => hw (List.mem_cons_of_mem _ hm)
    cases path with
    | nil => simp
    | cons str rest =>
      rw [List.cons_append, Spans, Spans]
      simp only [ih hw']

/-- A `#` at the end matches a path whose first levels match what is before it. -/
theorem pathMatches_append_hash (hw : hash ∉ words) :
    PathMatches (words ++ [hash]) path ↔
      ∃ front rest, path = front ++ rest ∧ PathMatches words front := by
  induction words generalizing path with
  | nil =>
    exact iff_of_true (pathMatches_hash _ _) ⟨[], path, rfl, rfl⟩
  | cons word words ih =>
    have hh : word ≠ hash := fun he => hw (he ▸ List.mem_cons_self)
    rw [List.cons_append]
    cases path with
    | nil =>
      refine iff_of_false (not_pathMatches_nil hh) ?_
      rintro ⟨front, rest, he, hm⟩
      obtain ⟨rfl, -⟩ := List.append_eq_nil_iff.1 he.symm
      exact not_pathMatches_nil hh hm
    | cons str tail =>
      rw [pathMatches_cons hh, ih fun hm => hw (List.mem_cons_of_mem _ hm)]
      constructor
      · rintro ⟨hstr, front, rest, rfl, hm⟩
        exact ⟨str :: front, rest, rfl, (pathMatches_cons hh).2 ⟨hstr, hm⟩⟩
      · rintro ⟨front, rest, he, hm⟩
        cases front with
        | nil => exact absurd hm (not_pathMatches_nil hh)
        | cons s front =>
          obtain ⟨rfl, rfl⟩ := List.cons.inj he
          obtain ⟨hstr, hm⟩ := (pathMatches_cons hh).1 hm
          exact ⟨hstr, front, rest, rfl, hm⟩

/-- **A walk to a `#`** finds the nodes at and below those that the levels before it lead to and
that have a child. -/
theorem reaches_append_hash (h : WellFormed n) (hw : hash ∉ words) :
    n.Reaches (words ++ [hash]) path ↔
      ∃ front rest, path = front ++ rest ∧ n.Reaches words front ∧
        (∃ str, (n.find (front ++ [str])).isSome) ∧ (n.find path).isSome := by
  induction words generalizing n path with
  | nil =>
    rw [List.nil_append, Reaches, if_neg plus_ne_hash.symm, if_pos rfl, links_ne_nil_iff h]
    constructor
    · rintro ⟨⟨str, c, hc⟩, hfound⟩
      exact ⟨[], path, rfl, rfl, ⟨str, isSome_find_cons.2 ⟨c, hc, rfl⟩⟩, hfound⟩
    · rintro ⟨front, rest, rfl, hr, ⟨str, hs⟩, hfound⟩
      obtain rfl : front = [] := hr
      obtain ⟨c, hc, -⟩ := isSome_find_cons.1 hs
      exact ⟨⟨str, c, hc⟩, hfound⟩
  | cons word words ih =>
    have hh : word ≠ hash := fun he => hw (he ▸ List.mem_cons_self)
    have hw' : hash ∉ words := fun hm => hw (List.mem_cons_of_mem _ hm)
    rw [List.cons_append]
    cases path with
    | nil =>
      refine iff_of_false (not_reaches_nil hh) ?_
      rintro ⟨front, rest, he, hr, -⟩
      obtain ⟨rfl, -⟩ := List.append_eq_nil_iff.1 he.symm
      exact not_reaches_nil hh hr
    | cons str tail =>
      cases hc : n.child str with
      | some c =>
        rw [reaches_cons_of_child hh hc, ih (h.of_child hc) hw', find_cons_of_child hc]
        constructor
        · rintro ⟨hstr, front, rest, rfl, hr, ⟨s, hs⟩, hfound⟩
          refine ⟨str :: front, rest, rfl, (reaches_cons_of_child hh hc).2 ⟨hstr, hr⟩, ⟨s, ?_⟩,
            hfound⟩
          exact isSome_find_cons.2 ⟨c, hc, hs⟩
        · rintro ⟨front, rest, he, hr, ⟨s, hs⟩, hfound⟩
          cases front with
          | nil => exact absurd hr (not_reaches_nil hh)
          | cons str' front =>
            obtain ⟨rfl, rfl⟩ := List.cons.inj he
            obtain ⟨hstr, hr⟩ := (reaches_cons_of_child hh hc).1 hr
            rw [List.cons_append, find_cons_of_child hc] at hs
            exact ⟨hstr, front, rest, rfl, hr, ⟨s, hs⟩, hfound⟩
      | none =>
        rw [reaches_cons_of_none hh hc, ih (.new str) hw']
        refine iff_of_false ?_ ?_
        · -- a level that has just been added has no child
          rintro ⟨-, front, rest, -, -, ⟨s, hs⟩, -⟩
          have hnil := isSome_find_new.1 hs
          simp at hnil
        · rintro ⟨-, -, -, -, -, hfound⟩
          obtain ⟨c, hc', -⟩ := isSome_find_cons.1 hfound
          cases hc.symm.trans hc'

end Exactness

/-! ### Exactness -/

/-- The expansion of a filter is exact: no node twice, and the nodes of the tree that the walk
leaves behind whose path matches. -/
structure Exact (tree : TopicTree) (filter : Bytes) : Prop where
  nodup : (tree.getNode filter).2.Nodup
  mem : ∀ path, path ∈ (tree.getNode filter).2 ↔
    ((tree.getNode filter).1.root.find path).isSome ∧ PathMatches (split filter) path

/-- Where a filter ends with `#`, each node that matches the levels before it, and is there or will
be created for them, has a child. -/
def Branching (tree : TopicTree) (filter : Bytes) : Prop :=
  hash ∈ split filter → ∀ path, PathMatches (split filter).dropLast path →
    (tree.root.find path).isSome ∨ tree.root.Spans (split filter).dropLast path →
      ∃ str, (tree.root.find (path ++ [str])).isSome

variable {tree : TopicTree} {filter : Bytes}

theorem TopicTree.matches_of_mem_getNode {path : Path} (h : path ∈ (tree.getNode filter).2) :
    ((tree.getNode filter).1.root.find path).isSome ∧ PathMatches (split filter) path := by
  have hvis := tree.getNode_visited filter
  exact ⟨hvis.found path h, ((reaches_iff _ _ _).1 ((hvis.mem path).1 h)).1⟩

/-- Without a `#` the expansion is exact. -/
theorem exact_of_no_hash (h : hash ∉ split filter) : Exact tree filter := by
  refine ⟨(tree.getNode_visited filter).nodup, fun path => ?_⟩
  rw [tree.mem_getNode, reaches_iff_matches h, TopicTree.isSome_find_getNode]

/-- The nodes at which the levels before a `#` match are the ones that they lead to. -/
theorem reaches_init {words : List Bytes} {path : Path} (hsplit : split filter = words ++ [hash])
    (hw : hash ∉ words) :
    tree.root.Reaches words path ↔
      ((tree.getNode filter).1.root.find path).isSome ∧ PathMatches words path := by
  rw [reaches_iff_matches hw, TopicTree.isSome_find_getNode, hsplit, spans_append_hash hw]

/-- With a `#` at the end it is exact if and only if that stands at no leaf. -/
theorem exact_iff_of_hash {words : List Bytes} (hsplit : split filter = words ++ [hash])
    (hw : hash ∉ words) :
    Exact tree filter ↔ ∀ path, tree.root.Reaches words path →
      ∃ str, (tree.root.find (path ++ [str])).isSome := by
  have hvis := tree.getNode_visited filter
  have hmem : ∀ path, path ∈ (tree.getNode filter).2 ↔ _ := fun path =>
    (tree.mem_getNode filter path).trans
      (hsplit ▸ reaches_append_hash tree.wellFormed hw)
  constructor
  · intro hexact path hr
    -- the node itself matches, so that it is found, and then as its own front
    obtain ⟨hfound, hm⟩ := (reaches_init hsplit hw).1 hr
    have hpath : PathMatches (split filter) path := by
      rw [hsplit]
      exact (pathMatches_append_hash hw).2 ⟨path, [], (List.append_nil _).symm, hm⟩
    obtain ⟨front, rest, rfl, hr', hchild, -⟩ := (hmem path).1 ((hexact.mem path).2 ⟨hfound, hpath⟩)
    have hlen := length_eq_of_pathMatches hw hm
    obtain rfl := eq_nil_of_pathMatches hw ((reaches_iff _ _ _).1 hr').1 hlen.le
    rwa [List.append_nil]
  · intro hbranch
    refine ⟨hvis.nodup, fun path => ⟨TopicTree.matches_of_mem_getNode, ?_⟩⟩
    rintro ⟨hfound, hm⟩
    rw [hsplit, pathMatches_append_hash hw] at hm
    obtain ⟨front, rest, rfl, hm⟩ := hm
    have hr := (reaches_init hsplit hw).2 ⟨isSome_find_of_append hfound, hm⟩
    obtain ⟨str, hchild⟩ := hbranch front hr
    refine (hmem _).2 ⟨front, rest, rfl, hr, ⟨str, hchild⟩, ?_⟩
    -- the walk has added nothing below the front, and the front was there
    rcases (TopicTree.isSome_find_getNode filter _).1 hfound with hthere | hspans
    · exact hthere
    · rw [hsplit, spans_append_hash hw] at hspans
      obtain rfl := eq_nil_of_pathMatches hw hm (length_le_of_spans hspans)
      rw [List.append_nil]
      exact isSome_find_of_append hchild

/-- **The expansion of a filter on the current tree is exact** if and only if the filter has no `#`,
or its `#` stands at no leaf. -/
theorem exact_iff (tree : TopicTree) (filter : Bytes) (hlast : hash ∉ (split filter).dropLast) :
    Exact tree filter ↔ Branching tree filter := by
  by_cases hh : hash ∈ split filter
  · have hne : split filter ≠ [] := List.ne_nil_of_mem hh
    have hend : (split filter).getLast hne = hash := by
      have hmem := List.dropLast_append_getLast hne ▸ hh
      rcases List.mem_append.1 hmem with hm | hm
      · exact absurd hm hlast
      · exact (List.mem_singleton.1 hm).symm
    have hsplit : split filter = (split filter).dropLast ++ [hash] := by
      rw [← hend, List.dropLast_append_getLast]
    rw [exact_iff_of_hash hsplit hlast, Branching, imp_iff_right hh]
    refine forall_congr' fun path => ?_
    rw [reaches_iff_matches hlast, and_comm, and_imp]
  · exact iff_of_true (exact_of_no_hash hh) fun h => absurd h hh

/-- `"/a/#"` on a tree with a node below the one at which the `#` stands. -/
theorem exact_iff_below : Exact (TopicTree.empty.call (.match topicAB)) [47, 97, 47, 35] := by
  refine (exact_iff _ _ (by decide)).2 fun _ path hpath _ => ?_
  have hword : slash ≠ hash ∧ ([97] : Bytes) ≠ hash ∧ slash ≠ plus ∧ ([97] : Bytes) ≠ plus := by
    decide
  have hpath : PathMatches [slash, [97]] path := hpath
  obtain rfl : path = [slash, [97]] := by
    cases path with
    | nil => exact absurd hpath (not_pathMatches_nil hword.1)
    | cons first rest =>
      obtain ⟨hfirst, hrest⟩ := (pathMatches_cons hword.1).1 hpath
      cases rest with
      | nil => exact absurd hrest (not_pathMatches_nil hword.2.1)
      | cons second rest =>
        obtain ⟨hsecond, hnil⟩ := (pathMatches_cons hword.2.1).1 hrest
        obtain rfl : rest = [] := hnil
        rw [← hfirst.resolve_left hword.2.2.1, ← hsecond.resolve_left hword.2.2.2]
  exact ⟨[98], by decide +kernel⟩

/-- `"/a/#"` on the empty tree: the walk creates the node for `"/a"`, at which the filter matches,
and does not return it. -/
theorem not_exact_leaf :
    ¬ ∀ (calls : List TreeCall) (filter : Bytes), hash ∉ (split filter).dropLast →
      Exact (TopicTree.empty.calls calls) filter := by
  intro h
  have hexact := h [] [47, 97, 47, 35] (by decide)
  have hfound : [slash, [97]] ∈
      ((TopicTree.empty.calls []).getNode [47, 97, 47, 35]).2 := by
    refine (hexact.mem [slash, [97]]).2 ⟨by decide +kernel, ?_⟩
    exact (pathMatches_cons (by decide)).2 ⟨.inr rfl,
      (pathMatches_cons (by decide)).2 ⟨.inr rfl, pathMatches_hash _ _⟩⟩
  revert hfound
  decide +kernel

end Culex
