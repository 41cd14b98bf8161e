import Culex.TopicTree
import Culex.Lib.Run

/-!
# The nodes a walk adds

`Visited` says that `getNode` adds nothing but empty nodes.  Here is which nodes they are: those a
filter or topic passes (`Spans`), as `isSome_find_getNode` shows.  `TreeCall` are the calls that
a tree is used through.
-/

namespace Culex

namespace Node

/-- The walk passes the node: it goes on to every child at a `+`, stops at a `#` and creates every
other level that is missing. -/
def Spans : Node → List Bytes → Path → Prop
  | _, _, [] => True
  | _, [], _ :: _ => False
  | n, word :: words, str :: rest =>
    if word = plus then ∃ c, n.child str = some c ∧ Spans c words rest
    else if word = hash then False
    else word = str ∧ Spans ((n.child word).getD (new word)) words rest

variable {n n' c : Node} {str : Bytes} {path : Path}

@[simp] theorem spans_nil (n : Node) (words : List Bytes) : n.Spans words [] := by
  cases words <;> exact trivial

theorem isSome_find_cons :
    (n.find (str :: path)).isSome ↔ ∃ c, n.child str = some c ∧ (c.find path).isSome := by
  cases hc : n.child str with
  | none => simp [find_cons, hc]
  | some c => simp [find_cons, hc]

theorem isSome_find_new {level : Bytes} : ((new level).find path).isSome ↔ path = [] := by
  cases path with
  | nil => simp
  | cons str path =>
    simp only [isSome_find_cons, reduceCtorEq, iff_false]
    rintro ⟨c, hc, -⟩
    cases hc

theorem isSome_find_setLink (s : Bytes) :
    ((n.setLink s (some c)).find (str :: path)).isSome ↔
      if str = s then (c.find path).isSome else (n.find (str :: path)).isSome := by
  split_ifs with h
  · subst h
    rw [find_cons_of_child (child_setLink_self _ _ _)]
  · rw [find_cons, child_setLink_ne _ _ h, ← find_cons]

/-- What a visit makes of a node: a node of the same level that has the nodes `S` besides its
own. -/
structure Passed (n n' : Node) (S : Path → Prop) : Prop where
  wellFormed : WellFormed n'
  level : n'.level = n.level
  find : ∀ path, (n'.find path).isSome ↔ (n.find path).isSome ∨ S path

theorem passed_visitLinks {visit : Node → Option (Node × List Path)} {S : Node → Path → Prop}
    (hvisit : ∀ c, WellFormed c → ∃ c' paths, visit c = some (c', paths) ∧ Passed c c' (S c))
    {topics : List Bytes} (htopics : topics.Nodup) (h : WellFormed n)
    (hmem : ∀ topic ∈ topics, topic ∈ n.links.keys) :
    ∃ n' paths, visitLinks visit topics n = some (n', paths) ∧
      Passed n n' fun path => ∃ topic rest c, topic ∈ topics ∧ path = topic :: rest ∧
        n.child topic = some c ∧ S c rest := by
  induction topics generalizing n with
  | nil => exact ⟨n, [], rfl, h, rfl, by simp⟩
  | cons topic topics ih =>
    obtain ⟨hnotin, htopics⟩ := List.nodup_cons.1 htopics
    have ht := hmem topic List.mem_cons_self
    obtain ⟨c, hc, hlevel⟩ := h.exists_child ht
    obtain ⟨c', paths, hv, hpass⟩ := hvisit c (h.of_child hc)
    have hwf : WellFormed (n.setLink topic (some c')) :=
      h.setLink hpass.wellFormed (hpass.level.trans hlevel) (h.key_ne ht)
    have hother : ∀ {t : Bytes}, t ∈ topics → (n.setLink topic (some c')).child t = n.child t := by
      intro t htt
      exact child_setLink_ne _ _ fun he => hnotin (he ▸ htt)
    have hkeys : ∀ t ∈ topics, t ∈ (n.setLink topic (some c')).links.keys := fun t htt =>
      mem_keys_setLink h (fun he => hnotin (he ▸ htt)) (hmem t (List.mem_cons_of_mem _ htt))
    obtain ⟨n', rest, hrest, hpass'⟩ := ih htopics hwf hkeys
    refine ⟨n', paths.map (topic :: ·) ++ rest, ?_, hpass'.wellFormed, hpass'.level, ?_⟩
    · exact visitLinks_cons h ht hc hv hrest
    · intro path
      rw [hpass'.find]
      cases path with
      | nil => simp
      | cons str path =>
        rw [isSome_find_setLink]
        by_cases hs : str = topic
        · -- the first link: the later ones are others
          subst hs
          rw [if_pos rfl, hpass.find, find_cons_of_child hc]
          constructor
          · rintro ((h | h) | ⟨t, p, d, htt, he, -, -⟩)
            · exact .inl h
            · exact .inr ⟨str, path, c, List.mem_cons_self, rfl, hc, h⟩
            · exact absurd ((List.cons.inj he).1 ▸ htt) hnotin
          · rintro (h | ⟨t, p, d, -, he, hd, hS⟩)
            · exact .inl (.inl h)
            · obtain ⟨rfl, rfl⟩ := List.cons.inj he
              cases hc.symm.trans hd
              exact .inl (.inr hS)
        · rw [if_neg hs]
          refine or_congr_right
            (exists_congr fun t => exists_congr fun p => exists_congr fun d => ?_)
          constructor
          · rintro ⟨htt, he, hd, hS⟩
            exact ⟨List.mem_cons_of_mem _ htt, he, hother htt ▸ hd, hS⟩
          · rintro ⟨htt, he, hd, hS⟩
            rcases List.mem_cons.1 htt with rfl | htt
            · exact absurd (List.cons.inj he).1 hs
            · exact ⟨htt, he, (hother htt).trans hd, hS⟩

/-- What `getNode` adds below a node. -/
def GetNodePasses (words : List Bytes) (n : Node) : Prop :=
  ∃ n' paths, getNode words n = some (n', paths) ∧ Passed n n' (n.Spans words)

theorem getNode_plus_passes {words : List Bytes} (h : WellFormed n)
    (ih : ∀ c, WellFormed c → GetNodePasses words c) : GetNodePasses (plus :: words) n := by
  have hspans : ∀ str rest, n.Spans (plus :: words) (str :: rest) ↔
      ∃ c, n.child str = some c ∧ c.Spans words rest := by
    intro str rest
    rw [Spans, if_pos rfl]
  by_cases hl : n.getLinkTopics = []
  · refine ⟨n, [], ?_, h, rfl, fun path => ?_⟩
    · rw [getNode, if_pos (.inl rfl)]
      exact if_pos hl
    · cases path with
      | nil => simp
      | cons str rest =>
        rw [hspans, iff_self_or]
        rintro ⟨c, hc, -⟩
        have hkey := mem_keys_of_child hc
        rw [show n.links.keys = [] from hl] at hkey
        cases hkey
  · obtain ⟨n', paths, hv, hpass⟩ := passed_visitLinks ih h.nodup h fun _ ht => ht
    refine ⟨n', paths, ?_, hpass.wellFormed, hpass.level, fun path => ?_⟩
    · rw [getNode, if_pos (.inl rfl)]
      show (if n.getLinkTopics = [] then _ else _) = _
      rw [if_neg hl, if_pos rfl]
      exact hv
    · rw [hpass.find]
      cases path with
      | nil => simp
      | cons str rest =>
        rw [hspans]
        refine or_congr_right ⟨?_, ?_⟩
        · rintro ⟨t, p, c, -, he, hc, hS⟩
          obtain ⟨rfl, rfl⟩ := List.cons.inj he
          exact ⟨c, hc, hS⟩
        · rintro ⟨c, hc, hS⟩
          exact ⟨str, rest, c, mem_keys_of_child hc, rfl, hc, hS⟩

theorem getNode_hash_passes (words : List Bytes) (h : WellFormed n) :
    GetNodePasses (hash :: words) n := by
  have hp : hash ≠ plus := by decide
  have hself : Passed n n (n.Spans (hash :: words)) := by
    refine ⟨h, rfl, fun path => ?_⟩
    cases path with
    | nil => simp
    | cons str rest => rw [Spans, if_neg hp, if_pos rfl, or_false]
  by_cases hl : n.getLinkTopics = []
  · refine ⟨n, [], ?_, hself⟩
    rw [getNode, if_pos (.inr rfl)]
    exact if_pos hl
  · obtain ⟨paths, hw, -⟩ := handleWildCard_spec h
    refine ⟨n, paths, ?_, hself⟩
    rw [getNode, if_pos (.inr rfl)]
    show (if n.getLinkTopics = [] then _ else _) = _
    rw [if_neg hl, if_neg hp, hw]
    rfl

theorem getNode_literal_passes {word : Bytes} {words : List Bytes} (hp : word ≠ plus)
    (hh : word ≠ hash) (h : WellFormed n) (ih : ∀ c, WellFormed c → GetNodePasses words c) :
    GetNodePasses (word :: words) n := by
  set n₀ := if n.ispresent word then n else n.addLink word with hn₀
  -- the level is there, or an empty node is added for it
  have hchild : n₀.child word = some ((n.child word).getD (new word)) ∧ WellFormed n₀ ∧
      n₀.level = n.level ∧
      ∀ path, (n₀.find path).isSome ↔ (n.find path).isSome ∨ path = [word] := by
    cases hc : n.child word with
    | none =>
      have hi : ¬ n.ispresent word := by
        rw [h.ispresent_iff, hc]
        rintro ⟨c, hc'⟩
        cases hc'
      rw [hn₀, if_neg hi]
      refine ⟨child_setLink_self _ _ _, h.setLink (.new word) rfl ⟨hp, hh⟩, rfl, fun path => ?_⟩
      cases path with
      | nil => simp
      | cons str path =>
        rw [addLink, isSome_find_setLink]
        by_cases hs : str = word
        · subst hs
          simp [isSome_find_new, find_cons, hc]
        · simp [hs]
    | some c =>
      rw [hn₀, if_pos (h.ispresent_iff.2 ⟨c, hc⟩)]
      refine ⟨hc, h, rfl, fun path => ?_⟩
      rw [iff_self_or]
      rintro rfl
      exact isSome_find_cons.2 ⟨c, hc, rfl⟩
  obtain ⟨hc, hwf, hlevel, hfind⟩ := hchild
  have hkey : ∀ t ∈ [word], t ∈ n₀.links.keys := by
    intro t ht
    rw [List.mem_singleton.1 ht]
    exact mem_keys_of_child hc
  obtain ⟨n', paths, hv, hpass⟩ := passed_visitLinks ih (List.nodup_singleton word) hwf hkey
  refine ⟨n', paths, ?_, hpass.wellFormed, hpass.level.trans hlevel, fun path => ?_⟩
  · rw [getNode, if_neg (by rintro (h | h); exacts [hp h, hh h])]
    exact hv
  · rw [hpass.find, hfind, or_assoc]
    cases path with
    | nil => simp
    | cons str rest =>
      rw [Spans, if_neg hp, if_neg hh]
      refine or_congr_right ⟨?_, ?_⟩
      · rintro (he | ⟨t, p, c, ht, he, hc', hS⟩)
        · obtain ⟨rfl, rfl⟩ := List.cons.inj he
          exact ⟨rfl, spans_nil _ _⟩
        · obtain ⟨rfl, rfl⟩ := List.cons.inj he
          obtain rfl := List.mem_singleton.1 ht
          cases hc.symm.trans hc'
          exact ⟨rfl, hS⟩
      · rintro ⟨rfl, hS⟩
        exact .inr ⟨word, rest, _, List.mem_singleton_self _, rfl, hc, hS⟩

/-- **What `getNode` adds.** -/
theorem getNode_passes (words : List Bytes) (h : WellFormed n) : GetNodePasses words n := by
  induction words generalizing n with
  | nil =>
    refine ⟨n, [[]], rfl, h, rfl, fun path => ?_⟩
    cases path <;> simp [Spans]
  | cons word words ih =>
    have ih' : ∀ c, WellFormed c → GetNodePasses words c := fun c hc => ih hc
    by_cases hp : word = plus
    · rw [hp]
      exact getNode_plus_passes h ih'
    by_cases hh : word = hash
    · rw [hh]
      exact getNode_hash_passes words h
    · exact getNode_literal_passes hp hh h ih'

/-! ### Trees with more nodes -/

theorem links_ne_nil_iff (h : WellFormed n) : n.links ≠ [] ↔ ∃ str c, n.child str = some c := by
  constructor
  · intro hl
    obtain ⟨⟨str, link⟩, hmem⟩ := List.exists_mem_of_ne_nil _ hl
    obtain ⟨c, hc, -⟩ := h.exists_child (List.mem_map_of_mem (f := Sigma.fst) hmem)
    exact ⟨str, c, hc⟩
  · rintro ⟨str, c, hc⟩ hl
    have := mem_keys_of_child hc
    rw [hl] at this
    cases this

theorem wellFormed_getD (h : WellFormed n) (str : Bytes) :
    WellFormed ((n.child str).getD (new str)) := by
  cases hc : n.child str with
  | none => exact .new str
  | some c => exact h.of_child hc

/-- The nodes of one tree are nodes of the other. -/
def NodesIn (n n' : Node) : Prop := ∀ path, (n.find path).isSome → (n'.find path).isSome

namespace NodesIn

theorem refl (n : Node) : NodesIn n n := fun _ h => h

theorem trans {n₁ n₂ n₃ : Node} (h : NodesIn n₁ n₂) (h' : NodesIn n₂ n₃) : NodesIn n₁ n₃ :=
  fun path hp => h' path (h path hp)

theorem of_child (h : NodesIn n n') (hc : n.child str = some c) :
    ∃ c', n'.child str = some c' ∧ NodesIn c c' := by
  have hself := h [str] (isSome_find_cons.2 ⟨c, hc, rfl⟩)
  obtain ⟨c', hc', -⟩ := isSome_find_cons.1 hself
  refine ⟨c', hc', fun path hp => ?_⟩
  rw [← find_cons_of_child hc'] at *
  exact h (str :: path) (by rwa [find_cons_of_child hc])

/-- The child at a level, or the one that a walk creates. -/
theorem getD (h : NodesIn n n') (str : Bytes) :
    NodesIn ((n.child str).getD (new str)) ((n'.child str).getD (new str)) := by
  cases hc : n.child str with
  | some c =>
    obtain ⟨c', hc', h'⟩ := h.of_child hc
    rw [hc']
    exact h'
  | none =>
    intro path hp
    obtain rfl := isSome_find_new.1 hp
    rfl

/-- **What a walk finds grows with the tree.** -/
theorem reaches {words : List Bytes} (h : NodesIn n n') (hwf : WellFormed n) (hwf' : WellFormed n')
    (hr : n.Reaches words path) : n'.Reaches words path := by
  induction words generalizing n n' path with
  | nil => exact hr
  | cons word words ih =>
    rw [Reaches] at hr ⊢
    split_ifs at hr ⊢ with hp hh
    · obtain ⟨str, rest, c, he, hc, hr⟩ := hr
      obtain ⟨c', hc', h'⟩ := h.of_child hc
      exact ⟨str, rest, c', he, hc', ih h' (hwf.of_child hc) (hwf'.of_child hc') hr⟩
    · -- the guard against leaves stays passed, since a child stays
      obtain ⟨hlinks, hfound⟩ := hr
      obtain ⟨str, c, hc⟩ := (links_ne_nil_iff hwf).1 hlinks
      obtain ⟨c', hc', -⟩ := h.of_child hc
      exact ⟨(links_ne_nil_iff hwf').2 ⟨str, c', hc'⟩, h path hfound⟩
    · obtain ⟨rest, he, hr⟩ := hr
      exact ⟨rest, he, ih (h.getD word) (wellFormed_getD hwf word) (wellFormed_getD hwf' word) hr⟩

end NodesIn

end Node

/-! ### Trees are finite -/

section Finite

open Node

/-- The bytes of a path and its levels. -/
def weight (path : Path) : ℕ := (path.map fun str => str.length + 1).sum

/-- No node of a tree lies deeper than some bound. -/
theorem Node.WellFormed.exists_bound {n : Node} (h : n.WellFormed) :
    ∃ bound, ∀ path, (n.find path).isSome → weight path ≤ bound := by
  induction h with
  | @mk level links subscribers hnodup hkey hlink hchild ih =>
    set n : Node := .mk level links subscribers with hn
    have hex : ∀ str, ∃ bound, ∀ c, n.child str = some c → ∀ path, (c.find path).isSome →
        weight path ≤ bound := by
      intro str
      cases hc : n.child str with
      | none => exact ⟨0, fun c hc' => by cases hc'⟩
      | some c =>
        obtain ⟨bound, hb⟩ := ih str c (dlookup_of_child hc)
        refine ⟨bound, fun c' hc' => ?_⟩
        obtain rfl := Option.some.inj hc'
        exact hb
    choose bound hbound using hex
    refine ⟨(n.links.keys.map fun str => str.length + 1 + bound str).sum, fun path hp => ?_⟩
    cases path with
    | nil => exact Nat.zero_le _
    | cons str path =>
      obtain ⟨c, hc, hp⟩ := isSome_find_cons.1 hp
      have hmem : str.length + 1 + bound str ∈
          n.links.keys.map fun str => str.length + 1 + bound str :=
        List.mem_map.2 ⟨str, mem_keys_of_child hc, rfl⟩
      have hle := List.le_sum_of_mem hmem
      have hrest := hbound str c hc path hp
      have hw : weight (str :: path) = str.length + 1 + weight path := rfl
      omega

end Finite

/-! ### The calls of the tree -/

/-- The calls a tree is used through. -/
inductive TreeCall
  | subscribe (filter : Bytes) (session : SessionRef) (qos : UInt8)
  | unsubscribe (filter : Bytes) (session : SessionRef)
  | match (topic : Bytes)

namespace TreeCall

/-- The filter or topic of a call. -/
def topic : TreeCall → Bytes
  | subscribe filter _ _ => filter
  | unsubscribe filter _ => filter
  | .match topic => topic

/-- What the call makes of the client's subscriptions at a node it finds. -/
def edit : TreeCall → Subscribers → Subscribers
  | subscribe _ session qos, subs => subs.insert session.clientId ⟨session, qos⟩
  | unsubscribe _ session, subs => subs.erase session.clientId
  | .match _, subs => subs

end TreeCall

namespace TopicTree

variable (tree : TopicTree)

/-- One call. -/
def call : TreeCall → TopicTree
  | .subscribe filter session qos => tree.subscribe filter session qos
  | .unsubscribe filter session => tree.unsubscribe filter session
  | .match topic => (tree.match topic).1

/-- Several calls. -/
def calls (calls : List TreeCall) : TopicTree := calls.foldl call tree

variable {tree}

theorem isSome_find_getNode (topic : Bytes) (path : Path) :
    ((tree.getNode topic).1.root.find path).isSome ↔
      (tree.root.find path).isSome ∨ tree.root.Spans (split topic) path := by
  obtain ⟨n', paths, hg, hpass⟩ := Node.getNode_passes (split topic) tree.wellFormed
  rw [← hpass.find]
  unfold getNode
  split
  · rename_i root nodes h
    cases hg.symm.trans h
    rfl
  · rename_i h
    exact absurd h (Node.getNode_ne_none tree.wellFormed)

theorem isSome_find_foldl_modify {f : Node → Node} (hf : Node.OnSubscribers f)
    (nodes : List Path) (tree : TopicTree) (path : Path) :
    ((nodes.foldl (fun tree node => tree.modify f hf node) tree).root.find path).isSome =
      (tree.root.find path).isSome := by
  induction nodes generalizing tree with
  | nil => rfl
  | cons node nodes ih =>
    rw [List.foldl_cons, ih]
    exact Node.find_modify_isSome hf node path

/-- The nodes after a call. -/
theorem isSome_find_call (op : TreeCall) (path : Path) :
    ((tree.call op).root.find path).isSome ↔
      (tree.root.find path).isSome ∨ tree.root.Spans (split op.topic) path := by
  rw [← isSome_find_getNode]
  cases op with
  | «match» topic => rfl
  | subscribe filter session qos =>
    exact (Bool.eq_iff_iff.1 (isSome_find_foldl_modify (.subscribe _ _) _ _ _))
  | unsubscribe filter session =>
    exact (Bool.eq_iff_iff.1 (isSome_find_foldl_modify (.unsubscribe _) _ _ _))

/-- The subscriptions after a call. -/
theorem subsAt_call (op : TreeCall) (path : Path) :
    (tree.root.Reaches (split op.topic) path →
      (tree.call op).root.subsAt path = op.edit (tree.root.subsAt path)) ∧
    (¬ tree.root.Reaches (split op.topic) path →
      (tree.call op).root.subsAt path = tree.root.subsAt path) := by
  have hmem := (tree.getNode_visited op.topic).mem path
  cases op with
  | «match» topic =>
    have h := tree.subsAt_match topic path
    exact ⟨fun _ => h, fun _ => h⟩
  | subscribe filter session qos =>
    rw [← hmem]
    refine ⟨fun h => ?_, fun h => ?_⟩
    · exact (tree.subsAt_subscribe filter session qos path).trans (if_pos h)
    · exact (tree.subsAt_subscribe filter session qos path).trans (if_neg h)
  | unsubscribe filter session =>
    rw [← hmem]
    refine ⟨fun h => ?_, fun h => ?_⟩
    · exact (tree.subsAt_unsubscribe filter session path).trans (if_pos h)
    · exact (tree.subsAt_unsubscribe filter session path).trans (if_neg h)

end TopicTree

end Culex
