import Culex.TopicNode

/-!
# The topic tree

`topictree.cpp`: splitting a topic into levels, the walk `getNode` that serves filters and topic
names alike, and the operations of the tree.  A function on nodes returns `none` if it dereferences
a null pointer; `getNode_spec` shows that none does on a well-formed tree, and says which nodes are
found (`Reaches`).  `TopicTree` packs a root with its well-formedness, so its operations are total.
-/

namespace Culex

/-! ### Splitting topics -/

/-- The rounds of `split` after the first one, with the level read so far. -/
def splitLoop (temp : Bytes) : Bytes → List Bytes
  | [] => []
  | c :: rest =>
    if c = 47 then temp :: splitLoop [] rest
    else if rest = [] then [temp ++ [c]]
    else splitLoop (temp ++ [c]) rest

/-- Split a topic into levels.  Whatever the first character is, it stands for the level `"/"`. -/
def split : Bytes → List Bytes
  | [] => []
  | _ :: rest => slash :: splitLoop [] rest

/-! ### Finding nodes -/

namespace Node

/-- The nodes below `root`, `root` included.  The source asks `getLink` for each link; it inserts
nothing unless the link is absent, and then the null pointer is dereferenced next. -/
def handleWildCard (root : Node) (subTopics : List Bytes) : Option (List Path) :=
  (subTopics.foldlM
    (fun (x : Bool × List Path) subTopic =>
      match h : root.child subTopic with
      | none => none
      | some nextLink =>
        (handleWildCard nextLink nextLink.getLinkTopics).map fun (below : List Path) =>
          (true, (if x.1 then x.2 else x.2 ++ [[]]) ++ below.map (subTopic :: ·)))
    (false, if subTopics.isEmpty then [[]] else [])).map Prod.snd
termination_by sizeOf root
decreasing_by exact sizeOf_child h

/-- Visit the links under `topics` one after the other.  `visit` returns the node it has changed and
pointers below it. -/
def visitLinks (visit : Node → Option (Node × List Path)) :
    List Bytes → Node → Option (Node × List Path)
  | [], root => some (root, [])
  | topic :: topics, root => do
    let (root, link) := root.getLink topic
    let next ← link
    let (next, paths) ← visit next
    let (root, rest) ← visitLinks visit topics (root.setLink topic (some next))
    return (root, paths.map (topic :: ·) ++ rest)

/-- The nodes a topic or filter leads to.  Levels that are not there are created on the way, a
wildcard goes on to the children that are there, and what follows a `#` is not looked at. -/
def getNode : List Bytes → Node → Option (Node × List Path)
  | [], root => some (root, [[]])
  | word :: words, root =>
    if word = plus ∨ word = hash then
      let linkTopics := root.getLinkTopics
      if linkTopics = [] then
        some (root, [])
      else if word = plus then
        visitLinks (getNode words) linkTopics root
      else do
        let paths ← handleWildCard root linkTopics
        return (root, paths)
    else
      let root := if root.ispresent word then root else root.addLink word
      visitLinks (getNode words) [word] root

/-! ### What is found -/

/-- The nodes `getNode` finds for a list of levels, on the tree before the walk: `+` goes on to
every child, `#` finds the node it stands at and all below, but only if there is some child, and any
other level goes on to its child, present or just created. -/
def Reaches : Node → List Bytes → Path → Prop
  | _, [], path => path = []
  | n, word :: words, path =>
    if word = plus then
      ∃ str rest c, path = str :: rest ∧ n.child str = some c ∧ Reaches c words rest
    else if word = hash then
      n.links ≠ [] ∧ (n.find path).isSome
    else
      ∃ rest, path = word :: rest ∧ Reaches ((n.child word).getD (new word)) words rest

/-- `n'` and `paths` are what a walk from `n` that finds the nodes `reached` ends with. -/
structure Visited (n n' : Node) (paths : List Path) (reached : Path → Prop) : Prop where
  wellFormed : WellFormed n'
  grows : Grows n n'
  found : ∀ path ∈ paths, (n'.find path).isSome
  mem : ∀ path, path ∈ paths ↔ reached path
  nodup : paths.Nodup

variable {n : Node}

theorem handleWildCard_eq (root : Node) (subTopics : List Bytes) :
    handleWildCard root subTopics =
      (subTopics.foldlM
        (fun (x : Bool × List Path) subTopic =>
          ((root.child subTopic).bind fun c => handleWildCard c c.getLinkTopics).map
            fun (below : List Path) =>
              (true, (if x.1 then x.2 else x.2 ++ [[]]) ++ below.map (subTopic :: ·)))
        (false, if subTopics.isEmpty then [[]] else [])).map Prod.snd := by
  rw [handleWildCard]
  congr 2
  funext x subTopic
  split
  · rename_i h
    rw [h]
    rfl
  · rename_i c h
    rw [h]
    rfl

/-- The loop of `handleWildCard` over links whose nodes below are known. -/
theorem foldlM_below {g : Bytes → Option (List Path)} {below : Bytes → List Path}
    {topics : List Bytes} (hg : ∀ topic ∈ topics, g topic = some (below topic)) (vec : List Path) :
    topics.foldlM
        (fun (x : Bool × List Path) topic => (g topic).map fun (paths : List Path) =>
          (true, (if x.1 then x.2 else x.2 ++ [[]]) ++ paths.map (topic :: ·)))
        (true, vec) =
      some (true, vec ++ topics.flatMap fun topic => (below topic).map (topic :: ·)) := by
  induction topics generalizing vec with
  | nil => rw [List.foldlM_nil, List.flatMap_nil, List.append_nil]; rfl
  | cons topic topics ih =>
    rw [List.foldlM_cons, hg topic List.mem_cons_self]
    have := ih (fun t ht => hg t (List.mem_cons_of_mem _ ht))
      (vec ++ (below topic).map (topic :: ·))
    rw [List.flatMap_cons, ← List.append_assoc]
    exact this

/-- On the links of a node, `handleWildCard` lists the node and then what is below each child. -/
theorem handleWildCard_getLinkTopics {below : Bytes → List Path}
    (hbelow : ∀ str ∈ n.links.keys,
      ((n.child str).bind fun c => handleWildCard c c.getLinkTopics) = some (below str)) :
    handleWildCard n n.getLinkTopics =
      some ([] :: n.links.keys.flatMap fun str => (below str).map (str :: ·)) := by
  have hl : n.getLinkTopics = n.links.keys := rfl
  rw [handleWildCard_eq, hl]
  cases hk : n.links.keys with
  | nil => rfl
  | cons str strs =>
    rw [hk] at hbelow
    have hrest := foldlM_below (fun t ht => hbelow t (List.mem_cons_of_mem _ ht))
      ([[]] ++ (below str).map (str :: ·))
    rw [List.foldlM_cons, hbelow str List.mem_cons_self]
    show Option.map Prod.snd (List.foldlM _ (true, [[]] ++ (below str).map (str :: ·)) strs) = _
    rw [hrest, List.flatMap_cons]
    rfl

theorem nodup_flatMap_cons {strs : List Bytes} (hs : strs.Nodup) {below : Bytes → List Path}
    (hb : ∀ str ∈ strs, (below str).Nodup) :
    (strs.flatMap fun str => (below str).map (str :: ·)).Nodup := by
  rw [List.nodup_flatMap]
  constructor
  · intro str hstr
    exact (hb str hstr).map fun _ _ h => (List.cons.inj h).2
  · refine hs.imp ?_
    intro s t hst path h h'
    rw [List.mem_map] at h h'
    obtain ⟨p, -, rfl⟩ := h
    obtain ⟨q, -, hq⟩ := h'
    exact hst (List.cons.inj hq).1.symm

/-- `handleWildCard` lists every node of a well-formed tree once. -/
theorem handleWildCard_spec (h : WellFormed n) :
    ∃ paths, handleWildCard n n.getLinkTopics = some paths ∧
      (∀ path, path ∈ paths ↔ (n.find path).isSome) ∧ paths.Nodup := by
  induction h with
  | @mk level links subscribers hnodup hkey hlink hchild ih =>
    set n : Node := .mk level links subscribers with hn
    have hwf : WellFormed n := ⟨hnodup, hkey, hlink, hchild⟩
    -- what is listed below each child, by induction
    have hex : ∀ str ∈ n.links.keys, ∃ c paths, n.child str = some c ∧
        handleWildCard c c.getLinkTopics = some paths ∧
        (∀ path, path ∈ paths ↔ (c.find path).isSome) ∧ paths.Nodup := by
      intro str hs
      obtain ⟨c, hc, -⟩ := hwf.exists_child hs
      obtain ⟨paths, hp⟩ := ih str c (dlookup_of_child hc)
      exact ⟨c, paths, hc, hp⟩
    choose! child below hc hw hmem hnd using hex
    refine ⟨_, @handleWildCard_getLinkTopics n below fun str hs => ?_, fun path => ?_, ?_⟩
    · rw [hc str hs]
      exact hw str hs
    · cases path with
      | nil => simp
      | cons str path =>
        rw [List.mem_cons, List.mem_flatMap]
        constructor
        · rintro (h | ⟨s, hs, hp⟩)
          · cases h
          · obtain ⟨p, hp', he⟩ := List.mem_map.1 hp
            obtain ⟨rfl, rfl⟩ := List.cons.inj he
            rw [find_cons_of_child (hc s hs)]
            exact (hmem s hs p).1 hp'
        · intro hp
          have hs : str ∈ n.links.keys := by
            cases hcs : n.child str with
            | none => rw [find_cons, hcs] at hp; cases hp
            | some c => exact mem_keys_of_child hcs
          rw [find_cons_of_child (hc str hs)] at hp
          exact .inr ⟨str, hs, List.mem_map.2 ⟨path, (hmem str hs path).2 hp, rfl⟩⟩
    · rw [List.nodup_cons]
      refine ⟨?_, nodup_flatMap_cons hwf.nodup hnd⟩
      simp

/-- A link that is not visited stays. -/
theorem mem_keys_setLink (h : WellFormed n) {topic t : Bytes} {link : Option Node} (hne : t ≠ topic)
    (ht : t ∈ n.links.keys) : t ∈ (n.setLink topic link).links.keys := by
  obtain ⟨c, hc, -⟩ := h.exists_child ht
  exact mem_keys_of_child ((child_setLink_ne _ _ hne).trans hc)

/-- The first visit, and the others on the tree that it leaves. -/
theorem visitLinks_cons {visit : Node → Option (Node × List Path)} {topic : Bytes}
    {topics : List Bytes} {c c' n' : Node} {paths rest : List Path} (h : WellFormed n)
    (ht : topic ∈ n.links.keys) (hc : n.child topic = some c) (hv : visit c = some (c', paths))
    (hrest : visitLinks visit topics (n.setLink topic (some c')) = some (n', rest)) :
    visitLinks visit (topic :: topics) n = some (n', paths.map (topic :: ·) ++ rest) := by
  rw [visitLinks, h.getLink_of_mem ht, hc]
  show (visit c).bind _ = _
  rw [hv]
  show (visitLinks visit topics (n.setLink topic (some c'))).bind _ = _
  rw [hrest]
  rfl

/-- Visiting links that are there. -/
theorem visitLinks_spec {visit : Node → Option (Node × List Path)} {R : Node → Path → Prop}
    (hvisit : ∀ c, WellFormed c → ∃ c' paths, visit c = some (c', paths) ∧ Visited c c' paths (R c))
    {topics : List Bytes} (htopics : topics.Nodup) (h : WellFormed n)
    (hmem : ∀ topic ∈ topics, topic ∈ n.links.keys) :
    ∃ n' paths, visitLinks visit topics n = some (n', paths) ∧
      Visited n n' paths fun path => ∃ topic rest c, topic ∈ topics ∧ path = topic :: rest ∧
        n.child topic = some c ∧ R c rest := by
  induction topics generalizing n with
  | nil =>
    refine ⟨n, [], rfl, h, .refl n, ?_, ?_, List.nodup_nil⟩
    · intro path hp
      cases hp
    · simp
  | cons topic topics ih =>
    obtain ⟨hnotin, htopics⟩ := List.nodup_cons.1 htopics
    have ht := hmem topic List.mem_cons_self
    obtain ⟨c, hc, hlevel⟩ := h.exists_child ht
    obtain ⟨c', paths, hv, hvis⟩ := hvisit c (h.of_child hc)
    -- the tree after the first link
    have hwf : WellFormed (n.setLink topic (some c')) :=
      h.setLink hvis.wellFormed (hvis.grows.level.trans hlevel) (h.key_ne ht)
    have hgrows : Grows n (n.setLink topic (some c')) := .setLink hc hvis.grows
    have hother : ∀ {t : Bytes}, t ∈ topics → (n.setLink topic (some c')).child t = n.child t := by
      intro t htt
      exact child_setLink_ne _ _ fun he => hnotin (he ▸ htt)
    have hkeys : ∀ t ∈ topics, t ∈ (n.setLink topic (some c')).links.keys := fun t htt =>
      mem_keys_setLink h (fun he => hnotin (he ▸ htt)) (hmem t (List.mem_cons_of_mem _ htt))
    obtain ⟨n', rest, hrest, hvis'⟩ := ih htopics hwf hkeys
    refine ⟨n', paths.map (topic :: ·) ++ rest, ?_, hvis'.wellFormed, hgrows.trans hvis'.grows, ?_,
      ?_, ?_⟩
    · exact visitLinks_cons h ht hc hv hrest
    · intro path hp
      rcases List.mem_append.1 hp with hp | hp
      · obtain ⟨p, hp', rfl⟩ := List.mem_map.1 hp
        refine hvis'.grows.find _ ?_
        rw [find_cons_of_child (child_setLink_self _ _ _)]
        exact hvis.found p hp'
      · exact hvis'.found path hp
    · intro path
      rw [List.mem_append, hvis'.mem, List.mem_map]
      constructor
      · rintro (⟨p, hp, rfl⟩ | ⟨t, p, d, htt, rfl, hd, hR⟩)
        · exact ⟨topic, p, c, List.mem_cons_self, rfl, hc, (hvis.mem p).1 hp⟩
        · exact ⟨t, p, d, List.mem_cons_of_mem _ htt, rfl, (hother htt) ▸ hd, hR⟩
      · rintro ⟨t, p, d, htt, rfl, hd, hR⟩
        rcases List.mem_cons.1 htt with rfl | htt
        · rw [hc] at hd
          cases hd
          exact .inl ⟨p, (hvis.mem p).2 hR, rfl⟩
        · exact .inr ⟨t, p, d, htt, rfl, (hother htt).trans hd, hR⟩
    · rw [List.nodup_append]
      refine ⟨hvis.nodup.map fun _ _ he => (List.cons.inj he).2, hvis'.nodup, ?_⟩
      intro path hp path' hp' he
      obtain ⟨p, -, rfl⟩ := List.mem_map.1 hp
      obtain ⟨t, q, d, htt, rfl, -, -⟩ := (hvis'.mem _).1 hp'
      exact hnotin ((List.cons.inj he).1 ▸ htt)

/-- What `getNode` does on a well-formed tree: it dereferences no null pointer, adds empty nodes at
most, and finds the nodes described by `Reaches`, each once. -/
def GetNodeFinds (words : List Bytes) (n : Node) : Prop :=
  ∃ n' paths, getNode words n = some (n', paths) ∧ Visited n n' paths (Reaches n words)

/-- `+` goes on at every child. -/
theorem getNode_plus_spec {words : List Bytes} (h : WellFormed n)
    (ih : ∀ c, WellFormed c → GetNodeFinds words c) : GetNodeFinds (plus :: words) n := by
  by_cases hl : n.getLinkTopics = []
  · refine ⟨n, [], ?_, h, .refl n, ?_, ?_, List.nodup_nil⟩
    · rw [getNode, if_pos (.inl rfl)]
      exact if_pos hl
    · intro path hp
      cases hp
    · intro path
      simp only [List.not_mem_nil, Reaches, if_true, false_iff]
      rintro ⟨str, rest, c, -, hc, -⟩
      have hkey := mem_keys_of_child hc
      rw [show n.links.keys = [] from hl] at hkey
      cases hkey
  · obtain ⟨n', paths, hv, hvis⟩ := visitLinks_spec ih h.nodup h fun _ ht => ht
    refine ⟨n', paths, ?_, hvis.wellFormed, hvis.grows, hvis.found, ?_, hvis.nodup⟩
    · rw [getNode, if_pos (.inl rfl)]
      show (if n.getLinkTopics = [] then _ else _) = _
      rw [if_neg hl, if_pos rfl]
      exact hv
    · intro path
      rw [hvis.mem]
      simp only [Reaches, if_true]
      constructor
      · rintro ⟨t, rest, c, -, hpath, hc, hR⟩
        exact ⟨t, rest, c, hpath, hc, hR⟩
      · rintro ⟨t, rest, c, hpath, hc, hR⟩
        exact ⟨t, rest, c, mem_keys_of_child hc, hpath, hc, hR⟩

/-- `#` ends the search, at the node and everything below it; on a node without children it finds
nothing. -/
theorem getNode_hash_spec (words : List Bytes) (h : WellFormed n) :
    GetNodeFinds (hash :: words) n := by
  have hp : hash ≠ plus := by decide
  by_cases hl : n.getLinkTopics = []
  · have hlinks : n.links = [] := List.map_eq_nil_iff.1 hl
    refine ⟨n, [], ?_, h, .refl n, ?_, ?_, List.nodup_nil⟩
    · rw [getNode, if_pos (.inr rfl)]
      exact if_pos hl
    · intro path hp
      cases hp
    · intro path
      simp only [List.not_mem_nil, Reaches, if_neg hp, if_true, false_iff]
      exact fun h => h.1 hlinks
  · have hlinks : n.links ≠ [] := fun he => hl (List.map_eq_nil_iff.2 he)
    obtain ⟨paths, hw, hmem, hnd⟩ := handleWildCard_spec h
    refine ⟨n, paths, ?_, h, .refl n, fun path hp => (hmem path).1 hp, ?_, hnd⟩
    · rw [getNode, if_pos (.inr rfl)]
      show (if n.getLinkTopics = [] then _ else _) = _
      rw [if_neg hl, if_neg hp, hw]
      rfl
    · intro path
      rw [hmem]
      simp only [Reaches, if_neg hp, if_true]
      exact ⟨fun h => ⟨hlinks, h⟩, And.right⟩

/-- Any other level is added if it is missing, and the search goes on there. -/
theorem getNode_literal_spec {word : Bytes} {words : List Bytes} (hp : word ≠ plus)
    (hh : word ≠ hash) (h : WellFormed n) (ih : ∀ c, WellFormed c → GetNodeFinds words c) :
    GetNodeFinds (word :: words) n := by
  set n₀ := if n.ispresent word then n else n.addLink word with hn₀
  have hchild : n₀.child word = some ((n.child word).getD (new word)) ∧ WellFormed n₀ ∧
      Grows n n₀ := by
    cases hc : n.child word with
    | none =>
      have hi : ¬ n.ispresent word := by
        rw [h.ispresent_iff, hc]
        rintro ⟨c, hc'⟩
        cases hc'
      rw [hn₀, if_neg hi]
      exact ⟨child_setLink_self _ _ _, h.setLink (.new word) rfl ⟨hp, hh⟩, .addLink hc⟩
    | some c =>
      rw [hn₀, if_pos (h.ispresent_iff.2 ⟨c, hc⟩)]
      exact ⟨hc, h, .refl n⟩
  obtain ⟨hc, hwf, hgrows⟩ := hchild
  have hkey : ∀ t ∈ [word], t ∈ n₀.links.keys := by
    intro t ht
    rw [List.mem_singleton.1 ht]
    exact mem_keys_of_child hc
  obtain ⟨n', paths, hv, hvis⟩ := visitLinks_spec ih (List.nodup_singleton word) hwf hkey
  refine ⟨n', paths, ?_, hvis.wellFormed, hgrows.trans hvis.grows, hvis.found, ?_, hvis.nodup⟩
  · rw [getNode, if_neg (by rintro (h | h); exacts [hp h, hh h])]
    exact hv
  · intro path
    rw [hvis.mem]
    simp only [Reaches, if_neg hp, if_neg hh]
    constructor
    · rintro ⟨t, rest, c, ht, rfl, hc', hR⟩
      rw [List.mem_singleton] at ht
      subst ht
      rw [hc] at hc'
      cases hc'
      exact ⟨rest, rfl, hR⟩
    · rintro ⟨rest, rfl, hR⟩
      exact ⟨word, rest, _, List.mem_singleton_self _, rfl, hc, hR⟩

/-- **`getNode` on a well-formed tree.** -/
theorem getNode_spec (words : List Bytes) (h : WellFormed n) : GetNodeFinds words n := by
  induction words generalizing n with
  | nil =>
    refine ⟨n, [[]], rfl, h, .refl n, ?_, ?_, List.nodup_singleton _⟩
    · intro path hp
      rw [List.mem_singleton.1 hp]
      rfl
    · intro path
      exact List.mem_singleton
  | cons word words ih =>
    have ih' : ∀ c, WellFormed c → GetNodeFinds words c := fun c hc => ih hc
    by_cases hp : word = plus
    · rw [hp]
      exact getNode_plus_spec h ih'
    by_cases hh : word = hash
    · rw [hh]
      exact getNode_hash_spec words h
    · exact getNode_literal_spec hp hh h ih'

theorem getNode_ne_none {words : List Bytes} (h : WellFormed n) : getNode words n ≠ none := by
  obtain ⟨n', paths, hg, -⟩ := getNode_spec words h
  rw [hg]
  exact Option.some_ne_none _

theorem visited_of_getNode {words : List Bytes} {n' : Node} {paths : List Path} (h : WellFormed n)
    (hg : getNode words n = some (n', paths)) : Visited n n' paths (Reaches n words) := by
  obtain ⟨n'', paths', hg', hvis⟩ := getNode_spec words h
  rw [hg] at hg'
  cases hg'
  exact hvis

end Node

/-! ### The operations of the tree -/

/-- The topic tree: a root with its invariant. -/
structure TopicTree where
  root : Node
  wellFormed : root.WellFormed

/-- A tree with a root node only. -/
def TopicTree.empty : TopicTree := ⟨.new [42], .new _⟩

/-- The walk from the root, on the levels of a topic. -/
def TopicTree.getNode (tree : TopicTree) (topic : Bytes) : TopicTree × List Path :=
  match h : Node.getNode (split topic) tree.root with
  | some (root, nodes) => (⟨root, (Node.visited_of_getNode tree.wellFormed h).wellFormed⟩, nodes)
  | none => absurd h (Node.getNode_ne_none tree.wellFormed)

/-- Change the subscribers of a node. -/
def TopicTree.modify (tree : TopicTree) (f : Node → Node) (hf : Node.OnSubscribers f)
    (node : Path) : TopicTree :=
  ⟨.modify f node tree.root, tree.wellFormed.modify hf node⟩

/-- The subscriptions that match a topic. -/
def TopicTree.match (tree : TopicTree) (topic : Bytes) : TopicTree × List Subscription :=
  let (tree, nodes) := tree.getNode topic
  (tree, nodes.flatMap fun node => (tree.root.subsAt node).entries.map Sigma.snd)

/-- Add a subscription of a client. -/
def TopicTree.subscribe (tree : TopicTree) (topic : Bytes) (session : SessionRef) (qos : UInt8) :
    TopicTree :=
  let (tree, nodes) := tree.getNode topic
  nodes.foldl (fun tree node => tree.modify (·.subscribe session qos) (.subscribe _ _) node) tree

/-- Remove a subscription of a client. -/
def TopicTree.unsubscribe (tree : TopicTree) (topic : Bytes) (session : SessionRef) : TopicTree :=
  let (tree, nodes) := tree.getNode topic
  nodes.foldl (fun tree node => tree.modify (·.unsubscribe session) (.unsubscribe _) node) tree

namespace TopicTree

variable (tree : TopicTree) (topic : Bytes)

theorem getNode_visited :
    Node.Visited tree.root (tree.getNode topic).1.root (tree.getNode topic).2
      (Node.Reaches tree.root (split topic)) := by
  obtain ⟨n', paths, hg, hvis⟩ := Node.getNode_spec (split topic) tree.wellFormed
  unfold getNode
  split
  · rename_i root nodes h
    rw [hg] at h
    cases h
    exact hvis
  · rename_i h
    exact absurd h (Node.getNode_ne_none tree.wellFormed)

/-- Changing several nodes that are there, each once. -/
theorem subsAt_foldl_modify {f : Node → Node} (hf : Node.OnSubscribers f)
    {g : Subscribers → Subscribers} (hg : ∀ n, (f n).subscribers = g n.subscribers)
    {nodes : List Path} (hnd : nodes.Nodup) (tree : TopicTree)
    (hfound : ∀ node ∈ nodes, (tree.root.find node).isSome) (path : Path) :
    (nodes.foldl (fun tree node => tree.modify f hf node) tree).root.subsAt path =
      if path ∈ nodes then g (tree.root.subsAt path) else tree.root.subsAt path := by
  induction nodes generalizing tree with
  | nil => rw [if_neg List.not_mem_nil]; rfl
  | cons node nodes ih =>
    obtain ⟨hnotin, hnd⟩ := List.nodup_cons.1 hnd
    have hnode := hfound node List.mem_cons_self
    have hrest : ∀ p ∈ nodes, ((tree.modify f hf node).root.find p).isSome := by
      intro p hp
      show ((Node.modify f node tree.root).find p).isSome
      rw [Node.find_modify_isSome hf]
      exact hfound p (List.mem_cons_of_mem _ hp)
    rw [List.foldl_cons, ih hnd _ hrest]
    -- the first node changes its own subscribers only, and no later one is the same
    have hsubs : (tree.modify f hf node).root.subsAt path =
        if path = node then g (tree.root.subsAt path) else tree.root.subsAt path := by
      show (Node.modify f node tree.root).subsAt path = _
      rw [Node.subsAt_modify hf hnode]
      split_ifs with he
      · subst he
        obtain ⟨c, hc⟩ := Option.isSome_iff_exists.1 hnode
        unfold Node.subsAt
        rw [hc]
        exact hg c
      · rfl
    rw [hsubs]
    by_cases he : path = node
    · subst he
      rw [if_neg hnotin, if_pos rfl, if_pos List.mem_cons_self]
    · simp only [List.mem_cons, he, false_or, if_false]

/-- What a subscription changes. -/
theorem subsAt_subscribe (session : SessionRef) (qos : UInt8) (path : Path) :
    (tree.subscribe topic session qos).root.subsAt path =
      if path ∈ (tree.getNode topic).2 then
        (tree.root.subsAt path).insert session.clientId ⟨session, qos⟩
      else tree.root.subsAt path := by
  have hvis := tree.getNode_visited topic
  have h := subsAt_foldl_modify (.subscribe session qos)
    (g := fun subs => subs.insert session.clientId ⟨session, qos⟩) (fun _ => rfl) hvis.nodup
    (tree.getNode topic).1 hvis.found path
  rw [hvis.grows.subsAt] at h
  exact h

/-- What removing a subscription changes. -/
theorem subsAt_unsubscribe (session : SessionRef) (path : Path) :
    (tree.unsubscribe topic session).root.subsAt path =
      if path ∈ (tree.getNode topic).2 then (tree.root.subsAt path).erase session.clientId
      else tree.root.subsAt path := by
  have hvis := tree.getNode_visited topic
  have h := subsAt_foldl_modify (.unsubscribe session)
    (g := fun subs => subs.erase session.clientId) (fun _ => rfl) hvis.nodup
    (tree.getNode topic).1 hvis.found path
  rw [hvis.grows.subsAt] at h
  exact h

/-- Matching changes no subscription. -/
theorem subsAt_match (path : Path) :
    (tree.match topic).1.root.subsAt path = tree.root.subsAt path :=
  (tree.getNode_visited topic).grows.subsAt path

/-- A match lists the subscriptions at the nodes the topic leads to. -/
theorem mem_match (sub : Subscription) :
    sub ∈ (tree.match topic).2 ↔ ∃ path, Node.Reaches tree.root (split topic) path ∧
      ∃ clientId, (tree.root.subsAt path).lookup clientId = some sub := by
  have hvis := tree.getNode_visited topic
  have hm : (tree.match topic).2 = (tree.getNode topic).2.flatMap fun node =>
      ((tree.getNode topic).1.root.subsAt node).entries.map Sigma.snd := rfl
  rw [hm, List.mem_flatMap]
  refine exists_congr fun path => ?_
  rw [hvis.mem, hvis.grows.subsAt]
  refine and_congr_right fun _ => ?_
  rw [List.mem_map]
  constructor
  · rintro ⟨⟨clientId, sub'⟩, hmem, rfl⟩
    exact ⟨clientId, AList.mem_lookup_iff.2 hmem⟩
  · rintro ⟨clientId, hl⟩
    exact ⟨⟨clientId, sub⟩, AList.mem_lookup_iff.1 hl, rfl⟩

end TopicTree

end Culex
