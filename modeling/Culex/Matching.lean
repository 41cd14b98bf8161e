import Culex.TopicTree
import Culex.Lib.Run

/-!
# Topic matching over runs

When a match finds the clients whose filters match the topic.  `Matches` is the rule of the
protocol, on levels separated by `/`.  The tree decides differently: it splits filters and topics in
its own way, and a wildcard only reaches nodes that are there when the filter is subscribed.
`reaches_iff` separates the two, `Served` is the condition under which one subscription comes out
right for a topic, and `match_iff` lifts it to runs of any length.
-/

namespace Culex

/-! ### The rule of the protocol -/

/-- The levels of a topic name or filter. -/
def levels (topic : Bytes) : List Bytes := topic.splitOn 47

/-- `+` matches one level, a trailing `#` the level it stands behind and everything below. -/
def LevelsMatch : List Bytes → List Bytes → Prop
  | [], names => names = []
  | word :: words, names =>
    if word = hash ∧ words = [] then True
    else
      match names with
      | [] => False
      | name :: names => (word = plus ∨ word = name) ∧ LevelsMatch words names

/-- The filter matches the topic name. -/
def Matches (filter topic : Bytes) : Prop := LevelsMatch (levels filter) (levels topic)

instance decidableLevelsMatch : ∀ words names, Decidable (LevelsMatch words names)
  | [], names => inferInstanceAs (Decidable (names = []))
  | word :: words, [] =>
    inferInstanceAs (Decidable (if word = hash ∧ words = [] then True else False))
  | word :: words, name :: names =>
    have := decidableLevelsMatch words names
    inferInstanceAs (Decidable (if word = hash ∧ words = [] then True
      else (word = plus ∨ word = name) ∧ LevelsMatch words names))

instance (filter topic : Bytes) : Decidable (Matches filter topic) :=
  decidableLevelsMatch _ _

/-! ### The rule of the tree -/

/-- The levels match as the tree compares them: nothing after a `#` is looked at. -/
def PathMatches : List Bytes → Path → Prop
  | [], path => path = []
  | word :: words, path =>
    if word = hash then True
    else
      match path with
      | [] => False
      | str :: rest => (word = plus ∨ word = str) ∧ PathMatches words rest

/-- The nodes that the wildcards of a filter need on the way to `path`: the child a `+` stands for,
some child where a `#` stands, and below it the node of `path` itself. -/
def NodesExist : Node → List Bytes → Path → Prop
  | _, [], _ => True
  | n, word :: words, path =>
    if word = hash then n.links ≠ [] ∧ (n.find path).isSome
    else
      match path with
      | [] => True
      | str :: rest =>
        if word = plus then ∃ c, n.child str = some c ∧ NodesExist c words rest
        else NodesExist ((n.child str).getD (.new str)) words rest

theorem plus_ne_hash : plus ≠ hash := by decide

/-- A filter reaches the nodes whose levels match, as far as its wildcards find them. -/
theorem reaches_iff (n : Node) (words : List Bytes) (path : Path) :
    n.Reaches words path ↔ PathMatches words path ∧ NodesExist n words path := by
  induction words generalizing n path with
  | nil => simp [Node.Reaches, PathMatches, NodesExist]
  | cons word words ih =>
    by_cases hh : word = hash
    · subst hh
      simp only [Node.Reaches, PathMatches, NodesExist, plus_ne_hash.symm, if_false, if_true,
        true_and]
    cases path with
    | nil =>
      simp only [Node.Reaches, PathMatches, NodesExist, if_neg hh, false_and, iff_false]
      split_ifs with hp
      · rintro ⟨str, rest, c, he, -⟩
        cases he
      · rintro ⟨rest, he, -⟩
        cases he
    | cons str rest =>
      -- `+` needs the child, and any other level creates it
      by_cases hp : word = plus
      · subst hp
        simp only [Node.Reaches, PathMatches, NodesExist, if_neg hh, if_true, true_or, true_and]
        constructor
        · rintro ⟨s, r, c, he, hc, hr⟩
          obtain ⟨rfl, rfl⟩ := List.cons.inj he
          have := (ih c rest).1 hr
          exact ⟨this.1, c, hc, this.2⟩
        · rintro ⟨hm, c, hc, hn⟩
          exact ⟨str, rest, c, rfl, hc, (ih c rest).2 ⟨hm, hn⟩⟩
      · simp only [Node.Reaches, PathMatches, NodesExist, if_neg hh, hp, if_false, false_or]
        constructor
        · rintro ⟨r, he, hr⟩
          obtain ⟨rfl, rfl⟩ := List.cons.inj he
          have := (ih _ rest).1 hr
          exact ⟨⟨rfl, this.1⟩, this.2⟩
        · rintro ⟨⟨rfl, hm⟩, hn⟩
          exact ⟨rest, rfl, (ih _ rest).2 ⟨hm, hn⟩⟩

/-- No level of the topic, as the tree splits it, is a wildcard. -/
def Concrete (topic : Bytes) : Prop := ∀ word ∈ split topic, word ≠ plus ∧ word ≠ hash

instance (topic : Bytes) : Decidable (Concrete topic) :=
  inferInstanceAs (Decidable (∀ word ∈ split topic, word ≠ plus ∧ word ≠ hash))

/-- Levels without wildcards lead to the node they spell. -/
theorem reaches_literal {words : List Bytes} (hw : ∀ word ∈ words, word ≠ plus ∧ word ≠ hash)
    (n : Node) (path : Path) : n.Reaches words path ↔ path = words := by
  induction words generalizing n path with
  | nil => rfl
  | cons word words ih =>
    obtain ⟨hp, hh⟩ := hw word List.mem_cons_self
    simp only [Node.Reaches, if_neg hp, if_neg hh]
    constructor
    · rintro ⟨rest, rfl, hr⟩
      rw [(ih (fun w h => hw w (List.mem_cons_of_mem _ h)) _ rest).1 hr]
    · rintro rfl
      exact ⟨words, rfl, (ih (fun w h => hw w (List.mem_cons_of_mem _ h)) _ words).2 rfl⟩

/-- The levels `split` makes hold no character that the topic does not. -/
theorem mem_of_mem_splitLoop {c : UInt8} {temp str word : Bytes} (hw : word ∈ splitLoop temp str)
    (hc : c ∈ word) : c ∈ temp ∨ c ∈ str := by
  induction str generalizing temp with
  | nil => cases hw
  | cons b rest ih =>
    rw [splitLoop] at hw
    split_ifs at hw with hb hr
    · rcases List.mem_cons.1 hw with rfl | hw
      · exact .inl hc
      · exact .inr (List.mem_cons_of_mem _ ((ih hw).resolve_left List.not_mem_nil))
    · rw [List.mem_singleton.1 hw] at hc
      rcases List.mem_append.1 hc with hc | hc
      · exact .inl hc
      · exact .inr (List.mem_singleton.1 hc ▸ List.mem_cons_self)
    · rcases ih hw with hc | hc
      · rcases List.mem_append.1 hc with hc | hc
        · exact .inl hc
        · exact .inr (List.mem_singleton.1 hc ▸ List.mem_cons_self)
      · exact .inr (List.mem_cons_of_mem _ hc)

/-- A topic name without wildcard characters is concrete. -/
theorem concrete_of_notMem {topic : Bytes} (hp : 43 ∉ topic) (hh : 35 ∉ topic) :
    Concrete topic := by
  intro word hw
  cases topic with
  | nil => cases hw
  | cons b rest =>
    rcases List.mem_cons.1 hw with rfl | hw
    · decide
    · constructor
      · rintro rfl
        have := mem_of_mem_splitLoop hw (show (43 : UInt8) ∈ plus from List.mem_singleton_self _)
        exact hp (List.mem_cons_of_mem _ (this.resolve_left List.not_mem_nil))
      · rintro rfl
        have := mem_of_mem_splitLoop hw (show (35 : UInt8) ∈ hash from List.mem_singleton_self _)
        exact hh (List.mem_cons_of_mem _ (this.resolve_left List.not_mem_nil))

/-! ### Runs of the tree -/

/-- The calls a run of the tree is made of. -/
inductive TopicOp
  | subscribe (filter : Bytes) (session : SessionRef) (qos : UInt8)
  | match (topic : Bytes)

/-- One call. -/
def TopicTree.step (tree : TopicTree) : TopicOp → TopicTree
  | .subscribe filter session qos => tree.subscribe filter session qos
  | .match topic => (tree.match topic).1

/-- The call as a transition. -/
def TopicStep (tree : TopicTree) (op : TopicOp) (tree' : TopicTree) : Prop := tree' = tree.step op

/-- A match of `topic` has an entry for the client. -/
def TopicTree.Finds (tree : TopicTree) (topic clientId : Bytes) : Prop :=
  ∃ sub ∈ (tree.match topic).2, sub.session.clientId = clientId

/-- A subscription made on `tree` is found for `topic` exactly if it should be: the filter's levels
match and its wildcards find their nodes if and only if the filter matches the topic. -/
def Served (topic : Bytes) (tree : TopicTree) : TopicOp → Prop
  | .subscribe filter _ _ =>
    (PathMatches (split filter) (split topic) ∧
        NodesExist tree.root (split filter) (split topic)) ↔ Matches filter topic
  | .match _ => True

/-- The client has subscribed to a filter that matches the topic. -/
def Subscribed (ops : List TopicOp) (topic clientId : Bytes) : Prop :=
  ∃ filter session qos, TopicOp.subscribe filter session qos ∈ ops ∧
    session.clientId = clientId ∧ Matches filter topic

section Finds

variable {tree : TopicTree} {topic : Bytes}

/-- Every subscription stands under the client id of its session. -/
def TopicTree.Keyed (tree : TopicTree) : Prop :=
  ∀ path clientId sub, (tree.root.subsAt path).lookup clientId = some sub →
    sub.session.clientId = clientId

theorem keyed_empty : TopicTree.empty.Keyed := by
  intro path clientId sub h
  rw [show TopicTree.empty.root.subsAt path = ∅ from Node.subsAt_new _ _] at h
  cases h

theorem TopicTree.Keyed.step (h : tree.Keyed) (op : TopicOp) : (tree.step op).Keyed := by
  cases op with
  | «match» topic =>
    intro path clientId sub hl
    rw [show (tree.step (.match topic)).root.subsAt path = tree.root.subsAt path from
      tree.subsAt_match topic path] at hl
    exact h path clientId sub hl
  | subscribe filter session qos =>
    intro path clientId sub hl
    rw [show tree.step (.subscribe filter session qos) = tree.subscribe filter session qos from rfl,
      tree.subsAt_subscribe] at hl
    split_ifs at hl with hp
    · by_cases hc : clientId = session.clientId
      · subst hc
        rw [AList.lookup_insert] at hl
        cases hl
        rfl
      · rw [AList.lookup_insert_ne hc] at hl
        exact h path clientId sub hl
    · exact h path clientId sub hl

/-- On a concrete topic a match lists the subscriptions at one node. -/
theorem TopicTree.Keyed.finds_iff (h : tree.Keyed) (ht : Concrete topic) (clientId : Bytes) :
    tree.Finds topic clientId ↔ clientId ∈ tree.root.subsAt (split topic) := by
  unfold TopicTree.Finds
  rw [← AList.lookup_isSome, Option.isSome_iff_exists]
  constructor
  · rintro ⟨sub, hsub, rfl⟩
    obtain ⟨path, hr, key, hl⟩ := (tree.mem_match topic sub).1 hsub
    rw [(reaches_literal ht _ _).1 hr] at hl
    rw [h _ _ _ hl]
    exact ⟨sub, hl⟩
  · rintro ⟨sub, hl⟩
    refine ⟨sub, (tree.mem_match topic sub).2 ⟨_, ?_, clientId, hl⟩, h _ _ _ hl⟩
    exact (reaches_literal ht _ _).2 rfl

/-- Where a subscription is attached. -/
theorem mem_subsAt_subscribe (filter : Bytes) (session : SessionRef) (qos : UInt8) (path : Path)
    (clientId : Bytes) :
    clientId ∈ (tree.subscribe filter session qos).root.subsAt path ↔
      (tree.root.Reaches (split filter) path ∧ clientId = session.clientId) ∨
        clientId ∈ tree.root.subsAt path := by
  rw [tree.subsAt_subscribe, ← (tree.getNode_visited filter).mem]
  split_ifs with hp
  · rw [AList.mem_insert]
    simp only [hp, true_and]
  · simp only [hp, false_and, false_or]

end Finds

/-- Whether a subscription is served can be read off the nodes the filter leads to. -/
theorem served_iff {tree : TopicTree} {topic filter : Bytes} {session : SessionRef} {qos : UInt8} :
    Served topic tree (.subscribe filter session qos) ↔
      (split topic ∈ (tree.getNode filter).2 ↔ Matches filter topic) := by
  rw [(tree.getNode_visited filter).mem, reaches_iff]
  rfl

/-- **Topic matching over runs.**  If every subscription of a run is served, a match of the topic
finds exactly the clients that have subscribed to a filter matching it. -/
theorem match_iff {topic : Bytes} (ht : Concrete topic) {ops : List TopicOp} {tree : TopicTree}
    (hrun : Run (Meeting TopicStep (Served topic)) .empty ops tree) (clientId : Bytes) :
    tree.Finds topic clientId ↔ Subscribed ops topic clientId := by
  have hinv : tree.Keyed ∧ ∀ clientId,
      clientId ∈ tree.root.subsAt (split topic) ↔ Subscribed ops topic clientId := by
    refine hrun.history (I := fun ops tree => tree.Keyed ∧ ∀ clientId,
      clientId ∈ tree.root.subsAt (split topic) ↔ Subscribed ops topic clientId) ?_ ?_
    · refine ⟨keyed_empty, fun clientId => ?_⟩
      rw [show TopicTree.empty.root.subsAt (split topic) = ∅ from Node.subsAt_new _ _]
      constructor
      · intro h
        exact absurd h (AList.notMem_empty _)
      · rintro ⟨filter, session, qos, h, -⟩
        cases h
    · rintro ops tree op tree' ⟨hkeyed, hmem⟩ ⟨hserved, rfl⟩
      refine ⟨hkeyed.step op, fun clientId => ?_⟩
      cases op with
      | «match» name =>
        -- a match may add nodes, and moves no subscription
        rw [show (tree.step (.match name)).root.subsAt (split topic) =
          tree.root.subsAt (split topic) from tree.subsAt_match name _, hmem]
        simp [Subscribed]
      | subscribe filter session qos =>
        have hreach : tree.root.Reaches (split filter) (split topic) ↔ Matches filter topic :=
          (reaches_iff _ _ _).trans hserved
        rw [show tree.step (.subscribe filter session qos) = tree.subscribe filter session qos from
          rfl, mem_subsAt_subscribe, hreach, hmem]
        constructor
        · rintro (⟨hm, rfl⟩ | ⟨f, s, q, h, hs, hm⟩)
          · exact ⟨filter, session, qos, by simp, rfl, hm⟩
          · exact ⟨f, s, q, List.mem_append_left _ h, hs, hm⟩
        · rintro ⟨f, s, q, h, rfl, hm⟩
          rcases List.mem_append.1 h with h | h
          · exact .inr ⟨f, s, q, h, rfl, hm⟩
          · cases List.mem_singleton.1 h
            exact .inl ⟨hm, rfl⟩
  rw [hinv.1.finds_iff ht, hinv.2]

/-- `"/a/b"`, `"/a/+"`, and a client. -/
def topicAB : Bytes := [47, 97, 47, 98]
def filterAPlus : Bytes := [47, 97, 47, 43]
def someClient : SessionRef := ⟨[99], 0⟩

/-- A run in which the topic was published before the filter was subscribed. -/
theorem match_iff_published :
    ((TopicTree.empty.step (.match topicAB)).step (.subscribe filterAPlus someClient 1)).Finds
        topicAB someClient.clientId ↔
      Subscribed [.match topicAB, .subscribe filterAPlus someClient 1] topicAB
        someClient.clientId := by
  have hserved : Served topicAB (TopicTree.empty.step (.match topicAB))
      (.subscribe filterAPlus someClient 1) := served_iff.2 (by decide +kernel)
  have hmatch : Meeting TopicStep (Served topicAB) .empty (.match topicAB)
      (TopicTree.empty.step (.match topicAB)) := ⟨trivial, rfl⟩
  exact match_iff (by decide) (.snoc (.snoc .nil hmatch) ⟨hserved, rfl⟩) someClient.clientId

/-- Without that, the subscription is lost. -/
theorem not_match_iff_unpublished :
    ¬ ((TopicTree.empty.subscribe filterAPlus someClient 1).Finds topicAB someClient.clientId ↔
      Subscribed [.subscribe filterAPlus someClient 1] topicAB someClient.clientId) := by
  intro h
  have hsub : Subscribed [.subscribe filterAPlus someClient 1] topicAB someClient.clientId :=
    ⟨filterAPlus, someClient, 1, List.mem_singleton_self _, rfl, by decide⟩
  obtain ⟨sub, hmem, -⟩ := h.2 hsub
  have hnone : ((TopicTree.empty.subscribe filterAPlus someClient 1).match topicAB).2 = [] := by
    decide +kernel
  rw [hnone] at hmem
  cases hmem

end Culex
