import Culex.Lib.Interleaving
import Culex.Representation
import Culex.TopicMap

/-!
# The topic tree under concurrent calls

The worker threads call the tree without a lock of its own; only what a `Node` does with its links
is under a lock, and what it does to change its subscribers.  `match` reads them without one.
`walkStep` has the sections under the lock of the links as steps of a walk without wildcards;
reading or changing the subscribers begins with one step and ends with another.  Calls of any number
of threads interleave these steps.  Between `ispresent` and `addLink` the link may have come from
another thread; `addLink` then replaces the child, and destroys it with everything below.  And while
a call reads the subscribers of a node another may change them.

* `SharedTree`: the tree, where nodes have identities, so that a pointer to a node that is gone is
  known as one;
* `Discards`: an `addLink` is about to destroy a node that is in use;
* `Collides`: a call is about to read subscribers that another changes, or the other way round;
* `linearizable_of_run`: without these, no pointer dangles, and the calls have the effect and the
  results of sequential calls, in the order of their returns.
-/

namespace Culex

open Node

/-- A pointer to a node: where it was found, and the identity of the node. -/
structure Place where
  path : Path
  id : ℕ
  deriving DecidableEq

/-- The tree, the identities of its nodes, which nodes have their `subscribers_mutex` held, and the
calls that have returned, with their results. -/
structure SharedTree (ι : Type) where
  root : Node
  ids : Path → ℕ := fun _ => 0
  nextId : ℕ := 1
  held : Place → Bool := fun _ => false
  returned : List (ι × List Subscription) := []

/-- How far a call is: at the head of the loop of `getNode`, before `addLink`, before `getLink`, at
the subscribers of the node it has found, or at its end. -/
inductive Walker
  | standing (node : Place) (words : List Bytes)
  | missing (node : Place) (word : Bytes) (words : List Bytes)
  | linked (node : Place) (word : Bytes) (words : List Bytes)
  | working (node : Place)
  | returned
  | dangling
  deriving DecidableEq

/-- What a call does to a node it has found. -/
def TreeCall.onNode : TreeCall → Node → Node
  | subscribe _ session qos, n => n.subscribe session qos
  | unsubscribe _ session, n => n.unsubscribe session
  | .match _, n => n

/-- The call takes the lock of the subscribers. -/
def TreeCall.locks : TreeCall → Bool
  | subscribe .. => true
  | unsubscribe .. => true
  | .match _ => false

/-- What a call returns that has found a node with these subscribers. -/
def TreeCall.resultOf : TreeCall → Subscribers → List Subscription
  | subscribe .., _ => []
  | unsubscribe .., _ => []
  | .match _, subs => subs.entries.map Sigma.snd

namespace SharedTree

variable {ι : Type} (s : SharedTree ι)

/-- The node behind a pointer, if it still is that node. -/
def deref (node : Place) : Option Node :=
  if s.ids node.path = node.id then s.root.find node.path else none

/-- Add a child, which has an identity of its own. -/
def addLink (node : Place) (word : Bytes) : SharedTree ι :=
  { s with
    root := Node.modify (·.addLink word) node.path s.root
    ids := Function.update s.ids (node.path ++ [word]) s.nextId
    nextId := s.nextId + 1 }

/-- The pointer to a child. -/
def getLink (node : Place) (word : Bytes) : Place :=
  ⟨node.path ++ [word], s.ids (node.path ++ [word])⟩

end SharedTree

section Steps

variable {ι : Type} (calls : ι → TreeCall)

/-- A step of a walk.  A walk that has come to its end reads or changes the subscribers of the node
it has found; to change them it waits for their lock. -/
def walkStep (i : ι) (_ : Unit) (s : SharedTree ι) : Walker → Option (SharedTree ι × Walker)
  | .standing node (word :: words) =>
    match s.deref node with
    | none => some (s, .dangling)
    | some n =>
      some (s, if n.ispresent word then .linked node word words else .missing node word words)
  | .missing node word words =>
    match s.deref node with
    | none => some (s, .dangling)
    | some _ => some (s.addLink node word, .linked node word words)
  | .linked node word words =>
    match s.deref node with
    | none => some (s, .dangling)
    | some n =>
      match n.getLink word with
      | (n', none) =>
        some ({ s with root := Node.modify (fun _ => n') node.path s.root }, .dangling)
      | (_, some _) => some (s, .standing (s.getLink node word) words)
  | .standing node [] =>
    match s.deref node with
    | none => some (s, .dangling)
    | some _ =>
      if (calls i).locks then
        if s.held node then none
        else some ({ s with held := Function.update s.held node true }, .working node)
      else some (s, .working node)
  | .working node =>
    match s.deref node with
    | none => some (s, .dangling)
    | some n =>
      some ({ s with
        root := Node.modify (calls i).onNode node.path s.root
        held := if (calls i).locks then Function.update s.held node false else s.held
        returned := s.returned ++ [(i, (calls i).resultOf n.subscribers)] }, .returned)
  | .returned => none
  | .dangling => none

/-- The calls are about to start. -/
def callsStarted (tree : TopicTree) : Threads ι (SharedTree ι) Walker where
  shared := { root := tree.root }
  own i := .standing ⟨[], 0⟩ (split (calls i).topic)

end Steps

/-- The pointer that a walk holds. -/
def Walker.place : Walker → Option Place
  | standing node _ => some node
  | missing node _ _ => some node
  | linked node _ _ => some node
  | working node => some node
  | returned => none
  | dangling => none

/-- What a call returns on a tree. -/
def TreeCall.result : TreeCall → TopicTree → List Subscription
  | subscribe .., _ => []
  | unsubscribe .., _ => []
  | .match topic, tree => (tree.match topic).2

section Conditions

variable {ι : Type} (calls : ι → TreeCall) (tree : TopicTree)

/-- The tree after sequential calls. -/
def sequentially (returned : List (ι × List Subscription)) : TopicTree :=
  tree.calls (returned.map fun x => calls x.1)

/-- No pointer dangles, no thread reads the subscribers of a node that another changes, and the
calls that have returned have the effect and the results that they have one after the other. -/
structure Linearizable (th : Threads ι (SharedTree ι) Walker) : Prop where
  live : ∀ i node, (th.own i).place = some node → (th.shared.deref node).isSome
  undamaged : ∀ i, th.own i ≠ .dangling
  apart : ∀ i j place place', th.own i = .working place → th.own j = .working place' →
    place.path = place'.path → (calls i).locks = (calls j).locks
  effect : ∀ path, th.shared.root.subsAt path =
    (sequentially calls tree th.shared.returned).root.subsAt path
  results : ∀ before i result, before ++ [(i, result)] <+: th.shared.returned →
    result = (calls i).result (sequentially calls tree before)

/-- The thread is about to replace a child which some thread points to or stands below, or below
which there are subscriptions. -/
def Discards (th : Threads ι (SharedTree ι) Walker) (i : ι) : Prop :=
  ∃ node word words, th.own i = .missing node word words ∧ ∃ q, node.path ++ [word] <+: q ∧
    ((∃ j place, (th.own j).place = some place ∧ place.path = q) ∨ th.shared.root.subsAt q ≠ ∅)

/-- The thread is about to read the subscribers of a node while another changes them, or to change
them while another reads them. -/
def Collides (th : Threads ι (SharedTree ι) Walker) (i : ι) : Prop :=
  ∃ node, th.own i = .standing node [] ∧ ∃ j place, th.own j = .working place ∧
    place.path = node.path ∧ (calls j).locks ≠ (calls i).locks

instance [Fintype ι] (th : Threads ι (SharedTree ι) Walker) (i : ι) :
    Decidable (Collides calls th i) :=
  decidable_of_iff (∃ j, (match th.own i, th.own j with
    | .standing node [], .working place =>
      decide (place.path = node.path ∧ (calls j).locks ≠ (calls i).locks)
    | _, _ => false) = true) (by
    refine ⟨fun ⟨j, hj⟩ => ?_, fun ⟨node, hi, j, place, hj, hcollide⟩ => ⟨j, ?_⟩⟩
    · split at hj
      · next node place hi hwork => exact ⟨node, hi, j, place, hwork, of_decide_eq_true hj⟩
      · cases hj
    · rw [hi, hj]
      exact decide_eq_true hcollide)

/-- What the thread is about to add is not there: no other thread has come first. -/
def AddsFirst (th : Threads ι (SharedTree ι) Walker) (i : ι) : Prop :=
  ∀ node word words, th.own i = .missing node word words →
    th.shared.root.find (node.path ++ [word]) = none

instance (th : Threads ι (SharedTree ι) Walker) (i : ι) : Decidable (AddsFirst th i) :=
  decidable_of_iff ((match th.own i with
    | .missing node word _ => (th.shared.root.find (node.path ++ [word])).isNone
    | _ => true) = true) (by
    unfold AddsFirst
    cases th.own i <;> simp)

/-- Where a walk is on its way along the levels of its topic. -/
def Walker.OnWay (root : Node) (topic : List Bytes) : Walker → Prop
  | standing node words => node.path ++ words = topic
  | missing node word words => node.path ++ word :: words = topic
  | linked node word words =>
    node.path ++ word :: words = topic ∧ (root.find (node.path ++ [word])).isSome
  | working node => node.path = topic
  | returned => True
  | dangling => True

/-- The invariant of the calls. -/
structure WalksWell (th : Threads ι (SharedTree ι) Walker) : Prop
    extends Linearizable calls tree th where
  wellFormed : th.shared.root.WellFormed
  fresh : ∀ path, th.shared.ids path < th.shared.nextId
  onWay : ∀ i, (th.own i).OnWay th.shared.root (split (calls i).topic)

end Conditions

variable {ι : Type} {calls : ι → TreeCall} {tree : TopicTree} {root n : Node} {path q : Path}
  {word : Bytes} {words : List Bytes} {s : SharedTree ι} {node : Place}

/-! ### Adding a link -/

namespace Node

/-- Elsewhere a node keeps its subscribers. -/
theorem find_modify_elsewhere {f : Node → Node} (hn : root.find path = some n)
    (hq : ¬ path <+: q) :
    ((modify f path root).find q).map subscribers = (root.find q).map subscribers := by
  induction path generalizing root q with
  | nil => exact absurd List.nil_prefix hq
  | cons str path ih =>
    obtain ⟨c, hc, hp⟩ := Option.bind_eq_some_iff.1 ((find_cons root str path).symm.trans hn)
    rw [modify, hc]
    cases q with
    | nil => rfl
    | cons s q =>
      by_cases hs : s = str
      · subst hs
        rw [List.cons_prefix_cons] at hq
        show ((root.setLink s _).find (s :: q)).map subscribers = _
        rw [find_cons_of_child (child_setLink_self _ _ _), find_cons_of_child hc]
        exact ih hp fun h => hq ⟨rfl, h⟩
      · rw [find_cons, find_cons, child_setLink_ne _ _ hs]

/-- **What `addLink` leaves as it is**: everything but the child and what is below. -/
theorem find_addLink_elsewhere (hn : root.find path = some n) (hq : ¬ path ++ [word] <+: q) :
    ((modify (·.addLink word) path root).find q).map subscribers =
      (root.find q).map subscribers := by
  by_cases hp : path <+: q
  · obtain ⟨rest, rfl⟩ := hp
    rw [find_modify_append hn, find_append, hn, Option.bind_some]
    cases rest with
    | nil => rfl
    | cons str rest =>
      have hs : str ≠ word := by
        rintro rfl
        exact hq ⟨rest, by simp⟩
      rw [find_cons, find_cons, Node.addLink, child_setLink_ne _ _ hs]
  · exact find_modify_elsewhere hn hp

/-- Below the child there is a new node, and nothing else. -/
theorem find_addLink_below (hn : root.find path = some n) (rest : Path) :
    (modify (·.addLink word) path root).find (path ++ [word] ++ rest) =
      (new word).find rest := by
  rw [List.append_assoc, find_modify_append hn]
  show (n.addLink word).find (word :: rest) = _
  rw [Node.addLink, find_cons_of_child (child_setLink_self _ _ _)]

theorem subsAt_addLink (hn : root.find path = some n) :
    (modify (·.addLink word) path root).subsAt q =
      if path ++ [word] <+: q then ∅ else root.subsAt q := by
  split_ifs with hq
  · obtain ⟨rest, rfl⟩ := hq
    have hnew := subsAt_new word rest
    unfold subsAt at hnew ⊢
    rw [find_addLink_below hn, hnew]
  · unfold subsAt
    rw [find_addLink_elsewhere hn hq]

end Node

/-! ### Pointers -/

namespace SharedTree

theorem deref_eq_some : s.deref node = some n ↔
    s.ids node.path = node.id ∧ s.root.find node.path = some n := by
  unfold deref
  split_ifs with h
  · simp [h]
  · simp [h]

theorem isSome_deref : (s.deref node).isSome ↔
    s.ids node.path = node.id ∧ (s.root.find node.path).isSome := by
  unfold deref
  split_ifs with h
  · simp [h]
  · simp [h]

/-- `addLink` leaves a pointer alone that is not to the child or below. -/
theorem isSome_deref_addLink {place : Place} (hn : s.root.find node.path = some n)
    (hq : ¬ node.path ++ [word] <+: place.path) :
    ((s.addLink node word).deref place).isSome ↔ (s.deref place).isSome := by
  have hne : place.path ≠ node.path ++ [word] := by
    intro he
    exact hq (he ▸ List.prefix_refl _)
  have hids : (s.addLink node word).ids place.path = s.ids place.path :=
    Function.update_of_ne hne ..
  have hfind := congrArg Option.isSome (find_addLink_elsewhere hn hq)
  rw [Option.isSome_map, Option.isSome_map] at hfind
  rw [isSome_deref, isSome_deref, hids]
  show _ ∧ ((Node.modify (·.addLink word) node.path s.root).find place.path).isSome ↔ _
  rw [hfind]

/-- The others dangle. -/
theorem deref_addLink_below {place : Place} (hn : s.root.find node.path = some n)
    (hfresh : place.id < s.nextId) (hq : node.path ++ [word] <+: place.path) :
    (s.addLink node word).deref place = none := by
  obtain ⟨rest, hrest⟩ := hq
  rw [← Option.not_isSome_iff_eq_none, isSome_deref, ← hrest]
  rintro ⟨hid, hfind⟩
  cases rest with
  | nil =>
    have hnew : (s.addLink node word).ids (node.path ++ [word] ++ []) = s.nextId := by
      rw [List.append_nil]
      exact Function.update_self ..
    omega
  | cons str rest =>
    have hsome : ((Node.new word).find (str :: rest)).isSome :=
      find_addLink_below hn (str :: rest) ▸ hfind
    rw [isSome_find_new] at hsome
    cases hsome

end SharedTree

/-! ### Steps -/

section Step

variable {th th' : Threads ι (SharedTree ι) Walker} {i j : ι}

/-- What a step has to see to for each of the threads. -/
structure Walker.Well (s : SharedTree ι) (topic : List Bytes) (walker : Walker) : Prop where
  live : ∀ node, walker.place = some node → (s.deref node).isSome
  undamaged : walker ≠ .dangling
  onWay : walker.OnWay s.root topic

theorem WalksWell.well (h : WalksWell calls tree th) (j : ι) :
    (th.own j).Well th.shared (split (calls j).topic) :=
  ⟨h.live j, h.undamaged j, h.onWay j⟩

/-- Threads that do not come to the subscribers of a node keep apart. -/
theorem WalksWell.apart_of_not_working (h : WalksWell calls tree th)
    (hself : ∀ place, th'.own i ≠ .working place)
    (hother : ∀ j, j ≠ i → th'.own j = th.own j) (j k : ι) (place place' : Place)
    (hj : th'.own j = .working place) (hk : th'.own k = .working place')
    (hpath : place.path = place'.path) : (calls j).locks = (calls k).locks := by
  have hj' : j ≠ i := fun he => hself place (he ▸ hj)
  have hk' : k ≠ i := fun he => hself place' (he ▸ hk)
  exact h.apart j k place place' ((hother j hj').symm.trans hj) ((hother k hk').symm.trans hk) hpath

/-- A step that leaves the tree alone. -/
theorem WalksWell.of_shared (h : WalksWell calls tree th) {held : Place → Bool}
    (hshared : th'.shared = { th.shared with held })
    (hself : (th'.own i).Well th.shared (split (calls i).topic))
    (hother : ∀ j, j ≠ i → th'.own j = th.own j)
    (hapart : ∀ j k place place', th'.own j = .working place → th'.own k = .working place' →
      place.path = place'.path → (calls j).locks = (calls k).locks) :
    WalksWell calls tree th' := by
  have hwell : ∀ j, (th'.own j).Well th.shared (split (calls j).topic) := by
    intro j
    by_cases hj : j = i
    · exact hj ▸ hself
    · exact hother j hj ▸ h.well j
  have hlive : ∀ j place, (th'.own j).place = some place → (th'.shared.deref place).isSome := by
    intro j place hp
    have hsome := (hwell j).live place hp
    rw [SharedTree.isSome_deref] at hsome ⊢
    rw [hshared]
    exact hsome
  refine ⟨⟨hlive, fun j => (hwell j).undamaged, hapart, ?_, ?_⟩, ?_, ?_, fun j => ?_⟩
  · exact hshared ▸ h.effect
  · exact hshared ▸ h.results
  · exact hshared ▸ h.wellFormed
  · exact hshared ▸ h.fresh
  · exact hshared ▸ (hwell j).onWay

/-- What a thread that adds a link does not destroy. -/
theorem aside_of_not_discards (hd : ¬ Discards th i) (hi : th.own i = .missing node word words) :
    (∀ j place, (th.own j).place = some place → ¬ node.path ++ [word] <+: place.path) ∧
      ∀ q, node.path ++ [word] <+: q → th.shared.root.subsAt q = ∅ := by
  constructor
  · intro j place hj hq
    exact hd ⟨node, word, words, hi, _, hq, .inl ⟨j, place, hj, rfl⟩⟩
  · intro q hq
    by_contra hne
    exact hd ⟨node, word, words, hi, q, hq, .inr hne⟩

/-- The way of a thread goes on where no node is lost. -/
theorem Walker.OnWay.mono {root' : Node} {topic : List Bytes} {walker : Walker}
    (h : walker.OnWay root topic)
    (hfind : ∀ place word words, walker = .linked place word words →
      (root.find (place.path ++ [word])).isSome → (root'.find (place.path ++ [word])).isSome) :
    walker.OnWay root' topic := by
  cases walker with
  | linked place word words => exact ⟨h.1, hfind place word words rfl h.2⟩
  | standing _ _ => exact h
  | missing _ _ _ => exact h
  | working _ => exact h
  | returned => trivial
  | dangling => trivial

/-- **Adding a link** that replaces nothing in use. -/
theorem WalksWell.adds (h : WalksWell calls tree th) (hc : Concrete (calls i).topic)
    (hi : th.own i = .missing node word words) (hd : ¬ Discards th i)
    (hshared : th'.shared = th.shared.addLink node word)
    (hself : th'.own i = .linked node word words)
    (hother : ∀ j, j ≠ i → th'.own j = th.own j) : WalksWell calls tree th' := by
  obtain ⟨hplaces, hsubs⟩ := aside_of_not_discards hd hi
  have hway : node.path ++ word :: words = split (calls i).topic := by
    have := h.onWay i
    rwa [hi] at this
  have hplace : (th.own i).place = some node := by
    rw [hi]
    rfl
  have hlive := h.live i node hplace
  obtain ⟨n, hderef⟩ := Option.isSome_iff_exists.1 hlive
  obtain ⟨-, hn⟩ := SharedTree.deref_eq_some.1 hderef
  have hword : word ≠ plus ∧ word ≠ hash := hc word (by simp [← hway])
  have hchild : ((th.shared.addLink node word).root.find (node.path ++ [word])).isSome := by
    have hbelow := @find_addLink_below _ _ _ word hn []
    rw [List.append_nil] at hbelow
    exact Option.isSome_iff_exists.2 ⟨_, hbelow⟩
  have hlives : ∀ j place, (th.own j).place = some place →
      ((th.shared.addLink node word).deref place).isSome := fun j place hj =>
    (SharedTree.isSome_deref_addLink hn (hplaces j place hj)).2 (h.live j place hj)
  have hwell : ∀ j, (th'.own j).Well (th.shared.addLink node word) (split (calls j).topic) := by
    intro j
    by_cases hj : j = i
    · subst hj
      rw [hself]
      refine ⟨?_, by simp, hway, hchild⟩
      intro place hp
      exact hlives j place (hplace.trans hp)
    · rw [hother j hj]
      refine ⟨hlives j, h.undamaged j, (h.onWay j).mono ?_⟩
      intro place word' words' hlinked hfind
      by_cases hq : node.path ++ [word] <+: place.path ++ [word']
      · rcases List.prefix_concat_iff.1 hq with heq | hq
        · exact heq ▸ hchild
        · refine absurd hq (hplaces j place ?_)
          rw [hlinked]
          rfl
      · have := congrArg Option.isSome (find_addLink_elsewhere hn hq)
        rw [Option.isSome_map, Option.isSome_map] at this
        exact this.trans hfind
  have hapart := h.apart_of_not_working (by simp [hself]) hother
  refine ⟨⟨fun j => hshared ▸ (hwell j).live, fun j => (hwell j).undamaged, hapart, ?_, ?_⟩, ?_, ?_,
    fun j => hshared ▸ (hwell j).onWay⟩
  · intro q
    rw [hshared]
    refine (subsAt_addLink hn).trans ?_
    split_ifs with hq
    · exact (hsubs q hq).symm.trans (h.effect q)
    · exact h.effect q
  · exact hshared ▸ h.results
  · rw [hshared]
    exact h.wellFormed.modify_of hn ((h.wellFormed.of_find hn).setLink (.new word) rfl hword) rfl
  · rw [hshared]
    intro q
    have hids : (th.shared.addLink node word).ids q =
        if q = node.path ++ [word] then th.shared.nextId else th.shared.ids q :=
      Function.update_apply ..
    have hnext : (th.shared.addLink node word).nextId = th.shared.nextId + 1 := rfl
    have := h.fresh q
    rw [hids, hnext]
    split_ifs <;> omega

theorem TreeCall.onNode_onSubscribers (op : TreeCall) : OnSubscribers op.onNode := by
  cases op with
  | subscribe filter session qos => exact .subscribe session qos
  | unsubscribe filter session => exact .unsubscribe session
  | «match» topic => exact ⟨fun _ => rfl, fun _ => rfl⟩

theorem TreeCall.subscribers_onNode (op : TreeCall) (n : Node) :
    (op.onNode n).subscribers = op.edit n.subscribers := by
  cases op <;> rfl

/-- The node is the one of the call's topic. -/
theorem TreeCall.result_eq (op : TreeCall) (hc : Concrete op.topic) (tree : TopicTree) :
    op.result tree = op.resultOf (tree.root.subsAt (split op.topic)) := by
  cases op with
  | subscribe filter session qos => rfl
  | unsubscribe filter session => rfl
  | «match» topic => exact TopicTree.match_of_concrete hc

/-- **Coming to the end**: the call takes effect, and returns what it returns on the tree of the
calls before it. -/
theorem WalksWell.returns (h : WalksWell calls tree th) (hc : Concrete (calls i).topic)
    (hi : th.own i = .working node) (hderef : th.shared.deref node = some n)
    {held : Place → Bool} (hshared : th'.shared = { th.shared with
      root := Node.modify (calls i).onNode node.path th.shared.root
      held := held
      returned := th.shared.returned ++ [(i, (calls i).resultOf n.subscribers)] })
    (hself : th'.own i = .returned)
    (hother : ∀ j, j ≠ i → th'.own j = th.own j) : WalksWell calls tree th' := by
  have hway : node.path = split (calls i).topic := by
    have := h.onWay i
    rwa [hi] at this
  obtain ⟨-, hn⟩ := SharedTree.deref_eq_some.1 hderef
  have hf := (calls i).onNode_onSubscribers
  have hsubs : n.subscribers = th.shared.root.subsAt node.path := by
    unfold subsAt
    rw [hn]
    rfl
  have hlive : ∀ place, (th'.shared.deref place).isSome ↔ (th.shared.deref place).isSome := by
    intro place
    rw [hshared, SharedTree.isSome_deref, SharedTree.isSome_deref]
    show _ ∧ ((Node.modify _ node.path th.shared.root).find place.path).isSome ↔ _
    rw [find_modify_isSome hf]
  have hwell : ∀ j, (th'.own j).Well th'.shared (split (calls j).topic) := by
    intro j
    by_cases hj : j = i
    · rw [hj, hself]
      constructor
      · intro place hp
        cases hp
      · simp
      · trivial
    · rw [hother j hj]
      refine ⟨fun place hp => (hlive place).2 (h.live j place hp), h.undamaged j,
        (h.onWay j).mono fun place word words _ hfind => ?_⟩
      rw [hshared]
      exact (find_modify_isSome hf _ _).trans hfind
  have hapart := h.apart_of_not_working (by simp [hself]) hother
  refine ⟨⟨fun j => (hwell j).live, fun j => (hwell j).undamaged, hapart, fun q => ?_, ?_⟩, ?_, ?_,
    fun j => (hwell j).onWay⟩
  · -- the subscriptions are the ones after one more sequential call
    have hcall := @TopicTree.subsAt_call (sequentially calls tree th.shared.returned) (calls i) q
    rw [reaches_literal hc, ← hway] at hcall
    have hseq : sequentially calls tree th'.shared.returned =
        (sequentially calls tree th.shared.returned).call (calls i) := by
      rw [hshared]
      show tree.calls (List.map _ (_ ++ _)) = _
      rw [List.map_append, TopicTree.calls, List.foldl_append]
      rfl
    rw [hseq, hshared]
    refine (subsAt_modify hf (Option.isSome_iff_exists.2 ⟨n, hn⟩) q).trans ?_
    split_ifs with hq
    · rw [hcall.1 hq, hn, ← h.effect, hq, ← hsubs]
      exact (calls i).subscribers_onNode n
    · rw [hcall.2 hq]
      exact h.effect q
  · intro before j result hprefix
    rw [hshared] at hprefix
    rcases List.prefix_concat_iff.1 hprefix with heq | hprefix
    · obtain ⟨rfl, hlast⟩ := List.append_inj' heq rfl
      obtain ⟨rfl, rfl⟩ := Prod.mk.inj (List.cons.inj hlast).1
      rw [TreeCall.result_eq _ hc, ← h.effect, ← hway, hsubs]
    · exact h.results before j result hprefix
  · rw [hshared]
    exact h.wellFormed.modify hf node.path
  · rw [hshared]
    exact h.fresh

/-- **Coming to the subscribers** of a node while no other thread is in the way. -/
theorem WalksWell.begins (h : WalksWell calls tree th) (hcollide : ¬ Collides calls th i)
    (hi : th.own i = .standing node []) {held : Place → Bool}
    (hshared : th'.shared = { th.shared with held }) (hself : th'.own i = .working node)
    (hother : ∀ j, j ≠ i → th'.own j = th.own j) : WalksWell calls tree th' := by
  have hlive := h.live i
  have hway := h.onWay i
  rw [hi] at hlive hway
  -- who is at the node has come for the same
  have hsame : ∀ j place, j ≠ i → th'.own j = .working place → place.path = node.path →
      (calls j).locks = (calls i).locks := by
    intro j place hj hwork hpath
    by_contra hne
    exact hcollide ⟨node, hi, j, place, (hother j hj).symm.trans hwork, hpath, hne⟩
  refine h.of_shared hshared ?_ hother ?_
  · rw [hself]
    exact ⟨hlive, by simp, (List.append_nil _).symm.trans hway⟩
  · intro j k place place' hj hk hpath
    by_cases hji : j = i <;> by_cases hki : k = i
    · rw [hji, hki]
    · rw [hji, hself, Walker.working.injEq] at hj
      exact hji ▸ (hsame k place' hki hk (hj ▸ hpath.symm)).symm
    · rw [hki, hself, Walker.working.injEq] at hk
      exact hki ▸ hsame j place hji hj (hk ▸ hpath)
    · exact h.apart j k place place' ((hother j hji).symm.trans hj)
        ((hother k hki).symm.trans hk) hpath

/-- **Looking for a link**: one that is there stays. -/
theorem WalksWell.looks (h : WalksWell calls tree th)
    (hi : th.own i = .standing node (word :: words)) (hderef : th.shared.deref node = some n)
    (hshared : th'.shared = th.shared)
    (hself : th'.own i =
      if n.ispresent word then .linked node word words else .missing node word words)
    (hother : ∀ j, j ≠ i → th'.own j = th.own j) : WalksWell calls tree th' := by
  obtain ⟨-, hn⟩ := SharedTree.deref_eq_some.1 hderef
  have hlive := h.live i
  have hway := h.onWay i
  rw [hi] at hlive hway
  refine h.of_shared hshared ?_ hother
    (h.apart_of_not_working (by rw [hself]; split_ifs <;> simp) hother)
  rw [hself]
  by_cases hpresent : n.ispresent word
  · rw [if_pos hpresent]
    obtain ⟨c, hchild⟩ := (h.wellFormed.of_find hn).ispresent_iff.1 hpresent
    refine ⟨hlive, by simp, hway, ?_⟩
    rw [find_append, hn, Option.bind_some, find_cons, hchild]
    rfl
  · rw [if_neg hpresent]
    exact ⟨hlive, by simp, hway⟩

/-- **Going on to a child**, whose link has been found or added. -/
theorem WalksWell.descends (h : WalksWell calls tree th)
    (hi : th.own i = .linked node word words) (hderef : th.shared.deref node = some n)
    (hs : walkStep calls i () th.shared (.linked node word words) = some (th'.shared, th'.own i))
    (hother : ∀ j, j ≠ i → th'.own j = th.own j) : WalksWell calls tree th' := by
  obtain ⟨-, hn⟩ := SharedTree.deref_eq_some.1 hderef
  have hway := h.onWay i
  rw [hi] at hway
  obtain ⟨hpath, hfind⟩ := hway
  obtain ⟨c, hchild⟩ : ∃ c, n.child word = some c := by
    rw [find_append, hn, Option.bind_some, isSome_find_cons] at hfind
    obtain ⟨c, hchild, -⟩ := hfind
    exact ⟨c, hchild⟩
  have hlink : n.getLink word = (n, some c) := by
    rw [(h.wellFormed.of_find hn).getLink_of_mem (mem_keys_of_child hchild), hchild]
  simp only [walkStep, hderef, hlink] at hs
  obtain ⟨hshared, hself⟩ := Prod.mk.inj (Option.some.inj hs)
  refine h.of_shared hshared.symm ?_ hother (h.apart_of_not_working (by simp [← hself]) hother)
  rw [← hself]
  constructor
  · rintro place ⟨⟩
    rw [SharedTree.isSome_deref]
    exact ⟨rfl, hfind⟩
  · simp
  · simpa [Walker.OnWay, SharedTree.getLink] using hpath

/-- The thread that comes first discards nothing. -/
theorem AddsFirst.not_discards (hfirst : AddsFirst th i) (h : WalksWell calls tree th) :
    ¬ Discards th i := by
  rintro ⟨node, word, words, hi, q, ⟨rest, rfl⟩, hused⟩
  have hnone : th.shared.root.find (node.path ++ [word] ++ rest) = none := by
    rw [find_append, hfirst node word words hi]
    rfl
  rcases hused with ⟨j, place, hj, hplace⟩ | hsubs
  · obtain ⟨-, hsome⟩ := SharedTree.isSome_deref.1 (h.live j place hj)
    rw [hplace, hnone] at hsome
    cases hsome
  · refine hsubs ?_
    unfold subsAt
    rw [hnone]
    rfl

theorem walksWell_start (calls : ι → TreeCall) (tree : TopicTree) :
    WalksWell calls tree (callsStarted calls tree) := by
  refine ⟨⟨?_, ?_, ?_, fun _ => rfl, ?_⟩, tree.wellFormed, fun _ => Nat.one_pos, fun _ => rfl⟩
  · rintro i node ⟨⟩
    rfl
  · intro i hi
    cases hi
  · intro i j place place' hi
    cases hi
  · intro before i result hprefix
    have := hprefix.length_le
    simp [callsStarted] at this

variable [DecidableEq ι] {steps : List (ι × Unit)}

/-- **A step** that discards nothing and collides with none keeps the invariant. -/
theorem WalksWell.step (hc : ∀ i, Concrete (calls i).topic) (h : WalksWell calls tree th)
    (hd : ¬ Discards th i) (hcollide : ¬ Collides calls th i)
    (hs : Interleaves (walkStep calls) th (i, ()) th') : WalksWell calls tree th' := by
  have hself := hs.step_self
  have hother : ∀ j, j ≠ i → th'.own j = th.own j := fun j hj => hs.own_of_ne hj
  have hlive := h.live i
  cases hi : th.own i with
  | returned =>
    rw [hi] at hself
    cases hself
  | dangling => exact absurd hi (h.undamaged i)
  | working node =>
    rw [hi] at hself hlive
    obtain ⟨n, hderef⟩ := Option.isSome_iff_exists.1 (hlive node rfl)
    simp only [walkStep, hderef] at hself
    obtain ⟨hshared, hown⟩ := Prod.mk.inj (Option.some.inj hself)
    exact h.returns (hc i) hi hderef hshared.symm hown.symm hother
  | missing node word words =>
    rw [hi] at hself hlive
    obtain ⟨n, hn⟩ := Option.isSome_iff_exists.1 (hlive node rfl)
    simp only [walkStep, hn] at hself
    obtain ⟨hshared, hown⟩ := Prod.mk.inj (Option.some.inj hself)
    exact h.adds (hc i) hi hd hshared.symm hown.symm hother
  | linked node word words =>
    rw [hi] at hself hlive
    obtain ⟨n, hderef⟩ := Option.isSome_iff_exists.1 (hlive node rfl)
    exact h.descends hi hderef hself hother
  | standing node words =>
    rw [hi] at hself hlive
    obtain ⟨n, hderef⟩ := Option.isSome_iff_exists.1 (hlive node rfl)
    cases words with
    | nil =>
      simp only [walkStep, hderef] at hself
      split_ifs at hself
      all_goals
        obtain ⟨hshared, hown⟩ := Prod.mk.inj (Option.some.inj hself)
        exact h.begins hcollide hi hshared.symm hown.symm hother
    | cons word words =>
      simp only [walkStep, hderef] at hself
      obtain ⟨hshared, hown⟩ := Prod.mk.inj (Option.some.inj hself)
      exact h.looks hi hderef hshared.symm hown.symm hother

/-- **A step that discards** leaves a pointer that dangles, or has lost a subscription. -/
theorem not_linearizable_of_discards (h : WalksWell calls tree th) (hd : Discards th i)
    (hs : Interleaves (walkStep calls) th (i, ()) th') : ¬ Linearizable calls tree th' := by
  intro hlin
  obtain ⟨node, word, words, hi, q, hq, hused⟩ := hd
  have hself := hs.step_self
  have hlive := h.live i
  rw [hi] at hself hlive
  obtain ⟨n, hderef⟩ := Option.isSome_iff_exists.1 (hlive node rfl)
  obtain ⟨hid, hn⟩ := SharedTree.deref_eq_some.1 hderef
  simp only [walkStep, hderef] at hself
  obtain ⟨hshared, hown⟩ := Prod.mk.inj (Option.some.inj hself)
  rcases hused with ⟨j, place, hj, rfl⟩ | hsubs
  · have hne : j ≠ i := by
      rintro rfl
      -- the thread itself stands above the link
      rw [hi] at hj
      obtain rfl := Option.some.inj hj
      have := hq.length_le
      simp at this
    have hfresh : place.id < th.shared.nextId := by
      rw [← (SharedTree.isSome_deref.1 (h.live j place hj)).1]
      exact h.fresh place.path
    have hgone := SharedTree.deref_addLink_below hn hfresh hq
    have := hlin.live j place ((congrArg Walker.place (hs.own_of_ne hne)).trans hj)
    rw [← hshared, hgone] at this
    cases this
  · have heffect := hlin.effect q
    have hlost : (th.shared.addLink node word).root.subsAt q = ∅ :=
      (subsAt_addLink hn).trans (if_pos hq)
    rw [← hshared, hlost] at heffect
    exact hsubs ((h.effect q).trans heffect.symm)

/-- **A step that collides** leaves a thread that reads what another changes. -/
theorem not_linearizable_of_collides (h : WalksWell calls tree th) (hcollide : Collides calls th i)
    (hs : Interleaves (walkStep calls) th (i, ()) th') : ¬ Linearizable calls tree th' := by
  intro hlin
  obtain ⟨node, hi, j, place, hj, hpath, hne⟩ := hcollide
  have hself := hs.step_self
  have hlive := h.live i
  rw [hi] at hself hlive
  obtain ⟨n, hderef⟩ := Option.isSome_iff_exists.1 (hlive node rfl)
  have hwork : th'.own i = .working node := by
    simp only [walkStep, hderef] at hself
    split_ifs at hself
    all_goals exact (Prod.mk.inj (Option.some.inj hself)).2.symm
  have hji : j ≠ i := by
    rintro rfl
    rw [hi] at hj
    cases hj
  exact hne (hlin.apart j i place node ((hs.own_of_ne hji).trans hj) hwork hpath)

/-- The thread is about to do harm. -/
def Disturbs (calls : ι → TreeCall) (th : Threads ι (SharedTree ι) Walker) (i : ι) : Prop :=
  Discards th i ∨ Collides calls th i

theorem WalksWell.step_of_not_disturbs (hc : ∀ i, Concrete (calls i).topic)
    (h : WalksWell calls tree th) (hd : ¬ Disturbs calls th i)
    (hs : Interleaves (walkStep calls) th (i, ()) th') : WalksWell calls tree th' :=
  h.step hc (fun hdiscards => hd (.inl hdiscards)) (fun hcollides => hd (.inr hcollides)) hs

/-- Calls that add in turn. -/
theorem run_of_addsFirst (hc : ∀ i, Concrete (calls i).topic)
    (hrun : Run (Meeting (Interleaves (walkStep calls)) fun th step =>
      AddsFirst th step.1 ∧ ¬ Collides calls th step.1) (callsStarted calls tree) steps th) :
    Run (Meeting (Interleaves (walkStep calls)) fun th step => ¬ Disturbs calls th step.1)
      (callsStarted calls tree) steps th := by
  have hboth : WalksWell calls tree th ∧
      Run (Meeting (Interleaves (walkStep calls)) fun th step => ¬ Disturbs calls th step.1)
        (callsStarted calls tree) steps th := by
    refine hrun.history (I := fun steps th => WalksWell calls tree th ∧ Run _ _ steps th)
      ⟨walksWell_start calls tree, .nil⟩ ?_
    rintro steps th₁ ⟨i, u⟩ th₂ ⟨hwell, hrun⟩ ⟨⟨hfirst, hcollide⟩, hstep⟩
    have hd : ¬ Disturbs calls th₁ i := not_or.2 ⟨hfirst.not_discards hwell, hcollide⟩
    exact ⟨hwell.step_of_not_disturbs hc hd hstep, .snoc hrun ⟨hd, hstep⟩⟩
  exact hboth.2

/-- **The calls of the tree are linearizable** as long as no `addLink` replaces a child that is in
use, and nobody reads subscribers while they are changed; the first step that does so ends it.  In
every interleaving, no pointer has dangled so far, and the calls have the effect and the results of
sequential calls, exactly if there has been none. -/
theorem linearizable_of_run (hc : ∀ i, Concrete (calls i).topic)
    (hrun : Run (Meeting (Interleaves (walkStep calls)) fun th step => ¬ Disturbs calls th step.1)
      (callsStarted calls tree) steps th) :
    Linearizable calls tree th ∧ ∀ i th', Interleaves (walkStep calls) th (i, ()) th' →
      (Linearizable calls tree th' ↔ ¬ Disturbs calls th i) := by
  have hwell : WalksWell calls tree th := by
    refine hrun.invariant (walksWell_start calls tree) ?_
    rintro th₁ ⟨i, u⟩ th₂ h ⟨hd, hstep⟩
    exact h.step_of_not_disturbs hc hd hstep
  refine ⟨hwell.toLinearizable, fun i th' hstep => ⟨fun hlin hd => ?_, fun hd => ?_⟩⟩
  · rcases hd with hdiscards | hcollides
    · exact not_linearizable_of_discards hwell hdiscards hstep hlin
    · exact not_linearizable_of_collides hwell hcollides hstep hlin
  · exact (hwell.step_of_not_disturbs hc hd hstep).toLinearizable

end Step

/-! ### Two calls -/

/-- A client subscribes to `"a"` while a message to `"a"` is routed. -/
def subscribeAndMatch : Bool → TreeCall
  | false => .subscribe [97] ⟨[65], 1⟩ 1
  | true => .match [97]

/-- The second call comes when the link is there, and begins to read when the first has returned. -/
def linkFirst : List (Bool × Unit) :=
  [(false, ()), (false, ()), (true, ()), (false, ()), (true, ()), (false, ()), (false, ()),
    (true, ()), (true, ())]

/-- Both calls find the link missing, and the first one has added it and stands at the child. -/
def bothMissing : List (Bool × Unit) := [(false, ()), (true, ()), (false, ()), (false, ())]

/-- The second call stands at the child, where the first one is about to subscribe. -/
def bothAtChild : List (Bool × Unit) :=
  [(false, ()), (false, ()), (true, ()), (false, ()), (true, ()), (false, ())]

/-- An interleaving in which nothing is harmed. -/
def undisturbed (steps : List (Bool × Unit)) : Option (Threads Bool (SharedTree Bool) Walker) :=
  steps.foldlM (fun th step =>
    if AddsFirst th step.1 ∧ ¬ Collides subscribeAndMatch th step.1 then
      th.next (walkStep subscribeAndMatch) step
    else none) (callsStarted subscribeAndMatch .empty)

theorem concrete_subscribeAndMatch : ∀ i, Concrete (subscribeAndMatch i).topic := by decide

theorem run_of_undisturbed {steps : List (Bool × Unit)}
    {th : Threads Bool (SharedTree Bool) Walker} (h : undisturbed steps = some th) :
    Run (Meeting (Interleaves (walkStep subscribeAndMatch)) fun th step =>
      ¬ Disturbs subscribeAndMatch th step.1) (callsStarted subscribeAndMatch .empty) steps th := by
  refine run_of_addsFirst concrete_subscribeAndMatch (Run.of_foldlM (fun s a s' hs => ?_) h)
  split_ifs at hs with hundisturbed
  exact ⟨hundisturbed, .of_next hs⟩

theorem linearizable_of_run_subscribeAndMatch :
    (∃ th, undisturbed linkFirst = some th ∧ Linearizable subscribeAndMatch .empty th ∧
      th.shared.returned = [(false, []), (true, [⟨⟨[65], 1⟩, 1⟩])]) ∧
    (∃ th th', undisturbed bothMissing = some th ∧
      Interleaves (walkStep subscribeAndMatch) th (true, ()) th' ∧
      ¬ Linearizable subscribeAndMatch .empty th') ∧
    ∃ th th', undisturbed bothAtChild = some th ∧
      Interleaves (walkStep subscribeAndMatch) th (true, ()) th' ∧
      ¬ Linearizable subscribeAndMatch .empty th' := by
  have hc := concrete_subscribeAndMatch
  refine ⟨?_, ?_, ?_⟩
  · obtain ⟨th, hth, hreturned⟩ := exists_of_any (x := undisturbed linkFirst)
      (P := fun th => th.shared.returned = [(false, []), (true, [⟨⟨[65], 1⟩, 1⟩])])
      (by decide +kernel)
    exact ⟨th, hth, (linearizable_of_run hc (run_of_undisturbed hth)).1, hreturned⟩
  · obtain ⟨th, hth, hfalse, htrue, hnext⟩ := exists_of_any (x := undisturbed bothMissing)
      (P := fun th => th.own false = .standing ⟨[slash], 1⟩ [] ∧
        th.own true = .missing ⟨[], 0⟩ slash [] ∧
        (th.next (walkStep subscribeAndMatch) (true, ())).isSome)
      (by decide +kernel)
    obtain ⟨th', hth'⟩ := Option.isSome_iff_exists.1 hnext
    refine ⟨th, th', hth, .of_next hth', fun hlin => ?_⟩
    -- the first call stands at the child
    refine ((linearizable_of_run hc (run_of_undisturbed hth)).2 true th' (.of_next hth')).1 hlin ?_
    exact .inl ⟨_, _, _, htrue, [slash], List.prefix_refl _,
      .inl ⟨false, _, by rw [hfalse]; rfl, rfl⟩⟩
  · obtain ⟨th, hth, hcollides, hnext⟩ := exists_of_any (x := undisturbed bothAtChild)
      (P := fun th => Collides subscribeAndMatch th true ∧
        (th.next (walkStep subscribeAndMatch) (true, ())).isSome)
      (by decide +kernel)
    obtain ⟨th', hth'⟩ := Option.isSome_iff_exists.1 hnext
    refine ⟨th, th', hth, .of_next hth', fun hlin => ?_⟩
    exact ((linearizable_of_run hc (run_of_undisturbed hth)).2 true th' (.of_next hth')).1 hlin
      (.inr hcollides)

end Culex
