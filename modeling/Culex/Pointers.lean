import Culex.Observing

/-!
# Walks over pointers

The functions of `topictree.cpp` on the one tree they share, through pointers into it.  A `Walk` is
the tree with the vector of pointers that a function appends to, and notes the keys that `getLink`
is asked for in vain, where it leaves a null pointer behind.  Nothing here relies on the tree being
well-formed, and the order of the links is any order (`LinkOrder`).

* `Walk.getLink`, `Walk.handleWildCard`, `Walk.getNode` and the calls of the tree;
* `WellFormed.exists_lists`: what `handleWildCard` does at a well-formed node of any tree;
* `handleWildCard_exact`: it appends the node and its descendants once each, a node before its
  descendants, and leaves the tree alone.
-/

namespace Culex

open Node

/-- The order in which `getLinkTopics` goes through the links of a node. -/
structure LinkOrder where
  topics : Node → List Bytes
  perm : ∀ n, (topics n).Perm n.links.keys

/-- What ends a walk. -/
inductive WalkFault
  /-- A pointer to no node is dereferenced. -/
  | nullNode
  /-- The recursion goes deeper than it may. -/
  | endless
  deriving DecidableEq

/-- A `Node*`: the path of a node, or the null pointer. -/
abbrev NodePtr := Option Path

/-- The state of a walk. -/
structure Walk where
  root : Node
  vec : List NodePtr := []
  /-- The keys that `getLink` has not found, with the nodes that it has inserted them at. -/
  missed : List (Path × Bytes) := []

namespace Walk

/-- The node behind a pointer, with its path. -/
def deref (w : Walk) (ptr : NodePtr) : Except WalkFault (Path × Node) :=
  match ptr with
  | none => .error .nullNode
  | some path =>
    match w.root.find path with
    | none => .error .nullNode
    | some n => .ok (path, n)

/-- `vec.push_back`. -/
def push (w : Walk) (ptr : NodePtr) : Walk := { w with vec := w.vec ++ [ptr] }

/-- `addLink` at the node with a path. -/
def addLink (w : Walk) (path : Path) (str : Bytes) : Walk :=
  { w with root := w.root.modify (·.addLink str) path }

/-- `getLink` at the node behind a pointer.  An absent key is inserted with a null pointer. -/
def getLink (w : Walk) (ptr : NodePtr) (str : Bytes) : Except WalkFault (Walk × NodePtr) := do
  let (path, n) ← w.deref ptr
  match n.links.dlookup str with
  | some link => return (w, link.map fun _ => path ++ [str])
  | none =>
    return ({ w with
      root := w.root.modify (·.setLink str none) path
      missed := w.missed ++ [(path, str)] }, none)

variable (o : LinkOrder)

/-- One round of the loop of `handleWildCard`; the flag says whether `root` has been pushed, and
`visit` is the recursive call. -/
def wildCardRound (visit : NodePtr → List Bytes → Walk → Except WalkFault Walk) (root : NodePtr)
    (x : Walk × Bool) (subTopic : Bytes) : Except WalkFault (Walk × Bool) := do
  let (w, pushed) := x
  let (w, nextLink) ← w.getLink root subTopic
  let (_, next) ← w.deref nextLink
  let linkTopics := o.topics next
  let w := if pushed then w else w.push root
  let w ← visit nextLink linkTopics w
  return (w, true)

/-- Append the nodes below `root`.  The first argument bounds the depth of the recursion. -/
def handleWildCard : ℕ → NodePtr → List Bytes → Walk → Except WalkFault Walk
  | 0, _, _, _ => .error .endless
  | depth + 1, root, subTopics, w => do
    let w := if subTopics.isEmpty then w.push root else w
    let (w, _) ← subTopics.foldlM (wildCardRound o (handleWildCard depth) root) (w, false)
    return w

/-- Append the nodes that a topic or filter leads to from `root` on. -/
def getNode (depth : ℕ) : List Bytes → NodePtr → Walk → Except WalkFault Walk
  | [], root, w => .ok (w.push root)
  | word :: words, root, w =>
    if word = plus ∨ word = hash then do
      let (_, n) ← w.deref root
      let linkTopics := o.topics n
      if linkTopics ≠ [] then
        if word = plus then
          linkTopics.foldlM (fun w topic => do
            let (w, next) ← w.getLink root topic
            getNode depth words next w) w
        else
          handleWildCard o depth root linkTopics w
      else
        return w
    else do
      let (path, n) ← w.deref root
      let w := if n.ispresent word then w else w.addLink path word
      let (w, next) ← w.getLink root word
      getNode depth words next w

/-- Change the node behind each pointer that has been found. -/
def forNodes (f : Node → Node) (ptrs : List NodePtr) (w : Walk) : Except WalkFault Walk :=
  ptrs.foldlM (fun w ptr => do
    let (path, _) ← w.deref ptr
    return { w with root := w.root.modify f path }) w

/-- The subscriptions at the node behind each pointer. -/
def subscriptions (ptrs : List NodePtr) (w : Walk) : Except WalkFault (List Subscription) :=
  ptrs.foldlM (fun result ptr => do
    let (_, node) ← w.deref ptr
    return result ++ node.subscribers.entries.map Sigma.snd) []

/-- `getNode` from the root, with an empty vector. -/
def fromRoot (depth : ℕ) (topic : Bytes) (w : Walk) : Except WalkFault Walk :=
  getNode o depth (split topic) (some []) { w with vec := [] }

def «match» (depth : ℕ) (topic : Bytes) (w : Walk) :
    Except WalkFault (Walk × List Subscription) := do
  let w ← fromRoot o depth topic w
  let result ← subscriptions w.vec w
  return (w, result)

def subscribe (depth : ℕ) (topic : Bytes) (session : SessionRef) (qos : UInt8) (w : Walk) :
    Except WalkFault Walk := do
  let w ← fromRoot o depth topic w
  forNodes (·.subscribe session qos) w.vec w

def unsubscribe (depth : ℕ) (topic : Bytes) (session : SessionRef) (w : Walk) :
    Except WalkFault Walk := do
  let w ← fromRoot o depth topic w
  forNodes (·.unsubscribe session) w.vec w

/-- One call of the tree. -/
def call (depth : ℕ) (w : Walk) : TreeCall → Except WalkFault Walk
  | .subscribe filter session qos => subscribe o depth filter session qos w
  | .unsubscribe filter session => unsubscribe o depth filter session w
  | .match topic => do
    let (w, _) ← Walk.match o depth topic w
    return w

/-- Several calls. -/
def calls (depth : ℕ) (ops : List TreeCall) (w : Walk) : Except WalkFault Walk :=
  ops.foldlM (call o depth) w

/-- `TopicTree()`: a root node without links. -/
def start : Walk := { root := new [42] }

end Walk

/-! ### Nodes behind pointers -/

section Pointers

variable {w : Walk} {n c : Node} {ptr : Path} {str : Bytes}

theorem deref_of_find (h : w.root.find ptr = some n) : w.deref (some ptr) = .ok (ptr, n) := by
  unfold Walk.deref
  simp only [h]

/-- The key is there, and so is the child. -/
theorem getLink_of_child (h : w.root.find ptr = some n) (hc : n.child str = some c) :
    w.getLink (some ptr) str = .ok (w, some (ptr ++ [str])) := by
  unfold Walk.getLink
  rw [deref_of_find h]
  show (match n.links.dlookup str with
    | some link => _
    | none => _) = _
  rw [dlookup_of_child hc]
  rfl

theorem find_snoc (h : w.root.find ptr = some n) (hc : n.child str = some c) :
    w.root.find (ptr ++ [str]) = some c := by
  rw [find_append, h]
  show n.find [str] = some c
  rw [find_cons, hc]
  rfl

end Pointers

/-! ### The nodes below a node -/

/-- The nodes of a tree are less deep than a bound. -/
def Node.ShallowerThan (n : Node) (depth : ℕ) : Prop :=
  ∀ path, (n.find path).isSome → path.length < depth

namespace Node

variable {n c : Node} {str : Bytes} {depth : ℕ}

theorem ShallowerThan.pos (h : n.ShallowerThan depth) : 0 < depth := h [] rfl

theorem ShallowerThan.of_child (h : n.ShallowerThan (depth + 1)) (hc : n.child str = some c) :
    c.ShallowerThan depth := by
  intro path hp
  have hlt := h (str :: path) (isSome_find_cons.2 ⟨c, hc, hp⟩)
  rw [List.length_cons] at hlt
  omega

theorem length_le_weight (path : Path) : path.length ≤ weight path := by
  induction path with
  | nil => exact Nat.zero_le _
  | cons str path ih =>
    have hw : weight (str :: path) = str.length + 1 + weight path := rfl
    rw [List.length_cons]
    omega

theorem WellFormed.exists_depth (h : n.WellFormed) :
    ∃ depth, ∀ depth', depth ≤ depth' → n.ShallowerThan depth' := by
  obtain ⟨bound, hbound⟩ := h.exists_bound
  refine ⟨bound + 1, fun depth' hle path hp => ?_⟩
  have hlen := length_le_weight path
  have hweight := hbound path hp
  omega

end Node

/-- What `handleWildCard` appends at a node: the paths of the nodes below it, itself included. -/
structure Below (n : Node) (paths : List Path) : Prop where
  mem : ∀ path, path ∈ paths ↔ (n.find path).isSome
  /-- No node comes after one of its descendants. -/
  ordered : paths.Pairwise fun p q => ¬ q <+: p

theorem Below.nodup {n : Node} {paths : List Path} (h : Below n paths) : paths.Nodup := by
  refine h.ordered.imp fun hpq he => hpq ?_
  rw [he]

namespace Walk

variable {o : LinkOrder} {n : Node} {ptr : Path}

/-- The walk with the nodes at some paths below a node appended. -/
def append (w : Walk) (ptr : Path) (paths : List Path) : Walk :=
  { w with vec := w.vec ++ paths.map fun path => some (ptr ++ path) }

theorem push_eq (w : Walk) (ptr : Path) : w.push (some ptr) = w.append ptr [[]] := by
  unfold push append
  rw [List.map_singleton, List.append_nil]

theorem append_nil (w : Walk) (ptr : Path) : w.append ptr [] = w := by
  unfold append
  rw [List.map_nil, List.append_nil]

theorem append_append (w : Walk) (ptr : Path) (paths paths' : List Path) :
    (w.append ptr paths).append ptr paths' = w.append ptr (paths ++ paths') := by
  unfold append
  rw [List.map_append, List.append_assoc]

theorem append_snoc (w : Walk) (ptr : Path) (str : Bytes) (paths : List Path) :
    w.append (ptr ++ [str]) paths = w.append ptr (paths.map (str :: ·)) := by
  unfold append
  simp only [List.map_map, List.append_assoc, List.singleton_append]
  rfl

/-- `handleWildCard` at the node, in any tree, appends the paths and does nothing else. -/
def Lists (o : LinkOrder) (n : Node) (paths : List Path) : Prop :=
  ∀ depth, n.ShallowerThan depth → ∀ (w : Walk) (ptr : Path), w.root.find ptr = some n →
    handleWildCard o depth (some ptr) (o.topics n) w = .ok (w.append ptr paths)

section Rounds

variable {w : Walk} {c : Node} {str : Bytes} {below : List Path} {depth : ℕ} {pushed : Bool}

/-- A round appends the node, if it is the first one, and then what is below the child. -/
theorem wildCardRound_of_child (hn : w.root.find ptr = some n) (hc : n.child str = some c)
    (hlists : Lists o c below) (hdepth : c.ShallowerThan depth) :
    wildCardRound o (handleWildCard o depth) (some ptr) (w, pushed) str =
      .ok (w.append ptr ((if pushed then [] else [[]]) ++ below.map (str :: ·)), true) := by
  have hfind := find_snoc hn hc
  have hw : (if pushed then w else w.push (some ptr)) =
      w.append ptr (if pushed then [] else [[]]) := by
    split_ifs
    · rw [append_nil]
    · rw [push_eq]
  have hvisit := hlists depth hdepth (w.append ptr (if pushed then [] else [[]])) _ hfind
  unfold wildCardRound
  simp only [getLink_of_child hn hc, ok_bind, deref_of_find hfind, hw]
  rw [hvisit, append_snoc, append_append]
  rfl

/-- The loop over links whose nodes below are known. -/
theorem foldlM_wildCardRound {child : Bytes → Node} {belowOf : Bytes → List Path}
    (hn : w.root.find ptr = some n) {topics : List Bytes}
    (hc : ∀ str ∈ topics, n.child str = some (child str))
    (hlists : ∀ str ∈ topics, Lists o (child str) (belowOf str))
    (hdepth : ∀ str ∈ topics, (child str).ShallowerThan depth) :
    topics.foldlM (wildCardRound o (handleWildCard o depth) (some ptr)) (w, true) =
      .ok (w.append ptr (topics.flatMap fun str => (belowOf str).map (str :: ·)), true) := by
  induction topics generalizing w with
  | nil =>
    rw [List.foldlM_nil, List.flatMap_nil, append_nil]
    rfl
  | cons str topics ih =>
    have hfirst := @wildCardRound_of_child o n ptr w (child str) str (belowOf str) depth true hn
      (hc str List.mem_cons_self) (hlists str List.mem_cons_self) (hdepth str List.mem_cons_self)
    have hrest := @ih (w.append ptr ((belowOf str).map (str :: ·))) hn
      (fun s hs => hc s (List.mem_cons_of_mem _ hs))
      (fun s hs => hlists s (List.mem_cons_of_mem _ hs))
      (fun s hs => hdepth s (List.mem_cons_of_mem _ hs))
    rw [if_pos rfl, List.nil_append] at hfirst
    rw [List.foldlM_cons, hfirst, ok_bind, hrest, append_append, List.flatMap_cons]

/-- The node first, and then what is below each child. -/
theorem lists_cons {child : Bytes → Node} {belowOf : Bytes → List Path}
    (hc : ∀ str ∈ o.topics n, n.child str = some (child str))
    (hlists : ∀ str ∈ o.topics n, Lists o (child str) (belowOf str)) :
    Lists o n ([] :: (o.topics n).flatMap fun str => (belowOf str).map (str :: ·)) := by
  intro depth hdepth w ptr hn
  obtain ⟨depth, rfl⟩ := Nat.exists_eq_succ_of_ne_zero hdepth.pos.ne'
  have hdepth' : ∀ str ∈ o.topics n, (child str).ShallowerThan depth :=
    fun str hs => hdepth.of_child (hc str hs)
  rw [handleWildCard]
  cases ht : o.topics n with
  | nil =>
    -- a leaf is pushed before the loop
    rw [List.flatMap_nil, ← push_eq]
    rfl
  | cons str topics =>
    rw [ht] at hc hlists hdepth'
    have hfirst := @wildCardRound_of_child o n ptr w (child str) str (belowOf str) depth false hn
      (hc str List.mem_cons_self) (hlists str List.mem_cons_self) (hdepth' str List.mem_cons_self)
    have hrest := @foldlM_wildCardRound o n ptr
      (w.append ptr ([[]] ++ (belowOf str).map (str :: ·))) depth child belowOf hn topics
      (fun s hs => hc s (List.mem_cons_of_mem _ hs))
      (fun s hs => hlists s (List.mem_cons_of_mem _ hs))
      (fun s hs => hdepth' s (List.mem_cons_of_mem _ hs))
    show ((str :: topics).foldlM (wildCardRound o (handleWildCard o depth) (some ptr)) (w, false)
      >>= fun x => pure x.1) = _
    rw [List.foldlM_cons, hfirst, ok_bind]
    show (topics.foldlM _ (w.append ptr ([[]] ++ (belowOf str).map (str :: ·)), true)
      >>= fun x => pure x.1) = _
    rw [hrest, append_append, List.flatMap_cons]
    rfl

end Rounds

end Walk

/-! ### What is listed -/

namespace Node

variable {o : LinkOrder} {n : Node}

theorem below_cons (h : n.WellFormed) {child : Bytes → Node} {belowOf : Bytes → List Path}
    (hc : ∀ str ∈ o.topics n, n.child str = some (child str))
    (hbelow : ∀ str ∈ o.topics n, Below (child str) (belowOf str)) :
    Below n ([] :: (o.topics n).flatMap fun str => (belowOf str).map (str :: ·)) where
  mem path := by
    cases path with
    | nil => simp
    | cons str path =>
      rw [List.mem_cons, List.mem_flatMap, or_iff_right (List.cons_ne_nil str path)]
      constructor
      · rintro ⟨s, hs, hp⟩
        obtain ⟨q, hq, he⟩ := List.mem_map.1 hp
        obtain ⟨rfl, rfl⟩ := List.cons.inj he
        exact isSome_find_cons.2 ⟨child s, hc s hs, ((hbelow s hs).mem q).1 hq⟩
      · intro hp
        obtain ⟨c, hc', hp⟩ := isSome_find_cons.1 hp
        have hs : str ∈ o.topics n := (o.perm n).mem_iff.2 (mem_keys_of_child hc')
        obtain rfl := Option.some.inj ((hc str hs).symm.trans hc')
        exact ⟨str, hs, List.mem_map_of_mem (((hbelow str hs).mem path).2 hp)⟩
  ordered := by
    rw [List.pairwise_cons]
    constructor
    · intro q hq hprefix
      obtain ⟨str, -, hq⟩ := List.mem_flatMap.1 hq
      obtain ⟨p, -, rfl⟩ := List.mem_map.1 hq
      exact List.cons_ne_nil _ _ (List.prefix_nil.1 hprefix)
    · rw [List.pairwise_flatMap]
      constructor
      · intro str hs
        rw [List.pairwise_map]
        refine (hbelow str hs).ordered.imp fun hpq hprefix => hpq ?_
        exact (List.cons_prefix_cons.1 hprefix).2
      · have hnodup : (o.topics n).Nodup := (o.perm n).nodup_iff.2 h.nodup
        refine hnodup.imp fun hne p hp q hq hprefix => ?_
        obtain ⟨p', -, rfl⟩ := List.mem_map.1 hp
        obtain ⟨q', -, rfl⟩ := List.mem_map.1 hq
        exact hne (List.cons_prefix_cons.1 hprefix).1.symm

/-- **What `handleWildCard` lists** at a well-formed node. -/
theorem WellFormed.exists_lists (o : LinkOrder) (h : n.WellFormed) :
    ∃ paths, Walk.Lists o n paths ∧ Below n paths := by
  induction h with
  | @mk level links subscribers hnodup hkey hlink hchild ih =>
    set n : Node := .mk level links subscribers with hn
    have hwf : WellFormed n := ⟨hnodup, hkey, hlink, hchild⟩
    -- what is listed below each child, by induction
    have hex : ∀ str ∈ o.topics n, ∃ c paths, n.child str = some c ∧ Walk.Lists o c paths ∧
        Below c paths := by
      intro str hs
      obtain ⟨c, hc, -⟩ := hwf.exists_child ((o.perm n).mem_iff.1 hs)
      obtain ⟨paths, hlists, hbelow⟩ := ih str c (dlookup_of_child hc)
      exact ⟨c, paths, hc, hlists, hbelow⟩
    have : Nonempty Node := ⟨n⟩
    choose! child belowOf hc hlists hbelow using hex
    exact ⟨_, Walk.lists_cons hc hlists, below_cons hwf hc hbelow⟩

end Node

/-- The links in the order in which a node lists them. -/
def LinkOrder.listed : LinkOrder := ⟨fun n => n.links.keys, fun _ => .refl _⟩

/-- **`handleWildCard` enumerates a subtree.**  At a well-formed node of any tree it ends, given
depth enough, and does nothing but append pointers: to the node and each of its descendants, once
each, and to none of them after one of its own descendants. -/
theorem handleWildCard_exact (o : LinkOrder) {w : Walk} {ptr : Path} {r : Node}
    (hfind : w.root.find ptr = some r) (hr : r.WellFormed) :
    ∃ (depth : ℕ) (paths : List Path),
      (∀ depth', depth ≤ depth' → Walk.handleWildCard o depth' (some ptr) (o.topics r) w =
        .ok { w with vec := w.vec ++ paths.map some }) ∧
      (∀ path, path ∈ paths ↔ ∃ rest, path = ptr ++ rest ∧ (r.find rest).isSome) ∧
      paths.Nodup ∧ paths.Pairwise fun p q => ¬ q <+: p := by
  obtain ⟨paths, hlists, hbelow⟩ := hr.exists_lists o
  obtain ⟨depth, hdepth⟩ := hr.exists_depth
  have hordered : (paths.map (ptr ++ ·)).Pairwise fun p q => ¬ q <+: p := by
    rw [List.pairwise_map]
    refine hbelow.ordered.imp fun hpq hprefix => hpq ?_
    exact (List.prefix_append_right_inj ptr).1 hprefix
  refine ⟨depth, paths.map (ptr ++ ·), fun depth' hle => ?_, fun path => ?_, ?_, hordered⟩
  · rw [hlists depth' (hdepth depth' hle) w ptr hfind, List.map_map]
    rfl
  · rw [List.mem_map]
    constructor
    · rintro ⟨rest, hrest, rfl⟩
      exact ⟨rest, rfl, (hbelow.mem rest).1 hrest⟩
    · rintro ⟨rest, rfl, hrest⟩
      exact ⟨rest, (hbelow.mem rest).2 hrest, rfl⟩
  · exact hbelow.nodup.map (List.append_right_injective ptr)

/-- A tree after three matches, from its root on, behind a pointer that is there already. -/
def branchedWalk : Walk :=
  ⟨(TopicTree.empty.calls [.match topicAB, .match [47, 97, 47, 99], .match [47, 100]]).root,
    [none], []⟩

/-- Two of its nodes branch. -/
theorem handleWildCard_exact_branched :
    branchedWalk.root.WellFormed ∧ ∃ (depth : ℕ) (paths : List Path),
      (∀ depth', depth ≤ depth' → Walk.handleWildCard .listed depth' (some [])
        (LinkOrder.listed.topics branchedWalk.root) branchedWalk =
          .ok { branchedWalk with vec := branchedWalk.vec ++ paths.map some }) ∧
      (∀ path ∈ [[], [slash], [slash, [97]], [slash, [97], [98]], [slash, [97], [99]],
        [slash, [100]]], path ∈ paths) ∧
      paths.Nodup ∧ paths.Pairwise fun p q => ¬ q <+: p := by
  have hwf : branchedWalk.root.WellFormed := (TopicTree.empty.calls _).wellFormed
  obtain ⟨depth, paths, hwalk, hmem, hnodup, hordered⟩ :=
    @handleWildCard_exact .listed branchedWalk [] _ rfl hwf
  refine ⟨hwf, depth, paths, hwalk, fun path hpath => (hmem path).2 ⟨path, rfl, ?_⟩, hnodup,
    hordered⟩
  revert path
  decide +kernel

end Culex
