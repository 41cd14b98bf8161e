import Culex.ClientSession

/-!
# Nodes of the topic tree

`Node` of `topictree.h`.  A node owns its children through its links; a link can hold a null
pointer, which `getLink` leaves behind when it is asked for an absent key.  A `Node*` is the `Path`
of the node from the root.  `Node.WellFormed` trees have no null link and no wildcard level, and
`Grows` says that one tree is another one with empty nodes added.

The links and the subscribers of a node are listed in the order in which the source iterates over
its unordered maps, which is unspecified there.
-/

namespace Culex

/-- `"+"`, `"#"` and `"/"`. -/
def plus : Bytes := [43]
def hash : Bytes := [35]
def slash : Bytes := [47]

/-- A client's subscription at a node. -/
structure Subscription where
  session : SessionRef
  qos : UInt8
  deriving DecidableEq

/-- The subscriptions at a node, by client id. -/
abbrev Subscribers := AList fun _ : Bytes => Subscription

/-- A node of the topic tree. -/
inductive Node
  | mk (level : Bytes) (links : List (Σ _ : Bytes, Option Node)) (subscribers : Subscribers)

/-- A node, by the keys of the links that lead to it. -/
abbrev Path := List Bytes

namespace Node

/-- The string identifier of the topic level. -/
def level : Node → Bytes
  | mk level _ _ => level

/-- The children, by topic level. -/
def links : Node → List (Σ _ : Bytes, Option Node)
  | mk _ links _ => links

def subscribers : Node → Subscribers
  | mk _ _ subscribers => subscribers

/-- A new node at a topic level. -/
def new (level : Bytes) : Node := mk level [] ∅

/-- The child under a key, if there is one. -/
def child (n : Node) (str : Bytes) : Option Node := (n.links.dlookup str).join

/-- Assign to a link. -/
def setLink (n : Node) (str : Bytes) (link : Option Node) : Node :=
  mk n.level (n.links.kinsert str link) n.subscribers

def ispresent (n : Node) (str : Bytes) : Bool := (n.links.dlookup str).isSome

/-- Add a new child. -/
def addLink (n : Node) (str : Bytes) : Node := n.setLink str (some (new str))

/-- The pointer to a child.  An absent key is inserted with a null pointer. -/
def getLink (n : Node) (str : Bytes) : Node × Option Node :=
  match n.links.dlookup str with
  | some link => (n, link)
  | none => (n.setLink str none, none)

def getLinkTopics (n : Node) : List Bytes := n.links.keys

/-- Add a client's subscription to this node; an earlier one of the client is replaced. -/
def subscribe (n : Node) (session : SessionRef) (qos : UInt8) : Node :=
  mk n.level n.links (n.subscribers.insert session.clientId ⟨session, qos⟩)

/-- Remove a client's subscription from this node. -/
def unsubscribe (n : Node) (session : SessionRef) : Node :=
  mk n.level n.links (n.subscribers.erase session.clientId)

/-- The node a pointer stands for. -/
def find : Node → Path → Option Node
  | n, [] => some n
  | n, str :: path => (n.child str).bind fun c => c.find path

/-- Change the node a pointer stands for. -/
def modify (f : Node → Node) : Path → Node → Node
  | [], n => f n
  | str :: path, n =>
    match n.child str with
    | some c => n.setLink str (some (modify f path c))
    | none => n

theorem sizeOf_of_dlookup {links : List (Σ _ : Bytes, Option Node)} {str : Bytes} {c : Node}
    (h : links.dlookup str = some (some c)) : sizeOf c < sizeOf links := by
  induction links with
  | nil => cases h
  | cons s links ih =>
    obtain ⟨key, link⟩ := s
    by_cases hk : str = key
    · subst hk
      rw [List.dlookup_cons_eq] at h
      cases h
      simp only [List.cons.sizeOf_spec, Sigma.mk.sizeOf_spec, Option.some.sizeOf_spec]
      omega
    · rw [List.dlookup_cons_ne _ _ hk] at h
      have := ih h
      simp only [List.cons.sizeOf_spec]
      omega

theorem dlookup_of_child {n c : Node} {str : Bytes} (h : n.child str = some c) :
    n.links.dlookup str = some (some c) := by
  unfold child at h
  cases hl : n.links.dlookup str with
  | none => rw [hl] at h; cases h
  | some link =>
    rw [hl] at h
    exact congrArg some h

theorem mem_keys_of_child {n c : Node} {str : Bytes} (h : n.child str = some c) :
    str ∈ n.links.keys := by
  rw [← List.dlookup_isSome, dlookup_of_child h]
  rfl

theorem sizeOf_child {n c : Node} {str : Bytes} (h : n.child str = some c) :
    sizeOf c < sizeOf n := by
  have := sizeOf_of_dlookup (dlookup_of_child h)
  obtain ⟨level, ls, subscribers⟩ := n
  have hls : (mk level ls subscribers).links = ls := rfl
  rw [hls] at this
  simp only [mk.sizeOf_spec]
  omega

/-! ### Links -/

variable {n c c' : Node} {str str' : Bytes} {path : Path}

@[simp] theorem level_setLink (n : Node) (str : Bytes) (link : Option Node) :
    (n.setLink str link).level = n.level := rfl

@[simp] theorem subscribers_setLink (n : Node) (str : Bytes) (link : Option Node) :
    (n.setLink str link).subscribers = n.subscribers := rfl

@[simp] theorem child_setLink_self (n : Node) (str : Bytes) (link : Option Node) :
    (n.setLink str link).child str = link := by
  show ((n.links.kinsert str link).dlookup str).join = link
  rw [List.dlookup_kinsert]
  rfl

theorem child_setLink_ne (n : Node) (link : Option Node) (h : str' ≠ str) :
    (n.setLink str link).child str' = n.child str' := by
  show ((n.links.kinsert str link).dlookup str').join = _
  rw [List.dlookup_kinsert_ne h]
  rfl

@[simp] theorem find_nil (n : Node) : n.find [] = some n := rfl

theorem find_cons (n : Node) (str : Bytes) (path : Path) :
    n.find (str :: path) = (n.child str).bind fun c => c.find path := rfl

theorem find_cons_of_child (h : n.child str = some c) : n.find (str :: path) = c.find path := by
  rw [find_cons, h]
  rfl

/-- The subscriptions at a node; none where there is no node. -/
def subsAt (n : Node) (path : Path) : Subscribers := ((n.find path).map subscribers).getD ∅

@[simp] theorem subsAt_nil (n : Node) : n.subsAt [] = n.subscribers := rfl

theorem subsAt_of_child (h : n.child str = some c) : n.subsAt (str :: path) = c.subsAt path := by
  unfold subsAt
  rw [find_cons_of_child h]

theorem subsAt_of_child_none (h : n.child str = none) : n.subsAt (str :: path) = ∅ := by
  unfold subsAt
  rw [find_cons, h]
  rfl

theorem subsAt_new (level : Bytes) (path : Path) : (new level).subsAt path = ∅ := by
  cases path with
  | nil => rfl
  | cons str path => exact subsAt_of_child_none rfl

/-! ### Well-formed trees -/

/-- Every link holds a child at its own level, and no link is a wildcard. -/
inductive WellFormed : Node → Prop
  | mk {level : Bytes} {links : List (Σ _ : Bytes, Option Node)} {subscribers : Subscribers}
    (nodup : links.NodupKeys)
    (key : ∀ str ∈ links.keys, str ≠ plus ∧ str ≠ hash)
    (link : ∀ str ∈ links.keys, ∃ c : Node, links.dlookup str = some (some c) ∧ c.level = str)
    (child : ∀ str c, links.dlookup str = some (some c) → WellFormed c) :
    WellFormed (.mk level links subscribers)

namespace WellFormed

theorem nodup (h : WellFormed n) : n.links.keys.Nodup := by
  obtain ⟨hnodup, -, -, -⟩ := h
  exact hnodup

theorem key_ne (h : WellFormed n) (hs : str ∈ n.links.keys) : str ≠ plus ∧ str ≠ hash := by
  obtain ⟨-, hkey, -, -⟩ := h
  exact hkey str hs

theorem exists_child (h : WellFormed n) (hs : str ∈ n.links.keys) :
    ∃ c, n.child str = some c ∧ c.level = str := by
  obtain ⟨-, -, hlink, -⟩ := h
  obtain ⟨c, hc, hlevel⟩ := hlink str hs
  exact ⟨c, congrArg Option.join hc, hlevel⟩

theorem of_child (h : WellFormed n) (hc : n.child str = some c) : WellFormed c := by
  have hl := dlookup_of_child hc
  obtain ⟨-, -, -, hchild⟩ := h
  exact hchild str c hl

theorem level_of_child (h : WellFormed n) (hc : n.child str = some c) : c.level = str := by
  obtain ⟨c', hc', hlevel⟩ := h.exists_child (mem_keys_of_child hc)
  rw [hc] at hc'
  cases hc'
  exact hlevel

theorem new (level : Bytes) : WellFormed (Node.new level) := by
  refine ⟨List.nodupKeys_nil, ?_, ?_, ?_⟩
  · intro str hs
    cases hs
  · intro str hs
    cases hs
  · intro str c hc
    cases hc

/-- Assigning a well-formed child to the link of its level. -/
theorem setLink (h : WellFormed n) (hc : WellFormed c) (hlevel : c.level = str)
    (hkey : str ≠ plus ∧ str ≠ hash) : WellFormed (n.setLink str (some c)) := by
  obtain ⟨level, links, subscribers⟩ := n
  obtain ⟨hnodup, hkeys, hlink, hchild⟩ := h
  refine ⟨List.kinsert_nodupKeys _ _ hnodup, ?_, ?_, ?_⟩
  · intro s hs
    rcases List.mem_keys_kinsert.1 hs with rfl | hs
    · exact hkey
    · exact hkeys s hs
  · intro s hs
    by_cases hss : s = str
    · subst hss
      exact ⟨c, List.dlookup_kinsert _, hlevel⟩
    · obtain ⟨c', hc', hl'⟩ := hlink s ((List.mem_keys_kinsert.1 hs).resolve_left hss)
      exact ⟨c', (List.dlookup_kinsert_ne hss).trans hc', hl'⟩
  · intro s c' hc'
    by_cases hss : s = str
    · subst hss
      have := (List.dlookup_kinsert _).symm.trans hc'
      cases this
      exact hc
    · exact hchild s c' ((List.dlookup_kinsert_ne hss).symm.trans hc')

theorem getLink_of_mem (h : WellFormed n) (hs : str ∈ n.links.keys) :
    n.getLink str = (n, n.child str) := by
  obtain ⟨c, hc, -⟩ := h.exists_child hs
  unfold getLink
  rw [dlookup_of_child hc, hc]

theorem ispresent_iff (h : WellFormed n) : n.ispresent str ↔ ∃ c, n.child str = some c := by
  unfold ispresent
  rw [List.dlookup_isSome]
  constructor
  · intro hs
    obtain ⟨c, hc, -⟩ := h.exists_child hs
    exact ⟨c, hc⟩
  · rintro ⟨c, hc⟩
    exact mem_keys_of_child hc

end WellFormed

/-! ### Growing trees -/

/-- `n'` is `n` with empty nodes added. -/
structure Grows (n n' : Node) : Prop where
  level : n'.level = n.level
  subsAt : ∀ path, n'.subsAt path = n.subsAt path
  find : ∀ path, (n.find path).isSome → (n'.find path).isSome

namespace Grows

theorem refl (n : Node) : Grows n n := ⟨rfl, fun _ => rfl, fun _ h => h⟩

theorem trans {n₁ n₂ n₃ : Node} (h : Grows n₁ n₂) (h' : Grows n₂ n₃) : Grows n₁ n₃ :=
  ⟨h'.level.trans h.level, fun path => (h'.subsAt path).trans (h.subsAt path),
    fun path hp => h'.find path (h.find path hp)⟩

theorem subscribers {n' : Node} (h : Grows n n') : n'.subscribers = n.subscribers := h.subsAt []

theorem setLink (hc : n.child str = some c) (h : Grows c c') :
    Grows n (n.setLink str (some c')) := by
  refine ⟨rfl, fun path => ?_, fun path hp => ?_⟩
  · cases path with
    | nil => rfl
    | cons s path =>
      by_cases hs : s = str
      · subst hs
        rw [subsAt_of_child (child_setLink_self _ _ _), subsAt_of_child hc, h.subsAt]
      · unfold Node.subsAt
        rw [find_cons, find_cons, child_setLink_ne _ _ hs]
  · cases path with
    | nil => rfl
    | cons s path =>
      by_cases hs : s = str
      · subst hs
        rw [find_cons_of_child hc] at hp
        rw [find_cons_of_child (child_setLink_self _ _ _)]
        exact h.find path hp
      · rw [find_cons, child_setLink_ne _ _ hs, ← find_cons]
        exact hp

theorem addLink (hc : n.child str = none) : Grows n (n.addLink str) := by
  refine ⟨rfl, fun path => ?_, fun path hp => ?_⟩
  · cases path with
    | nil => rfl
    | cons s path =>
      by_cases hs : s = str
      · subst hs
        rw [Node.addLink, subsAt_of_child (child_setLink_self _ _ _), subsAt_of_child_none hc,
          subsAt_new]
      · unfold Node.subsAt
        rw [find_cons, find_cons, Node.addLink, child_setLink_ne _ _ hs]
  · cases path with
    | nil => rfl
    | cons s path =>
      by_cases hs : s = str
      · subst hs
        rw [find_cons, hc] at hp
        cases hp
      · rw [find_cons, Node.addLink, child_setLink_ne _ _ hs, ← find_cons]
        exact hp

end Grows

/-! ### Changing the subscribers of a node -/

/-- `f` changes nothing but the subscribers of a node. -/
structure OnSubscribers (f : Node → Node) : Prop where
  level : ∀ n, (f n).level = n.level
  links : ∀ n, (f n).links = n.links

theorem OnSubscribers.subscribe (session : SessionRef) (qos : UInt8) :
    OnSubscribers fun n => n.subscribe session qos := ⟨fun _ => rfl, fun _ => rfl⟩

theorem OnSubscribers.unsubscribe (session : SessionRef) :
    OnSubscribers fun n => n.unsubscribe session := ⟨fun _ => rfl, fun _ => rfl⟩

variable {f : Node → Node}

/-- Changing the node at a path changes the subscriptions at that path only. -/
theorem subsAt_modify (hf : OnSubscribers f) (hp : (n.find path).isSome) (q : Path) :
    (modify f path n).subsAt q =
      if q = path then ((n.find path).map fun c => (f c).subscribers).getD ∅ else n.subsAt q := by
  induction path generalizing n q with
  | nil =>
    cases q with
    | nil => rfl
    | cons s q =>
      rw [if_neg (List.cons_ne_nil _ _)]
      show (f n).subsAt (s :: q) = _
      unfold Node.subsAt
      rw [find_cons, find_cons, child, child, hf.links]
  | cons str path ih =>
    cases hc : n.child str with
    | none =>
      rw [find_cons, hc] at hp
      cases hp
    | some c =>
      rw [find_cons_of_child hc] at hp
      have hm : modify f (str :: path) n = n.setLink str (some (modify f path c)) := by
        rw [modify, hc]
      rw [hm, find_cons_of_child hc]
      cases q with
      | nil => rfl
      | cons s q =>
        by_cases hs : s = str
        · subst hs
          rw [subsAt_of_child (child_setLink_self _ _ _), ih hp, subsAt_of_child hc]
          simp only [List.cons.injEq, true_and]
        · have hne : s :: q ≠ str :: path := fun h => hs (List.cons.inj h).1
          rw [if_neg hne]
          unfold Node.subsAt
          rw [find_cons, find_cons, child_setLink_ne _ _ hs]

theorem find_modify_isSome (hf : OnSubscribers f) (path q : Path) :
    ((modify f path n).find q).isSome = (n.find q).isSome := by
  induction path generalizing n q with
  | nil =>
    cases q with
    | nil => rfl
    | cons s q =>
      show ((f n).find (s :: q)).isSome = _
      rw [find_cons, find_cons, child, child, hf.links]
  | cons str path ih =>
    cases hc : n.child str with
    | none =>
      have hm : modify f (str :: path) n = n := by rw [modify, hc]
      rw [hm]
    | some c =>
      have hm : modify f (str :: path) n = n.setLink str (some (modify f path c)) := by
        rw [modify, hc]
      rw [hm]
      cases q with
      | nil => rfl
      | cons s q =>
        by_cases hs : s = str
        · subst hs
          rw [find_cons_of_child (child_setLink_self _ _ _), ih, find_cons_of_child hc]
        · rw [find_cons, find_cons, child_setLink_ne _ _ hs]

theorem level_modify (hf : OnSubscribers f) (path : Path) (n : Node) :
    (modify f path n).level = n.level := by
  cases path with
  | nil => exact hf.level n
  | cons str path =>
    cases hc : n.child str with
    | none => rw [modify, hc]
    | some c => rw [modify, hc, level_setLink]

theorem WellFormed.of_links {n' : Node} (h : WellFormed n) (hl : n'.links = n.links) :
    WellFormed n' := by
  obtain ⟨level', links', subscribers'⟩ := n'
  obtain ⟨hnodup, hkey, hlink, hchild⟩ := h
  change links' = _ at hl
  subst hl
  exact ⟨hnodup, hkey, hlink, hchild⟩

theorem WellFormed.modify (h : WellFormed n) (hf : OnSubscribers f) (path : Path) :
    WellFormed (modify f path n) := by
  induction path generalizing n with
  | nil => exact h.of_links (hf.links n)
  | cons str path ih =>
    cases hc : n.child str with
    | none =>
      rw [Node.modify, hc]
      exact h
    | some c =>
      rw [Node.modify, hc]
      refine h.setLink (ih (h.of_child hc)) ?_ (h.key_ne (mem_keys_of_child hc))
      rw [level_modify hf, h.level_of_child hc]

end Node

end Culex
