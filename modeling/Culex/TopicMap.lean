import Culex.Lib.Listing
import Culex.Overlaps

/-!
# The tree as a table

For topics and filters without wildcards the tree is a table: a topic's levels are the key of a row,
which has one subscription at most for each client.  Subscribing and unsubscribing change one
entry of it, whatever nodes and wildcard subscriptions there are (`table_calls`), and a match lists
a row (`refines_table`).
-/

namespace Culex

/-- What a call without wildcards does to the table of subscriptions. -/
def TreeCall.onTable (table : Table Path Bytes Subscription) :
    TreeCall → Table Path Bytes Subscription
  | subscribe filter session qos =>
    table.set (split filter) session.clientId (some ⟨session, qos⟩)
  | unsubscribe filter session => table.set (split filter) session.clientId none
  | .match _ => table

namespace TopicTree

/-- The subscriptions by path and client id. -/
def table (tree : TopicTree) : Table Path Bytes Subscription :=
  fun path clientId => (tree.root.subsAt path).lookup clientId

variable {tree : TopicTree} {filter topic : Bytes}

theorem mem_getNode_of_concrete (hf : Concrete filter) (path : Path) :
    path ∈ (tree.getNode filter).2 ↔ path = split filter :=
  ((tree.getNode_visited filter).mem path).trans (reaches_literal hf _ _)

/-- A walk without wildcards finds one node. -/
theorem getNode_of_concrete (hf : Concrete filter) : (tree.getNode filter).2 = [split filter] := by
  have hperm : (tree.getNode filter).2.Perm [split filter] := by
    rw [List.perm_ext_iff_of_nodup (tree.getNode_visited filter).nodup (List.nodup_singleton _)]
    intro path
    rw [mem_getNode_of_concrete hf, List.mem_singleton]
  exact hperm.eq_singleton

theorem table_match (topic : Bytes) : (tree.match topic).1.table = tree.table := by
  funext path clientId
  rw [table, tree.subsAt_match, table]

/-- Changing one client's entry at one node sets one entry of the table. -/
theorem table_set {tree' : TopicTree} {node : Path} {clientId : Bytes}
    {entry : Option Subscription} (subs : Subscribers) (hnode : tree'.root.subsAt node = subs)
    (hother : ∀ path ≠ node, tree'.root.subsAt path = tree.root.subsAt path)
    (hentry : subs.lookup clientId = entry)
    (hrest : ∀ c ≠ clientId, subs.lookup c = (tree.root.subsAt node).lookup c) :
    tree'.table = tree.table.set node clientId entry := by
  funext path c
  by_cases hp : path = node
  · subst hp
    rw [table, hnode, Table.set_self]
    by_cases hc : c = clientId
    · rw [hc, hentry, Function.update_self]
    · rw [hrest c hc, Function.update_of_ne hc, table]
  · rw [Table.set_of_ne _ _ _ hp, table, hother path hp, table]

/-- Subscribing puts one entry in the table. -/
theorem table_subscribe (hf : Concrete filter) (session : SessionRef) (qos : UInt8) :
    (tree.subscribe filter session qos).table =
      tree.table.set (split filter) session.clientId (some ⟨session, qos⟩) := by
  refine table_set ((tree.root.subsAt (split filter)).insert session.clientId ⟨session, qos⟩) ?_
    (fun path hp => ?_) (AList.lookup_insert _) fun c hc => AList.lookup_insert_ne hc
  · rw [tree.subsAt_subscribe, if_pos ((mem_getNode_of_concrete hf _).2 rfl)]
  · rw [tree.subsAt_subscribe, if_neg fun h => hp ((mem_getNode_of_concrete hf _).1 h)]

/-- Unsubscribing takes it out. -/
theorem table_unsubscribe (hf : Concrete filter) (session : SessionRef) :
    (tree.unsubscribe filter session).table =
      tree.table.set (split filter) session.clientId none := by
  refine table_set ((tree.root.subsAt (split filter)).erase session.clientId) ?_
    (fun path hp => ?_) (AList.lookup_erase _ _) fun c hc => AList.lookup_erase_ne hc
  · rw [tree.subsAt_unsubscribe, if_pos ((mem_getNode_of_concrete hf _).2 rfl)]
  · rw [tree.subsAt_unsubscribe, if_neg fun h => hp ((mem_getNode_of_concrete hf _).1 h)]

/-- **The tree acts as the table** over calls without wildcards. -/
theorem table_calls {calls : List TreeCall} (h : ∀ op ∈ calls, Concrete op.topic) :
    (tree.calls calls).table = calls.foldl TreeCall.onTable tree.table := by
  induction calls generalizing tree with
  | nil => rfl
  | cons op calls ih =>
    have hcall : (tree.call op).table = op.onTable tree.table := by
      have hop := h op List.mem_cons_self
      cases op with
      | subscribe filter session qos => exact table_subscribe hop session qos
      | unsubscribe filter session => exact table_unsubscribe hop session
      | «match» topic => exact table_match topic
    rw [List.foldl_cons, ← hcall]
    exact ih fun op' hop' => h op' (List.mem_cons_of_mem _ hop')

/-- A match lists the subscriptions at one node. -/
theorem match_of_concrete (ht : Concrete topic) :
    (tree.match topic).2 = (tree.root.subsAt (split topic)).entries.map Sigma.snd := by
  have hm : (tree.match topic).2 = (tree.getNode topic).2.flatMap fun node =>
      ((tree.getNode topic).1.root.subsAt node).entries.map Sigma.snd := rfl
  rw [hm, getNode_of_concrete ht, List.flatMap_singleton,
    (tree.getNode_visited topic).grows.subsAt]

/-- **A match lists a row of the table.** -/
theorem Keyed.lists (h : tree.Keyed) (ht : Concrete topic) :
    Listing (fun sub => sub.session.clientId) (tree.table (split topic)) (tree.match topic).2 := by
  rw [match_of_concrete ht]
  set subs := tree.root.subsAt (split topic) with hsubs
  have hkey : ∀ e ∈ subs.entries, e.2.session.clientId = e.1 := by
    rintro ⟨clientId, sub⟩ he
    exact h _ _ _ (AList.mem_lookup_iff.2 he)
  constructor
  · -- the client ids are the keys
    have hmap : subs.entries.map ((fun sub => sub.session.clientId) ∘ Sigma.snd) = subs.keys :=
      List.map_congr_left hkey
    rw [List.map_map, hmap]
    exact subs.nodupKeys
  · intro sub
    rw [List.mem_map, table, ← hsubs]
    constructor
    · rintro ⟨⟨clientId, sub⟩, he, rfl⟩
      rw [hkey _ he]
      exact AList.mem_lookup_iff.2 he
    · intro hl
      exact ⟨_, AList.mem_lookup_iff.1 hl, rfl⟩

/-- A subscription or an unsubscription at other levels. -/
theorem match_eq_of_subsAt {tree' : TopicTree} (ht : Concrete topic)
    (h : tree'.root.subsAt (split topic) = tree.root.subsAt (split topic)) :
    (tree'.match topic).2 = (tree.match topic).2 := by
  rw [match_of_concrete ht, match_of_concrete ht, h]

end TopicTree

/-- **Without wildcards the tree is a table.**  Whatever calls there have been, a match lists no
client twice, a subscription and an unsubscription change the result of a match if their levels are
the topic's, and then only the client's entry, which becomes the one subscribed with or goes. -/
theorem refines_table (calls : List TreeCall) {filter topic : Bytes} (session : SessionRef)
    (qos : UInt8) (hf : Concrete filter) (ht : Concrete topic) :
    (((TopicTree.empty.calls calls).match topic).2.map (·.session.clientId)).Nodup ∧
      (split topic ≠ split filter →
        (((TopicTree.empty.calls calls).subscribe filter session qos).match topic).2 =
            ((TopicTree.empty.calls calls).match topic).2 ∧
          (((TopicTree.empty.calls calls).unsubscribe filter session).match topic).2 =
            ((TopicTree.empty.calls calls).match topic).2) ∧
      (split topic = split filter →
        (((TopicTree.empty.calls calls).subscribe filter session qos).match topic).2.Perm
            (⟨session, qos⟩ :: ((TopicTree.empty.calls calls).match topic).2.filter
              (·.session.clientId ≠ session.clientId)) ∧
          (((TopicTree.empty.calls calls).unsubscribe filter session).match topic).2.Perm
            (((TopicTree.empty.calls calls).match topic).2.filter
              (·.session.clientId ≠ session.clientId))) := by
  have hk := TopicTree.keyed_calls calls
  set tree := TopicTree.empty.calls calls with htree
  have hlist := hk.lists ht
  refine ⟨hlist.nodup, fun hne => ?_, fun heq => ?_⟩
  · have hnot : split topic ∉ (tree.getNode filter).2 := fun h =>
      hne ((TopicTree.mem_getNode_of_concrete hf _).1 h)
    constructor
    · refine TopicTree.match_eq_of_subsAt ht ?_
      rw [tree.subsAt_subscribe, if_neg hnot]
    · refine TopicTree.match_eq_of_subsAt ht ?_
      rw [tree.subsAt_unsubscribe, if_neg hnot]
  · -- both lists are the rows of the tables afterwards
    constructor
    · have hafter := (hk.call (.subscribe filter session qos)).lists ht
      refine hafter.perm ?_
      show Listing _ ((tree.subscribe filter session qos).table (split topic)) _
      rw [TopicTree.table_subscribe hf, ← heq, Table.set_self]
      exact hlist.put ⟨session, qos⟩
    · have hafter := (hk.call (.unsubscribe filter session)).lists ht
      refine hafter.perm ?_
      show Listing _ ((tree.unsubscribe filter session).table (split topic)) _
      rw [TopicTree.table_unsubscribe hf, ← heq, Table.set_self]
      exact hlist.remove session.clientId

/-- `"/a/b"` subscribed by a client that a wildcard subscription has put at its node. -/
theorem refines_table_wildcard :
    (((TopicTree.empty.calls [.match topicAB, .subscribe filterAPlus someClient 1]).subscribe
        topicAB ⟨someClient.clientId, 7⟩ 2).match topicAB).2.Perm
      (⟨⟨someClient.clientId, 7⟩, 2⟩ :: (((TopicTree.empty.calls [.match topicAB,
        .subscribe filterAPlus someClient 1]).match topicAB).2.filter
          (·.session.clientId ≠ someClient.clientId))) :=
  ((refines_table [.match topicAB, .subscribe filterAPlus someClient 1] ⟨someClient.clientId, 7⟩ 2
    (by decide) (by decide)).2.2 rfl).1

end Culex
