import Culex.Observing

/-!
# Overlapping filters of one client

A node keeps one entry for a client, so several of its filters that lead to the same node share it:
the last subscription decides the QoS, and removing one of them removes the entry.  `InForce` is
what the client has subscribed and not unsubscribed since, `Due` the QoS its filters give it for a
topic, and `tracked_iff` says which calls keep the two together.
-/

namespace Culex

open Node

/-- What a client asks for with a call: a filter, with a QoS if it subscribes. -/
def TreeCall.asks (clientId : Bytes) : TreeCall → Option (Bytes × Option UInt8)
  | .subscribe filter session qos =>
    if session.clientId = clientId then some (filter, some qos) else none
  | .unsubscribe filter session => if session.clientId = clientId then some (filter, none) else none
  | .match _ => none

/-- The QoS of each filter that is subscribed. -/
abbrev Filters := Bytes → Option UInt8

/-- The filters after a call. -/
def Filters.call (clientId : Bytes) (filters : Filters) (op : TreeCall) : Filters :=
  match op.asks clientId with
  | some (filter, qos) => Function.update filters filter qos
  | none => filters

/-- The filters that a client has subscribed and not unsubscribed since. -/
def InForce (clientId : Bytes) (calls : List TreeCall) : Filters :=
  calls.foldl (Filters.call clientId) fun _ => none

/-- The greatest QoS of the filters that match the topic. -/
structure Due (filters : Filters) (topic : Bytes) (qos : UInt8) : Prop where
  attained : ∃ filter, filters filter = some qos ∧ Matches filter topic
  greatest : ∀ filter qos', filters filter = some qos' → Matches filter topic → qos' ≤ qos

/-- A match of the topic finds the client exactly if one of its filters matches, and then with the
greatest QoS of these. -/
def Tracked (clientId topic : Bytes) (filters : Filters) (tree : TopicTree) : Prop :=
  ∀ qos, (clientId, qos) ∈ tree.pairs topic ↔ Due filters topic qos

/-- A client's entry that the call replaces is right: no other filter that matches asks for more,
and only filters that match are behind it. -/
def Overwrites (topic : Bytes) (filters : Filters) (filter : Bytes) (qos : Option UInt8) : Prop :=
  (∀ other ≠ filter, ∀ q ∈ filters other, Matches other topic → ∃ q' ∈ qos, q ≤ q') ∧
    ∀ q ∈ qos, Matches filter topic ∨ ∃ other ≠ filter, q ∈ filters other ∧ Matches other topic

/-- A client's entry that the call leaves is right: a filter that matches is asked for as before, or
is outdone by another one. -/
def Bypasses (topic : Bytes) (filters : Filters) (filter : Bytes) (qos : Option UInt8) : Prop :=
  Matches filter topic → filters filter = qos ∨
    ∃ other ≠ filter, ∃ q ∈ filters other, Matches other topic ∧
      (∀ q' ∈ qos, q' ≤ q) ∧ ∀ q' ∈ filters filter, q' ≤ q

/-- The call keeps the client's entry at the topic's node right, whether its filter leads to the
node or not. -/
def Fits (clientId topic : Bytes) (filters : Filters) (tree : TopicTree) (op : TreeCall) : Prop :=
  ∀ filter qos, op.asks clientId = some (filter, qos) →
    (tree.root.Reaches (split filter) (split topic) → Overwrites topic filters filter qos) ∧
      (¬ tree.root.Reaches (split filter) (split topic) → Bypasses topic filters filter qos)

/-! ### What is due -/

section Due

variable {filters : Filters} {topic filter : Bytes} {qos : Option UInt8} {q q' : UInt8}

theorem exists_due (hf : filters filter = some q) (hm : Matches filter topic) :
    ∃ q, Due filters topic q := by
  let asked : Set UInt8 := {q | ∃ filter, filters filter = some q ∧ Matches filter topic}
  obtain ⟨m, ⟨f, hfm, hmm⟩, hmax⟩ :=
    (measure fun q : UInt8 => 255 - q.toNat).wf.has_min asked ⟨q, filter, hf, hm⟩
  refine ⟨m, ⟨f, hfm, hmm⟩, fun f' q' hf' hm' => ?_⟩
  have hlt : ¬ (255 - q'.toNat < 255 - m.toNat) := hmax q' ⟨f', hf', hm'⟩
  have := q'.toNat_lt
  have := m.toNat_lt
  exact UInt8.le_iff_toNat_le.2 (by omega)

/-- What is due after a filter has been set. -/
theorem due_update_iff :
    Due (Function.update filters filter qos) topic q ↔
      ((q ∈ qos ∧ Matches filter topic) ∨
        ∃ other ≠ filter, q ∈ filters other ∧ Matches other topic) ∧
      (Matches filter topic → ∀ q' ∈ qos, q' ≤ q) ∧
      ∀ other ≠ filter, ∀ q' ∈ filters other, Matches other topic → q' ≤ q := by
  constructor
  · rintro ⟨⟨f, hf, hm⟩, hmax⟩
    refine ⟨?_, fun hm' q' hq' => ?_, fun other hne q' hq' hm' => ?_⟩
    · by_cases he : f = filter
      · subst he
        rw [Function.update_self] at hf
        exact .inl ⟨hf, hm⟩
      · rw [Function.update_of_ne he] at hf
        exact .inr ⟨f, he, hf, hm⟩
    · exact hmax filter q' ((Function.update_self _ _ _).trans hq') hm'
    · exact hmax other q' ((Function.update_of_ne hne _ _).trans hq') hm'
  · rintro ⟨hatt, hself, hother⟩
    refine ⟨?_, fun f q' hf hm => ?_⟩
    · rcases hatt with ⟨hq, hm⟩ | ⟨other, hne, hq, hm⟩
      · exact ⟨filter, (Function.update_self _ _ _).trans hq, hm⟩
      · exact ⟨other, (Function.update_of_ne hne _ _).trans hq, hm⟩
    · by_cases he : f = filter
      · subst he
        rw [Function.update_self] at hf
        exact hself hm q' hf
      · rw [Function.update_of_ne he] at hf
        exact hother f he q' hf hm

theorem overwrites_iff :
    Overwrites topic filters filter qos ↔
      ∀ q, q ∈ qos ↔ Due (Function.update filters filter qos) topic q := by
  constructor
  · rintro ⟨hother, hbehind⟩ q
    rw [due_update_iff]
    constructor
    · intro hq
      refine ⟨?_, fun _ q' hq' => ?_, fun other hne q' hq' hm => ?_⟩
      · rcases hbehind q hq with hm | h
        · exact .inl ⟨hq, hm⟩
        · exact .inr h
      · cases hq.symm.trans hq'
        exact UInt8.le_refl q
      · obtain ⟨q₁, hq₁, hle⟩ := hother other hne q' hq' hm
        cases hq.symm.trans hq₁
        exact hle
    · rintro ⟨⟨hq, -⟩ | ⟨other, hne, hq, hm⟩, hself, hmax⟩
      · exact hq
      · -- the entry is the greatest QoS, and another filter asks for it
        obtain ⟨q₁, hq₁, hle⟩ := hother other hne q hq hm
        have hge : q₁ ≤ q := by
          rcases hbehind q₁ hq₁ with hm₁ | ⟨f, hf, hq', hm'⟩
          · exact hself hm₁ q₁ hq₁
          · exact hmax f hf q₁ hq' hm'
        exact UInt8.le_antisymm hle hge ▸ hq₁
  · intro h
    refine ⟨fun other hne q hq hm => ?_, fun q hq => ?_⟩
    · have hother : Function.update filters filter qos other = some q :=
        (Function.update_of_ne hne _ _).trans hq
      obtain ⟨q', hdue⟩ := exists_due hother hm
      exact ⟨q', (h q').2 hdue, hdue.greatest other q hother hm⟩
    · rcases (due_update_iff.1 ((h q).1 hq)).1 with ⟨-, hm⟩ | hother
      · exact .inl hm
      · exact .inr hother

/-- Setting a filter to what it was, or one that does not match, changes nothing. -/
theorem due_update_of_irrelevant (h : Matches filter topic → filters filter = qos) :
    Due (Function.update filters filter qos) topic q ↔ Due filters topic q := by
  by_cases hm : Matches filter topic
  · rw [← h hm, Function.update_eq_self]
  · rw [due_update_iff]
    constructor
    · rintro ⟨hatt, -, hmax⟩
      obtain ⟨other, hne, hq, hmo⟩ := hatt.resolve_left fun h => hm h.2
      refine ⟨⟨other, hq, hmo⟩, fun f q' hf hmf => ?_⟩
      exact hmax f (fun he => hm (he ▸ hmf)) q' hf hmf
    · rintro ⟨⟨other, hq, hmo⟩, hmax⟩
      refine ⟨.inr ⟨other, fun he => hm (he ▸ hmo), hq, hmo⟩, fun h => absurd h hm, ?_⟩
      exact fun f _ q' hf hmf => hmax f q' hf hmf

/-- A filter that another one outdoes may be set to anything that is outdone as well. -/
theorem Due.of_outdone {filters' : Filters} {other : Bytes} {most : UInt8}
    (h : Due filters topic q) (hagree : ∀ f ≠ filter, filters' f = filters f) (hne : other ≠ filter)
    (hmost : filters other = some most) (hm : Matches other topic)
    (hold : ∀ q' ∈ filters filter, q' ≤ most) (hnew : ∀ q' ∈ filters' filter, q' ≤ most) :
    Due filters' topic q := by
  have hle : most ≤ q := h.greatest other most hmost hm
  constructor
  · obtain ⟨f, hf, hmf⟩ := h.attained
    by_cases he : f = filter
    · subst he
      obtain rfl := UInt8.le_antisymm (hold q hf) hle
      exact ⟨other, (hagree other hne).trans hmost, hm⟩
    · exact ⟨f, (hagree f he).trans hf, hmf⟩
  · intro f q' hf hmf
    by_cases he : f = filter
    · subst he
      exact UInt8.le_trans (hnew q' hf) hle
    · exact h.greatest f q' ((hagree f he).symm.trans hf) hmf

theorem bypasses_iff :
    Bypasses topic filters filter qos ↔
      ∀ q, Due filters topic q ↔ Due (Function.update filters filter qos) topic q := by
  have hself : Function.update filters filter qos filter = qos := Function.update_self _ _ _
  have hagree : ∀ f ≠ filter, Function.update filters filter qos f = filters f :=
    fun f hne => Function.update_of_ne hne _ _
  constructor
  · intro h q
    by_cases hm : Matches filter topic
    · rcases h hm with hsame | ⟨other, hne, most, hmost, hmo, hnew, hold⟩
      · exact (due_update_of_irrelevant fun _ => hsame).symm
      · rw [← hself] at hnew
        constructor
        · intro hdue
          exact hdue.of_outdone hagree hne hmost hmo hold hnew
        · intro hdue
          refine hdue.of_outdone (fun f hf => (hagree f hf).symm) hne ?_ hmo hnew hold
          exact (hagree other hne).trans hmost
    · exact (due_update_of_irrelevant fun h => absurd h hm).symm
  · intro h hm
    by_cases hsame : filters filter = qos
    · exact .inl hsame
    -- one of the two is a QoS, so one is due, before and after
    obtain ⟨most, hdue⟩ : ∃ most, Due filters topic most := by
      cases hf : filters filter with
      | some q => exact exists_due hf hm
      | none =>
        cases hq : qos with
        | none => exact absurd (hf.trans hq.symm) hsame
        | some q =>
          obtain ⟨most, hdue⟩ := exists_due (hself.trans hq) hm
          exact ⟨most, (h most).2 hdue⟩
    have hdue' := (h most).1 hdue
    refine .inr ?_
    suffices hother : ∃ other ≠ filter, filters other = some most ∧ Matches other topic by
      obtain ⟨other, hne, hmost, hmo⟩ := hother
      refine ⟨other, hne, most, hmost, hmo, fun q' hq' => ?_, fun q' hq' => ?_⟩
      · exact hdue'.greatest filter q' (hself.trans hq') hm
      · exact hdue.greatest filter q' hq' hm
    obtain ⟨f, hf, hmf⟩ := hdue.attained
    obtain ⟨f', hf', hmf'⟩ := hdue'.attained
    by_cases he : f = filter
    · by_cases he' : f' = filter
      · subst he he'
        exact absurd (hf.trans (hf'.symm.trans hself)) hsame
      · exact ⟨f', he', (hagree f' he').symm.trans hf', hmf'⟩
    · exact ⟨f, he, hf, hmf⟩

end Due

/-! ### Runs -/

section Runs

variable {clientId topic : Bytes} {tree : TopicTree}

theorem TopicTree.Keyed.call (h : tree.Keyed) (op : TreeCall) : (tree.call op).Keyed := by
  intro path key sub hl
  by_cases hr : tree.root.Reaches (split op.topic) path
  · rw [(TopicTree.subsAt_call op path).1 hr] at hl
    cases op with
    | «match» topic => exact h path key sub hl
    | subscribe filter session qos =>
      by_cases hk : key = session.clientId
      · subst hk
        cases (AList.lookup_insert _).symm.trans hl
        rfl
      · exact h path key sub ((AList.lookup_insert_ne hk).symm.trans hl)
    | unsubscribe filter session =>
      by_cases hk : key = session.clientId
      · subst hk
        cases (AList.lookup_erase _ _).symm.trans hl
      · exact h path key sub ((AList.lookup_erase_ne hk).symm.trans hl)
  · rw [(TopicTree.subsAt_call op path).2 hr] at hl
    exact h path key sub hl

theorem TopicTree.keyed_calls (calls : List TreeCall) : (TopicTree.empty.calls calls).Keyed := by
  induction calls using List.reverseRecOn with
  | nil => exact keyed_empty
  | append_singleton calls op ih =>
    rw [TopicTree.calls, List.foldl_concat]
    exact ih.call op

/-- The QoS of a client at a node. -/
def TopicTree.qosAt (tree : TopicTree) (clientId : Bytes) (path : Path) : Option UInt8 :=
  ((tree.root.subsAt path).lookup clientId).map Subscription.qos

/-- On a concrete topic a match finds the client with the QoS at one node. -/
theorem TopicTree.Keyed.mem_pairs_iff (h : tree.Keyed) (ht : Concrete topic) (qos : UInt8) :
    (clientId, qos) ∈ tree.pairs topic ↔ tree.qosAt clientId (split topic) = some qos := by
  rw [TopicTree.mem_pairs, TopicTree.qosAt, Option.map_eq_some_iff]
  constructor
  · rintro ⟨path, hr, key, sub, hl, he⟩
    rw [(reaches_literal ht _ _).1 hr] at hl
    obtain ⟨rfl, rfl⟩ := Prod.mk.inj he
    rw [h _ _ _ hl]
    exact ⟨sub, hl, rfl⟩
  · rintro ⟨sub, hl, rfl⟩
    refine ⟨_, (reaches_literal ht _ _).2 rfl, clientId, sub, hl, ?_⟩
    rw [h _ _ _ hl]

theorem TreeCall.lookup_edit {op : TreeCall} {filter : Bytes} {qos : Option UInt8}
    (h : op.asks clientId = some (filter, qos)) (subs : Subscribers) :
    op.topic = filter ∧ ((op.edit subs).lookup clientId).map Subscription.qos = qos := by
  cases op with
  | «match» topic => cases h
  | subscribe f session q =>
    rw [asks] at h
    split_ifs at h with hc
    cases h
    subst hc
    refine ⟨rfl, ?_⟩
    rw [edit, AList.lookup_insert]
    rfl
  | unsubscribe f session =>
    rw [asks] at h
    split_ifs at h with hc
    cases h
    subst hc
    refine ⟨rfl, ?_⟩
    rw [edit, AList.lookup_erase]
    rfl

theorem TreeCall.lookup_edit_of_none {op : TreeCall} (h : op.asks clientId = none)
    (subs : Subscribers) : (op.edit subs).lookup clientId = subs.lookup clientId := by
  cases op with
  | «match» topic => rfl
  | subscribe f session q =>
    rw [asks] at h
    split_ifs at h with hc
    exact AList.lookup_insert_ne (Ne.symm hc)
  | unsubscribe f session =>
    rw [asks] at h
    split_ifs at h with hc
    exact AList.lookup_erase_ne (Ne.symm hc)

/-- A call of the client sets its QoS at the nodes that the filter leads to. -/
theorem TopicTree.qosAt_call {op : TreeCall} {filter : Bytes} {qos : Option UInt8}
    (h : op.asks clientId = some (filter, qos)) (path : Path) :
    (tree.root.Reaches (split filter) path → (tree.call op).qosAt clientId path = qos) ∧
      (¬ tree.root.Reaches (split filter) path →
        (tree.call op).qosAt clientId path = tree.qosAt clientId path) := by
  obtain ⟨rfl, hedit⟩ := TreeCall.lookup_edit h (tree.root.subsAt path)
  refine ⟨fun hr => ?_, fun hr => ?_⟩
  · rw [qosAt, (subsAt_call op path).1 hr, hedit]
  · rw [qosAt, (subsAt_call op path).2 hr, qosAt]

/-- A call of another client, or a match, leaves the client's subscriptions. -/
theorem TopicTree.lookup_subsAt_call {op : TreeCall} (h : op.asks clientId = none) (path : Path) :
    ((tree.call op).root.subsAt path).lookup clientId =
      (tree.root.subsAt path).lookup clientId := by
  by_cases hr : tree.root.Reaches (split op.topic) path
  · rw [(subsAt_call op path).1 hr, TreeCall.lookup_edit_of_none h]
  · rw [(subsAt_call op path).2 hr]

theorem TopicTree.qosAt_call_of_none {op : TreeCall} (h : op.asks clientId = none) (path : Path) :
    (tree.call op).qosAt clientId path = tree.qosAt clientId path := by
  rw [qosAt, lookup_subsAt_call h, qosAt]

/-- One call keeps the client tracked exactly if it fits. -/
theorem tracked_call_iff (hk : tree.Keyed) (ht : Concrete topic) {filters : Filters}
    (h : Tracked clientId topic filters tree) (op : TreeCall) :
    Tracked clientId topic (filters.call clientId op) (tree.call op) ↔
      Fits clientId topic filters tree op := by
  have h₁ : ∀ q, tree.qosAt clientId (split topic) = some q ↔ Due filters topic q :=
    fun q => (hk.mem_pairs_iff ht q).symm.trans (h q)
  unfold Tracked
  simp only [(hk.call op).mem_pairs_iff ht]
  cases hasks : op.asks clientId with
  | none =>
    have hfits : Fits clientId topic filters tree op := by
      intro filter qos hsome
      cases hasks.symm.trans hsome
    rw [iff_true_right hfits, Filters.call, hasks, TopicTree.qosAt_call_of_none hasks]
    exact h₁
  | some asked =>
    obtain ⟨filter, qos⟩ := asked
    have hcall : filters.call clientId op = Function.update filters filter qos := by
      rw [Filters.call, hasks]
    have hfits : Fits clientId topic filters tree op ↔
        (tree.root.Reaches (split filter) (split topic) → Overwrites topic filters filter qos) ∧
          (¬ tree.root.Reaches (split filter) (split topic) →
            Bypasses topic filters filter qos) := by
      constructor
      · exact fun hf => hf filter qos hasks
      · intro hf f q hsome
        cases hasks.symm.trans hsome
        exact hf
    rw [hcall, hfits]
    by_cases hr : tree.root.Reaches (split filter) (split topic)
    · rw [(TopicTree.qosAt_call hasks _).1 hr]
      simp only [hr, true_implies, not_true, false_implies, and_true]
      exact overwrites_iff.symm
    · rw [(TopicTree.qosAt_call hasks _).2 hr]
      simp only [hr, false_implies, not_false_iff, true_implies, true_and, h₁]
      exact bypasses_iff.symm

/-- **Overlapping filters.**  After every call a match of the topic finds the client exactly if one
of its filters in force matches, and with the greatest QoS, if and only if every call fits. -/
theorem tracked_iff (ht : Concrete topic) {before : List TreeCall}
    (hnew : clientId ∉ (TopicTree.empty.calls before).root.subsAt (split topic))
    (calls : List TreeCall) :
    (∀ sofar, sofar <+: calls → Tracked clientId topic (InForce clientId sofar)
        ((TopicTree.empty.calls before).calls sofar)) ↔
      ∀ sofar op, sofar ++ [op] <+: calls → Fits clientId topic (InForce clientId sofar)
        ((TopicTree.empty.calls before).calls sofar) op := by
  have hkeyed : ∀ sofar, ((TopicTree.empty.calls before).calls sofar).Keyed := by
    intro sofar
    have h := TopicTree.keyed_calls (before ++ sofar)
    rwa [TopicTree.calls, List.foldl_append] at h
  have hstart : Tracked clientId topic (InForce clientId []) (TopicTree.empty.calls before) := by
    intro q
    have hnone := AList.lookup_eq_none.2 hnew
    rw [(TopicTree.keyed_calls before).mem_pairs_iff ht, TopicTree.qosAt, hnone]
    constructor
    · intro h
      cases h
    · rintro ⟨⟨filter, hf, -⟩, -⟩
      cases hf
  have hstep : ∀ sofar op, Tracked clientId topic (InForce clientId sofar)
      ((TopicTree.empty.calls before).calls sofar) →
      (Tracked clientId topic (InForce clientId (sofar ++ [op]))
        ((TopicTree.empty.calls before).calls (sofar ++ [op])) ↔
        Fits clientId topic (InForce clientId sofar)
          ((TopicTree.empty.calls before).calls sofar) op) := by
    intro sofar op h
    have hstep := tracked_call_iff (hkeyed sofar) ht h op
    rwa [InForce, TopicTree.calls, List.foldl_concat, List.foldl_concat]
  constructor
  · intro h sofar op hp
    exact (hstep sofar op (h sofar ((List.prefix_append _ _).trans hp))).1 (h _ hp)
  · intro h sofar hp
    induction sofar using List.reverseRecOn with
    | nil => exact hstart
    | append_singleton sofar op ih =>
      exact (hstep sofar op (ih ((List.prefix_append _ _).trans hp))).2 (h sofar op hp)

/-- A client subscribes to two filters for `"/a/b"`, the second with the greater QoS. -/
def ascending : List TreeCall :=
  [.subscribe filterAPlus someClient 1, .subscribe topicAB someClient 2]

/-- Both filters lead to the node of `"/a/b"`. -/
theorem reaches_ascending : ∀ calls ∈ [[], [.subscribe filterAPlus someClient 1]],
    ∀ filter ∈ [filterAPlus, topicAB], ((TopicTree.empty.calls [.match topicAB]).calls
      calls).root.Reaches (split filter) (split topicAB) := by
  intro calls hcalls filter hfilter
  refine ((TopicTree.getNode_visited _ filter).mem (split topicAB)).1 ?_
  revert calls filter
  decide +kernel

/-- The second call replaces the entry of the first. -/
theorem tracked_iff_ascending : Tracked someClient.clientId topicAB
    (InForce someClient.clientId ascending)
      ((TopicTree.empty.calls [.match topicAB]).calls ascending) := by
  refine (tracked_iff (by decide) (by decide +kernel) ascending).2 ?_ ascending List.prefix_rfl
  intro sofar op hprefix filter qos hasks
  rcases List.prefix_cons_iff.1 hprefix with hnil | ⟨rest, heq, hrest⟩
  · exact absurd hnil (by simp)
  cases sofar with
  | nil =>
    obtain ⟨rfl, -⟩ := List.cons.inj heq
    obtain ⟨rfl, rfl⟩ := Prod.mk.inj (Option.some.inj hasks)
    refine ⟨fun _ => ⟨fun other _ q hq => (by cases hq), fun q _ => .inl (by decide)⟩,
      fun hno => ?_⟩
    exact absurd (reaches_ascending [] (by simp) filterAPlus (by simp)) hno
  | cons first sofar =>
    obtain ⟨rfl, rfl⟩ := List.cons.inj heq
    rcases List.prefix_cons_iff.1 hrest with hnil | ⟨rest, heq, hrest⟩
    · exact absurd hnil (by simp)
    cases sofar with
    | nil =>
      obtain ⟨rfl, -⟩ := List.cons.inj heq
      obtain ⟨rfl, rfl⟩ := Prod.mk.inj (Option.some.inj hasks)
      refine ⟨fun _ => ⟨fun other _ q hq _ => ⟨2, rfl, ?_⟩, fun q _ => .inl (by decide)⟩,
        fun hno => ?_⟩
      · -- only the first filter is in force
        have hforce : Function.update (fun _ => none) filterAPlus (some 1) other = some q := hq
        by_cases he : other = filterAPlus
        · rw [he, Function.update_self] at hforce
          obtain rfl := Option.some.inj hforce
          decide
        · rw [Function.update_of_ne he] at hforce
          cases hforce
      · exact absurd (reaches_ascending _ (by simp) topicAB (by simp)) hno
    | cons second sofar =>
      obtain ⟨rfl, rfl⟩ := List.cons.inj heq
      exact absurd hrest (by simp)

/-- Removing `"/a/b"` takes the client's subscription to `"/a/+"` with it. -/
theorem not_tracked_unsubscribed :
    ¬ ∀ (clientId topic : Bytes) (before calls : List TreeCall), Concrete topic →
      ((TopicTree.empty.calls before).root.find (split topic)).isSome →
      clientId ∉ (TopicTree.empty.calls before).root.subsAt (split topic) →
      Tracked clientId topic (InForce clientId calls)
        ((TopicTree.empty.calls before).calls calls) := by
  intro h
  have htracked := h someClient.clientId topicAB [.match topicAB]
    [.subscribe filterAPlus someClient 1, .subscribe topicAB someClient 1,
      .unsubscribe topicAB someClient] (by decide) (by decide +kernel) (by decide +kernel)
  have hdue : Due (InForce someClient.clientId [.subscribe filterAPlus someClient 1,
      .subscribe topicAB someClient 1, .unsubscribe topicAB someClient]) topicAB 1 := by
    refine ⟨⟨filterAPlus, by decide +kernel, by decide⟩, fun filter q hf _ => ?_⟩
    have hforce : InForce someClient.clientId [.subscribe filterAPlus someClient 1,
        .subscribe topicAB someClient 1, .unsubscribe topicAB someClient] =
        Function.update (Function.update (fun _ => none) filterAPlus (some 1)) topicAB none :=
      Function.update_idem _ _ _
    rw [hforce] at hf
    by_cases h₁ : filter = topicAB
    · rw [h₁, Function.update_self] at hf
      cases hf
    · rw [Function.update_of_ne h₁] at hf
      by_cases h₂ : filter = filterAPlus
      · rw [h₂, Function.update_self] at hf
        exact UInt8.le_of_eq (Option.some.inj hf).symm
      · rw [Function.update_of_ne h₂] at hf
        cases hf
  have hfound := (htracked 1).2 hdue
  revert hfound
  decide +kernel

end Runs

end Culex
