import Culex.Asking
import Culex.Binding
import Culex.Stream

/-!
# SUBSCRIBE and UNSUBSCRIBE

What the two requests do to the topic tree, and what their answers say about it.  A filter is
`Effective` for a client if every message it matches will find the client, as long as its session
lives: a filter without wildcards has to stand in the tree for this session, and one with wildcards
never is, since the tree is finite and the topics are not.  `suback_iff` says when the return codes
of a SUBACK tell this.  An UNSUBSCRIBE is refused.
-/

namespace Culex

open ManageSessions

/-! ### Which topics a filter matches -/

/-- The topic or level holds neither `+` nor `#`. -/
def Plain (topic : Bytes) : Prop := 43 ∉ topic ∧ 35 ∉ topic

instance (topic : Bytes) : Decidable (Plain topic) :=
  inferInstanceAs (Decidable (43 ∉ topic ∧ 35 ∉ topic))

/-- A wildcard is a level of its own, and `#` the last one. -/
def LevelsProper : List Bytes → Prop
  | [] => True
  | word :: words => (word = hash ∧ words = []) ∨ ((word = plus ∨ Plain word) ∧ LevelsProper words)

instance decidableLevelsProper : ∀ words, Decidable (LevelsProper words)
  | [] => inferInstanceAs (Decidable True)
  | word :: words =>
    have := decidableLevelsProper words
    inferInstanceAs (Decidable ((word = hash ∧ words = []) ∨
      ((word = plus ∨ Plain word) ∧ LevelsProper words)))

/-- The filter is one that the protocol allows. -/
def Proper (filter : Bytes) : Prop := LevelsProper (levels filter)

instance (filter : Bytes) : Decidable (Proper filter) := decidableLevelsProper _

section Levels

variable {words names : List Bytes} {filter topic : Bytes}

theorem mem_intercalate {c : UInt8} (h : c ∈ [47].intercalate words) :
    c = 47 ∨ ∃ word ∈ words, c ∈ word := by
  induction words with
  | nil => cases h
  | cons word words ih =>
    cases words with
    | nil =>
      rw [List.intercalate_singleton] at h
      exact .inr ⟨word, List.mem_cons_self, h⟩
    | cons word' words =>
      rw [List.intercalate_cons_cons, List.append_assoc, List.mem_append, List.mem_append] at h
      rcases h with h | h | h
      · exact .inr ⟨word, List.mem_cons_self, h⟩
      · exact .inl (List.mem_singleton.1 h)
      · rcases ih h with h | ⟨w, hw, hc⟩
        · exact .inl h
        · exact .inr ⟨w, List.mem_cons_of_mem _ hw, hc⟩

theorem sublist_intercalate {word : Bytes} (h : word ∈ words) :
    word.Sublist ([47].intercalate words) := by
  induction words with
  | nil => cases h
  | cons w words ih =>
    cases words with
    | nil =>
      rw [List.intercalate_singleton, List.mem_singleton.1 h]
    | cons w' words =>
      rw [List.intercalate_cons_cons]
      rcases List.mem_cons.1 h with rfl | h
      · rw [List.append_assoc]
        exact List.sublist_append_left _ _
      · exact (ih h).trans (List.sublist_append_right _ _)

theorem intercalate_levels (topic : Bytes) : [47].intercalate (levels topic) = topic :=
  List.intercalate_splitOn 47

theorem levels_intercalate (hne : words ≠ []) (h : ∀ word ∈ words, 47 ∉ word) :
    levels ([47].intercalate words) = words := List.splitOn_intercalate 47 h hne

/-- The levels of a plain topic are plain. -/
theorem Plain.level (h : Plain topic) {word : Bytes} (hw : word ∈ levels topic) : Plain word := by
  have hsub := sublist_intercalate hw
  rw [intercalate_levels] at hsub
  exact ⟨fun hc => h.1 (hsub.subset hc), fun hc => h.2 (hsub.subset hc)⟩

theorem plain_of_levels (h : ∀ word ∈ levels topic, Plain word) : Plain topic := by
  rw [← intercalate_levels topic]
  constructor
  · intro hc
    rcases mem_intercalate hc with hc | ⟨word, hw, hc⟩
    · cases hc
    · exact (h word hw).1 hc
  · intro hc
    rcases mem_intercalate hc with hc | ⟨word, hw, hc⟩
    · cases hc
    · exact (h word hw).2 hc

theorem levelsMatch_cons {word : Bytes} :
    LevelsMatch (word :: words) names ↔ if word = hash ∧ words = [] then True
      else ∃ name rest, names = name :: rest ∧ (word = plus ∨ word = name) ∧
        LevelsMatch words rest := by
  rw [LevelsMatch.eq_def]
  simp only
  split_ifs
  · rfl
  · cases names <;> simp

/-- Levels that a plain topic matches are those of a proper filter. -/
theorem LevelsMatch.proper (h : LevelsMatch words names) (hn : ∀ name ∈ names, Plain name) :
    LevelsProper words := by
  induction words generalizing names with
  | nil => exact trivial
  | cons word words ih =>
    rw [levelsMatch_cons] at h
    split_ifs at h with hh
    · exact .inl hh
    · obtain ⟨name, rest, rfl, hw, hrest⟩ := h
      refine .inr ⟨?_, ih hrest fun n hm => hn n (List.mem_cons_of_mem _ hm)⟩
      rcases hw with rfl | rfl
      · exact .inl rfl
      · exact .inr (hn word List.mem_cons_self)

/-- Plain levels match themselves only. -/
theorem levelsMatch_iff_of_plain (h : ∀ word ∈ words, Plain word) :
    LevelsMatch words names ↔ names = words := by
  induction words generalizing names with
  | nil => rfl
  | cons word words ih =>
    have hw := h word List.mem_cons_self
    have hh : ¬ (word = hash ∧ words = []) := by
      rintro ⟨rfl, -⟩
      exact hw.2 (List.mem_singleton_self _)
    have hp : word ≠ plus := by
      rintro rfl
      exact hw.1 (List.mem_singleton_self _)
    rw [levelsMatch_cons, if_neg hh]
    have ih : ∀ names, LevelsMatch words names ↔ names = words :=
      fun names => ih fun w hm => h w (List.mem_cons_of_mem _ hm)
    simp only [hp, false_or, ih]
    constructor
    · rintro ⟨name, rest, rfl, rfl, rfl⟩
      rfl
    · rintro rfl
      exact ⟨word, words, rfl, rfl, rfl⟩

theorem Plain.matches_iff (h : Plain filter) : Matches filter topic ↔ topic = filter := by
  rw [Matches, levelsMatch_iff_of_plain fun word hw => h.level hw]
  constructor
  · intro he
    rw [← intercalate_levels topic, he, intercalate_levels]
  · rintro rfl
    rfl

/-- The level with something in the place of a wildcard. -/
def fill (word name : Bytes) : Bytes := if word = plus ∨ word = hash then name else word

theorem LevelsProper.matches_fill (h : LevelsProper words) (name : Bytes) :
    LevelsMatch words (words.map fun word => fill word name) := by
  induction words with
  | nil => rfl
  | cons word words ih =>
    rw [levelsMatch_cons]
    split_ifs with hh
    · rcases h with h | ⟨hw, hrest⟩
      · exact absurd h hh
      · refine ⟨_, _, List.map_cons, ?_, ih hrest⟩
        rcases hw with rfl | hw
        · exact .inl rfl
        · refine .inr (if_neg ?_).symm
          rintro (rfl | rfl)
          · exact hw.1 (List.mem_singleton_self _)
          · exact hw.2 (List.mem_singleton_self _)

/-- The levels of a proper filter. -/
theorem LevelsProper.level (h : LevelsProper words) {word : Bytes} (hw : word ∈ words) :
    word = plus ∨ word = hash ∨ Plain word := by
  induction words with
  | nil => cases hw
  | cons w words ih =>
    rcases h with ⟨rfl, rfl⟩ | ⟨hv, hrest⟩
    · exact .inr (.inl (List.mem_singleton.1 hw))
    · rcases List.mem_cons.1 hw with rfl | hw
      · exact hv.imp_right .inr
      · exact ih hrest hw

theorem Proper.level (h : Proper filter) {word : Bytes} (hw : word ∈ levels filter) :
    word = plus ∨ word = hash ∨ Plain word := LevelsProper.level h hw

theorem notMem_of_mem_levels {word : Bytes} (h : word ∈ levels topic) : 47 ∉ word := by
  unfold levels at h
  induction topic generalizing word with
  | nil =>
    rw [List.splitOn_nil, List.mem_singleton] at h
    rw [h]
    exact List.not_mem_nil
  | cons b topic ih =>
    rw [List.splitOn_cons_eq_if_modifyHead] at h
    split_ifs at h with hb
    · rcases List.mem_cons.1 h with rfl | h
      · exact List.not_mem_nil
      · exact ih h
    · obtain ⟨w, ws, hws⟩ := List.exists_cons_of_ne_nil (List.splitOn_ne_nil 47 topic)
      rw [hws] at h ih
      rcases List.mem_cons.1 h with rfl | h
      · refine fun hc => (List.mem_cons.1 hc).elim (fun he => hb ?_) (ih List.mem_cons_self)
        rw [← he]
        rfl
      · exact ih (List.mem_cons_of_mem _ h)

/-- A proper filter that is not plain matches topics of any length. -/
theorem exists_long_topic (h : Proper filter) (hw : ¬ Plain filter) (n : ℕ) :
    ∃ topic, Plain topic ∧ Matches filter topic ∧ n ≤ topic.length := by
  set name : Bytes := List.replicate n 97 with hname
  set words := (levels filter).map fun word => fill word name with hwords
  have hmem : ∀ {c : UInt8}, c ∈ name → c = 97 := fun hc => List.eq_of_mem_replicate hc
  have hplain : Plain name := by
    constructor
    · intro hc
      exact absurd (hmem hc) (by decide)
    · intro hc
      exact absurd (hmem hc) (by decide)
  -- some level is a wildcard, since the filter is not plain
  obtain ⟨word, hword, hwild⟩ : ∃ word ∈ levels filter, ¬ Plain word := by
    by_contra hno
    push Not at hno
    exact hw (plain_of_levels hno)
  have hfill : ∀ word ∈ levels filter, Plain (fill word name) ∧ 47 ∉ fill word name := by
    intro word hword
    unfold fill
    split_ifs with hc
    · exact ⟨hplain, fun hc => absurd (hmem hc) (by decide)⟩
    · refine ⟨?_, notMem_of_mem_levels hword⟩
      exact ((h.level hword).resolve_left fun he => hc (.inl he)).resolve_left fun he => hc (.inr he)
  have hlevels : levels ([47].intercalate words) = words := by
    refine levels_intercalate ?_ ?_
    · rw [hwords, Ne, List.map_eq_nil_iff]
      exact List.ne_nil_of_mem hword
    · intro w hw
      obtain ⟨v, hv, rfl⟩ := List.mem_map.1 hw
      exact (hfill v hv).2
  refine ⟨[47].intercalate words, plain_of_levels ?_, ?_, ?_⟩
  · rw [hlevels]
    intro w hw
    obtain ⟨v, hv, rfl⟩ := List.mem_map.1 hw
    exact (hfill v hv).1
  · rw [Matches, hlevels]
    exact LevelsProper.matches_fill h name
  · -- the wildcard has become a level of length `n`
    have hfilled : fill word name = name := by
      refine if_pos ?_
      rcases h.level hword with he | he | he
      · exact .inl he
      · exact .inr he
      · exact absurd he hwild
    have hsub : name.Sublist ([47].intercalate words) :=
      sublist_intercalate (List.mem_map.2 ⟨word, hword, hfilled⟩)
    have := hsub.length_le
    rwa [hname, List.length_replicate] at this

end Levels

/-! ### Topics that are too long to be there -/

theorem length_le_weight_splitLoop {temp str : Bytes} (h : str ≠ []) :
    temp.length + str.length ≤ weight (splitLoop temp str) := by
  induction str generalizing temp with
  | nil => exact absurd rfl h
  | cons b rest ih =>
    rw [splitLoop]
    split_ifs with hb hr
    · have hw : weight (temp :: splitLoop [] rest) = temp.length + 1 + weight (splitLoop [] rest) :=
        rfl
      by_cases hr : rest = []
      · have : rest.length = 0 := by rw [hr, List.length_nil]
        simp only [List.length_cons, hw]
        omega
      · have := @ih [] hr
        simp only [List.length_nil, List.length_cons, hw] at this ⊢
        omega
    · simp [weight, hr]
    · have := @ih (temp ++ [b]) hr
      simp only [List.length_append, List.length_cons, List.length_nil] at this ⊢
      omega

/-- A long topic leads deep. -/
theorem length_le_weight_split (topic : Bytes) : topic.length ≤ weight (split topic) := by
  cases topic with
  | nil => exact Nat.zero_le _
  | cons b rest =>
    have hw : weight (split (b :: rest)) = 2 + weight (splitLoop [] rest) := rfl
    by_cases hr : rest = []
    · have : rest.length = 0 := by rw [hr, List.length_nil]
      simp only [List.length_cons, hw]
      omega
    · have := @length_le_weight_splitLoop [] rest hr
      simp only [List.length_nil, List.length_cons, hw] at this ⊢
      omega

/-! ### Subscriptions in force -/

section Effective

variable {p : Platform} {ms ms' : ManageSessions} {clientId filter topic : Bytes}
  {tree tree' : TopicTree} {path : Path}

/-- A match of the topic has an entry for a session of the client that is alive. -/
def ManageSessions.Finds (ms : ManageSessions) (topic clientId : Bytes) : Prop :=
  ∃ sub ∈ (ms.topicTree.match topic).2,
    sub.session.clientId = clientId ∧ (ms.lock sub.session).isSome

/-- Every message that the filter matches will find the client, whatever happens until then, as long
as it is the same session that is registered for the client. -/
def Effective (p : Platform) (ms : ManageSessions) (clientId filter : Bytes) : Prop :=
  ∀ events ms', Run (BrokerStep p) ms events ms' →
    ms'.sessionPresent clientId = ms.sessionPresent clientId →
      ∀ topic, Plain topic → Matches filter topic → ms'.Finds topic clientId

/-- The registered session of the client has an entry at the node. -/
def ManageSessions.Stands (ms : ManageSessions) (clientId : Bytes) (path : Path) : Prop :=
  ∃ sub ∈ (ms.topicTree.root.subsAt path).lookup clientId,
    ms.sessionPresent clientId = some sub.session

theorem Plain.concrete (h : Plain topic) : Concrete topic := concrete_of_notMem h.1 h.2

theorem sessionPresent_iff {r : SessionRef} :
    ms.sessionPresent clientId = some r ↔ r.clientId = clientId ∧ (ms.lock r).isSome := by
  unfold ManageSessions.sessionPresent
  rw [Option.map_eq_some_iff]
  constructor
  · rintro ⟨entry, hl, rfl⟩
    exact ⟨rfl, by rw [lock_of_lookup hl]; rfl⟩
  · rintro ⟨rfl, hl⟩
    obtain ⟨cs, hcs⟩ := Option.isSome_iff_exists.1 hl
    exact ⟨⟨r.obj, cs⟩, lock_eq_some_iff.1 hcs, rfl⟩

theorem TopicTree.Extends.keyed (h : tree.Extends tree') (hk : tree.Keyed) : tree'.Keyed := by
  obtain ⟨calls, -, rfl⟩ := h
  induction calls generalizing tree with
  | nil => exact hk
  | cons op calls ih => exact ih (hk.call op)

/-- What the broker relies on when it goes on from a state. -/
structure Lasting (ms : ManageSessions) : Prop where
  sound : Sound ms
  keyed : ms.topicTree.Keyed
  created : ∀ clientId r, ms.sessionPresent clientId = some r → r.obj < ms.nextObj

theorem Reachable.lasting (hr : Reachable p ms) : Lasting ms where
  sound := hr.sound
  keyed := by
    obtain ⟨calls, -, hcalls⟩ := hr.tree
    rw [hcalls]
    exact TopicTree.keyed_calls calls
  created clientId r hpresent := by
    obtain ⟨cs, hl⟩ := Option.isSome_iff_exists.1 (sessionPresent_iff.1 hpresent).2
    exact hr.allocated.registered r cs hl

/-- On a plain topic a match lists the subscriptions at one node. -/
theorem finds_iff_stands (hk : ms.topicTree.Keyed) (hplain : Plain topic) :
    ms.Finds topic clientId ↔ ms.Stands clientId (split topic) := by
  unfold ManageSessions.Finds ManageSessions.Stands
  simp only [TopicTree.mem_match, reaches_literal hplain.concrete, sessionPresent_iff]
  constructor
  · rintro ⟨sub, ⟨path, rfl, clientId', hl⟩, rfl, halive⟩
    have hclient := hk _ _ _ hl
    exact ⟨sub, by rw [hclient]; exact hl, rfl, halive⟩
  · rintro ⟨sub, hl, hclient, halive⟩
    exact ⟨sub, ⟨_, rfl, clientId, hl⟩, hclient, halive⟩

/-! ### Entries stay -/

/-- The session has an entry at the node. -/
def TopicTree.Has (tree : TopicTree) (r : SessionRef) (path : Path) : Prop :=
  ∃ qos, (tree.root.subsAt path).lookup r.clientId = some ⟨r, qos⟩

theorem stands_iff_has {r : SessionRef} (h : ms.sessionPresent r.clientId = some r) :
    ms.Stands r.clientId path ↔ ms.topicTree.Has r path := by
  unfold ManageSessions.Stands TopicTree.Has
  rw [h]
  constructor
  · rintro ⟨sub, hl, hsub⟩
    obtain rfl := Option.some.inj hsub
    exact ⟨sub.qos, hl⟩
  · rintro ⟨qos, hl⟩
    exact ⟨_, hl, rfl⟩

/-- The entry after a request of the session itself, and after one of another client. -/
theorem has_call {r r' : SessionRef} {filter : Bytes} {qos : UInt8}
    (hother : r'.clientId = r.clientId → r' = r) :
    (tree.call (.subscribe filter r' qos)).Has r path ↔
      tree.Has r path ∨ r' = r ∧ tree.root.Reaches (split filter) path := by
  have hsubs := @TopicTree.subsAt_call tree (.subscribe filter r' qos) path
  unfold TopicTree.Has
  by_cases hreach : tree.root.Reaches (split filter) path
  · rw [hsubs.1 hreach]
    show (∃ q, ((tree.root.subsAt path).insert r'.clientId ⟨r', qos⟩).lookup r.clientId = _) ↔ _
    by_cases hr : r' = r
    · subst hr
      rw [AList.lookup_insert]
      exact iff_of_true ⟨qos, rfl⟩ (.inr ⟨rfl, hreach⟩)
    · rw [AList.lookup_insert_ne fun h => hr (hother h.symm)]
      simp [hr]
  · rw [hsubs.2 hreach]
    simp [hreach]

/-- An entry of a session that is registered stays, whoever subscribes. -/
theorem has_calls {r : SessionRef} {calls : List TreeCall}
    (hcalls : ∀ op ∈ calls, ∃ filter r' qos, op = .subscribe filter r' qos ∧
      (r'.clientId = r.clientId → r' = r)) (h : tree.Has r path) :
    (tree.calls calls).Has r path := by
  induction calls generalizing tree with
  | nil => exact h
  | cons op calls ih =>
    refine ih (fun o ho => hcalls o (List.mem_cons_of_mem _ ho)) ?_
    obtain ⟨filter, r', qos, rfl, hother⟩ := hcalls op List.mem_cons_self
    exact (has_call hother).2 (.inl h)

theorem Event.apply_has {e : Event} {r : SessionRef} (hs : Sound ms)
    (hpresent : ms.sessionPresent r.clientId = some r) (h : e.apply p ms = .ok ms')
    (hhas : ms.topicTree.Has r path) : ms'.topicTree.Has r path := by
  rcases Event.apply_requests hs h with ⟨-, hrows⟩ | htree
  · have hlookup : (ms'.topicTree.root.subsAt path).lookup r.clientId =
        (ms.topicTree.root.subsAt path).lookup r.clientId := congrFun (congrFun hrows path) _
    unfold TopicTree.Has
    rwa [hlookup]
  · rw [htree]
    refine has_calls (fun op hop => ?_) hhas
    obtain ⟨filter, r', qos, rfl, hr'⟩ := Event.mem_requests hop
    refine ⟨filter, r', qos, rfl, fun hclient => ?_⟩
    rw [hclient, hpresent] at hr'
    exact (Option.some.inj hr').symm

/-- A session that is gone does not come back. -/
theorem Event.apply_present {e : Event} {r : SessionRef} (hs : Sound ms)
    (hobj : r.obj < ms.nextObj) (h : e.apply p ms = .ok ms') : r.obj < ms'.nextObj ∧
      (ms'.sessionPresent r.clientId = some r → ms.sessionPresent r.clientId = some r) := by
  obtain ⟨log, hevolves⟩ := (e.apply_change hs h).evolves
  refine ⟨hobj.trans_le hevolves.nextObj, fun hpresent => sessionPresent_iff.2 ⟨rfl, ?_⟩⟩
  obtain ⟨cs', hl'⟩ := Option.isSome_iff_exists.1 (sessionPresent_iff.1 hpresent).2
  rcases hevolves.alive r cs' hl' with ⟨cs, hl, -⟩ | ⟨hnew, -⟩
  · rw [hl]
    rfl
  · omega

/-- **The entries of a session stay** as long as it is registered. -/
theorem stands_of_run {r : SessionRef} (h : Lasting ms)
    (hpresent : ms.sessionPresent r.clientId = some r) {events : List Event}
    (hrun : Run (BrokerStep p) ms events ms')
    (hpresent' : ms'.sessionPresent r.clientId = some r) (hstands : ms.Stands r.clientId path) :
    ms'.Stands r.clientId path := by
  have hall : Sound ms' ∧ r.obj < ms'.nextObj ∧
      (ms'.sessionPresent r.clientId = some r → ms'.topicTree.Has r path) := by
    refine hrun.invariant (I := fun s => Sound s ∧ r.obj < s.nextObj ∧
      (s.sessionPresent r.clientId = some r → s.topicTree.Has r path))
      ⟨h.sound, h.created _ r hpresent, fun _ => (stands_iff_has hpresent).1 hstands⟩ ?_
    rintro s e s' ⟨hs, hobj, hhas⟩ hstep
    obtain ⟨hobj', hback⟩ := Event.apply_present hs hobj hstep
    exact ⟨Event.apply_sound hs hstep, hobj', fun hp' =>
      Event.apply_has hs (hback hp') hstep (hhas (hback hp'))⟩
  exact (stands_iff_has hpresent').2 (hall.2.2 hpresent')

/-! ### Which are in force -/

/-- What will be found is what stands in the tree now. -/
theorem effective_iff_stands (h : Lasting ms) :
    Effective p ms clientId filter ↔ ∀ topic, Plain topic → Matches filter topic →
      ms.Stands clientId (split topic) := by
  constructor
  · intro heff topic hplain hm
    exact (finds_iff_stands h.keyed hplain).1 (heff [] ms .nil rfl topic hplain hm)
  · intro hstands events ms' hrun hsame topic hplain hm
    have hkeyed := (extends_of_run h.sound hrun).2.keyed h.keyed
    obtain ⟨sub, hl, hpresent⟩ := hstands topic hplain hm
    obtain rfl := (sessionPresent_iff.1 hpresent).1
    exact (finds_iff_stands hkeyed hplain).2
      (stands_of_run h hpresent hrun (hsame.trans hpresent) ⟨sub, hl, hpresent⟩)

/-- **Which subscriptions are in force.**  A plain filter has to stand in the tree, a proper one with
wildcards never is in force, and one that is not proper matches nothing. -/
theorem effective_iff (h : Lasting ms) :
    Effective p ms clientId filter ↔ ¬ Proper filter ∨
      Plain filter ∧ ms.Stands clientId (split filter) := by
  rw [effective_iff_stands h]
  constructor
  · intro hall
    by_contra hno
    push Not at hno
    obtain ⟨hproper, hstands⟩ := hno
    by_cases hplain : Plain filter
    · exact hstands hplain (hall filter hplain (hplain.matches_iff.2 rfl))
    · obtain ⟨bound, hbound⟩ := ms.topicTree.wellFormed.exists_bound
      obtain ⟨topic, htopic, hm, hlong⟩ := exists_long_topic hproper hplain (bound + 1)
      have hfound : (ms.topicTree.root.find (split topic)).isSome := by
        by_contra hnone
        obtain ⟨sub, hl, -⟩ := hall topic htopic hm
        unfold Node.subsAt at hl
        rw [Option.not_isSome_iff_eq_none.1 hnone] at hl
        cases hl
      have := hbound _ hfound
      have := length_le_weight_split topic
      omega
  · rintro (hno | ⟨hplain, hstands⟩) topic htopic hm
    · exact absurd (LevelsMatch.proper hm fun name hn => htopic.level hn) hno
    · rw [hplain.matches_iff.1 hm]
      exact hstands

end Effective

/-! ### SUBACK -/

/-- One of the calls leads to the node, in the tree that the earlier ones leave. -/
def TopicTree.Leads (tree : TopicTree) (calls : List TreeCall) (path : Path) : Prop :=
  ∃ sofar op, sofar ++ [op] <+: calls ∧ (tree.calls sofar).root.Reaches (split op.topic) path

/-- The return codes of a SUBACK tell which subscriptions of the client are in force: the granted
QoS for these, and 0x80 for the others. -/
def TellsTruth (p : Platform) (ms : ManageSessions) (clientId : Bytes) (payload : List Tuple)
    (codes : List UInt8) : Prop :=
  List.Forall₂ (fun tuple code =>
    (Effective p ms clientId tuple.topic → code = tuple.qos ∧ code < 3) ∧
      (¬ Effective p ms clientId tuple.topic → code = 0x80)) payload codes

/-- The entry of a SUBSCRIBE comes out as its return code says.  One with a QoS is for a plain
filter, and comes from a client that is registered; one without is for a filter that nothing of the
client's session leads to.  A filter that matches nothing always counts as in force. -/
def Answerable (ms : ManageSessions) (clientId : Bytes) (payload : List Tuple) (tuple : Tuple) :
    Prop :=
  if tuple.qos < 3 then
    ¬ Proper tuple.topic ∨ Plain tuple.topic ∧ ms.sessionPresent clientId ≠ none
  else
    Proper tuple.topic ∧ (Plain tuple.topic → ¬ ms.Stands clientId (split tuple.topic) ∧
      ¬ ms.topicTree.Leads (requests (ms.sessionPresent clientId) payload) (split tuple.topic))

section Suback

variable {p : Platform} {ms : ManageSessions} {clientId : Bytes} {tree : TopicTree} {path : Path}
  {packet : Packet} {sub : Subscribe} {payload : List Tuple} {tuple : Tuple} {id : ℕ}

theorem TopicTree.not_leads_nil : ¬ tree.Leads [] path := by
  rintro ⟨sofar, op, hp, -⟩
  exact List.cons_ne_nil _ _ (List.append_eq_nil_iff.1 (List.prefix_nil.1 hp)).2

theorem TopicTree.leads_cons {op : TreeCall} {calls : List TreeCall} :
    tree.Leads (op :: calls) path ↔
      tree.root.Reaches (split op.topic) path ∨ (tree.call op).Leads calls path := by
  constructor
  · rintro ⟨sofar, op', hp, hr⟩
    cases sofar with
    | nil =>
      obtain ⟨rfl, -⟩ := List.cons_prefix_cons.1 hp
      exact .inl hr
    | cons first sofar =>
      obtain ⟨rfl, hrest⟩ := List.cons_prefix_cons.1 hp
      exact .inr ⟨sofar, op', hrest, hr⟩
  · rintro (hr | ⟨sofar, op', hp, hr⟩)
    · refine ⟨[], op, ?_, hr⟩
      rw [List.nil_append]
      exact List.cons_prefix_cons.2 ⟨rfl, List.nil_prefix⟩
    · refine ⟨op :: sofar, op', ?_, hr⟩
      rw [List.cons_append]
      exact List.cons_prefix_cons.2 ⟨rfl, hp⟩

/-- Where a session has entries after its requests. -/
theorem has_subscribes {r : SessionRef} {entries : List Tuple} :
    (tree.calls (entries.map fun tuple => .subscribe tuple.topic r tuple.qos)).Has r path ↔
      tree.Has r path ∨
        tree.Leads (entries.map fun tuple => .subscribe tuple.topic r tuple.qos) path := by
  induction entries generalizing tree with
  | nil =>
    rw [List.map_nil, or_iff_left TopicTree.not_leads_nil]
    rfl
  | cons tuple entries ih =>
    have hstep := @has_call tree path r r tuple.topic tuple.qos fun _ => rfl
    have ih := @ih (tree.call (.subscribe tuple.topic r tuple.qos))
    rw [List.map_cons, TopicTree.leads_cons]
    refine ih.trans ?_
    rw [hstep]
    show _ ↔ _ ∨ tree.root.Reaches (split tuple.topic) path ∨ _
    tauto

/-- Where the registered session has entries after the requests of a SUBSCRIBE. -/
theorem stands_requests {ms' : ManageSessions}
    (hpresent : ms'.sessionPresent clientId = ms.sessionPresent clientId)
    (htree : ms'.topicTree =
      ms.topicTree.calls (requests (ms.sessionPresent clientId) payload)) :
    ms'.Stands clientId path ↔ ms.Stands clientId path ∨
      ms.topicTree.Leads (requests (ms.sessionPresent clientId) payload) path := by
  cases hp : ms.sessionPresent clientId with
  | none =>
    have hno : ¬ ms.topicTree.Leads (requests none payload) path := TopicTree.not_leads_nil
    unfold ManageSessions.Stands
    simp [hpresent, hp, hno]
  | some r =>
    obtain rfl := (sessionPresent_iff.1 hp).1
    rw [stands_iff_has hp, stands_iff_has (hpresent.trans hp), htree, hp]
    exact has_subscribes

/-- A registered client's own entry leads to a plain filter. -/
theorem leads_of_mem (hmem : tuple ∈ payload) (hq : tuple.qos < 3)
    (hpresent : ms.sessionPresent clientId ≠ none) (hplain : Plain tuple.topic) :
    tree.Leads (requests (ms.sessionPresent clientId) payload) (split tuple.topic) := by
  obtain ⟨r, hr⟩ := Option.ne_none_iff_exists'.1 hpresent
  have hop : TreeCall.subscribe tuple.topic r tuple.qos ∈
      requests (ms.sessionPresent clientId) payload := by
    rw [hr]
    exact List.mem_map.2 ⟨tuple, List.mem_filter.2 ⟨hmem, decide_eq_true hq⟩, rfl⟩
  obtain ⟨sofar, rest, heq⟩ := List.append_of_mem hop
  refine ⟨sofar, .subscribe tuple.topic r tuple.qos, ?_,
    (reaches_literal hplain.concrete _ _).2 rfl⟩
  rw [heq, List.append_cons sofar _ rest]
  exact List.prefix_append _ _

theorem answerable_iff {ms' : ManageSessions} (h : Lasting ms')
    (hsame : ms'.sessionPresent clientId = ms.sessionPresent clientId)
    (htree : ms'.topicTree =
      ms.topicTree.calls (requests (ms.sessionPresent clientId) payload)) (hmem : tuple ∈ payload) :
    Answerable ms clientId payload tuple ↔
      (tuple.qos < 3 ↔ Effective p ms' clientId tuple.topic) := by
  rw [effective_iff h, stands_requests hsame htree]
  unfold Answerable
  by_cases hq : tuple.qos < 3
  · rw [if_pos hq, iff_true_left hq]
    refine or_congr_right (and_congr_right fun hplain => ?_)
    by_cases hpresent : ms.sessionPresent clientId = none
    · have hno : ¬ ms.Stands clientId (split tuple.topic) := by
        rintro ⟨sub, -, hsub⟩
        rw [hpresent] at hsub
        cases hsub
      rw [hpresent, or_iff_right hno]
      exact iff_of_false (not_not.2 rfl) TopicTree.not_leads_nil
    · exact iff_of_true hpresent (.inr (leads_of_mem hmem hq hpresent hplain))
  · rw [if_neg hq, iff_false_left hq, not_or, not_not, not_and, not_or]

theorem tellsTruth_iff {handled : Handled} (hr : Reachable p ms) (hp : packet.pkt = .subscribe sub)
    (h : subscribeHandler p packet id ms = .ok handled) :
    TellsTruth p handled.state (ms.getClientId id) sub.payload (returnCodes sub.payload) ↔
      ∀ tuple ∈ sub.payload, Answerable ms (ms.getClientId id) sub.payload tuple := by
  have hextends := (subscribeHandler_steady h).tree
  have hstate := Except.ok.inj ((subscribeHandler_eq hp).symm.trans h)
  have htree : handled.state.topicTree =
      ms.topicTree.calls (requests (ms.sessionPresent (ms.getClientId id)) sub.payload) := by
    rw [← hstate]
    rfl
  have hsame : ∀ clientId, handled.state.sessionPresent clientId = ms.sessionPresent clientId := by
    intro clientId
    rw [← hstate]
    exact sessionPresent_updateActivity clientId _
  have hlasting : Lasting handled.state := by
    refine ⟨(subscribeHandler_tame h).sound hr.sound, hextends.keyed hr.lasting.keyed,
      fun clientId r hpresent => ?_⟩
    have hobj := hr.lasting.created clientId r ((hsame clientId).symm.trans hpresent)
    have hnext : handled.state.nextObj = ms.nextObj := by
      rw [← hstate]
      show (ms.updateActivity _).nextObj = _
      unfold updateActivity
      split <;> rfl
    rwa [hnext]
  rw [TellsTruth, returnCodes, List.forall₂_map_right_iff, List.forall₂_same]
  refine forall₂_congr fun tuple hmem => ?_
  rw [@answerable_iff p ms _ _ tuple _ hlasting (hsame _) htree hmem]
  by_cases hq : tuple.qos < 3
  · rw [if_pos hq, iff_true_left hq]
    refine ⟨fun h => ?_, fun h => ⟨fun _ => ⟨rfl, hq⟩, fun hno => absurd h hno⟩⟩
    by_contra hno
    rw [h.2 hno] at hq
    exact absurd hq (by decide)
  · rw [if_neg hq, iff_false_left hq]
    refine ⟨fun h heff => ?_, fun h => ⟨fun heff => absurd heff h, fun _ => rfl⟩⟩
    exact absurd (h.1 heff).2 (by decide)

/-- **SUBACK.**  The return codes tell which subscriptions are in force exactly if every entry comes
out as its code says. -/
theorem suback_iff (hr : Reachable p ms) (ht : packet.header.type = .subscribe)
    (hp : packet.pkt = .subscribe sub) :
    ∃ handled, dispatch p packet id ms = .ok handled ∧
      handled.buff = buildSuback p.toCore sub.packetId (returnCodes sub.payload) [] ∧
      (TellsTruth p handled.state (ms.getClientId id) sub.payload (returnCodes sub.payload) ↔
        ∀ tuple ∈ sub.payload, Answerable ms (ms.getClientId id) sub.payload tuple) := by
  have hd : dispatch p packet id ms = subscribeHandler p packet id ms := by
    unfold dispatch handlers
    rw [ht]
    rfl
  have heq := @subscribeHandler_eq p packet ms id sub hp
  exact ⟨_, hd.trans heq, rfl, tellsTruth_iff hr hp heq⟩

/-- A SUBSCRIBE to one filter with QoS 1. -/
def subscribePacket (filter : Bytes) : Packet where
  header := { type := .subscribe, qos := 1 }
  pkt := .subscribe { packetId := 1, payload := [⟨filter, 1⟩] }

/-- Client `A` has connected. -/
theorem oneClient_reachable : Reachable .sorting oneClient := after_reachable _ _

/-- It subscribes to `"/a/b"`, and the SUBACK tells so. -/
theorem suback_iff_plain : ∃ handled,
    dispatch .sorting (subscribePacket topicAB) 0 oneClient = .ok handled ∧
      handled.buff =
        buildSuback Platform.sorting.toCore 1 (returnCodes [⟨topicAB, 1⟩]) [] ∧
      TellsTruth .sorting handled.state (oneClient.getClientId 0) [⟨topicAB, 1⟩] [1] := by
  have hp : (subscribePacket topicAB).pkt =
      .subscribe { packetId := 1, payload := [⟨topicAB, 1⟩] } := rfl
  obtain ⟨handled, hd, hbuff, htruth⟩ := @suback_iff .sorting oneClient (subscribePacket topicAB)
    { packetId := 1, payload := [⟨topicAB, 1⟩] } 0 oneClient_reachable rfl hp
  refine ⟨handled, hd, hbuff, htruth.2 fun tuple hmem => ?_⟩
  obtain rfl := List.mem_singleton.1 hmem
  exact .inr ⟨by decide, by decide +kernel⟩

/-- It subscribes to `"/a/+"`: that is granted, and not in force for any topic yet to come. -/
theorem not_tellsTruth_plus :
    ¬ ∀ (ms : ManageSessions) (packet : Packet) (sub : Subscribe) (id : ℕ) (handled : Handled),
      Reachable .sorting ms → packet.header.type = .subscribe → packet.pkt = .subscribe sub →
      dispatch .sorting packet id ms = .ok handled →
      TellsTruth .sorting handled.state (ms.getClientId id) sub.payload
        (returnCodes sub.payload) := by
  intro h
  have hp : (subscribePacket filterAPlus).pkt =
      .subscribe { packetId := 1, payload := [⟨filterAPlus, 1⟩] } := rfl
  have heq := @subscribeHandler_eq .sorting (subscribePacket filterAPlus) oneClient 0 _ hp
  have htruth := h oneClient (subscribePacket filterAPlus) _ 0 _ oneClient_reachable rfl hp heq
  have hanswer := (tellsTruth_iff oneClient_reachable hp heq).1 htruth ⟨filterAPlus, 1⟩
    (List.mem_singleton_self _)
  rw [Answerable, if_pos (by decide)] at hanswer
  rcases hanswer with hno | ⟨hplain, -⟩
  · exact hno (by decide)
  · exact absurd hplain (by decide)

end Suback

/-! ### UNSUBSCRIBE -/

/-- What an UNSUBSCRIBE asks for: the client is found for none of the plain filters, the other
clients' entries are left alone, and an UNSUBACK is pushed. -/
structure Unsubscribes (unsub : Unsubscribe) (id : ℕ) (ms ms' : ManageSessions) : Prop where
  removed : ∀ filter ∈ unsub.topics, Plain filter →
    ¬ ms'.topicTree.Finds filter (ms.getClientId id)
  others : ∀ path clientId, clientId ≠ ms.getClientId id →
    (ms'.topicTree.root.subsAt path).lookup clientId =
      (ms.topicTree.root.subsAt path).lookup clientId
  acknowledged : ms'.calls = ms.calls ++
    [.pushDataToSend id (buildAck unsub.packetId .unsuback []).1]

section Unsubscribe

variable {p : Platform} {pkt : Packet} {n q : ℕ} {mem : ByteReader.Mem}

theorem unsubscribe_of_unpack (hu : unpack p.toCore n mem 0 = .ok ((mqttOk, pkt), q))
    (ht : pkt.header.type = .unsubscribe) : ∃ unsub, pkt.pkt = .unsubscribe unsub := by
  obtain ⟨-, len, k, l, -, ho, -⟩ := exists_outcome hu
  generalize hx : (mqttOk, pkt) = x at ho
  cases ho with
  | unsubscribe =>
    obtain ⟨-, rfl⟩ := Prod.mk.inj hx
    exact ⟨_, rfl⟩
  | badFlags =>
    obtain ⟨hcode, -⟩ := Prod.mk.inj hx
    exact absurd hcode (by decide)
  | badName =>
    obtain ⟨hcode, -⟩ := Prod.mk.inj hx
    exact absurd hcode (by decide)
  | connect ht' | publish ht' | subscribe ht' =>
    obtain ⟨-, rfl⟩ := Prod.mk.inj hx
    cases ht'.symm.trans ht
  | ack ht' =>
    obtain ⟨-, rfl⟩ := Prod.mk.inj hx
    rcases ht' with ht' | ht' | ht' | ht' <;> cases ht'.symm.trans ht

/-- **UNSUBSCRIBE.**  An UNSUBSCRIBE that is accepted by the decoder is refused by its handler, and
nothing is done. -/
theorem not_unsubscribes (ms : ManageSessions) (id : ℕ)
    (hu : unpack p.toCore n mem 0 = .ok ((mqttOk, pkt), q))
    (ht : pkt.header.type = .unsubscribe) :
    ∃ unsub handled, pkt.pkt = .unsubscribe unsub ∧ dispatch p pkt id ms = .ok handled ∧
      handled.state = ms ∧ handled.returnCode = -mqttErr ∧
        ¬ Unsubscribes unsub id ms handled.state := by
  obtain ⟨unsub, hp⟩ := unsubscribe_of_unpack hu ht
  have hd : dispatch p pkt id ms = .ok { state := ms, returnCode := -mqttErr } := by
    unfold dispatch handlers
    rw [ht]
    show unsubscribeHandler pkt id ms = _
    unfold unsubscribeHandler
    rw [hp]
  refine ⟨unsub, _, hp, hd, rfl, rfl, fun h => ?_⟩
  have hcalls : ms.calls = ms.calls ++ [_] := h.acknowledged
  have hlength := congrArg List.length hcalls
  rw [List.length_append, List.length_singleton] at hlength
  omega

/-- An UNSUBSCRIBE of a topic of one byte. -/
def unsubscribePacket (topic : UInt8) : Packet where
  header := { type := .unsubscribe, qos := 1 }
  pktLen := 7
  pkt := .unsubscribe { packetId := 1, topics := [[topic]] }

theorem exists_unpack_unsubscribe : ∃ q,
    unpack Core.bigEndian 7 (ByteReader.holding (Wire.frame (unsubscribePacket 116)) fun _ => 0) 0 =
      .ok ((mqttOk, unsubscribePacket 116), q) := by
  have hwf : Wire.WellFormed (unsubscribePacket 116) := by
    refine ⟨⟨rfl, ?_⟩, by decide, by decide +kernel⟩
    intro t ht
    rw [List.mem_singleton.1 ht]
    decide
  exact unpack_frame Core.bigEndian hwf (ByteReader.at_holding _ _) (by decide +kernel)

/-- A client that has subscribed to `t` wants to be rid of it. -/
theorem not_unsubscribes_one : ∃ unsub handled,
    (unsubscribePacket 116).pkt = .unsubscribe unsub ∧
      dispatch .sorting (unsubscribePacket 116) 0 oneSubscriber = .ok handled ∧
      handled.state = oneSubscriber ∧ handled.returnCode = -mqttErr ∧
        ¬ Unsubscribes unsub 0 oneSubscriber handled.state := by
  obtain ⟨q, hu⟩ := exists_unpack_unsubscribe
  exact @not_unsubscribes .sorting _ _ q _ oneSubscriber 0 hu rfl

/-- It is found for `t` as before. -/
theorem found_unsubscribed :
    ¬ ∀ (ms : ManageSessions) (id n q : ℕ) (mem : ByteReader.Mem) (pkt : Packet)
        (unsub : Unsubscribe) (handled : Handled),
      Reachable .sorting ms → Present ms (ms.getClientId id) id →
      unpack Core.bigEndian n mem 0 = .ok ((mqttOk, pkt), q) → pkt.pkt = .unsubscribe unsub →
      dispatch .sorting pkt id ms = .ok handled → Unsubscribes unsub id ms handled.state := by
  intro h
  obtain ⟨q, hu⟩ := exists_unpack_unsubscribe
  have hpresent : Present oneSubscriber (oneSubscriber.getClientId 0) 0 :=
    ⟨3, by decide +kernel, by decide +kernel⟩
  have hunsub :=
    h oneSubscriber 0 _ q _ (unsubscribePacket 116) _ _ (after_reachable _ _) hpresent hu
    rfl rfl
  refine hunsub.removed [116] (List.mem_singleton_self _) (by decide) ?_
  have hfound : (oneSubscriber.topicTree.match [116]).2.any fun sub =>
      sub.session.clientId = oneSubscriber.getClientId 0 := by decide +kernel
  obtain ⟨sub, hmem, hclient⟩ := List.any_eq_true.1 hfound
  exact ⟨sub, hmem, of_decide_eq_true hclient⟩

end Unsubscribe

end Culex
