import Culex.Asking
import Culex.Encoding
import Culex.Parsing

/-!
# Publish and subscribe, over whole runs

The subscriptions that clients ask for in the course of a run make a table, which is computed from
the events alone.  As long as they ask for filters without wildcards, and for none that the tree
takes for the topic though it is another one (`Literal`), a message to the topic goes to the row of
the topic (`targets_of_run`).  With QoS 0 it is relayed as it has come, byte for byte, once to each
of the connected clients in the row, and hardly anything else happens (`relayed_of_run`).
-/

namespace Culex

open ByteReader ManageSessions

/-- What a request does to the table of subscriptions by filter and client. -/
def TreeCall.onTopics (table : Table Bytes Bytes Subscription) :
    TreeCall → Table Bytes Bytes Subscription
  | subscribe filter session qos => table.set filter session.clientId (some ⟨session, qos⟩)
  | unsubscribe filter session => table.set filter session.clientId none
  | .match _ => table

section Asking

variable (p : Platform)

/-- What the event asks for are filters without wildcards, and none but the topic itself has the
levels of the topic. -/
def Literal (topic : Bytes) (ms : ManageSessions) (e : Event) : Prop :=
  ∀ op ∈ e.requests p ms, Concrete op.topic ∧ (split op.topic = split topic → op.topic = topic)

/-- An event, as far as the table of subscriptions is concerned. -/
def enterRequests (x : ManageSessions × Table Bytes Bytes Subscription) (e : Event) :
    ManageSessions × Table Bytes Bytes Subscription :=
  (attempt p x.1 e, (e.requests p x.1).foldl TreeCall.onTopics x.2)

/-- The subscriptions after some events: the last one of a client to a topic counts. -/
def subscribedBy (events : List Event) : Table Bytes Bytes Subscription :=
  (events.foldl (enterRequests p) ({}, fun _ _ => none)).2

end Asking

variable {p : Platform} {ms ms' : ManageSessions} {e : Event} {packet : Packet} {pub : Publish}
  {id t : ℕ} {handled : Handled} {events : List Event} {topic : Bytes}

/-! ### The tree and the table -/

/-- The row of the topic in the tree is that in the table of filters. -/
def RowOf (topic : Bytes) (ms : ManageSessions) (table : Table Bytes Bytes Subscription) : Prop :=
  ms.topicTree.table (split topic) = table topic

/-- A request for another topic leaves the row alone in both. -/
theorem onTable_row {levels : Table Path Bytes Subscription}
    {table : Table Bytes Bytes Subscription} {op : TreeCall}
    (hop : split op.topic = split topic → op.topic = topic)
    (h : levels (split topic) = table topic) :
    op.onTable levels (split topic) = op.onTopics table topic := by
  have hset : ∀ clientId (entry : Option Subscription),
      levels.set (split op.topic) clientId entry (split topic) =
        table.set op.topic clientId entry topic := by
    intro clientId entry
    by_cases hsame : op.topic = topic
    · rw [hsame, Table.set_self, Table.set_self, h]
    · rw [Table.set_of_ne _ _ _ fun hs => hsame (hop hs.symm),
        Table.set_of_ne _ _ _ (Ne.symm hsame), h]
  cases op with
  | subscribe filter session qos => exact hset _ _
  | unsubscribe filter session => exact hset _ _
  | «match» name => exact h

theorem foldl_onTable_row {calls : List TreeCall} {levels : Table Path Bytes Subscription}
    {table : Table Bytes Bytes Subscription}
    (hcalls : ∀ op ∈ calls, split op.topic = split topic → op.topic = topic)
    (h : levels (split topic) = table topic) :
    calls.foldl TreeCall.onTable levels (split topic) =
      calls.foldl TreeCall.onTopics table topic := by
  induction calls generalizing levels table with
  | nil => exact h
  | cons op calls ih =>
    exact ih (fun o ho => hcalls o (List.mem_cons_of_mem _ ho))
      (onTable_row (hcalls op List.mem_cons_self) h)

/-- **An event enters what it asks for**, and nothing else. -/
theorem Event.apply_row {table : Table Bytes Bytes Subscription} (hs : Sound ms)
    (hliteral : Literal p topic ms e) (h : e.apply p ms = .ok ms') (hrow : RowOf topic ms table) :
    RowOf topic ms' ((e.requests p ms).foldl TreeCall.onTopics table) := by
  unfold RowOf at hrow ⊢
  rcases Event.apply_requests hs h with ⟨hnil, hrows⟩ | htree
  · rw [hnil, hrows, hrow]
    rfl
  · rw [htree, TopicTree.table_calls fun op hop => (hliteral op hop).1]
    exact foldl_onTable_row (fun op hop => (hliteral op hop).2) hrow

theorem table_empty : TopicTree.empty.table = fun _ _ => none := by
  funext path clientId
  rw [TopicTree.table, show TopicTree.empty.root.subsAt path = ∅ from Node.subsAt_new _ _,
    AList.lookup_empty]

/-- **The tree stands for what clients have asked for**, over every run in which they ask for
filters without wildcards and keep apart from the topic. -/
theorem row_of_run (hrun : Run (Meeting (BrokerStep p) (Literal p topic)) {} events ms) :
    RowOf topic ms (subscribedBy p events) := by
  have hfold : Reachable p ms ∧ ∃ table,
      events.foldl (enterRequests p) ({}, fun _ _ => none) = (ms, table) ∧
        RowOf topic ms table := by
    refine hrun.history (I := fun events ms => Reachable p ms ∧ ∃ table,
      events.foldl (enterRequests p) ({}, fun _ _ => none) = (ms, table) ∧ RowOf topic ms table)
      ⟨.init, _, rfl, congrFun table_empty _⟩ ?_
    rintro events ms₁ e ms₂ ⟨hr, table, hevents, hrow⟩ ⟨hliteral, hstep⟩
    have hok : e.apply p ms₁ = .ok ms₂ := hstep
    refine ⟨hr.step hok, _, ?_, Event.apply_row hr.sound hliteral hok hrow⟩
    rw [List.foldl_append, hevents, List.foldl_cons, List.foldl_nil, enterRequests, attempt, hok]
  obtain ⟨-, table, hevents, hrow⟩ := hfold
  unfold subscribedBy
  rwa [hevents]

theorem listing_targets (hrun : Run (Meeting (BrokerStep p) (Literal p pub.topic)) {} events ms)
    (ht : Concrete pub.topic) : Listing (fun sub => sub.session.clientId)
      (subscribedBy p events pub.topic) (routeTargets p pub ms) := by
  have hr : Reachable p ms := ⟨events, hrun.of_meeting⟩
  obtain ⟨calls, -, htree⟩ := hr.tree
  have hkeyed : ms.topicTree.Keyed := htree ▸ TopicTree.keyed_calls calls
  have hrow : ms.topicTree.table (split pub.topic) = _ := row_of_run hrun
  rw [← hrow]
  exact (hkeyed.lists ht).of_perm (p.traverse_perm _ _)

instance (ms : ManageSessions) (e : Event) : Decidable (Literal p topic ms e) :=
  inferInstanceAs (Decidable (∀ op ∈ e.requests p ms,
    Concrete op.topic ∧ (split op.topic = split topic → op.topic = topic)))

/-- An event that asks for no filter with a wildcard, and for none that is taken for the topic. -/
def literalNext (p : Platform) (topic : Bytes) (ms : ManageSessions) (e : Event) :
    Option ManageSessions :=
  if Literal p topic ms e then (e.apply p ms).toOption else none

theorem literalNext_step (h : literalNext p topic ms e = some ms') :
    Meeting (BrokerStep p) (Literal p topic) ms e ms' := by
  unfold literalNext at h
  split_ifs at h with hliteral
  cases hms : e.apply p ms with
  | error fault =>
    rw [hms] at h
    cases h
  | ok ms₁ =>
    rw [hms] at h
    obtain rfl := Option.some.inj h
    exact ⟨hliteral, hms⟩

/-- `A` and `B` subscribe to `t` with QoS 1, and `A` once more with QoS 0. -/
def literalRun : List Event :=
  .newConnection 3 :: arrive 0 (connectFrame 65 2) ++ arrive 0 (subscribeFrame 116 1) ++
    .newConnection 4 :: arrive 2 (connectFrame 66 2) ++ arrive 2 (subscribeFrame 116 1) ++
    arrive 0 (subscribeFrame 116 0)

/-- **A message goes to the row of its topic**: over every run in which clients ask for filters
without wildcards, and for none that has the levels of the topic and is another one, routing goes
through the subscriptions that they have asked for, the last one of each client and each once. -/
theorem targets_of_run (hrun : Run (Meeting (BrokerStep p) (Literal p pub.topic)) {} events ms)
    (ht : Concrete pub.topic) : Listing (fun sub => sub.session.clientId)
      (subscribedBy p events pub.topic) (routeTargets p pub ms) :=
  listing_targets hrun ht

/-- The first subscription of `A` no longer counts. -/
theorem targets_of_run_twice : ∃ ms, Run (Meeting (BrokerStep .sorting) (Literal .sorting [116])) {}
    literalRun ms ∧ (routeTargets .sorting messageSeven ms).Nodup ∧
      ⟨⟨[65], 1⟩, 0⟩ ∈ routeTargets .sorting messageSeven ms ∧
      ⟨⟨[65], 1⟩, 1⟩ ∉ routeTargets .sorting messageSeven ms ∧
      ⟨⟨[66], 3⟩, 1⟩ ∈ routeTargets .sorting messageSeven ms := by
  obtain ⟨ms, hms, hA, hB⟩ := @exists_of_any _ (literalRun.foldlM (literalNext .sorting [116]) {})
    (fun _ => subscribedBy .sorting literalRun [116] [65] = some ⟨⟨[65], 1⟩, 0⟩ ∧
      subscribedBy .sorting literalRun [116] [66] = some ⟨⟨[66], 3⟩, 1⟩) _ (by decide +kernel)
  have hrun := Run.of_foldlM (fun _ _ _ => literalNext_step) hms
  have hlist := @targets_of_run .sorting ms messageSeven literalRun hrun (by decide)
  refine ⟨ms, hrun, .of_map _ hlist.nodup, (hlist.mem _).2 hA, fun h => ?_, (hlist.mem _).2 hB⟩
  have hold := hA.symm.trans ((hlist.mem ⟨⟨[65], 1⟩, 1⟩).1 h)
  cases hold

/-! ### Messages with QoS 0 -/

/-- What a subscriber is sent of a message with QoS 0: `frame`, if it is connected. -/
def relays (packet : Packet) (frame : Bytes) (ms : ManageSessions) (sub : Subscription) :
    List Call :=
  if ms.connectedAt sub.session = some true then
    .sendToClient sub.session packet ::
      ((ms.transportOf sub.session).map fun t => Call.pushDataToSend t frame).toList
  else []

theorem relays_congr {frame : Bytes} (hcon : ms'.connectedAt = ms.connectedAt)
    (htransport : ms'.transportOf = ms.transportOf) :
    relays packet frame ms' = relays packet frame ms := by
  funext sub
  unfold relays
  rw [hcon, htransport]

theorem routeStep_relays (h : IsPublish packet pub) (hq : packet.header.qos = 0)
    (sub : Subscription) : routeStep p sub (ms, packet) = .ok ({ ms with
      calls := ms.calls ++ relays packet (publishBytes packet.header pub) ms sub }, packet) := by
  unfold relays
  cases hl : ms.lock sub.session with
  | none =>
    rw [routeStep_dead hl, connectedAt_eq_none hl, if_neg (by simp), List.append_nil]
  | some cs =>
    rw [connectedAt_of_lock hl, transportOf_of_lock hl]
    by_cases hcon : cs.connected = true
    · have hmin : min packet.header.qos sub.qos = packet.header.qos := by
        rw [← UInt8.toNat_inj, toNat_min]
        simp [hq]
      have hsame : packet.withQos (min packet.header.qos sub.qos) = packet := by
        rw [hmin]
        rfl
      rw [routeStep_connected h hl hcon, hsame, hcon, if_pos rfl,
        delivered_of_not_pos (by rw [hq]; decide), pushIfAlive_eq]
      simp only [record, List.append_assoc, List.singleton_append]
      rfl
    · have hoff : cs.connected = false := by simpa using hcon
      have hqueued : queued sub.session cs packet ms = ms :=
        if_neg (by rw [hq]; decide)
      rw [routeStep_offline hl hoff, hqueued, hoff, if_neg (by simp), List.append_nil]

/-- **The loop relays a message with QoS 0**, and does nothing else. -/
theorem routeLoop_relays (h : IsPublish packet pub) (hq : packet.header.qos = 0)
    (subs : List Subscription) : routeLoop p subs (ms, packet) = .ok ({ ms with
      calls := ms.calls ++ subs.flatMap (relays packet (publishBytes packet.header pub) ms) },
        packet) := by
  induction subs generalizing ms with
  | nil =>
    rw [List.flatMap_nil, List.append_nil]
    rfl
  | cons sub subs ih =>
    have hsame : relays packet (publishBytes packet.header pub) { ms with
        calls := ms.calls ++ relays packet (publishBytes packet.header pub) ms sub } =
          relays packet (publishBytes packet.header pub) ms := relays_congr rfl rfl
    rw [routeLoop_cons (routeStep_relays h hq sub), ih, hsame]
    simp only [List.flatMap_cons, List.append_assoc]

theorem routePacket_relays (h : IsPublish packet pub) (hq : packet.header.qos = 0) :
    routePacket p packet none ms = .ok ({ ms with
      topicTree := (ms.topicTree.match pub.topic).1
      calls := ms.calls ++ .routePacket packet :: (routeTargets p pub ms).flatMap
        (relays packet (publishBytes packet.header pub) ms) }, packet) := by
  have hsame : relays packet (publishBytes packet.header pub) (routeStart packet pub ms) =
      relays packet (publishBytes packet.header pub) ms := relays_congr rfl rfl
  rw [routePacket_eq h, routeLoop_relays h hq, hsame]
  simp only [routeStart, record, List.append_assoc, List.singleton_append]

/-! ### From frame to frame -/

/-- The frame of a PUBLISH with QoS 0 is built as it has come. -/
theorem publishBytes_eq_frame (hwf : Wire.WellFormed packet) (h : IsPublish packet pub)
    (hq : packet.header.qos = 0) : publishBytes packet.header pub = Wire.frame packet := by
  have hvariant := hwf.variant
  rw [h.pkt] at hvariant
  obtain ⟨-, -, htopic, hid⟩ := hvariant
  have hbody : Wire.body packet = Wire.publishBody packet.header.qos pub := by
    unfold Wire.body
    rw [h.pkt]
  have hlen := hwf.length_le
  rw [hbody] at hlen
  have hpublishable : Publishable packet pub :=
    { h with
      qos_le := by rw [hq]; decide
      topic_le := by omega
      remaining_le := hlen }
  have hpub : { pub with packetId := 0 } = pub := by
    rw [← hid hq]
  rw [publishBytes_eq hpublishable]
  unfold Wire.frame
  rw [body_onWire, hpub, hbody]
  rfl

/-- A calm step connects nobody, and closes nothing. -/
theorem Calm.sees {sub : Option SessionRef} {log : List Call} (h : Calm sub log ms ms')
    (htasks : ms'.tasks = ms.tasks) :
    ms'.connectedAt = ms.connectedAt ∧ ms'.transportOf = ms.transportOf := by
  have htransport : ms'.lockTransport = ms.lockTransport := by
    funext transport
    rw [lockTransport_eq, lockTransport_eq, h.socketOf, h.sessions, htasks]
  constructor <;> funext r
  · cases hl : ms.lock r with
    | none => rw [connectedAt_eq_none hl, connectedAt_eq_none (h.dead r hl)]
    | some cs =>
      obtain ⟨cs', hl', hcalm⟩ := h.alive r cs hl
      rw [connectedAt_of_lock hl, connectedAt_of_lock hl', hcalm.connected]
  · cases hl : ms.lock r with
    | none => rw [transportOf, transportOf, hl, h.dead r hl, Option.bind_none, Option.bind_none]
    | some cs =>
      obtain ⟨cs', hl', hcalm⟩ := h.alive r cs hl
      rw [transportOf_of_lock hl, transportOf_of_lock hl', hcalm.session, htransport]

/-- The state after a PUBLISH with QoS 0 has been handled: the frames are pushed, the tree has the
nodes of the topic, and the publisher has been active. -/
def relayed (p : Platform) (packet : Packet) (pub : Publish) (id : ℕ) (ms : ManageSessions) :
    ManageSessions :=
  { ms with
    topicTree := (ms.topicTree.match pub.topic).1
    sessionRegistry := (ms.updateActivity (ms.getClientId id)).sessionRegistry
    calls := ms.calls ++ .routePacket packet :: (routeTargets p pub ms).flatMap
      (relays packet (Wire.frame packet) ms) }

/-- The handler of a PUBLISH with QoS 0. -/
theorem publishHandler_relays (hwf : Wire.WellFormed packet) (hp : IsPublish packet pub)
    (hq : packet.header.qos = 0) : dispatch p packet id ms =
      .ok { state := relayed p packet pub id ms, returnCode := mqttOk } := by
  set ms₁ := ms.updateActivity (ms.getClientId id) with hms₁
  have hactive : Calm none [] ms ms₁ := .updateActivity _
  have hsteady : Steady ms ms₁ := .updateActivity _
  obtain ⟨hcon, htransport⟩ := hactive.sees hsteady.tasks
  have heq : ms₁ = { ms with sessionRegistry := ms₁.sessionRegistry } := by
    rw [hms₁]
    unfold updateActivity
    split <;> rfl
  have hhandle : publishHandler p packet id ms = (routePacket p packet none ms₁).bind fun x =>
      .ok { state := x.1, returnCode := mqttOk } := by
    unfold publishHandler
    rw [hp.pkt]
    simp only [if_pos hq]
    rfl
  have hdispatch : dispatch p packet id ms = publishHandler p packet id ms := by
    unfold dispatch handlers
    rw [hp.type]
    rfl
  have hrelayed : relayed p packet pub id ms = { ms₁ with
      topicTree := (ms₁.topicTree.match pub.topic).1
      calls := ms₁.calls ++ .routePacket packet :: (routeTargets p pub ms₁).flatMap
        (relays packet (Wire.frame packet) ms) } := by
    rw [heq]
    rfl
  rw [hdispatch, hhandle, routePacket_relays hp hq, publishBytes_eq_frame hwf hp hq,
    relays_congr hcon htransport, hrelayed]
  rfl

/-- The task that finds a PUBLISH with QoS 0. -/
theorem apply_relays (hwf : Wire.WellFormed packet) (hp : IsPublish packet pub)
    (hq : packet.header.qos = 0) (hmem : id ∈ ms.tasks) {rest : Bytes}
    (hbuffer : ms.receiveBuffer id = Wire.frame packet ++ rest) (beyond : Mem) :
    Event.apply p (.parseData id beyond) ms = .ok { relayed p packet pub id ms with
        transports := (takeOut packet id ms).transports
        tasks := ms.tasks.erase id } ∧
      (takeOut packet id ms).receiveBuffer id = rest := by
  -- the packet is taken out first, and then handled
  have htake : takeOut packet id ms = { ms with transports := (takeOut packet id ms).transports } :=
    setTransport_eq _ _ _
  obtain ⟨hcon, htransport⟩ := (@takeOut_calm ms id packet none).sees (by rw [htake])
  have hregistry : ((takeOut packet id ms).updateActivity (ms.getClientId id)).sessionRegistry =
      (ms.updateActivity (ms.getClientId id)).sessionRegistry := by
    rw [htake]
    unfold updateActivity
    cases ms.sessionRegistry.lookup (ms.getClientId id) <;> rfl
  have hhandled : (dispatch p packet id (takeOut packet id ms) >>= finish packet id) =
      .ok (relayed p packet pub id (takeOut packet id ms)) := by
    rw [publishHandler_relays hwf hp hq]
    rfl
  obtain ⟨hstep, hrest⟩ := apply_frame hwf hmem hbuffer beyond hhandled
  refine ⟨?_, hrest⟩
  rw [hstep, endTask, relayed, getClientId_takeOut, hregistry, relays_congr hcon htransport, htake]
  rfl

/-- **From frame to frames**: over every run in which clients ask for filters without wildcards, and
for none that is taken for the topic, the task that finds the frame of a PUBLISH with QoS 0 pushes
this frame once to each connected client that has subscribed to the topic.  Besides, the frame is
taken out of the receive buffer, the publisher's session has been active, the tree has the nodes
that the match adds, with the same subscriptions, and the task is over.  Nothing else changes. -/
theorem relayed_of_run (hrun : Run (Meeting (BrokerStep p) (Literal p pub.topic)) {} events ms)
    (hwf : Wire.WellFormed packet) (hp : IsPublish packet pub) (hq : packet.header.qos = 0)
    (ht : Concrete pub.topic) (hmem : id ∈ ms.tasks) {rest : Bytes}
    (hbuffer : ms.receiveBuffer id = Wire.frame packet ++ rest) (beyond : Mem) :
    ∃ targets, Listing (fun sub => sub.session.clientId)
        (subscribedBy p events pub.topic) targets ∧
      (ms.topicTree.match pub.topic).1.table = ms.topicTree.table ∧
      Event.apply p (.parseData id beyond) ms = .ok { ms with
        calls := ms.calls ++ .routePacket packet ::
          targets.flatMap (relays packet (Wire.frame packet) ms)
        transports := (takeOut packet id ms).transports
        sessionRegistry := (ms.updateActivity (ms.getClientId id)).sessionRegistry
        topicTree := (ms.topicTree.match pub.topic).1
        tasks := ms.tasks.erase id } ∧
      (takeOut packet id ms).receiveBuffer id = rest := by
  exact ⟨routeTargets p pub ms, listing_targets hrun ht, TopicTree.table_match pub.topic,
    apply_relays hwf hp hq hmem hbuffer beyond⟩

/-- A message to `t` with QoS 0. -/
def relayedMessage : Publish := { topic := [116], payload := [1] }

def relayedPacket : Packet where
  header := { type := .publish }
  pktLen := 6
  pkt := .publish relayedMessage

/-- `B` publishes it. -/
def relayRun : List Event := literalRun ++ [.receive 2 (Wire.frame relayedPacket)]

/-- Both are sent the frame. -/
theorem relayed_of_run_both : ∃ ms ms',
    Run (Meeting (BrokerStep .sorting) (Literal .sorting [116])) {} relayRun ms ∧
    Event.apply .sorting (.parseData 2 fun _ => 0) ms = .ok ms' ∧
    Call.pushDataToSend 0 [0x30, 4, 0, 1, 116, 1] ∈ ms'.calls.drop ms.calls.length ∧
    Call.pushDataToSend 2 [0x30, 4, 0, 1, 116, 1] ∈ ms'.calls.drop ms.calls.length := by
  obtain ⟨ms, hms, hA, hB, hmem, hbuffer, hconA, hconB⟩ := @exists_of_any _
    (relayRun.foldlM (literalNext .sorting [116]) {})
    (fun ms => subscribedBy .sorting relayRun [116] [65] = some ⟨⟨[65], 1⟩, 0⟩ ∧
      subscribedBy .sorting relayRun [116] [66] = some ⟨⟨[66], 3⟩, 1⟩ ∧
      2 ∈ ms.tasks ∧ ms.receiveBuffer 2 = Wire.frame relayedPacket ++ [] ∧
      relays relayedPacket (Wire.frame relayedPacket) ms ⟨⟨[65], 1⟩, 0⟩ =
        [.sendToClient ⟨[65], 1⟩ relayedPacket, .pushDataToSend 0 [0x30, 4, 0, 1, 116, 1]] ∧
      relays relayedPacket (Wire.frame relayedPacket) ms ⟨⟨[66], 3⟩, 1⟩ =
        [.sendToClient ⟨[66], 3⟩ relayedPacket, .pushDataToSend 2 [0x30, 4, 0, 1, 116, 1]]) _
    (by decide +kernel)
  have hrun := Run.of_foldlM (fun _ _ _ => literalNext_step) hms
  have hwf : Wire.WellFormed relayedPacket :=
    ⟨⟨rfl, by decide, by decide, by decide⟩, by decide, by decide +kernel⟩
  obtain ⟨targets, hlist, -, hstep, -⟩ := @relayed_of_run .sorting ms relayedPacket
    relayedMessage 2 relayRun hrun hwf ⟨rfl, rfl⟩ rfl (by decide) hmem [] hbuffer fun _ => 0
  have hmemA : ⟨⟨[65], 1⟩, 0⟩ ∈ targets := (hlist.mem ⟨⟨[65], 1⟩, 0⟩).2 hA
  have hmemB : ⟨⟨[66], 3⟩, 1⟩ ∈ targets := (hlist.mem ⟨⟨[66], 3⟩, 1⟩).2 hB
  refine ⟨ms, _, hrun, hstep, ?_, ?_⟩
  · rw [List.drop_left]
    refine List.mem_cons_of_mem _ (List.mem_flatMap.2 ⟨_, hmemA, ?_⟩)
    rw [hconA]
    simp
  · rw [List.drop_left]
    refine List.mem_cons_of_mem _ (List.mem_flatMap.2 ⟨_, hmemB, ?_⟩)
    rw [hconB]
    simp

end Culex
