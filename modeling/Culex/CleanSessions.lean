import Culex.Evolving

/-!
# What clean sessions keep apart

A CONNECT with a clean session starts with nothing (`cutOff_of_clean`).  One without resumes
whatever is registered for its client, and this may be a clean session: only the sweep and malformed
packets remove one.  Whether a run keeps them apart is stated with the history of its CONNECTs.

* `accepted_fresh`: a new session is blank, and no subscription refers to it;
* `separates_of_run`: over a run in which CONNECTs without a clean session find no clean session.
-/

namespace Culex

open ManageSessions

/-- The client has a session that nothing has happened to and that nothing is routed to. -/
def StartsFresh (clientId : Bytes) (ms : ManageSessions) : Prop :=
  ∃ entry, ms.sessionRegistry.lookup clientId = some entry ∧ entry.state.Blank ∧
    ms.topicTree.Unsubscribed ⟨clientId, entry.obj⟩

variable {p : Platform} {ms ms' : ManageSessions} {cn : Connect} {id : ℕ} {e : Event}

/-- A session that an accepted CONNECT creates. -/
theorem accepted_fresh (hr : Reachable p ms) (h : Change p ms ms' (.connect id cn))
    (hlevel : cn.level = 4) (hrenews : Renews ms cn) :
    ms'.sessionRegistry.lookup cn.clientId =
        some ⟨ms.nextObj, (newSession cn id ms.now).expiring⟩ ∧ StartsFresh cn.clientId ms' := by
  obtain ⟨ms₁, tasks, hconnects, rfl⟩ := h
  have hreg := hconnects.client
  rw [registration, if_pos hrenews, if_pos hlevel] at hreg
  rw [finishConnect_eq]
  refine ⟨hreg, _, hreg, ?_, ?_⟩
  · rw [expiring_eq]
    exact ⟨rfl, rfl, rfl⟩
  · by_contra hsub
    rw [hconnects.topicTree] at hsub
    exact lt_irrefl _ (hr.allocated.subscribed _ hsub)

/-! ### Until the client subscribes -/

/-- An event that gives the client no subscriptions. -/
def Withholds (p : Platform) (clientId : Bytes) (ms : ManageSessions) (e : Event) : Prop :=
  ∀ r, (e.kind p ms).subscriber = some r → r.clientId ≠ clientId

/-- What nothing is routed to stays so, over any run without a SUBSCRIBE of its client. -/
theorem unsubscribed_of_run {events : List Event} {r : SessionRef} (hr : Reachable p ms)
    (hu : ms.topicTree.Unsubscribed r)
    (hrun : Run (Meeting (BrokerStep p) (Withholds p r.clientId)) ms events ms') :
    Reachable p ms' ∧ ms'.topicTree.Unsubscribed r ∧
      ∃ log, ms'.calls = ms.calls ++ log ∧ ∀ call ∈ log, call.receiver ≠ some r := by
  refine hrun.invariant (I := fun ms' => Reachable p ms' ∧ ms'.topicTree.Unsubscribed r ∧
    ∃ log, ms'.calls = ms.calls ++ log ∧ ∀ call ∈ log, call.receiver ≠ some r)
    ⟨hr, hu, [], (List.append_nil _).symm, by simp⟩ ?_
  rintro ms₁ e ms₂ ⟨hr₁, hu₁, log, hcalls, hlog⟩ ⟨hwithholds, hstep⟩
  have hsub : (e.kind p ms₁).subscriber ≠ some r := fun hs => hwithholds r hs rfl
  obtain ⟨log', hevolves⟩ := (e.apply_change hr₁.sound hstep).evolves
  refine ⟨hr₁.step hstep, hevolves.unsubscribed r hu₁ hsub, log ++ log', ?_, fun call hc hrec => ?_⟩
  · rw [hevolves.calls, hcalls, List.append_assoc]
  · rcases List.mem_append.1 hc with hc | hc
    · exact hlog call hc hrec
    · rcases hevolves.receivers call hc r hrec with hnot | hs
      · exact hnot hu₁
      · exact hsub hs

/-- Routing a PUBLISH delivers nothing to what it finds no subscription of. -/
theorem routePacket_withheld {packet : Packet} {pub : Publish} {r : SessionRef}
    (h : IsPublish packet pub) (hu : ms.topicTree.Unsubscribed r) :
    ∃ ms' packet' log, routePacket p packet none ms = .ok (ms', packet') ∧
      ms'.calls = ms.calls ++ log ∧ ∀ call ∈ log, call.receiver ≠ some r := by
  obtain ⟨ms', packet', log, hroute, hcalm⟩ := @routePacket_calm p packet pub ms none h none
  refine ⟨ms', packet', log, hroute, hcalm.calls, fun call hc hrec => ?_⟩
  rcases hcalm.receivers call hc r hrec with hnot | hs
  · exact hnot hu
  · cases hs

/-- **A CONNECT with a clean session cuts off all earlier state**: the session that is registered
then is blank, and until its client subscribes nothing is sent to it or stored in it. -/
theorem cutOff_of_clean (hr : Reachable p ms) (hstep : e.apply p ms = .ok ms')
    (hkind : e.kind p ms = .connect id cn) (hlevel : cn.level = 4)
    (hclean : cn.cf.cleansession = true) :
    ∃ entry, ms'.sessionRegistry.lookup cn.clientId = some entry ∧ entry.state.Blank ∧
      ∀ events ms₂, Run (Meeting (BrokerStep p) (Withholds p cn.clientId)) ms' events ms₂ →
        (∃ log, ms₂.calls = ms'.calls ++ log ∧
          ∀ call ∈ log, call.receiver ≠ some ⟨cn.clientId, entry.obj⟩) ∧
        ∀ packet pub, IsPublish packet pub → ∃ ms₃ packet' log,
          routePacket p packet none ms₂ = .ok (ms₃, packet') ∧ ms₃.calls = ms₂.calls ++ log ∧
            ∀ call ∈ log, call.receiver ≠ some ⟨cn.clientId, entry.obj⟩ := by
  have hchange := e.apply_change hr.sound hstep
  rw [hkind] at hchange
  obtain ⟨-, entry, hreg, hblank, hu⟩ := accepted_fresh hr hchange hlevel (.inr hclean)
  refine ⟨entry, hreg, hblank, fun events ms₂ hrun => ?_⟩
  obtain ⟨-, hu₂, hlog⟩ := unsubscribed_of_run (hr.step hstep) hu hrun
  exact ⟨hlog, fun packet pub hpub => routePacket_withheld hpub hu₂⟩

/-- Client `A` is connected and subscribed to `t`, and a CONNECT of `A` has arrived on another
transport. -/
def reconnecting : ManageSessions :=
  after .sorting (.newConnection 3 :: arrive 0 (connectFrame 65 2) ++
    arrive 0 (subscribeFrame 116 1) ++ [.newConnection 4, .receive 2 (connectFrame 65 2)])

/-- Nothing is routed to its new session. -/
theorem cutOff_of_clean_reconnecting :
    ∃ ms' entry, BrokerStep .sorting reconnecting (.parseData 2 fun _ => 0) ms' ∧
      ms'.sessionRegistry.lookup [65] = some entry ∧ entry.state.Blank ∧
        ∃ ms₃ packet' log, routePacket .sorting packetSeven none ms' = .ok (ms₃, packet') ∧
          ms₃.calls = ms'.calls ++ log ∧ ∀ call ∈ log, call.receiver ≠ some ⟨[65], entry.obj⟩ := by
  have hkind : Event.kind .sorting (.parseData 2 fun _ => 0) reconnecting =
      .connect 2 (connectA true) := by decide +kernel
  have hok : (Event.apply .sorting (.parseData 2 fun _ => 0) reconnecting).toOption.any
      fun _ => True := by decide +kernel
  obtain ⟨ms', hstep, -⟩ := exists_of_any_ok hok
  obtain ⟨entry, hreg, hblank, hcut⟩ :=
    cutOff_of_clean (after_reachable .sorting _) hstep hkind rfl rfl
  have hpub : IsPublish packetSeven messageSeven := ⟨rfl, rfl⟩
  exact ⟨ms', entry, hstep, hreg, hblank, (hcut [] ms' .nil).2 packetSeven _ hpub⟩

/-! ### The history of CONNECTs -/

/-- Whether the last accepted CONNECT of a client asked for a clean session. -/
abbrev History := Bytes → Option Bool

/-- An accepted CONNECT goes into the history. -/
def Kind.note (history : History) : Kind → History
  | .connect _ cn =>
    if cn.level = 4 then Function.update history cn.clientId (some cn.cf.cleansession) else history
  | .calm _ => history
  | .newConnection _ => history
  | .closeConnection _ => history
  | .malformed _ => history
  | .expire => history

/-- An event of the broker, with the history. -/
def withHistory (p : Platform) (s : ManageSessions × History) (e : Event) :
    Except Fault (ManageSessions × History) :=
  (e.apply p s.1).map fun ms => (ms, (e.kind p s.1).note s.2)

def RecordedStep (p : Platform) (s : ManageSessions × History) (e : Event)
    (s' : ManageSessions × History) : Prop := withHistory p s e = .ok s'

/-- The start of every run: nobody has connected. -/
def unrecorded : ManageSessions × History := ({}, fun _ => none)

/-- What is registered for the client of the CONNECT is no clean session. -/
def Resumable (cn : Connect) (ms : ManageSessions) : Prop :=
  ∀ entry, ms.sessionRegistry.lookup cn.clientId = some entry → entry.state.cleansession = false

/-- A CONNECT without a clean session, accepted or not, finds no clean session. -/
def ResumableStep (p : Platform) (s : ManageSessions × History) (e : Event) : Prop :=
  ∀ id cn, e.kind p s.1 = .connect id cn → cn.cf.cleansession = false → Resumable cn s.1

/-- An accepted CONNECT without a clean session resumes no clean session. -/
structure Separates (cn : Connect) (s : ManageSessions × History) (ms' : ManageSessions) :
    Prop where
  sessionPresent : (connackFor cn s.1).ackFlags = 0x01 → s.2 cn.clientId = some false
  fresh : s.2 cn.clientId ≠ some false → StartsFresh cn.clientId ms'

/-- The flag of a registered session is that of the last accepted CONNECT of its client. -/
def Recorded (s : ManageSessions × History) : Prop :=
  ∀ clientId entry, s.1.sessionRegistry.lookup clientId = some entry →
    s.2 clientId = some entry.state.cleansession

theorem recordedStep_iff {s s' : ManageSessions × History} :
    RecordedStep p s e s' ↔ e.apply p s.1 = .ok s'.1 ∧ s'.2 = (e.kind p s.1).note s.2 := by
  unfold RecordedStep withHistory
  cases e.apply p s.1 with
  | error fault => exact iff_of_false (fun h => (by cases h)) fun h => (by cases h.1)
  | ok ms' =>
    constructor
    · intro h
      obtain rfl := Except.ok.inj h
      exact ⟨rfl, rfl⟩
    · rintro ⟨hms, hnote⟩
      exact congrArg Except.ok (Prod.ext (Except.ok.inj hms) hnote.symm)

/-- Where no session appears and the flags of those that stay are kept. -/
theorem Recorded.of_alive {history : History} (h : Recorded (ms, history))
    (halive : ∀ r cs', ms'.lock r = some cs' → ∃ cs, ms.lock r = some cs ∧
      cs'.cleansession = cs.cleansession) : Recorded (ms', history) := by
  intro clientId entry hl'
  obtain ⟨cs, hl, hflag⟩ := halive _ _ (lock_of_lookup hl')
  have hold := h clientId _ (lock_eq_some_iff.1 hl)
  rw [hflag]
  exact hold

theorem Sweeps.recorded {history : History} (hs : Sweeps ms ms') (h : Recorded (ms, history)) :
    Recorded (ms', history) := by
  refine h.of_alive fun r cs' hl' => ?_
  obtain ⟨cs, hl, hswept⟩ := hs.alive r cs' hl'
  refine ⟨cs, hl, ?_⟩
  rw [hswept.eq]

/-- A CONNECT notes the flag with which it registers the session. -/
theorem Connects.recorded {history : History} {ms₁ : ManageSessions} (h : Recorded (ms, history))
    (hc : Connects cn id ms ms₁) (hres : cn.cf.cleansession = false → Resumable cn ms)
    (buff : Bytes) (tasks : List ℕ) : Recorded
      ({ finishConnect cn id buff ms₁ with tasks }, Kind.note history (.connect id cn)) := by
  intro clientId entry' hl'
  rw [finishConnect_eq] at hl'
  have hl' : ms₁.sessionRegistry.lookup clientId = some entry' := hl'
  simp only [Kind.note]
  by_cases hne : clientId = cn.clientId
  · subst hne
    rw [hc.client, registration] at hl'
    split_ifs at hl' with hrenews hlevel
    · obtain rfl := Option.some.inj hl'
      rw [if_pos hlevel, Function.update_self, expiring_eq]
      rfl
    · obtain ⟨entry, hl, rfl⟩ := Option.map_eq_some_iff.1 hl'
      have hclean := (not_renews_iff.1 hrenews).2
      split_ifs with hlevel
      · rw [Function.update_self]
        rfl
      · have hsame : cn.cf.cleansession = entry.state.cleansession := by
          rw [hclean, hres hclean entry hl]
        exact (h _ entry hl).trans (congrArg some hsame.symm)
  · rw [hc.others clientId hne] at hl'
    have hold := h clientId entry' hl'
    split_ifs
    · rw [Function.update_of_ne hne]
      exact hold
    · exact hold

/-- **A step that resumes no clean session keeps the record.** -/
theorem Change.recorded {k : Kind} {history : History} (h : Recorded (ms, history))
    (hk : Change p ms ms' k)
    (hres : ∀ id cn, k = .connect id cn → cn.cf.cleansession = false → Resumable cn ms) :
    Recorded (ms', k.note history) := by
  cases k with
  | calm subscriber =>
    obtain ⟨log, hcalm⟩ := hk
    refine h.of_alive fun r cs' hl' => ?_
    cases hl : ms.lock r with
    | none => cases (hcalm.dead r hl).symm.trans hl'
    | some cs =>
      obtain ⟨cs₁, hl₁, hcs⟩ := hcalm.alive r cs hl
      obtain rfl := Option.some.inj (hl₁.symm.trans hl')
      exact ⟨cs, rfl, hcs.cleansession⟩
  | newConnection fd =>
    obtain rfl := hk
    exact h
  | closeConnection fd =>
    obtain rfl := hk
    exact h
  | malformed id =>
    obtain ⟨entry, tasks, -, rfl⟩ := hk
    exact ((@purge_sweeps ms (ms.getClientId id) entry).trans (.forceDisconnect id)).recorded h
  | connect id cn =>
    obtain ⟨ms₁, tasks, hconnects, rfl⟩ := hk
    exact hconnects.recorded h (hres id cn rfl) _ _
  | expire =>
    obtain ⟨sweep, heap, -, rfl⟩ := hk
    have hpop : Sweeps ms { ms with expiryHeap := heap } := ⟨fun r cs h => ⟨cs, h, .refl cs⟩, rfl⟩
    exact (hpop.trans (.sweepOut sweep)).recorded h

/-- **A CONNECT without a clean session separates exactly if it finds no clean session.** -/
theorem separates_iff {s : ManageSessions × History} (hr : Reachable p s.1) (h : Recorded s)
    (hchange : Change p s.1 ms' (.connect id cn)) (hlevel : cn.level = 4)
    (hclean : cn.cf.cleansession = false) : Separates cn s ms' ↔ Resumable cn s.1 := by
  constructor
  · intro hsep entry hl
    have hflag : (connackFor cn s.1).ackFlags = 0x01 :=
      if_neg (not_renews_iff.2 ⟨⟨entry, hl⟩, hclean⟩)
    exact Option.some.inj ((h _ entry hl).symm.trans (hsep.sessionPresent hflag))
  · intro hres
    constructor
    case sessionPresent =>
      intro hflag
      by_cases hrenews : Renews s.1 cn
      · have hzero : (connackFor cn s.1).ackFlags = 0x00 := if_pos hrenews
        rw [hzero] at hflag
        cases hflag
      · obtain ⟨⟨entry, hl⟩, -⟩ := not_renews_iff.1 hrenews
        rw [h _ entry hl, hres entry hl]
    case fresh =>
      intro hlast
      refine (accepted_fresh hr hchange hlevel (.inl ?_)).2
      by_contra hsome
      obtain ⟨entry, hl⟩ := Option.ne_none_iff_exists'.1 hsome
      exact hlast (by rw [h _ entry hl, hres entry hl])

/-- The CONNACK of a CONNECT is the last that is sent with it. -/
theorem Change.connack (h : Change p ms ms' (.connect id cn)) :
    ∃ log, ms'.calls =
      ms.calls ++ log ++ [.pushDataToSend id (packConnack (connackFor cn ms))] := by
  obtain ⟨ms₁, tasks, hconnects, rfl⟩ := h
  obtain ⟨log, hcalls, -⟩ := hconnects.calls
  refine ⟨log, ?_⟩
  rw [finishConnect_eq]
  show ms₁.calls ++ _ = _
  rw [hcalls]

/-- **Over every run in which CONNECTs without a clean session find no clean session**, none of them
resumes one, and the next accepted one keeps it so exactly if it finds none, too. -/
theorem separates_of_run {events : List Event} {s s' : ManageSessions × History}
    (hrun : Run (Meeting (RecordedStep p) (ResumableStep p)) unrecorded events s)
    (hstep : RecordedStep p s e s') (hkind : e.kind p s.1 = .connect id cn)
    (hlevel : cn.level = 4) (hclean : cn.cf.cleansession = false) :
    (∃ log, s'.1.calls =
      s.1.calls ++ log ++ [.pushDataToSend id (packConnack (connackFor cn s.1))]) ∧
    (Separates cn s s'.1 ↔ ResumableStep p s e) := by
  have hinv : Reachable p s.1 ∧ Recorded s := by
    refine hrun.invariant (I := fun s => Reachable p s.1 ∧ Recorded s)
      ⟨.init, fun clientId entry hl => by cases hl⟩ ?_
    rintro s₁ e ⟨ms₂, history⟩ ⟨hr, hrec⟩ ⟨hres, hstep⟩
    obtain ⟨happly, rfl⟩ := recordedStep_iff.1 hstep
    exact ⟨hr.step happly, (e.apply_change hr.sound happly).recorded hrec hres⟩
  obtain ⟨happly, -⟩ := recordedStep_iff.1 hstep
  have hchange := e.apply_change hinv.1.sound happly
  rw [hkind] at hchange
  refine ⟨hchange.connack, (separates_iff hinv.1 hinv.2 hchange hlevel hclean).trans ?_⟩
  constructor
  · intro hres id' cn' hkind' _
    obtain ⟨-, rfl⟩ := Kind.connect.inj (hkind.symm.trans hkind')
    exact hres
  · exact fun hres => hres id cn hkind hclean

/-- Client `A` has connected without a clean session, its socket has been closed, and the same CONNECT
has arrived on a new connection. -/
def keptOpen : List Event :=
  .newConnection 3 :: arrive 0 (connectFrame 65 0) ++
    [.closeConnection 3, .newConnection 4, .receive 2 (connectFrame 65 0)]

/-- What is registered for a CONNECT without a clean session is none, as far as it can be looked
up. -/
def resumableStep (p : Platform) (s : ManageSessions × History) (e : Event) : Bool :=
  match e.kind p s.1 with
  | .connect _ cn => cn.cf.cleansession ||
    (s.1.sessionRegistry.lookup cn.clientId).all fun entry => !entry.state.cleansession
  | _ => true

theorem resumableStep_of_eq_true {s : ManageSessions × History}
    (h : resumableStep p s e = true) : ResumableStep p s e := by
  intro id cn hkind hclean entry hl
  unfold resumableStep at h
  rw [hkind] at h
  simpa [hclean, hl] using h

/-- The session that has been kept is resumed. -/
theorem separates_of_run_kept : ∃ s s' : ManageSessions × History,
    Run (Meeting (RecordedStep .sorting) (ResumableStep .sorting)) unrecorded keptOpen s ∧
      RecordedStep .sorting s (.parseData 2 fun _ => 0) s' ∧
      (connackFor (connectA false) s.1).ackFlags = 0x01 ∧ Separates (connectA false) s s'.1 := by
  have hall : (keptOpen.foldlM (fun s e => if resumableStep .sorting s e then
      (withHistory .sorting s e).toOption else none) unrecorded).any fun s =>
        (connackFor (connectA false) s.1).ackFlags = 0x01 ∧
        Event.kind .sorting (.parseData 2 fun _ => 0) s.1 = .connect 2 (connectA false) ∧
          resumableStep .sorting s (.parseData 2 fun _ => 0) = true ∧
            (withHistory .sorting s (.parseData 2 fun _ => 0)).toOption.any fun _ => True := by
    decide +kernel
  obtain ⟨s, hfold, hflag, hkind, hresumable, hok⟩ := exists_of_any hall
  obtain ⟨s', hstep, -⟩ := exists_of_any_ok hok
  have hrun : Run (Meeting (RecordedStep .sorting) (ResumableStep .sorting)) unrecorded keptOpen
      s := by
    refine Run.of_foldlM (fun s e s' hs => ?_) hfold
    split_ifs at hs with hresumable
    refine ⟨resumableStep_of_eq_true hresumable, ?_⟩
    cases hnext : withHistory .sorting s e with
    | error fault =>
      rw [hnext] at hs
      cases hs
    | ok s₁ =>
      rw [hnext] at hs
      obtain rfl := Option.some.inj hs
      exact hnext
  exact ⟨s, s', hrun, hstep, hflag,
    (separates_of_run hrun hstep hkind rfl rfl).2.2 (resumableStep_of_eq_true hresumable)⟩

/-- Client `A` has connected with a clean session, its socket has been closed, and a CONNECT of it
without a clean session has arrived on a new connection. -/
def cleanGone : List Event :=
  .newConnection 3 :: arrive 0 (connectFrame 65 2) ++
    [.closeConnection 3, .newConnection 4, .receive 2 (connectFrame 65 0)]

/-- The clean session is resumed. -/
theorem not_separates_gone : ∃ s s' : ManageSessions × History,
    Run (RecordedStep .sorting) unrecorded cleanGone s ∧
      RecordedStep .sorting s (.parseData 2 fun _ => 0) s' ∧
        Event.kind .sorting (.parseData 2 fun _ => 0) s.1 = .connect 2 (connectA false) ∧
          ¬ Separates (connectA false) s s'.1 := by
  have hall : (cleanGone.foldlM (withHistory .sorting) unrecorded).toOption.any fun s =>
      s.2 [65] = some true ∧ (connackFor (connectA false) s.1).ackFlags = 0x01 ∧
        Event.kind .sorting (.parseData 2 fun _ => 0) s.1 = .connect 2 (connectA false) ∧
          (withHistory .sorting s (.parseData 2 fun _ => 0)).toOption.any fun _ => True := by
    decide +kernel
  obtain ⟨s, hfold, hlast, hflag, hkind, hok⟩ := exists_of_any_ok hall
  obtain ⟨s', hstep, -⟩ := exists_of_any_ok hok
  refine ⟨s, s', .of_except (fun _ _ _ h => h) hfold, hstep, hkind, fun hsep => ?_⟩
  have hfalse : s.2 [65] = some false := hsep.sessionPresent hflag
  cases hlast.symm.trans hfalse

end Culex
