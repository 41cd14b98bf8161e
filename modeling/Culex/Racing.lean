import Culex.Objects
import Culex.Lib.Interleaving

/-!
# Concurrent CONNECTs

`connectHandler` looks the client id up, takes the old session over, removes it, and registers a new
one; each of these takes the lock of the registry by itself.  `connectStep` has them as steps, and
the calls of several transports interleave them.

* `run_of_connectHandler`: a call by itself does what `connectHandler` does in one step;
* `Orderly`: no step takes a session out of the registry that has its transport and that no call is
  about to disconnect, and no session is resumed;
* `sole_of_orderly`: then the transport of a call that is left with a client id at the end is the
  one of the registered session.
-/

namespace Culex

open ManageSessions

/-- What a call of `connectHandler` has come to: it has registered a session, resumed one, or
neither. -/
inductive Answer
  | created (session : SessionRef)
  | resumed
  | rejected
  deriving DecidableEq

/-- How far a call of `connectHandler` is. -/
inductive Calling
  | queued
  | found (session : SessionRef)
  | takenOver (session : SessionRef)
  | creating
  | answered (answer : Answer)
  | returned (answer : Answer)
  deriving DecidableEq

/-- The CONNACK of a call. -/
def Answer.connack (answer : Answer) (cn : Connect) : Connack where
  ackFlags := if answer = .resumed then 0x01 else 0x00
  returnCode := if cn.level ≠ 0x04 then 0x01 else 0x00

/-- The session that a client continues with. -/
def ClientSession.continued (cs : ClientSession) (cn : Connect) : ClientSession :=
  { cs with
    keepAlive := cn.keepAlive
    cleansession := cn.cf.cleansession
    connected := if cn.level ≠ 0x04 then false else cs.connected }

section Steps

variable {ι : Type} (p : Platform) (calls : ι → ℕ × Connect)

/-- The next step of a call, with its transport and its CONNECT: to look the client id up, to take
the old session over, to remove it or to resume it, to register a new session, and what follows the
handler. -/
def connectStep (i : ι) (_ : Unit) (s : Objects) : Calling → Option (Objects × Calling)
  | .queued =>
    match s.broker.sessionPresent (calls i).2.clientId with
    | some session => some (s, .found session)
    | none => some (s, .creating)
  | .found session => some (s.takeOver session, .takenOver session)
  | .takenOver session =>
    let cn := (calls i).2
    if cn.cf.cleansession then some (s.removeFromRegistry cn.clientId, .creating)
    else
      match s.state session with
      | none => none
      | some cs =>
        match resendPending p cs s.broker with
        | .error _ => none
        | .ok ms =>
          some (({ s with broker := ms } : Objects).setSession session (cs.continued cn),
            .answered .resumed)
  | .creating =>
    let cn := (calls i).2
    let session : SessionRef := ⟨cn.clientId, s.broker.nextObj⟩
    let s : Objects := { s with broker := { s.broker with nextObj := s.broker.nextObj + 1 } }
    if cn.level ≠ 0x04 then some (s, .answered .rejected)
    else
      let s := s.addToRegistry session (newSession cn (calls i).1 s.broker.now)
      some ({ s with broker := scheduleExpiry p session s.broker }, .answered (.created session))
  | .answered answer =>
    let (t, cn) := calls i
    some ({ s with
      broker := endTask t (finishConnect cn t (packConnack (answer.connack cn)) s.broker) },
      .returned answer)
  | .returned _ => none

/-- The calls are queued, and none has started. -/
def callsQueued (ms : ManageSessions) : Threads ι Objects Calling where
  shared := { broker := ms }
  own _ := .queued

variable (s : Threads ι Objects Calling) (i : ι)

/-- The next step of a call takes what is registered for its client out of the registry. -/
def TakesOut : Prop :=
  (∃ session, s.own i = .takenOver session ∧ (calls i).2.cf.cleansession = true) ∨
    s.own i = .creating ∧ (calls i).2.level = 4

/-- The next step of a call resumes a session. -/
def Resuming : Prop :=
  ∃ session, s.own i = .takenOver session ∧ (calls i).2.cf.cleansession = false

/-- A session that is taken out of the registry has lost its transport, or a call that has found it
has yet to take it over; and no session is resumed on a transport that is open. -/
structure Orderly (step : ι × Unit) : Prop where
  displaced : TakesOut calls s step.1 → ∀ entry t,
    s.shared.broker.sessionRegistry.lookup (calls step.1).2.clientId = some entry →
      entry.state.session = some t → InTable s.shared.broker t →
        ∃ j, s.own j = .found ⟨(calls step.1).2.clientId, entry.obj⟩
  resumed : Resuming calls s step.1 → (calls step.1).2.level = 4 →
    ¬ InTable s.shared.broker (calls step.1).1

/-- Every call has returned. -/
def AllReturned : Prop := ∀ i, ∃ answer, s.own i = .returned answer

/-- The transport of a call that is in the table of sessions with the client id of the call is the
one of the registered session, and no other transport of a call is. -/
structure SoleConnection : Prop where
  registered : ∀ i, Present s.shared.broker (calls i).2.clientId (calls i).1 → ∃ entry,
    s.shared.broker.sessionRegistry.lookup (calls i).2.clientId = some entry ∧
      entry.state.session = some (calls i).1
  unique : ∀ i j, (calls i).2.clientId = (calls j).2.clientId →
    Present s.shared.broker (calls i).2.clientId (calls i).1 →
      Present s.shared.broker (calls j).2.clientId (calls j).1 → i = j

end Steps

/-! ### Deciding -/

section Deciding

variable {ι : Type} [Fintype ι] {calls : ι → ℕ × Connect}

instance (ms : ManageSessions) (id : ℕ) : Decidable (InTable ms id) :=
  decidable_of_iff ((ms.socketOf id).any fun socket => ms.sessions.lookup socket.1 = some id) (by
    rw [inTable_iff, Option.any_eq_true]
    simp only [decide_eq_true_eq])

instance (th : Threads ι Objects Calling) (i : ι) : Decidable (TakesOut calls th i) :=
  decidable_of_iff ((match th.own i with
    | .takenOver _ => (calls i).2.cf.cleansession
    | .creating => decide ((calls i).2.level = 4)
    | _ => false) = true) (by
    unfold TakesOut
    cases th.own i <;> simp)

instance (th : Threads ι Objects Calling) (i : ι) : Decidable (Resuming calls th i) :=
  decidable_of_iff ((match th.own i with
    | .takenOver _ => !(calls i).2.cf.cleansession
    | _ => false) = true) (by
    unfold Resuming
    cases th.own i <;> simp)

instance (th : Threads ι Objects Calling) (step : ι × Unit) : Decidable (Orderly calls th step) :=
  decidable_of_iff ((TakesOut calls th step.1 →
    (th.shared.broker.sessionRegistry.lookup (calls step.1).2.clientId).all (fun entry =>
      entry.state.session.all fun t => InTable th.shared.broker t →
        ∃ j, th.own j = .found ⟨(calls step.1).2.clientId, entry.obj⟩) = true) ∧
    (Resuming calls th step.1 → (calls step.1).2.level = 4 →
      ¬ InTable th.shared.broker (calls step.1).1)) (by
    simp only [Option.all_eq_true, decide_eq_true_eq]
    constructor
    · rintro ⟨hdisplaced, hresumed⟩
      exact ⟨fun htakes entry t hl hs => hdisplaced htakes entry hl t hs, hresumed⟩
    · rintro ⟨hdisplaced, hresumed⟩
      exact ⟨fun htakes entry hl t hs => hdisplaced htakes entry t hl hs, hresumed⟩)

end Deciding

/-! ### Steps -/

section Moves

variable {ι : Type} {p : Platform} {calls : ι → ℕ × Connect}

/-- The steps of a call, by what they find. -/
inductive CallMoves (p : Platform) (t : ℕ) (cn : Connect) (s : Objects) :
    Calling → Objects → Calling → Prop
  | found {session : SessionRef} (h : s.broker.sessionPresent cn.clientId = some session) :
      CallMoves p t cn s .queued s (.found session)
  | absent (h : s.broker.sessionPresent cn.clientId = none) :
      CallMoves p t cn s .queued s .creating
  | takeOver {session : SessionRef} :
      CallMoves p t cn s (.found session) (s.takeOver session) (.takenOver session)
  | remove {session : SessionRef} (hclean : cn.cf.cleansession = true) :
      CallMoves p t cn s (.takenOver session) (s.removeFromRegistry cn.clientId) .creating
  | resume {session : SessionRef} {cs : ClientSession} {log : List Call}
      (hclean : cn.cf.cleansession = false) (hcs : s.state session = some cs) :
      CallMoves p t cn s (.takenOver session)
        (({ s with
          broker := { s.broker with calls := s.broker.calls ++ log } } : Objects).setSession
            session (cs.continued cn)) (.answered .resumed)
  | reject (hlevel : cn.level ≠ 4) :
      CallMoves p t cn s .creating
        { s with broker := { s.broker with nextObj := s.broker.nextObj + 1 } } (.answered .rejected)
  | create {s' : Objects} (hlevel : cn.level = 4)
      (hs' : s' = ({ s with broker := { s.broker with nextObj := s.broker.nextObj + 1 } } :
        Objects).addToRegistry ⟨cn.clientId, s.broker.nextObj⟩ (newSession cn t s.broker.now)) :
      CallMoves p t cn s .creating
        { s' with broker := scheduleExpiry p ⟨cn.clientId, s.broker.nextObj⟩ s'.broker }
        (.answered (.created ⟨cn.clientId, s.broker.nextObj⟩))
  | finish {answer : Answer} {s' : Objects} (hs' : s' = { s with
        broker := endTask t (finishConnect cn t (packConnack (answer.connack cn)) s.broker) }) :
      CallMoves p t cn s (.answered answer) s' (.returned answer)

/-- **The cases of a step.** -/
theorem callMoves_of_connectStep {i : ι} {s s' : Objects} {own own' : Calling}
    (h : connectStep p calls i () s own = some (s', own')) :
    CallMoves p (calls i).1 (calls i).2 s own s' own' := by
  unfold connectStep at h
  split at h
  · split at h
    · next session hs =>
      obtain ⟨rfl, rfl⟩ := Prod.mk.inj (Option.some.inj h)
      exact .found hs
    · next hs =>
      obtain ⟨rfl, rfl⟩ := Prod.mk.inj (Option.some.inj h)
      exact .absent hs
  · obtain ⟨rfl, rfl⟩ := Prod.mk.inj (Option.some.inj h)
    exact .takeOver
  · next session =>
    simp only at h
    by_cases hclean : (calls i).2.cf.cleansession = true
    · rw [if_pos hclean] at h
      obtain ⟨rfl, rfl⟩ := Prod.mk.inj (Option.some.inj h)
      exact .remove hclean
    · rw [if_neg hclean] at h
      split at h
      · cases h
      · next cs hcs =>
        split at h
        · cases h
        · next ms hms =>
          obtain ⟨rfl, rfl⟩ := Prod.mk.inj (Option.some.inj h)
          obtain ⟨log, rfl, -⟩ := resendPending_calls hms
          exact .resume (Bool.not_eq_true _ ▸ hclean) hcs
  · simp only at h
    split_ifs at h with hlevel
    · obtain ⟨rfl, rfl⟩ := Prod.mk.inj (Option.some.inj h)
      exact .reject hlevel
    · obtain ⟨rfl, rfl⟩ := Prod.mk.inj (Option.some.inj h)
      exact .create (not_not.1 hlevel) rfl
  · obtain ⟨rfl, rfl⟩ := Prod.mk.inj (Option.some.inj h)
    exact .finish rfl
  · cases h

end Moves

/-! ### A call by itself -/

section Serial

variable {ι : Type} [DecidableEq ι] {p : Platform} {calls : ι → ℕ × Connect} {i : ι}
  {th : Threads ι Objects Calling} {packet : Packet} {handled : Handled} {entry : Registered}

/-- The end of a call. -/
theorem exists_finish {answer : Answer} (hown : th.own i = .answered answer) :
    ∃ th', Interleaves (connectStep p calls) th (i, ()) th' ∧
      th'.shared.broker = endTask (calls i).1 (finishConnect (calls i).2 (calls i).1
        (packConnack (answer.connack (calls i).2)) th.shared.broker) ∧
      th'.own i = .returned answer := by
  have hnext : connectStep p calls i () th.shared (th.own i) = some ({ th.shared with
      broker := endTask (calls i).1 (finishConnect (calls i).2 (calls i).1
        (packConnack (answer.connack (calls i).2)) th.shared.broker) }, .returned answer) := by
    rw [hown]
    rfl
  obtain ⟨th', hstep, hshared, hown'⟩ := Interleaves.exists_of_next hnext
  exact ⟨th', hstep, by rw [hshared], hown'⟩

/-- A call that registers a session, or would if its protocol level were right. -/
theorem exists_create (hown : th.own i = .creating) :
    ∃ answer th', Interleaves (connectStep p calls) th (i, ()) th' ∧
      th'.shared.broker =
        (if (calls i).2.level = 4 then
          scheduleExpiry p ⟨(calls i).2.clientId, th.shared.broker.nextObj⟩
            (({ th.shared.broker with nextObj := th.shared.broker.nextObj + 1 } :
              ManageSessions).addToRegistry ⟨(calls i).2.clientId, th.shared.broker.nextObj⟩
                (newSession (calls i).2 (calls i).1 th.shared.broker.now))
        else { th.shared.broker with nextObj := th.shared.broker.nextObj + 1 }) ∧
      th'.own i = .answered answer ∧ answer ≠ .resumed := by
  obtain ⟨⟨shared, own⟩, hnext⟩ : ∃ x, connectStep p calls i () th.shared (th.own i) = some x := by
    rw [hown]
    unfold connectStep
    simp only
    split_ifs
    · exact ⟨_, rfl⟩
    · exact ⟨_, rfl⟩
  obtain ⟨th', hstep, hshared, hown'⟩ := Interleaves.exists_of_next hnext
  have hmoves := callMoves_of_connectStep hnext
  rw [hown] at hmoves
  cases hmoves with
  | reject hlevel => exact ⟨_, th', hstep, by rw [hshared, if_neg hlevel], hown', by simp⟩
  | create hlevel hs' =>
    refine ⟨_, th', hstep, ?_, hown', by simp⟩
    rw [hshared, if_pos hlevel, hs']
    rfl

/-- The end of a call that creates a session, where the old one has been removed. -/
theorem run_of_vacated {ms : ManageSessions} (hown : th.own i = .creating)
    (hvacated : { th.shared.broker with nextObj := th.shared.broker.nextObj + 1 } =
      vacated (calls i).2 ms) (hrenews : Renews ms (calls i).2)
    (hp : packet.pkt = .connect (calls i).2)
    (h : connectHandler p packet (calls i).1 ms = .ok handled) :
    ∃ th', Run (Interleaves (connectStep p calls)) th [(i, ()), (i, ())] th' ∧
      (∃ answer, th'.own i = .returned answer) ∧
      th'.shared.broker = endTask (calls i).1
        (finishConnect (calls i).2 (calls i).1 handled.buff handled.state) := by
  obtain ⟨answer, th₁, hstep₁, hbroker₁, hown₁, hanswer⟩ := exists_create (p := p) hown
  obtain ⟨th₂, hstep₂, hbroker₂, hown₂⟩ := exists_finish (p := p) hown₁
  refine ⟨th₂, .cons (.cons .nil hstep₂) hstep₁, ⟨answer, hown₂⟩, ?_⟩
  have hnext : th.shared.broker.nextObj = ms.nextObj := by
    have heq := congrArg ManageSessions.nextObj hvacated
    rw [vacated_eq] at heq
    exact Nat.succ_injective heq
  have hnow : th.shared.broker.now = ms.now := by
    have heq := congrArg ManageSessions.now hvacated
    rwa [vacated_eq] at heq
  rw [hbroker₂, hbroker₁, hvacated, hnext, hnow]
  unfold Answer.connack
  rw [if_neg hanswer]
  by_cases hlevel : (calls i).2.level = 4
  · obtain rfl := Except.ok.inj ((connectHandler_new hp hrenews hlevel).symm.trans h)
    rw [if_pos hlevel, if_neg (not_not.2 hlevel)]
  · obtain rfl := Except.ok.inj ((connectHandler_rejected hp hrenews hlevel).symm.trans h)
    rw [if_neg hlevel, if_pos hlevel]

/-- The end of a call that resumes a session, where this has been taken over. -/
theorem run_of_resumed {r : SessionRef} {cs : ClientSession} {ms : ManageSessions}
    (hown : th.own i = .takenOver r) (hclean : (calls i).2.cf.cleansession = false)
    (hlock : th.shared.broker.lock r = some cs.offline)
    (hres : resendPending p cs th.shared.broker = .ok ms) :
    ∃ th', Run (Interleaves (connectStep p calls)) th [(i, ()), (i, ())] th' ∧
      th'.own i = .returned .resumed ∧
      th'.shared.broker = endTask (calls i).1 (finishConnect (calls i).2 (calls i).1
        (packConnack (Answer.resumed.connack (calls i).2))
          (ms.setSession r (resumedSession (calls i).2 cs))) := by
  have hres' : resendPending p cs.offline th.shared.broker = .ok ms := hres
  have hresume : connectStep p calls i () th.shared (th.own i) = some
      (({ th.shared with broker := ms } : Objects).setSession r (cs.offline.continued (calls i).2),
        .answered .resumed) := by
    rw [hown]
    unfold connectStep
    simp only [hclean, Bool.false_eq_true, if_false, Objects.state_of_lock hlock, hres']
  obtain ⟨th₁, hstep₁, hshared₁, hown₁⟩ := Interleaves.exists_of_next hresume
  obtain ⟨th₂, hstep₂, hbroker₂, hown₂⟩ := exists_finish (p := p) hown₁
  refine ⟨th₂, .cons (.cons .nil hstep₂) hstep₁, hown₂, ?_⟩
  have hcontinued : cs.offline.continued (calls i).2 = resumedSession (calls i).2 cs := by
    unfold ClientSession.continued resumedSession ClientSession.offline
    simp only [ite_self]
  have hlock' : ms.lock r = some cs.offline := by
    obtain ⟨log, rfl, -⟩ := resendPending_calls hres
    exact hlock
  rw [hbroker₂, hshared₁, hcontinued]
  unfold Objects.setSession
  simp only [hlock']

/-- The end of a call with a clean session, where the old one has been taken over. -/
theorem run_of_removed {r : SessionRef} {ms : ManageSessions}
    (hl : ms.sessionRegistry.lookup (calls i).2.clientId = some entry)
    (hown : th.own i = .takenOver r)
    (hbroker : th.shared.broker = (takeOver ⟨(calls i).2.clientId, entry.obj⟩ entry.state ms).1)
    (hclean : (calls i).2.cf.cleansession = true) (hp : packet.pkt = .connect (calls i).2)
    (h : connectHandler p packet (calls i).1 ms = .ok handled) :
    ∃ th', Run (Interleaves (connectStep p calls)) th [(i, ()), (i, ()), (i, ())] th' ∧
      (∃ answer, th'.own i = .returned answer) ∧
      th'.shared.broker = endTask (calls i).1
        (finishConnect (calls i).2 (calls i).1 handled.buff handled.state) := by
  have hremove : connectStep p calls i () th.shared (th.own i) =
      some (th.shared.removeFromRegistry (calls i).2.clientId, .creating) := by
    rw [hown]
    unfold connectStep
    simp only [hclean, if_true]
  obtain ⟨th₁, hstep₁, hshared₁, hown₁⟩ := Interleaves.exists_of_next hremove
  have hvacated : { th₁.shared.broker with nextObj := th₁.shared.broker.nextObj + 1 } =
      vacated (calls i).2 ms := by
    have hnext : th.shared.broker.nextObj = ms.nextObj := by
      rw [hbroker, takeOver_eq]
    have hnext₁ : th₁.shared.broker.nextObj = th.shared.broker.nextObj := by
      rw [hshared₁]
      rfl
    unfold vacated
    simp only [hl]
    rw [hnext₁, hnext, ← hbroker, hshared₁]
    rfl
  obtain ⟨th₂, hrun, hown₂, hbroker₂⟩ := run_of_vacated hown₁ hvacated (.inr hclean) hp h
  exact ⟨th₂, hrun.cons hstep₁, hown₂, hbroker₂⟩

/-- **A call by itself does what `connectHandler` and what follows it do** in one step. -/
theorem run_of_connectHandler (hown : th.own i = .queued)
    (hp : packet.pkt = .connect (calls i).2)
    (h : connectHandler p packet (calls i).1 th.shared.broker = .ok handled) :
    ∃ steps th', Run (Interleaves (connectStep p calls)) th steps th' ∧
      (∀ step ∈ steps, step.1 = i) ∧ (∃ answer, th'.own i = .returned answer) ∧
      th'.shared.broker = endTask (calls i).1
        (finishConnect (calls i).2 (calls i).1 handled.buff handled.state) := by
  cases hl : th.shared.broker.sessionRegistry.lookup (calls i).2.clientId with
  | none =>
    have hlook : connectStep p calls i () th.shared (th.own i) = some (th.shared, .creating) := by
      rw [hown]
      unfold connectStep sessionPresent
      simp only [hl, Option.map_none]
    obtain ⟨th₁, hstep₁, hshared₁, hown₁⟩ := Interleaves.exists_of_next hlook
    rw [← hshared₁] at hl h
    have hvacated : { th₁.shared.broker with nextObj := th₁.shared.broker.nextObj + 1 } =
        vacated (calls i).2 th₁.shared.broker := by
      unfold vacated
      rw [hl]
    obtain ⟨th₂, hrun, hown₂, hbroker⟩ := run_of_vacated hown₁ hvacated (.inl hl) hp h
    exact ⟨[(i, ()), (i, ()), (i, ())], th₂, hrun.cons hstep₁, by simp, hown₂, hbroker⟩
  | some entry =>
    have hlook : connectStep p calls i () th.shared (th.own i) =
        some (th.shared, .found ⟨(calls i).2.clientId, entry.obj⟩) := by
      rw [hown]
      unfold connectStep sessionPresent
      simp only [hl, Option.map_some]
    obtain ⟨th₁, hstep₁, hshared₁, hown₁⟩ := Interleaves.exists_of_next hlook
    have htake : connectStep p calls i () th₁.shared (th₁.own i) = some
        (th₁.shared.takeOver ⟨(calls i).2.clientId, entry.obj⟩,
          .takenOver ⟨(calls i).2.clientId, entry.obj⟩) := by
      rw [hown₁]
      rfl
    obtain ⟨th₂, hstep₂, hshared₂, hown₂⟩ := Interleaves.exists_of_next htake
    rw [hshared₁] at hshared₂
    have hlock := lock_of_lookup hl
    have hbroker₂ : th₂.shared.broker = (takeOver ⟨(calls i).2.clientId, entry.obj⟩ entry.state
        th.shared.broker).1 := by
      rw [hshared₂]
      exact Objects.broker_takeOver hlock
    by_cases hclean : (calls i).2.cf.cleansession = true
    · obtain ⟨th₃, hrun, hown₃, hbroker₃⟩ := run_of_removed hl hown₂ hbroker₂ hclean hp h
      exact ⟨[(i, ()), (i, ()), (i, ()), (i, ()), (i, ())], th₃,
        (hrun.cons hstep₂).cons hstep₁, by simp, hown₃, hbroker₃⟩
    · have hclean : (calls i).2.cf.cleansession = false := Bool.not_eq_true _ ▸ hclean
      rw [connectHandler_resumed hp hl hclean] at h
      cases hres : resendPending p entry.state (takeOver ⟨(calls i).2.clientId, entry.obj⟩
          entry.state th.shared.broker).1 with
      | error e =>
        rw [hres] at h
        cases h
      | ok ms₁ =>
        rw [hres] at h
        obtain rfl := Except.ok.inj h
        have hoffline : th₂.shared.broker.lock ⟨(calls i).2.clientId, entry.obj⟩ =
            some entry.state.offline := by
          rw [lock_eq_some_iff, hbroker₂]
          exact (lookup_takeOver hlock _).trans (if_pos rfl)
        rw [← hbroker₂] at hres
        obtain ⟨th₃, hrun, hown₃, hbroker₃⟩ := run_of_resumed hown₂ hclean hoffline hres
        exact ⟨[(i, ()), (i, ()), (i, ()), (i, ())], th₃, (hrun.cons hstep₂).cons hstep₁, by simp,
          ⟨_, hown₃⟩, hbroker₃⟩

end Serial

/-! ### What a step keeps -/

namespace Objects

variable {p : Platform} {s s' : Objects} {r r' : SessionRef} {cs : ClientSession}
  {clientId : Bytes} {cn : Connect} {t : ℕ}

/-- A session that is resumed has been taken over. -/
theorem keeps_continued (cn : Connect) (hcs : s.state r = some cs) (hcon : cs.connected = false) :
    Keeps s (s.setSession r (cs.continued cn)) where
  nextObj := nextObj_setSession.ge
  inTable id hid := inTable_setSession.1 hid
  state r' cs' hr' hcs' := by
    by_cases he : r' = r
    · subst he
      obtain rfl := Option.some.inj (hcs.symm.trans hcs')
      refine ⟨cs.continued cn, state_setSession.trans (if_pos rfl), rfl, fun _ => ?_,
        fun htrue => ?_⟩
      · unfold ClientSession.continued
        rw [hcon, ite_self]
      · cases hcon.symm.trans htrue
    · exact ⟨cs', (state_setSession.trans (if_neg he)).trans hcs', rfl, id,
        fun htrue hfalse => absurd (htrue.symm.trans hfalse) (by simp)⟩

theorem keeps_nextObj :
    Keeps s { s with broker := { s.broker with nextObj := s.broker.nextObj + 1 } } :=
  .of_state (Nat.le_succ _) (fun _ h => h) fun _ _ => rfl

theorem keeps_calls (log : List Call) :
    Keeps s { s with broker := { s.broker with calls := s.broker.calls ++ log } } :=
  .of_state le_rfl (fun _ h => h) fun _ _ => rfl

theorem keeps_finish (t : ℕ) (cn : Connect) (buff : Bytes) :
    Keeps s { s with broker := endTask t (finishConnect cn t buff s.broker) } := by
  have heq := finishConnect_eq cn t buff s.broker
  refine .of_state ?_ (fun id hid => (inTable_of_finishConnect hid).1) fun r _ => ?_
  · unfold endTask
    rw [heq]
  · have hl : (endTask t (finishConnect cn t buff s.broker)).lock r = s.broker.lock r := by
      unfold endTask
      rw [heq]
      rfl
    unfold state
    simp only [hl]

theorem state_scheduleExpiry (h : r' ≠ r) :
    ({ s with broker := scheduleExpiry p r s.broker } : Objects).state r' = s.state r' := by
  unfold state
  simp only [lock_scheduleExpiry, if_neg h]

theorem keeps_create (hs' : s' = ({ s with
      broker := { s.broker with nextObj := s.broker.nextObj + 1 } } : Objects).addToRegistry
        ⟨clientId, s.broker.nextObj⟩ cs) :
    Keeps s { s' with broker := scheduleExpiry p ⟨clientId, s.broker.nextObj⟩ s'.broker } := by
  have hbroker : s'.broker = { s.broker with
      sessionRegistry := s'.broker.sessionRegistry
      nextObj := s.broker.nextObj + 1 } := by
    rw [hs']
    rfl
  refine .of_state ?_ (fun id hid => ?_) fun r hr => ?_
  · rw [scheduleExpiry_eq]
    simp only
    rw [hbroker]
    exact Nat.le_succ _
  · have hopen : InTable (scheduleExpiry p ⟨clientId, s.broker.nextObj⟩ s'.broker) id := hid
    have hopen' := inTable_scheduleExpiry.1 hopen
    rwa [hbroker] at hopen'
  · have hne : r ≠ ⟨clientId, s.broker.nextObj⟩ := by
      rintro rfl
      exact lt_irrefl _ hr
    refine (state_scheduleExpiry hne).trans ?_
    rw [hs']
    exact state_addToRegistry hne

end Objects

/-! ### The invariant -/

section Invariant

variable {ι : Type} {p : Platform} {calls : ι → ℕ × Connect} {t : ℕ} {cn : Connect}
  {s s' : Objects} {pending pending' : SessionRef → Prop}

/-- A session that a call has registered: it has the transport of the call, and is registered or
about to be disconnected if this is open. -/
structure Tended (t : ℕ) (cn : Connect) (s : Objects) (pending : SessionRef → Prop)
    (session : SessionRef) : Prop where
  clientId : session.clientId = cn.clientId
  allocated : session.obj < s.broker.nextObj
  state : ∃ cs, s.state session = some cs ∧ cs.session = some t ∧
    (cs.connected = true ∨ ¬ InTable s.broker t)
  registered : InTable s.broker t → (s.broker.lock session).isSome ∨ pending session

/-- What holds of a call on a transport, where some sessions are about to be disconnected. -/
inductive Stands (t : ℕ) (cn : Connect) (s : Objects) (pending : SessionRef → Prop) : Calling → Prop
  | queued : Stands t cn s pending .queued
  | found {session : SessionRef} {cs : ClientSession} (hobj : session.obj < s.broker.nextObj)
      (hcs : s.state session = some cs) : Stands t cn s pending (.found session)
  | takenOver {session : SessionRef} {cs : ClientSession} (hobj : session.obj < s.broker.nextObj)
      (hcs : s.state session = some cs) (hcon : cs.connected = false) :
      Stands t cn s pending (.takenOver session)
  | creating : Stands t cn s pending .creating
  | created {session : SessionRef} (h : Tended t cn s pending session) :
      Stands t cn s pending (.answered (.created session))
  | resumed (h : cn.level = 4 → ¬ InTable s.broker t) : Stands t cn s pending (.answered .resumed)
  | rejected (h : cn.level ≠ 4) : Stands t cn s pending (.answered .rejected)
  | tended {session : SessionRef} (h : Tended t cn s pending session) :
      Stands t cn s pending (.returned (.created session))
  | closed {answer : Answer} (h : ¬ InTable s.broker t) : Stands t cn s pending (.returned answer)

/-- A step does not leave a session alone with an open transport. -/
def Leads (s s' : Objects) (pending pending' : SessionRef → Prop) : Prop :=
  ∀ session cs t, s.state session = some cs → cs.session = some t →
    (cs.connected = true ∨ ¬ InTable s.broker t) → InTable s'.broker t →
      (s.broker.lock session).isSome ∨ pending session →
        (s'.broker.lock session).isSome ∨ pending' session

theorem Tended.keep {session : SessionRef} (h : Tended t cn s pending session)
    (hkeeps : s.Keeps s') (hleads : Leads s s' pending pending') :
    Tended t cn s' pending' session := by
  obtain ⟨cs, hcs, hsession, hopen⟩ := h.state
  obtain ⟨cs', hcs', hsession', -, hclosed⟩ := hkeeps.state session cs h.allocated hcs
  refine ⟨h.clientId, h.allocated.trans_le hkeeps.nextObj,
    ⟨cs', hcs', hsession'.trans hsession, ?_⟩,
    fun hid => hleads session cs t hcs hsession hopen hid (h.registered (hkeeps.inTable t hid))⟩
  cases hcon : cs'.connected with
  | true => exact .inl rfl
  | false =>
    refine .inr fun hid => ?_
    rcases hopen with htrue | hnot
    · exact hclosed htrue hcon t hsession hid
    · exact hnot (hkeeps.inTable t hid)

theorem Stands.keep {own : Calling} (h : Stands t cn s pending own) (hkeeps : s.Keeps s')
    (hleads : Leads s s' pending pending') : Stands t cn s' pending' own := by
  cases h with
  | queued => exact .queued
  | found hobj hcs =>
    obtain ⟨cs', hcs', -⟩ := hkeeps.state _ _ hobj hcs
    exact .found (hobj.trans_le hkeeps.nextObj) hcs'
  | takenOver hobj hcs hcon =>
    obtain ⟨cs', hcs', -, hoffline, -⟩ := hkeeps.state _ _ hobj hcs
    exact .takenOver (hobj.trans_le hkeeps.nextObj) hcs' (hoffline hcon)
  | creating => exact .creating
  | created h => exact .created (h.keep hkeeps hleads)
  | resumed h => exact .resumed fun hlevel hid => h hlevel (hkeeps.inTable t hid)
  | rejected h => exact .rejected h
  | tended h => exact .tended (h.keep hkeeps hleads)
  | closed h => exact .closed fun hid => h (hkeeps.inTable t hid)

variable {th th' : Threads ι Objects Calling} {i : ι}

/-- A call has found the session, and has yet to take it over. -/
def Pending (th : Threads ι Objects Calling) (session : SessionRef) : Prop :=
  ∃ i, th.own i = .found session

/-- What holds while calls race. -/
structure Racing (calls : ι → ℕ × Connect) (th : Threads ι Objects Calling) : Prop where
  given : Given th.shared
  stands : ∀ i, Stands (calls i).1 (calls i).2 th.shared (Pending th) (th.own i)

variable [DecidableEq ι]

/-- A session that is about to be disconnected still is, unless the call that goes on does it. -/
theorem Pending.keep {session : SessionRef} {shared : Objects} {own : Calling}
    (h : Pending th session) (hown : th.own i ≠ .found session) :
    Pending ⟨shared, Function.update th.own i own⟩ session := by
  obtain ⟨j, hj⟩ := h
  have hne : j ≠ i := by
    rintro rfl
    exact hown hj
  exact ⟨j, (Function.update_of_ne hne own th.own).trans hj⟩

/-- Where the same sessions are registered, and no session is taken over. -/
theorem leads_of_registered {shared : Objects} {own : Calling}
    (hregistered : ∀ r, (th.shared.broker.lock r).isSome → (shared.broker.lock r).isSome)
    (hown : ∀ r, th.own i ≠ .found r) :
    Leads th.shared shared (Pending th) (Pending ⟨shared, Function.update th.own i own⟩) :=
  fun r _ _ _ _ _ _ h => h.imp (hregistered r) fun hpending => hpending.keep (hown r)

theorem Racing.next (h : Racing calls th) {shared : Objects} {own : Calling}
    (hkeeps : th.shared.Keeps shared)
    (hleads : Leads th.shared shared (Pending th) (Pending ⟨shared, Function.update th.own i own⟩))
    (hgiven : Given shared)
    (hself : Stands (calls i).1 (calls i).2 shared (Pending ⟨shared, Function.update th.own i own⟩)
      own) : Racing calls ⟨shared, Function.update th.own i own⟩ := by
  refine ⟨hgiven, fun j => ?_⟩
  by_cases he : j = i
  · subst he
    show Stands _ _ _ _ (Function.update th.own j own j)
    rw [Function.update_self]
    exact hself
  · show Stands _ _ _ _ (Function.update th.own i own j)
    rw [Function.update_of_ne he]
    exact (h.stands j).keep hkeeps hleads

/-- An orderly step does not let a registered session of another client, or of nobody, lose its
place while it has its transport. -/
theorem leads_of_displaced {shared : Objects} {own : Calling} (ho : Orderly calls th (i, ()))
    (htakes : TakesOut calls th i) (hown : ∀ r, th.own i ≠ .found r)
    (htable : ∀ id, InTable shared.broker id → InTable th.shared.broker id)
    (hregistered : ∀ r, r.clientId ≠ (calls i).2.clientId →
      (th.shared.broker.lock r).isSome → (shared.broker.lock r).isSome) :
    Leads th.shared shared (Pending th) (Pending ⟨shared, Function.update th.own i own⟩) := by
  intro r cs t hcs hsession _ hid h
  rcases h with hlock | hpending
  · by_cases hc : r.clientId = (calls i).2.clientId
    · obtain ⟨cs', hcs'⟩ := Option.isSome_iff_exists.1 hlock
      obtain rfl := Option.some.inj ((Objects.state_of_lock hcs').symm.trans hcs)
      have hlookup := lock_eq_some_iff.1 hcs'
      rw [hc] at hlookup
      have hfound := ho.displaced htakes _ t hlookup hsession (htable t hid)
      have hpending : Pending th r := by
        obtain ⟨clientId, obj⟩ := r
        subst hc
        exact hfound
      exact .inr (hpending.keep (hown r))
    · exact .inl (hregistered r hc hlock)
  · exact .inr (hpending.keep (hown r))

/-- A call takes over the session that it has found. -/
theorem Racing.takeOver {session : SessionRef} (h : Racing calls th)
    (hown : th.own i = .found session) :
    Racing calls ⟨th.shared.takeOver session, Function.update th.own i (.takenOver session)⟩ := by
  have hstands := h.stands i
  rw [hown] at hstands
  cases hstands with
  | @found _ cs hobj hcs =>
  have htaken := Objects.takeOver_takenOver hcs
  have hkeeps := htaken.keeps hcs
  refine h.next hkeeps ?_ (h.given.of_registered htaken.registered hkeeps.nextObj) ?_
  · intro r cs' t hcs' hsession hopen hid hor
    rcases hor with hlock | hpending
    · exact .inl ((htaken.registered r).trans hlock)
    · by_cases he : r = session
      · -- the session that is taken over loses its transport
        subst he
        obtain rfl := Option.some.inj (hcs.symm.trans hcs')
        obtain ⟨hbefore, hclosed⟩ := htaken.inTable t hid
        rcases hopen with hcon | hnot
        · exact absurd hsession (hclosed hcon)
        · exact absurd hbefore hnot
      · refine .inr (hpending.keep ?_)
        rw [hown]
        exact fun heq => he (Calling.found.inj heq).symm
  · exact .takenOver (hobj.trans_le hkeeps.nextObj) ((htaken.state session).trans (if_pos rfl)) rfl

/-- A call removes what is registered for its client. -/
theorem Racing.remove {session : SessionRef} (h : Racing calls th) (ho : Orderly calls th (i, ()))
    (hown : th.own i = .takenOver session) (hclean : (calls i).2.cf.cleansession = true) :
    Racing calls ⟨th.shared.removeFromRegistry (calls i).2.clientId,
      Function.update th.own i .creating⟩ := by
  have hnot : ∀ r, th.own i ≠ .found r := by simp [hown]
  refine h.next Objects.keeps_removeFromRegistry ?_ ?_ .creating
  · refine leads_of_displaced ho (.inl ⟨session, hown, hclean⟩) hnot (fun _ hid => hid) ?_
    intro r hc hr
    have hl : (th.shared.removeFromRegistry (calls i).2.clientId).broker.lock r =
        th.shared.broker.lock r := Objects.lock_removeFromRegistry_of_ne hc
    rwa [hl]
  · exact fun r cs hl => h.given r cs (lock_of_removeFromRegistry hl)

/-- A call resumes the session that it has taken over. -/
theorem Racing.resume {session : SessionRef} {cs : ClientSession} {log : List Call}
    (h : Racing calls th) (ho : Orderly calls th (i, ())) (hown : th.own i = .takenOver session)
    (hclean : (calls i).2.cf.cleansession = false) (hcs : th.shared.state session = some cs) :
    Racing calls ⟨({ th.shared with broker := { th.shared.broker with
        calls := th.shared.broker.calls ++ log } } : Objects).setSession session
          (cs.continued (calls i).2), Function.update th.own i (.answered .resumed)⟩ := by
  have hnot : ∀ r, th.own i ≠ .found r := by simp [hown]
  have hstands := h.stands i
  rw [hown] at hstands
  cases hstands with
  | @takenOver _ cs₀ hobj hcs₀ hcon =>
  obtain rfl := Option.some.inj (hcs₀.symm.trans hcs)
  have hkeeps := (Objects.keeps_calls log).trans (Objects.keeps_continued (calls i).2 hcs hcon)
  have hregistered : ∀ r, ((({ th.shared with broker := { th.shared.broker with
      calls := th.shared.broker.calls ++ log } } : Objects).setSession session
        (cs₀.continued (calls i).2)).broker.lock r).isSome =
          (th.shared.broker.lock r).isSome := fun r => Objects.lock_setSession_isSome
  refine h.next hkeeps (leads_of_registered (fun r hr => (hregistered r).trans hr) hnot)
    (h.given.of_registered hregistered hkeeps.nextObj) ?_
  exact .resumed fun hlevel hid => ho.resumed ⟨session, hown, hclean⟩ hlevel (hkeeps.inTable _ hid)

/-- Registered sessions have identities that have been given out, after another one has been
registered too. -/
theorem Given.create {s s' : Objects} {session : SessionRef} {cs : ClientSession} (h : Given s)
    (hnext : s'.broker.nextObj = s.broker.nextObj + 1) (hobj : session.obj = s.broker.nextObj)
    (hself : s'.broker.lock session = some cs)
    (hothers : ∀ r, r.clientId ≠ session.clientId → ∀ cs, s'.broker.lock r = some cs →
      ∃ cs₀, s.broker.lock r = some cs₀) : Given s' := by
  intro r cs' hl
  rw [hnext]
  by_cases hc : r.clientId = session.clientId
  · -- the client has no other session
    have hentry := lock_eq_some_iff.1 hl
    rw [hc, lock_eq_some_iff.1 hself] at hentry
    obtain ⟨ho, -⟩ := Registered.mk.inj (Option.some.inj hentry)
    omega
  · obtain ⟨cs₀, hl₀⟩ := hothers r hc cs' hl
    exact Nat.lt_succ_of_lt (h r cs₀ hl₀)

/-- A call registers a new session. -/
theorem Racing.create {shared : Objects} (h : Racing calls th) (ho : Orderly calls th (i, ()))
    (hown : th.own i = .creating) (hlevel : (calls i).2.level = 4)
    (hshared : shared = ({ th.shared with broker := { th.shared.broker with
      nextObj := th.shared.broker.nextObj + 1 } } : Objects).addToRegistry
        ⟨(calls i).2.clientId, th.shared.broker.nextObj⟩
        (newSession (calls i).2 (calls i).1 th.shared.broker.now)) :
    Racing calls ⟨{ shared with
        broker := scheduleExpiry p ⟨(calls i).2.clientId, th.shared.broker.nextObj⟩
          shared.broker },
      Function.update th.own i
        (.answered (.created ⟨(calls i).2.clientId, th.shared.broker.nextObj⟩))⟩ := by
  have hnot : ∀ r, th.own i ≠ .found r := by simp [hown]
  have hkeeps := Objects.keeps_create (p := p) hshared
  generalize hsession : (⟨(calls i).2.clientId, th.shared.broker.nextObj⟩ : SessionRef) = session
    at hshared hkeeps ⊢
  have hself : shared.broker.lock session =
      some (newSession (calls i).2 (calls i).1 th.shared.broker.now) := by
    rw [hshared]
    exact Objects.lock_addToRegistry_self
  have hothers : ∀ r, r.clientId ≠ session.clientId →
      shared.broker.lock r = th.shared.broker.lock r := by
    intro r hc
    rw [hshared]
    exact Objects.lock_addToRegistry_of_ne hc
  have hlock : ∀ r, (scheduleExpiry p session shared.broker).lock r = if r = session then
      (shared.broker.lock session).map ClientSession.expiring else shared.broker.lock r :=
    fun r => lock_scheduleExpiry
  have hnew := (hlock session).trans (if_pos rfl)
  rw [hself, Option.map_some, expiring_eq] at hnew
  have hnext : (scheduleExpiry p session shared.broker).nextObj = th.shared.broker.nextObj + 1 := by
    rw [scheduleExpiry_eq, hshared]
    rfl
  have hc : session.clientId = (calls i).2.clientId := by rw [← hsession]
  have hobj : session.obj = th.shared.broker.nextObj := by rw [← hsession]
  refine h.next hkeeps ?_ (h.given.create hnext hobj hnew fun r hne cs hl => ?_)
    (.created ⟨hc, ?_, ⟨_, Objects.state_of_lock hnew, rfl, .inl rfl⟩, fun _ => .inl ?_⟩)
  · refine leads_of_displaced ho (.inr ⟨hown, hlevel⟩) hnot hkeeps.inTable fun r hne hr => ?_
    show ((scheduleExpiry p session shared.broker).lock r).isSome
    rw [← hc] at hne
    rw [hlock, if_neg fun he => hne (congrArg _ he), hothers r hne]
    exact hr
  · change (scheduleExpiry p session shared.broker).lock r = some cs at hl
    rw [hlock, if_neg fun he => hne (congrArg _ he), hothers r hne] at hl
    exact ⟨cs, hl⟩
  · show session.obj < (scheduleExpiry p session shared.broker).nextObj
    omega
  · show ((scheduleExpiry p session shared.broker).lock session).isSome
    rw [hnew]
    rfl

/-- A call returns. -/
theorem Racing.finish {answer : Answer} {shared : Objects} (h : Racing calls th)
    (hown : th.own i = .answered answer)
    (hshared : shared = { th.shared with
      broker := endTask (calls i).1 (finishConnect (calls i).2 (calls i).1
        (packConnack (answer.connack (calls i).2)) th.shared.broker) }) :
    Racing calls ⟨shared, Function.update th.own i (.returned answer)⟩ := by
  have hnot : ∀ r, th.own i ≠ .found r := by simp [hown]
  have hkeeps : th.shared.Keeps shared := by
    rw [hshared]
    exact Objects.keeps_finish _ _ _
  have hclosed : (calls i).2.level ≠ 4 → ¬ InTable shared.broker (calls i).1 := by
    intro hlevel hid
    rw [hshared] at hid
    exact (inTable_of_finishConnect hid).2 hlevel rfl
  have hlock : ∀ r, shared.broker.lock r = th.shared.broker.lock r := by
    intro r
    refine lock_congr ?_ r
    rw [hshared]
    unfold endTask
    rw [finishConnect_eq]
  have hleads : Leads th.shared shared (Pending th) (Pending ⟨shared, Function.update th.own i
      (.returned answer)⟩) :=
    leads_of_registered (fun r hr => (congrArg Option.isSome (hlock r)).trans hr) hnot
  refine h.next hkeeps hleads
    (h.given.of_registered (fun r => congrArg Option.isSome (hlock r)) hkeeps.nextObj) ?_
  have hstands := h.stands i
  rw [hown] at hstands
  cases hstands with
  | created htended => exact .tended (htended.keep hkeeps hleads)
  | resumed hnone =>
    by_cases hlevel : (calls i).2.level = 4
    · exact .closed fun hid => hnone hlevel (hkeeps.inTable _ hid)
    · exact .closed (hclosed hlevel)
  | rejected hlevel => exact .closed (hclosed hlevel)

/-- **An orderly step keeps the invariant.** -/
theorem Racing.step (h : Racing calls th) (ho : Orderly calls th (i, ()))
    (hstep : Interleaves (connectStep p calls) th (i, ()) th') : Racing calls th' := by
  obtain ⟨shared, own, hnext, rfl⟩ := hstep
  have hmoves := callMoves_of_connectStep hnext
  generalize hown : th.own i = before at hmoves
  cases hmoves with
  | @found session hpresent =>
    have hnot : ∀ r, th.own i ≠ .found r := by simp [hown]
    obtain ⟨entry, hl, rfl⟩ := Option.map_eq_some_iff.1 hpresent
    have hlock := lock_of_lookup hl
    exact h.next (.refl _) (leads_of_registered (fun _ hr => hr) hnot) h.given
      (.found (h.given _ _ hlock) (Objects.state_of_lock hlock))
  | absent _ =>
    have hnot : ∀ r, th.own i ≠ .found r := by simp [hown]
    exact h.next (.refl _) (leads_of_registered (fun _ hr => hr) hnot) h.given .creating
  | takeOver => exact h.takeOver hown
  | remove hclean => exact h.remove ho hown hclean
  | resume hclean hcs => exact h.resume ho hown hclean hcs
  | reject hlevel =>
    have hnot : ∀ r, th.own i ≠ .found r := by simp [hown]
    exact h.next Objects.keeps_nextObj (leads_of_registered (fun _ hr => hr) hnot)
      (fun r cs hl => Nat.lt_succ_of_lt (h.given r cs hl)) (.rejected hlevel)
  | create hlevel hs' => exact h.create ho hown hlevel hs'
  | finish hs' => exact h.finish hown hs'

omit [DecidableEq ι] in
/-- Calls that start in a reachable state. -/
theorem Racing.start {ms : ManageSessions} (h : Reachable p ms) :
    Racing calls (callsQueued ms : Threads ι Objects Calling) where
  given r cs hl := h.allocated.registered r cs hl
  stands _ := .queued

/-- **Orderly calls leave each client one connection at most**, that of its registered session. -/
theorem sole_of_orderly {ms : ManageSessions} (hreach : Reachable p ms)
    (hdistinct : Function.Injective fun i => (calls i).1) {steps : List (ι × Unit)}
    (hrun : Run (Meeting (Interleaves (connectStep p calls)) (Orderly calls)) (callsQueued ms)
      steps th) (hall : AllReturned th) : SoleConnection calls th := by
  have hracing : Racing calls th := by
    refine hrun.invariant (.start hreach) ?_
    rintro th₁ ⟨i, u⟩ th₂ hracing ⟨ho, hstep⟩
    exact hracing.step ho hstep
  have hregistered : ∀ i, Present th.shared.broker (calls i).2.clientId (calls i).1 → ∃ entry,
      th.shared.broker.sessionRegistry.lookup (calls i).2.clientId = some entry ∧
        entry.state.session = some (calls i).1 := by
    intro i hpresent
    have hid : InTable th.shared.broker (calls i).1 := ⟨_, hpresent⟩
    obtain ⟨answer, hown⟩ := hall i
    have hstands := hracing.stands i
    rw [hown] at hstands
    cases hstands with
    | closed hnot => exact absurd hid hnot
    | @tended session htended =>
      rcases htended.registered hid with hlock | ⟨j, hj⟩
      · obtain ⟨cs, hl⟩ := Option.isSome_iff_exists.1 hlock
        obtain ⟨cs', hcs', hsession, -⟩ := htended.state
        obtain rfl := Option.some.inj ((Objects.state_of_lock hl).symm.trans hcs')
        exact ⟨⟨session.obj, cs⟩, htended.clientId ▸ lock_eq_some_iff.1 hl, hsession⟩
      · obtain ⟨answer', hj'⟩ := hall j
        cases hj.symm.trans hj'
  refine ⟨hregistered, fun i j hclient hi hj => ?_⟩
  obtain ⟨entry, hl, hsession⟩ := hregistered i hi
  obtain ⟨entry', hl', hsession'⟩ := hregistered j (hclient ▸ hj)
  rw [hclient] at hl
  obtain rfl := Option.some.inj (hl.symm.trans hl')
  exact hdistinct (Option.some.inj (hsession.symm.trans hsession'))

end Invariant

/-! ### Two calls -/

/-- Two transports of one client send a CONNECT with a clean session. -/
def twoCalls (i : Bool) : ℕ × Connect := (if i then 1 else 0, connectA true)

theorem twoCalls_distinct : Function.Injective fun i => (twoCalls i).1 := by decide

/-- Two connections. -/
def twoConnections : ManageSessions := after .sorting [.newConnection 3, .newConnection 4]

/-- The second call finds the session of the first one, and takes it over. -/
def inTurn : List (Bool × Unit) :=
  [(false, ()), (false, ()), (true, ()), (false, ()), (true, ()), (true, ()), (true, ()),
    (true, ())]

theorem sole_inTurn : ∃ th : Threads Bool Objects Calling,
    Run (Meeting (Interleaves (connectStep .sorting twoCalls)) (Orderly twoCalls))
      (callsQueued twoConnections) inTurn th ∧ AllReturned th ∧ SoleConnection twoCalls th ∧
      Present th.shared.broker [65] 1 := by
  obtain ⟨th, hth, hfalse, htrue, hsocket, hfd⟩ := exists_of_any
    (x := inTurn.foldlM (fun th step => if Orderly twoCalls th step then
      th.next (connectStep .sorting twoCalls) step else none) (callsQueued twoConnections))
    (P := fun th => th.own false = .returned (.created ⟨[65], 2⟩) ∧
      th.own true = .returned (.created ⟨[65], 3⟩) ∧
      th.shared.broker.socketOf 1 = some (4, [65]) ∧ th.shared.broker.sessions.lookup 4 = some 1)
    (by decide +kernel)
  have hrun : Run (Meeting (Interleaves (connectStep .sorting twoCalls)) (Orderly twoCalls))
      (callsQueued twoConnections) inTurn th := by
    refine Run.of_foldlM (fun s a s' hs => ?_) hth
    split_ifs at hs with ho
    exact ⟨ho, .of_next hs⟩
  have hall : AllReturned th := by
    intro i
    cases i with
    | false => exact ⟨_, hfalse⟩
    | true => exact ⟨_, htrue⟩
  exact ⟨th, hrun, hall, sole_of_orderly (after_reachable _ _) twoCalls_distinct hrun hall,
    4, hsocket, hfd⟩

/-- Neither call finds a session, and both register one. -/
def sideBySide : List (Bool × Unit) :=
  [(false, ()), (true, ()), (false, ()), (true, ()), (false, ()), (true, ())]

/-- Both transports keep their connection, and one of them is not that of the registered session. -/
theorem not_sole_sideBySide : Reachable .sorting twoConnections ∧
    (Function.Injective fun i => (twoCalls i).1) ∧
    ∃ th : Threads Bool Objects Calling,
      Run (Interleaves (connectStep .sorting twoCalls)) (callsQueued twoConnections) sideBySide th ∧
      AllReturned th ∧ Present th.shared.broker [65] 0 ∧ Present th.shared.broker [65] 1 ∧
      ¬ SoleConnection twoCalls th := by
  refine ⟨after_reachable _ _, twoCalls_distinct, ?_⟩
  obtain ⟨th, hth, hfalse, htrue, hsocket, hfd, hsocket', hfd'⟩ := exists_of_any
    (x := sideBySide.foldlM (Threads.next (connectStep .sorting twoCalls))
      (callsQueued twoConnections))
    (P := fun th => th.own false = .returned (.created ⟨[65], 2⟩) ∧
      th.own true = .returned (.created ⟨[65], 3⟩) ∧
      th.shared.broker.socketOf 0 = some (3, [65]) ∧ th.shared.broker.sessions.lookup 3 = some 0 ∧
      th.shared.broker.socketOf 1 = some (4, [65]) ∧ th.shared.broker.sessions.lookup 4 = some 1)
    (by decide +kernel)
  refine ⟨th, Run.of_foldlM (fun _ _ _ => Interleaves.of_next) hth, ?_, ⟨3, hsocket, hfd⟩,
    ⟨4, hsocket', hfd'⟩, fun hsole => ?_⟩
  · intro i
    cases i with
    | false => exact ⟨_, hfalse⟩
    | true => exact ⟨_, htrue⟩
  · exact absurd (hsole.unique false true rfl ⟨3, hsocket, hfd⟩ ⟨4, hsocket', hfd'⟩) (by decide)

end Culex
