import Culex.KeepAlive

/-!
# When the event loop wakes

`Broker::run` waits in `poll` for as long as `getNextTimeoutMs` says, and resends what is due when
it wakes.  The timeout is taken from the expiry heap alone.

* `Foreseeable`: no entry of the expiry heap lies further ahead than the longest keep-alive time, so
  that the timeout fits an `int`;
* `Reachable.getNextTimeoutMs_eq`: the timeout in every reachable state;
* `wakesInTime_iff`: the loop wakes in time for the first retry exactly where an entry of the expiry
  heap comes no later.
-/

namespace Culex

open ManageSessions

/-- `1.5 * keep_alive` in milliseconds, for the longest keep-alive time. -/
def longestKeepAliveMs : ℤ := 65535 * 1500

/-- No session expires later than the longest keep-alive time from now on. -/
def Foreseeable (ms : ManageSessions) : Prop :=
  ∀ e ∈ ms.expiryHeap.entries, e.expiryMs ≤ ms.now + longestKeepAliveMs

/-- The first retry of the retransmission heap is at a time. -/
structure FirstRetry (ms : ManageSessions) (retry : ℤ) : Prop where
  scheduled : ∃ e ∈ ms.retransmitHeap.entries, e.retryMs = retry
  first : ∀ e ∈ ms.retransmitHeap.entries, retry ≤ e.retryMs

/-- A `poll` that is entered now, and that nothing else ends, ends no later than at a time; at once
if the time has passed. -/
structure WakesBy (ms : ManageSessions) (time : ℤ) : Prop where
  nonneg : 0 ≤ ms.getNextTimeoutMs
  le : ms.getNextTimeoutMs ≤ max 0 (time - ms.now)

/-- The event loop wakes in time for the first retry. -/
def WakesInTime (ms : ManageSessions) : Prop := ∀ retry, FirstRetry ms retry → WakesBy ms retry

variable {p : Platform} {ms ms' : ManageSessions}

/-! ### How far ahead the heap looks -/

theorem expiryOf_le (cs : ClientSession) : expiryOf cs ≤ cs.lastActivity + longestKeepAliveMs := by
  have hk := cs.keepAlive.toNat_lt
  unfold expiryOf longestKeepAliveMs
  omega

namespace Foreseeable

/-- The clock goes on, and entries are added for sessions that were active before. -/
theorem of_entries (h : Foreseeable ms) (hnow : ms.now ≤ ms'.now)
    (hentries : ∀ e ∈ ms'.expiryHeap.entries, e ∈ ms.expiryHeap.entries ∨
      ∃ cs : ClientSession, cs.lastActivity ≤ ms.now ∧ e.expiryMs = expiryOf cs) :
    Foreseeable ms' := by
  intro e he
  rcases hentries e he with hold | ⟨cs, hactive, hexpiry⟩
  · have hle := h e hold
    omega
  · have hle := expiryOf_le cs
    omega

theorem move (h : Foreseeable ms) (ht : Timed ms) (hm : Move p ms ms') : Foreseeable ms' := by
  cases hm with
  | onward ho =>
    refine h.of_entries ho.now fun e he => .inl ?_
    rw [ho.expiryHeap] at he
    exact he
  | @register r cn id hreg hnew hr hid =>
    refine h.of_entries hreg.now.ge fun e he => ?_
    rcases hreg.mem_entries.1 he with ⟨-, rfl⟩ | he
    · exact .inr ⟨newSession cn id ms.now, le_refl _, rfl⟩
    · exact .inl he
  | sweep hs =>
    have hnow : ms'.now = ms.now := by rw [hs.sweeps.eq]
    refine h.of_entries hnow.ge fun e he => ?_
    rw [hs.entries.mem_iff, List.mem_append] at he
    rcases he with he | he
    · -- the session is scheduled again
      obtain ⟨r, -, hd⟩ := List.mem_filterMap.1 he
      obtain ⟨cs, hl, -, rfl⟩ := deadline_eq_some_iff.1 hd
      exact .inr ⟨cs, ht.active r cs hl, rfl⟩
    · exact .inl (hs.collects.perm.mem_iff.2 (List.mem_append_right _ he))

end Foreseeable

theorem Reachable.foreseeable (h : Reachable p ms) : Foreseeable ms := by
  refine (h.of_move ?_ fun ms ms' ht hms hm => hms.move ht hm).2
  intro e he
  cases he

/-! ### The timeout -/

/-- **The timeout**: what is left until the first entry of the expiry heap, and `-1` without one. -/
theorem Reachable.getNextTimeoutMs_eq (h : Reachable p ms) :
    ms.getNextTimeoutMs = match ms.expiryHeap.top with
      | none => -1
      | some e => max 0 (e.expiryMs - ms.now) := by
  unfold getNextTimeoutMs
  cases htop : ms.expiryHeap.top with
  | none => rfl
  | some e =>
    have hle := h.foreseeable e (MinHeap.top_mem htop)
    unfold longestKeepAliveMs at hle
    simp only
    split_ifs with hdue
    · exact (max_eq_left hdue).symm
    · rw [max_eq_right (not_le.1 hdue).le]
      exact toInt_of_range (by omega) (by omega)

theorem Reachable.wakesBy_iff (h : Reachable p ms) (time : ℤ) :
    WakesBy ms time ↔ ∃ e ∈ ms.expiryHeap.entries, e.expiryMs ≤ max ms.now time := by
  have heq := h.getNextTimeoutMs_eq
  cases htop : ms.expiryHeap.top with
  | none =>
    -- nothing ends the wait
    rw [htop] at heq
    simp only at heq
    have hnil : ms.expiryHeap.entries = [] := MinHeap.top_eq_none.1 htop
    constructor
    · intro hw
      have hnonneg := hw.nonneg
      omega
    · rintro ⟨e, he, -⟩
      rw [hnil] at he
      cases he
  | some top =>
    rw [htop] at heq
    simp only at heq
    constructor
    · intro hw
      have hle := hw.le
      exact ⟨top, MinHeap.top_mem htop, by omega⟩
    · rintro ⟨e, he, hle⟩
      have hfirst : top.expiryMs ≤ e.expiryMs := MinHeap.top_le htop he
      exact ⟨by omega, by omega⟩

/-! ### Waking for the retries -/

/-- The top of the retransmission heap is the first retry. -/
theorem firstRetry_of_top {entry : RetransmitEntry} (htop : ms.retransmitHeap.top = some entry) :
    FirstRetry ms entry.retryMs :=
  ⟨⟨entry, MinHeap.top_mem htop, rfl⟩, fun _ he => MinHeap.top_le htop he⟩

/-- **When the loop wakes in time**: in a reachable state with something to resend, the wait ends no
later than at the first retry if and only if an entry of the expiry heap is due by then. -/
theorem wakesInTime_iff (h : Reachable p ms) (hne : ms.retransmitHeap.entries ≠ []) :
    WakesInTime ms ↔ ∃ e ∈ ms.expiryHeap.entries, ∀ retry, FirstRetry ms retry →
      e.expiryMs ≤ max ms.now retry := by
  obtain ⟨entry, htop⟩ := Option.ne_none_iff_exists'.1 (mt MinHeap.top_eq_none.1 hne)
  have hfirst := firstRetry_of_top htop
  constructor
  · intro hw
    obtain ⟨e, he, hle⟩ := (h.wakesBy_iff entry.retryMs).1 (hw _ hfirst)
    refine ⟨e, he, fun retry hr => ?_⟩
    -- there is one first retry
    obtain ⟨x, hx, rfl⟩ := hr.scheduled
    have hle' := hfirst.first x hx
    omega
  · rintro ⟨e, he, hle⟩ retry hr
    exact (h.wakesBy_iff retry).2 ⟨e, he, hle retry hr⟩

/-- A client `A` with a keep-alive time of a second has subscribed, and is sent a message. -/
def attendedBroker : ManageSessions :=
  after .sorting (.newConnection 3 :: arrive 0 (connectFrameWith 4 1 65 2) ++
    arrive 0 (subscribeFrame 116 1) ++ arrive 0 (publishFrame 1 116 7 1))

/-- Its session expires before the message is due again. -/
theorem wakesInTime_attended :
    attendedBroker.retransmitHeap.entries ≠ [] ∧ WakesInTime attendedBroker := by
  have hne : attendedBroker.retransmitHeap.entries ≠ [] := by decide +kernel
  have hentry : ∃ e ∈ attendedBroker.expiryHeap.entries,
      ∀ x ∈ attendedBroker.retransmitHeap.entries, e.expiryMs ≤ x.retryMs := by decide +kernel
  refine ⟨hne, (wakesInTime_iff (after_reachable _ _) hne).2 ?_⟩
  obtain ⟨e, he, hle⟩ := hentry
  refine ⟨e, he, fun retry hr => le_max_of_le_right ?_⟩
  obtain ⟨x, hx, rfl⟩ := hr.scheduled
  exact hle x hx

/-- A client `A` without a keep-alive time has subscribed, and is sent a message with QoS 1. -/
def idleBroker : ManageSessions :=
  after .sorting (.newConnection 3 :: arrive 0 (connectFrame 65 2) ++
    arrive 0 (subscribeFrame 116 1) ++ arrive 0 (publishFrame 1 116 7 1))

/-- The message is due after five seconds, and the broker waits without an end. -/
theorem not_wakesInTime_idle :
    ¬ ∀ (p : Platform) (ms : ManageSessions), Reachable p ms →
      ms.retransmitHeap.entries ≠ [] → WakesInTime ms := by
  intro h
  have hne : idleBroker.retransmitHeap.entries ≠ [] := by decide +kernel
  have hblocks : idleBroker.getNextTimeoutMs = -1 := by decide +kernel
  obtain ⟨entry, htop⟩ := Option.ne_none_iff_exists'.1 (mt MinHeap.top_eq_none.1 hne)
  have hwakes := h .sorting idleBroker (after_reachable _ _) hne _ (firstRetry_of_top htop)
  have hnonneg := hwakes.nonneg
  omega

end Culex
