import Culex.Lib.Run

/-!
# Conversations

A client that sends a message and waits for the reply before it sends the next, and a server that
queues a task with each read, whose tasks take a message when all of it has arrived.  The stream
from the client to the server may be cut anywhere, and the tasks run at any time.

* `Exchanges`, `exchange`: the exchanges one after another, as if there were no streams;
* `Talk`, `TalkStep`: client, streams, buffer and server;
* `conversation`: the two are in step, so that what the server has been told and has passed on, and
  what the client has heard, is that of some number of exchanges;
* `InStep.completes`: and they never wait for each other.
-/

namespace Conversation

variable {κ σ α β μ : Type}

/-- A client that waits for the reply to each message, and reads `capacity` bytes of it at most. -/
structure Client (κ α β : Type) where
  request : κ → α
  replied : κ → List β → κ
  capacity : ℕ

/-- What becomes of a server that is told a message. -/
structure Effect (σ β μ : Type) where
  server : σ
  reply : List β
  passed : List μ

/-- A client and a server, the replies that the client has heard, and what the server has passed
on. -/
structure Exchanges (κ σ β μ : Type) where
  client : κ
  server : σ
  heard : List (List β) := []
  passed : List μ := []

/-- The client and the server, with what is between them. -/
structure Talk (κ σ β μ : Type) extends Exchanges κ σ β μ where
  /-- The client waits for a reply. -/
  waiting : Bool := false
  /-- What the client has sent, and the server has not read. -/
  wire : List β := []
  /-- What the server has read, and has not taken. -/
  buffer : List β := []
  pending : ℕ := 0
  /-- What the server has replied, and the client has not read. -/
  replies : List β := []

inductive Action (β : Type)
  | send
  | read (chunk : List β)
  | task
  | hear

section Steps

variable (c : Client κ α β) (serve : σ → α → Effect σ β μ)

/-- What the server makes of the request of the client. -/
def Exchanges.effect (x : Exchanges κ σ β μ) : Effect σ β μ := serve x.server (c.request x.client)

/-- One exchange. -/
def exchange (x : Exchanges κ σ β μ) : Exchanges κ σ β μ where
  client := c.replied x.client (x.effect c serve).reply
  server := (x.effect c serve).server
  heard := x.heard ++ [(x.effect c serve).reply]
  passed := x.passed ++ (x.effect c serve).passed

variable (frame : α → List β)

namespace Talk

def send (s : Talk κ σ β μ) : Talk κ σ β μ :=
  { s with waiting := true, wire := s.wire ++ frame (c.request s.client) }

/-- The server reads `chunk`, and `rest` is still to come. -/
def read (s : Talk κ σ β μ) (chunk rest : List β) : Talk κ σ β μ :=
  { s with wire := rest, buffer := s.buffer ++ chunk, pending := s.pending + 1 }

/-- A task finds nothing. -/
def idle (s : Talk κ σ β μ) : Talk κ σ β μ := { s with pending := s.pending - 1 }

/-- A task finds a message. -/
def served (s : Talk κ σ β μ) (a : α) : Talk κ σ β μ :=
  { s with
    server := (serve s.server a).server
    passed := s.passed ++ (serve s.server a).passed
    buffer := []
    pending := s.pending - 1
    replies := s.replies ++ (serve s.server a).reply }

def hear (s : Talk κ σ β μ) : Talk κ σ β μ :=
  { s with
    client := c.replied s.client (s.replies.take c.capacity)
    heard := s.heard ++ [s.replies.take c.capacity]
    waiting := false
    replies := s.replies.drop c.capacity }

end Talk

/-- The transitions, where the server takes the messages that are `ok`. -/
inductive TalkStep (ok : α → Prop) (s : Talk κ σ β μ) : Action β → Talk κ σ β μ → Prop
  | send (ready : s.waiting = false) : TalkStep ok s .send (s.send c frame)
  | read {chunk rest : List β} (wire : s.wire = chunk ++ rest) :
      TalkStep ok s (.read chunk) (s.read chunk rest)
  | serve {a : α} (pending : 0 < s.pending) (whole : ok a) (buffer : s.buffer = frame a) :
      TalkStep ok s .task (s.served serve a)
  | idle (pending : 0 < s.pending) (cut : ∀ a, ok a → s.buffer ≠ frame a) :
      TalkStep ok s .task s.idle
  | hear (waiting : s.waiting = true) (replies : s.replies ≠ []) : TalkStep ok s .hear (s.hear c)

/-- Where the client and the server are: in between two exchanges, with a request on its way, or
with a reply. -/
inductive InStep (x : Exchanges κ σ β μ) (s : Talk κ σ β μ) : Prop
  | ready (exchanges : s.toExchanges = x) (waiting : s.waiting = false) (wire : s.wire = [])
      (buffer : s.buffer = []) (replies : s.replies = [])
  | asking (exchanges : s.toExchanges = x) (waiting : s.waiting = true)
      (request : s.buffer ++ s.wire = frame (c.request x.client)) (replies : s.replies = [])
      (pending : s.wire = [] → 0 < s.pending)
  | answered (exchanges : s.toExchanges = { x with
        server := (x.effect c serve).server
        passed := x.passed ++ (x.effect c serve).passed })
      (waiting : s.waiting = true) (wire : s.wire = []) (buffer : s.buffer = [])
      (replies : s.replies = (x.effect c serve).reply)

/-- Frames that can be told apart, and replies that the client reads whole. -/
structure Fair (ok : α → Prop) : Prop where
  ne_nil : ∀ a, frame a ≠ []
  prefixFree : ∀ a b, ok a → ok b → frame a <+: frame b → a = b
  request : ∀ k, ok (c.request k)
  reply : ∀ server k, (serve server (c.request k)).reply ≠ [] ∧
    (serve server (c.request k)).reply.length ≤ c.capacity

end Steps

variable {c : Client κ α β} {serve : σ → α → Effect σ β μ} {frame : α → List β} {ok : α → Prop}
  {x : Exchanges κ σ β μ} {s s' : Talk κ σ β μ} {actions : List (Action β)} {action : Action β}

/-- The frame of a request has come whole. -/
theorem Fair.whole (hf : Fair c serve frame ok) {k : κ} {wire : List β} {a : α} (ha : ok a)
    (h : frame a ++ wire = frame (c.request k)) : a = c.request k ∧ wire = [] := by
  obtain rfl := hf.prefixFree _ _ ha (hf.request k) ⟨wire, h⟩
  exact ⟨rfl, by simpa using h⟩

/-- A step takes an exchange further, or begins the next one. -/
theorem InStep.step (hf : Fair c serve frame ok) (h : InStep c serve frame x s)
    (hstep : TalkStep c serve frame ok s action s') :
    InStep c serve frame x s' ∨ InStep c serve frame (exchange c serve x) s' := by
  cases hstep with
  | send hready =>
    cases h with
    | ready hx _ hwire hbuffer hreplies =>
      refine .inl (.asking hx rfl ?_ hreplies fun hnil => ?_)
      · simp [Talk.send, hwire, hbuffer, ← hx]
      · simp [Talk.send, hwire, hf.ne_nil] at hnil
    | asking _ hwaiting => simp [hwaiting] at hready
    | answered _ hwaiting => simp [hwaiting] at hready
  | @read chunk rest hchunk =>
    cases h with
    | ready hx hwaiting hwire hbuffer hreplies =>
      obtain ⟨rfl, rfl⟩ := List.append_eq_nil_iff.1 (hchunk.symm.trans hwire)
      exact .inl (.ready hx hwaiting rfl (by simp [Talk.read, hbuffer]) hreplies)
    | asking hx hwaiting hrequest hreplies _ =>
      refine .inl (.asking hx hwaiting ?_ hreplies fun _ => Nat.succ_pos _)
      simpa [Talk.read, hchunk] using hrequest
    | answered hx hwaiting hwire hbuffer hreplies =>
      obtain ⟨rfl, rfl⟩ := List.append_eq_nil_iff.1 (hchunk.symm.trans hwire)
      exact .inl (.answered hx hwaiting rfl (by simp [Talk.read, hbuffer]) hreplies)
  | @serve a hpending ha hwhole =>
    cases h with
    | ready _ _ _ hbuffer => exact absurd (hwhole.symm.trans hbuffer) (hf.ne_nil a)
    | asking hx hwaiting hrequest hreplies =>
      rw [hwhole] at hrequest
      obtain ⟨rfl, hwire⟩ := hf.whole ha hrequest
      refine .inl (.answered ?_ hwaiting hwire rfl ?_)
      · subst hx
        rfl
      · subst hx
        simp [Talk.served, hreplies, Exchanges.effect]
    | answered _ _ _ hbuffer => exact absurd (hwhole.symm.trans hbuffer) (hf.ne_nil a)
  | idle hpending hcut =>
    cases h with
    | ready hx hwaiting hwire hbuffer hreplies =>
      exact .inl (.ready hx hwaiting hwire hbuffer hreplies)
    | asking hx hwaiting hrequest hreplies =>
      refine .inl (.asking hx hwaiting hrequest hreplies fun hwire => ?_)
      have hbuffer : s.buffer = frame (c.request x.client) := by
        rw [← hrequest, show s.wire = [] from hwire, List.append_nil]
      exact absurd hbuffer (hcut _ (hf.request _))
    | answered hx hwaiting hwire hbuffer hreplies =>
      exact .inl (.answered hx hwaiting hwire hbuffer hreplies)
  | hear hwaiting hne =>
    cases h with
    | ready _ hready => simp [hready] at hwaiting
    | asking _ _ _ hreplies => exact absurd hreplies hne
    | answered hx _ hwire hbuffer hreplies =>
      have hlen := (hf.reply x.server x.client).2
      have htake : s.replies.take c.capacity = (x.effect c serve).reply := by
        rw [hreplies]
        exact List.take_of_length_le hlen
      have hdrop : s.replies.drop c.capacity = [] := by
        rw [hreplies]
        exact List.drop_eq_nil_of_le hlen
      refine .inr (.ready ?_ rfl hwire hbuffer hdrop)
      obtain ⟨⟨client, server, heard, passed⟩, waiting, wire, buffer, pending, replies⟩ := s
      simp only [Exchanges.mk.injEq] at hx htake
      obtain ⟨rfl, rfl, rfl, rfl⟩ := hx
      simp [Talk.hear, exchange, htake]

/-- **The client and the server are in step**, after some number of exchanges. -/
theorem conversation (hf : Fair c serve frame ok) (h : InStep c serve frame x s)
    (hrun : Run (TalkStep c serve frame ok) s actions s') :
    ∃ n, InStep c serve frame ((exchange c serve)^[n] x) s' := by
  refine hrun.invariant (I := fun s' => ∃ n, InStep c serve frame ((exchange c serve)^[n] x) s')
    ⟨0, h⟩ ?_
  rintro s₁ action s₂ ⟨n, hn⟩ hstep
  rcases hn.step hf hstep with h | h
  · exact ⟨n, h⟩
  · exact ⟨n + 1, by rwa [Function.iterate_succ_apply']⟩

/-- What the server has not taken is a part of a request. -/
theorem InStep.cut (h : InStep c serve frame x s) : s.buffer <+: frame (c.request x.client) := by
  cases h with
  | ready _ _ _ hbuffer => exact hbuffer ▸ List.nil_prefix
  | asking _ _ hrequest => exact ⟨s.wire, hrequest⟩
  | answered _ _ _ hbuffer => exact hbuffer ▸ List.nil_prefix

/-- What has been heard is that of the exchanges, and so is what has been passed on, or it is that of
one more whose reply is on its way. -/
theorem InStep.heard (h : InStep c serve frame x s) : s.heard = x.heard := by
  cases h with
  | ready hx => rw [hx]
  | asking hx => rw [hx]
  | answered hx => rw [hx]

theorem InStep.passed (h : InStep c serve frame x s) :
    s.passed = x.passed ∨ s.passed = (exchange c serve x).passed := by
  cases h with
  | ready hx => exact .inl (by rw [hx])
  | asking hx => exact .inl (by rw [hx])
  | answered hx => exact .inr (by rw [hx]; rfl)

/-- The client hears the reply. -/
theorem completes_answered (hwaiting : s.waiting = true) (hne : s.replies ≠ []) :
    ∃ actions s', Run (TalkStep c serve frame ok) s actions s' ∧ actions.length ≤ 1 ∧
      s'.heard.length = s.heard.length + 1 := by
  refine ⟨[.hear], s.hear c, Run.nil.cons (.hear hwaiting hne), le_rfl, ?_⟩
  simp [Talk.hear]

/-- A task finds the request. -/
theorem completes_arrived (hf : Fair c serve frame ok) (hwaiting : s.waiting = true)
    (hpending : 0 < s.pending) (hbuffer : s.buffer = frame (c.request s.client)) :
    ∃ actions s', Run (TalkStep c serve frame ok) s actions s' ∧ actions.length ≤ 2 ∧
      s'.heard.length = s.heard.length + 1 := by
  have hserve : TalkStep c serve frame ok s .task (s.served serve (c.request s.client)) :=
    .serve hpending (hf.request _) hbuffer
  have hne : (s.served serve (c.request s.client)).replies ≠ [] := by
    simp [Talk.served, (hf.reply s.server s.client).1]
  obtain ⟨actions, s', hrun, hlen, hheard⟩ := @completes_answered _ _ _ _ _ c serve frame ok
    (s.served serve (c.request s.client)) hwaiting hne
  exact ⟨.task :: actions, s', hrun.cons hserve, Nat.succ_le_succ hlen, hheard⟩

/-- The rest of the request arrives. -/
theorem completes_asked (hf : Fair c serve frame ok) (hwaiting : s.waiting = true)
    (hrequest : s.buffer ++ s.wire = frame (c.request s.client)) :
    ∃ actions s', Run (TalkStep c serve frame ok) s actions s' ∧ actions.length ≤ 3 ∧
      s'.heard.length = s.heard.length + 1 := by
  have hread : TalkStep c serve frame ok s (.read s.wire) (s.read s.wire []) :=
    .read (List.append_nil _).symm
  obtain ⟨actions, s', hrun, hlen, hheard⟩ := @completes_arrived _ _ _ _ _ c serve frame ok
    (s.read s.wire []) hf hwaiting (Nat.succ_pos _) hrequest
  exact ⟨_, s', hrun.cons hread, Nat.succ_le_succ hlen, hheard⟩

/-- **They never wait for each other**: four steps at most, and the client has heard one more
reply. -/
theorem InStep.completes (hf : Fair c serve frame ok) (h : InStep c serve frame x s) :
    ∃ actions s', Run (TalkStep c serve frame ok) s actions s' ∧ actions.length ≤ 4 ∧
      s'.heard.length = s.heard.length + 1 := by
  cases h with
  | ready _ hwaiting hwire hbuffer =>
    have hsend : TalkStep c serve frame ok s .send (s.send c frame) := .send hwaiting
    have hrequest : (s.send c frame).buffer ++ (s.send c frame).wire =
        frame (c.request s.client) := by
      simp [Talk.send, hwire, hbuffer]
    obtain ⟨actions, s', hrun, hlen, hheard⟩ := @completes_asked _ _ _ _ _ c serve frame ok
      (s.send c frame) hf rfl hrequest
    exact ⟨_, s', hrun.cons hsend, Nat.succ_le_succ hlen, hheard⟩
  | asking hx hwaiting hrequest =>
    rw [← hx] at hrequest
    obtain ⟨actions, s', hrun, hlen, hheard⟩ := completes_asked hf hwaiting hrequest
    exact ⟨actions, s', hrun, by omega, hheard⟩
  | answered hx hwaiting _ _ hreplies =>
    have hne : s.replies ≠ [] := by
      rw [hreplies]
      exact (hf.reply _ _).1
    obtain ⟨actions, s', hrun, hlen, hheard⟩ := @completes_answered _ _ _ _ _ c serve frame ok s
      hwaiting hne
    exact ⟨actions, s', hrun, by omega, hheard⟩

end Conversation
