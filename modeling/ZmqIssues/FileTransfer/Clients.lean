import ZmqIssues.FileTransfer.System

/-!
# Clients

What the requests and the connection of a client look like, and how to reason about one
client at a time.  A step of the system concerns one client: it is a step of its own, or
the server works on one of its requests.  So what is said about one client, its
connection and what the server has in hand for it holds in every run as soon as these few
steps keep it.  The number of requests the server has read from the client may be spoken
of too.

## Main definitions

* `Peer.Sound` — the requests of a client are well formed, and its connection is open as
  long as it needs it.
* `Local` — what the steps that concern a client must keep.

## Main results

* `Local.of_run` — **an invariant of one client holds for every client in every run.**
* `sound_local` — clients are sound, and the server works on well-formed requests.
-/

namespace ZmqIssues
namespace FileTransfer

open Machine

/-! ### Requests and connections -/

/-- What the requests and the connection of a client look like in every run. -/
structure Peer.Sound (p : Peer) : Prop where
  /-- All requests are well formed. -/
  wellFormed : ∀ req ∈ p.inbox ++ p.outbox, req.WellFormed
  /-- A client in its loop has not closed its socket. -/
  connected_of_looping : p.client.phase = .looping → p.connected = true
  /-- Nothing is on the way when the connection has ended. -/
  outbox_eq : p.connected = false → p.outbox = []

theorem Peer.Sound.start : Peer.start.Sound where
  wellFormed := by simp [Peer.start]
  connected_of_looping := fun _ => rfl
  outbox_eq := fun _ => rfl

theorem Peer.Sound.step {p q : Peer} (h : p.Sound) {a : PeerAction} (hstep : p.step a = some q) :
    q.Sound := by
  cases a with
  | request =>
    obtain ⟨req, client, hreq, rfl⟩ := Peer.step_request.mp hstep
    obtain ⟨hphase, -, rfl, rfl⟩ := Client.request_eq_some.mp hreq
    have hconn := h.connected_of_looping hphase
    refine ⟨?_, fun _ => hconn, ?_⟩
    · intro req hmem
      rw [← List.append_assoc] at hmem
      rcases List.mem_append.mp hmem with hold | hnew
      · exact h.wellFormed req hold
      · rw [List.mem_singleton] at hnew
        subst hnew
        exact ⟨rfl, rfl⟩
    · intro hne
      exact absurd (hconn.symm.trans hne) (by decide)
  | deliver =>
    obtain ⟨req, outbox, houtbox, rfl⟩ := Peer.step_deliver.mp hstep
    refine ⟨?_, h.connected_of_looping, ?_⟩
    · intro r hmem
      apply h.wellFormed r
      rw [houtbox]
      simpa using hmem
    · intro hne
      exact absurd (houtbox.symm.trans (h.outbox_eq hne)) (List.cons_ne_nil _ _)
  | receive =>
    obtain ⟨chunk, replies, client, -, hrecv, rfl⟩ := Peer.step_receive.mp hstep
    obtain ⟨hphase, -, -⟩ := Client.receive_eq_some.mp hrecv
    exact ⟨h.wellFormed, fun _ => h.connected_of_looping hphase, h.outbox_eq⟩
  | interrupt =>
    obtain ⟨client, hint, rfl⟩ := Peer.step_interrupt.mp hstep
    obtain ⟨hphase, -, -⟩ := Client.interrupt_eq_some.mp hint
    exact ⟨h.wellFormed, fun _ => h.connected_of_looping hphase, h.outbox_eq⟩
  | close =>
    obtain ⟨hleft, -, rfl⟩ := Peer.step_close.mp hstep
    refine ⟨?_, fun hloop => absurd hloop hleft, fun _ => rfl⟩
    -- the requests that have arrived are kept
    intro req hmem
    exact h.wellFormed req (List.mem_append_left _ (by simpa using hmem))

/-- The server reads a request. -/
theorem Peer.Sound.accept {p : Peer} (h : p.Sound) {req : Request} {inbox : List Request}
    (hinbox : p.inbox = req :: inbox) :
    ({ p with inbox := inbox } : Peer).Sound ∧ req.WellFormed := by
  have hwellFormed : ∀ r ∈ req :: (inbox ++ p.outbox), r.WellFormed := by
    have := h.wellFormed
    rwa [hinbox] at this
  obtain ⟨hreq, hrest⟩ := List.forall_mem_cons.mp hwellFormed
  exact ⟨⟨hrest, h.connected_of_looping, h.outbox_eq⟩, hreq⟩

theorem Peer.Sound.send {p : Peer} (h : p.Sound) (chunk : List UInt8) : (p.send chunk).Sound :=
  ⟨h.wellFormed, h.connected_of_looping, h.outbox_eq⟩

/-- Requests are delivered over an open connection only, and a client that does not close
its socket keeps it. -/
theorem Peer.Sound.connected_of_inbox {p q : Peer} (h : p.Sound) {a : PeerAction}
    (hstep : p.step a = some q) (ha : a ≠ .close) :
    q.connected = p.connected ∧ (q.inbox = p.inbox ∨ p.connected = true) := by
  cases a with
  | request =>
    obtain ⟨_, _, -, rfl⟩ := Peer.step_request.mp hstep
    exact ⟨rfl, Or.inl rfl⟩
  | deliver =>
    obtain ⟨req, outbox, houtbox, rfl⟩ := Peer.step_deliver.mp hstep
    refine ⟨rfl, Or.inr ?_⟩
    by_contra hne
    have hnil := h.outbox_eq (by simpa using hne)
    exact absurd (houtbox.symm.trans hnil) (List.cons_ne_nil _ _)
  | receive =>
    obtain ⟨_, _, _, -, -, rfl⟩ := Peer.step_receive.mp hstep
    exact ⟨rfl, Or.inl rfl⟩
  | interrupt =>
    obtain ⟨_, -, rfl⟩ := Peer.step_interrupt.mp hstep
    exact ⟨rfl, Or.inl rfl⟩
  | close => exact absurd rfl ha

/-! ### Invariants of one client -/

variable {file : List UInt8} {P : ℕ → Peer → List Request → List (List UInt8) → Prop}

/-- A property of a client whose requests the server has read `n` of, with the request
and the chunk the server has in hand for it, is kept by every step that concerns it. -/
structure Local (file : List UInt8) (P : ℕ → Peer → List Request → List (List UInt8) → Prop) :
    Prop where
  /-- It holds at first. -/
  start : P 0 Peer.start [] []
  /-- The client and its connection keep it. -/
  peer : ∀ {n p q a asked answer}, P n p asked answer → p.step a = some q → P n q asked answer
  /-- The server reads a request. -/
  accept : ∀ {n p req inbox}, P n p [] [] → p.inbox = req :: inbox →
    P (n + 1) { p with inbox := inbox } [req] []
  /-- The server reads the chunk. -/
  serve : ∀ {n p req pos data pos'}, P n p [req] [] → serve file pos req = .ok (data, pos') →
    P n p [] [data]
  /-- An assertion on the request fails. -/
  fail : ∀ {n p req pos a}, P n p [req] [] → FileTransfer.serve file pos req = .error a →
    P n p [] []
  /-- The server sends the chunk. -/
  send : ∀ {n p data}, P n p [] [data] → P n (p.send data) [] []
  /-- The identity frame is refused, and the chunk is not sent. -/
  refuse : ∀ {n p data}, P n p [] [data] → p.connected = false → P n p [] []

variable {ι : Type*} [DecidableEq ι]

/-- **Steps of the system.**  A step of the server concerns one client, and leaves the
others with nothing at the server. -/
theorem Local.step (hP : Local file P) (as : List (Action ι)) {s t : System ι}
    (h : ∀ c, P (as.count (.accept c)) (s.peers c) (s.server.askedOf c) (s.server.answerOf c))
    {a : Action ι} (hstep : step file s a = some t) (d : ι) :
    P ((as ++ [a]).count (.accept d)) (t.peers d) (t.server.askedOf d) (t.server.answerOf d) := by
  have hd := h d
  rw [List.count_append]
  cases a with
  | peer c a =>
    obtain ⟨p, hp, rfl⟩ := step_peer.mp hstep
    by_cases hdc : d = c
    · subst hdc
      rw [System.setPeer_peers_self]
      exact hP.peer hd hp
    · rw [System.setPeer_peers_of_ne s hdc]
      exact hd
  | accept c =>
    obtain ⟨req, inbox, hidle, hinbox, rfl⟩ := step_accept.mp hstep
    rw [hidle] at hd
    by_cases hdc : d = c
    · subst hdc
      simpa using hP.accept hd hinbox
    · have hcount : List.count (Action.accept d) [Action.accept c] = 0 := by
        simp [Ne.symm hdc]
      rw [hcount]
      simpa [System.setPeer_peers_of_ne s hdc, ServerPc.askedOf_asked_of_ne hdc] using hd
  | load =>
    obtain ⟨c, req, hasked, hserved⟩ := step_load.mp hstep
    rw [hasked] at hd
    by_cases hdc : d = c
    · subst hdc
      rw [ServerPc.askedOf_asked] at hd
      rcases hserved with ⟨data, pos, hserve, rfl⟩ | ⟨a, herror, rfl⟩
      · simpa using hP.serve hd hserve
      · exact hP.fail hd herror
    · -- the other clients do not notice
      rw [ServerPc.askedOf_asked_of_ne hdc] at hd
      rcases hserved with ⟨data, _, -, rfl⟩ | ⟨_, -, rfl⟩
      · simpa [ServerPc.answerOf_loaded_of_ne hdc] using hd
      · exact hd
  | route =>
    obtain ⟨c, data, hloaded, hrouted⟩ := step_route.mp hstep
    rw [hloaded] at hd
    rcases hrouted with ⟨-, rfl⟩ | ⟨hne, rfl⟩
    · exact hd
    · by_cases hdc : d = c
      · subst hdc
        rw [ServerPc.answerOf_loaded] at hd
        exact hP.refuse hd hne
      · rwa [ServerPc.answerOf_loaded_of_ne hdc] at hd
  | reply =>
    obtain ⟨c, data, hrouted, rfl⟩ := step_reply.mp hstep
    rw [hrouted] at hd
    by_cases hdc : d = c
    · subst hdc
      rw [ServerPc.answerOf_routed] at hd
      simpa using hP.send hd
    · rw [ServerPc.answerOf_routed_of_ne hdc] at hd
      simpa [System.setPeer_peers_of_ne s hdc] using hd
  | shutdown =>
    obtain ⟨hidle, rfl⟩ := step_shutdown.mp hstep
    rw [hidle] at hd
    exact hd

/-- **An invariant of one client holds for every client in every run.** -/
theorem Local.of_run (hP : Local file P) {as : List (Action ι)} {s : System ι}
    (hrun : run (FileTransfer.step file) System.start as = some s) (c : ι) :
    P (as.count (.accept c)) (s.peers c) (s.server.askedOf c) (s.server.answerOf c) := by
  refine invariant_of_history (I := fun as s => ∀ c : ι,
    P (as.count (.accept c)) (s.peers c) (s.server.askedOf c) (s.server.answerOf c)) ?_ ?_ hrun c
  · intro c
    exact hP.start
  · intro as s a t h hstep
    exact hP.step as h hstep

/-- Clients stay sound, and what the server has in hand is well formed. -/
theorem sound_local (file : List UInt8) :
    Local file fun _ p asked _ => p.Sound ∧ ∀ req ∈ asked, req.WellFormed where
  start := ⟨Peer.Sound.start, by simp⟩
  peer := fun h hstep => ⟨h.1.step hstep, h.2⟩
  accept := by
    intro n p req inbox h hinbox
    obtain ⟨hsound, hreq⟩ := h.1.accept hinbox
    exact ⟨hsound, List.forall_mem_singleton.mpr hreq⟩
  serve := fun h _ => ⟨h.1, by simp⟩
  fail := fun h _ => ⟨h.1, by simp⟩
  send := fun h => ⟨h.1.send _, by simp⟩
  refuse := fun h _ => ⟨h.1, by simp⟩

end FileTransfer
end ZmqIssues
