import ZmqIssues.FileTransfer.Clients

/-!
# Does the file server survive its clients?

A client that has received a short chunk leaves, although up to nine more of its
requests are on the way or at the server.  The server's socket refuses replies to a
client that has gone, and the server asserts that they are accepted, so a single request
left behind takes it down.

## Main definitions

* `Unanswered` — the running server has a request of a client it has not answered.
* `Orderly` — no client goes while one of its requests is unanswered.
* `Alive` — the invariant of orderly runs.

## Main results

* `Alive.step` — an orderly step fails no assertion.
* `exists_abort` — a request left behind by a client that has gone takes the server down.
* `survives_exactly_orderly` — **the server survives orderly runs, and no other leave.**
-/

namespace ZmqIssues
namespace FileTransfer

open Machine

variable {file : List UInt8}

/-! ### Orderly runs -/

variable {ι : Type*} [DecidableEq ι]

/-- The running server has a request of the client it has not answered: in its queue, or
one whose reply has not been sent yet. -/
def Unanswered (s : System ι) (c : ι) : Prop :=
  s.server ≠ .stopped ∧ ((s.peers c).inbox ≠ [] ∨ (∃ req, s.server = .asked c req) ∨
    ∃ data, s.server = .loaded c data)

/-- No client goes while one of its requests is unanswered. -/
def Orderly (s : System ι) : Action ι → Prop
  | .peer c .close => ¬ Unanswered s c
  | _ => True

/-- What the requests look like in every run. -/
structure WellFormed (s : System ι) : Prop where
  /-- The clients are sound. -/
  sound : ∀ c, (s.peers c).Sound
  /-- The request the server works on is well formed. -/
  asked : ∀ c req, s.server = .asked c req → req.WellFormed

/-- The invariant of orderly runs. -/
structure Alive (s : System ι) : Prop extends WellFormed s where
  /-- No assertion failed. -/
  not_aborted : ∀ a, s.server ≠ .aborted a
  /-- A client with an unanswered request is still there. -/
  connected : ∀ c, Unanswered s c → (s.peers c).connected = true

omit [DecidableEq ι] in
theorem Alive.start : Alive (System.start : System ι) where
  sound := fun _ => Peer.Sound.start
  asked := by simp [System.start]
  not_aborted := by simp [System.start]
  connected := fun _ _ => rfl

/-- Requests stay well formed in every step. -/
theorem WellFormed.step {s t : System ι} (h : WellFormed s) {a : Action ι}
    (hstep : step file s a = some t) : WellFormed t := by
  have hs : ∀ c, (s.peers c).Sound ∧ ∀ req ∈ s.server.askedOf c, req.WellFormed := by
    intro c
    refine ⟨h.sound c, ?_⟩
    intro req hreq
    exact h.asked c req (ServerPc.mem_askedOf.mp hreq)
  have ht := (sound_local file).step [] hs hstep
  refine ⟨fun c => (ht c).1, ?_⟩
  intro c req hasked
  exact (ht c).2 req (ServerPc.mem_askedOf.mpr hasked)

/-- In an orderly step of a client, nobody goes who is waited for. -/
theorem Alive.connected_setPeer {s : System ι} (h : Alive s) {c : ι} {a : PeerAction} {p : Peer}
    (hord : Orderly s (.peer c a)) (hp : (s.peers c).step a = some p) {d : ι}
    (hd : Unanswered (s.setPeer c p) d) : ((s.setPeer c p).peers d).connected = true := by
  by_cases hdc : d = c
  · subst hdc
    rw [System.setPeer_peers_self]
    by_cases hclose : a = .close
    · -- the client has no request at the server, also after it is gone
      subst hclose
      obtain ⟨-, -, rfl⟩ := Peer.step_close.mp hp
      rw [Unanswered, System.setPeer_peers_self] at hd
      exact absurd hd hord
    · obtain ⟨hconn, hinbox⟩ := (h.sound d).connected_of_inbox hp hclose
      rw [hconn]
      rcases hinbox with hinbox | hconn
      · rw [Unanswered, System.setPeer_peers_self, hinbox] at hd
        exact h.connected d hd
      · exact hconn
  · rw [Unanswered, System.setPeer_peers_of_ne s hdc] at hd
    rw [System.setPeer_peers_of_ne s hdc]
    exact h.connected d hd

/-- **An orderly step fails no assertion.** -/
theorem Alive.step {s t : System ι} (h : Alive s) {a : Action ι} (hord : Orderly s a)
    (hstep : step file s a = some t) : Alive t := by
  have hwf := h.toWellFormed.step hstep
  cases a with
  | peer c a =>
    obtain ⟨p, hp, rfl⟩ := step_peer.mp hstep
    refine ⟨hwf, h.not_aborted, ?_⟩
    intro d hd
    exact h.connected_setPeer hord hp hd
  | accept c =>
    obtain ⟨req, inbox, hidle, hinbox, rfl⟩ := step_accept.mp hstep
    refine ⟨hwf, by simp, ?_⟩
    intro d hleft
    obtain ⟨-, hd⟩ := hleft
    have hrunning : s.server ≠ .stopped := by simp [hidle]
    by_cases hdc : d = c
    · subst hdc
      simp only [System.setPeer_peers_self]
      exact h.connected d ⟨hrunning, Or.inl (by simp [hinbox])⟩
    · simp only [System.setPeer_peers_of_ne s hdc] at hd ⊢
      rcases hd with hd | ⟨_, hd⟩ | ⟨_, hd⟩
      · exact h.connected d ⟨hrunning, Or.inl hd⟩
      · exact absurd (ServerPc.asked.inj hd).1.symm hdc
      · exact absurd hd (by simp)
  | load =>
    obtain ⟨c, req, hasked, hserved⟩ := step_load.mp hstep
    have hrunning : s.server ≠ .stopped := by simp [hasked]
    rcases hserved with ⟨data, pos, -, rfl⟩ | ⟨a, herror, -⟩
    · refine ⟨hwf, by simp, ?_⟩
      intro d hleft
      rcases hleft with ⟨-, hd | ⟨_, hd⟩ | ⟨_, hd⟩⟩
      · exact h.connected d ⟨hrunning, Or.inl hd⟩
      · exact absurd hd (by simp)
      · -- the chunk is for the client whose request was served
        obtain ⟨rfl, -⟩ := ServerPc.loaded.inj hd
        exact h.connected c ⟨hrunning, Or.inr (Or.inl ⟨req, hasked⟩)⟩
    · -- a well-formed request fails no assertion
      exact absurd herror (serve_ne_error file s.pos (h.asked c req hasked) a)
  | route =>
    obtain ⟨c, data, hloaded, hrouted⟩ := step_route.mp hstep
    have hrunning : s.server ≠ .stopped := by simp [hloaded]
    have hconn := h.connected c ⟨hrunning, Or.inr (Or.inr ⟨data, hloaded⟩)⟩
    rcases hrouted with ⟨-, rfl⟩ | ⟨hne, -⟩
    · refine ⟨hwf, by simp, ?_⟩
      intro d hleft
      rcases hleft with ⟨-, hd | ⟨_, hd⟩ | ⟨_, hd⟩⟩
      · exact h.connected d ⟨hrunning, Or.inl hd⟩
      · exact absurd hd (by simp)
      · exact absurd hd (by simp)
    · -- the client is still there, so its identity frame is accepted
      exact absurd (hconn.symm.trans hne) (by decide)
  | reply =>
    obtain ⟨c, data, hrouted, rfl⟩ := step_reply.mp hstep
    have hrunning : s.server ≠ .stopped := by simp [hrouted]
    refine ⟨hwf, by simp, ?_⟩
    intro d hleft
    rcases hleft with ⟨-, hd | ⟨_, hd⟩ | ⟨_, hd⟩⟩
    · by_cases hdc : d = c
      · subst hdc
        simp only [System.setPeer_peers_self] at hd ⊢
        exact h.connected d ⟨hrunning, Or.inl hd⟩
      · simp only [System.setPeer_peers_of_ne s hdc] at hd ⊢
        exact h.connected d ⟨hrunning, Or.inl hd⟩
    · exact absurd hd (by simp)
    · exact absurd hd (by simp)
  | shutdown =>
    obtain ⟨-, rfl⟩ := step_shutdown.mp hstep
    refine ⟨hwf, by simp, ?_⟩
    intro d hleft
    exact absurd rfl hleft.1

/-! ### Requests left behind -/

/-- The server can still fail an assertion. -/
def CanAbort (file : List UInt8) (s : System ι) : Prop :=
  ∃ as t, run (step file) s as = some t ∧ t.server = .aborted .sendIdentity

theorem CanAbort.of_step {s t : System ι} {a : Action ι} (hstep : step file s a = some t)
    (h : CanAbort file t) : CanAbort file s := by
  obtain ⟨as, u, hrun, hu⟩ := h
  exact ⟨a :: as, u, run_cons_eq_some.mpr ⟨t, hstep, hrun⟩, hu⟩

/-- The identity frame is refused. -/
theorem canAbort_of_loaded {s : System ι} {c : ι} {data : List UInt8}
    (hserver : s.server = .loaded c data) (hgone : (s.peers c).connected = false) :
    CanAbort file s := by
  refine CanAbort.of_step (step_route.mpr ⟨c, data, hserver, Or.inr ⟨hgone, rfl⟩⟩) ?_
  exact ⟨[], _, rfl, rfl⟩

theorem canAbort_of_asked {s : System ι} {c : ι} {req : Request}
    (hserver : s.server = .asked c req) (hreq : req.WellFormed)
    (hgone : (s.peers c).connected = false) : CanAbort file s := by
  obtain ⟨data, pos, hserve⟩ := exists_serve_eq_ok file s.pos hreq
  refine CanAbort.of_step (step_load.mpr ⟨c, req, hserver, Or.inl ⟨data, pos, hserve, rfl⟩⟩) ?_
  exact canAbort_of_loaded rfl hgone

/-- A request of a client that has gone is read and served. -/
theorem canAbort_of_idle {s : System ι} (hs : WellFormed s) {c : ι} (hserver : s.server = .idle)
    (hinbox : (s.peers c).inbox ≠ []) (hgone : (s.peers c).connected = false) :
    CanAbort file s := by
  obtain ⟨req, inbox, hcons⟩ := List.exists_cons_of_ne_nil hinbox
  have hreq : req.WellFormed := (hs.sound c).wellFormed req (by simp [hcons])
  refine CanAbort.of_step (step_accept.mpr ⟨req, inbox, hserver, hcons, rfl⟩) ?_
  exact canAbort_of_asked rfl hreq (by simpa using hgone)

/-- The server finishes the reply it is sending first. -/
theorem canAbort_of_routed {s : System ι} (hs : WellFormed s) {c d : ι} {data : List UInt8}
    (hserver : s.server = .routed d data) (hinbox : (s.peers c).inbox ≠ [])
    (hgone : (s.peers c).connected = false) : CanAbort file s := by
  have hreply : step file s .reply = some _ := step_reply.mpr ⟨d, data, hserver, rfl⟩
  refine CanAbort.of_step hreply (canAbort_of_idle (hs.step hreply) (c := c) rfl ?_ ?_)
  · by_cases hcd : c = d
    · subst hcd
      simpa [Peer.send] using hinbox
    · simpa [System.setPeer_peers_of_ne s hcd] using hinbox
  · by_cases hcd : c = d
    · subst hcd
      simpa [Peer.send] using hgone
    · simpa [System.setPeer_peers_of_ne s hcd] using hgone

/-- The server is at another client's request. -/
theorem canAbort_of_loaded_other {s : System ι} (hs : WellFormed s) {c d : ι} {data : List UInt8}
    (hserver : s.server = .loaded d data) (hinbox : (s.peers c).inbox ≠ [])
    (hgone : (s.peers c).connected = false) : CanAbort file s := by
  cases hconn : (s.peers d).connected with
  | false => exact canAbort_of_loaded hserver hconn
  | true =>
    have hroute : step file s .route = some _ :=
      step_route.mpr ⟨d, data, hserver, Or.inl ⟨hconn, rfl⟩⟩
    exact CanAbort.of_step hroute (canAbort_of_routed (hs.step hroute) rfl hinbox hgone)

/-- **A request left behind by a client that has gone takes the server down.** -/
theorem exists_abort {s : System ι} (hs : WellFormed s) (hna : ∀ a, s.server ≠ .aborted a) {c : ι}
    (hleft : Unanswered s c) (hgone : (s.peers c).connected = false) : CanAbort file s := by
  obtain ⟨hrunning, hleft⟩ := hleft
  cases hserver : s.server with
  | idle =>
    rcases hleft with hinbox | ⟨_, h⟩ | ⟨_, h⟩
    · exact canAbort_of_idle hs hserver hinbox hgone
    · simp [hserver] at h
    · simp [hserver] at h
  | asked d req =>
    have hreq := hs.asked d req hserver
    by_cases hcd : c = d
    · subst hcd
      exact canAbort_of_asked hserver hreq hgone
    · -- the server finishes the request it is at first
      rcases hleft with hinbox | ⟨_, h⟩ | ⟨_, h⟩
      · obtain ⟨data, pos, hserve⟩ := exists_serve_eq_ok file s.pos hreq
        have hload := step_load.mpr ⟨d, req, hserver, Or.inl ⟨data, pos, hserve, rfl⟩⟩
        exact CanAbort.of_step hload
          (canAbort_of_loaded_other (hs.step hload) rfl hinbox hgone)
      · rw [hserver] at h
        exact absurd (ServerPc.asked.inj h).1.symm hcd
      · simp [hserver] at h
  | loaded d data =>
    rcases hleft with hinbox | ⟨_, h⟩ | ⟨_, h⟩
    · exact canAbort_of_loaded_other hs hserver hinbox hgone
    · simp [hserver] at h
    · exact canAbort_of_loaded h hgone
  | routed d data =>
    rcases hleft with hinbox | ⟨_, h⟩ | ⟨_, h⟩
    · exact canAbort_of_routed hs hserver hinbox hgone
    · simp [hserver] at h
    · simp [hserver] at h
  | stopped => exact absurd hserver hrunning
  | aborted a => exact absurd hserver (hna a)

/-! ### Survival -/

/-- **The server survives orderly runs, and no other leave.**  No assertion fails in a
run in which no client goes while one of its requests is unanswered; and when a client
goes although one is, the server can fail the assertion on its reply. -/
theorem survives_exactly_orderly (file : List UInt8) :
    (∀ (as : List (Action ι)) (s : System ι), run (step file) System.start as = some s →
      Along (step file) Orderly System.start as → ∀ a, s.server ≠ .aborted a) ∧
    (∀ (as : List (Action ι)) (s : System ι), run (step file) System.start as = some s →
      Along (step file) Orderly System.start as →
      ∀ c t, ¬ Orderly s (.peer c .close) → step file s (.peer c .close) = some t →
        ∃ bs u, run (step file) t bs = some u ∧ u.server = .aborted .sendIdentity) := by
  have halive : ∀ (as : List (Action ι)) (s : System ι),
      run (step file) System.start as = some s →
      Along (step file) Orderly System.start as → Alive s := by
    intro as s hrun hal
    exact invariant_of_along (fun _ _ _ h hord hstep => h.step hord hstep) Alive.start hal hrun
  constructor
  · intro as s hrun hal
    exact (halive as s hrun hal).not_aborted
  · intro as s hrun hal c t hnot hclose
    have h := halive as s hrun hal
    have hleft : Unanswered s c := not_not.mp hnot
    obtain ⟨p, hp, rfl⟩ := step_peer.mp hclose
    obtain ⟨-, -, rfl⟩ := Peer.step_close.mp hp
    refine exists_abort (h.toWellFormed.step hclose) h.not_aborted (c := c) ?_ ?_
    · rw [Unanswered, System.setPeer_peers_self]
      exact hleft
    · rw [System.setPeer_peers_self]

/-- A client asks for ten chunks of an empty file; two requests arrive, the first is
answered, and the client leaves with the empty chunk. -/
def leavingClient : List (Action Unit) :=
  List.replicate 10 (.peer () .request) ++
    [.peer () .deliver, .peer () .deliver, .accept (), .load, .route, .reply, .peer () .receive,
      .peer () .close]

/-- **A client that leaves takes the server down.** -/
theorem server_taken_down :
    ∃ s : System Unit, run (step []) System.start
      (leavingClient ++ [.accept (), .load, .route]) = some s ∧
      s.server = .aborted .sendIdentity :=
  ⟨_, rfl, rfl⟩

end FileTransfer
end ZmqIssues
