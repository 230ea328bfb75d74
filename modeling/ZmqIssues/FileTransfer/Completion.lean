import Mathlib.Data.Fintype.Card
import ZmqIssues.Lib.Progress
import ZmqIssues.FileTransfer.Survival
import ZmqIssues.FileTransfer.Transfer

/-!
# Every transfer comes to an end

The server and its clients cannot go on for ever: a client asks for no more than ten
chunks behind the end of the file, and each request travels through the system once.  And
they cannot be stuck before all is done.  So in whatever order the steps of the clients and
of the server are taken, all clients end with the whole file, if nobody is interrupted and
no client closes its socket while one of its requests is unanswered.

## Main definitions

* `System.work` — the steps that may still be taken.
* `Allowed` — an orderly action that interrupts nobody.
* `Completed` — all clients have the whole file and are gone, and the server is idle.
* `Client.exitStatus` — what the client returns.

## Main results

* `System.work_step` — every step is one less to be taken.
* `completed_of_stuck` — where no allowed step is possible, all is done.
* `transfer_completes` — **every run is bounded, and every allowed one leads to the end.**
* `exitStatus_eq_zero_iff` — what the exit status says about a client that has left its loop.
-/

namespace ZmqIssues
namespace FileTransfer

open Machine Numbers

variable {file : List UInt8}

/-! ### The work that is left -/

/-- A client in its loop can leave it. -/
def Phase.work : Phase → ℕ
  | .looping => 1
  | .finished => 0
  | .interrupted => 0

theorem Phase.work_le (phase : Phase) : phase.work ≤ 1 := by
  cases phase <;> decide

/-- The steps that may still be taken by a client, by the server for it, and on the way
between them: seven for each request it may still send. -/
def Peer.work (file : List UInt8) (p : Peer) : ℕ :=
  7 * (file.length / chunkSize + pipeline - p.client.offset / chunkSize) + 6 * p.outbox.length +
    5 * p.inbox.length + p.replies.length + p.client.phase.work + p.connected.toNat

/-- The steps the server may still take with what it has in hand. -/
def ServerPc.work {ι : Type*} : ServerPc ι → ℕ
  | .idle => 1
  | .asked _ _ => 5
  | .loaded _ _ => 4
  | .routed _ _ => 3
  | .stopped => 0
  | .aborted _ => 0

/-- The steps that may still be taken. -/
def System.work {ι : Type*} [Fintype ι] (file : List UInt8) (s : System ι) : ℕ :=
  ∑ c, (s.peers c).work file + s.server.work

theorem Peer.work_start : Peer.start.work file = 7 * (file.length / 1024 + 10) + 2 := rfl

/-- **A step of a client is one less to be taken.** -/
theorem Peer.work_step (hfile : file.length + 11 * chunkSize < 2 ^ 31) {p q : Peer}
    {asked : List Request} {answer : List (List UInt8)} (hs : p.Sound)
    (h : Exact file p asked answer) {a : PeerAction} (hstep : p.step a = some q) :
    q.work file < p.work file := by
  cases a with
  | request =>
    obtain ⟨req, client, hreq, rfl⟩ := Peer.step_request.mp hstep
    obtain ⟨hphase, hcredit, -, rfl⟩ := Client.request_eq_some.mp hreq
    obtain ⟨a, j, -, -, hoffset, hten⟩ := h.queued (hs.connected_of_looping hphase)
    have hfull := h.tracked.full (by rw [hphase]; decide)
    -- the offset is at most nine chunks ahead of what was received
    have hnext : addSize p.client.offset chunkSize = p.client.offset + chunkSize := by
      apply addSize_eq
      rw [hoffset]
      unfold chunkSize pipeline at *
      omega
    have hbefore : p.client.offset / chunkSize < file.length / chunkSize + pipeline := by
      rw [hoffset]
      unfold chunkSize pipeline at *
      omega
    have hafter : (p.client.offset + chunkSize) / chunkSize = p.client.offset / chunkSize + 1 :=
      Nat.add_div_right _ (by decide)
    simp only [Peer.work, hnext, hafter, List.length_append, List.length_singleton]
    omega
  | deliver =>
    obtain ⟨req, outbox, houtbox, rfl⟩ := Peer.step_deliver.mp hstep
    simp only [Peer.work, houtbox, List.length_append, List.length_cons, List.length_nil]
    omega
  | receive =>
    obtain ⟨chunk, replies, client, hreplies, hrecv, rfl⟩ := Peer.step_receive.mp hstep
    obtain ⟨hphase, -, rfl⟩ := Client.receive_eq_some.mp hrecv
    have hle := Phase.work_le (if chunk.length < chunkSize then .finished else .looping)
    simp only [Peer.work, hreplies, hphase, List.length_cons]
    have hloop : Phase.looping.work = 1 := rfl
    omega
  | interrupt =>
    obtain ⟨client, hint, rfl⟩ := Peer.step_interrupt.mp hstep
    obtain ⟨hphase, -, rfl⟩ := Client.interrupt_eq_some.mp hint
    simp only [Peer.work, hphase, Phase.work]
    omega
  | close =>
    obtain ⟨-, hconn, rfl⟩ := Peer.step_close.mp hstep
    simp only [Peer.work, hconn, List.length_nil, Bool.toNat_true, Bool.toNat_false]
    omega

theorem Peer.work_send_le (file : List UInt8) (p : Peer) (chunk : List UInt8) :
    (p.send chunk).work file ≤ p.work file + 1 := by
  have hle : (p.send chunk).replies.length ≤ p.replies.length + 1 := by
    unfold Peer.send
    split <;> simp
  unfold Peer.work
  simp only [Peer.send] at hle ⊢
  omega

section

variable {ι : Type*} [DecidableEq ι] [Fintype ι] {s t : System ι}

theorem System.sum_work_setPeer (file : List UInt8) (s : System ι) (c : ι) (p : Peer) :
    ∑ d, ((s.setPeer c p).peers d).work file + (s.peers c).work file =
      ∑ d, (s.peers d).work file + p.work file :=
  sum_update_add s.peers (Peer.work file) c p

/-- What is known about a system in every run. -/
structure Known (file : List UInt8) (s : System ι) : Prop extends WellFormed s where
  /-- What is on the way for the clients. -/
  inv : Inv file s

/-- **Every step is one less to be taken.** -/
theorem System.work_step (hfile : file.length + 11 * chunkSize < 2 ^ 31) (h : Known file s)
    {a : Action ι} (hstep : step file s a = some t) : t.work file < s.work file := by
  cases a with
  | peer c a =>
    obtain ⟨p, hp, rfl⟩ := step_peer.mp hstep
    have hlt := Peer.work_step hfile (h.sound c) (h.inv c) hp
    have hsum := s.sum_work_setPeer file c p
    have hserver : (s.setPeer c p).server = s.server := rfl
    rw [System.work, System.work, hserver]
    omega
  | accept c =>
    obtain ⟨req, inbox, hidle, hinbox, rfl⟩ := step_accept.mp hstep
    have hsum := s.sum_work_setPeer file c { s.peers c with inbox := inbox }
    have hwork : ({ s.peers c with inbox := inbox } : Peer).work file + 5 =
        (s.peers c).work file := by
      simp only [Peer.work, hinbox, List.length_cons]
      omega
    simp only [System.work, hidle, ServerPc.work]
    dsimp only at hsum hwork
    omega
  | load =>
    obtain ⟨c, req, hasked, hserved⟩ := step_load.mp hstep
    rcases hserved with ⟨data, pos, -, rfl⟩ | ⟨_, -, rfl⟩
    · simp [System.work, hasked, ServerPc.work]
    · simp [System.work, hasked, ServerPc.work]
  | route =>
    obtain ⟨c, data, hloaded, hrouted⟩ := step_route.mp hstep
    rcases hrouted with ⟨-, rfl⟩ | ⟨-, rfl⟩
    · simp [System.work, hloaded, ServerPc.work]
    · simp [System.work, hloaded, ServerPc.work]
  | reply =>
    obtain ⟨c, data, hrouted, rfl⟩ := step_reply.mp hstep
    have hsum := s.sum_work_setPeer file c ((s.peers c).send data)
    have hwork := (s.peers c).work_send_le file data
    simp only [System.work, hrouted, ServerPc.work]
    omega
  | shutdown =>
    obtain ⟨hidle, rfl⟩ := step_shutdown.mp hstep
    simp [System.work, hidle, ServerPc.work]

end

/-! ### Runs without interruptions -/

section

variable {ι : Type*} [DecidableEq ι] {s t : System ι}

theorem Known.start : Known file (System.start : System ι) :=
  ⟨Alive.start.toWellFormed, fun _ => Exact.start⟩

theorem Known.step (hfile : file.length + 11 * chunkSize < 2 ^ 31) (h : Known file s)
    {a : Action ι} (hstep : step file s a = some t) : Known file t :=
  ⟨h.toWellFormed.step hstep, (exact_local hfile).step [] h.inv hstep⟩

/-- An action that interrupts neither a client nor the server. -/
def Uninterrupted : Action ι → Prop
  | .peer _ .interrupt => False
  | .shutdown => False
  | _ => True

/-- An orderly action that interrupts nobody. -/
def Allowed (s : System ι) (a : Action ι) : Prop := Orderly s a ∧ Uninterrupted a

/-- What is known about a system that nobody has interrupted. -/
structure Underway (file : List UInt8) (s : System ι) : Prop extends Alive s where
  /-- What is on the way for the clients. -/
  inv : Inv file s
  /-- The server is in its loop. -/
  not_stopped : s.server ≠ .stopped
  /-- No client has been interrupted. -/
  not_interrupted : ∀ c, (s.peers c).client.phase ≠ .interrupted

theorem Underway.start : Underway file (System.start : System ι) where
  toAlive := Alive.start
  inv := fun _ => Exact.start
  not_stopped := by simp [System.start]
  not_interrupted := by simp [System.start, Peer.start, Client.start]

theorem Peer.phase_step {p q : Peer} {a : PeerAction} (hstep : p.step a = some q)
    (ha : a ≠ .interrupt) (h : p.client.phase ≠ .interrupted) : q.client.phase ≠ .interrupted := by
  cases a with
  | request =>
    obtain ⟨req, client, hreq, rfl⟩ := Peer.step_request.mp hstep
    obtain ⟨-, -, -, rfl⟩ := Client.request_eq_some.mp hreq
    exact h
  | deliver =>
    obtain ⟨_, _, -, rfl⟩ := Peer.step_deliver.mp hstep
    exact h
  | receive =>
    obtain ⟨_, _, client, -, hrecv, rfl⟩ := Peer.step_receive.mp hstep
    obtain ⟨-, -, rfl⟩ := Client.receive_eq_some.mp hrecv
    dsimp only
    split <;> decide
  | interrupt => exact absurd rfl ha
  | close =>
    obtain ⟨-, -, rfl⟩ := Peer.step_close.mp hstep
    exact h

/-- The server does not touch the clients. -/
theorem client_setPeer (s : System ι) {c : ι} {p : Peer} (h : p.client = (s.peers c).client)
    (d : ι) : ((s.setPeer c p).peers d).client = (s.peers d).client := by
  by_cases hdc : d = c
  · subst hdc
    rwa [System.setPeer_peers_self]
  · rw [System.setPeer_peers_of_ne s hdc]

/-- **Allowed steps keep the system under way.** -/
theorem Underway.step (hfile : file.length + 11 * chunkSize < 2 ^ 31) (h : Underway file s)
    {a : Action ι} (ha : Allowed s a) (hstep : step file s a = some t) : Underway file t := by
  have halive : Alive t := h.toAlive.step ha.1 hstep
  have hinv : Inv file t := (exact_local hfile).step [] h.inv hstep
  cases a with
  | peer c a =>
    obtain ⟨p, hp, rfl⟩ := step_peer.mp hstep
    have hint : a ≠ .interrupt := by
      rintro rfl
      exact ha.2
    refine ⟨halive, hinv, h.not_stopped, ?_⟩
    intro d
    by_cases hdc : d = c
    · subst hdc
      rw [System.setPeer_peers_self]
      exact Peer.phase_step hp hint (h.not_interrupted d)
    · rw [System.setPeer_peers_of_ne s hdc]
      exact h.not_interrupted d
  | accept c =>
    obtain ⟨req, inbox, -, -, rfl⟩ := step_accept.mp hstep
    refine ⟨halive, hinv, by simp, ?_⟩
    intro d
    have hclient := client_setPeer s (c := c) (p := { s.peers c with inbox := inbox }) rfl d
    exact hclient ▸ h.not_interrupted d
  | load =>
    obtain ⟨c, req, -, hserved⟩ := step_load.mp hstep
    rcases hserved with ⟨data, pos, -, rfl⟩ | ⟨_, -, rfl⟩
    · exact ⟨halive, hinv, by simp, h.not_interrupted⟩
    · exact ⟨halive, hinv, by simp, h.not_interrupted⟩
  | route =>
    obtain ⟨c, data, -, hrouted⟩ := step_route.mp hstep
    rcases hrouted with ⟨-, rfl⟩ | ⟨-, rfl⟩
    · exact ⟨halive, hinv, by simp, h.not_interrupted⟩
    · exact ⟨halive, hinv, by simp, h.not_interrupted⟩
  | reply =>
    obtain ⟨c, data, -, rfl⟩ := step_reply.mp hstep
    refine ⟨halive, hinv, by simp, ?_⟩
    intro d
    have hclient := client_setPeer s (c := c) (p := (s.peers c).send data) rfl d
    exact hclient ▸ h.not_interrupted d
  | shutdown => exact absurd ha.2 id

/-! ### The end -/

/-- What a client returns. -/
def Client.exitStatus (c : Client) : ℤ := if c.total = 102400 then 0 else -1

/-- All clients have the whole file and are gone, and the server waits for requests. -/
structure Completed (file : List UInt8) (s : System ι) : Prop where
  idle : s.server = .idle
  finished : ∀ c, (s.peers c).client.phase = .finished ∧ (s.peers c).connected = false
  received : ∀ c, (s.peers c).received.flatten = file
  total : ∀ c, (s.peers c).client.total = file.length

omit [DecidableEq ι] in
/-- An action that closes no socket is orderly. -/
theorem orderly_of_ne_close (s : System ι) {a : Action ι} (h : ∀ c, a ≠ .peer c .close) :
    Orderly s a := by
  unfold Orderly
  split
  · next c => exact absurd rfl (h c)
  · trivial

/-- Where no allowed step is possible, no step but an interruption or the closing of a socket
is. -/
theorem step_ne_some (hstuck : Stuck (step file) Allowed s) {a : Action ι} (ha : Uninterrupted a)
    (hclose : ∀ c, a ≠ .peer c .close) : step file s a ≠ some t := by
  rw [hstuck a ⟨orderly_of_ne_close s hclose, ha⟩]
  exact (Option.some_ne_none t).symm

/-- A server that is stuck waits for requests. -/
theorem idle_of_stuck (h : Underway file s) (hstuck : Stuck (step file) Allowed s) :
    s.server = .idle := by
  cases hserver : s.server with
  | idle => rfl
  | asked c req =>
    obtain ⟨data, pos, hserve⟩ := exists_serve_eq_ok file s.pos (h.asked c req hserver)
    have hload := step_load.mpr ⟨c, req, hserver, Or.inl ⟨data, pos, hserve, rfl⟩⟩
    exact absurd hload (step_ne_some hstuck trivial (by simp))
  | loaded c data =>
    -- the client is still there, because it is waited for
    have hconn := h.connected c ⟨h.not_stopped, Or.inr (Or.inr ⟨data, hserver⟩)⟩
    have hroute : step file s .route = some _ :=
      step_route.mpr ⟨c, data, hserver, Or.inl ⟨hconn, rfl⟩⟩
    exact absurd hroute (step_ne_some hstuck trivial (by simp))
  | routed c data =>
    have hreply : step file s .reply = some _ :=
      step_reply.mpr ⟨c, data, hserver, rfl⟩
    exact absurd hreply (step_ne_some hstuck trivial (by simp))
  | stopped => exact absurd hserver h.not_stopped
  | aborted a => exact absurd hserver (h.not_aborted a)

/-- Nothing is on the way, and a client in its loop would ask for a chunk. -/
theorem finished_of_stuck (h : Underway file s) (hstuck : Stuck (step file) Allowed s) (c : ι) :
    (s.peers c).client.phase = .finished ∧ (s.peers c).inbox = [] := by
  have hidle := idle_of_stuck h hstuck
  have hno : ∀ {a p}, a ≠ .interrupt → a ≠ .close → (s.peers c).step a ≠ some p := by
    intro a p hint hclose hp
    refine step_ne_some hstuck (a := .peer c a) ?_ ?_ (step_peer.mpr ⟨p, hp, rfl⟩)
    · cases a with
      | interrupt => exact absurd rfl hint
      | _ => trivial
    · intro d hd
      exact hclose (Action.peer.inj hd).2
  have hinbox : (s.peers c).inbox = [] := by
    by_contra hne
    obtain ⟨req, inbox, hcons⟩ := List.exists_cons_of_ne_nil hne
    have haccept : step file s (.accept c) = some _ :=
      step_accept.mpr ⟨req, inbox, hidle, hcons, rfl⟩
    exact absurd haccept (step_ne_some hstuck trivial (by simp))
  have houtbox : (s.peers c).outbox = [] := by
    by_contra hne
    obtain ⟨req, outbox, hcons⟩ := List.exists_cons_of_ne_nil hne
    exact hno (by decide) (by decide) (Peer.step_deliver.mpr ⟨req, outbox, hcons, rfl⟩)
  refine ⟨?_, hinbox⟩
  cases hphase : (s.peers c).client.phase with
  | finished => rfl
  | interrupted => exact absurd hphase (h.not_interrupted c)
  | looping =>
    have hcredit : (s.peers c).client.credit = 0 := by
      by_contra hne
      have hreq := Client.request_eq_some.mpr ⟨hphase, hne, rfl, rfl⟩
      exact hno (by decide) (by decide) (Peer.step_request.mpr ⟨_, _, hreq, rfl⟩)
    have hreplies : (s.peers c).replies = [] := by
      by_contra hne
      obtain ⟨chunk, replies, hcons⟩ := List.exists_cons_of_ne_nil hne
      have hrecv : (s.peers c).client.receive chunk = some _ :=
        Client.receive_eq_some.mpr ⟨hphase, hcredit, rfl⟩
      exact hno (by decide) (by decide) (Peer.step_receive.mpr ⟨_, _, _, hcons, hrecv, rfl⟩)
    -- all ten credits would be with the client
    obtain ⟨a, j, hqueue, hrequests, -, hten⟩ :=
      (h.inv c).queued ((h.sound c).connected_of_looping hphase)
    rw [hreplies, hidle] at hqueue
    rw [hinbox, houtbox, hidle] at hrequests
    have ha : a = 0 := by simpa using (congrArg List.length hqueue).symm
    have hj : j = 0 := by simpa using (congrArg List.length hrequests).symm
    rw [hcredit, ha, hj] at hten
    exact absurd hten (by decide)

/-- **Where no allowed step is possible, all is done.** -/
theorem completed_of_stuck (h : Underway file s) (hstuck : Stuck (step file) Allowed s) :
    Completed file s := by
  have hidle := idle_of_stuck h hstuck
  have hwhole : ∀ c, (s.peers c).received.flatten = file := by
    intro c
    have htracked := (h.inv c).tracked
    obtain ⟨-, hlt⟩ := htracked.short (finished_of_stuck h hstuck c).1
    rw [htracked.flatten_received]
    exact List.take_of_length_le (Nat.le_of_lt hlt)
  refine ⟨hidle, ?_, hwhole, ?_⟩
  · intro c
    obtain ⟨hphase, hinbox⟩ := finished_of_stuck h hstuck c
    refine ⟨hphase, ?_⟩
    by_contra hconn
    -- nobody waits for the client, so that it may go
    have hord : Orderly s (.peer c .close) := by
      rintro ⟨-, hne | ⟨_, hserver⟩ | ⟨_, hserver⟩⟩
      · exact hne hinbox
      · simp [hidle] at hserver
      · simp [hidle] at hserver
    have hleft : (s.peers c).client.phase ≠ .looping := by simp [hphase]
    have hclose := Peer.step_close.mpr ⟨hleft, by simpa using hconn, rfl⟩
    have hstep : step file s (.peer c .close) = some _ :=
      step_peer.mpr ⟨_, hclose, rfl⟩
    rw [hstuck _ ⟨hord, trivial⟩] at hstep
    exact absurd hstep (by simp)
  · intro c
    rw [(h.inv c).tracked.total_eq, hwhole]

end

/-- **Every transfer comes to an end.**  A run is no longer than seven steps for each of the
requests a client may send and two for the client itself, and one for the server.  A run of
allowed actions that cannot be continued by one has brought the whole file to every client,
and every run of allowed actions can be continued until it has. -/
theorem transfer_completes {ι : Type*} [DecidableEq ι] [Fintype ι]
    (hfile : file.length + 11 * 1024 < 2 ^ 31) :
    (∀ (as : List (Action ι)) (s : System ι), run (step file) System.start as = some s →
      as.length ≤ Fintype.card ι * (7 * (file.length / 1024 + 10) + 2) + 1) ∧
    (∀ (as : List (Action ι)) (s : System ι), run (step file) System.start as = some s →
      Along (step file) Allowed System.start as → Stuck (step file) Allowed s →
        Completed file s) ∧
    (∀ (as : List (Action ι)) (s : System ι), run (step file) System.start as = some s →
      Along (step file) Allowed System.start as →
        ∃ bs t, run (step file) s bs = some t ∧ Along (step file) Allowed s bs ∧
          Completed file t) := by
  have hall : Decreasing (step file) (Known file) (fun _ _ => True) (System.work (ι := ι) file) :=
    ⟨fun h _ hstep => h.step hfile hstep, fun h _ hstep => System.work_step hfile h hstep⟩
  have hallowed : Decreasing (step file) (Underway file) Allowed (System.work (ι := ι) file) := by
    refine ⟨fun h ha hstep => h.step hfile ha hstep, ?_⟩
    intro s a t h _ hstep
    exact System.work_step hfile ⟨h.toWellFormed, h.inv⟩ hstep
  refine ⟨?_, ?_, ?_⟩
  · intro as s hrun
    have hbound := hall.length_add_le Known.start (along_of_forall (fun _ _ => trivial) _) hrun
    have hstart : (System.start : System ι).work file =
        Fintype.card ι * (7 * (file.length / 1024 + 10) + 2) + 1 := by
      simp [System.work, System.start, Peer.work_start, ServerPc.work]
    omega
  · intro as s hrun hal hstuck
    exact completed_of_stuck (hallowed.invariant Underway.start hal hrun) hstuck
  · intro as s hrun hal
    have hs := hallowed.invariant Underway.start hal hrun
    obtain ⟨bs, t, hbs, hbal, ht, hstuck⟩ := hallowed.exists_stuck hs
    exact ⟨bs, t, hbs, hbal, completed_of_stuck ht hstuck⟩

/-- Two clients that start get the three bytes of a file, whatever has happened so far. -/
theorem transfer_completes_twoClients :
    ∃ s, run (step [7, 8, 9]) (System.start : System Bool) (twoClients.take 26) = some s ∧
      ∃ bs t, run (step [7, 8, 9]) s bs = some t ∧ Completed [7, 8, 9] t := by
  have hactions : ∀ a ∈ twoClients.take 26, (∀ c, a ≠ .peer c .close) ∧ Uninterrupted a := by
    simp [twoClients, Uninterrupted]
  have hal : Along (step [7, 8, 9]) Allowed (System.start : System Bool) (twoClients.take 26) :=
    (along_of_forall hactions _).mono fun s _ ha => ⟨orderly_of_ne_close s ha.1, ha.2⟩
  obtain ⟨s, hrun⟩ : ∃ s : System Bool,
      run (step [7, 8, 9]) System.start (twoClients.take 26) = some s := ⟨_, rfl⟩
  obtain ⟨bs, t, hbs, -, ht⟩ := (transfer_completes (by decide)).2.2 _ s hrun hal
  exact ⟨s, hrun, bs, t, hbs, ht⟩

/-! ### The exit status -/

section

variable {ι : Type*} [DecidableEq ι] {s : System ι}

/-- **What the exit status says about a client that has left its loop.**  It is 0 if the file
has 102400 bytes and the client has it, but also if the client was interrupted when it had
received a hundred chunks of a file that may be longer. -/
theorem exitStatus_eq_zero_iff (hfile : file.length + 11 * 1024 < 2 ^ 31) {as : List (Action ι)}
    (hrun : run (step file) System.start as = some s) {c : ι}
    (hleft : (s.peers c).client.phase ≠ .looping) :
    (s.peers c).client.exitStatus = 0 ↔
      ((s.peers c).client.phase = .finished ∧ file.length = 102400) ∨
        ((s.peers c).client.phase = .interrupted ∧ (s.peers c).received.length = 100) := by
  have h := (inv_of_run hfile hrun c).tracked
  have hstatus : (s.peers c).client.exitStatus = 0 ↔ (s.peers c).client.total = 102400 := by
    unfold Client.exitStatus
    split <;> simp [*]
  have htotal : (s.peers c).client.total =
      min (chunkSize * (s.peers c).received.length) file.length := by
    rw [h.total_eq, h.flatten_received, List.length_take]
  rw [hstatus, htotal]
  cases hphase : (s.peers c).client.phase with
  | looping => exact absurd hphase hleft
  | finished =>
    -- the last chunk is short
    obtain ⟨-, hlt⟩ := h.short hphase
    simp [Nat.min_eq_right (Nat.le_of_lt hlt)]
  | interrupted =>
    have hfull := h.full (by simp [hphase])
    simp only [Nat.min_eq_left hfull, reduceCtorEq, false_and, true_and, false_or]
    unfold chunkSize
    omega

/-- The client that has the three bytes of its file returns -1. -/
theorem exitStatus_twoClients :
    ∃ s : System Bool, run (step [7, 8, 9]) System.start twoClients = some s ∧
      (s.peers true).received.flatten = [7, 8, 9] ∧ (s.peers true).client.exitStatus ≠ 0 := by
  obtain ⟨s, hrun, hphase, hreceived⟩ : ∃ s : System Bool,
      run (step [7, 8, 9]) System.start twoClients = some s ∧
        (s.peers true).client.phase = .finished ∧
          (s.peers true).received.flatten = [7, 8, 9] := ⟨_, rfl, rfl, rfl⟩
  have h := exitStatus_eq_zero_iff (by decide) hrun (c := true) (by simp [hphase])
  refine ⟨s, hrun, hreceived, ?_⟩
  rw [ne_eq, h]
  simp [hphase]

end

end FileTransfer
end ZmqIssues
