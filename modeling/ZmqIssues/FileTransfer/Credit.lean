import ZmqIssues.FileTransfer.Clients

/-!
# Credit

A client starts with a credit of ten, gives one away with each request and gets one back
with each chunk.  So its credit, its unanswered requests and its waiting replies always
make ten, whatever the other clients do, and the server never has more than ten replies
queued for one client: the high-water mark it sets on its socket is never exceeded.

The client's counters are `size_t` and wrap in runs that are long enough; the offset is
what the expression with the other two gives in this arithmetic.

## Main definitions

* `Balanced` — credit, requests and replies of a client make ten.
* `unanswered` — the requests of a client that have not been answered.

## Main results

* `balanced_local` — the balance is kept by every step that concerns the client.
* `credit_conserved` — **credit flow control bounds the server's queue.**
-/

namespace ZmqIssues
namespace FileTransfer

open Machine Numbers

variable {file : List UInt8}

/-! ### The balance of one client -/

/-- Credit, requests and replies of a client make ten, and its counters count what was
received and asked for. -/
structure Balanced (p : Peer) (asked : List Request) (answer : List (List UInt8)) : Prop where
  /-- The requests and the connection. -/
  sound : p.Sound
  /-- The request the server has in hand. -/
  wellFormed : ∀ req ∈ asked, req.WellFormed
  /-- The balance. -/
  credit_eq : p.connected = true →
    p.client.credit + (p.outbox.length + p.inbox.length + asked.length + answer.length) +
      p.replies.length = pipeline
  /-- There is never more credit than at first. -/
  credit_le : p.client.credit ≤ pipeline
  /-- Nothing is on the way when the connection has ended. -/
  replies_eq : p.connected = false → p.replies = []
  /-- The chunks received, counted in a `size_t`. -/
  chunks_eq : p.client.chunks = p.received.length % 2 ^ 64
  /-- The bytes asked for, counted in a `size_t`. -/
  offset_eq : p.client.offset =
    chunkSize * (p.received.length + (pipeline - p.client.credit)) % 2 ^ 64

theorem Balanced.start : Balanced Peer.start [] [] where
  sound := Peer.Sound.start
  wellFormed := by simp
  credit_eq := fun _ => rfl
  credit_le := Nat.le_refl _
  replies_eq := fun _ => rfl
  chunks_eq := rfl
  offset_eq := rfl

/-- **Steps of a client and its connection.** -/
theorem Balanced.step {p q : Peer} {asked : List Request} {answer : List (List UInt8)}
    (h : Balanced p asked answer) {a : PeerAction} (hstep : p.step a = some q) :
    Balanced q asked answer := by
  have hsound := h.sound.step hstep
  have hle := h.credit_le
  have hoffset := h.offset_eq
  cases a with
  | request =>
    obtain ⟨req, client, hreq, rfl⟩ := Peer.step_request.mp hstep
    obtain ⟨-, hcredit, -, rfl⟩ := Client.request_eq_some.mp hreq
    refine ⟨hsound, h.wellFormed, ?_, ?_, h.replies_eq, h.chunks_eq, ?_⟩
    · intro hconn
      -- the credit that is given away is on the way as a request
      have := h.credit_eq hconn
      simp only [List.length_append, List.length_singleton]
      omega
    · exact Nat.le_trans (Nat.sub_le _ _) hle
    · unfold chunkSize pipeline at *
      simp only [addSize_eq_mod]
      omega
  | deliver =>
    obtain ⟨req, outbox, houtbox, rfl⟩ := Peer.step_deliver.mp hstep
    refine ⟨hsound, h.wellFormed, ?_, hle, h.replies_eq, h.chunks_eq, hoffset⟩
    intro hconn
    have := h.credit_eq hconn
    rw [houtbox, List.length_cons] at this
    simp only [List.length_append, List.length_singleton]
    omega
  | receive =>
    obtain ⟨chunk, replies, client, hreplies, hrecv, rfl⟩ := Peer.step_receive.mp hstep
    obtain ⟨-, hcredit, rfl⟩ := Client.receive_eq_some.mp hrecv
    have hchunks := h.chunks_eq
    refine ⟨hsound, h.wellFormed, ?_, ?_, ?_, ?_, ?_⟩
    · intro hconn
      -- the reply that is gone is a credit again
      have := h.credit_eq hconn
      rw [hreplies, List.length_cons] at this
      simp only [addSize_eq_mod]
      omega
    · rw [hcredit]
      show addSize 0 1 ≤ pipeline
      decide
    · intro hne
      exact absurd (hreplies.symm.trans (h.replies_eq hne)) (List.cons_ne_nil _ _)
    · simp only [addSize_eq_mod, List.length_append, List.length_singleton]
      omega
    · unfold chunkSize pipeline at *
      simp only [addSize_eq_mod, List.length_append, List.length_singleton]
      omega
  | interrupt =>
    obtain ⟨client, hint, rfl⟩ := Peer.step_interrupt.mp hstep
    obtain ⟨-, -, rfl⟩ := Client.interrupt_eq_some.mp hint
    exact ⟨hsound, h.wellFormed, h.credit_eq, hle, h.replies_eq, h.chunks_eq, hoffset⟩
  | close =>
    obtain ⟨-, -, rfl⟩ := Peer.step_close.mp hstep
    exact ⟨hsound, h.wellFormed, fun hconn => absurd hconn (by simp), hle, fun _ => rfl,
      h.chunks_eq, hoffset⟩

theorem Balanced.accept {p : Peer} (h : Balanced p [] []) {req : Request} {inbox : List Request}
    (hinbox : p.inbox = req :: inbox) : Balanced { p with inbox := inbox } [req] [] := by
  obtain ⟨hsound, hreq⟩ := h.sound.accept hinbox
  refine ⟨hsound, List.forall_mem_singleton.mpr hreq, ?_, h.credit_le, h.replies_eq, h.chunks_eq,
    h.offset_eq⟩
  intro hconn
  have := h.credit_eq hconn
  rw [hinbox] at this
  simp only [List.length_cons, List.length_nil] at this ⊢
  omega

/-- The request in hand becomes the chunk in hand. -/
theorem Balanced.serve {p : Peer} {req : Request} (h : Balanced p [req] []) (data : List UInt8) :
    Balanced p [] [data] :=
  ⟨h.sound, by simp, h.credit_eq, h.credit_le, h.replies_eq, h.chunks_eq, h.offset_eq⟩

theorem Balanced.send {p : Peer} {data : List UInt8} (h : Balanced p [] [data]) :
    Balanced (p.send data) [] [] := by
  refine ⟨h.sound.send data, h.wellFormed, ?_, h.credit_le, ?_, h.chunks_eq, h.offset_eq⟩
  · intro hconn
    have hconn' : p.connected = true := hconn
    have := h.credit_eq hconn'
    simp only [Peer.send, hconn', if_true, List.length_append, List.length_singleton,
      List.length_nil] at this ⊢
    omega
  · intro hne
    have hne' : p.connected = false := hne
    simp [Peer.send, hne', h.replies_eq hne']

theorem Balanced.refuse {p : Peer} {data : List UInt8} (h : Balanced p [] [data])
    (hne : p.connected = false) : Balanced p [] [] :=
  ⟨h.sound, h.wellFormed, fun hconn => absurd hconn (by simp [hne]), h.credit_le, h.replies_eq,
    h.chunks_eq, h.offset_eq⟩

/-- **The balance is kept by every step that concerns the client.** -/
theorem balanced_local (file : List UInt8) : Local file fun _ => Balanced where
  start := Balanced.start
  peer := fun h hstep => h.step hstep
  accept := fun h hinbox => h.accept hinbox
  serve := fun h _ => h.serve _
  fail := by
    intro n p req pos a h herror
    -- a well-formed request fails no assertion
    exact absurd herror (serve_ne_error file pos (h.wellFormed req (by simp)) a)
  send := fun h => h.send
  refuse := fun h hne => h.refuse hne

/-! ### The whole system -/

variable {ι : Type*} [DecidableEq ι]

/-- The requests of a client that have not been answered: on the way to the server,
waiting there, or in the server's hands. -/
def unanswered (s : System ι) (c : ι) : ℕ :=
  (s.peers c).outbox.length + (s.peers c).inbox.length + (s.server.askedOf c).length +
    (s.server.answerOf c).length

/-- **Credit flow control bounds the server's queue.**  The credit of a client in its
loop, its unanswered requests and its waiting replies make ten; the credit does not
exceed ten and does not wrap; the offset is what chunks and credit say.  So no more than
ten replies are ever queued for a client, and fewer than ten when one more is sent. -/
theorem credit_conserved {as : List (Action ι)} {s : System ι}
    (hrun : run (step file) System.start as = some s) (c : ι) :
    ((s.peers c).client.phase = .looping →
      (s.peers c).client.credit + unanswered s c + (s.peers c).replies.length = pipeline ∧
      (s.peers c).client.credit ≤ pipeline ∧
      (∀ t, step file s (.peer c .request) = some t →
        (t.peers c).client.credit + 1 = (s.peers c).client.credit) ∧
      (s.peers c).client.offset =
        sizeT (chunkSize * ((s.peers c).client.chunks + pipeline - (s.peers c).client.credit)) ∧
      (chunkSize * ((s.peers c).received.length + pipeline) < 2 ^ 64 →
        (s.peers c).client.offset =
          chunkSize * ((s.peers c).client.chunks + pipeline - (s.peers c).client.credit))) ∧
    (s.peers c).replies.length ≤ pipeline ∧
    (∀ data, s.server = .loaded c data ∨ s.server = .routed c data →
      (s.peers c).replies.length < pipeline) := by
  have h := (balanced_local file).of_run hrun c
  have hle := h.credit_le
  have hchunks := h.chunks_eq
  have hoffset := h.offset_eq
  refine ⟨?_, ?_, ?_⟩
  · intro hphase
    have hconn := h.sound.connected_of_looping hphase
    have hcredit := h.credit_eq hconn
    refine ⟨hcredit, hle, ?_, ?_, ?_⟩
    · intro t ht
      obtain ⟨p, hp, rfl⟩ := step_peer.mp ht
      obtain ⟨req, client, hreq, rfl⟩ := Peer.step_request.mp hp
      obtain ⟨-, hne, -, rfl⟩ := Client.request_eq_some.mp hreq
      simp only [System.setPeer_peers_self]
      omega
    · unfold chunkSize pipeline at *
      unfold sizeT
      omega
    · unfold chunkSize pipeline at *
      omega
  · cases hconn : (s.peers c).connected with
    | true =>
      have := h.credit_eq hconn
      omega
    | false =>
      rw [h.replies_eq hconn]
      exact Nat.zero_le _
  · intro data hserver
    cases hconn : (s.peers c).connected with
    | true =>
      -- the chunk in hand is one of the ten
      have hanswer : s.server.answerOf c = [data] := by
        rcases hserver with hserver | hserver <;> rw [hserver] <;> simp
      have := h.credit_eq hconn
      rw [hanswer, List.length_singleton] at this
      omega
    | false =>
      rw [h.replies_eq hconn]
      decide

/-- A client has given all its credit away, and the server has a chunk for it in hand. -/
def tenOnTheWay : List (Action Unit) :=
  List.replicate 10 (.peer () .request) ++ [.peer () .deliver, .accept (), .load]

theorem credit_conserved_tenOnTheWay :
    ∃ s, run (step [7, 8, 9]) System.start tenOnTheWay = some s ∧
      (s.peers ()).client.credit + unanswered s () + (s.peers ()).replies.length = 10 ∧
      (s.peers ()).replies.length < 10 := by
  obtain ⟨s, hrun, hphase, hserver⟩ : ∃ s, run (step [7, 8, 9]) System.start tenOnTheWay = some s ∧
      (s.peers ()).client.phase = .looping ∧ s.server = .loaded () [7, 8, 9] :=
    ⟨_, rfl, rfl, rfl⟩
  obtain ⟨hlooping, -, hqueued⟩ := credit_conserved hrun ()
  exact ⟨s, hrun, (hlooping hphase).1, hqueued [7, 8, 9] (Or.inl hserver)⟩

end FileTransfer
end ZmqIssues
