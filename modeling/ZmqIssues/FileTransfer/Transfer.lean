import ZmqIssues.FileTransfer.Clients

/-!
# What a file client receives

The requests of a client are answered in order, and each of them seeks, so the chunks a
client receives are the chunks of the file, whatever the server does for the others in
between.  The offsets stay below the limit of an `int` because at most ten requests are
ahead of the chunks received, and these all lie in the file.

## Main definitions

* `Tracked` — what the variables of a client say about the chunks it has received.
* `Queued` — what is on the way for a client: the next chunks, then the next requests.

## Main results

* `Exact.serve` — a request that is served gives the next chunk.
* `transfer_exact` — **every chunk received is the right one, and a client that has
  finished has the whole file.**
-/

namespace ZmqIssues
namespace FileTransfer

open Machine Numbers

variable {file : List UInt8}

/-! ### What a client has received -/

/-- The chunks a client has received are the first ones of the file, all of them full
but the one that ended its loop. -/
structure Tracked (file : List UInt8) (p : Peer) : Prop where
  /-- The chunks come in order. -/
  received_eq : p.received = (List.range p.received.length).map (slice file)
  /-- The client counts them. -/
  chunks_eq : p.client.chunks = p.received.length
  /-- The client counts their bytes. -/
  total_eq : p.client.total = p.received.flatten.length
  /-- As long as no chunk was short, all of them were full. -/
  full : p.client.phase ≠ .finished → chunkSize * p.received.length ≤ file.length
  /-- The short chunk is the one the file ends in. -/
  short : p.client.phase = .finished →
    chunkSize * p.received.length ≤ file.length + chunkSize ∧
      file.length < chunkSize * p.received.length

/-- What is on the way for a client, the request `asked` and the chunk `answer` at the
server included.  The replies are the next chunks, the requests those behind them, and
the client's offset is behind these; its credit is what is missing to ten. -/
def Queued (file : List UInt8) (p : Peer) (asked : List Request)
    (answer : List (List UInt8)) : Prop :=
  ∃ a j, p.replies ++ answer = (List.range' p.received.length a).map (slice file) ∧
    asked ++ p.inbox ++ p.outbox = (List.range' (p.received.length + a) j).map requestAt ∧
    p.client.offset = chunkSize * (p.received.length + a + j) ∧ p.client.credit + a + j = pipeline

/-- Everything that is known about a client and its connection. -/
structure Exact (file : List UInt8) (p : Peer) (asked : List Request)
    (answer : List (List UInt8)) : Prop where
  /-- What it has received. -/
  tracked : Tracked file p
  /-- What is on the way for it. -/
  queued : p.connected = true → Queued file p asked answer
  /-- Nothing is on the way for it when the connection has ended. -/
  lost : p.connected = false → p.replies = []

theorem Exact.start : Exact file Peer.start [] [] where
  tracked :=
    { received_eq := rfl
      chunks_eq := rfl
      total_eq := rfl
      full := by simp [Peer.start]
      short := by simp [Peer.start, Client.start] }
  queued := fun _ => ⟨0, 0, rfl, rfl, rfl, rfl⟩
  lost := by simp [Peer.start]

/-- What a client has received is seen in four of its variables only. -/
theorem Tracked.congr {p q : Peer} (h : Tracked file p) (hreceived : q.received = p.received)
    (hchunks : q.client.chunks = p.client.chunks) (htotal : q.client.total = p.client.total)
    (hphase : q.client.phase = p.client.phase) : Tracked file q where
  received_eq := by
    rw [hreceived]
    exact h.received_eq
  chunks_eq := by
    rw [hchunks, hreceived]
    exact h.chunks_eq
  total_eq := by
    rw [htotal, hreceived]
    exact h.total_eq
  full := by
    rw [hphase, hreceived]
    exact h.full
  short := by
    rw [hphase, hreceived]
    exact h.short

/-- The chunks received so far are not past the end of the file by more than one. -/
theorem Tracked.length_le {p : Peer} (h : Tracked file p) :
    chunkSize * p.received.length ≤ file.length + chunkSize := by
  by_cases hphase : p.client.phase = .finished
  · exact (h.short hphase).1
  · have := h.full hphase
    omega

theorem Tracked.flatten_received {p : Peer} (h : Tracked file p) :
    p.received.flatten = file.take (chunkSize * p.received.length) := by
  rw [← flatten_slices, ← h.received_eq]

/-- A chunk that is received is the next one. -/
theorem Tracked.receive (hfile : file.length + 11 * chunkSize < 2 ^ 31) {p : Peer}
    (h : Tracked file p) {client : Client} {replies : List (List UInt8)}
    (hrecv : p.client.receive (slice file p.received.length) = some client) :
    Tracked file { p with
      client := client, replies := replies,
      received := p.received ++ [slice file p.received.length] } := by
  obtain ⟨hphase, -, rfl⟩ := Client.receive_eq_some.mp hrecv
  have hfull := h.full (by rw [hphase]; decide)
  have hlength := length_slice file p.received.length
  have htotal : p.received.flatten.length ≤ file.length := by
    rw [h.flatten_received, List.length_take]
    omega
  unfold chunkSize at hfile hfull hlength
  -- neither counter overflows, because the chunks received lie in the file
  refine ⟨?_, ?_, ?_, ?_, ?_⟩
  · rw [List.length_append, List.length_singleton, List.range_succ, List.map_append,
      ← h.received_eq, List.map_singleton]
  · rw [List.length_append, List.length_singleton, ← h.chunks_eq]
    apply addSize_eq
    rw [h.chunks_eq]
    omega
  · rw [List.flatten_append, List.flatten_singleton, List.length_append, ← h.total_eq]
    apply addSize_eq
    rw [h.total_eq]
    omega
  · intro hne
    by_cases hshort : (slice file p.received.length).length < 1024
    · exact absurd (if_pos hshort) hne
    · simp only [chunkSize, List.length_append, List.length_singleton]
      omega
  · intro heq
    by_cases hshort : (slice file p.received.length).length < 1024
    · simp only [chunkSize, List.length_append, List.length_singleton]
      omega
    · exact absurd ((if_neg hshort).symm.trans heq) Phase.noConfusion

/-- **Steps of a client and its connection.** -/
theorem Exact.step (hfile : file.length + 11 * chunkSize < 2 ^ 31) {p q : Peer}
    {asked : List Request} {answer : List (List UInt8)} (h : Exact file p asked answer)
    {a : PeerAction} (hstep : p.step a = some q) : Exact file q asked answer := by
  have hlength := h.tracked.length_le
  cases a with
  | request =>
    obtain ⟨req, client, hreq, rfl⟩ := Peer.step_request.mp hstep
    obtain ⟨hphase, hcredit, rfl, rfl⟩ := Client.request_eq_some.mp hreq
    refine ⟨h.tracked.congr rfl rfl rfl rfl, ?_, h.lost⟩
    intro hconn
    obtain ⟨a, j, hreplies, hrequests, hoffset, hten⟩ := h.queued hconn
    have hbound : chunkSize * (p.received.length + a + j) + chunkSize < 2 ^ 31 := by
      unfold chunkSize pipeline at *
      omega
    refine ⟨a, j + 1, hreplies, ?_, ?_, ?_⟩
    · -- the offset is that of the next chunk, and still an `int`
      have hnext : int64 p.client.offset = (chunkSize * (p.received.length + a + j) : ℕ) := by
        rw [hoffset, int64_natCast (by omega)]
      rw [← List.append_assoc, hrequests, List.range'_concat, List.map_append, hnext, Nat.one_mul]
      rfl
    · show addSize p.client.offset chunkSize = chunkSize * (p.received.length + a + (j + 1))
      rw [hoffset, addSize_eq (by omega)]
      rfl
    · show p.client.credit - 1 + a + (j + 1) = pipeline
      omega
  | deliver =>
    obtain ⟨req, outbox, houtbox, rfl⟩ := Peer.step_deliver.mp hstep
    refine ⟨h.tracked.congr rfl rfl rfl rfl, ?_, h.lost⟩
    intro hconn
    obtain ⟨a, j, hreplies, hrequests, hrest⟩ := h.queued hconn
    refine ⟨a, j, hreplies, ?_, hrest⟩
    rw [← hrequests, houtbox]
    simp
  | receive =>
    obtain ⟨chunk, replies, client, hreplies, hrecv, rfl⟩ := Peer.step_receive.mp hstep
    have hconn : p.connected = true := by
      by_contra hne
      have hlost := h.lost (by simpa using hne)
      exact absurd (hreplies.symm.trans hlost) (List.cons_ne_nil _ _)
    obtain ⟨a, j, hqueue, hrequests, hoffset, hten⟩ := h.queued hconn
    rw [hreplies] at hqueue
    -- the reply is the next chunk, and the requests behind it stay where they are
    cases a with
    | zero => simp at hqueue
    | succ a =>
      rw [List.range'_succ, List.map_cons, List.cons_append, List.cons.injEq] at hqueue
      obtain ⟨rfl, hqueue⟩ := hqueue
      refine ⟨h.tracked.receive hfile hrecv, ?_, fun hne => absurd hconn (by simp_all)⟩
      intro _
      -- the client gets a credit for the chunk
      obtain ⟨-, hcredit, rfl⟩ := Client.receive_eq_some.mp hrecv
      have hnext : p.received.length + 1 + a = p.received.length + (a + 1) := by omega
      refine ⟨a, j, ?_, ?_, ?_, ?_⟩
      · rwa [List.length_append, List.length_singleton]
      · rwa [List.length_append, List.length_singleton, hnext]
      · rwa [List.length_append, List.length_singleton, hnext]
      · have hone : addSize p.client.credit 1 = 1 := by rw [hcredit, addSize_eq (by omega)]
        simp only [hone]
        omega
  | interrupt =>
    obtain ⟨client, hint, rfl⟩ := Peer.step_interrupt.mp hstep
    obtain ⟨hphase, -, rfl⟩ := Client.interrupt_eq_some.mp hint
    have hfull := h.tracked.full (by rw [hphase]; decide)
    exact ⟨⟨h.tracked.received_eq, h.tracked.chunks_eq, h.tracked.total_eq, fun _ => hfull,
      fun heq => absurd heq (by simp)⟩, h.queued, h.lost⟩
  | close =>
    obtain ⟨-, -, rfl⟩ := Peer.step_close.mp hstep
    exact ⟨h.tracked.congr rfl rfl rfl rfl, fun hconn => absurd hconn (by simp), fun _ => rfl⟩

/-! ### What the server does for a client -/

theorem Exact.accept {p : Peer} {answer : List (List UInt8)} (h : Exact file p [] answer)
    {req : Request} {inbox : List Request} (hinbox : p.inbox = req :: inbox) :
    Exact file { p with inbox := inbox } [req] answer := by
  refine ⟨h.tracked.congr rfl rfl rfl rfl, ?_, h.lost⟩
  intro hconn
  obtain ⟨a, j, hreplies, hrequests, hrest⟩ := h.queued hconn
  refine ⟨a, j, hreplies, ?_, hrest⟩
  rw [← hrequests, hinbox]
  rfl

/-- **A request that is served gives the next chunk.** -/
theorem Exact.serve (hfile : file.length + 11 * chunkSize < 2 ^ 31) {p : Peer} {req : Request}
    (h : Exact file p [req] []) (hconn : p.connected = true) (pos : ℕ) :
    ∃ data pos', serve file pos req = .ok (data, pos') ∧ Exact file p [] [data] := by
  have hlength := h.tracked.length_le
  obtain ⟨a, j, hreplies, hrequests, hoffset, hten⟩ := h.queued hconn
  cases j with
  | zero => simp at hrequests
  | succ j =>
    rw [List.range'_succ, List.map_cons, List.append_assoc, List.singleton_append,
      List.cons.injEq] at hrequests
    obtain ⟨rfl, hrequests⟩ := hrequests
    have hbound : chunkSize * (p.received.length + a) < 2 ^ 31 := by
      unfold chunkSize pipeline at *
      omega
    obtain ⟨pos', hserve⟩ := serve_requestAt file pos hbound
    refine ⟨slice file (p.received.length + a), pos', hserve, h.tracked, ?_, h.lost⟩
    intro _
    rw [List.append_nil] at hreplies
    refine ⟨a + 1, j, ?_, ?_, ?_, ?_⟩
    · rw [List.range'_concat, List.map_append, ← hreplies, Nat.one_mul, List.map_singleton]
    · rwa [List.nil_append, ← Nat.add_assoc]
    · rw [hoffset]
      congr 1
      omega
    · omega

theorem Exact.send {p : Peer} {data : List UInt8} (h : Exact file p [] [data]) :
    Exact file (p.send data) [] [] := by
  refine ⟨h.tracked.congr rfl rfl rfl rfl, ?_, ?_⟩
  · intro hconn
    obtain ⟨a, j, hreplies, hrest⟩ := h.queued hconn
    refine ⟨a, j, ?_, hrest⟩
    rw [List.append_nil]
    exact (if_pos hconn).trans hreplies
  · intro hne
    have hne' : ¬ p.connected = true := by
      rw [show p.connected = false from hne]
      decide
    exact (if_neg hne').trans (h.lost hne)

/-- When the connection has ended, the server may do what it likes. -/
theorem Exact.of_not_connected {p : Peer} {asked asked' : List Request}
    {answer answer' : List (List UInt8)} (h : Exact file p asked answer)
    (hne : p.connected = false) : Exact file p asked' answer' :=
  ⟨h.tracked, fun hconn => absurd hconn (by simp [hne]), h.lost⟩

/-! ### The whole system -/

variable {ι : Type*} [DecidableEq ι]

/-- The invariant of the system. -/
def Inv (file : List UInt8) (s : System ι) : Prop :=
  ∀ c, Exact file (s.peers c) (s.server.askedOf c) (s.server.answerOf c)

/-- What is known about a client is kept by the steps that concern it. -/
theorem exact_local (hfile : file.length + 11 * chunkSize < 2 ^ 31) :
    Local file fun _ => Exact file where
  start := Exact.start
  peer := fun h hstep => h.step hfile hstep
  accept := fun h hinbox => h.accept hinbox
  serve := by
    intro n p req pos data pos' h hserve
    cases hconn : p.connected with
    | false => exact h.of_not_connected hconn
    | true =>
      obtain ⟨data', _, hserve', hexact⟩ := h.serve hfile hconn pos
      obtain ⟨rfl, -⟩ := Prod.mk.inj (Except.ok.inj (hserve.symm.trans hserve'))
      exact hexact
  fail := by
    intro n p req pos a h herror
    cases hconn : p.connected with
    | false => exact h.of_not_connected hconn
    | true =>
      -- the request is that for the next chunk, and fails no assertion
      obtain ⟨_, _, hserve, -⟩ := h.serve hfile hconn pos
      rw [hserve] at herror
      exact absurd herror (by simp)
  send := fun h => h.send
  refuse := fun h hne => h.of_not_connected hne

theorem inv_of_run (hfile : file.length + 11 * chunkSize < 2 ^ 31) {as : List (Action ι)}
    {s : System ι} (hrun : run (step file) System.start as = some s) : Inv file s :=
  (exact_local hfile).of_run hrun

/-- **Every chunk received is the right one, and a client that has finished has the
whole file.** -/
theorem transfer_exact (hfile : file.length + 11 * 1024 < 2 ^ 31) {as : List (Action ι)}
    {s : System ι} (hrun : run (step file) System.start as = some s) (c : ι) :
    (∀ k (hk : k < (s.peers c).received.length),
      (s.peers c).received[k] = file.extract (1024 * k) (min file.length (1024 * (k + 1)))) ∧
    ((s.peers c).client.phase = .finished →
      (s.peers c).received.length = file.length / 1024 + 1 ∧
        (s.peers c).received.flatten = file ∧ (s.peers c).client.total = file.length ∧
        (s.peers c).client.chunks = file.length / 1024 + 1) := by
  have h := (inv_of_run hfile hrun c).tracked
  constructor
  · intro k hk
    have hget := congrArg (·[k]?) h.received_eq
    rw [← slice_eq_extract]
    simpa [List.getElem?_eq_getElem hk, hk] using hget
  · intro hphase
    obtain ⟨hle, hlt⟩ := h.short hphase
    unfold chunkSize at hle hlt
    have hlength : (s.peers c).received.length = file.length / 1024 + 1 := by omega
    have hflatten : (s.peers c).received.flatten = file := by
      rw [h.flatten_received]
      exact List.take_of_length_le (by unfold chunkSize; omega)
    exact ⟨hlength, hflatten, by rw [h.total_eq, hflatten], by rw [h.chunks_eq, hlength]⟩

/-- Two clients ask for a file of three bytes; the requests of both wait at the server, and
one of them gets its first chunk after the other. -/
def twoClients : List (Action Bool) :=
  List.replicate 10 (.peer true .request) ++ List.replicate 10 (.peer false .request) ++
    [.peer false .deliver, .peer true .deliver, .accept false, .load, .peer true .deliver, .route,
      .reply, .accept true, .load, .route, .reply, .peer true .receive]

/-- The client has the whole file. -/
theorem transfer_exact_twoClients :
    ∃ s : System Bool, run (step [7, 8, 9]) System.start twoClients = some s ∧
      (s.peers true).received.flatten = [7, 8, 9] ∧ (s.peers true).client.total = 3 := by
  obtain ⟨s, hrun, hphase⟩ : ∃ s : System Bool,
      run (step [7, 8, 9]) System.start twoClients = some s ∧
        (s.peers true).client.phase = .finished := ⟨_, rfl, rfl⟩
  obtain ⟨-, hdone⟩ := transfer_exact (by decide) hrun true
  obtain ⟨-, hflatten, htotal, -⟩ := hdone hphase
  exact ⟨s, hrun, hflatten, htotal⟩

end FileTransfer
end ZmqIssues
