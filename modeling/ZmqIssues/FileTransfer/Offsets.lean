import ZmqIssues.FileTransfer.Clients

/-!
# Offsets on their way to the server

A client keeps its offset in a `size_t` and prints it as a `long`; the server reads it
with `atoi`, which gives an `int`, and turns this into a `size_t` again.  From 2 GiB on
the two disagree.  Where the `int` is negative the seek fails and the server goes on
reading where it is; where it is not, the client gets an earlier part of the file.  In
both cases the chunk can be full although the file has ended, and a client that is only
ever given full chunks does not stop.

## Main definitions

* `requestFor` — the request a client sends for a chunk.
* `seekOffset` — the offset the server reads in a request.
* `Numbered` — the requests of a client come in order, and the chunks below 2 GiB are right.

## Main results

* `seekOffset_requestFor_eq_iff` — a request is understood exactly below 2 GiB.
* `exists_endless` — from 2 GiB on, a client can be given full chunks for ever.
* `offsets_agree_iff` — **client and server agree on an offset exactly below 2 GiB.**
-/

namespace ZmqIssues
namespace FileTransfer

open Machine Numbers

variable {file : List UInt8}

/-! ### The offset of a request -/

/-- The request a client sends for chunk `k`. -/
def requestFor (k : ℕ) : Request :=
  ⟨"fetch".toList, decimal (int64 (chunkSize * k % 2 ^ 64 : ℕ)), decimal chunkSize⟩

theorem requestFor_offset {k : ℕ} (hk : chunkSize * k < 2 ^ 64) :
    (requestFor k).offset = decimal (int64 (chunkSize * k : ℕ)) := by
  rw [requestFor, Nat.mod_eq_of_lt hk]

/-- The offset the server reads in a request. -/
def seekOffset (req : Request) : ℕ := sizeT (atoi req.offset)

/-- What is left of an offset: 32 bits, with the sign spread over the others. -/
theorem seekOffset_requestFor (k : ℕ) :
    seekOffset (requestFor k) =
      if chunkSize * k % 2 ^ 32 < 2 ^ 31 then chunkSize * k % 2 ^ 32
      else 2 ^ 64 - 2 ^ 32 + chunkSize * k % 2 ^ 32 := by
  have hlo : -2 ^ 63 ≤ int64 (chunkSize * k % 2 ^ 64 : ℕ) := by
    rw [int64, Int.bmod_def]
    omega
  have hhi : int64 (chunkSize * k % 2 ^ 64 : ℕ) < 2 ^ 63 := by
    rw [int64, Int.bmod_def]
    omega
  rw [seekOffset, requestFor, atoi_decimal hlo hhi]
  generalize chunkSize * k = m
  -- only the last 32 bits count
  have hlow : int32 (int64 (m % 2 ^ 64 : ℕ)) = int32 m := by
    rw [int32, int64, int32, Int.natCast_mod, Int.emod_bmod, Int.bmod_bmod_of_dvd (by decide)]
  rw [hlow, sizeT, int32, Int.bmod_def]
  split <;> split <;> omega

/-- **A request is understood exactly below 2 GiB.** -/
theorem seekOffset_requestFor_eq_iff {k : ℕ} (hk : chunkSize * k < 2 ^ 63) :
    seekOffset (requestFor k) = chunkSize * k ↔ chunkSize * k < 2 ^ 31 := by
  rw [seekOffset_requestFor]
  generalize chunkSize * k = m at hk ⊢
  split <;> omega

theorem requestFor_wellFormed (k : ℕ) : (requestFor k).WellFormed := ⟨rfl, rfl⟩

theorem requestFor_eq_requestAt {k : ℕ} (hk : chunkSize * k < 2 ^ 31) :
    requestFor k = requestAt k := by
  rw [requestFor, requestAt, Nat.mod_eq_of_lt (by omega), int64_natCast (by omega)]

/-! ### Requests in order, and their chunks -/

/-- The requests of a client come in order: the server has read `n` of them, the next ones
are on the way, and the client's offset is behind these.  The chunks on the way are the
answers to the first ones, and those below 2 GiB are chunks of the file, so that a client
of a smaller file has only received full chunks as long as it has not finished. -/
structure Numbered (file : List UInt8) (n : ℕ) (p : Peer) (asked : List Request)
    (answer : List (List UInt8)) : Prop where
  /-- The connection. -/
  sound : p.Sound
  /-- The requests behind those the server has read. -/
  requests : ∃ j, p.inbox ++ p.outbox = (List.range' n j).map requestFor ∧
    (p.connected = true → p.client.offset = chunkSize * (n + j) % 2 ^ 64)
  /-- The request in hand is the one read last. -/
  asked_eq : ∀ req ∈ asked, ∃ k, n = k + 1 ∧ req = requestFor k
  /-- Every request read is answered, or in hand. -/
  answered : p.connected = true →
    p.received.length + p.replies.length + answer.length + asked.length = n
  /-- The chunks below 2 GiB are chunks of the file. -/
  chunks_eq : p.connected = true → ∀ i data, (p.replies ++ answer)[i]? = some data →
    chunkSize * (p.received.length + i) < 2 ^ 31 → data = slice file (p.received.length + i)
  /-- Nothing is on the way when the connection has ended. -/
  replies_eq : p.connected = false → p.replies = []
  /-- A client of a small file has received full chunks only. -/
  full : file.length < 2 ^ 31 → p.client.phase ≠ .finished →
    chunkSize * p.received.length ≤ file.length

theorem Numbered.start : Numbered file 0 Peer.start [] [] where
  sound := Peer.Sound.start
  requests := ⟨0, rfl, fun _ => rfl⟩
  asked_eq := by simp
  answered := fun _ => rfl
  chunks_eq := by simp [Peer.start]
  replies_eq := fun _ => rfl
  full := by simp [Peer.start]

/-- **Steps of a client and its connection.** -/
theorem Numbered.step {n : ℕ} {p q : Peer} {asked : List Request} {answer : List (List UInt8)}
    (h : Numbered file n p asked answer) {a : PeerAction} (hstep : p.step a = some q) :
    Numbered file n q asked answer := by
  have hsound := h.sound.step hstep
  obtain ⟨j, hrequests, hoffset⟩ := h.requests
  cases a with
  | request =>
    obtain ⟨req, client, hreq, rfl⟩ := Peer.step_request.mp hstep
    obtain ⟨hphase, -, rfl, rfl⟩ := Client.request_eq_some.mp hreq
    have hconn := h.sound.connected_of_looping hphase
    refine ⟨hsound, ⟨j + 1, ?_, ?_⟩, h.asked_eq, h.answered, h.chunks_eq, h.replies_eq, h.full⟩
    · -- the new request is that for the chunk behind the others
      rw [← List.append_assoc, hrequests, List.range'_concat, List.map_append, Nat.one_mul,
        List.map_singleton, hoffset hconn, requestFor]
    · intro _
      show addSize p.client.offset chunkSize = chunkSize * (n + (j + 1)) % 2 ^ 64
      rw [addSize_eq_mod, hoffset hconn]
      unfold chunkSize
      omega
  | deliver =>
    obtain ⟨req, outbox, houtbox, rfl⟩ := Peer.step_deliver.mp hstep
    refine ⟨hsound, ⟨j, ?_, hoffset⟩, h.asked_eq, h.answered, h.chunks_eq, h.replies_eq, h.full⟩
    rw [← hrequests, houtbox]
    simp
  | receive =>
    obtain ⟨chunk, replies, client, hreplies, hrecv, rfl⟩ := Peer.step_receive.mp hstep
    obtain ⟨hphase, -, rfl⟩ := Client.receive_eq_some.mp hrecv
    have hconn := h.sound.connected_of_looping hphase
    have hchunks := h.chunks_eq hconn
    rw [hreplies] at hchunks
    refine ⟨hsound, ⟨j, hrequests, hoffset⟩, h.asked_eq, ?_, ?_, ?_, ?_⟩
    · intro _
      have := h.answered hconn
      rw [hreplies, List.length_cons] at this
      simp only [List.length_append, List.length_singleton]
      omega
    · intro _ i data hdata hlt
      have hnext : p.received.length + 1 + i = p.received.length + (i + 1) := by omega
      simp only [List.length_append, List.length_singleton, hnext] at hlt ⊢
      exact hchunks (i + 1) data hdata hlt
    · intro hne
      exact absurd (hconn.symm.trans hne) (by decide)
    · intro hfile hgoes
      -- the chunk is one of the file, and a full one
      have hle := h.full hfile (by rw [hphase]; decide)
      have hdata := hchunks 0 chunk rfl (Nat.lt_of_le_of_lt hle hfile)
      have hfull : ¬ chunk.length < chunkSize := by
        intro hshort
        exact hgoes (if_pos hshort)
      rw [hdata, Nat.add_zero, length_slice] at hfull
      unfold chunkSize at *
      simp only [List.length_append, List.length_singleton]
      omega
  | interrupt =>
    obtain ⟨client, hint, rfl⟩ := Peer.step_interrupt.mp hstep
    obtain ⟨hphase, -, rfl⟩ := Client.interrupt_eq_some.mp hint
    refine ⟨hsound, ⟨j, hrequests, hoffset⟩, h.asked_eq, h.answered, h.chunks_eq, h.replies_eq, ?_⟩
    intro hfile _
    exact h.full hfile (by rw [hphase]; decide)
  | close =>
    obtain ⟨-, -, rfl⟩ := Peer.step_close.mp hstep
    -- the requests that have arrived are the first ones
    obtain ⟨l₁, l₂, hsplit, hinbox, -⟩ := List.map_eq_append_iff.mp hrequests.symm
    obtain ⟨k, -, rfl, -⟩ := List.range'_eq_append_iff.mp hsplit
    refine ⟨hsound, ⟨k, ?_, fun hconn => absurd hconn (by simp)⟩, h.asked_eq,
      fun hconn => absurd hconn (by simp), fun hconn => absurd hconn (by simp), fun _ => rfl,
      h.full⟩
    rw [List.append_nil]
    exact hinbox.symm

theorem Numbered.accept {n : ℕ} {p : Peer} (h : Numbered file n p [] []) {req : Request}
    {inbox : List Request} (hinbox : p.inbox = req :: inbox) :
    Numbered file (n + 1) { p with inbox := inbox } [req] [] := by
  have hsound := (h.sound.accept hinbox).1
  obtain ⟨j, hrequests, hoffset⟩ := h.requests
  rw [hinbox] at hrequests
  cases j with
  | zero => simp at hrequests
  | succ j =>
    rw [List.range'_succ, List.map_cons, List.cons_append, List.cons.injEq] at hrequests
    obtain ⟨rfl, hrequests⟩ := hrequests
    refine ⟨hsound, ⟨j, hrequests, ?_⟩, ?_, ?_, h.chunks_eq, h.replies_eq, h.full⟩
    · intro hconn
      rw [hoffset hconn, Nat.add_right_comm, Nat.add_assoc]
    · intro r hmem
      exact ⟨n, rfl, List.mem_singleton.mp hmem⟩
    · intro hconn
      have := h.answered hconn
      simp only [List.length_nil, List.length_singleton] at this ⊢
      omega

/-- The chunk that is read answers the request in hand. -/
theorem Numbered.serve {n pos pos' : ℕ} {p : Peer} {req : Request} {data : List UInt8}
    (h : Numbered file n p [req] []) (hserve : serve file pos req = .ok (data, pos')) :
    Numbered file n p [] [data] := by
  refine ⟨h.sound, h.requests, by simp, h.answered, ?_, h.replies_eq, h.full⟩
  intro hconn i data' hdata hlt
  obtain ⟨k, hk, rfl⟩ := h.asked_eq req (by simp)
  rcases Nat.lt_or_ge i p.replies.length with hi | hi
  · refine h.chunks_eq hconn i data' ?_ hlt
    rw [List.append_nil]
    rwa [List.getElem?_append_left hi] at hdata
  · -- this is the chunk just read
    have hcount := h.answered hconn
    rw [List.getElem?_append_right hi, List.getElem?_singleton] at hdata
    split at hdata
    · next hzero =>
      have hik : p.received.length + i = k := by
        simp only [List.length_nil, List.length_singleton] at hcount
        omega
      rw [hik] at hlt ⊢
      obtain ⟨_, hslice⟩ := serve_requestAt file pos hlt
      rw [requestFor_eq_requestAt hlt, hslice] at hserve
      rw [← Option.some.inj hdata]
      exact (Prod.mk.inj (Except.ok.inj hserve)).1.symm
    · exact absurd hdata (by simp)

theorem Numbered.send {n : ℕ} {p : Peer} {data : List UInt8} (h : Numbered file n p [] [data]) :
    Numbered file n (p.send data) [] [] := by
  refine ⟨h.sound.send data, h.requests, h.asked_eq, ?_, ?_, ?_, h.full⟩
  · intro hconn
    have hconn' : p.connected = true := hconn
    have := h.answered hconn'
    simp only [Peer.send, hconn', if_true, List.length_append, List.length_singleton,
      List.length_nil] at this ⊢
    omega
  · intro hconn
    have hconn' : p.connected = true := hconn
    simpa [Peer.send, hconn'] using h.chunks_eq hconn'
  · intro hne
    have hne' : p.connected = false := hne
    simp [Peer.send, hne', h.replies_eq hne']

theorem Numbered.of_not_connected {n : ℕ} {p : Peer} {asked : List Request}
    {answer : List (List UInt8)} (h : Numbered file n p asked answer)
    (hne : p.connected = false) : Numbered file n p [] [] :=
  ⟨h.sound, h.requests, by simp, fun hconn => absurd hconn (by simp [hne]),
    fun hconn => absurd hconn (by simp [hne]), h.replies_eq, h.full⟩

theorem numbered_local (file : List UInt8) : Local file (Numbered file) where
  start := Numbered.start
  peer := fun h hstep => h.step hstep
  accept := fun h hinbox => h.accept hinbox
  serve := fun h hserve => h.serve hserve
  fail := by
    intro n p req pos a h herror
    -- the request is well formed, and fails no assertion
    obtain ⟨k, -, rfl⟩ := h.asked_eq req (by simp)
    exact absurd herror (serve_ne_error file pos (requestFor_wellFormed k) a)
  send := fun h => h.send
  refuse := fun h hne => h.of_not_connected hne

/-! ### Full chunks for ever -/

theorem serve_requestFor (file : List UInt8) (pos k : ℕ) :
    serve file pos (requestFor k) =
      .ok (fread file (fseek pos (seekOffset (requestFor k))) chunkSize) := by
  rw [serve_eq_ok file pos (requestFor_wellFormed k), seekOffset]

/-- The seek goes to a place below 2 GiB, or fails. -/
theorem fseek_requestFor (pos k : ℕ) :
    fseek pos (seekOffset (requestFor k)) ≤ 2 ^ 31 - chunkSize ∨
      fseek pos (seekOffset (requestFor k)) = pos := by
  rw [seekOffset_requestFor]
  split
  · next hlt =>
    left
    rw [fseek, int64_natCast (by omega), if_pos (by omega), Int.toNat_natCast]
    unfold chunkSize at *
    omega
  · next hge =>
    right
    have hneg : int64 (2 ^ 64 - 2 ^ 32 + chunkSize * k % 2 ^ 32 : ℕ) < 0 := by
      rw [int64, Int.bmod_def]
      generalize chunkSize * k = m at *
      split <;> omega
    rw [fseek, if_neg (by omega)]

/-- In a file of 2 GiB every request gets a full chunk, if the server is at the second one. -/
theorem exists_full_chunk (hfile : 2 ^ 31 ≤ file.length) (k : ℕ) :
    ∃ data pos', serve file chunkSize (requestFor k) = .ok (data, pos') ∧
      data.length = chunkSize := by
  refine ⟨_, _, serve_requestFor file chunkSize k, ?_⟩
  have hseek := fseek_requestFor chunkSize k
  show ((file.drop (fseek chunkSize (seekOffset (requestFor k)))).take chunkSize).length = _
  rw [List.length_take, List.length_drop]
  generalize fseek chunkSize (seekOffset (requestFor k)) = pos at *
  unfold chunkSize at *
  omega

/-- The first request brings the server to the second chunk. -/
theorem exists_first_chunk (hfile : 2 ^ 31 ≤ file.length) (pos : ℕ) :
    ∃ data, serve file pos (requestFor 0) = .ok (data, chunkSize) := by
  refine ⟨(fread file 0 chunkSize).1, ?_⟩
  have hseek : fseek pos (seekOffset (requestFor 0)) = 0 := by
    rw [seekOffset_requestFor]
    rfl
  have hpos : (fread file 0 chunkSize).2 = chunkSize := by
    show 0 + ((file.drop 0).take chunkSize).length = chunkSize
    rw [List.drop_zero, List.length_take, Nat.zero_add, Nat.min_eq_left]
    exact Nat.le_trans (by decide) hfile
  rw [serve_requestFor, hseek]
  exact congrArg Except.ok (Prod.ext rfl hpos)

/-- A request on the way is answered. -/
def answerRound {ι : Type*} (c : ι) : List (Action ι) :=
  [.peer c .deliver, .accept c, .load, .route, .reply]

theorem exists_run_answerRound {ι : Type*} [DecidableEq ι] {s : System ι} {c : ι} {req : Request}
    {outbox : List Request} {data : List UInt8} {pos : ℕ} (hidle : s.server = .idle)
    (hconn : (s.peers c).connected = true) (hinbox : (s.peers c).inbox = [])
    (houtbox : (s.peers c).outbox = req :: outbox)
    (hserve : serve file s.pos req = .ok (data, pos)) :
    ∃ t, run (step file) s (answerRound c) = some t ∧ t.server = .idle ∧ t.pos = pos ∧
      t.peers c = { s.peers c with
        outbox := outbox, replies := (s.peers c).replies ++ [data] } ∧
      ∀ d, d ≠ c → t.peers d = s.peers d := by
  refine ⟨⟨Function.update s.peers c { s.peers c with
    outbox := outbox, replies := (s.peers c).replies ++ [data] }, .idle, pos⟩, ?_, rfl, rfl,
    Function.update_self .., fun d hd => Function.update_of_ne hd ..⟩
  simp [answerRound, step, Peer.step, Peer.send, System.setPeer, hidle, hconn, hinbox, houtbox,
    hserve]

/-- A client has received `k` chunks, all of them full, and has the ten requests behind
these on the way. -/
structure Waiting (k : ℕ) (p : Peer) : Prop where
  /-- The client is in its loop. -/
  looping : p.client.phase = .looping
  /-- Its connection is open. -/
  connected : p.connected = true
  /-- It has given all its credit away. -/
  credit_eq : p.client.credit = 0
  /-- It has asked for ten chunks more than it has received. -/
  offset_eq : p.client.offset = chunkSize * (k + pipeline) % 2 ^ 64
  /-- No request of it has arrived. -/
  inbox_eq : p.inbox = []
  /-- They are all on the way. -/
  outbox_eq : p.outbox = (List.range' k pipeline).map requestFor
  /-- No chunk is on the way. -/
  replies_eq : p.replies = []
  /-- The chunks it has received. -/
  length_eq : p.received.length = k

/-- A client that is given a full chunk asks for one more. -/
theorem Waiting.next {k : ℕ} {p : Peer} (h : Waiting k p) {data : List UInt8}
    (hfull : data.length = chunkSize) :
    ∃ outbox q r, p.outbox = requestFor k :: outbox ∧
      Peer.step { p with outbox := outbox, replies := p.replies ++ [data] } .receive = some q ∧
      q.step .request = some r ∧ Waiting (k + 1) r := by
  let outbox := (List.range' (k + 1) (pipeline - 1)).map requestFor
  let client : Client := { p.client with
    chunks := addSize p.client.chunks 1
    credit := 1
    total := addSize p.client.total data.length }
  have hreceive : p.client.receive data = some client := by
    refine Client.receive_eq_some.mpr ⟨h.looping, h.credit_eq, ?_⟩
    rw [if_neg (by omega), h.credit_eq, ← h.looping]
    rfl
  have hrequest : client.request = some (requestFor (k + pipeline),
      { client with offset := addSize client.offset chunkSize, credit := 0 }) := by
    refine Client.request_eq_some.mpr ⟨h.looping, Nat.one_ne_zero, ?_, rfl⟩
    show requestFor (k + pipeline) = ⟨_, decimal (int64 p.client.offset), _⟩
    rw [h.offset_eq, requestFor]
  refine ⟨outbox, _, _, h.outbox_eq,
    Peer.step_receive.mpr ⟨data, [], client, ?_, hreceive, rfl⟩,
    Peer.step_request.mpr ⟨_, _, hrequest, rfl⟩,
    h.looping, h.connected, rfl, ?_, h.inbox_eq, ?_, rfl, ?_⟩
  · show p.replies ++ [data] = [data]
    rw [h.replies_eq, List.nil_append]
  · show addSize p.client.offset chunkSize = _
    rw [addSize_eq_mod, h.offset_eq]
    unfold chunkSize
    omega
  · -- the new request is the tenth behind those received
    show outbox ++ [requestFor (k + pipeline)] = (List.range' (k + 1) pipeline).map requestFor
    rfl
  · show (p.received ++ [data]).length = k + 1
    rw [List.length_append, h.length_eq, List.length_singleton]

/-- A client waits behind `k` full chunks, and the clients from `k + 1` on have not
started. -/
structure Endless (k : ℕ) (s : System ℕ) : Prop where
  /-- The server waits. -/
  idle : s.server = .idle
  /-- The client waits. -/
  waiting : Waiting k (s.peers 0)
  /-- The other clients. -/
  fresh : ∀ c, k < c → s.peers c = Peer.start

/-- A client that starts asks for the first chunk. -/
theorem request_start : Client.start.request =
    some (requestFor 0, { Client.start with offset := chunkSize, credit := pipeline - 1 }) := rfl

/-- A new client is given the first chunk, and the server is at the second one. -/
theorem exists_run_newClient (hfile : 2 ^ 31 ≤ file.length) {s : System ℕ} {c : ℕ}
    (hidle : s.server = .idle) (hfresh : s.peers c = Peer.start) :
    ∃ t, run (step file) s (.peer c .request :: answerRound c) = some t ∧ t.server = .idle ∧
      t.pos = chunkSize ∧ ∀ d, d ≠ c → t.peers d = s.peers d := by
  let p : Peer := { Peer.start with
    client := { Client.start with offset := chunkSize, credit := pipeline - 1 }
    outbox := [requestFor 0] }
  have hstep : step file s (.peer c .request) = some (s.setPeer c p) := by
    refine step_peer.mpr ⟨p, ?_, rfl⟩
    rw [hfresh]
    exact Peer.step_request.mpr ⟨_, _, request_start, rfl⟩
  have hself : (s.setPeer c p).peers c = p := System.setPeer_peers_self s c p
  obtain ⟨data, hserve⟩ := exists_first_chunk hfile (s.setPeer c p).pos
  have hidle' : (s.setPeer c p).server = .idle := hidle
  have houtbox : ((s.setPeer c p).peers c).outbox = [requestFor 0] := by rw [hself]
  obtain ⟨t, hrun, hidle', hpos, -, hothers⟩ := exists_run_answerRound hidle'
    (by rw [hself]; rfl) (by rw [hself]; rfl) houtbox hserve
  refine ⟨t, run_cons_eq_some.mpr ⟨_, hstep, hrun⟩, hidle', hpos, ?_⟩
  intro d hd
  rw [hothers d hd, System.setPeer_peers_of_ne s hd]

/-- **One more full chunk**: a new client brings the server back to the second chunk, the
client is given a chunk from there or from an earlier place, and asks for the next one. -/
theorem Endless.next (hfile : 2 ^ 31 ≤ file.length) {k : ℕ} {s : System ℕ} (h : Endless k s) :
    ∃ as t, run (step file) s as = some t ∧ Endless (k + 1) t := by
  obtain ⟨u, hnew, hidle, hpos, hothers⟩ :=
    exists_run_newClient hfile h.idle (h.fresh (k + 1) (Nat.lt_succ_self k))
  obtain ⟨data, pos, hserve, hfull⟩ := exists_full_chunk hfile k
  obtain ⟨outbox, q, r, houtbox, hreceive, hrequest, hwaiting⟩ := h.waiting.next hfull
  -- the client itself has not noticed the new one
  have hpeer : u.peers 0 = s.peers 0 := hothers 0 (Nat.succ_ne_zero k).symm
  rw [← hpos] at hserve
  obtain ⟨v, hanswer, hidle', -, hself, hothers'⟩ := exists_run_answerRound hidle
    (by rw [hpeer]; exact h.waiting.connected) (by rw [hpeer]; exact h.waiting.inbox_eq)
    (by rw [hpeer]; exact houtbox) hserve
  have hlast : run (step file) v [.peer 0 .receive, .peer 0 .request] =
      some ((v.setPeer 0 q).setPeer 0 r) := by
    refine run_cons_eq_some.mpr ⟨_, step_peer.mpr ⟨q, ?_, rfl⟩, ?_⟩
    · rw [hself, hpeer]
      exact hreceive
    · refine run_cons_eq_some.mpr ⟨_, step_peer.mpr ⟨r, ?_, rfl⟩, rfl⟩
      rw [System.setPeer_peers_self]
      exact hrequest
  have hrun := run_append_eq_some.mpr ⟨v, run_append_eq_some.mpr ⟨u, hnew, hanswer⟩, hlast⟩
  refine ⟨_, _, hrun, hidle', ?_, ?_⟩
  · rw [System.setPeer_peers_self]
    exact hwaiting
  · intro c hc
    have hne : c ≠ 0 := by omega
    rw [System.setPeer_peers_of_ne _ hne, System.setPeer_peers_of_ne _ hne, hothers' c hne,
      hothers c (by omega)]
    exact h.fresh c (by omega)

/-- A client that has sent its first ten requests. -/
theorem exists_endless_zero (file : List UInt8) :
    ∃ as s, run (step file) System.start as = some s ∧ Endless 0 s := by
  refine ⟨List.replicate pipeline (.peer 0 .request), _, rfl, rfl, ?_, ?_⟩
  · exact ⟨rfl, rfl, rfl, rfl, rfl, rfl, rfl, rfl⟩
  · intro c hc
    have hne : c ≠ 0 := by omega
    repeat rw [System.setPeer_peers_of_ne _ hne]
    rfl

/-- **From 2 GiB on, a client can be given full chunks for ever.** -/
theorem exists_endless (hfile : 2 ^ 31 ≤ file.length) (k : ℕ) :
    ∃ as s, run (step file) System.start as = some s ∧ Endless k s := by
  induction k with
  | zero => exact exists_endless_zero file
  | succ k ih =>
    obtain ⟨as, s, hrun, hs⟩ := ih
    obtain ⟨bs, t, hnext, ht⟩ := hs.next hfile
    exact ⟨as ++ bs, t, run_append_eq_some.mpr ⟨s, hrun, hnext⟩, ht⟩

/-- The server gets to read every request of such a client. -/
theorem exists_asked (hfile : 2 ^ 31 ≤ file.length) (k : ℕ) :
    ∃ as s, run (step file) (System.start : System ℕ) as = some s ∧
      as.count (.accept 0) = k + 1 ∧ s.server = .asked 0 (requestFor k) := by
  obtain ⟨as, s, hrun, h⟩ := exists_endless hfile k
  -- the requests read so far are those answered
  have hcount := ((numbered_local file).of_run hrun 0).answered h.waiting.connected
  rw [h.waiting.length_eq, h.waiting.replies_eq, h.idle] at hcount
  let outbox := (List.range' (k + 1) (pipeline - 1)).map requestFor
  let p : Peer := { s.peers 0 with outbox := outbox, inbox := [requestFor k] }
  have hdeliver : (s.peers 0).step .deliver = some p := by
    refine Peer.step_deliver.mpr ⟨requestFor k, outbox, h.waiting.outbox_eq, ?_⟩
    rw [h.waiting.inbox_eq]
    rfl
  have hinbox : ((s.setPeer 0 p).peers 0).inbox = [requestFor k] := by
    rw [System.setPeer_peers_self]
  have haccept : ∃ t, step file (s.setPeer 0 p) (.accept 0) = some t ∧
      t.server = .asked 0 (requestFor k) :=
    ⟨_, step_accept.mpr ⟨requestFor k, [], h.idle, hinbox, rfl⟩, rfl⟩
  obtain ⟨t, ht, hserver⟩ := haccept
  have hlast : run (step file) s [.peer 0 .deliver, .accept 0] = some t :=
    run_cons_eq_some.mpr ⟨_, step_peer.mpr ⟨p, hdeliver, rfl⟩, run_cons_eq_some.mpr ⟨t, ht, rfl⟩⟩
  refine ⟨_, t, run_append_eq_some.mpr ⟨s, hrun, hlast⟩, ?_, hserver⟩
  rw [List.count_append, ← hcount]
  rfl

/-! ### Client and server -/

/-- In a file below 2 GiB, a client that has been given more chunks than the file has full
ones has finished. -/
theorem finished_of_length_lt {ι : Type*} [DecidableEq ι] (hfile : file.length < 2 ^ 31)
    {as : List (Action ι)} {s : System ι} (hrun : run (step file) System.start as = some s)
    {c : ι} (hlen : file.length / chunkSize < (s.peers c).received.length) :
    (s.peers c).client.phase = .finished := by
  by_contra hgoes
  have hfull := ((numbered_local file).of_run hrun c).full hfile hgoes
  unfold chunkSize at *
  omega

/-- **Client and server agree on an offset exactly below 2 GiB.**  What the server reads in
the client's `n`-th request is `1024 * n` if and only if this is below `2 ^ 31`, in the
arithmetic and in every run; and there is a bound on the chunks a client is given before it
meets its short one if and only if the file is shorter than `2 ^ 31` bytes. -/
theorem offsets_agree_iff (file : List UInt8) :
    (∀ n, chunkSize * n < 2 ^ 63 →
      (sizeT (atoi (decimal (int64 (chunkSize * n : ℕ)))) = chunkSize * n ↔
        chunkSize * n < 2 ^ 31)) ∧
    (∀ (as : List (Action ℕ)) (s : System ℕ) (c : ℕ) (req : Request) (n : ℕ),
      run (step file) System.start as = some s → s.server = .asked c req →
      as.count (.accept c) = n + 1 → chunkSize * n < 2 ^ 63 →
      (sizeT (atoi req.offset) = chunkSize * n ↔ chunkSize * n < 2 ^ 31)) ∧
    ((∃ N, ∀ (as : List (Action ℕ)) (s : System ℕ) (c : ℕ),
        run (step file) System.start as = some s → N ≤ (s.peers c).received.length →
        (s.peers c).client.phase = .finished) ↔ file.length < 2 ^ 31) := by
  refine ⟨?_, ?_, ?_⟩
  · intro n hn
    rw [← requestFor_offset (Nat.lt_trans hn (by decide))]
    exact seekOffset_requestFor_eq_iff hn
  · intro as s c req n hrun hserver hcount hn
    -- the request is the client's `n`-th one
    have h := (numbered_local file).of_run hrun c
    rw [hserver, ServerPc.askedOf_asked, hcount] at h
    obtain ⟨k, hk, rfl⟩ := h.asked_eq req (List.mem_singleton_self req)
    obtain rfl : n = k := Nat.succ.inj hk
    exact seekOffset_requestFor_eq_iff hn
  · constructor
    · intro h
      obtain ⟨N, hN⟩ := h
      by_contra hfile
      obtain ⟨as, s, hrun, hs⟩ := exists_endless (Nat.le_of_not_lt hfile) N
      have hfinished := hN as s 0 hrun hs.waiting.length_eq.ge
      rw [hs.waiting.looping] at hfinished
      exact absurd hfinished (by decide)
    · intro hfile
      refine ⟨file.length / chunkSize + 1, ?_⟩
      intro as s c hrun hlen
      exact finished_of_length_lt hfile hrun hlen

/-- With a file of `2 ^ 31` bytes: the request for the chunk at `2 ^ 31` is read as one at
`2 ^ 64 - 2 ^ 31`, and a client can be given any number of chunks without meeting a short
one. -/
theorem offset_misread :
    (∃ as s req, run (step (List.replicate (2 ^ 31) 0)) (System.start : System ℕ) as = some s ∧
      s.server = .asked 0 req ∧ as.count (.accept 0) = 2 ^ 21 + 1 ∧
      sizeT (atoi req.offset) = 2 ^ 64 - 2 ^ 31) ∧
    ∀ N, ∃ as s, run (step (List.replicate (2 ^ 31) 0)) (System.start : System ℕ) as = some s ∧
      (s.peers 0).received.length = N ∧ (s.peers 0).client.phase = .looping := by
  have hfile : 2 ^ 31 ≤ (List.replicate (2 ^ 31) (0 : UInt8)).length :=
    List.length_replicate.ge
  constructor
  · obtain ⟨as, s, hrun, hcount, hserver⟩ := exists_asked hfile (2 ^ 21)
    refine ⟨as, s, _, hrun, hserver, hcount, ?_⟩
    show seekOffset (requestFor (2 ^ 21)) = 2 ^ 64 - 2 ^ 31
    rw [seekOffset_requestFor]
    decide
  · intro N
    obtain ⟨as, s, hrun, hs⟩ := exists_endless hfile N
    exact ⟨as, s, hrun, hs.waiting.length_eq, hs.waiting.looping⟩

end FileTransfer
end ZmqIssues
