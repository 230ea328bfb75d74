import ZmqIssues.Lib.Numbers
import ZmqIssues.Lib.Reader

/-!
# The file client and the file server of issue 471

The client asks for chunks of a file and keeps up to ten requests on the way.  A
request has three frames: the command, the offset of the chunk and its size, both as
decimal text.  The server answers each request with the bytes it reads at the offset;
a chunk that is shorter than asked for is the last one.

## Main definitions

* `Request` — the frames of a request.
* `Client`, `Client.request`, `Client.receive` — the variables of the client and the
  steps of its loop.
* `serve` — what the server does with a request.
* `sendIdentity`, `sendChunk` — the two calls of `zframe_send` for a reply.
-/

namespace ZmqIssues
namespace FileTransfer

open Numbers Reader

/-- `CHUNK_SIZE`. -/
def chunkSize : ℕ := 1024

/-- `PIPELINE`. -/
def pipeline : ℕ := 10

/-- Addition of two `size_t`. -/
def addSize (m n : ℕ) : ℕ := sizeT (m + n : ℕ)

theorem addSize_eq {m n : ℕ} (h : m + n < 2 ^ 64) : addSize m n = m + n := sizeT_natCast h

theorem addSize_eq_mod (m n : ℕ) : addSize m n = (m + n) % 2 ^ 64 := by
  simp only [addSize, sizeT]
  omega

/-- The frames of a request. -/
structure Request where
  /-- The command. -/
  command : List Char
  /-- The offset of the chunk. -/
  offset : List Char
  /-- The maximum size of the chunk. -/
  chunksz : List Char
  deriving DecidableEq, Repr

/-! ### The client -/

/-- Where a client is in its program. -/
inductive Phase
  /-- In its loop. -/
  | looping
  /-- Behind its loop, after a chunk that was too short. -/
  | finished
  /-- Behind its loop, after `zframe_recv` returned no frame. -/
  | interrupted
  deriving DecidableEq, Repr

/-- The variables of a client. -/
structure Client where
  /-- How many requests it may still send. -/
  credit : ℕ
  /-- Total bytes received. -/
  total : ℕ
  /-- Total chunks received. -/
  chunks : ℕ
  /-- Offset of next chunk request. -/
  offset : ℕ
  /-- Where it is in its program. -/
  phase : Phase
  deriving DecidableEq, Repr

namespace Client

/-- A client that starts. -/
def start : Client := ⟨pipeline, 0, 0, 0, .looping⟩

/-- Ask for the next chunk. -/
def request (c : Client) : Option (Request × Client) :=
  if c.phase = .looping ∧ c.credit ≠ 0 then
    some (⟨"fetch".toList, decimal (int64 c.offset), decimal chunkSize⟩,
      { c with offset := addSize c.offset chunkSize, credit := c.credit - 1 })
  else
    none

/-- Receive a chunk; a short one ends the loop. -/
def receive (c : Client) (chunk : List UInt8) : Option Client :=
  if c.phase = .looping ∧ c.credit = 0 then
    some { c with
      chunks := addSize c.chunks 1
      credit := addSize c.credit 1
      total := addSize c.total chunk.length
      phase := if chunk.length < chunkSize then .finished else .looping }
  else
    none

/-- `zframe_recv` returns no frame: the client quits. -/
def interrupt (c : Client) : Option Client :=
  if c.phase = .looping ∧ c.credit = 0 then some { c with phase := .interrupted } else none

theorem request_eq_some {c c' : Client} {req : Request} :
    c.request = some (req, c') ↔ c.phase = .looping ∧ c.credit ≠ 0 ∧
      req = ⟨"fetch".toList, decimal (int64 c.offset), decimal chunkSize⟩ ∧
      c' = { c with offset := addSize c.offset chunkSize, credit := c.credit - 1 } := by
  rw [request, Option.ite_none_right_eq_some, and_assoc, Option.some.injEq, Prod.mk.injEq,
    eq_comm (a := req), eq_comm (a := c')]

theorem receive_eq_some {c c' : Client} {chunk : List UInt8} :
    c.receive chunk = some c' ↔ c.phase = .looping ∧ c.credit = 0 ∧
      c' = { c with
        chunks := addSize c.chunks 1
        credit := addSize c.credit 1
        total := addSize c.total chunk.length
        phase := if chunk.length < chunkSize then .finished else .looping } := by
  rw [receive, Option.ite_none_right_eq_some, and_assoc, Option.some.injEq, eq_comm (a := c')]

theorem interrupt_eq_some {c c' : Client} :
    c.interrupt = some c' ↔
      c.phase = .looping ∧ c.credit = 0 ∧ c' = { c with phase := .interrupted } := by
  rw [interrupt, Option.ite_none_right_eq_some, and_assoc, Option.some.injEq, eq_comm (a := c')]

end Client

/-! ### The server -/

/-- The assertions of the server. -/
inductive Assertion
  /-- The command is `"fetch"`. -/
  | command
  /-- There is memory for the chunk. -/
  | malloc
  /-- The identity frame of the reply was sent. -/
  | sendIdentity
  /-- The chunk was sent. -/
  | sendChunk
  deriving DecidableEq, Repr

/-- What `zframe_send` returns for the identity frame of a reply.  The option
`ZMQ_ROUTER_MANDATORY` is set, so that a peer whose connection has ended is refused. -/
def sendIdentity (connected : Bool) : ℤ := if connected then 0 else -1

/-- What `zframe_send` returns for the chunk behind it.  This is an assumption on libzmq: when
the router has accepted the identity frame of a message, it takes the frames behind it
whether or not the peer is still there, and drops them if it has gone. -/
def sendChunk (_connected : Bool) : ℤ := 0

@[simp] theorem sendIdentity_eq_zero {connected : Bool} :
    sendIdentity connected = 0 ↔ connected = true := by
  cases connected <;> decide

@[simp] theorem sendChunk_eq_zero (connected : Bool) : sendChunk connected = 0 := rfl

/-- `fseek` from the start of the file: the position afterwards. -/
def fseek (pos offset : ℕ) : ℕ := if 0 ≤ int64 offset then (int64 offset).toNat else pos

/-- `fread`: the bytes read, and the position afterwards. -/
def fread (file : List UInt8) (pos n : ℕ) : List UInt8 × ℕ :=
  ((file.drop pos).take n, pos + ((file.drop pos).take n).length)

/-- What the server does with a request: the chunk, and the file position afterwards. -/
def serve (file : List UInt8) (pos : ℕ) (req : Request) : Except Assertion (List UInt8 × ℕ) := do
  check (req.command == "fetch".toList) .command
  let offset := sizeT (atoi req.offset)
  let chunksz := sizeT (atoi req.chunksz)
  let pos := fseek pos offset
  check (mallocAccepts chunksz) .malloc
  return fread file pos chunksz

/-- The request for chunk `k`. -/
def requestAt (k : ℕ) : Request :=
  ⟨"fetch".toList, decimal (chunkSize * k : ℕ), decimal chunkSize⟩

/-- Chunk `k` of a file: its bytes from `1024 * k` on, up to `1024 * (k + 1)` or the end
of the file. -/
def slice (file : List UInt8) (k : ℕ) : List UInt8 := (file.drop (chunkSize * k)).take chunkSize

/-- The requests of a client are well formed. -/
def Request.WellFormed (req : Request) : Prop :=
  req.command = "fetch".toList ∧ req.chunksz = decimal chunkSize

theorem atoi_chunkSize : sizeT (atoi (decimal chunkSize)) = chunkSize := by
  rw [atoi_decimal (by decide) (by decide), int32_natCast (by decide), sizeT_natCast (by decide)]

/-- A well-formed request fails no assertion: a chunk is read where its offset leads to. -/
theorem serve_eq_ok (file : List UInt8) (pos : ℕ) {req : Request} (h : req.WellFormed) :
    serve file pos req = .ok (fread file (fseek pos (sizeT (atoi req.offset))) chunkSize) := by
  obtain ⟨hcommand, hchunksz⟩ := h
  simp only [serve, hcommand, hchunksz, atoi_chunkSize]
  rfl

theorem exists_serve_eq_ok (file : List UInt8) (pos : ℕ) {req : Request} (h : req.WellFormed) :
    ∃ data pos', serve file pos req = .ok (data, pos') :=
  ⟨_, _, serve_eq_ok file pos h⟩

theorem serve_ne_error (file : List UInt8) (pos : ℕ) {req : Request} (h : req.WellFormed)
    (a : Assertion) : serve file pos req ≠ .error a := by
  rw [serve_eq_ok file pos h]
  simp

theorem requestAt_wellFormed (k : ℕ) : (requestAt k).WellFormed := ⟨rfl, rfl⟩

/-- **The server reads the chunk that was asked for**, wherever the file position was. -/
theorem serve_requestAt (file : List UInt8) (pos : ℕ) {k : ℕ} (hk : chunkSize * k < 2 ^ 31) :
    ∃ pos', serve file pos (requestAt k) = .ok (slice file k, pos') := by
  have hoffset : sizeT (atoi (requestAt k).offset) = chunkSize * k := by
    show sizeT (atoi (decimal (chunkSize * k : ℕ))) = chunkSize * k
    rw [atoi_decimal (by omega) (by omega), int32_natCast hk, sizeT_natCast (by omega)]
  have hseek : fseek pos (chunkSize * k) = chunkSize * k := by
    rw [fseek, int64_natCast (by omega), if_pos (by omega), Int.toNat_natCast]
  refine ⟨(fread file (chunkSize * k) chunkSize).2, ?_⟩
  rw [serve_eq_ok file pos (requestAt_wellFormed k), hoffset, hseek]
  rfl

/-! ### Chunks -/

theorem length_slice (file : List UInt8) (k : ℕ) :
    (slice file k).length = min chunkSize (file.length - chunkSize * k) := by
  rw [slice, List.length_take, List.length_drop]

theorem slice_eq_extract (file : List UInt8) (k : ℕ) :
    slice file k = file.extract (1024 * k) (min file.length (1024 * (k + 1))) := by
  rw [slice, chunkSize, List.extract_eq_take_drop, List.take_eq_take_iff, List.length_drop]
  omega

/-- The chunks of a file make up the file. -/
theorem flatten_slices (file : List UInt8) (n : ℕ) :
    ((List.range n).map (slice file)).flatten = file.take (chunkSize * n) := by
  induction n with
  | zero => simp
  | succ n ih =>
    rw [List.range_succ, List.map_append, List.flatten_append, ih, List.map_singleton,
      List.flatten_singleton, slice, Nat.mul_succ, List.take_add]

end FileTransfer
end ZmqIssues
