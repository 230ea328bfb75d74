import Mathlib.Data.Vector.Defs
import ZmqIssues.Lib.Segments

/-!
# The program of issue 763

The program speaks ZMTP/1.0 over a raw TCP connection: it sends a greeting and prints
the frames it receives.

Buffers have a fixed size, and storing behind their end stops the model, so that a
result also says that nothing was stored there.  The loop of `tcp_recv` is given the
number of `recv` calls it may make.

## Main definitions

* `ZmtpMsg` — a message object.
* `Socket`, `recv` — the connection.
* `tcpRecv`, `zmtpRecv`, `zmtpSend` — the functions of the program.
* `zmtpRecvs`, `zmtpSends` — several calls after another.

## Main results

* `recv_of_ne_nil`, `of_recv_eq_ok`, `recv_of_nil` — what a `recv` call gets.
-/

namespace ZmqIssues
namespace Zmtp

/-- `zmtp_msg_t`. -/
structure ZmtpMsg where
  /-- Size, 1 to 255 bytes. -/
  size : UInt8
  /-- Must be zero. -/
  flags : UInt8
  /-- Message data. -/
  data : List.Vector UInt8 255
  deriving DecidableEq

/-- The bytes of a message object in memory. -/
def ZmtpMsg.bytes (msg : ZmtpMsg) : List UInt8 := msg.size :: msg.flags :: msg.data.toList

/-- What `recv` does when all bytes of the peer have been received. -/
inductive Ending
  /-- It waits. -/
  | blocks
  /-- It returns 0: the peer closed the connection. -/
  | closed
  /-- It returns -1. -/
  | fails
  deriving DecidableEq, Repr

/-- A connection. -/
structure Socket where
  /-- What the peer sends, as it is cut into `recv` results. -/
  stream : Segmented UInt8
  /-- What comes behind it. -/
  ending : Ending

/-- Why the program stops. -/
inductive Stop
  /-- It waits for bytes. -/
  | waiting
  /-- `derp ("recv")`. -/
  | recvFailed
  /-- It stores behind the end of a buffer. -/
  | overflow
  /-- It has made all `recv` calls it may make. -/
  | unfinished
  deriving DecidableEq, Repr

/-- `recv`: at most `len` bytes. -/
def recv (sock : Socket) (len : ℕ) : Except Stop (List UInt8 × Socket) :=
  if sock.stream.segments.isEmpty then
    match sock.ending with
    | .blocks => .error .waiting
    | .closed => .ok ([], sock)
    | .fails => .error .recvFailed
  else
    .ok ((sock.stream.receive len).1, { sock with stream := (sock.stream.receive len).2 })

/-- Store bytes into a buffer, from position `pos` on. -/
def store {n : ℕ} (buffer : List.Vector UInt8 n) (pos : ℕ) (bytes : List UInt8) :
    Except Stop (List.Vector UInt8 n) :=
  if h : pos + bytes.length ≤ n then
    .ok ⟨buffer.toList.take pos ++ bytes ++ buffer.toList.drop (pos + bytes.length), by
      simp only [List.length_append, List.length_take, List.length_drop,
        List.Vector.toList_length]
      omega⟩
  else
    .error .overflow

/-- The loop of `tcp_recv`, with `lenRecd` bytes received. -/
def tcpRecvLoop {n : ℕ} (len : ℕ) :
    ℕ → Socket → List.Vector UInt8 n → ℕ → Except Stop (List.Vector UInt8 n × Socket)
  | 0, sock, buffer, lenRecd => if lenRecd < len then .error .unfinished else .ok (buffer, sock)
  | fuel + 1, sock, buffer, lenRecd =>
    if lenRecd < len then do
      let (bytes, sock) ← recv sock (len - lenRecd)
      let buffer ← store buffer lenRecd bytes
      tcpRecvLoop len fuel sock buffer (lenRecd + bytes.length)
    else
      .ok (buffer, sock)

/-- `tcp_recv`. -/
def tcpRecv {n : ℕ} (fuel : ℕ) (sock : Socket) (buffer : List.Vector UInt8 n) (len : ℕ) :
    Except Stop (List.Vector UInt8 n × Socket) :=
  tcpRecvLoop len fuel sock buffer 0

/-- `tcp_recv` of a single byte. -/
def tcpRecvByte (fuel : ℕ) (sock : Socket) (old : UInt8) : Except Stop (UInt8 × Socket) := do
  let (byte, sock) ← tcpRecv fuel sock (n := 1) ⟨[old], rfl⟩ 1
  return (byte.head, sock)

/-- The first part of `zmtp_recv`: the length, or what is kept of a long one. -/
def recvLength (fuel : ℕ) (sock : Socket) (old : UInt8) : Except Stop (UInt8 × Socket) := do
  let (size, sock) ← tcpRecvByte fuel sock old
  if size = 255 then
    let (longLen, sock) ← tcpRecv fuel sock (List.Vector.replicate 8 0) 8
    return (longLen.get 7, sock)
  else
    return (size, sock)

/-- `zmtp_recv`. -/
def zmtpRecv (fuel : ℕ) (sock : Socket) (msg : ZmtpMsg) : Except Stop (ZmtpMsg × Socket) := do
  let (size, sock) ← recvLength fuel sock msg.size
  -- the size includes the flags
  let size := size - 1
  let (flags, sock) ← tcpRecvByte fuel sock msg.flags
  if size ≠ 0 then
    let (data, sock) ← tcpRecv fuel sock msg.data size.toNat
    return (⟨size, flags, data⟩, sock)
  else
    return (⟨size, flags, msg.data⟩, sock)

/-- `zmtp_send`: what is sent, and the message object afterwards. -/
def zmtpSend (msg : ZmtpMsg) : List UInt8 × ZmtpMsg :=
  let msg := { msg with size := msg.size + 1 }
  (msg.bytes.take msg.size.toNat, msg)

/-- Calls of `zmtp_recv` with one message object: the object after each of them. -/
def zmtpRecvs (fuel : ℕ) : ℕ → Socket → ZmtpMsg → Except Stop (List ZmtpMsg × Socket)
  | 0, sock, _ => .ok ([], sock)
  | n + 1, sock, msg => do
    let (msg, sock) ← zmtpRecv fuel sock msg
    let (msgs, sock) ← zmtpRecvs fuel n sock msg
    return (msg :: msgs, sock)

/-- Calls of `zmtp_send` with some message objects, each given by its name: what is sent,
and the objects afterwards. -/
def zmtpSends {ι : Type*} [DecidableEq ι] (objs : ι → ZmtpMsg) : List ι → List UInt8 × (ι → ZmtpMsg)
  | [] => ([], objs)
  | i :: is =>
    let (bytes, msg) := zmtpSend (objs i)
    let (rest, objs) := zmtpSends (Function.update objs i msg) is
    (bytes ++ rest, objs)

/-! ### Receiving -/

theorem store_eq_ok {n : ℕ} (buffer : List.Vector UInt8 n) {pos : ℕ} {bytes : List UInt8}
    (h : pos + bytes.length ≤ n) :
    ∃ buffer', store buffer pos bytes = .ok buffer' ∧
      buffer'.toList =
        buffer.toList.take pos ++ bytes ++ buffer.toList.drop (pos + bytes.length) := by
  simp only [store, dif_pos h]
  exact ⟨_, rfl, rfl⟩

/-- A `recv` call gets some of the bytes that are left. -/
theorem recv_of_ne_nil {sock : Socket} {len : ℕ} (hlen : 0 < len)
    (hne : sock.stream.contents ≠ []) :
    ∃ bytes sock', recv sock len = .ok (bytes, sock') ∧ 0 < bytes.length ∧ bytes.length ≤ len ∧
      sock.stream.contents = bytes ++ sock'.stream.contents ∧ sock'.ending = sock.ending := by
  have hrecv : recv sock len =
      .ok ((sock.stream.receive len).1, { sock with stream := (sock.stream.receive len).2 }) := by
    rw [recv, if_neg]
    simpa using Segmented.segments_ne_nil hne
  exact ⟨_, _, hrecv, Segmented.length_receive_pos hlen hne, sock.stream.length_receive_le len,
    (sock.stream.contents_receive len).symm, rfl⟩

/-- What it returns it has taken off the stream. -/
theorem of_recv_eq_ok {sock sock' : Socket} {len : ℕ} {bytes : List UInt8}
    (h : recv sock len = .ok (bytes, sock')) :
    sock.stream.contents = bytes ++ sock'.stream.contents ∧ bytes.length ≤ len := by
  unfold recv at h
  split at h
  · cases hending : sock.ending with
    | closed =>
      rw [hending] at h
      obtain ⟨rfl, rfl⟩ := Prod.mk.inj (Except.ok.inj h)
      exact ⟨rfl, Nat.zero_le _⟩
    | blocks => simp [hending] at h
    | fails => simp [hending] at h
  · obtain ⟨rfl, rfl⟩ := Prod.mk.inj (Except.ok.inj h)
    exact ⟨(sock.stream.contents_receive len).symm, sock.stream.length_receive_le len⟩

/-- Behind the last byte it does what comes then. -/
theorem recv_of_nil {sock : Socket} (len : ℕ) (hnil : sock.stream.contents = []) :
    recv sock len =
      match sock.ending with
      | .blocks => .error .waiting
      | .closed => .ok ([], sock)
      | .fails => .error .recvFailed := by
  rw [recv, if_pos]
  rw [Segmented.segments_eq_nil hnil]
  rfl

end Zmtp
end ZmqIssues
