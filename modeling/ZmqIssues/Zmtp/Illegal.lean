import Mathlib.Algebra.Group.Nat.Defs
import ZmqIssues.Zmtp.Receive

/-!
# Lengths that do not fit

A message object holds at most 255 data bytes, so the largest length of a frame it can
take is 256, and the smallest one is 1.  `zmtp_recv` does not check this: of a length in
eight bytes it keeps the last one, and it takes one off for the flags byte in eight bits.
So it takes another number of bytes than the frame has, and goes on in the middle of a
frame.  Where it does not get so many, it has stored those there are, and waits.

## Main definitions

* `receivedBytes`, `zmtpRecvReceived` — the bytes a call has received, also when it does
  not return.
* `OutOfRange` — a length field that announces a length a message object cannot hold.
* `taken` — the number of bytes that are taken for a length.
* `KeepsToFrame`, `Respects` — a call that takes nothing but the announced frame, and one
  that also consumes it or reports an error.

## Main results

* `zmtpRecvReceived_of_eq_ok` — what is received is in the message object.
* `OutOfRange.demand_eq`, `OutOfRange.received_eq` — what `zmtp_recv` asks for behind such a
  length field, and what it gets.
* `length_respected_iff` — **it keeps to the frame as long as it has too few bytes of it, and
  reports an error only if the connection fails then.**
-/

namespace ZmqIssues
namespace Zmtp

/-! ### The bytes a call has received -/

/-- The bytes that `tcp_recv`, asked for `len` bytes, has received when it returns or
stops. -/
def receivedBytes (len : ℕ) : ℕ → Socket → List UInt8
  | 0, _ => []
  | fuel + 1, sock =>
    if 0 < len then
      match recv sock len with
      | .error _ => []
      | .ok (bytes, sock) => bytes ++ receivedBytes (len - bytes.length) fuel sock
    else
      []

/-- The bytes behind the length that `zmtp_recv` has received when it returns or stops.
They are stored as the flags byte and the data. -/
def zmtpRecvReceived (fuel : ℕ) (sock : Socket) (msg : ZmtpMsg) : List UInt8 :=
  match recvLength fuel sock msg.size with
  | .error _ => []
  | .ok (size, sock) =>
    receivedBytes 1 fuel sock ++
      match tcpRecvByte fuel sock msg.flags with
      | .error _ => []
      | .ok (_, sock) => receivedBytes (size - 1).toNat fuel sock

theorem receivedBytes_isPrefix (len fuel : ℕ) (sock : Socket) :
    receivedBytes len fuel sock <+: sock.stream.contents := by
  induction fuel generalizing len sock with
  | zero => exact List.nil_prefix
  | succ fuel ih =>
    rw [receivedBytes]
    split
    · cases hrecv : recv sock len with
      | error e => exact List.nil_prefix
      | ok r =>
        obtain ⟨bytes, sock'⟩ := r
        rw [(of_recv_eq_ok hrecv).1]
        exact (List.prefix_append_right_inj bytes).mpr (ih _ sock')
    · exact List.nil_prefix

/-- **With enough calls of `recv`, it has received what there is.** -/
theorem receivedBytes_eq_take {len fuel : ℕ} (hfuel : len ≤ fuel) (sock : Socket) :
    receivedBytes len fuel sock = sock.stream.contents.take len := by
  induction fuel generalizing len sock with
  | zero =>
    obtain rfl := Nat.le_zero.mp hfuel
    rfl
  | succ fuel ih =>
    rcases Nat.eq_zero_or_pos len with rfl | hpos
    · rfl
    · rw [receivedBytes, if_pos hpos]
      by_cases hnil : sock.stream.contents = []
      · -- nothing comes any more
        have hpre := receivedBytes_isPrefix len (fuel + 1) sock
        rw [receivedBytes, if_pos hpos, hnil, List.prefix_nil] at hpre
        rw [hpre, hnil, List.take_nil]
      · obtain ⟨bytes, sock', hrecv, hbytes, hle, hcontents, -⟩ := recv_of_ne_nil hpos hnil
        simp only [hrecv]
        rw [ih (by omega), hcontents, List.take_append, List.take_of_length_le hle]

/-- A call that returns has received what it was asked for. -/
theorem length_receivedBytes_of_eq_ok {n len : ℕ} {fuel : ℕ} {sock sock' : Socket}
    {buffer buffer' : List.Vector UInt8 n} {lenRecd : ℕ} (hle : lenRecd ≤ len)
    (h : tcpRecvLoop len fuel sock buffer lenRecd = .ok (buffer', sock')) :
    (receivedBytes (len - lenRecd) fuel sock).length = len - lenRecd := by
  induction fuel generalizing sock buffer lenRecd with
  | zero =>
    rw [tcpRecvLoop] at h
    split at h
    · cases h
    · rw [receivedBytes, List.length_nil]
      omega
  | succ fuel ih =>
    rw [tcpRecvLoop] at h
    split at h
    · next hlt =>
      rw [receivedBytes, if_pos (by omega)]
      cases hrecv : recv sock (len - lenRecd) with
      | error e =>
        rw [hrecv] at h
        cases h
      | ok r =>
        obtain ⟨bytes, sock₁⟩ := r
        obtain ⟨-, hbytes⟩ := of_recv_eq_ok hrecv
        rw [hrecv] at h
        cases hstore : store buffer lenRecd bytes with
        | error e => simp [bind, Except.bind, hstore] at h
        | ok buffer₁ =>
          have hrest : tcpRecvLoop len fuel sock₁ buffer₁ (lenRecd + bytes.length) =
              .ok (buffer', sock') := by
            simpa [bind, Except.bind, hstore] using h
          have hlen := ih (by omega) hrest
          rw [Nat.sub_add_eq] at hlen
          rw [List.length_append, hlen]
          omega
    · next hlt =>
      obtain rfl : lenRecd = len := by omega
      rw [Nat.sub_self]
      rfl

/-- `tcp_recv` stores what it receives. -/
theorem receivedBytes_of_eq_ok {n len : ℕ} (hlen : len ≤ n) {fuel : ℕ} {sock sock' : Socket}
    {buffer buffer' : List.Vector UInt8 n}
    (h : tcpRecv fuel sock buffer len = .ok (buffer', sock')) :
    receivedBytes len fuel sock = buffer'.toList.take len := by
  have htakes := tcpRecv_takes hlen fuel sock buffer
  rw [h] at htakes
  obtain ⟨bs, hbs, hcontents, -, hbuffer⟩ := htakes.of_eq_ok
  have hreceived := length_receivedBytes_of_eq_ok len.zero_le h
  rw [Nat.sub_zero] at hreceived
  -- both are the first bytes of the stream
  obtain ⟨rest, hrest⟩ := receivedBytes_isPrefix len fuel sock
  obtain ⟨heq, -⟩ := List.append_inj (hrest.trans hcontents) (hreceived.trans hbs.symm)
  rw [heq, hbuffer, List.take_left' hbs]

theorem receivedBytes_one_of_eq_ok {fuel : ℕ} {sock sock' : Socket} {old b : UInt8}
    (h : tcpRecvByte fuel sock old = .ok (b, sock')) : receivedBytes 1 fuel sock = [b] := by
  rw [tcpRecvByte] at h
  cases hrecv : tcpRecv fuel sock (n := 1) ⟨[old], rfl⟩ 1 with
  | error e =>
    rw [hrecv] at h
    cases h
  | ok r =>
    obtain ⟨⟨l, hl⟩, sock₁⟩ := r
    rw [hrecv] at h
    obtain ⟨a, rfl⟩ := List.length_eq_one_iff.mp hl
    obtain ⟨rfl, rfl⟩ := Prod.mk.inj (Except.ok.inj h)
    exact receivedBytes_of_eq_ok (Nat.le_refl 1) hrecv

@[simp] theorem receivedBytes_zero (fuel : ℕ) (sock : Socket) : receivedBytes 0 fuel sock = [] := by
  cases fuel <;> rfl

/-- **What is received is in the message object**, when the call returns. -/
theorem zmtpRecvReceived_of_eq_ok {fuel : ℕ} {sock sock' : Socket} {msg msg' : ZmtpMsg}
    (h : zmtpRecv fuel sock msg = .ok (msg', sock')) :
    zmtpRecvReceived fuel sock msg = msg'.flags :: msg'.content := by
  rw [zmtpRecv] at h
  rw [zmtpRecvReceived]
  cases hlength : recvLength fuel sock msg.size with
  | error e =>
    rw [hlength] at h
    cases h
  | ok r =>
    obtain ⟨size, sock₁⟩ := r
    rw [hlength] at h
    cases hflags : tcpRecvByte fuel sock₁ msg.flags with
    | error e => simp [bind, Except.bind, hflags] at h
    | ok r =>
      obtain ⟨flags, sock₂⟩ := r
      simp only [hflags]
      rw [receivedBytes_one_of_eq_ok hflags, List.singleton_append]
      by_cases hzero : size - 1 = 0
      · -- there are no data
        have hmsg : (⟨size - 1, flags, msg.data⟩, sock₂) = (msg', sock') := by
          simpa [bind, Except.bind, hflags, hzero, pure, Except.pure] using h
        obtain ⟨rfl, rfl⟩ := Prod.mk.inj hmsg
        simp [hzero, ZmtpMsg.content]
      · cases hdata : tcpRecv fuel sock₂ msg.data (size - 1).toNat with
        | error e => simp [bind, Except.bind, hflags, hzero, hdata] at h
        | ok r =>
          obtain ⟨data, sock₃⟩ := r
          have hmsg : (⟨size - 1, flags, data⟩, sock₃) = (msg', sock') := by
            simpa [bind, Except.bind, hflags, hzero, hdata, pure, Except.pure] using h
          obtain ⟨rfl, rfl⟩ := Prod.mk.inj hmsg
          have hle : (size - 1).toNat ≤ 255 := Nat.le_of_lt_succ (size - 1).toNat_lt
          rw [receivedBytes_of_eq_ok hle hdata]
          rfl

/-! ### Lengths that do not fit -/

/-- A length field with a length a message object cannot hold. -/
inductive OutOfRange : List UInt8 → ℕ → Prop
  /-- One byte, which is zero. -/
  | short : OutOfRange [0] 0
  /-- The escape byte and eight bytes. -/
  | escaped (L : ℕ) (hL : L < 2 ^ 64) (h : L = 0 ∨ 256 < L) : OutOfRange (255 :: bigEndian 8 L) L

/-- The number of bytes that are taken for a length. -/
def taken (L : ℕ) : ℕ := (L + 255) % 256 + 1

/-- What is taken is never what was announced. -/
theorem OutOfRange.taken_ne {field : List UInt8} {L : ℕ} (h : OutOfRange field L) :
    taken L ≠ L := by
  unfold taken
  cases h with
  | short => decide
  | escaped _ _ h => omega

/-- The first byte tells how long the field is. -/
theorem OutOfRange.length_eq {field : List UInt8} {L : ℕ} (h : OutOfRange field L)
    (body : List UInt8) : field.length = lengthBytes (field ++ body) := by
  cases h with
  | short => rfl
  | escaped L _ _ =>
    rw [List.length_cons, length_bigEndian]
    rfl

/-- **What `zmtp_recv` asks for behind such a length field.** -/
theorem OutOfRange.demand_eq {field : List UInt8} {L : ℕ} (h : OutOfRange field L)
    (body : List UInt8) : demand (field ++ body) = field.length + taken L := by
  have hlast : field.getLast? = some (UInt8.ofNat L) := by
    cases h with
    | short => rfl
    | escaped L _ _ => exact getLast?_bigEndian 255 7 L
  have hlen := h.length_eq body
  have hkept := keptSize_eq hlen rfl hlast
  rw [toNat_ofNat_sub_one_eq] at hkept
  rw [demand, ← hlen, hkept, taken]
  omega

section Body

variable {field body : List UInt8} {L : ℕ} {sock : Socket} {msg : ZmtpMsg}

/-- A call that returns has taken another number of bytes. -/
theorem OutOfRange.length_body_eq (h : OutOfRange field L)
    (hsock : sock.stream.contents = field ++ body) {fuel : ℕ} {msg' : ZmtpMsg} {sock' : Socket}
    (hok : zmtpRecv fuel sock msg = .ok (msg', sock')) :
    body.length = taken L + sock'.stream.contents.length := by
  have htakes := zmtpRecv_takes fuel sock msg
  rw [hok] at htakes
  obtain ⟨bs, hbs, hcontents, -, -⟩ := htakes.of_eq_ok
  rw [hsock, h.demand_eq] at hbs
  have htotal := congrArg List.length (hsock.symm.trans hcontents)
  rw [List.length_append, List.length_append, hbs] at htotal
  omega

/-- A call returns as soon as there are bytes enough. -/
theorem OutOfRange.exists_eq_ok (h : OutOfRange field L)
    (hsock : sock.stream.contents = field ++ body) (msg : ZmtpMsg) (hlen : taken L ≤ body.length) :
    ∃ fuel msg' sock', zmtpRecv fuel sock msg = .ok (msg', sock') := by
  have htakes := zmtpRecv_takes 255 sock msg
  refine ⟨255, htakes.exists_eq_ok (Nat.le_refl 255) ?_⟩
  rw [hsock, h.demand_eq, List.length_append]
  omega

/-- A call reports an error exactly if the connection fails before there are bytes enough. -/
theorem OutOfRange.exists_eq_recvFailed_iff (h : OutOfRange field L)
    (hsock : sock.stream.contents = field ++ body) (msg : ZmtpMsg) :
    (∃ fuel, zmtpRecv fuel sock msg = .error .recvFailed) ↔
      sock.ending = .fails ∧ body.length < taken L := by
  have hdemand : sock.stream.contents.length < demand sock.stream.contents ↔
      body.length < taken L := by
    rw [hsock, h.demand_eq, List.length_append]
    omega
  rw [← hdemand]
  constructor
  · intro hfailed
    obtain ⟨fuel, hfailed⟩ := hfailed
    have htakes := zmtpRecv_takes fuel sock msg
    rw [hfailed] at htakes
    exact htakes.of_eq_recvFailed.symm
  · intro hfails
    obtain ⟨hfails, hlt⟩ := hfails
    have herror := (zmtpRecv_takes 255 sock msg).eq_error (Nat.le_refl 255) hlt
    rw [hfails] at herror
    exact ⟨255, herror⟩

/-- Behind the length, the call is at the body. -/
theorem OutOfRange.recvLength_eq (h : OutOfRange field L)
    (hsock : sock.stream.contents = field ++ body) {fuel : ℕ} {old size : UInt8} {sock' : Socket}
    (hok : recvLength fuel sock old = .ok (size, sock')) :
    sock'.stream.contents = body ∧ 1 + (size - 1).toNat = taken L := by
  have htakes := recvLength_takes fuel sock old
  rw [hok] at htakes
  obtain ⟨bs, hbs, hcontents, -, hlast⟩ := htakes.of_eq_ok
  have hdemand := h.demand_eq body
  rw [← hsock, demand, keptSize_eq hbs hcontents hlast] at hdemand
  have hfield : field.length = lengthBytes sock.stream.contents := by
    rw [hsock]
    exact h.length_eq body
  obtain ⟨-, hbody⟩ := List.append_inj (hcontents.symm.trans hsock) (hbs.trans hfield.symm)
  exact ⟨hbody, by omega⟩

/-- What a call has received behind the length is the start of the body. -/
theorem OutOfRange.received_isPrefix (h : OutOfRange field L)
    (hsock : sock.stream.contents = field ++ body) (fuel : ℕ) (msg : ZmtpMsg) :
    zmtpRecvReceived fuel sock msg <+: body := by
  rw [zmtpRecvReceived]
  cases hlength : recvLength fuel sock msg.size with
  | error e => exact List.nil_prefix
  | ok r =>
    obtain ⟨size, sock₁⟩ := r
    obtain ⟨rfl, -⟩ := h.recvLength_eq hsock hlength
    cases hflags : tcpRecvByte fuel sock₁ msg.flags with
    | error e =>
      simp only [hflags, List.append_nil]
      exact receivedBytes_isPrefix 1 fuel sock₁
    | ok r =>
      obtain ⟨flags, sock₂⟩ := r
      have htakes := tcpRecvByte_takes fuel sock₁ msg.flags
      rw [hflags] at htakes
      obtain ⟨bs, -, hcontents, -, hbs⟩ := htakes.of_eq_ok
      simp only [hflags]
      rw [receivedBytes_one_of_eq_ok hflags, hcontents, hbs]
      exact (List.prefix_append_right_inj [flags]).mpr (receivedBytes_isPrefix _ fuel sock₂)

/-- **What a call has received behind the length**: as much of the body as it takes for the
frame. -/
theorem OutOfRange.received_eq (h : OutOfRange field L)
    (hsock : sock.stream.contents = field ++ body) (msg : ZmtpMsg) :
    zmtpRecvReceived 255 sock msg = body.take (taken L) := by
  have hlength := recvLength_takes 255 sock msg.size
  have hfield : field.length = lengthBytes sock.stream.contents := by
    rw [hsock]
    exact h.length_eq body
  obtain ⟨size, sock₁, hok, -, -, -⟩ := hlength.exists_of_append (by decide) hfield hsock
  obtain ⟨hbody, hkept⟩ := h.recvLength_eq hsock hok
  rw [zmtpRecvReceived, hok, ← hkept]
  simp only
  have hone : receivedBytes 1 255 sock₁ = body.take 1 := by
    rw [receivedBytes_eq_take (by decide), hbody]
  cases body with
  | nil =>
    -- not even the flags byte is there
    have hshort : sock₁.stream.contents.length < 1 := by
      rw [hbody]
      decide
    rw [hone]
    cases hflags : tcpRecvByte 255 sock₁ msg.flags with
    | error e => simp
    | ok r =>
      have htakes := tcpRecvByte_takes 255 sock₁ msg.flags
      rw [hflags] at htakes
      obtain ⟨bs, hbs, hcontents, -, -⟩ := htakes.of_eq_ok
      rw [hcontents, List.length_append] at hshort
      omega
  | cons b body =>
    obtain ⟨sock₂, hflags, hrest, -⟩ := tcpRecvByte_eq_ok (Nat.succ_pos 254) msg.flags hbody
    have hle : (size - 1).toNat ≤ 255 := Nat.le_of_lt_succ (size - 1).toNat_lt
    rw [hone, hflags]
    simp only
    rw [receivedBytes_eq_take hle, hrest, Nat.add_comm 1, List.take_succ_cons]
    rfl

/-- **A call keeps to the frame** that has `L` bytes behind its length field, if `body` is
what arrives there: it returns only with these bytes consumed, and, returned or not, it
takes no byte behind them for the flags byte or the data. -/
structure KeepsToFrame (L : ℕ) (body : List UInt8) (sock : Socket) (msg : ZmtpMsg) : Prop where
  /-- If it returns, it has consumed the frame. -/
  returns : ∀ fuel msg' sock', zmtpRecv fuel sock msg = .ok (msg', sock') →
    body.length = L + sock'.stream.contents.length
  /-- It receives bytes of the frame only. -/
  own : ∀ fuel, (zmtpRecvReceived fuel sock msg).length ≤ L

/-- **A call respects the length**: it keeps to the frame, and it consumes it or reports an
error. -/
structure Respects (L : ℕ) (body : List UInt8) (sock : Socket) (msg : ZmtpMsg) : Prop
    extends KeepsToFrame L body sock msg where
  /-- It comes to an end. -/
  ends : ∃ fuel, (∃ msg' sock', zmtpRecv fuel sock msg = .ok (msg', sock')) ∨
    zmtpRecv fuel sock msg = .error .recvFailed

/-- **It keeps to the frame as long as it has too few bytes of it.** -/
theorem OutOfRange.keepsToFrame_iff (h : OutOfRange field L)
    (hsock : sock.stream.contents = field ++ body) (msg : ZmtpMsg) :
    KeepsToFrame L body sock msg ↔ body.length < taken L ∧ body.length ≤ L := by
  constructor
  · intro hkeeps
    have hlt : body.length < taken L := by
      by_contra hlen
      obtain ⟨fuel, msg', sock', hok⟩ := h.exists_eq_ok hsock msg (Nat.le_of_not_lt hlen)
      have hannounced := hkeeps.returns fuel msg' sock' hok
      have htaken := h.length_body_eq hsock hok
      exact h.taken_ne (by omega)
    have hown := hkeeps.own 255
    rw [h.received_eq hsock, List.take_of_length_le (Nat.le_of_lt hlt)] at hown
    exact ⟨hlt, hown⟩
  · intro hlen
    refine ⟨?_, ?_⟩
    · intro fuel msg' sock' hok
      -- the call would have taken bytes that are not there
      have htaken := h.length_body_eq hsock hok
      omega
    · intro fuel
      exact Nat.le_trans (h.received_isPrefix hsock fuel msg).length_le hlen.2

/-- **The length is respected only by failing.**  Behind a length field with a length `L` that
a message object cannot hold, `zmtp_recv` keeps to the frame if and only if fewer than
`(L - 1) % 256 + 1` bytes follow (256 for `L = 0`) and no more than `L`.  It never consumes
the frame; so it respects the length if and only if, behind so few bytes, the connection
fails.  If it does not, the call waits, or goes on for ever. -/
theorem length_respected_iff (h : OutOfRange field L)
    (hsock : sock.stream.contents = field ++ body) (msg : ZmtpMsg) :
    (Respects L body sock msg ↔
      sock.ending = .fails ∧ body.length < taken L ∧ body.length ≤ L) ∧
    (KeepsToFrame L body sock msg ↔ body.length < taken L ∧ body.length ≤ L) := by
  have hkeeps := h.keepsToFrame_iff hsock msg
  refine ⟨?_, hkeeps⟩
  constructor
  · intro hrespects
    obtain ⟨hlt, hle⟩ := hkeeps.mp hrespects.toKeepsToFrame
    obtain ⟨fuel, ⟨msg', sock', hok⟩ | hfailed⟩ := hrespects.ends
    · have htaken := h.length_body_eq hsock hok
      omega
    · obtain ⟨hfails, -⟩ := (h.exists_eq_recvFailed_iff hsock msg).mp ⟨fuel, hfailed⟩
      exact ⟨hfails, hlt, hle⟩
  · intro hcond
    obtain ⟨hfails, hlen⟩ := hcond
    obtain ⟨fuel, hfailed⟩ := (h.exists_eq_recvFailed_iff hsock msg).mpr ⟨hfails, hlen.1⟩
    exact ⟨hkeeps.mpr hlen, fuel, Or.inr hfailed⟩

end Body

/-- A message object. -/
def blank : ZmtpMsg := ⟨1, 0, List.Vector.replicate 255 0⟩

/-- A connection that fails behind a length field of 257. -/
def failing : Socket := ⟨⟨[255 :: bigEndian 8 257], by decide⟩, .fails⟩

/-- The call reports the error. -/
theorem length_respected_iff_failing :
    failing.stream.contents = (255 :: bigEndian 8 257) ++ [] ∧ Respects 257 [] failing blank := by
  have hcontents : failing.stream.contents = (255 :: bigEndian 8 257) ++ [] := rfl
  have hrange : OutOfRange (255 :: bigEndian 8 257) 257 := .escaped 257 (by decide) (by decide)
  refine ⟨hcontents, (length_respected_iff hrange hcontents blank).1.mpr ⟨rfl, ?_, ?_⟩⟩ <;> decide

/-- An escaped length of 257, and a frame of this length. -/
def longFrame : Socket :=
  ⟨⟨[255 :: bigEndian 8 257, List.replicate 257 7], by decide⟩, .blocks⟩

theorem contents_longFrame :
    longFrame.stream.contents = (255 :: bigEndian 8 257) ++ List.replicate 257 7 := by
  show (255 :: bigEndian 8 257) ++ (List.replicate 257 7 ++ []) = _
  rw [List.append_nil]

/-- A frame of length zero, and a frame with one byte of data. -/
def zeroFrame : Socket := ⟨⟨[[0], [2, 0, 65]], by decide⟩, .blocks⟩

/-- **A frame of length 257 is taken for one of length 1**, and what comes next is the rest
of its data.  Behind a length of zero the next frame is taken for data, and the call
waits. -/
theorem longFrame_taken_apart :
    (∃ fuel msg' sock', zmtpRecv fuel longFrame blank = .ok (msg', sock') ∧
      sock'.stream.contents = List.replicate 256 7) ∧
    ¬ Respects 257 (List.replicate 257 7) longFrame blank ∧
    zmtpRecvReceived 255 zeroFrame blank = [2, 0, 65] ∧
    zmtpRecv 255 zeroFrame blank = .error .waiting ∧
    ¬ Respects 0 [2, 0, 65] zeroFrame blank := by
  have hrange : OutOfRange (255 :: bigEndian 8 257) 257 := .escaped 257 (by decide) (by decide)
  have hlen : taken 257 ≤ (List.replicate 257 (7 : UInt8)).length := by
    rw [List.length_replicate]
    decide
  obtain ⟨fuel, msg', sock', hok⟩ := hrange.exists_eq_ok contents_longFrame blank hlen
  have hzero : zeroFrame.stream.contents = [0] ++ [2, 0, 65] := rfl
  have hshort : zmtpRecvReceived 255 zeroFrame blank = [2, 0, 65] :=
    OutOfRange.short.received_eq hzero blank
  have hwaits : zmtpRecv 255 zeroFrame blank = .error .waiting :=
    (zmtpRecv_takes 255 zeroFrame blank).eq_error (Nat.le_refl 255) (by decide)
  refine ⟨⟨fuel, msg', sock', hok, ?_⟩, ?_, hshort, hwaits, ?_⟩
  · have htakes := zmtpRecv_takes fuel longFrame blank
    rw [hok] at htakes
    obtain ⟨bs, hbs, hcontents, -, -⟩ := htakes.of_eq_ok
    rw [contents_longFrame, hrange.demand_eq] at hbs
    -- the length field and the flags byte are gone
    have hdrop := congrArg (List.drop bs.length) hcontents
    rw [List.drop_left, hbs, contents_longFrame] at hdrop
    exact hdrop.symm
  · intro h
    have hannounced := h.returns fuel msg' sock' hok
    have htaken := hrange.length_body_eq contents_longFrame hok
    exact hrange.taken_ne (by omega)
  · intro h
    have hown := h.own 255
    rw [hshort] at hown
    exact absurd hown (by decide)

end Zmtp
end ZmqIssues
