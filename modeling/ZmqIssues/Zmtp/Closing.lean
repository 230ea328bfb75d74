import ZmqIssues.Zmtp.Receive

/-!
# The end of the stream

When the peer has closed the connection, `recv` returns 0.  `tcp_recv` adds this to the
number of bytes it has received and calls `recv` again, so that a call that asks for more
bytes than are left never finishes, and neither does the program: whatever the stream, the
loop of `main` comes to such a call.

## Main results

* `zmtpRecvs_unfinished` — the loop of `main` comes to a call that does not finish.
* `finishes_iff` — **a call finishes exactly if the bytes it asks for are left.**
-/

namespace ZmqIssues
namespace Zmtp

variable {α : Type}

/-- A call on a connection the peer closes finishes exactly if there are enough bytes. -/
theorem Takes.returns_iff {enough : ℕ → Prop} {d : ℕ} {R : List UInt8 → α → Prop} {sock : Socket}
    {call : ℕ → Except Stop (α × Socket)} (h : ∀ fuel, Takes (enough fuel) d R sock (call fuel))
    (hclosed : sock.ending = .closed) {fuel₀ : ℕ} (hfuel₀ : enough fuel₀) :
    (∃ fuel, call fuel ≠ .error .unfinished) ↔ d ≤ sock.stream.contents.length := by
  constructor
  · intro hfinishes
    obtain ⟨fuel, hne⟩ := hfinishes
    by_contra hlt
    exact hne ((h fuel).eq_unfinished hclosed (Nat.lt_of_not_le hlt))
  · intro hle
    obtain ⟨a, sock', hok⟩ := (h fuel₀).exists_eq_ok hfuel₀ hle
    refine ⟨fuel₀, ?_⟩
    rw [hok]
    intro herror
    cases herror

/-- Every call of `zmtp_recv` asks for two bytes at least. -/
theorem two_le_demand (contents : List UInt8) : 2 ≤ demand contents := by
  have hone : 1 ≤ lengthBytes contents := by
    unfold lengthBytes
    split <;> decide
  unfold demand
  omega

/-- **The loop of `main` comes to a call that does not finish.** -/
theorem zmtpRecvs_unfinished (fuel : ℕ) {n : ℕ} {sock : Socket} (hclosed : sock.ending = .closed)
    (hn : sock.stream.contents.length < n) (msg : ZmtpMsg) :
    zmtpRecvs fuel n sock msg = .error .unfinished := by
  induction n generalizing sock msg with
  | zero => exact absurd hn (Nat.not_lt_zero _)
  | succ n ih =>
    have htakes := zmtpRecv_takes fuel sock msg
    unfold zmtpRecvs
    rcases Nat.lt_or_ge sock.stream.contents.length (demand sock.stream.contents) with hlt | hge
    · rw [htakes.eq_unfinished hclosed hlt]
      rfl
    · generalize zmtpRecv fuel sock msg = r at htakes
      cases htakes with
      | @returns msg' sock' bs hlen hcontents hending _ =>
        -- this call has taken some bytes
        have htwo := two_le_demand sock.stream.contents
        have hrest : sock'.stream.contents.length < n := by
          have := congrArg List.length hcontents
          rw [List.length_append] at this
          omega
        have hrec := ih (hending.trans hclosed) hrest msg'
        show (zmtpRecvs fuel n sock' msg' >>= _) = _
        rw [hrec]
        rfl
      | unfinished _ => rfl
      | waiting hlt _ => omega
      | failed hlt _ => omega

/-- **A call finishes exactly if the bytes it asks for are left.**  On a connection the peer
closes, `tcp_recv` finishes after finitely many `recv` calls if and only if it asks for no
more bytes than there are, and `zmtp_recv` if and only if the length, the flags byte and
the data are there, as it counts them. -/
theorem finishes_iff {sock : Socket} (hclosed : sock.ending = .closed) :
    (∀ {n : ℕ} (buffer : List.Vector UInt8 n) (len : ℕ), len ≤ n →
      ((∃ fuel, tcpRecv fuel sock buffer len ≠ .error .unfinished) ↔
        len ≤ sock.stream.contents.length)) ∧
    ∀ msg, (∃ fuel, zmtpRecv fuel sock msg ≠ .error .unfinished) ↔
      demand sock.stream.contents ≤ sock.stream.contents.length := by
  constructor
  · intro n buffer len hlen
    exact Takes.returns_iff (fun fuel => tcpRecv_takes hlen fuel sock buffer) hclosed
      (Nat.le_refl len)
  · intro msg
    exact Takes.returns_iff (fun fuel => zmtpRecv_takes fuel sock msg) hclosed (Nat.le_refl 255)

/-- The peer sends some bytes in one piece, and closes the connection. -/
def closing (data : List UInt8) (hne : data ≠ []) : Socket :=
  ⟨⟨[data], by simpa using hne⟩, .closed⟩

/-- A whole frame is received from it. -/
theorem finishes_iff_wholeFrame :
    ∃ fuel, zmtpRecv fuel (closing [2, 0, 7] (by decide)) ⟨1, 0, List.Vector.replicate 255 0⟩ ≠
      .error .unfinished :=
  have hclosed : (closing [2, 0, 7] (by decide)).ending = .closed := rfl
  ((finishes_iff hclosed).2 _).mpr (by decide)

/-- **The end of the stream is not noticed.**  The peer closes the connection inside a frame,
or without having sent anything. -/
theorem zmtpRecv_never_finishes :
    (∀ fuel, zmtpRecv fuel (closing [2, 0] (by decide)) ⟨1, 0, List.Vector.replicate 255 0⟩ =
      .error .unfinished) ∧
    ∀ fuel, zmtpRecv fuel ⟨⟨[], by decide⟩, .closed⟩ ⟨1, 0, List.Vector.replicate 255 0⟩ =
      .error .unfinished := by
  constructor
  · intro fuel
    exact (zmtpRecv_takes fuel _ _).eq_unfinished rfl (by decide)
  · intro fuel
    exact (zmtpRecv_takes fuel _ _).eq_unfinished rfl (by decide)

end Zmtp
end ZmqIssues
