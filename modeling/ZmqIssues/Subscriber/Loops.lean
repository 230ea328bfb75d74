import ZmqIssues.Lib.Reader

/-!
# The publisher and the subscriber of issue 191

The publisher sends messages of three parts for ever: 5 bytes and 4 bytes with
more to follow, and 1000 bytes.  The subscriber receives three parts in each
round of its loop and asserts, for each of them, its size and its more flag.

The sizes and flags are all the subscriber looks at, so a part is modelled by
these; the parts the publisher sends also carry the number of the send iteration
they come from, which no subscriber sees.

## Main definitions

* `emit n` — the parts of the first `n` send iterations.
* `receiveRound` — one round of the subscriber's loop.
-/

namespace ZmqIssues
namespace Subscriber

open Reader

/-- A part as the subscriber sees it. -/
structure Part where
  /-- `zmq_msg_size`. -/
  size : ℕ
  /-- Does another part of the message follow? -/
  more : Bool
  deriving DecidableEq, Repr

/-- A part with the send iteration it comes from. -/
structure Sent where
  /-- Number of the send iteration. -/
  iteration : ℕ
  /-- What is sent. -/
  part : Part
  deriving DecidableEq, Repr

/-! ### The publisher -/

/-- `zmq_msg_init_size (&msg, 5)`, sent with `ZMQ_SNDMORE`. -/
def topicPart : Part := ⟨5, true⟩

/-- `zmq_msg_init_size (&msg, 4)`, sent with `ZMQ_SNDMORE`. -/
def seqPart : Part := ⟨4, true⟩

/-- `zmq_msg_init_size (&msg, 1000)`, sent as the last part. -/
def bodyPart : Part := ⟨1000, false⟩

/-- One send iteration. -/
def emitOnce (i : ℕ) : List Sent := [⟨i, topicPart⟩, ⟨i, seqPart⟩, ⟨i, bodyPart⟩]

/-- The first `n` send iterations. -/
def emit (n : ℕ) : List Sent := (List.range n).flatMap emitOnce

/-! ### The subscriber -/

/-- Why the subscriber stops. -/
inductive Stop
  /-- It waits for a part. -/
  | blocked
  /-- `assert (zmq_msg_size (&msg) == size)` failed. -/
  | sizeAssert (size : ℕ)
  /-- The assertion on the more flag failed. -/
  | moreAssert (more : Bool)
  deriving DecidableEq, Repr

/-- `zsockopt_rcvmore`: do more parts of the message of the part last received follow? -/
def zsockoptRcvmore (p : Part) : Bool := p.more

/-- Receive a part and assert its size and its more flag. -/
def receivePart (size : ℕ) (more : Bool) (q : List Part) : Except Stop (List Part) := do
  let (msg, q) ← next .blocked q
  check (msg.size == size) (.sizeAssert size)
  check (zsockoptRcvmore msg == more) (.moreAssert more)
  return q

/-- One round of the subscriber's loop. -/
def receiveRound (q : List Part) : Except Stop (List Part) := do
  let q ← receivePart 5 true q
  let q ← receivePart 4 true q
  receivePart 1000 false q

theorem receivePart_eq_ok {size : ℕ} {more : Bool} {q r : List Part} :
    receivePart size more q = .ok r ↔ q = ⟨size, more⟩ :: r := by
  simp only [receivePart, bind_eq_ok, check_eq_ok, Prod.exists, next_eq_ok, beq_iff_eq,
    zsockoptRcvmore]
  constructor
  · intro h
    obtain ⟨⟨s, m⟩, q, rfl, -, rfl, -, rfl, h⟩ := h
    obtain rfl : q = r := Except.ok.inj h
    rfl
  · intro h
    subst h
    exact ⟨⟨size, more⟩, r, rfl, (), rfl, (), rfl, rfl⟩

/-- A round accepts just the three parts of a send iteration. -/
theorem receiveRound_eq_ok {q r : List Part} :
    receiveRound q = .ok r ↔ ∃ g, g = [topicPart, seqPart, bodyPart] ∧ q = g ++ r := by
  simp only [receiveRound, bind_eq_ok, receivePart_eq_ok]
  constructor
  · intro h
    obtain ⟨_, rfl, _, rfl, rfl⟩ := h
    exact ⟨_, rfl, rfl⟩
  · intro h
    obtain ⟨_, rfl, rfl⟩ := h
    exact ⟨_, rfl, _, rfl, rfl⟩

end Subscriber
end ZmqIssues
