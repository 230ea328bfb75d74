import ZmqIssues.Dist.Fanout
import ZmqIssues.Dist.Pipes
import ZmqIssues.Lib.Machine

/-!
# The distributor of a PUB socket

`zmq::dist_t` hands every part of a message to all outbound pipes.  The patch for
issue 191 gives it two counters over one array: the pipes before `active` get the
next part, and the pipes before `eligible` get the next message.  A pipe that is
attached or becomes writable between two parts of a message is put behind `active`
and before `eligible`, and joins when the message ends.

The callbacks arrive in any order between the parts, so the distributor is
studied in a `World` that also holds what the environment knows — which pipes
have refused a part and were not reactivated since — and the ledger of what was
sent and of what every pipe has accepted.

## Main definitions

* `DistT` — `dist_t` after the patch, with `attach`, `terminated`, `activated`
  and `send`.
* `Event` — one call into the distributor.
* `step` — one event in a world, when the environment can produce it.
-/

namespace ZmqIssues
namespace PubDist

open List

variable {α β : Type*}

/-! ### The distributor -/

/-- What a distributor asks of its pipes and of the socket that owns it. -/
inductive Call (α : Type*)
  /-- `pipe_->set_event_sink (this)`. -/
  | setEventSink (p : α)
  /-- `sink->register_term_acks (n)`. -/
  | registerTermAcks (n : ℕ)
  /-- `pipe_->terminate ()`. -/
  | terminate (p : α)
  /-- `sink->unregister_term_ack ()`. -/
  | unregisterTermAck
  deriving DecidableEq, Repr

/-- `dist_t`. -/
structure DistT (α : Type*) where
  /-- List of outbound pipes. -/
  pipes : PipeArray α
  /-- Number of active pipes, all at the beginning of the array: the pipes the
  messages can be sent to at the moment. -/
  active : ℕ
  /-- Number of pipes eligible for sending messages to: the active ones, and those
  to which sending now would deliver a message with initial parts missing. -/
  eligible : ℕ
  /-- Are we in the middle of a multipart message? -/
  more : Bool
  /-- Is the distributor shutting down? -/
  terminating : Bool
  /-- The calls it has made, oldest first. -/
  calls : List (Call α)
  deriving Repr

namespace DistT

/-- The constructor. -/
def init : DistT α := ⟨.empty, 0, 0, false, false, []⟩

/-- `attach`. -/
def attach (d : DistT α) (p : α) : DistT α :=
  let d := { d with calls := d.calls ++ [Call.setEventSink p] }
  let pipes := d.pipes.pushBack p
  let d :=
    if d.more then
      { d with
        pipes := pipes.swap d.eligible (pipes.size - 1), eligible := d.eligible + 1 }
    else
      { d with
        pipes := pipes.swap d.active (pipes.size - 1), active := d.active + 1,
        eligible := d.eligible + 1 }
  if d.terminating then
    { d with calls := d.calls ++ [Call.registerTermAcks 1, Call.terminate p] }
  else d

@[simp] theorem more_attach (d : DistT α) (p : α) : (d.attach p).more = d.more := by
  unfold attach; cases d.more <;> cases d.terminating <;> rfl

@[simp] theorem active_attach (d : DistT α) (p : α) :
    (d.attach p).active = if d.more then d.active else d.active + 1 := by
  unfold attach; cases d.more <;> cases d.terminating <;> rfl

@[simp] theorem eligible_attach (d : DistT α) (p : α) :
    (d.attach p).eligible = d.eligible + 1 := by
  unfold attach; cases d.more <;> cases d.terminating <;> rfl

theorem pipes_attach (d : DistT α) (p : α) :
    (d.attach p).pipes
      = (d.pipes.pushBack p).swap (if d.more then d.eligible else d.active) d.pipes.size := by
  unfold attach; cases d.more <;> cases d.terminating <;> simp

variable [DecidableEq α]

/-- `terminated`. -/
def terminated (d : DistT α) (p : α) : DistT α :=
  let d := if d.pipes.index p < d.active then { d with active := d.active - 1 } else d
  let d := if d.pipes.index p < d.eligible then { d with eligible := d.eligible - 1 } else d
  let d := { d with pipes := d.pipes.erase p }
  if d.terminating then { d with calls := d.calls ++ [Call.unregisterTermAck] } else d

/-- `activated`. -/
def activated (d : DistT α) (p : α) : DistT α :=
  if d.more then
    { d with pipes := d.pipes.swap (d.pipes.index p) d.eligible, eligible := d.eligible + 1 }
  else
    { d with
      pipes := d.pipes.swap (d.pipes.index p) d.active, active := d.active + 1,
      eligible := d.eligible + 1 }

/-- The distribution `send` starts with. -/
def offers (d : DistT α) (refuses : α → Bool) : Sending α := distribute refuses d.pipes d.active

/-- `send`, where `msgMore` says whether more parts of the message follow. -/
def send (d : DistT α) (msgMore : Bool) (refuses : α → Bool) : DistT α :=
  let s := d.offers refuses
  let d := { d with pipes := s.pipes, active := s.active }
  let d := if !msgMore then { d with active := d.eligible } else d
  { d with more := msgMore }

@[simp] theorem more_terminated (d : DistT α) (p : α) : (d.terminated p).more = d.more := by
  unfold terminated; grind

@[simp] theorem active_terminated (d : DistT α) (p : α) :
    (d.terminated p).active
      = if d.pipes.index p < d.active then d.active - 1 else d.active := by
  unfold terminated; grind

@[simp] theorem eligible_terminated (d : DistT α) (p : α) :
    (d.terminated p).eligible
      = if d.pipes.index p < d.eligible then d.eligible - 1 else d.eligible := by
  unfold terminated; grind

theorem pipes_terminated (d : DistT α) (p : α) :
    (d.terminated p).pipes = d.pipes.erase p := by
  unfold terminated; grind

@[simp] theorem more_activated (d : DistT α) (p : α) : (d.activated p).more = d.more := by
  unfold activated; split <;> rfl

@[simp] theorem active_activated (d : DistT α) (p : α) :
    (d.activated p).active = if d.more then d.active else d.active + 1 := by
  unfold activated; split <;> rfl

@[simp] theorem eligible_activated (d : DistT α) (p : α) :
    (d.activated p).eligible = d.eligible + 1 := by
  unfold activated; split <;> rfl

theorem pipes_activated (d : DistT α) (p : α) :
    (d.activated p).pipes
      = d.pipes.swap (d.pipes.index p) (if d.more then d.eligible else d.active) := by
  unfold activated; split <;> rfl

@[simp] theorem more_send (d : DistT α) (msgMore : Bool) (refuses : α → Bool) :
    (d.send msgMore refuses).more = msgMore := rfl

@[simp] theorem active_send (d : DistT α) (msgMore : Bool) (refuses : α → Bool) :
    (d.send msgMore refuses).active
      = if msgMore then (d.offers refuses).active else d.eligible := by
  cases msgMore <;> rfl

@[simp] theorem eligible_send (d : DistT α) (msgMore : Bool) (refuses : α → Bool) :
    (d.send msgMore refuses).eligible = d.eligible := by
  cases msgMore <;> rfl

theorem pipes_send (d : DistT α) (msgMore : Bool) (refuses : α → Bool) :
    (d.send msgMore refuses).pipes = (d.offers refuses).pipes := by
  cases msgMore <;> rfl

end DistT

/-! ### Events -/

/-- One call into a distributor.  A part is sent together with the choice of the
pipes that would refuse it. -/
inductive Event (α β : Type*)
  /-- A new pipe is attached. -/
  | attach (p : α)
  /-- A pipe that refused a part can be written to again. -/
  | activated (p : α)
  /-- A pipe is gone. -/
  | terminated (p : α)
  /-- A part is sent; `msgMore` says whether more parts of its message follow. -/
  | send (part : β) (msgMore : Bool) (refuses : α → Bool)

/-! ### The distributor among its pipes -/

/-- A distributor, the pipes that refused a part and were not activated since, and
the ledger. -/
structure World (α β : Type*) where
  /-- The distributor. -/
  dist : DistT α
  /-- The pipes that have refused a part and were not activated since. -/
  refusing : α → Bool
  /-- What was sent and accepted. -/
  ledger : Ledger α β

namespace World

/-- The empty distributor. -/
def init : World α β := ⟨.init, fun _ => false, .init⟩

/-- The pipes attached to the distributor. -/
abbrev attached (w : World α β) : List α := w.dist.pipes.items

end World

variable [DecidableEq α]

/-- One event, when the environment can produce it: only new pipes are attached,
only attached ones are terminated, only refusing ones are activated, and a
refusing pipe goes on refusing. -/
def step (w : World α β) : Event α β → Option (World α β)
  | .attach p =>
    if p ∈ w.attached then none
    else some ⟨w.dist.attach p, Function.update w.refusing p false, w.ledger.attach p⟩
  | .activated p =>
    if p ∈ w.attached ∧ w.refusing p = true then
      some { w with dist := w.dist.activated p, refusing := Function.update w.refusing p false }
    else none
  | .terminated p =>
    if p ∈ w.attached then some { w with dist := w.dist.terminated p } else none
  | .send part msgMore refuses =>
    if ∀ p ∈ w.attached, w.refusing p = true → refuses p = true then
      let s := w.dist.offers refuses
      some ⟨w.dist.send msgMore refuses, fun p => w.refusing p || decide (p ∈ s.refused),
        w.ledger.record part msgMore s.took⟩
    else none

theorem step_attach_eq_some {w v : World α β} {p : α} :
    step w (.attach p) = some v ↔ p ∉ w.attached ∧
      ⟨w.dist.attach p, Function.update w.refusing p false, w.ledger.attach p⟩ = v := by
  simp [step]

theorem step_activated_eq_some {w v : World α β} {p : α} :
    step w (.activated p) = some v ↔ (p ∈ w.attached ∧ w.refusing p = true) ∧
      { w with
        dist := w.dist.activated p, refusing := Function.update w.refusing p false } = v := by
  simp [step]

theorem step_terminated_eq_some {w v : World α β} {p : α} :
    step w (.terminated p) = some v ↔ p ∈ w.attached ∧
      { w with dist := w.dist.terminated p } = v := by
  simp [step]

theorem step_send_eq_some {w v : World α β} {part : β} {msgMore : Bool} {refuses : α → Bool} :
    step w (.send part msgMore refuses) = some v ↔
      (∀ p ∈ w.attached, w.refusing p = true → refuses p = true) ∧
      ⟨w.dist.send msgMore refuses,
        fun p => w.refusing p || decide (p ∈ (w.dist.offers refuses).refused),
        w.ledger.record part msgMore (w.dist.offers refuses).took⟩ = v := by
  simp [step]

end PubDist
end ZmqIssues
