import Mathlib.Logic.Function.Basic
import ZmqIssues.Lib.Machine
import ZmqIssues.Lib.Multipart

/-!
# A worker and its hammers

Each hammer opens a `REQ` socket, sends one request, waits for the reply, closes the socket,
and begins again.  The worker has a `ROUTER` socket.  It receives three frames, the address
of the requester, an empty one and the request, asserts of each that more frames follow it
or not, and sends the same three frames back.

The sockets do what is documented of them.  A request gets an empty frame in front, and at
the router the address of its socket; the frames of a message are received one after the
other, whatever other messages arrive.  A reply is routed by its first frame, and dropped if
the socket of this address is closed; the hammer receives what follows the empty frame.

## Main definitions

* `Hammer`, `WorkerPc` — a hammer with its socket, and where the worker is.
* `System`, `Action`, `step` — all of them, and what can happen next.
* `Sound` — every request is in one place, and the worker has received just what was sent.
* `Moves` — what the actions do in a sound system.

## Main results

* `Sound.moves` — **a step of a sound system is one of these moves.**
* `Sound.of_run` — and systems are sound in every run.
-/

namespace ZmqIssues
namespace Zmqtest

open Machine Multipart

/-- A frame: the address of a socket, or what was sent. -/
inductive Frame (ι : Type*)
  /-- The address of the socket a hammer opens after it has closed so many. -/
  | address (t : ι) (socket : ℕ)
  /-- The bytes that were sent. -/
  | data (bytes : List UInt8)
  deriving DecidableEq, Repr

/-- An assertion of the program. -/
inductive Assertion
  /-- `assert(s)`: the hammer has no socket. -/
  | socket
  /-- `assert(more == 1)`, or `assert(more == 0)`. -/
  | more
  deriving DecidableEq, Repr

/-- Where a hammer is. -/
inductive HammerPc (ι : Type*)
  /-- In front of `zmq_socket`. -/
  | ready
  /-- In front of `zmq_connect`. -/
  | opened
  /-- In front of `zmq_send`. -/
  | connected
  /-- In `zmq_recv`. -/
  | waiting
  /-- In front of `zmq_close`, with what it has received. -/
  | answered (msg : Frame ι)
  deriving DecidableEq, Repr

/-- A hammer and its socket. -/
structure Hammer (ι : Type*) where
  /-- Where it is. -/
  pc : HammerPc ι
  /-- How many sockets it has closed. -/
  rounds : ℕ
  /-- Its requests that wait at the router. -/
  requests : List (List (Frame ι))
  /-- The replies that wait for it. -/
  replies : List (List (Frame ι))
  deriving DecidableEq, Repr

/-- Where the worker is, with the frames it has received. -/
inductive WorkerPc (ι : Type*)
  /-- In front of `zmq_recv(s, &addr, 0)`. -/
  | recvAddr
  /-- In front of `zmq_recv(s, &empty, 0)`. -/
  | recvEmpty (addr : Frame ι)
  /-- In front of `zmq_recv(s, &msg, 0)`. -/
  | recvMsg (addr empty : Frame ι)
  /-- In front of `zmq_send(s, &addr, ZMQ_SNDMORE)`. -/
  | sendAddr (addr empty msg : Frame ι)
  /-- In front of `zmq_send(s, &empty, ZMQ_SNDMORE)`. -/
  | sendEmpty (addr empty msg : Frame ι)
  /-- In front of `zmq_send(s, &msg, 0)`. -/
  | sendMsg (addr empty msg : Frame ι)
  deriving DecidableEq, Repr

/-- The worker with its socket, and the hammers. -/
structure System (ι : Type*) where
  /-- The hammers. -/
  hammers : ι → Hammer ι
  /-- What is left of the message the worker is receiving. -/
  incoming : List (FlaggedPart (Frame ι))
  /-- The address and the other frames of the message the worker is sending. -/
  outgoing : Option (Frame ι × List (Frame ι))
  /-- Where the worker is. -/
  worker : WorkerPc ι
  /-- The worker's counter.  Its `long n` does not wrap here; it is used only to print every
  hundredth value. -/
  n : ℕ
  /-- The assertion that failed. -/
  failed : Option Assertion

/-- What can happen next. -/
inductive Action (ι : Type*)
  /-- `zmq_socket` returns a socket. -/
  | socket (t : ι)
  /-- `zmq_socket` returns no socket. -/
  | noSocket (t : ι)
  /-- `zmq_connect`. -/
  | connect (t : ι)
  /-- The hammer's `zmq_send`. -/
  | request (t : ι)
  /-- The hammer's `zmq_recv`. -/
  | reply (t : ι)
  /-- `zmq_close`. -/
  | close (t : ι)
  /-- The worker's next `zmq_recv`; if it begins a message, it is one of this hammer. -/
  | recv (t : ι)
  /-- The worker's next `zmq_send`. -/
  | send
  deriving DecidableEq, Repr

variable {ι : Type*}

/-- `memset (zmq_msg_data (&msg), 'A', 6)`. -/
def body : List UInt8 := List.replicate 6 65

/-- What a `REQ` socket sends for `msg`. -/
def envelope (msg : Frame ι) : List (Frame ι) := [.data [], msg]

/-- What a hammer that starts looks like. -/
def Hammer.start : Hammer ι := ⟨.ready, 0, [], []⟩

/-- All threads start. -/
def System.start : System ι := ⟨fun _ => .start, [], none, .recvAddr, 0, none⟩

/-- Is the hammer's socket connected to the router? -/
def Hammer.isConnected (h : Hammer ι) : Bool :=
  match h.pc with
  | .ready | .opened => false
  | .connected | .waiting | .answered _ => true

variable [DecidableEq ι]

/-- Replace a hammer. -/
def System.setHammer (s : System ι) (t : ι) (h : Hammer ι) : System ι :=
  { s with hammers := Function.update s.hammers t h }

@[simp] theorem System.setHammer_n (s : System ι) (t : ι) (h : Hammer ι) :
    (s.setHammer t h).n = s.n := rfl

/-- The router delivers a message to the socket of an address, or drops it. -/
def System.deliver (s : System ι) (addr : Frame ι) (msg : List (Frame ι)) : System ι :=
  match addr with
  | .data _ => s
  | .address t socket =>
    if (s.hammers t).rounds = socket ∧ (s.hammers t).isConnected then
      s.setHammer t { s.hammers t with replies := (s.hammers t).replies ++ [msg] }
    else
      s

/-- `zmq_recv` on the router: the next frame of the message that is being received, or the
first one of a message of hammer `t`. -/
def System.routerRecv (s : System ι) (t : ι) : Option (FlaggedPart (Frame ι) × System ι) :=
  match s.incoming with
  | p :: ps => some (p, { s with incoming := ps })
  | [] =>
    match (s.hammers t).requests with
    | [] => none
    | m :: ms =>
      let s := s.setHammer t { s.hammers t with requests := ms }
      match parts (.address t (s.hammers t).rounds :: m) with
      | [] => none
      | p :: ps => some (p, { s with incoming := ps })

/-- `zmq_send` on the router. -/
def System.routerSend (s : System ι) (frame : Frame ι) (more : Bool) : System ι :=
  match s.outgoing with
  | none => { s with outgoing := if more then some (frame, []) else none }
  | some (addr, sent) =>
    if more then
      { s with outgoing := some (addr, sent ++ [frame]) }
    else
      { s.deliver addr (sent ++ [frame]) with outgoing := none }

/-- The worker goes on if the frame it has received has the right flag. -/
def System.assertMore (s : System ι) (c : Bool) (pc : WorkerPc ι) : System ι :=
  if c then { s with worker := pc } else { s with failed := some .more }

/-- One step, or `none` when the action is not possible. -/
def step (s : System ι) (a : Action ι) : Option (System ι) :=
  if s.failed.isSome then
    none
  else
    match a with
    | .socket t =>
      match (s.hammers t).pc with
      | .ready => some (s.setHammer t { s.hammers t with pc := .opened })
      | _ => none
    | .noSocket t =>
      match (s.hammers t).pc with
      | .ready => some { s with failed := some .socket }
      | _ => none
    | .connect t =>
      match (s.hammers t).pc with
      | .opened => some (s.setHammer t { s.hammers t with pc := .connected })
      | _ => none
    | .request t =>
      match (s.hammers t).pc with
      | .connected => some (s.setHammer t { s.hammers t with
          pc := .waiting, requests := (s.hammers t).requests ++ [envelope (.data body)] })
      | _ => none
    | .reply t =>
      match (s.hammers t).pc, (s.hammers t).replies with
      | .waiting, (.data [] :: msg :: _) :: replies =>
        some (s.setHammer t { s.hammers t with pc := .answered msg, replies := replies })
      | _, _ => none
    | .close t =>
      match (s.hammers t).pc with
      | .answered _ => some (s.setHammer t ⟨.ready, (s.hammers t).rounds + 1, [], []⟩)
      | _ => none
    | .recv t =>
      match s.worker with
      | .recvAddr => (s.routerRecv t).map fun r => r.2.assertMore r.1.more (.recvEmpty r.1.data)
      | .recvEmpty addr =>
        (s.routerRecv t).map fun r => r.2.assertMore r.1.more (.recvMsg addr r.1.data)
      | .recvMsg addr empty =>
        (s.routerRecv t).map fun r =>
          -- the counter goes up only if the assertion holds
          let s := r.2.assertMore (!r.1.more) (.sendAddr addr empty r.1.data)
          if r.1.more then s else { s with n := s.n + 1 }
      | _ => none
    | .send =>
      match s.worker with
      | .sendAddr addr empty msg =>
        some { s.routerSend addr true with worker := .sendEmpty addr empty msg }
      | .sendEmpty addr empty msg =>
        some { s.routerSend empty true with worker := .sendMsg addr empty msg }
      | .sendMsg _ _ msg => some { s.routerSend msg false with worker := .recvAddr }
      | _ => none

/-! ### Sound systems -/

/-- The address of the request the worker has. -/
def WorkerPc.client : WorkerPc ι → Option (Frame ι)
  | .recvAddr => none
  | .recvEmpty addr | .recvMsg addr _ | .sendAddr addr _ _ | .sendEmpty addr _ _ |
    .sendMsg addr _ _ => some addr

/-- What is left of the message the worker is receiving. -/
def WorkerPc.incoming : WorkerPc ι → List (FlaggedPart (Frame ι))
  | .recvEmpty _ => [⟨.data [], true⟩, ⟨.data body, false⟩]
  | .recvMsg _ _ => [⟨.data body, false⟩]
  | .recvAddr | .sendAddr _ _ _ | .sendEmpty _ _ _ | .sendMsg _ _ _ => []

/-- What the worker has sent of its message. -/
def WorkerPc.outgoing : WorkerPc ι → Option (Frame ι × List (Frame ι))
  | .sendEmpty addr _ _ => some (addr, [])
  | .sendMsg addr _ _ => some (addr, [.data []])
  | .recvAddr | .recvEmpty _ | .recvMsg _ _ | .sendAddr _ _ _ => none

/-- The worker has received what was sent. -/
def WorkerPc.Faithful : WorkerPc ι → Prop
  | .recvAddr | .recvEmpty _ => True
  | .recvMsg _ empty => empty = .data []
  | .sendAddr _ empty msg | .sendEmpty _ empty msg | .sendMsg _ empty msg =>
    empty = .data [] ∧ msg = .data body

/-- Where the request of a hammer is: it waits at the router, the worker has it, or the reply
waits for the hammer.  It is in one place only, and nowhere if the hammer is not waiting. -/
inductive Place (h : Hammer ι) (serving : Prop) : Prop
  | away (hpc : h.pc ≠ .waiting) (hrequests : h.requests = []) (hreplies : h.replies = [])
    (hserving : ¬ serving)
  | queued (hpc : h.pc = .waiting) (hrequests : h.requests = [envelope (.data body)])
    (hreplies : h.replies = []) (hserving : ¬ serving)
  | served (hpc : h.pc = .waiting) (hrequests : h.requests = []) (hreplies : h.replies = [])
    (hserving : serving)
  | replied (hpc : h.pc = .waiting) (hrequests : h.requests = [])
    (hreplies : h.replies = [envelope (.data body)]) (hserving : ¬ serving)

/-- The worker has the request of the hammer. -/
def System.Serving (s : System ι) (t : ι) : Prop :=
  s.worker.client = some (.address t (s.hammers t).rounds)

/-- What holds in every run. -/
structure Sound (s : System ι) : Prop where
  /-- The rest of the message the worker is receiving. -/
  incoming : s.incoming = s.worker.incoming
  /-- What the worker has sent. -/
  outgoing : s.outgoing = s.worker.outgoing
  /-- The worker has received what was sent. -/
  faithful : s.worker.Faithful
  /-- The worker has a request of an open socket. -/
  served : ∀ addr, s.worker.client = some addr → ∃ t, addr = .address t (s.hammers t).rounds
  /-- Every request is in one place. -/
  place : ∀ t, Place (s.hammers t) (s.Serving t)
  /-- A hammer receives what it has sent. -/
  answered : ∀ t msg, (s.hammers t).pc = .answered msg → msg = .data body
  /-- The frames have the right flags. -/
  failed : s.failed ≠ some .more

omit [DecidableEq ι] in
theorem Sound.start : Sound (System.start : System ι) where
  incoming := rfl
  outgoing := rfl
  faithful := trivial
  served := nofun
  place := fun _ => .away (by simp [System.start, Hammer.start]) rfl rfl nofun
  answered := by simp [System.start, Hammer.start]
  failed := by simp [System.start]

/-! ### What the actions do -/

/-- What the actions do in a sound system. -/
inductive Moves (s : System ι) : Action ι → System ι → Prop
  | socket {t : ι} (hpc : (s.hammers t).pc = .ready) :
    Moves s (.socket t) (s.setHammer t { s.hammers t with pc := .opened })
  | noSocket {t : ι} (hpc : (s.hammers t).pc = .ready) :
    Moves s (.noSocket t) { s with failed := some .socket }
  | connect {t : ι} (hpc : (s.hammers t).pc = .opened) :
    Moves s (.connect t) (s.setHammer t { s.hammers t with pc := .connected })
  | request {t : ι} (hpc : (s.hammers t).pc = .connected) :
    Moves s (.request t) (s.setHammer t { s.hammers t with
      pc := .waiting, requests := [envelope (.data body)] })
  | reply {t : ι} (hpc : (s.hammers t).pc = .waiting)
    (hreplies : (s.hammers t).replies = [envelope (.data body)]) :
    Moves s (.reply t) (s.setHammer t { s.hammers t with
      pc := .answered (.data body), replies := [] })
  | close {t : ι} {msg : Frame ι} (hpc : (s.hammers t).pc = .answered msg) :
    Moves s (.close t) (s.setHammer t ⟨.ready, (s.hammers t).rounds + 1, [], []⟩)
  | recvAddr {t : ι} (hworker : s.worker = .recvAddr)
    (hrequests : (s.hammers t).requests = [envelope (.data body)]) :
    Moves s (.recv t) { s.setHammer t { s.hammers t with requests := [] } with
      incoming := [⟨.data [], true⟩, ⟨.data body, false⟩]
      worker := .recvEmpty (.address t (s.hammers t).rounds) }
  | recvEmpty {t : ι} {addr : Frame ι} (hworker : s.worker = .recvEmpty addr) :
    Moves s (.recv t) { s with
      incoming := [⟨.data body, false⟩], worker := .recvMsg addr (.data []) }
  | recvMsg {t : ι} {addr : Frame ι} (hworker : s.worker = .recvMsg addr (.data [])) :
    Moves s (.recv t) { s with
      incoming := [], worker := .sendAddr addr (.data []) (.data body), n := s.n + 1 }
  | sendAddr {addr : Frame ι} (hworker : s.worker = .sendAddr addr (.data []) (.data body)) :
    Moves s .send { s with
      outgoing := some (addr, []), worker := .sendEmpty addr (.data []) (.data body) }
  | sendEmpty {addr : Frame ι} (hworker : s.worker = .sendEmpty addr (.data []) (.data body)) :
    Moves s .send { s with
      outgoing := some (addr, [.data []]), worker := .sendMsg addr (.data []) (.data body) }
  | sendMsg {t : ι} (hworker : s.worker =
      .sendMsg (.address t (s.hammers t).rounds) (.data []) (.data body)) :
    Moves s .send { s.setHammer t { s.hammers t with replies := [envelope (.data body)] } with
      outgoing := none, worker := .recvAddr }

variable {s s' : System ι} {a : Action ι}

omit [DecidableEq ι] in
/-- Only a hammer that is waiting has requests, and only one. -/
theorem Sound.requests (h : Sound s) {t : ι} {m : List (Frame ι)} {ms : List (List (Frame ι))}
    (hrequests : (s.hammers t).requests = m :: ms) :
    (s.hammers t).requests = [envelope (.data body)] := by
  cases h.place t with
  | away _ hnone => simp [hnone] at hrequests
  | queued _ hone => exact hone
  | served _ hnone => simp [hnone] at hrequests
  | replied _ hnone => simp [hnone] at hrequests

omit [DecidableEq ι] in
/-- Only a hammer that is waiting has replies, and only one. -/
theorem Sound.replies (h : Sound s) {t : ι} {m : List (Frame ι)} {ms : List (List (Frame ι))}
    (hreplies : (s.hammers t).replies = m :: ms) :
    (s.hammers t).replies = [envelope (.data body)] := by
  cases h.place t with
  | away _ _ hnone => simp [hnone] at hreplies
  | queued _ _ hnone => simp [hnone] at hreplies
  | served _ _ hnone => simp [hnone] at hreplies
  | replied _ _ hone => exact hone

omit [DecidableEq ι] in
/-- The hammer whose request the worker has is waiting. -/
theorem Sound.of_serving (h : Sound s) {t : ι} (hserving : s.Serving t) :
    (s.hammers t).pc = .waiting ∧ (s.hammers t).requests = [] ∧ (s.hammers t).replies = [] := by
  cases h.place t with
  | away _ _ _ hnot => exact absurd hserving hnot
  | queued _ _ _ hnot => exact absurd hserving hnot
  | served hpc hrequests hreplies _ => exact ⟨hpc, hrequests, hreplies⟩
  | replied _ _ _ hnot => exact absurd hserving hnot

theorem System.routerRecv_of_cons {p : FlaggedPart (Frame ι)} {ps : List (FlaggedPart (Frame ι))}
    (h : s.incoming = p :: ps) (t : ι) : s.routerRecv t = some (p, { s with incoming := ps }) := by
  simp only [System.routerRecv, h]

theorem System.routerRecv_of_nil (h : s.incoming = []) {t : ι}
    (hrequests : (s.hammers t).requests = []) : s.routerRecv t = none := by
  simp only [System.routerRecv, h, hrequests]

theorem System.routerRecv_of_envelope (h : s.incoming = []) {t : ι}
    (hrequests : (s.hammers t).requests = [envelope (.data body)]) :
    s.routerRecv t = some (⟨.address t (s.hammers t).rounds, true⟩,
      { s.setHammer t { s.hammers t with requests := [] } with
        incoming := [⟨.data [], true⟩, ⟨.data body, false⟩] }) := by
  simp [System.routerRecv, h, hrequests, envelope, System.setHammer]

/-- **A step of a sound system is one of these moves.** -/
theorem Sound.moves (h : Sound s) (hstep : step s a = some s') : Moves s a s' := by
  have hfailed : s.failed.isSome = false := by
    by_contra hsome
    simp [step, hsome] at hstep
  simp only [step, hfailed, Bool.false_eq_true, if_false] at hstep
  cases a with
  | socket t =>
    cases hpc : (s.hammers t).pc <;> simp only [hpc, reduceCtorEq, Option.some.injEq] at hstep
    exact hstep ▸ .socket hpc
  | noSocket t =>
    cases hpc : (s.hammers t).pc <;> simp only [hpc, reduceCtorEq, Option.some.injEq] at hstep
    exact hstep ▸ .noSocket hpc
  | connect t =>
    cases hpc : (s.hammers t).pc <;> simp only [hpc, reduceCtorEq, Option.some.injEq] at hstep
    exact hstep ▸ .connect hpc
  | request t =>
    cases hpc : (s.hammers t).pc <;> simp only [hpc, reduceCtorEq, Option.some.injEq] at hstep
    have hrequests : (s.hammers t).requests = [] := by
      cases h.place t with
      | away _ hnone => exact hnone
      | queued hwaiting => simp [hwaiting] at hpc
      | served hwaiting => simp [hwaiting] at hpc
      | replied hwaiting => simp [hwaiting] at hpc
    rw [hrequests, List.nil_append] at hstep
    exact hstep ▸ .request hpc
  | reply t =>
    cases hreplies : (s.hammers t).replies with
    | nil => cases hpc : (s.hammers t).pc <;> simp [hpc, hreplies] at hstep
    | cons m ms =>
      have hone := h.replies hreplies
      cases hpc : (s.hammers t).pc <;>
        simp only [hpc, hone, envelope, reduceCtorEq, Option.some.injEq] at hstep
      exact hstep ▸ .reply hpc hone
  | close t =>
    cases hpc : (s.hammers t).pc <;> simp only [hpc, reduceCtorEq, Option.some.injEq] at hstep
    exact hstep ▸ .close hpc
  | recv t =>
    have hincoming := h.incoming
    have hfaithful := h.faithful
    cases hworker : s.worker with
    | recvAddr =>
      rw [hworker, WorkerPc.incoming] at hincoming
      cases hrequests : (s.hammers t).requests with
      | nil => simp [hworker, System.routerRecv_of_nil hincoming hrequests] at hstep
      | cons m ms =>
        have hone := h.requests hrequests
        simp only [hworker, System.routerRecv_of_envelope hincoming hone, Option.map_some,
          System.assertMore, if_true, Option.some.injEq] at hstep
        exact hstep ▸ .recvAddr hworker hone
    | recvEmpty addr =>
      rw [hworker, WorkerPc.incoming] at hincoming
      simp only [hworker, System.routerRecv_of_cons hincoming, Option.map_some,
        System.assertMore, if_true, Option.some.injEq] at hstep
      exact hstep ▸ .recvEmpty hworker
    | recvMsg addr empty =>
      rw [hworker, WorkerPc.incoming] at hincoming
      rw [hworker] at hfaithful
      obtain rfl : empty = .data [] := hfaithful
      simp only [hworker, System.routerRecv_of_cons hincoming, Option.map_some,
        System.assertMore, Bool.not_false, if_true, Bool.false_eq_true, if_false,
        Option.some.injEq] at hstep
      exact hstep ▸ .recvMsg hworker
    | sendAddr addr empty msg => simp [hworker] at hstep
    | sendEmpty addr empty msg => simp [hworker] at hstep
    | sendMsg addr empty msg => simp [hworker] at hstep
  | send =>
    have houtgoing := h.outgoing
    have hfaithful := h.faithful
    cases hworker : s.worker with
    | recvAddr => simp [hworker] at hstep
    | recvEmpty addr => simp [hworker] at hstep
    | recvMsg addr empty => simp [hworker] at hstep
    | sendAddr addr empty msg =>
      rw [hworker] at houtgoing hfaithful
      obtain ⟨rfl, rfl⟩ : empty = .data [] ∧ msg = .data body := hfaithful
      simp only [hworker, System.routerSend, houtgoing, WorkerPc.outgoing, if_true,
        Option.some.injEq] at hstep
      exact hstep ▸ .sendAddr hworker
    | sendEmpty addr empty msg =>
      rw [hworker] at houtgoing hfaithful
      obtain ⟨rfl, rfl⟩ : empty = .data [] ∧ msg = .data body := hfaithful
      simp only [hworker, System.routerSend, houtgoing, WorkerPc.outgoing, if_true,
        List.nil_append, Option.some.injEq] at hstep
      exact hstep ▸ .sendEmpty hworker
    | sendMsg addr empty msg =>
      rw [hworker] at houtgoing hfaithful
      obtain ⟨rfl, rfl⟩ : empty = .data [] ∧ msg = .data body := hfaithful
      obtain ⟨t, rfl⟩ := h.served addr (by rw [hworker]; rfl)
      have hserving : s.Serving t := by
        rw [System.Serving, hworker]
        rfl
      obtain ⟨hpc, -, hreplies⟩ := h.of_serving hserving
      have hconnected : (s.hammers t).isConnected = true := by simp [Hammer.isConnected, hpc]
      simp only [hworker, System.routerSend, houtgoing, WorkerPc.outgoing, Bool.false_eq_true,
        if_false, System.deliver, hconnected, and_self, if_true, hreplies, List.nil_append,
        List.singleton_append, Option.some.injEq] at hstep
      exact hstep ▸ .sendMsg hworker

/-! ### Sound systems stay sound -/

omit [DecidableEq ι] in
theorem Place.congr {h : Hammer ι} {p q : Prop} (hpq : p ↔ q) (hplace : Place h p) : Place h q :=
  propext hpq ▸ hplace

omit [DecidableEq ι] in
/-- The worker goes on with the request it has. -/
theorem Sound.work (h : Sound s) (hhammers : s'.hammers = s.hammers)
    (hclient : s'.worker.client = s.worker.client) (hincoming : s'.incoming = s'.worker.incoming)
    (houtgoing : s'.outgoing = s'.worker.outgoing) (hfaithful : s'.worker.Faithful)
    (hfailed : s'.failed = s.failed) : Sound s' where
  incoming := hincoming
  outgoing := houtgoing
  faithful := hfaithful
  served := by
    rw [hclient, hhammers]
    exact h.served
  place := by
    intro t
    simp only [System.Serving, hclient, hhammers]
    exact h.place t
  answered := by
    rw [hhammers]
    exact h.answered
  failed := hfailed ▸ h.failed

/-- One hammer changes, and the worker has the same request or takes or answers one of this
hammer. -/
theorem Sound.change (h : Sound s) {t : ι} {g : Hammer ι}
    (hhammers : s'.hammers = Function.update s.hammers t g)
    (hincoming : s'.incoming = s'.worker.incoming) (houtgoing : s'.outgoing = s'.worker.outgoing)
    (hfaithful : s'.worker.Faithful) (hfailed : s'.failed = s.failed)
    (hothers : ∀ addr, (∀ k, addr ≠ .address t k) →
      (s'.worker.client = some addr ↔ s.worker.client = some addr))
    (hserved : ∀ k, s'.worker.client = some (.address t k) → k = g.rounds)
    (hplace : Place g (s'.worker.client = some (.address t g.rounds)))
    (hanswered : ∀ msg, g.pc = .answered msg → msg = .data body) : Sound s' where
  incoming := hincoming
  outgoing := houtgoing
  faithful := hfaithful
  served := by
    intro addr haddr
    by_cases hmine : ∃ k, addr = .address t k
    · obtain ⟨k, rfl⟩ := hmine
      exact ⟨t, by rw [hhammers, Function.update_self, hserved k haddr]⟩
    · rw [not_exists] at hmine
      obtain ⟨u, rfl⟩ := h.served addr ((hothers addr hmine).mp haddr)
      have hut : u ≠ t := by
        rintro rfl
        exact hmine _ rfl
      exact ⟨u, by rw [hhammers, Function.update_of_ne hut]⟩
  place := by
    intro u
    by_cases hut : u = t
    · subst hut
      simpa only [System.Serving, hhammers, Function.update_self] using hplace
    · have hnot : ∀ k, Frame.address u (s.hammers u).rounds ≠ .address t k := by
        intro k heq
        exact hut (Frame.address.inj heq).1
      simp only [System.Serving, hhammers, Function.update_of_ne hut]
      exact (h.place u).congr (hothers _ hnot).symm
  answered := by
    intro u msg hpc
    by_cases hut : u = t
    · subst hut
      rw [hhammers, Function.update_self] at hpc
      exact hanswered msg hpc
    · rw [hhammers, Function.update_of_ne hut] at hpc
      exact h.answered u msg hpc
  failed := hfailed ▸ h.failed

/-- A hammer changes that keeps its socket, and the worker does nothing. -/
theorem Sound.setHammer (h : Sound s) {t : ι} {g : Hammer ι}
    (hrounds : g.rounds = (s.hammers t).rounds) (hplace : Place g (s.Serving t))
    (hanswered : ∀ msg, g.pc = .answered msg → msg = .data body) : Sound (s.setHammer t g) := by
  refine h.change rfl h.incoming h.outgoing h.faithful rfl (fun _ _ => Iff.rfl) ?_ ?_ hanswered
  · intro k hk
    obtain ⟨u, hu⟩ := h.served _ hk
    obtain ⟨rfl, rfl⟩ := Frame.address.inj hu
    exact hrounds.symm
  · rw [hrounds]
    exact hplace

omit [DecidableEq ι] in
/-- A hammer that is not waiting has nothing on the way. -/
theorem Sound.of_ne_waiting (h : Sound s) {t : ι} (hpc : (s.hammers t).pc ≠ .waiting) :
    (s.hammers t).requests = [] ∧ (s.hammers t).replies = [] ∧ ¬ s.Serving t := by
  cases h.place t with
  | away _ hrequests hreplies hserving => exact ⟨hrequests, hreplies, hserving⟩
  | queued hwaiting => exact absurd hwaiting hpc
  | served hwaiting => exact absurd hwaiting hpc
  | replied hwaiting => exact absurd hwaiting hpc

/-- **A step of a sound system leads to a sound system.** -/
theorem Moves.sound (h : Sound s) (hmoves : Moves s a s') : Sound s' := by
  cases hmoves with
  | @socket t hpc =>
    obtain ⟨hrequests, hreplies, hserving⟩ := h.of_ne_waiting (t := t) (by simp [hpc])
    exact h.setHammer rfl (.away (by simp) hrequests hreplies hserving) (by simp)
  | noSocket hpc =>
    exact ⟨h.incoming, h.outgoing, h.faithful, h.served, h.place, h.answered, by simp⟩
  | @connect t hpc =>
    obtain ⟨hrequests, hreplies, hserving⟩ := h.of_ne_waiting (t := t) (by simp [hpc])
    exact h.setHammer rfl (.away (by simp) hrequests hreplies hserving) (by simp)
  | @request t hpc =>
    obtain ⟨-, hreplies, hserving⟩ := h.of_ne_waiting (t := t) (by simp [hpc])
    exact h.setHammer rfl (.queued rfl rfl hreplies hserving) (by simp)
  | @reply t hpc hreplies =>
    have hplace := h.place t
    cases hplace with
    | away hnot => exact absurd hpc hnot
    | queued _ _ hnone => simp [hnone] at hreplies
    | served _ _ hnone => simp [hnone] at hreplies
    | replied _ hrequests _ hserving =>
      exact h.setHammer rfl (.away (by simp) hrequests rfl hserving)
        (fun msg hmsg => (HammerPc.answered.inj hmsg).symm)
  | @close t msg hpc =>
    obtain ⟨-, -, hserving⟩ := h.of_ne_waiting (t := t) (by simp [hpc])
    -- the worker has no request of this hammer
    have hnot : ∀ k, s.worker.client ≠ some (.address t k) := by
      intro k hk
      obtain ⟨u, hu⟩ := h.served _ hk
      obtain ⟨rfl, rfl⟩ := Frame.address.inj hu
      exact hserving hk
    exact h.change rfl h.incoming h.outgoing h.faithful rfl (fun _ _ => Iff.rfl)
      (fun k hk => absurd hk (hnot k)) (.away (by simp) rfl rfl (hnot _)) (by simp)
  | @recvAddr t hworker hrequests =>
    have hclient : s.worker.client = none := by rw [hworker]; rfl
    have houtgoing : s.outgoing = none := by rw [h.outgoing, hworker]; rfl
    refine h.change rfl rfl houtgoing trivial rfl ?_ ?_ ?_ (h.answered t)
    · intro addr haddr
      rw [hclient]
      simpa [WorkerPc.client] using (haddr (s.hammers t).rounds).symm
    · intro k hk
      exact (Frame.address.inj (Option.some.inj hk)).2.symm
    · cases h.place t with
      | away _ hnone => simp [hnone] at hrequests
      | queued hpc _ hreplies _ => exact .served hpc rfl hreplies rfl
      | served _ hnone => simp [hnone] at hrequests
      | replied _ hnone => simp [hnone] at hrequests
  | recvEmpty hworker =>
    have houtgoing : s.outgoing = none := by rw [h.outgoing, hworker]; rfl
    exact h.work rfl (by rw [hworker]; rfl) rfl houtgoing rfl rfl
  | recvMsg hworker =>
    have houtgoing : s.outgoing = none := by rw [h.outgoing, hworker]; rfl
    exact h.work rfl (by rw [hworker]; rfl) rfl houtgoing ⟨rfl, rfl⟩ rfl
  | sendAddr hworker =>
    have hincoming : s.incoming = [] := by rw [h.incoming, hworker]; rfl
    exact h.work rfl (by rw [hworker]; rfl) hincoming rfl ⟨rfl, rfl⟩ rfl
  | sendEmpty hworker =>
    have hincoming : s.incoming = [] := by rw [h.incoming, hworker]; rfl
    exact h.work rfl (by rw [hworker]; rfl) hincoming rfl ⟨rfl, rfl⟩ rfl
  | @sendMsg t hworker =>
    have hclient : s.worker.client = some (.address t (s.hammers t).rounds) := by rw [hworker]; rfl
    have hincoming : s.incoming = [] := by rw [h.incoming, hworker]; rfl
    obtain ⟨hpc, hrequests, -⟩ := h.of_serving hclient
    refine h.change rfl hincoming rfl trivial rfl ?_ nofun ?_ (h.answered t)
    · intro addr haddr
      rw [hclient]
      simpa [WorkerPc.client] using (haddr (s.hammers t).rounds).symm
    · exact .replied hpc hrequests rfl nofun

/-- **The system is sound in every run.** -/
theorem Sound.of_run {as : List (Action ι)} (hrun : run step System.start as = some s) :
    Sound s :=
  invariant_of_run (fun _ _ _ h hstep => (h.moves hstep).sound h) Sound.start hrun

end Zmqtest
end ZmqIssues
