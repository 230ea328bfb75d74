import Mathlib.Logic.Function.Basic
import ZmqIssues.FileTransfer.Programs
import ZmqIssues.Lib.Machine

/-!
# One file server and any number of clients

The requests of a client travel over a channel to the server's socket and wait there;
the replies travel over a channel to the client.  Channels are reliable and in order.
A connection ends when the server's socket learns that the client has closed its own:
the requests that have arrived can still be read, everything on the way is lost, and
from then on the identity frame of a reply to this client is refused.

## Main definitions

* `Peer` — a client and its connection.
* `ServerPc` — where the server is in its loop.
* `System`, `Action`, `step` — the clients, the server and what can happen next.

## Main results

* `step_peer`, `step_accept`, … — what each action needs and what it changes.
-/

namespace ZmqIssues
namespace FileTransfer

/-- A client and its connection to the server. -/
structure Peer where
  /-- The client. -/
  client : Client
  /-- Is the connection open? -/
  connected : Bool
  /-- Requests on the way to the server. -/
  outbox : List Request
  /-- Requests that wait at the server. -/
  inbox : List Request
  /-- Replies on the way to the client. -/
  replies : List (List UInt8)
  /-- All chunks the client has received. -/
  received : List (List UInt8)
  deriving DecidableEq, Repr

/-- A client that starts. -/
def Peer.start : Peer := ⟨Client.start, true, [], [], [], []⟩

variable {ι : Type*}

/-- Where the server is in its loop. -/
inductive ServerPc (ι : Type*)
  /-- It waits for a request. -/
  | idle
  /-- It has received a request. -/
  | asked (c : ι) (req : Request)
  /-- It has read the chunk. -/
  | loaded (c : ι) (data : List UInt8)
  /-- It has sent the identity frame of the reply. -/
  | routed (c : ι) (data : List UInt8)
  /-- It has left its loop. -/
  | stopped
  /-- An assertion failed. -/
  | aborted (a : Assertion)
  deriving DecidableEq, Repr

/-- The clients, the server, and the server's position in the file. -/
structure System (ι : Type*) where
  /-- The clients. -/
  peers : ι → Peer
  /-- The server. -/
  server : ServerPc ι
  /-- The file position. -/
  pos : ℕ

/-- All clients and the server start. -/
def System.start : System ι := ⟨fun _ => Peer.start, .idle, 0⟩

/-- What can happen to a client and its connection. -/
inductive PeerAction
  /-- The client asks for its next chunk. -/
  | request
  /-- A request arrives at the server. -/
  | deliver
  /-- The client receives a chunk. -/
  | receive
  /-- The client is interrupted while it waits for a chunk. -/
  | interrupt
  /-- The client, which has left its loop, closes its socket, and the connection ends. -/
  | close
  deriving DecidableEq, Repr

/-- What can happen next. -/
inductive Action (ι : Type*)
  /-- Something happens to a client. -/
  | peer (c : ι) (a : PeerAction)
  /-- The server receives a request. -/
  | accept (c : ι)
  /-- The server serves the request. -/
  | load
  /-- The server sends the identity frame of the reply. -/
  | route
  /-- The server sends the chunk. -/
  | reply
  /-- The server is interrupted while it waits for a request. -/
  | shutdown
  deriving DecidableEq, Repr

/-- A step of a client and its connection, or `none` when the action is not possible. -/
def Peer.step (p : Peer) : PeerAction → Option Peer
  | .request => p.client.request.map fun r =>
      { p with client := r.2, outbox := p.outbox ++ [r.1] }
  | .deliver =>
    match p.outbox with
    | [] => none
    | req :: outbox => some { p with outbox := outbox, inbox := p.inbox ++ [req] }
  | .receive =>
    match p.replies with
    | [] => none
    | chunk :: replies => (p.client.receive chunk).map fun client =>
        { p with client := client, replies := replies, received := p.received ++ [chunk] }
  | .interrupt => p.client.interrupt.map fun client => { p with client := client }
  | .close =>
    if p.client.phase ≠ .looping ∧ p.connected then
      some { p with connected := false, outbox := [], replies := [] }
    else
      none

/-- A chunk is sent to a client; if the connection has ended, it is dropped. -/
def Peer.send (p : Peer) (chunk : List UInt8) : Peer :=
  { p with replies := if p.connected then p.replies ++ [chunk] else p.replies }

variable [DecidableEq ι]

/-- Replace a client. -/
def System.setPeer (s : System ι) (c : ι) (p : Peer) : System ι :=
  { s with peers := Function.update s.peers c p }

/-- One step, or `none` when the action is not possible. -/
def step (file : List UInt8) (s : System ι) : Action ι → Option (System ι)
  | .peer c a => ((s.peers c).step a).map (s.setPeer c)
  | .accept c =>
    match s.server, (s.peers c).inbox with
    | .idle, req :: inbox =>
      some { s.setPeer c { s.peers c with inbox := inbox } with server := .asked c req }
    | _, _ => none
  | .load =>
    match s.server with
    | .asked c req =>
      match serve file s.pos req with
      | .ok (data, pos) => some { s with server := .loaded c data, pos := pos }
      | .error a => some { s with server := .aborted a }
    | _ => none
  | .route =>
    match s.server with
    | .loaded c data =>
      if sendIdentity (s.peers c).connected = 0 then some { s with server := .routed c data }
      else some { s with server := .aborted .sendIdentity }
    | _ => none
  | .reply =>
    match s.server with
    | .routed c data =>
      if sendChunk (s.peers c).connected = 0 then
        some { s.setPeer c ((s.peers c).send data) with server := .idle }
      else
        some { s with server := .aborted .sendChunk }
    | _ => none
  | .shutdown =>
    match s.server with
    | .idle => some { s with server := .stopped }
    | _ => none

/-! ### The steps of a client -/

section PeerSteps

variable {p q : Peer}

theorem Peer.step_request :
    p.step .request = some q ↔ ∃ req client, p.client.request = some (req, client) ∧
      { p with client := client, outbox := p.outbox ++ [req] } = q := by
  rw [Peer.step, Option.map_eq_some_iff, Prod.exists]

theorem Peer.step_deliver :
    p.step .deliver = some q ↔ ∃ req outbox, p.outbox = req :: outbox ∧
      { p with outbox := outbox, inbox := p.inbox ++ [req] } = q := by
  unfold Peer.step
  cases p.outbox <;> simp

theorem Peer.step_receive :
    p.step .receive = some q ↔ ∃ chunk replies client, p.replies = chunk :: replies ∧
      p.client.receive chunk = some client ∧
        { p with client := client, replies := replies, received := p.received ++ [chunk] } = q := by
  unfold Peer.step
  cases p.replies <;> simp

theorem Peer.step_interrupt :
    p.step .interrupt = some q ↔
      ∃ client, p.client.interrupt = some client ∧ { p with client := client } = q := by
  rw [Peer.step, Option.map_eq_some_iff]

theorem Peer.step_close :
    p.step .close = some q ↔ p.client.phase ≠ .looping ∧ p.connected = true ∧
      { p with connected := false, outbox := [], replies := [] } = q := by
  rw [Peer.step, Option.ite_none_right_eq_some, and_assoc, Option.some.injEq]

end PeerSteps

/-! ### What the server is working on -/

@[simp] theorem System.setPeer_peers_self (s : System ι) (c : ι) (p : Peer) :
    (s.setPeer c p).peers c = p := Function.update_self ..

theorem System.setPeer_peers_of_ne (s : System ι) {c d : ι} (h : d ≠ c) (p : Peer) :
    (s.setPeer c p).peers d = s.peers d := Function.update_of_ne h ..

/-- The request of a client the server has read but not served. -/
def ServerPc.askedOf (c : ι) : ServerPc ι → List Request
  | .asked d req => if d = c then [req] else []
  | _ => []

/-- The chunk for a client the server has read but not sent. -/
def ServerPc.answerOf (c : ι) : ServerPc ι → List (List UInt8)
  | .loaded d data => if d = c then [data] else []
  | .routed d data => if d = c then [data] else []
  | _ => []

@[simp] theorem ServerPc.askedOf_idle (c : ι) : (idle : ServerPc ι).askedOf c = [] := rfl

@[simp] theorem ServerPc.askedOf_loaded (c d : ι) (data : List UInt8) :
    (loaded d data).askedOf c = [] := rfl

@[simp] theorem ServerPc.askedOf_routed (c d : ι) (data : List UInt8) :
    (routed d data).askedOf c = [] := rfl

@[simp] theorem ServerPc.answerOf_idle (c : ι) : (idle : ServerPc ι).answerOf c = [] := rfl

@[simp] theorem ServerPc.answerOf_asked (c d : ι) (req : Request) :
    (asked d req).answerOf c = [] := rfl

@[simp] theorem ServerPc.askedOf_asked (c : ι) (req : Request) :
    (ServerPc.asked c req).askedOf c = [req] := if_pos rfl

@[simp] theorem ServerPc.answerOf_loaded (c : ι) (data : List UInt8) :
    (ServerPc.loaded c data).answerOf c = [data] := if_pos rfl

@[simp] theorem ServerPc.answerOf_routed (c : ι) (data : List UInt8) :
    (ServerPc.routed c data).answerOf c = [data] := if_pos rfl

theorem ServerPc.askedOf_asked_of_ne {c d : ι} (h : d ≠ c) (req : Request) :
    (ServerPc.asked c req).askedOf d = [] := if_neg h.symm

theorem ServerPc.mem_askedOf {c : ι} {pc : ServerPc ι} {req : Request} :
    req ∈ pc.askedOf c ↔ pc = .asked c req := by
  cases pc with
  | asked d r =>
    by_cases hdc : d = c
    · subst hdc
      simp [eq_comm]
    · rw [askedOf_asked_of_ne (Ne.symm hdc)]
      simp [hdc]
  | _ => simp [askedOf]

theorem ServerPc.answerOf_loaded_of_ne {c d : ι} (h : d ≠ c) (data : List UInt8) :
    (ServerPc.loaded c data).answerOf d = [] := if_neg h.symm

theorem ServerPc.answerOf_routed_of_ne {c d : ι} (h : d ≠ c) (data : List UInt8) :
    (ServerPc.routed c data).answerOf d = [] := if_neg h.symm

/-! ### The steps of the system -/

section Steps

variable {file : List UInt8} {s t : System ι} {c : ι}

theorem step_peer {a : PeerAction} :
    step file s (.peer c a) = some t ↔ ∃ p, (s.peers c).step a = some p ∧ s.setPeer c p = t := by
  rw [step, Option.map_eq_some_iff]

theorem step_accept :
    step file s (.accept c) = some t ↔
      ∃ req inbox, s.server = .idle ∧ (s.peers c).inbox = req :: inbox ∧
        { s.setPeer c { s.peers c with inbox := inbox } with server := .asked c req } = t := by
  rw [step]
  cases s.server <;> cases (s.peers c).inbox <;> simp

theorem step_load :
    step file s .load = some t ↔
      ∃ c req, s.server = .asked c req ∧
        ((∃ data pos, serve file s.pos req = .ok (data, pos) ∧
            { s with server := .loaded c data, pos := pos } = t) ∨
          ∃ a, serve file s.pos req = .error a ∧ { s with server := .aborted a } = t) := by
  unfold step
  cases s.server with
  | asked c req =>
    cases h : serve file s.pos req with
    | error a => simp [h]
    | ok r =>
      obtain ⟨data, pos⟩ := r
      simp [h, and_assoc]
  | _ => simp

theorem step_route :
    step file s .route = some t ↔
      ∃ c data, s.server = .loaded c data ∧
        (((s.peers c).connected = true ∧ { s with server := .routed c data } = t) ∨
          ((s.peers c).connected = false ∧ { s with server := .aborted .sendIdentity } = t)) := by
  unfold step
  cases s.server with
  | loaded c data => cases h : (s.peers c).connected <;> simp [h]
  | _ => simp

theorem step_reply :
    step file s .reply = some t ↔
      ∃ c data, s.server = .routed c data ∧
        { s.setPeer c ((s.peers c).send data) with server := .idle } = t := by
  unfold step
  cases s.server <;> simp

theorem step_shutdown :
    step file s .shutdown = some t ↔ s.server = .idle ∧ { s with server := .stopped } = t := by
  unfold step
  cases s.server <;> simp

end Steps

end FileTransfer
end ZmqIssues
