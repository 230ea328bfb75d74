import ZmqIssues.Lib.Progress
import ZmqIssues.Proxies.Loops

/-!
# The proxied tests of issue 757

The pusher sends a stream of `'A'`s and a `'Z'`, a proxy forwards it, the puller receives
it, and `main` waits until the three of them have said that they are done.  The sockets
hold a bounded number of messages, and `zmq_send` waits until there is room.

A thread that quits loses its messages in flight.  The pusher sleeps for a while before it
quits, with a comment that says so; the proxies quit right away.  So besides its timeout
the polling proxy, and either proxy when it quits, can keep the `'Z'` from the puller, and
then `main` waits for ever.

## Main definitions

* `Link` — the messages between two sockets.
* `Pipeline`, `Action`, `step` — the threads of a test and what can happen next.
* `Pipeline.reach` — the bytes that can still get to the puller.
* `Careful` — no timeout, and nobody quits while its messages are in flight.

## Main results

* `Sound.step` — what the puller receives is the beginning of the stream.
* `finished_of_stuck` — if the `'Z'` is not lost, the test is not stuck before its end.
* `test_finishes_iff` — **a test ends, and it does so with the whole stream and with `main` at
  its end exactly if all its steps were careful.**
-/

namespace ZmqIssues
namespace ProxyTest

open Machine
open Proxies (z)

/-! ### Links -/

/-- The messages between two sockets. -/
structure Link where
  /-- In flight. -/
  coming : List UInt8
  /-- At the receiver. -/
  waiting : List UInt8
  deriving DecidableEq, Repr

namespace Link

/-- No messages. -/
def empty : Link := ⟨[], []⟩

/-- All messages, oldest first. -/
def content (l : Link) : List UInt8 := l.waiting ++ l.coming

/-- A message is sent. -/
def push (l : Link) (b : UInt8) : Link := { l with coming := l.coming ++ [b] }

/-- A message arrives. -/
def arrive (l : Link) : Option Link :=
  match l.coming with
  | [] => none
  | b :: coming => some ⟨coming, l.waiting ++ [b]⟩

/-- A message is received. -/
def take (l : Link) : Option (UInt8 × Link) :=
  match l.waiting with
  | [] => none
  | b :: waiting => some (b, { l with waiting := waiting })

/-- The sender quits: what is in flight is lost. -/
def cut (l : Link) : Link := { l with coming := [] }

@[simp] theorem content_push (l : Link) (b : UInt8) : (l.push b).content = l.content ++ [b] := by
  simp [content, push]

@[simp] theorem content_cut (l : Link) : l.cut.content = l.waiting := by simp [content, cut]

theorem arrive_eq_some {l m : Link} :
    l.arrive = some m ↔ ∃ b coming, l.coming = b :: coming ∧ m = ⟨coming, l.waiting ++ [b]⟩ := by
  unfold arrive
  cases l.coming <;> simp [eq_comm]

theorem take_eq_some {l m : Link} {b : UInt8} :
    l.take = some (b, m) ↔ l.waiting = b :: m.waiting ∧ l.coming = m.coming := by
  obtain ⟨coming, waiting⟩ := l
  obtain ⟨coming', waiting'⟩ := m
  unfold take
  cases waiting with
  | nil => simp
  | cons c waiting =>
    simp only [Option.some.injEq, Prod.mk.injEq, mk.injEq, List.cons.injEq]
    tauto

theorem content_of_arrive {l m : Link} (h : l.arrive = some m) : m.content = l.content := by
  obtain ⟨b, coming, hcoming, rfl⟩ := arrive_eq_some.mp h
  simp [content, hcoming]

theorem content_of_take {l m : Link} {b : UInt8} (h : l.take = some (b, m)) :
    l.content = b :: m.content := by
  obtain ⟨hwaiting, hcoming⟩ := take_eq_some.mp h
  simp [content, hwaiting, hcoming]

end Link

/-! ### The threads -/

/-- Which proxy a test runs. -/
inductive Kind
  /-- `s_proxy_simple`. -/
  | simple
  /-- `s_proxy_polling`. -/
  | polling
  deriving DecidableEq, Repr

/-- Where the pusher is. -/
inductive PusherPc
  /-- In its loop, or in front of the last `zmq_send`. -/
  | running
  /-- It has said that it is done, and sleeps. -/
  | done
  /-- It has quit. -/
  | gone
  deriving DecidableEq, Repr

/-- Where the proxy is. -/
inductive ProxyPc
  /-- At the head of its loop. -/
  | looping
  /-- Behind `zpoller_wait`, which has returned the pull socket. -/
  | polled
  /-- In front of `zmq_send`, with the message it has received. -/
  | holding (message : UInt8)
  /-- Behind its loop. -/
  | ended
  /-- It has said that it is done. -/
  | done
  /-- It has quit. -/
  | gone
  deriving DecidableEq, Repr

/-- Where the puller is. -/
inductive PullerPc
  /-- In its loop. -/
  | looping
  /-- Behind its loop. -/
  | ended
  /-- It has said that it is done. -/
  | done
  deriving DecidableEq, Repr

/-- Whom `main` waits for. -/
inductive MainPc
  /-- `zstr_recv (puller)`. -/
  | puller
  /-- `zstr_recv (proxy)`. -/
  | proxy
  /-- `zstr_recv (pusher)`. -/
  | pusher
  /-- The test has ended. -/
  | finished
  deriving DecidableEq, Repr

/-- A test. -/
structure Pipeline where
  /-- What the pusher still has to send. -/
  left : List UInt8
  /-- The pusher. -/
  pusher : PusherPc
  /-- From the pusher to the proxy. -/
  first : Link
  /-- The proxy. -/
  proxy : ProxyPc
  /-- From the proxy to the puller. -/
  second : Link
  /-- The puller. -/
  puller : PullerPc
  /-- The bytes the puller has received. -/
  received : List UInt8
  /-- `main`. -/
  main : MainPc
  deriving DecidableEq, Repr

/-- What can happen next. -/
inductive Action
  /-- The pusher sends a message. -/
  | push
  /-- The pusher says that it is done. -/
  | pusherDone
  /-- The pusher quits. -/
  | pusherQuit
  /-- A message arrives at the proxy. -/
  | arriveFirst
  /-- `zpoller_wait` returns the pull socket. -/
  | ready
  /-- `zpoller_wait` returns nothing, after its timeout. -/
  | timeout
  /-- The proxy receives a message. -/
  | receive
  /-- The proxy sends it. -/
  | send
  /-- The proxy says that it is done. -/
  | proxyDone
  /-- The proxy quits. -/
  | proxyQuit
  /-- A message arrives at the puller. -/
  | arriveSecond
  /-- The puller receives a message. -/
  | pull
  /-- The puller says that it is done. -/
  | pullerDone
  /-- `main` hears that the thread it waits for is done. -/
  | hear
  deriving DecidableEq, Repr

/-- The bytes the pusher sends when `MSG_COUNT` is `n`: `'A'`s and a `'Z'`. -/
def stream (n : ℕ) : List UInt8 := List.replicate n 'A'.toNat.toUInt8 ++ [z]

/-- The threads start. -/
def start (n : ℕ) : Pipeline :=
  ⟨stream n, .running, .empty, .looping, .empty, .looping, [], .puller⟩

/-- Where a proxy receives. -/
def Kind.receives : Kind → ProxyPc
  | .simple => .looping
  | .polling => .polled

/-- Behind its loop a proxy forwards nothing. -/
def ProxyPc.over : ProxyPc → Bool
  | .ended | .done | .gone => true
  | .looping | .polled | .holding _ => false

/-- One step, where no `zmq_recv` fails and the sockets hold `hwm` messages. -/
def step (kind : Kind) (hwm : ℕ) (s : Pipeline) : Action → Option Pipeline
  | .push =>
    match s.left with
    | [] => none
    | b :: left =>
      if s.first.content.length < hwm then some { s with left := left, first := s.first.push b }
      else none
  | .pusherDone =>
    if s.pusher = .running ∧ s.left = [] then some { s with pusher := .done } else none
  | .pusherQuit =>
    if s.pusher = .done then some { s with pusher := .gone, first := s.first.cut } else none
  | .arriveFirst => s.first.arrive.map fun first => { s with first := first }
  | .ready =>
    if kind = .polling ∧ s.proxy = .looping ∧ s.first.waiting ≠ [] then
      some { s with proxy := .polled }
    else none
  | .timeout =>
    if kind = .polling ∧ s.proxy = .looping ∧ s.first.waiting = [] then
      some { s with proxy := .ended }
    else none
  | .receive =>
    if s.proxy = kind.receives then
      s.first.take.map fun r => { s with first := r.2, proxy := .holding r.1 }
    else none
  | .send =>
    match s.proxy with
    | .holding b =>
      if s.second.content.length < hwm then
        some { s with
          second := s.second.push b, proxy := if b = z then .ended else .looping }
      else none
    | _ => none
  | .proxyDone => if s.proxy = .ended then some { s with proxy := .done } else none
  | .proxyQuit =>
    if s.proxy = .done then some { s with proxy := .gone, second := s.second.cut } else none
  | .arriveSecond => s.second.arrive.map fun second => { s with second := second }
  | .pull =>
    if s.puller = .looping then
      s.second.take.map fun r =>
        { s with
          second := r.2, received := s.received ++ [r.1],
          puller := if r.1 = z then .ended else .looping }
    else none
  | .pullerDone => if s.puller = .ended then some { s with puller := .done } else none
  | .hear =>
    match s.main with
    | .puller => if s.puller = .done then some { s with main := .proxy } else none
    | .proxy =>
      if s.proxy = .done ∨ s.proxy = .gone then some { s with main := .pusher } else none
    | .pusher =>
      if s.pusher = .done ∨ s.pusher = .gone then some { s with main := .finished } else none
    | .finished => none

/-! ### What a step does -/

/-- What a step does. -/
inductive Does (kind : Kind) (hwm : ℕ) (s : Pipeline) : Action → Pipeline → Prop
  | push {b left} (hleft : s.left = b :: left) (hroom : s.first.content.length < hwm) :
    Does kind hwm s .push { s with left := left, first := s.first.push b }
  | pusherDone (hpusher : s.pusher = .running) (hleft : s.left = []) :
    Does kind hwm s .pusherDone { s with pusher := .done }
  | pusherQuit (hpusher : s.pusher = .done) :
    Does kind hwm s .pusherQuit { s with pusher := .gone, first := s.first.cut }
  | arriveFirst {first} (hfirst : s.first.arrive = some first) :
    Does kind hwm s .arriveFirst { s with first := first }
  | ready (hkind : kind = .polling) (hproxy : s.proxy = .looping) (hne : s.first.waiting ≠ []) :
    Does kind hwm s .ready { s with proxy := .polled }
  | timeout (hkind : kind = .polling) (hproxy : s.proxy = .looping) (hnil : s.first.waiting = []) :
    Does kind hwm s .timeout { s with proxy := .ended }
  | receive {b first} (hproxy : s.proxy = kind.receives) (hfirst : s.first.take = some (b, first)) :
    Does kind hwm s .receive { s with first := first, proxy := .holding b }
  | send {b} (hproxy : s.proxy = .holding b) (hroom : s.second.content.length < hwm) :
    Does kind hwm s .send
      { s with second := s.second.push b, proxy := if b = z then .ended else .looping }
  | proxyDone (hproxy : s.proxy = .ended) : Does kind hwm s .proxyDone { s with proxy := .done }
  | proxyQuit (hproxy : s.proxy = .done) :
    Does kind hwm s .proxyQuit { s with proxy := .gone, second := s.second.cut }
  | arriveSecond {second} (hsecond : s.second.arrive = some second) :
    Does kind hwm s .arriveSecond { s with second := second }
  | pull {b second} (hpuller : s.puller = .looping) (hsecond : s.second.take = some (b, second)) :
    Does kind hwm s .pull
      { s with
        second := second, received := s.received ++ [b],
        puller := if b = z then .ended else .looping }
  | pullerDone (hpuller : s.puller = .ended) :
    Does kind hwm s .pullerDone { s with puller := .done }
  | hearPuller (hmain : s.main = .puller) (hpuller : s.puller = .done) :
    Does kind hwm s .hear { s with main := .proxy }
  | hearProxy (hmain : s.main = .proxy) (hproxy : s.proxy = .done ∨ s.proxy = .gone) :
    Does kind hwm s .hear { s with main := .pusher }
  | hearPusher (hmain : s.main = .pusher) (hpusher : s.pusher = .done ∨ s.pusher = .gone) :
    Does kind hwm s .hear { s with main := .finished }

theorem step_eq_some {kind : Kind} {hwm : ℕ} {s t : Pipeline} {a : Action} :
    step kind hwm s a = some t ↔ Does kind hwm s a t := by
  constructor
  · intro h
    cases a with
    | push =>
      unfold step at h
      cases hleft : s.left with
      | nil => simp [hleft] at h
      | cons b left =>
        rw [hleft] at h
        obtain ⟨hroom, h⟩ := Option.ite_none_right_eq_some.mp h
        exact Option.some.inj h ▸ .push hleft hroom
    | pusherDone =>
      obtain ⟨⟨hpusher, hleft⟩, h⟩ := Option.ite_none_right_eq_some.mp h
      exact Option.some.inj h ▸ .pusherDone hpusher hleft
    | pusherQuit =>
      obtain ⟨hpusher, h⟩ := Option.ite_none_right_eq_some.mp h
      exact Option.some.inj h ▸ .pusherQuit hpusher
    | arriveFirst =>
      obtain ⟨first, hfirst, rfl⟩ := Option.map_eq_some_iff.mp h
      exact .arriveFirst hfirst
    | ready =>
      obtain ⟨⟨hkind, hproxy, hne⟩, h⟩ := Option.ite_none_right_eq_some.mp h
      exact Option.some.inj h ▸ .ready hkind hproxy hne
    | timeout =>
      obtain ⟨⟨hkind, hproxy, hnil⟩, h⟩ := Option.ite_none_right_eq_some.mp h
      exact Option.some.inj h ▸ .timeout hkind hproxy hnil
    | receive =>
      obtain ⟨hproxy, h⟩ := Option.ite_none_right_eq_some.mp h
      obtain ⟨⟨b, first⟩, hfirst, rfl⟩ := Option.map_eq_some_iff.mp h
      exact .receive hproxy hfirst
    | send =>
      simp only [step] at h
      split at h
      · next b hproxy =>
        obtain ⟨hroom, h⟩ := Option.ite_none_right_eq_some.mp h
        exact Option.some.inj h ▸ .send hproxy hroom
      · exact absurd h (by simp)
    | proxyDone =>
      obtain ⟨hproxy, h⟩ := Option.ite_none_right_eq_some.mp h
      exact Option.some.inj h ▸ .proxyDone hproxy
    | proxyQuit =>
      obtain ⟨hproxy, h⟩ := Option.ite_none_right_eq_some.mp h
      exact Option.some.inj h ▸ .proxyQuit hproxy
    | arriveSecond =>
      obtain ⟨second, hsecond, rfl⟩ := Option.map_eq_some_iff.mp h
      exact .arriveSecond hsecond
    | pull =>
      obtain ⟨hpuller, h⟩ := Option.ite_none_right_eq_some.mp h
      obtain ⟨⟨b, second⟩, hsecond, rfl⟩ := Option.map_eq_some_iff.mp h
      exact .pull hpuller hsecond
    | pullerDone =>
      obtain ⟨hpuller, h⟩ := Option.ite_none_right_eq_some.mp h
      exact Option.some.inj h ▸ .pullerDone hpuller
    | hear =>
      unfold step at h
      cases hmain : s.main with
      | puller =>
        rw [hmain] at h
        obtain ⟨hpuller, h⟩ := Option.ite_none_right_eq_some.mp h
        exact Option.some.inj h ▸ .hearPuller hmain hpuller
      | proxy =>
        rw [hmain] at h
        obtain ⟨hproxy, h⟩ := Option.ite_none_right_eq_some.mp h
        exact Option.some.inj h ▸ .hearProxy hmain hproxy
      | pusher =>
        rw [hmain] at h
        obtain ⟨hpusher, h⟩ := Option.ite_none_right_eq_some.mp h
        exact Option.some.inj h ▸ .hearPusher hmain hpusher
      | finished => simp [hmain] at h
  · intro h
    cases h <;> simp_all [step]

/-! ### The bytes that can still get to the puller -/

/-- The message a proxy has received and not sent. -/
def ProxyPc.held : ProxyPc → List UInt8
  | .holding b => [b]
  | _ => []

/-- The bytes that have passed the proxy. -/
def Pipeline.passed (s : Pipeline) : List UInt8 := s.received ++ s.second.content

/-- The bytes that can still get to the puller, and those that have. -/
def Pipeline.reach (s : Pipeline) : List UInt8 :=
  s.passed ++ if s.proxy.over then [] else s.proxy.held ++ (s.first.content ++ s.left)

theorem reach_of_over {s : Pipeline} (h : s.proxy.over = true) : s.reach = s.passed := by
  simp [Pipeline.reach, h]

theorem reach_of_not_over {s : Pipeline} (h : s.proxy.over = false) :
    s.reach = s.passed ++ (s.proxy.held ++ (s.first.content ++ s.left)) := by
  simp [Pipeline.reach, h]

/-- Nothing follows the `'Z'`. -/
theorem eq_nil_of_mem {l r : List UInt8} {n : ℕ} (h : l ++ r <+: stream n) (hz : z ∈ l) :
    r = [] := by
  obtain ⟨rest, hrest⟩ := h
  induction l generalizing n with
  | nil => exact absurd hz List.not_mem_nil
  | cons b l ih =>
    cases n with
    | zero =>
      have hlen := congrArg List.length hrest
      simp only [stream, List.replicate_zero, List.nil_append, List.length_append, List.length_cons,
        List.length_nil] at hlen
      exact List.eq_nil_of_length_eq_zero (by omega)
    | succ n =>
      rw [stream, List.replicate_succ, List.cons_append, List.cons_append, List.cons_append,
        List.cons.injEq] at hrest
      refine ih ((List.mem_cons.mp hz).resolve_left ?_) hrest.2
      rw [hrest.1]
      decide

/-- What holds in every run. -/
structure Sound (kind : Kind) (n : ℕ) (s : Pipeline) : Prop where
  /-- What can get to the puller is the beginning of the stream. -/
  reach : s.reach <+: stream n
  /-- A proxy in its loop has not sent the `'Z'`. -/
  passed : s.proxy.over = false → z ∉ s.passed
  /-- When it has, nothing is left in front of it. -/
  behind : z ∈ s.passed → s.first.content = [] ∧ s.left = []
  /-- There is something to receive behind `zpoller_wait`. -/
  polled : s.proxy = .polled → kind = .polling ∧ s.first.waiting ≠ []
  /-- The pusher is done when it has sent everything. -/
  pusher : s.pusher ≠ .running → s.left = []
  /-- The puller leaves its loop with the `'Z'`. -/
  puller : s.puller = .looping ↔ z ∉ s.received
  /-- `main` waits for the puller first. -/
  main : s.main ≠ .puller → s.puller = .done

theorem Sound.start (kind : Kind) (n : ℕ) : Sound kind n (start n) where
  reach := List.prefix_rfl
  passed := fun _ => List.not_mem_nil
  behind := fun h => absurd h List.not_mem_nil
  polled := fun h => nomatch h
  pusher := fun h => absurd rfl h
  puller := iff_of_true rfl List.not_mem_nil
  main := fun h => absurd rfl h

theorem over_receives (kind : Kind) : kind.receives.over = false ∧ kind.receives.held = [] := by
  cases kind <;> exact ⟨rfl, rfl⟩

section

variable {kind : Kind} {hwm n : ℕ} {s t : Pipeline} {a : Action}

theorem passed_isPrefix_reach (s : Pipeline) : s.passed <+: s.reach := List.prefix_append _ _

/-- **What can get to the puller gets less**, and only from its end. -/
theorem Sound.reach_step (h : Sound kind n s) (hdoes : Does kind hwm s a t) :
    t.reach <+: s.reach := by
  cases hdoes with
  | push hleft hroom => simp [Pipeline.reach, Pipeline.passed, hleft]
  | pusherDone hpusher hleft => exact List.prefix_rfl
  | pusherQuit hpusher =>
    have hleft : s.left = [] := h.pusher (by simp [hpusher])
    cases hover : s.proxy.over with
    | true => simp [Pipeline.reach, Pipeline.passed, hover]
    | false =>
      simp only [Pipeline.reach, Pipeline.passed, hover, hleft, Link.content_cut,
        Bool.false_eq_true, if_false, List.append_nil, List.prefix_append_right_inj]
      exact List.prefix_append _ _
  | arriveFirst hfirst =>
    simp [Pipeline.reach, Pipeline.passed, Link.content_of_arrive hfirst]
  | ready hkind hproxy hne =>
    simp [Pipeline.reach, Pipeline.passed, hproxy, ProxyPc.over, ProxyPc.held]
  | timeout hkind hproxy hnil =>
    rw [reach_of_over rfl]
    exact passed_isPrefix_reach s
  | @receive b first hproxy hfirst =>
    obtain ⟨hover, hheld⟩ := over_receives kind
    rw [reach_of_not_over rfl, reach_of_not_over (hproxy ▸ hover), hproxy, hheld,
      Link.content_of_take hfirst]
    exact List.prefix_rfl
  | @send b hproxy hroom =>
    by_cases hb : b = z
    · simp [Pipeline.reach, Pipeline.passed, hproxy, ProxyPc.over, ProxyPc.held, hb]
    · simp [Pipeline.reach, Pipeline.passed, hproxy, ProxyPc.over, ProxyPc.held, hb]
  | proxyDone hproxy => simp [Pipeline.reach, Pipeline.passed, hproxy, ProxyPc.over]
  | proxyQuit hproxy =>
    simp only [Pipeline.reach, Pipeline.passed, hproxy, ProxyPc.over, if_true, List.append_nil,
      Link.content_cut, List.prefix_append_right_inj]
    exact List.prefix_append _ _
  | arriveSecond hsecond =>
    simp [Pipeline.reach, Pipeline.passed, Link.content_of_arrive hsecond]
  | pull hpuller hsecond => simp [Pipeline.reach, Pipeline.passed, Link.content_of_take hsecond]
  | pullerDone hpuller => exact List.prefix_rfl
  | hearPuller hmain hpuller => exact List.prefix_rfl
  | hearProxy hmain hproxy => exact List.prefix_rfl
  | hearPusher hmain hpusher => exact List.prefix_rfl

/-- **One step keeps what holds in every run.** -/
theorem Sound.step (h : Sound kind n s) (hdoes : Does kind hwm s a t) : Sound kind n t := by
  have hreach : t.reach <+: stream n := (h.reach_step hdoes).trans h.reach
  cases hdoes with
  | push hleft hroom =>
    refine ⟨hreach, h.passed, ?_, h.polled, ?_, h.puller, h.main⟩
    · intro hz
      exact absurd ((h.behind hz).2.symm.trans hleft) (by simp)
    · intro hp
      exact absurd ((h.pusher hp).symm.trans hleft) (by simp)
  | pusherDone hpusher hleft =>
    exact ⟨hreach, h.passed, h.behind, h.polled, fun _ => hleft, h.puller, h.main⟩
  | pusherQuit hpusher =>
    refine ⟨hreach, h.passed, ?_, h.polled, fun _ => h.pusher (by simp [hpusher]), h.puller, h.main⟩
    intro hz
    obtain ⟨hcontent, hleft⟩ := h.behind hz
    refine ⟨?_, hleft⟩
    rw [Link.content_cut]
    exact (List.append_eq_nil_iff.mp hcontent).1
  | arriveFirst hfirst =>
    obtain ⟨b, coming, -, rfl⟩ := Link.arrive_eq_some.mp hfirst
    refine ⟨hreach, h.passed, ?_, ?_, h.pusher, h.puller, h.main⟩
    · intro hz
      rw [Link.content_of_arrive hfirst]
      exact h.behind hz
    · intro hpolled
      exact ⟨(h.polled hpolled).1, by simp⟩
  | ready hkind hproxy hne =>
    refine ⟨hreach, ?_, h.behind, fun _ => ⟨hkind, hne⟩, h.pusher, h.puller, h.main⟩
    intro _
    exact h.passed (by rw [hproxy]; rfl)
  | timeout hkind hproxy hnil =>
    exact ⟨hreach, (nomatch ·), h.behind, (nomatch ·), h.pusher,
      h.puller, h.main⟩
  | receive hproxy hfirst =>
    have hpassed : z ∉ s.passed := h.passed (hproxy ▸ (over_receives kind).1)
    exact ⟨hreach, fun _ => hpassed, fun hz => absurd hz hpassed, (nomatch ·),
      h.pusher, h.puller, h.main⟩
  | @send b hproxy hroom =>
    have hover : s.proxy.over = false := by rw [hproxy]; rfl
    have hsplit := h.reach
    rw [reach_of_not_over hover, hproxy, ProxyPc.held, ← List.append_assoc] at hsplit
    have heq : s.received ++ (s.second.push b).content = s.passed ++ [b] := by
      rw [Link.content_push, ← List.append_assoc]
      rfl
    have hzb : z ∈ s.received ++ (s.second.push b).content → b = z := by
      intro hz
      rw [heq, List.mem_append, List.mem_singleton] at hz
      exact (hz.resolve_left (h.passed hover)).symm
    refine ⟨hreach, ?_, ?_, ?_, h.pusher, h.puller, h.main⟩
    · intro hgoes hz
      obtain rfl := hzb hz
      exact absurd hgoes (by simp [ProxyPc.over])
    · intro hz
      -- the `'Z'` is the last byte of the stream
      obtain rfl := hzb hz
      exact List.append_eq_nil_iff.mp (eq_nil_of_mem hsplit (by simp))
    · intro hpolled
      dsimp only at hpolled
      split at hpolled <;> exact nomatch hpolled
  | proxyDone hproxy =>
    exact ⟨hreach, (nomatch ·), h.behind, (nomatch ·), h.pusher,
      h.puller, h.main⟩
  | proxyQuit hproxy =>
    refine ⟨hreach, (nomatch ·), ?_, (nomatch ·), h.pusher,
      h.puller, h.main⟩
    intro hz
    refine h.behind ?_
    simp only [Pipeline.passed, Link.content, Link.cut, List.append_nil, List.mem_append] at hz ⊢
    exact hz.imp_right Or.inl
  | arriveSecond hsecond =>
    have hcontent := Link.content_of_arrive hsecond
    refine ⟨hreach, ?_, ?_, h.polled, h.pusher, h.puller, h.main⟩
    · simpa only [Pipeline.passed, hcontent] using h.passed
    · simpa only [Pipeline.passed, hcontent] using h.behind
  | @pull b second hpuller hsecond =>
    have hpassed : s.received ++ [b] ++ second.content = s.passed := by
      rw [Pipeline.passed, Link.content_of_take hsecond, List.append_assoc]
      rfl
    refine ⟨hreach, ?_, ?_, h.polled, h.pusher, ?_, ?_⟩
    · simpa only [Pipeline.passed, hpassed] using h.passed
    · simpa only [Pipeline.passed, hpassed] using h.behind
    · have hz : z ∉ s.received := h.puller.mp hpuller
      by_cases hb : b = z
      · simp [hb]
      · simp [hb, hz, Ne.symm hb]
    · intro hmain
      exact absurd ((h.main hmain).symm.trans hpuller) (by simp)
  | pullerDone hpuller =>
    refine ⟨hreach, h.passed, h.behind, h.polled, h.pusher, ?_, fun _ => rfl⟩
    rw [← h.puller, hpuller]
    simp
  | hearPuller hmain hpuller =>
    exact ⟨hreach, h.passed, h.behind, h.polled, h.pusher, h.puller, fun _ => hpuller⟩
  | hearProxy hmain hproxy =>
    exact ⟨hreach, h.passed, h.behind, h.polled, h.pusher, h.puller, fun _ =>
      h.main (by simp [hmain])⟩
  | hearPusher hmain hpusher =>
    exact ⟨hreach, h.passed, h.behind, h.polled, h.pusher, h.puller, fun _ =>
      h.main (by simp [hmain])⟩

theorem Sound.of_run {as : List Action}
    (hrun : run (ProxyTest.step kind hwm) (ProxyTest.start n) as = some s) : Sound kind n s :=
  invariant_of_run (fun _ _ _ h hstep => h.step (step_eq_some.mp hstep)) (Sound.start kind n) hrun

/-! ### Careful steps -/

/-- No timeout, and nobody quits while its messages are in flight. -/
def Careful (s : Pipeline) : Action → Prop
  | .timeout => False
  | .pusherQuit => s.first.coming = []
  | .proxyQuit => s.second.coming = []
  | _ => True

/-- Careful steps do not lose the `'Z'`. -/
theorem mem_reach_of_careful (hz : z ∈ s.reach) (hcareful : Careful s a)
    (hdoes : Does kind hwm s a t) : z ∈ t.reach := by
  cases hdoes with
  | push hleft hroom => simpa [Pipeline.reach, Pipeline.passed, hleft] using hz
  | pusherDone hpusher hleft => exact hz
  | pusherQuit hpusher =>
    have hcut : s.first.cut = s.first := by
      simp only [Link.cut, ← (show s.first.coming = [] from hcareful)]
    rw [hcut]
    exact hz
  | arriveFirst hfirst =>
    simpa [Pipeline.reach, Pipeline.passed, Link.content_of_arrive hfirst] using hz
  | ready hkind hproxy hne =>
    simpa [Pipeline.reach, Pipeline.passed, hproxy, ProxyPc.over, ProxyPc.held] using hz
  | timeout hkind hproxy hnil => exact absurd hcareful id
  | receive hproxy hfirst =>
    obtain ⟨hover, hheld⟩ := over_receives kind
    rw [reach_of_not_over (hproxy ▸ hover), hproxy, hheld, Link.content_of_take hfirst] at hz
    rw [reach_of_not_over rfl]
    exact hz
  | @send b hproxy hroom =>
    by_cases hb : b = z
    · simp [Pipeline.reach, Pipeline.passed, ProxyPc.over, hb]
    · simpa [Pipeline.reach, Pipeline.passed, hproxy, ProxyPc.over, ProxyPc.held, hb] using hz
  | proxyDone hproxy => simpa [Pipeline.reach, Pipeline.passed, hproxy, ProxyPc.over] using hz
  | proxyQuit hproxy =>
    have hcut : s.second.cut = s.second := by
      simp only [Link.cut, ← (show s.second.coming = [] from hcareful)]
    rw [hcut]
    simpa [Pipeline.reach, Pipeline.passed, hproxy, ProxyPc.over] using hz
  | arriveSecond hsecond =>
    simpa [Pipeline.reach, Pipeline.passed, Link.content_of_arrive hsecond] using hz
  | pull hpuller hsecond =>
    simpa [Pipeline.reach, Pipeline.passed, Link.content_of_take hsecond] using hz
  | pullerDone hpuller => exact hz
  | hearPuller hmain hpuller => exact hz
  | hearProxy hmain hproxy => exact hz
  | hearPusher hmain hpusher => exact hz

/-- **Every other step loses it.** -/
theorem Sound.notMem_reach_of_not_careful (h : Sound kind n s) (hcareful : ¬ Careful s a)
    (hdoes : Does kind hwm s a t) : z ∉ t.reach := by
  cases hdoes with
  | timeout hkind hproxy hnil =>
    have hpassed := h.passed (by rw [hproxy]; rfl)
    simpa [Pipeline.reach, Pipeline.passed, ProxyPc.over] using hpassed
  | pusherQuit hpusher =>
    have hcoming : s.first.coming ≠ [] := hcareful
    have hcontent : s.first.content ≠ [] := by simp [Link.content, hcoming]
    have hpassed : z ∉ s.passed := fun hz => hcontent (h.behind hz).1
    cases hover : s.proxy.over with
    | true => simpa [Pipeline.reach, Pipeline.passed, hover] using hpassed
    | false =>
      -- the `'Z'` is the last byte in flight
      have hsplit := h.reach
      rw [reach_of_not_over hover, h.pusher (by simp [hpusher]), List.append_nil, Link.content,
        ← List.append_assoc, ← List.append_assoc] at hsplit
      intro hz
      refine hcoming (eq_nil_of_mem hsplit ?_)
      simpa [Pipeline.reach, Pipeline.passed, hover, h.pusher (by simp [hpusher])] using hz
  | proxyQuit hproxy =>
    have hcoming : s.second.coming ≠ [] := hcareful
    have hsplit := (passed_isPrefix_reach s).trans h.reach
    rw [Pipeline.passed, Link.content, ← List.append_assoc] at hsplit
    intro hz
    refine hcoming (eq_nil_of_mem hsplit ?_)
    simpa [Pipeline.reach, Pipeline.passed, ProxyPc.over] using hz
  | _ => exact absurd trivial hcareful

/-! ### The end -/

/-- What is in flight can arrive. -/
theorem coming_of_stuck (hno : ∀ a t, Careful s a → ¬ Does kind hwm s a t) :
    s.first.coming = [] ∧ s.second.coming = [] := by
  constructor
  · by_contra hne
    obtain ⟨b, coming, hcons⟩ := List.exists_cons_of_ne_nil hne
    exact hno .arriveFirst _ trivial
      (.arriveFirst (Link.arrive_eq_some.mpr ⟨b, coming, hcons, rfl⟩))
  · by_contra hne
    obtain ⟨b, coming, hcons⟩ := List.exists_cons_of_ne_nil hne
    exact hno .arriveSecond _ trivial
      (.arriveSecond (Link.arrive_eq_some.mpr ⟨b, coming, hcons, rfl⟩))

/-- A puller that waits can be sent the next byte. -/
theorem puller_done_of_stuck (hhwm : 0 < hwm) (h : Sound kind n s) (hz : z ∈ s.reach)
    (hno : ∀ a t, Careful s a → ¬ Does kind hwm s a t) : s.puller = .done := by
  obtain ⟨hfirst, hsecond⟩ := coming_of_stuck hno
  cases hpuller : s.puller with
  | done => rfl
  | ended => exact (hno .pullerDone _ trivial (.pullerDone hpuller)).elim
  | looping =>
    have hnot : z ∉ s.received := h.puller.mp hpuller
    have hnone : s.second.content = [] := by
      by_contra hne
      obtain ⟨b, waiting, hcons⟩ := List.exists_cons_of_ne_nil hne
      rw [Link.content, hsecond, List.append_nil] at hcons
      have htake : s.second.take = some (b, ⟨s.second.coming, waiting⟩) :=
        Link.take_eq_some.mpr ⟨hcons, rfl⟩
      exact hno .pull _ trivial (.pull hpuller htake)
    have hpassed : s.passed = s.received := by rw [Pipeline.passed, hnone, List.append_nil]
    -- so the `'Z'` has not passed the proxy, which waits for a byte
    cases hover : s.proxy.over with
    | true => exact absurd (hpassed ▸ reach_of_over hover ▸ hz) hnot
    | false =>
      have hwaiting : s.first.waiting = [] ∧ s.proxy.held = [] := by
        have hreceive : ∀ b waiting, s.first.waiting = b :: waiting → s.proxy ≠ kind.receives := by
          intro b waiting hcons hproxy
          have htake : s.first.take = some (b, ⟨s.first.coming, waiting⟩) :=
            Link.take_eq_some.mpr ⟨hcons, rfl⟩
          exact hno .receive _ trivial (.receive hproxy htake)
        cases hproxy : s.proxy with
        | looping =>
          refine ⟨?_, rfl⟩
          by_contra hne
          obtain ⟨b, waiting, hcons⟩ := List.exists_cons_of_ne_nil hne
          cases kind with
          | simple => exact hreceive b waiting hcons hproxy
          | polling => exact hno .ready _ trivial (.ready rfl hproxy hne)
        | polled =>
          obtain ⟨rfl, hne⟩ := h.polled hproxy
          obtain ⟨b, waiting, hcons⟩ := List.exists_cons_of_ne_nil hne
          exact absurd hproxy (hreceive b waiting hcons)
        | holding b =>
          have hroom : s.second.content.length < hwm := by simpa [hnone] using hhwm
          exact (hno .send _ trivial (.send hproxy hroom)).elim
        | ended => rw [hproxy] at hover; exact absurd hover (by simp [ProxyPc.over])
        | done => rw [hproxy] at hover; exact absurd hover (by simp [ProxyPc.over])
        | gone => rw [hproxy] at hover; exact absurd hover (by simp [ProxyPc.over])
      have hcontent : s.first.content = [] := by rw [Link.content, hwaiting.1, hfirst]; rfl
      -- and there is room for the next byte of the pusher
      have hleft : s.left = [] := by
        by_contra hne
        obtain ⟨b, left, hcons⟩ := List.exists_cons_of_ne_nil hne
        have hroom : s.first.content.length < hwm := by simpa [hcontent] using hhwm
        exact hno .push _ trivial (.push hcons hroom)
      rw [reach_of_not_over hover, hwaiting.2, hcontent, hleft, hpassed] at hz
      exact absurd (by simpa using hz) hnot

/-- **If the `'Z'` is not lost, the test is not stuck before its end**, even without the steps
that could lose it. -/
theorem finished_of_stuck (hhwm : 0 < hwm) (h : Sound kind n s) (hz : z ∈ s.reach)
    (hstuck : Stuck (ProxyTest.step kind hwm) Careful s) : s.main = .finished := by
  have hno : ∀ a t, Careful s a → ¬ Does kind hwm s a t := by
    intro a t ha hdoes
    exact absurd ((hstuck a ha).symm.trans (step_eq_some.mpr hdoes)) (by simp)
  have hpuller := puller_done_of_stuck hhwm h hz hno
  -- the puller has received the `'Z'`, which has passed the proxy
  have hpassed : z ∈ s.passed := by
    refine List.mem_append_left _ ?_
    by_contra hnot
    exact absurd ((h.puller.mpr hnot).symm.trans hpuller) (by simp)
  have hproxy : s.proxy = .gone := by
    cases hproxy : s.proxy with
    | gone => rfl
    | ended => exact (hno .proxyDone _ trivial (.proxyDone hproxy)).elim
    | done => exact (hno .proxyQuit _ (coming_of_stuck hno).2 (.proxyQuit hproxy)).elim
    | looping => exact absurd hpassed (h.passed (by rw [hproxy]; rfl))
    | polled => exact absurd hpassed (h.passed (by rw [hproxy]; rfl))
    | holding b => exact absurd hpassed (h.passed (by rw [hproxy]; rfl))
  have hpusher : s.pusher = .gone := by
    cases hpusher : s.pusher with
    | gone => rfl
    | running => exact (hno .pusherDone _ trivial (.pusherDone hpusher (h.behind hpassed).2)).elim
    | done => exact (hno .pusherQuit _ (coming_of_stuck hno).1 (.pusherQuit hpusher)).elim
  cases hmain : s.main with
  | finished => rfl
  | puller => exact (hno .hear _ trivial (.hearPuller hmain hpuller)).elim
  | proxy => exact (hno .hear _ trivial (.hearProxy hmain (Or.inr hproxy))).elim
  | pusher => exact (hno .hear _ trivial (.hearPusher hmain (Or.inr hpusher))).elim

end

/-! ### The steps that are left -/

/-- The steps the pusher may still take, but for its messages. -/
def PusherPc.work : PusherPc → ℕ
  | .running => 2
  | .done => 1
  | .gone => 0

/-- The steps the proxy may still take with what it has in hand. -/
def ProxyPc.work : ProxyPc → ℕ
  | .holding _ => 6
  | .looping => 3
  | .polled => 2
  | .ended => 2
  | .done => 1
  | .gone => 0

/-- The steps the puller may still take, but for its messages. -/
def PullerPc.work : PullerPc → ℕ
  | .looping => 2
  | .ended => 1
  | .done => 0

/-- The steps `main` may still take. -/
def MainPc.work : MainPc → ℕ
  | .puller => 3
  | .proxy => 2
  | .pusher => 1
  | .finished => 0

/-- The steps that may still be taken: a byte takes seven of them. -/
def Pipeline.work (s : Pipeline) : ℕ :=
  7 * s.left.length + 6 * s.first.coming.length + 5 * s.first.waiting.length +
    2 * s.second.coming.length + s.second.waiting.length + s.pusher.work + s.proxy.work +
    s.puller.work + s.main.work

theorem work_start (n : ℕ) : (start n).work = 7 * (n + 1) + 10 := by
  have hlength : (stream n).length = n + 1 := by simp [stream]
  show 7 * (stream n).length + 10 = 7 * (n + 1) + 10
  rw [hlength]

/-- **Every step is one less to be taken.** -/
theorem Does.work_lt {kind : Kind} {hwm : ℕ} {s t : Pipeline} {a : Action}
    (h : Does kind hwm s a t) : t.work < s.work := by
  cases h with
  | push hleft hroom =>
    simp only [Pipeline.work, hleft, Link.push, List.length_append, List.length_cons,
      List.length_nil]
    omega
  | pusherDone hpusher hleft => simp [Pipeline.work, hpusher, PusherPc.work]
  | pusherQuit hpusher =>
    simp only [Pipeline.work, hpusher, PusherPc.work, Link.cut, List.length_nil]
    omega
  | arriveFirst hfirst =>
    obtain ⟨b, coming, hcoming, rfl⟩ := Link.arrive_eq_some.mp hfirst
    simp only [Pipeline.work, hcoming, List.length_append, List.length_cons, List.length_nil]
    omega
  | ready hkind hproxy hne => simp [Pipeline.work, hproxy, ProxyPc.work]
  | timeout hkind hproxy hnil => simp [Pipeline.work, hproxy, ProxyPc.work]
  | receive hproxy hfirst =>
    obtain ⟨hwaiting, hcoming⟩ := Link.take_eq_some.mp hfirst
    have hge : 2 ≤ s.proxy.work := by
      rw [hproxy]
      cases kind <;> decide
    have hholding : ∀ b, (ProxyPc.holding b).work = 6 := fun _ => rfl
    simp only [Pipeline.work, hwaiting, hcoming, hholding, List.length_cons]
    omega
  | @send b hproxy hroom =>
    have hle : (if b = z then ProxyPc.ended else .looping).work ≤ 3 := by
      split <;> decide
    simp only [Pipeline.work, hproxy, ProxyPc.work, Link.push, List.length_append, List.length_cons,
      List.length_nil] at hle ⊢
    omega
  | proxyDone hproxy => simp [Pipeline.work, hproxy, ProxyPc.work]
  | proxyQuit hproxy =>
    simp only [Pipeline.work, hproxy, ProxyPc.work, Link.cut, List.length_nil]
    omega
  | arriveSecond hsecond =>
    obtain ⟨b, coming, hcoming, rfl⟩ := Link.arrive_eq_some.mp hsecond
    simp only [Pipeline.work, hcoming, List.length_append, List.length_cons, List.length_nil]
    omega
  | @pull b second hpuller hsecond =>
    obtain ⟨hwaiting, hcoming⟩ := Link.take_eq_some.mp hsecond
    have hle : (if b = z then PullerPc.ended else .looping).work ≤ 2 := by
      split <;> decide
    simp only [Pipeline.work, hwaiting, hcoming, hpuller, PullerPc.work, List.length_cons] at hle ⊢
    omega
  | pullerDone hpuller => simp [Pipeline.work, hpuller, PullerPc.work]
  | hearPuller hmain hpuller => simp [Pipeline.work, hmain, MainPc.work]
  | hearProxy hmain hproxy => simp [Pipeline.work, hmain, MainPc.work]
  | hearPusher hmain hpusher => simp [Pipeline.work, hmain, MainPc.work]

/-! ### Whole tests -/

/-- The `'Z'` has not been lost in a run exactly if all its steps were careful. -/
theorem mem_reach_iff_along {kind : Kind} {hwm n : ℕ} {as : List Action} {s : Pipeline}
    (hrun : run (step kind hwm) (start n) as = some s) :
    z ∈ s.reach ↔ Along (step kind hwm) Careful (start n) as := by
  have hlast : Throughout (step kind hwm) (fun t => z ∈ t.reach) (start n) as ↔ z ∈ s.reach := by
    constructor
    · intro h
      exact h.final hrun
    · intro hz pre hpre t ht
      obtain ⟨post, rfl⟩ := hpre
      obtain ⟨t', ht', hts⟩ := run_append_eq_some.mp hrun
      obtain rfl : t = t' := Option.some.inj (ht.symm.trans ht')
      -- what is lost stays lost
      have hreach : Sound kind n s ∧ s.reach <+: t.reach := by
        refine invariant_of_run (I := fun u => Sound kind n u ∧ u.reach <+: t.reach) ?_
          ⟨Sound.of_run ht, List.prefix_rfl⟩ hts
        intro u a v hu hstep
        have hdoes := step_eq_some.mp hstep
        exact ⟨hu.1.step hdoes, (hu.1.reach_step hdoes).trans hu.2⟩
      exact hreach.2.subset hz
  rw [← hlast]
  refine throughout_iff_along (I := fun t => Sound kind n t ∧ z ∈ t.reach) (fun _ h => h.2) ?_ ?_
    ⟨Sound.start kind n, ?_⟩ hrun
  · intro t a u h hcareful hstep
    have hdoes := step_eq_some.mp hstep
    exact ⟨h.1.step hdoes, mem_reach_of_careful h.2 hcareful hdoes⟩
  · intro t a u h hcareful hstep
    exact h.1.notMem_reach_of_not_careful hcareful (step_eq_some.mp hstep)
  · have hz : z ∈ stream n := List.mem_append_right _ (List.mem_singleton_self z)
    simpa [Pipeline.reach, ProxyTest.start, ProxyPc.over] using Or.inr (Or.inr (Or.inr hz))

/-- **A test ends, and with the whole stream exactly if all its steps were careful.**  It takes
no more than seven steps for a byte, and the puller receives the beginning of the stream.  A
test that has not lost its `'Z'` can be brought to its end; one that can take no further step
is at its end if it has not, and waits for the puller if it has. -/
theorem test_finishes_iff (kind : Kind) {hwm : ℕ} (hhwm : 0 < hwm) (n : ℕ) (as : List Action)
    (s : Pipeline) (hrun : run (step kind hwm) (start n) as = some s) :
    as.length ≤ 7 * (n + 1) + 10 ∧ s.received <+: stream n ∧
      (s.main = .finished → s.received = stream n) ∧
      (Along (step kind hwm) Careful (start n) as →
        ∃ bs t, run (step kind hwm) s bs = some t ∧ t.main = .finished) ∧
      ((∀ a, step kind hwm s a = none) →
        (s.main = .finished ↔ Along (step kind hwm) Careful (start n) as) ∧
        (s.main ≠ .puller ↔ Along (step kind hwm) Careful (start n) as)) := by
  have h := Sound.of_run hrun
  have hreceived : s.received <+: s.reach :=
    (List.prefix_append _ _).trans (passed_isPrefix_reach s)
  have hmem : s.main ≠ .puller → z ∈ s.received := by
    intro hmain
    by_contra hnot
    exact absurd ((h.puller.mpr hnot).symm.trans (h.main hmain)) (by simp)
  have hdecreasing : Decreasing (step kind hwm) (fun t => Sound kind n t ∧ z ∈ t.reach) Careful
      Pipeline.work := by
    refine ⟨?_, fun _ _ hstep => (step_eq_some.mp hstep).work_lt⟩
    intro t a u ht hcareful hstep
    have hdoes := step_eq_some.mp hstep
    exact ⟨ht.1.step hdoes, mem_reach_of_careful ht.2 hcareful hdoes⟩
  refine ⟨?_, hreceived.trans h.reach, ?_, ?_, ?_⟩
  · have hall : Decreasing (step kind hwm) (fun _ => True) (fun _ _ => True) Pipeline.work :=
      ⟨fun _ _ _ => trivial, fun _ _ hstep => (step_eq_some.mp hstep).work_lt⟩
    have hlen := hall.length_add_le trivial (along_of_forall (fun _ _ => trivial) _) hrun
    rw [work_start] at hlen
    omega
  · intro hmain
    obtain ⟨rest, hrest⟩ := hreceived.trans h.reach
    have hnil : rest = [] :=
      eq_nil_of_mem ⟨[], (List.append_nil _).trans hrest⟩ (hmem (by simp [hmain]))
    rw [← hrest, hnil, List.append_nil]
  · intro hcareful
    obtain ⟨bs, t, hbs, -, ht, hstuck⟩ :=
      hdecreasing.exists_stuck ⟨h, (mem_reach_iff_along hrun).mpr hcareful⟩
    exact ⟨bs, t, hbs, finished_of_stuck hhwm ht.1 ht.2 hstuck⟩
  · intro hstuck
    have hfinished : Along (step kind hwm) Careful (start n) as → s.main = .finished := by
      intro hcareful
      exact finished_of_stuck hhwm h ((mem_reach_iff_along hrun).mpr hcareful)
        fun a _ => hstuck a
    have hcareful : s.main ≠ .puller → Along (step kind hwm) Careful (start n) as := by
      intro hmain
      exact (mem_reach_iff_along hrun).mp (hreceived.subset (hmem hmain))
    refine ⟨⟨fun hmain => hcareful (by simp [hmain]), hfinished⟩, ⟨hcareful, ?_⟩⟩
    intro hal
    simp [hfinished hal]

/-- With sockets that hold one message, three bytes get through a polling proxy. -/
def threeBytes : List Action :=
  [.push, .arriveFirst, .ready, .receive, .push, .send, .arriveSecond, .arriveFirst, .pull,
    .ready, .receive, .push, .send, .pusherDone, .arriveFirst, .arriveSecond, .pull, .ready,
    .receive, .send, .proxyDone, .arriveSecond, .proxyQuit, .pusherQuit, .pull, .pullerDone,
    .hear, .hear, .hear]

/-- `main` gets to its end. -/
theorem test_finishes_threeBytes :
    ∃ s, run (step .polling 1) (start 2) threeBytes = some s ∧ s.received = stream 2 := by
  exact ⟨_, rfl,
    (test_finishes_iff .polling (show 0 < 1 by decide) 2 threeBytes _ rfl).2.2.1 rfl⟩

/-- A proxy that quits while the `'Z'` is in flight leaves `main` waiting for the puller, although
all the messages of the pusher had come. -/
example :
    (run (step .simple 1) (start 0) [.push, .pusherDone, .arriveFirst, .receive, .send, .proxyDone,
      .proxyQuit, .pusherQuit]).map (fun s => (s.received, s.second, s.main)) =
      some ([], .empty, .puller) := rfl

end ProxyTest
end ZmqIssues
