import Mathlib.Data.List.TakeWhile
import ZmqIssues.Lib.Machine

/-!
# The proxies of issue 757

Two proxies forward messages of one byte from a pull socket to a push socket, up to a
`'Z'`.  The simple one waits in `zmq_recv`; the polling one waits in `zpoller_wait` for at
most a second, and stops when nothing has come.

A byte that is sent towards a proxy arrives some time later.  `zmq_recv` can be interrupted,
and then `message` is what it was.

## Main definitions

* `Proxy`, `Action` — a proxy and its sockets, and what can happen.
* `simpleStep`, `pollingStep` — the loops of the two proxies.
* `puller` — the loop of `s_puller`.
* `upToZ` — the bytes up to the first `'Z'`.
* `Does` — what a step of the two loops can do where no receive fails.
* `Loop` — a loop with these steps only, which receives what waits.
* `Forwards` — a proxy has pushed what it has received, and gets to the `'Z'`.

## Main results

* `Sound.of_run` — the invariant the two loops share.
* `Sound.exists_finished` — a proxy gets to its end.
* `proxies_forward` — **both proxies forward the stream, the polling one up to its timeout.**
-/

namespace ZmqIssues
namespace Proxies

open Machine

/-- The byte that ends the loops. -/
def z : UInt8 := 'Z'.toNat.toUInt8

/-- Where a proxy is in its program. -/
inductive Pc
  /-- At the head of its loop. -/
  | looping
  /-- Behind `zpoller_wait`, which has returned the pull socket. -/
  | polled
  /-- Behind its loop. -/
  | finished
  deriving DecidableEq, Repr

/-- A proxy and its sockets. -/
structure Proxy where
  /-- The bytes on the way to the proxy. -/
  coming : List UInt8
  /-- The bytes that have arrived and wait. -/
  waiting : List UInt8
  /-- The bytes it has received. -/
  received : List UInt8
  /-- The bytes it has pushed. -/
  pushed : List UInt8
  /-- Where it is in its program. -/
  pc : Pc
  deriving DecidableEq, Repr

/-- A proxy that starts, with the bytes that are sent towards it. -/
def start (bs : List UInt8) : Proxy := ⟨bs, [], [], [], .looping⟩

/-- What can happen next. -/
inductive Action
  /-- A byte arrives. -/
  | arrive
  /-- `zpoller_wait` returns the pull socket. -/
  | ready
  /-- `zpoller_wait` returns nothing, after its timeout. -/
  | timeout
  /-- `zmq_recv` returns with a byte, which is sent. -/
  | forward
  /-- `zmq_recv` fails; `message` has some value, which is sent. -/
  | fail (message : UInt8)
  deriving DecidableEq, Repr

namespace Proxy

/-- A byte arrives. -/
def arrive (s : Proxy) : Option Proxy :=
  match s.coming with
  | [] => none
  | b :: coming => some { s with coming := coming, waiting := s.waiting ++ [b] }

/-- `zmq_send`, and the test for the last byte. -/
def send (s : Proxy) (message : UInt8) : Proxy :=
  { s with
    pushed := s.pushed ++ [message]
    pc := if message = z then .finished else .looping }

/-- `zmq_recv` returns with a byte; where none waits it does not return. -/
def forward (s : Proxy) : Option Proxy :=
  match s.waiting with
  | [] => none
  | b :: waiting => some ({ s with waiting := waiting, received := s.received ++ [b] }.send b)

theorem send_pc_eq_finished_iff {s : Proxy} {b : UInt8} : (s.send b).pc = .finished ↔ b = z := by
  show (if b = z then Pc.finished else Pc.looping) = .finished ↔ b = z
  split <;> simp [*]

theorem send_pc_ne_polled (s : Proxy) (b : UInt8) : (s.send b).pc ≠ .polled := by
  show (if b = z then Pc.finished else Pc.looping) ≠ .polled
  split <;> decide

end Proxy

/-- The loop of `s_proxy_simple`. -/
def simpleStep (s : Proxy) : Action → Option Proxy
  | .arrive => s.arrive
  | .forward => if s.pc ≠ .finished then s.forward else none
  | .fail message => if s.pc ≠ .finished then some (s.send message) else none
  | .ready => none
  | .timeout => none

/-- The loop of `s_proxy_polling`. -/
def pollingStep (s : Proxy) : Action → Option Proxy
  | .arrive => s.arrive
  | .ready => if s.pc = .looping ∧ s.waiting ≠ [] then some { s with pc := .polled } else none
  | .timeout => if s.pc = .looping ∧ s.waiting = [] then some { s with pc := .finished } else none
  | .forward => if s.pc = .polled then s.forward else none
  | .fail message => if s.pc = .polled then some (s.send message) else none

/-- The loop of `s_puller` on the bytes that are pushed to it: does it reach its end? -/
def puller : List UInt8 → Bool
  | [] => false
  | b :: bs => if b = z then true else puller bs

/-- The bytes up to the first `'Z'`. -/
def upToZ (bs : List UInt8) : List UInt8 := bs.takeWhile (· ≠ z) ++ [z]

/-- No receive has failed. -/
def NoFail (as : List Action) : Prop := ∀ a ∈ as, ∀ message, a ≠ .fail message

/-! ### Steps -/

/-- What a step of the two loops can do where no receive fails. -/
inductive Does (s : Proxy) : Action → Proxy → Prop
  /-- A byte arrives. -/
  | arrive {b : UInt8} {coming : List UInt8} (hcoming : s.coming = b :: coming) :
      Does s .arrive { s with coming := coming, waiting := s.waiting ++ [b] }
  /-- Something can be received. -/
  | ready (hpc : s.pc = .looping) (hne : s.waiting ≠ []) : Does s .ready { s with pc := .polled }
  /-- Nothing has come. -/
  | timeout (hpc : s.pc = .looping) (hnil : s.waiting = []) :
      Does s .timeout { s with pc := .finished }
  /-- A byte is received and sent. -/
  | forward {b : UInt8} {waiting : List UInt8} (hpc : s.pc ≠ .finished)
      (hwaiting : s.waiting = b :: waiting) :
      Does s .forward ({ s with waiting := waiting, received := s.received ++ [b] }.send b)

theorem does_of_arrive {s t : Proxy} (h : s.arrive = some t) : Does s .arrive t := by
  unfold Proxy.arrive at h
  cases hcoming : s.coming with
  | nil => simp [hcoming] at h
  | cons b coming =>
    rw [hcoming] at h
    obtain rfl := Option.some.inj h
    exact .arrive hcoming

theorem does_of_forward {s t : Proxy} (hpc : s.pc ≠ .finished) (h : s.forward = some t) :
    Does s .forward t := by
  unfold Proxy.forward at h
  cases hwaiting : s.waiting with
  | nil => simp [hwaiting] at h
  | cons b waiting =>
    rw [hwaiting] at h
    obtain rfl := Option.some.inj h
    exact .forward hpc hwaiting

theorem does_of_simpleStep {s t : Proxy} {a : Action} (hfail : ∀ message, a ≠ .fail message)
    (h : simpleStep s a = some t) : Does s a t := by
  cases a with
  | arrive => exact does_of_arrive h
  | forward =>
    obtain ⟨hpc, h⟩ := Option.ite_none_right_eq_some.mp h
    exact does_of_forward hpc h
  | fail message => exact absurd rfl (hfail message)
  | ready => exact absurd h (by simp [simpleStep])
  | timeout => exact absurd h (by simp [simpleStep])

theorem does_of_pollingStep {s t : Proxy} {a : Action} (hfail : ∀ message, a ≠ .fail message)
    (h : pollingStep s a = some t) : Does s a t := by
  cases a with
  | arrive => exact does_of_arrive h
  | ready =>
    obtain ⟨⟨hpc, hne⟩, h⟩ := Option.ite_none_right_eq_some.mp h
    obtain rfl := Option.some.inj h
    exact .ready hpc hne
  | timeout =>
    obtain ⟨⟨hpc, hnil⟩, h⟩ := Option.ite_none_right_eq_some.mp h
    obtain rfl := Option.some.inj h
    exact .timeout hpc hnil
  | forward =>
    obtain ⟨hpc, h⟩ := Option.ite_none_right_eq_some.mp h
    exact does_of_forward (by rw [hpc]; decide) h
  | fail message => exact absurd rfl (hfail message)

/-! ### What the loops keep -/

theorem upToZ_append {l : List UInt8} (h : z ∉ l) (r : List UInt8) :
    upToZ (l ++ z :: r) = l ++ [z] := by
  have hl : ∀ b ∈ l, decide (b ≠ z) = true := by
    intro b hb
    refine decide_eq_true ?_
    intro hbz
    exact h (hbz ▸ hb)
  rw [upToZ, List.takeWhile_append_of_pos hl, List.takeWhile_cons_of_neg (by simp), List.append_nil]

/-- How many steps are left at most. -/
def left (s : Proxy) : ℕ :=
  3 * s.coming.length + 2 * s.waiting.length + if s.pc = .looping then 1 else 0

/-- What holds after a run without failed receives. -/
structure Sound (bs : List UInt8) (as : List Action) (s : Proxy) : Prop where
  /-- What was received is pushed. -/
  pushed_eq : s.pushed = s.received
  /-- Nothing is lost or reordered. -/
  split : s.received ++ (s.waiting ++ s.coming) = bs
  /-- A proxy in its loop has not seen the last byte, and has not run into its timeout. -/
  goes_on : s.pc ≠ .finished → z ∉ s.pushed ∧ .timeout ∉ as
  /-- A proxy behind its loop has seen it, if it has not run into its timeout. -/
  ended : s.pc = .finished → .timeout ∉ as → s.pushed = upToZ bs
  /-- A proxy that has run into its timeout has not seen it. -/
  timed_out : .timeout ∈ as → s.pc = .finished ∧ z ∉ s.pushed
  /-- There is something to receive behind `zpoller_wait`. -/
  waiting_ne_nil : s.pc = .polled → s.waiting ≠ []
  /-- The steps are bounded. -/
  length_add_left_le : as.length + left s ≤ 3 * bs.length + 1

theorem Sound.start (bs : List UInt8) : Sound bs [] (start bs) where
  pushed_eq := rfl
  split := rfl
  goes_on := by simp [Proxies.start]
  ended := by simp [Proxies.start]
  timed_out := by simp
  waiting_ne_nil := by simp [Proxies.start]
  length_add_left_le := by simp [Proxies.start, left]

/-- A byte is received and sent: if it is the last one, all bytes up to it have been. -/
theorem Sound.forward {bs : List UInt8} {as : List Action} {s : Proxy} (h : Sound bs as s)
    {b : UInt8} {waiting : List UInt8} (hpc : s.pc ≠ .finished)
    (hwaiting : s.waiting = b :: waiting) :
    Sound bs (as ++ [.forward])
      ({ s with waiting := waiting, received := s.received ++ [b] }.send b) := by
  obtain ⟨hz, htimeout⟩ := h.goes_on hpc
  have hsplit : s.received ++ b :: (waiting ++ s.coming) = bs := by
    rw [← h.split, hwaiting]
    rfl
  refine ⟨?_, ?_, ?_, ?_, ?_, ?_, ?_⟩
  · show s.pushed ++ [b] = s.received ++ [b]
    rw [h.pushed_eq]
  · show s.received ++ [b] ++ (waiting ++ s.coming) = bs
    rw [← hsplit]
    simp
  · intro hgoes
    have hb : b ≠ z := fun hb => hgoes (Proxy.send_pc_eq_finished_iff.mpr hb)
    refine ⟨?_, by simpa using htimeout⟩
    show z ∉ s.pushed ++ [b]
    simp [hz, Ne.symm hb]
  · intro hfinished _
    obtain rfl := Proxy.send_pc_eq_finished_iff.mp hfinished
    show s.pushed ++ [z] = upToZ bs
    rw [h.pushed_eq] at hz
    rw [← hsplit, upToZ_append hz, h.pushed_eq]
  · exact fun htimeout' => absurd htimeout' (by simpa using htimeout)
  · exact fun hpolled => absurd hpolled (Proxy.send_pc_ne_polled _ b)
  · have hlen := h.length_add_left_le
    rw [left, hwaiting, List.length_cons] at hlen
    have hleft : left ({ s with waiting := waiting, received := s.received ++ [b] }.send b) ≤
        3 * s.coming.length + 2 * waiting.length + 1 := by
      show 3 * s.coming.length + 2 * waiting.length + (if _ then 1 else 0) ≤ _
      split <;> omega
    rw [List.length_append, List.length_singleton]
    omega

/-- **One step.** -/
theorem Sound.step {bs : List UInt8} {as : List Action} {s t : Proxy} {a : Action}
    (h : Sound bs as s) (hdoes : Does s a t) : Sound bs (as ++ [a]) t := by
  have hlen := h.length_add_left_le
  cases hdoes with
  | @arrive b coming hcoming =>
    refine ⟨h.pushed_eq, ?_, ?_, ?_, ?_, ?_, ?_⟩
    · rw [← h.split, hcoming]
      simp
    · simpa using h.goes_on
    · simpa using h.ended
    · simpa using h.timed_out
    · intro hpc
      exact List.append_ne_nil_of_left_ne_nil (h.waiting_ne_nil hpc) _
    · simp only [left, hcoming, List.length_append, List.length_cons, List.length_nil] at hlen ⊢
      omega
  | ready hpc hne =>
    obtain ⟨hz, htimeout⟩ := h.goes_on (by rw [hpc]; decide)
    refine ⟨h.pushed_eq, h.split, ?_, ?_, ?_, fun _ => hne, ?_⟩
    · exact fun _ => ⟨hz, by simpa using htimeout⟩
    · exact fun hfinished => nomatch hfinished
    · exact fun htimeout' => absurd htimeout' (by simpa using htimeout)
    · simp only [left, hpc, if_true, List.length_append, List.length_singleton] at hlen ⊢
      simp
      omega
  | timeout hpc hnil =>
    obtain ⟨hz, -⟩ := h.goes_on (by rw [hpc]; decide)
    refine ⟨h.pushed_eq, h.split, ?_, ?_, ?_, ?_, ?_⟩
    · exact fun hne => absurd rfl hne
    · exact fun _ htimeout => absurd htimeout (by simp)
    · exact fun _ => ⟨rfl, hz⟩
    · exact fun hpolled => nomatch hpolled
    · simp only [left, hpc, if_true, List.length_append, List.length_singleton] at hlen ⊢
      simp
      omega
  | forward hpc hwaiting => exact h.forward hpc hwaiting

/-! ### Runs -/

/-- A loop whose steps are those of `Does`, and which receives what waits. -/
structure Loop (step : Proxy → Action → Option Proxy) : Prop where
  /-- What its steps do. -/
  does : ∀ {s t : Proxy} {a : Action}, (∀ message, a ≠ .fail message) → step s a = some t →
    Does s a t
  /-- What is on the way can arrive. -/
  arrives : ∀ {s : Proxy}, s.coming ≠ [] → ∃ t, step s .arrive = some t
  /-- What waits can be received, before the loop has ended. -/
  receives : ∀ {s : Proxy}, s.waiting ≠ [] → s.pc ≠ .finished →
    ∃ a t, (∀ message, a ≠ .fail message) ∧ a ≠ .timeout ∧ step s a = some t

theorem exists_arrive {s : Proxy} (h : s.coming ≠ []) : ∃ t, s.arrive = some t := by
  obtain ⟨b, coming, hcoming⟩ := List.exists_cons_of_ne_nil h
  exact ⟨_, by rw [Proxy.arrive, hcoming]⟩

theorem exists_forward {s : Proxy} (h : s.waiting ≠ []) : ∃ t, s.forward = some t := by
  obtain ⟨b, waiting, hwaiting⟩ := List.exists_cons_of_ne_nil h
  exact ⟨_, by rw [Proxy.forward, hwaiting]⟩

theorem loop_simpleStep : Loop simpleStep where
  does := does_of_simpleStep
  arrives := exists_arrive
  receives := by
    intro s hne hpc
    obtain ⟨t, ht⟩ := exists_forward hne
    exact ⟨.forward, t, by simp, by simp, by rw [simpleStep, if_pos hpc, ht]⟩

theorem loop_pollingStep : Loop pollingStep where
  does := does_of_pollingStep
  arrives := exists_arrive
  receives := by
    intro s hne hpc
    cases hpc' : s.pc with
    | looping => exact ⟨.ready, _, by simp, by simp, by rw [pollingStep, if_pos ⟨hpc', hne⟩]⟩
    | polled =>
      obtain ⟨t, ht⟩ := exists_forward hne
      exact ⟨.forward, t, by simp, by simp, by rw [pollingStep, if_pos hpc', ht]⟩
    | finished => exact absurd hpc' hpc

section

variable {step : Proxy → Action → Option Proxy} {bs : List UInt8} {as : List Action} {s : Proxy}

theorem noFail_append {bs' : List Action} : NoFail (as ++ bs') ↔ NoFail as ∧ NoFail bs' :=
  List.forall_mem_append

/-- **The invariant of the two loops.** -/
theorem Sound.of_run (hloop : Loop step) (hrun : run step (Proxies.start bs) as = some s)
    (hfail : NoFail as) : Sound bs as s := by
  refine invariant_of_history (I := fun as s => NoFail as → Sound bs as s) ?_ ?_ hrun hfail
  · exact fun _ => Sound.start bs
  · intro as s a t ih hstep hfail
    obtain ⟨has, ha⟩ := noFail_append.mp hfail
    exact (ih has).step (hloop.does (ha a List.mem_cons_self) hstep)

/-- A proxy that has not seen the last byte can go on, without running into its timeout. -/
theorem Sound.exists_next (h : Sound bs as s) (hloop : Loop step) (hz : z ∈ bs)
    (hpc : s.pc ≠ .finished) :
    ∃ a t, (∀ message, a ≠ .fail message) ∧ a ≠ .timeout ∧ step s a = some t := by
  by_cases hwaiting : s.waiting = []
  · -- the last byte is still on the way
    have hcoming : s.coming ≠ [] := by
      intro hcoming
      have hreceived : s.received = bs := by
        rw [← h.split, hwaiting, hcoming]
        simp
      rw [← hreceived, ← h.pushed_eq] at hz
      exact (h.goes_on hpc).1 hz
    obtain ⟨t, ht⟩ := hloop.arrives hcoming
    exact ⟨.arrive, t, by simp, by simp, ht⟩
  · exact hloop.receives hwaiting hpc

/-- **A proxy gets to its end**, wherever it is. -/
theorem Sound.exists_finished (h : Sound bs as s) (hloop : Loop step) (hz : z ∈ bs) :
    ∃ cs t, NoFail cs ∧ .timeout ∉ cs ∧ run step s cs = some t ∧ t.pc = .finished := by
  -- the number of steps that are left bounds the run
  induction hn : 3 * bs.length + 1 - as.length generalizing as s with
  | zero =>
    refine ⟨[], s, by simp [NoFail], by simp, rfl, ?_⟩
    by_contra hpc
    obtain ⟨a, t, ha, -, hstep⟩ := h.exists_next hloop hz hpc
    have hlen := (h.step (hloop.does ha hstep)).length_add_left_le
    rw [List.length_append, List.length_singleton] at hlen
    omega
  | succ n ih =>
    by_cases hpc : s.pc = .finished
    · exact ⟨[], s, by simp [NoFail], by simp, rfl, hpc⟩
    · obtain ⟨a, t, ha, htimeout, hstep⟩ := h.exists_next hloop hz hpc
      have hlen : 3 * bs.length + 1 - (as ++ [a]).length = n := by
        rw [List.length_append, List.length_singleton]
        omega
      obtain ⟨cs, u, hcs, hnot, hrun, hu⟩ := ih (h.step (hloop.does ha hstep)) hlen
      refine ⟨a :: cs, u, List.forall_mem_cons.mpr ⟨ha, hcs⟩, ?_, ?_, hu⟩
      · simp [Ne.symm htimeout, hnot]
      · exact run_cons_eq_some.mpr ⟨t, hstep, hrun⟩

/-- Behind its loop a proxy pushes nothing. -/
theorem Does.pushed_eq {t : Proxy} {a : Action} (h : Does s a t) (hpc : s.pc = .finished) :
    t.pc = .finished ∧ t.pushed = s.pushed := by
  cases h with
  | arrive => exact ⟨hpc, rfl⟩
  | ready hlooping => exact absurd (hpc.symm.trans hlooping) (by decide)
  | timeout hlooping => exact absurd (hpc.symm.trans hlooping) (by decide)
  | forward hne => exact absurd hpc hne

/-- **A timeout ends the stream**: all that had come before is pushed, and no more. -/
theorem pushed_eq_of_timeout (hloop : Loop step) {u : Proxy} {as₁ as₂ : List Action}
    (hfail : NoFail (as₁ ++ .timeout :: as₂)) (hu : run step (Proxies.start bs) as₁ = some u)
    (hrun : run step (Proxies.start bs) (as₁ ++ .timeout :: as₂) = some s) :
    u.waiting = [] ∧ s.pushed = u.pushed := by
  obtain ⟨-, hfail⟩ := noFail_append.mp hfail
  obtain ⟨htimeout, has₂⟩ := List.forall_mem_cons.mp hfail
  obtain ⟨u', hu', hrun⟩ := run_append_eq_some.mp hrun
  obtain rfl : u = u' := Option.some.inj (hu.symm.trans hu')
  obtain ⟨v, hv, hrun⟩ := run_cons_eq_some.mp hrun
  have hstops : ∀ w a w', w.pc = .finished ∧ w.pushed = u.pushed →
      (∀ message, a ≠ .fail message) → step w a = some w' →
      w'.pc = .finished ∧ w'.pushed = u.pushed := by
    rintro w a w' ⟨hpc, hpushed⟩ ha hstep
    obtain ⟨hpc', hpushed'⟩ := (hloop.does ha hstep).pushed_eq hpc
    exact ⟨hpc', hpushed'.trans hpushed⟩
  have hend : u.waiting = [] ∧ v.pc = .finished ∧ v.pushed = u.pushed := by
    cases hloop.does htimeout hv with
    | timeout hpc hnil => exact ⟨hnil, rfl, rfl⟩
  exact ⟨hend.1, (invariant_of_along hstops hend.2 (along_of_forall has₂ v) hrun).2⟩

end

/-! ### The streams -/

theorem puller_eq_true_iff {bs : List UInt8} : puller bs = true ↔ z ∈ bs := by
  induction bs with
  | nil => simp [puller]
  | cons b bs ih =>
    rw [puller, List.mem_cons]
    split
    next hb => simp [hb]
    next hb => simp [ih, Ne.symm hb]

theorem puller_eq_false_iff {bs : List UInt8} : puller bs = false ↔ z ∉ bs := by
  rw [← puller_eq_true_iff, Bool.not_eq_true]

theorem mem_upToZ (bs : List UInt8) : z ∈ upToZ bs :=
  List.mem_append_right _ List.mem_cons_self

/-- A proxy forwards the bytes that are sent towards it: what it has pushed after a run. -/
structure Forwards (step : Proxy → Action → Option Proxy) (bs : List UInt8) (as : List Action)
    (s : Proxy) : Prop where
  /-- It has pushed what it has received, in order, each byte once. -/
  pushed_eq : s.pushed = s.received
  /-- It receives what is sent, in order. -/
  split : s.received ++ (s.waiting ++ s.coming) = bs
  /-- In its loop it has not pushed the last byte, and can get to its end. -/
  goes_on : s.pc ≠ .finished → z ∉ s.pushed ∧ .timeout ∉ as ∧
    ∃ cs t, NoFail cs ∧ .timeout ∉ cs ∧ run step s cs = some t ∧ t.pc = .finished
  /-- At its end it has pushed the bytes up to the first `'Z'`, and nothing after it, and the
  puller has got to its end. -/
  ended : s.pc = .finished → .timeout ∉ as → s.pushed = upToZ bs ∧ puller s.pushed = true
  /-- With a timeout it has pushed what had arrived before, and the puller waits. -/
  timed_out : ∀ as₁ as₂ u, as = as₁ ++ .timeout :: as₂ → run step (start bs) as₁ = some u →
    s.pc = .finished ∧ u.waiting = [] ∧ s.pushed = u.pushed ∧ puller s.pushed = false
  /-- It does not run for ever. -/
  length_le : as.length ≤ 3 * bs.length + 1

theorem Loop.forwards {step : Proxy → Action → Option Proxy} {bs : List UInt8} {as : List Action}
    {s : Proxy} (hloop : Loop step) (hz : z ∈ bs) (hfail : NoFail as)
    (hrun : run step (start bs) as = some s) : Forwards step bs as s := by
  have h := Sound.of_run hloop hrun hfail
  refine ⟨h.pushed_eq, h.split, ?_, ?_, ?_, ?_⟩
  · intro hpc
    obtain ⟨hnot, htimeout⟩ := h.goes_on hpc
    exact ⟨hnot, htimeout, h.exists_finished hloop hz⟩
  · intro hpc htimeout
    have hpushed := h.ended hpc htimeout
    exact ⟨hpushed, puller_eq_true_iff.mpr (hpushed ▸ mem_upToZ bs)⟩
  · rintro as₁ as₂ u rfl hu
    obtain ⟨hpc, hnot⟩ := h.timed_out (by simp)
    obtain ⟨hnil, hpushed⟩ := pushed_eq_of_timeout hloop hfail hu hrun
    exact ⟨hpc, hnil, hpushed, puller_eq_false_iff.mpr hnot⟩
  · have hlen := h.length_add_left_le
    omega

/-- The simple loop has no timeout. -/
theorem timeout_not_mem {s t : Proxy} {as : List Action} (hrun : run simpleStep s as = some t) :
    .timeout ∉ as := by
  intro hmem
  obtain ⟨as₁, as₂, rfl⟩ := List.append_of_mem hmem
  obtain ⟨u, -, hrun⟩ := run_append_eq_some.mp hrun
  obtain ⟨v, hv, -⟩ := run_cons_eq_some.mp hrun
  exact absurd hv (by simp [simpleStep])

/-- **Both proxies forward the stream.**  Where no receive fails, each of them pushes what it
receives, up to the first `'Z'`; the polling one stops before where it runs into its timeout,
and this is the only difference between the two. -/
theorem proxies_forward {bs : List UInt8} (hz : z ∈ bs) :
    (∀ as s, NoFail as → run simpleStep (start bs) as = some s →
      .timeout ∉ as ∧ Forwards simpleStep bs as s) ∧
    (∀ as s, NoFail as → run pollingStep (start bs) as = some s → Forwards pollingStep bs as s) ∧
    ∀ as cs s t, NoFail as → NoFail cs → run simpleStep (start bs) as = some s →
      run pollingStep (start bs) cs = some t → s.pc = .finished → t.pc = .finished →
      (s.pushed = t.pushed ↔ .timeout ∉ cs) ∧ (puller t.pushed = true ↔ .timeout ∉ cs) := by
  refine ⟨?_, ?_, ?_⟩
  · intro as s hfail hrun
    exact ⟨timeout_not_mem hrun, loop_simpleStep.forwards hz hfail hrun⟩
  · intro as s hfail hrun
    exact loop_pollingStep.forwards hz hfail hrun
  · intro as cs s t has hcs hs ht hspc htpc
    obtain ⟨hpushed, -⟩ := (loop_simpleStep.forwards hz has hs).ended hspc (timeout_not_mem hs)
    have hpolling := Sound.of_run loop_pollingStep ht hcs
    by_cases htimeout : .timeout ∈ cs
    · obtain ⟨-, hnot⟩ := hpolling.timed_out htimeout
      rw [hpushed, puller_eq_true_iff]
      refine ⟨iff_of_false ?_ (not_not_intro htimeout), iff_of_false hnot (not_not_intro htimeout)⟩
      intro heq
      exact hnot (heq ▸ mem_upToZ bs)
    · have hpushed' := hpolling.ended htpc htimeout
      rw [hpushed, hpushed', puller_eq_true_iff]
      exact ⟨iff_of_true rfl htimeout, iff_of_true (mem_upToZ bs) htimeout⟩

/-- The bytes of `"AZ"`. -/
def az : List UInt8 := [0x41, z]

/-- Both proxies on `"AZ"`. -/
theorem proxies_forward_az :
    ∃ s t, run simpleStep (start az) [.arrive, .forward, .arrive, .forward] = some s ∧
      run pollingStep (start az) [.arrive, .ready, .forward, .arrive, .ready, .forward] = some t ∧
      s.pc = .finished ∧ t.pc = .finished ∧ (s.pushed = t.pushed ↔ Action.timeout ∉
        [Action.arrive, .ready, .forward, .arrive, .ready, .forward]) := by
  refine ⟨_, _, rfl, rfl, by decide, by decide, ?_⟩
  have hboth := (proxies_forward (show z ∈ az by decide)).2.2
  exact (hboth [.arrive, .forward, .arrive, .forward] _ _ _ (by simp [NoFail]) (by simp [NoFail])
    rfl rfl (by decide) (by decide)).1

/-- The proxies do not always push the same stream: with a second without arrivals behind the
`'A'` the polling one stops, and the puller waits for ever; and a receive that fails makes the
simple one push a byte it has not received. -/
theorem streams_differ :
    (∃ s t, run simpleStep (start az) [.arrive, .forward, .arrive, .forward] = some s ∧
      run pollingStep (start az) [.arrive, .ready, .forward, .timeout, .arrive] = some t ∧
      s.pc = .finished ∧ t.pc = .finished ∧ s.pushed = az ∧ t.pushed = [0x41] ∧
      puller s.pushed = true ∧ puller t.pushed = false) ∧
    ∃ s, run simpleStep (start az) [.arrive, .forward, .fail 0x41, .arrive, .forward] = some s ∧
      s.received = az ∧ s.pushed = [0x41, 0x41, z] :=
  ⟨⟨_, _, rfl, rfl, by decide, by decide, by decide, by decide, by decide, by decide⟩,
    _, rfl, by decide, by decide⟩

end Proxies
end ZmqIssues
