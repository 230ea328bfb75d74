import Mathlib.Logic.Function.Basic
import ZmqIssues.Lib.Machine
import ZmqIssues.Lib.Multipart

/-!
# The device of issue 456

The device waits until something can be received on one of its two sockets, and then
relays one part from each socket that was ready.  `s_relay` sends every part with the flags
0, so that each part leaves as the last one of a message.

Messages arrive on the sockets as a whole, and at any time.

## Main definitions

* `Device`, `relay` — the sockets of the device, and `s_relay`.
* `Action`, `step` — the loop of the device, and arriving messages.
* `Transparent` — what has left are the messages that have arrived.
* `KeepsFlag` — the condition on a step: the part it relays came as a last one.

## Main results

* `relayed_once` — every part is forwarded once, and in order.
* `exists_drained` — the device relays everything that waits.
* `transparent_iff` — **the device is transparent just as long as it relays last parts.**
-/

namespace ZmqIssues
namespace Relay

open Machine Multipart

/-- A message, as the list of its parts. -/
abbrev Message := List (List UInt8)

/-- Parts that wait or have been sent. -/
abbrev Parts := List (FlaggedPart (List UInt8))

/-- The two sockets of the device. -/
inductive Side
  /-- The XSUB socket. -/
  | sub
  /-- The XPUB socket. -/
  | pub
  deriving DecidableEq, Repr

/-- Where what is received on a socket is sent. -/
def Side.other : Side → Side
  | .sub => .pub
  | .pub => .sub

/-- Where the device is in its loop. -/
inductive Pc
  /-- At `zmq_poll`. -/
  | polling
  /-- Behind it, with both results. -/
  | polled (sub pub : Bool)
  /-- Behind the first `if`, with the other result. -/
  | second (pub : Bool)
  deriving DecidableEq, Repr

/-- The sockets and the loop of the device. -/
structure Device where
  /-- The parts that have arrived and wait. -/
  waiting : Side → Parts
  /-- The parts that were sent. -/
  sent : Side → Parts
  /-- Where the device is in its loop. -/
  pc : Pc

/-- The device starts. -/
def start : Device := ⟨fun _ => [], fun _ => [], .polling⟩

/-- `s_relay`: receive a part and send it, with the flags 0.  `zmq_msg_recv` does not return
where there is no part. -/
def relay (d : Device) (dst src : Side) : Option Device :=
  match d.waiting src with
  | [] => none
  | message :: rest => some { d with
      waiting := Function.update d.waiting src rest
      sent := Function.update d.sent dst (d.sent dst ++ [⟨message.data, false⟩]) }

/-- What can happen next. -/
inductive Action
  /-- A message arrives. -/
  | arrive (side : Side) (m : Message)
  /-- `zmq_poll` returns. -/
  | poll
  /-- The first `if`. -/
  | first
  /-- The second `if`. -/
  | second
  deriving DecidableEq, Repr

/-- One step, or `none` when the action is not possible. -/
def step (d : Device) : Action → Option Device
  | .arrive side m =>
    if m ≠ [] then
      some { d with waiting := Function.update d.waiting side (d.waiting side ++ parts m) }
    else
      none
  | .poll =>
    if d.pc = .polling ∧ (d.waiting .sub ≠ [] ∨ d.waiting .pub ≠ []) then
      some { d with pc := .polled (d.waiting .sub ≠ []) (d.waiting .pub ≠ []) }
    else
      none
  | .first =>
    match d.pc with
    | .polled sub pub =>
      if sub then (relay d .pub .sub).map fun d => { d with pc := .second pub }
      else some { d with pc := .second pub }
    | _ => none
  | .second =>
    match d.pc with
    | .second pub =>
      if pub then (relay d .sub .pub).map fun d => { d with pc := .polling }
      else some { d with pc := .polling }
    | _ => none

/-- The socket from which an action relays a part. -/
def source (d : Device) : Action → Option Side
  | .first =>
    match d.pc with
    | .polled true _ => some .sub
    | _ => none
  | .second =>
    match d.pc with
    | .second true => some .pub
    | _ => none
  | _ => none

/-- The messages that have arrived on a socket. -/
def arrivals (side : Side) : List Action → List Message
  | [] => []
  | .arrive s m :: as => if s = side then m :: arrivals side as else arrivals side as
  | _ :: as => arrivals side as

/-- What has left on the other side are the messages that have arrived: what was sent and
what waits are their parts, with their flags, and the messages that were sent are the first
ones of them. -/
structure Transparent (as : List Action) (d : Device) : Prop where
  /-- The parts and their flags. -/
  parts_eq : ∀ side, d.sent side.other ++ d.waiting side = (arrivals side as).flatMap parts
  /-- The messages. -/
  messages_isPrefix : ∀ side, messages (d.sent side.other) <+: arrivals side as

/-- The condition on a step: if it relays a part, the part came as a last one. -/
def KeepsFlag (d : Device) (a : Action) : Prop :=
  ∀ side, source d a = some side → ∀ p ∈ (d.waiting side).head?, p.more = false

/-! ### Steps -/

@[simp] theorem Side.other_inj {s t : Side} : s.other = t.other ↔ s = t := by
  cases s <;> cases t <;> decide

theorem relay_eq_some {d e : Device} {dst src : Side} :
    relay d dst src = some e ↔ ∃ message rest, d.waiting src = message :: rest ∧
      e = { d with
        waiting := Function.update d.waiting src rest
        sent := Function.update d.sent dst (d.sent dst ++ [⟨message.data, false⟩]) } := by
  rw [relay]
  cases d.waiting src <;> simp [eq_comm]

/-- A message arrives. -/
def IsArrival (a : Action) : Prop := ∃ side m, a = .arrive side m

/-- What a part becomes on its way through the device. -/
def forwarded (p : FlaggedPart (List UInt8)) : FlaggedPart (List UInt8) := ⟨p.data, false⟩

/-- **What a step can do**: a message arrives, a part is relayed, or only the place in the
loop changes. -/
theorem step_cases {d e : Device} {a : Action} (h : step d a = some e) :
    (∃ side m, a = .arrive side m ∧ e.sent = d.sent ∧
      e.waiting = Function.update d.waiting side (d.waiting side ++ parts m) ∧ m ≠ []) ∨
    (¬ IsArrival a ∧ ∃ side p rest, source d a = some side ∧ d.waiting side = p :: rest ∧
      e.waiting = Function.update d.waiting side rest ∧
      e.sent = Function.update d.sent side.other (d.sent side.other ++ [forwarded p])) ∨
    (¬ IsArrival a ∧ source d a = none ∧ e.waiting = d.waiting ∧ e.sent = d.sent) := by
  cases a with
  | arrive side m =>
    rw [step, Option.ite_none_right_eq_some, Option.some.injEq] at h
    obtain ⟨hm, rfl⟩ := h
    exact Or.inl ⟨side, m, rfl, rfl, rfl, hm⟩
  | poll =>
    rw [step, Option.ite_none_right_eq_some, Option.some.injEq] at h
    obtain ⟨-, rfl⟩ := h
    exact Or.inr (Or.inr ⟨by simp [IsArrival], rfl, rfl, rfl⟩)
  | first =>
    unfold step at h
    cases hpc : d.pc with
    | polled sub pub =>
      rw [hpc] at h
      cases sub with
      | false =>
        obtain rfl := Option.some.inj h
        exact Or.inr (Or.inr ⟨by simp [IsArrival], by rw [source, hpc], rfl, rfl⟩)
      | true =>
        obtain ⟨d', hrelay, rfl⟩ := Option.map_eq_some_iff.mp h
        obtain ⟨p, rest, hwaiting, rfl⟩ := relay_eq_some.mp hrelay
        exact Or.inr (Or.inl ⟨by simp [IsArrival], .sub, p, rest, by rw [source, hpc], hwaiting,
          rfl, rfl⟩)
    | polling => simp [hpc] at h
    | second pub => simp [hpc] at h
  | second =>
    unfold step at h
    cases hpc : d.pc with
    | second pub =>
      rw [hpc] at h
      cases pub with
      | false =>
        obtain rfl := Option.some.inj h
        exact Or.inr (Or.inr ⟨by simp [IsArrival], by rw [source, hpc], rfl, rfl⟩)
      | true =>
        obtain ⟨d', hrelay, rfl⟩ := Option.map_eq_some_iff.mp h
        obtain ⟨p, rest, hwaiting, rfl⟩ := relay_eq_some.mp hrelay
        exact Or.inr (Or.inl ⟨by simp [IsArrival], .pub, p, rest, by rw [source, hpc], hwaiting,
          rfl, rfl⟩)
    | polling => simp [hpc] at h
    | polled sub pub => simp [hpc] at h

/-! ### Histories -/

theorem arrivals_append (side : Side) (as bs : List Action) :
    arrivals side (as ++ bs) = arrivals side as ++ arrivals side bs := by
  induction as with
  | nil => rfl
  | cons a as ih =>
    cases a with
    | arrive s m =>
      by_cases hs : s = side <;> simp [arrivals, hs, ih]
    | _ => exact ih

theorem arrivals_singleton_of_not {a : Action} (h : ¬ IsArrival a) (side : Side) :
    arrivals side [a] = [] := by
  cases a with
  | arrive s m => exact absurd ⟨s, m, rfl⟩ h
  | _ => rfl

/-- The parts a run has relayed: with those that wait they are the parts of the messages
that have arrived, and they were sent without their flags.  The condition was met along
the run just if none of them had its flag set. -/
structure Relayed (as : List Action) (d : Device) (relayed : Side → Parts) : Prop where
  /-- The parts that have arrived. -/
  arrived : ∀ side, relayed side ++ d.waiting side = (arrivals side as).flatMap parts
  /-- The parts that were sent. -/
  sent : ∀ side, d.sent side.other = (relayed side).map forwarded
  /-- No message is empty. -/
  ne_nil : ∀ side, ∀ m ∈ arrivals side as, m ≠ []
  /-- The condition. -/
  along : Along step KeepsFlag start as ↔ ∀ side, ∀ p ∈ relayed side, p.more = false

theorem keepsFlag_iff {d : Device} {a : Action} {side : Side} {p : FlaggedPart (List UInt8)}
    {rest : Parts} (hsource : source d a = some side) (hhead : d.waiting side = p :: rest) :
    KeepsFlag d a ↔ p.more = false := by
  constructor
  · intro h
    exact h side hsource p (by simp [hhead])
  · intro h s hs q hq
    obtain rfl : side = s := Option.some.inj (hsource.symm.trans hs)
    rw [hhead, List.head?_cons, Option.mem_some] at hq
    rwa [← hq]

/-- What holds of the parts relayed so far, and of one more. -/
theorem forall_update_iff {relayed : Side → Parts} {side : Side} {p : FlaggedPart (List UInt8)} :
    ((∀ s, ∀ q ∈ relayed s, q.more = false) ∧ p.more = false) ↔
      ∀ s, ∀ q ∈ Function.update relayed side (relayed side ++ [p]) s, q.more = false := by
  constructor
  · intro h s q hq
    by_cases hs : s = side
    · subst hs
      rw [Function.update_self, List.mem_append, List.mem_singleton] at hq
      rcases hq with hq | rfl
      · exact h.1 s q hq
      · exact h.2
    · rw [Function.update_of_ne hs] at hq
      exact h.1 s q hq
  · intro h
    constructor
    · intro s q hq
      apply h s q
      by_cases hs : s = side
      · subst hs
        rw [Function.update_self]
        exact List.mem_append_left _ hq
      · rwa [Function.update_of_ne hs]
    · apply h side p
      rw [Function.update_self]
      exact List.mem_append_right _ (List.mem_singleton_self p)

/-- One more step. -/
theorem Relayed.step {as : List Action} {d e : Device} {relayed : Side → Parts} {a : Action}
    (h : Relayed as d relayed) (hrun : run step start as = some d) (hstep : step d a = some e) :
    ∃ relayed', Relayed (as ++ [a]) e relayed' := by
  have halong := along_concat (C := KeepsFlag) hrun a
  rw [h.along] at halong
  rcases step_cases hstep with ⟨side, m, rfl, hsent, hwaiting, hm⟩ |
    ⟨harrival, side, p, rest, hsource, hhead, hwaiting, hsent⟩ |
    ⟨harrival, hsource, hwaiting, hsent⟩
  · -- the parts of the message wait behind the others
    refine ⟨relayed, ?_, ?_, ?_, ?_⟩
    · intro s
      rw [arrivals_append, List.flatMap_append, ← h.arrived s, hwaiting]
      by_cases hs : s = side
      · subst hs
        simp [arrivals]
      · simp [arrivals, Function.update_of_ne hs, Ne.symm hs]
    · intro s
      rw [hsent]
      exact h.sent s
    · intro s m' hm'
      rw [arrivals_append, List.mem_append] at hm'
      rcases hm' with hm' | hm'
      · exact h.ne_nil s m' hm'
      · by_cases hs : side = s
        · simp only [arrivals, hs, if_true, List.mem_singleton] at hm'
          rwa [hm']
        · simp [arrivals, hs] at hm'
    · rw [halong]
      exact and_iff_left fun _ hsource => absurd hsource (by simp [source])
  · refine ⟨Function.update relayed side (relayed side ++ [p]), ?_, ?_, ?_, ?_⟩
    · intro s
      rw [arrivals_append, arrivals_singleton_of_not harrival, List.append_nil, ← h.arrived s,
        hwaiting]
      by_cases hs : s = side
      · subst hs
        simp [hhead]
      · simp [Function.update_of_ne hs]
    · intro s
      rw [hsent]
      by_cases hs : s = side
      · subst hs
        simp [h.sent s]
      · have hs' : s.other ≠ side.other := fun heq => hs (Side.other_inj.mp heq)
        simp [Function.update_of_ne hs, Function.update_of_ne hs', h.sent s]
    · intro s
      rw [arrivals_append, arrivals_singleton_of_not harrival, List.append_nil]
      exact h.ne_nil s
    · rw [halong, keepsFlag_iff hsource hhead, forall_update_iff]
  · refine ⟨relayed, ?_, ?_, ?_, ?_⟩
    · intro s
      rw [arrivals_append, arrivals_singleton_of_not harrival, List.append_nil, hwaiting]
      exact h.arrived s
    · intro s
      rw [hsent]
      exact h.sent s
    · intro s
      rw [arrivals_append, arrivals_singleton_of_not harrival, List.append_nil]
      exact h.ne_nil s
    · rw [halong]
      exact and_iff_left fun _ hsource' => absurd (hsource.symm.trans hsource') (by simp)

theorem exists_relayed {as : List Action} {d : Device} (hrun : run step start as = some d) :
    ∃ relayed, Relayed as d relayed := by
  suffices h : run step start as = some d ∧ ∃ relayed, Relayed as d relayed from h.2
  refine invariant_of_history
    (I := fun as d => run step start as = some d ∧ ∃ relayed, Relayed as d relayed) ?_ ?_ hrun
  · exact ⟨rfl, fun _ => [], by simp [start, arrivals], by simp [start], by simp [arrivals],
      by simp⟩
  · intro as d a e hd hstep
    obtain ⟨has, relayed, h⟩ := hd
    exact ⟨run_concat_eq_some.mpr ⟨d, has, hstep⟩, h.step has hstep⟩

/-! ### What has left the device -/

theorem map_forwarded_eq_iff {ps : Parts} :
    ps.map forwarded = ps ↔ ∀ p ∈ ps, p.more = false := by
  induction ps with
  | nil => simp
  | cons p ps ih =>
    obtain ⟨data, more⟩ := p
    rw [List.map_cons, List.cons.injEq, ih, List.forall_mem_cons]
    refine and_congr_left fun _ => ?_
    cases more <;> simp [forwarded]

section Runs

variable {as : List Action} {d : Device}

/-- **Every part is forwarded once, and in order**, with what it contains. -/
theorem relayed_once (hrun : run step start as = some d) (side : Side) :
    (d.sent side.other ++ d.waiting side).map FlaggedPart.data = (arrivals side as).flatten := by
  obtain ⟨relayed, h⟩ := exists_relayed hrun
  have hdata : (relayed side).map (FlaggedPart.data ∘ forwarded) =
      (relayed side).map FlaggedPart.data := rfl
  have hparts : (arrivals side as).map (List.map FlaggedPart.data ∘ parts) = arrivals side as := by
    simp [Function.comp_def]
  rw [h.sent side, List.map_append, List.map_map, hdata, ← List.map_append, h.arrived side,
    List.flatMap_def, List.map_flatten, List.map_map, hparts]

/-- **The device is transparent just as long as it relays last parts.** -/
theorem transparent_iff_along (hrun : run step start as = some d) :
    Transparent as d ↔ Along step KeepsFlag start as := by
  obtain ⟨relayed, h⟩ := exists_relayed hrun
  rw [h.along]
  constructor
  · intro ht side
    have hparts := ht.parts_eq side
    rw [h.sent side, ← h.arrived side] at hparts
    exact map_forwarded_eq_iff.mp (List.append_cancel_right hparts)
  · intro hlast
    have hparts : ∀ side,
        d.sent side.other ++ d.waiting side = (arrivals side as).flatMap parts := by
      intro side
      rw [h.sent side, map_forwarded_eq_iff.mpr (hlast side), h.arrived side]
    refine ⟨hparts, ?_⟩
    intro side
    -- what was sent is the first part of what arrived
    have hprefix := messages_isPrefix (d.sent side.other) (d.waiting side)
    rwa [hparts side, messages_flatMap_parts (h.ne_nil side)] at hprefix

end Runs

/-! ### The device goes on -/

/-- What the device knows of its sockets: a socket it is about to receive from is not empty,
and `zmq_poll` has found one that is not. -/
def Ready (d : Device) : Prop :=
  match d.pc with
  | .polling => True
  | .polled sub pub => (sub = true ∨ pub = true) ∧ (sub = true → d.waiting .sub ≠ []) ∧
      (pub = true → d.waiting .pub ≠ [])
  | .second pub => pub = true → d.waiting .pub ≠ []

/-- A message that arrives makes no socket empty. -/
theorem update_append_ne_nil {waiting : Side → Parts} {side s : Side} (ps : Parts)
    (h : waiting s ≠ []) : Function.update waiting side (waiting side ++ ps) s ≠ [] := by
  by_cases hs : s = side
  · subst hs
    rw [Function.update_self]
    exact List.append_ne_nil_of_left_ne_nil h ps
  · rwa [Function.update_of_ne hs]

theorem ready_step {d e : Device} {a : Action} (h : Ready d) (hstep : step d a = some e) :
    Ready e := by
  cases a with
  | arrive side m =>
    rw [step, Option.ite_none_right_eq_some, Option.some.injEq] at hstep
    obtain ⟨-, rfl⟩ := hstep
    unfold Ready at h ⊢
    cases hpc : d.pc with
    | polling => trivial
    | polled sub pub =>
      simp only [hpc] at h
      exact ⟨h.1, fun hsub => update_append_ne_nil _ (h.2.1 hsub),
        fun hpub => update_append_ne_nil _ (h.2.2 hpub)⟩
    | second pub =>
      simp only [hpc] at h
      exact fun hpub => update_append_ne_nil _ (h hpub)
  | poll =>
    rw [step, Option.ite_none_right_eq_some, Option.some.injEq] at hstep
    obtain ⟨⟨-, hready⟩, rfl⟩ := hstep
    exact ⟨by simpa using hready, by simp, by simp⟩
  | first =>
    unfold step at hstep
    cases hpc : d.pc with
    | polled sub pub =>
      rw [hpc] at hstep
      simp only [Ready, hpc] at h
      cases sub with
      | false =>
        obtain rfl := Option.some.inj hstep
        exact h.2.2
      | true =>
        obtain ⟨d', hrelay, rfl⟩ := Option.map_eq_some_iff.mp hstep
        obtain ⟨p, rest, -, rfl⟩ := relay_eq_some.mp hrelay
        -- the other socket is not touched
        intro hpub
        show Function.update d.waiting .sub rest .pub ≠ []
        rw [Function.update_of_ne (by decide)]
        exact h.2.2 hpub
    | polling => simp [hpc] at hstep
    | second pub => simp [hpc] at hstep
  | second =>
    unfold step at hstep
    cases hpc : d.pc with
    | second pub =>
      rw [hpc] at hstep
      cases pub with
      | false =>
        obtain rfl := Option.some.inj hstep
        trivial
      | true =>
        obtain ⟨d', -, rfl⟩ := Option.map_eq_some_iff.mp hstep
        trivial
    | polling => simp [hpc] at hstep
    | polled sub pub => simp [hpc] at hstep

/-- How far the device is from having relayed everything. -/
def work (d : Device) : ℕ :=
  4 * ((d.waiting .sub).length + (d.waiting .pub).length) +
    match d.pc with
    | .polling => 3
    | .polled _ _ => 2
    | .second true => 1
    | .second false => 4

/-- As long as something waits, the device goes on. -/
theorem exists_step_of_ready {d : Device} (h : Ready d) (hwait : ∃ side, d.waiting side ≠ []) :
    ∃ a e, ¬ IsArrival a ∧ step d a = some e ∧ work e < work d := by
  cases hpc : d.pc with
  | polling =>
    have hsome : d.waiting .sub ≠ [] ∨ d.waiting .pub ≠ [] := by
      obtain ⟨side, hside⟩ := hwait
      cases side with
      | sub => exact Or.inl hside
      | pub => exact Or.inr hside
    refine ⟨.poll, _, by simp [IsArrival], if_pos ⟨hpc, hsome⟩, ?_⟩
    simp [work, hpc]
  | polled sub pub =>
    simp only [Ready, hpc] at h
    cases sub with
    | false =>
      have hpub : pub = true := by simpa using h.1
      refine ⟨.first, { d with pc := .second pub }, by simp [IsArrival], by simp [step, hpc], ?_⟩
      simp [work, hpc, hpub]
    | true =>
      obtain ⟨p, rest, hhead⟩ := List.exists_cons_of_ne_nil (h.2.1 rfl)
      let e : Device := ⟨Function.update d.waiting .sub rest,
        Function.update d.sent .pub (d.sent .pub ++ [forwarded p]), .second pub⟩
      have hstep : step d .first = some e := by
        simp [step, hpc, relay, hhead, e, forwarded]
      refine ⟨.first, e, by simp [IsArrival], hstep, ?_⟩
      have hbefore : work d = 4 * (rest.length + 1 + (d.waiting .pub).length) + 2 := by
        rw [work, hpc, hhead, List.length_cons]
      cases pub with
      | true =>
        have hafter : work e = 4 * (rest.length + (d.waiting .pub).length) + 1 := rfl
        omega
      | false =>
        have hafter : work e = 4 * (rest.length + (d.waiting .pub).length) + 4 := rfl
        omega
  | second pub =>
    simp only [Ready, hpc] at h
    cases pub with
    | false =>
      refine ⟨.second, { d with pc := .polling }, by simp [IsArrival], by simp [step, hpc], ?_⟩
      simp [work, hpc]
    | true =>
      obtain ⟨p, rest, hhead⟩ := List.exists_cons_of_ne_nil (h rfl)
      let e : Device := ⟨Function.update d.waiting .pub rest,
        Function.update d.sent .sub (d.sent .sub ++ [forwarded p]), .polling⟩
      have hstep : step d .second = some e := by
        simp [step, hpc, relay, hhead, e, forwarded]
      refine ⟨.second, e, by simp [IsArrival], hstep, ?_⟩
      simp [work, hpc, hhead, e]
      omega

/-- **The device relays everything that waits.** -/
theorem exists_drained {d : Device} (h : Ready d) :
    ∃ bs e, (∀ b ∈ bs, ¬ IsArrival b) ∧ run step d bs = some e ∧
      ∀ side, e.waiting side = [] := by
  induction hwork : work d using Nat.strong_induction_on generalizing d with
  | _ n ih =>
    by_cases hwait : ∃ side, d.waiting side ≠ []
    · obtain ⟨a, d', harrival, hstep, hlt⟩ := exists_step_of_ready h hwait
      obtain ⟨bs, e, hbs, hrun, hempty⟩ := ih (work d') (hwork ▸ hlt) (ready_step h hstep) rfl
      refine ⟨a :: bs, e, ?_, run_cons_eq_some.mpr ⟨d', hstep, hrun⟩, hempty⟩
      exact List.forall_mem_cons.mpr ⟨harrival, hbs⟩
    · exact ⟨[], d, by simp, rfl, by simpa using hwait⟩

/-- **The device is transparent just as long as it relays last parts.**  After a run, what
has left are the messages that have arrived, with their parts and flags, if and only if
every part the device has relayed came as a last one.  In any case every part is forwarded
once and in order, and the device relays everything that waits. -/
theorem transparent_iff {as : List Action} {d : Device} (hrun : run step start as = some d) :
    (Transparent as d ↔ Along step KeepsFlag start as) ∧
      (∀ side, (d.sent side.other ++ d.waiting side).map FlaggedPart.data =
        (arrivals side as).flatten) ∧
      ∃ bs e, (∀ b ∈ bs, ¬ IsArrival b) ∧ run step d bs = some e ∧
        ∀ side, e.waiting side = [] := by
  refine ⟨transparent_iff_along hrun, relayed_once hrun, ?_⟩
  have hstart : Ready start := trivial
  exact exists_drained (invariant_of_run (fun _ _ _ => ready_step) hstart hrun)

/-- A message of one part passes. -/
def onePart : List Action := [.arrive .pub [[1]], .poll, .first, .second]

theorem transparent_iff_onePart :
    ∃ d, run step start onePart = some d ∧ (Transparent onePart d ↔
      Along step KeepsFlag start onePart) ∧ d.sent .sub = [⟨[1], false⟩] := by
  obtain ⟨d, hrun, hsent⟩ : ∃ d, run step start onePart = some d ∧
      d.sent .sub = [⟨[1], false⟩] := ⟨_, rfl, rfl⟩
  exact ⟨d, hrun, (transparent_iff hrun).1, hsent⟩

/-- A message of two parts on the XSUB socket. -/
def twoParts : List Action := [.arrive .sub [[1], [2]], .poll, .first, .second]

/-- **A message of two parts is taken apart**: its first part leaves as a message. -/
theorem twoParts_taken_apart :
    ∃ d, run step start twoParts = some d ∧ d.sent .pub = [⟨[1], false⟩] ∧
      ¬ Transparent twoParts d := by
  obtain ⟨d, hrun, hsent, hwaiting⟩ : ∃ d, run step start twoParts = some d ∧
      d.sent .pub = [⟨[1], false⟩] ∧ d.waiting .sub = [⟨[2], false⟩] := ⟨_, rfl, rfl, rfl⟩
  refine ⟨d, hrun, hsent, ?_⟩
  intro h
  have hparts := h.parts_eq .sub
  rw [show Side.sub.other = .pub from rfl, hsent, hwaiting] at hparts
  exact absurd hparts (by decide)

end Relay
end ZmqIssues
