import ZmqIssues.Lib.Machine
import ZmqIssues.Lib.Numbers
import ZmqIssues.Subscriber.Loops

/-!
# The verdicts of the two 3.0 subscribers

`sub.c` and `sub2.c` check the same messages of three parts.  `sub2.c` asks for the more
flag in a function that passes the size of an `int`; `sub.c` passes the address of a
variable it never sets.  `zmq_getsockopt` fails where this happens to hold less than the
size of an `int`, and then the program aborts on a part there is nothing wrong with.  The
call sets the variable when it succeeds, so that only the first part of each round of the
loop is in danger.

Both programs wait for a part, check it and wait for the next one; they are modelled by
what they do with one part.  The library is not part of the repository: what the programs
use of it is a parameter, with the documented behaviour.

## Main definitions

* `Libzmq` — the calls the programs make, and what is documented of them.
* `Sub.step`, `Sub2.step` — what the two programs do with the next part.
* `SameVerdict` — both fail an assertion at the same part, or none does.
* `LengthsHeld` — the uninitialised length is large enough wherever it matters.
* `SizesHeld` — no part is taken by `sub.c` for one of another size.

## Main results

* `Sub2.run_eq_some_iff` — `sub2.c` gets through parts of whole messages only.
* `Sub.isSome_step_iff` — what `sub.c` asks of a part.
* `verdicts_agree_iff` — **the verdicts are the same exactly if the length is large enough.**
-/

namespace ZmqIssues
namespace Subscriber

open Machine Numbers Reader

/-! ### The library -/

/-- `sizeof (int)`. -/
def sizeofInt : ℕ := 4

/-- The calls the programs make. -/
structure Libzmq where
  /-- The result of `zmq_recv`, for the length of the buffer and the size of the part. -/
  recv : ℕ → ℕ → ℤ
  /-- `zmq_getsockopt` with `ZMQ_RCVMORE`: for the more flag of the part last received,
  `*optval` and `*optvallen`, its result and the two variables behind the call. -/
  getsockopt : Bool → ℤ → ℕ → ℤ × ℤ × ℕ
  /-- The result is the size of the part, also if it is truncated; an `int` must hold it. -/
  recv_eq : ∀ len size, size < 2 ^ 31 → recv len size = size
  /-- With a length that is too small the call fails, and nothing is stored. -/
  getsockopt_short : ∀ more optval optvallen, optvallen < sizeofInt →
    getsockopt more optval optvallen = (-1, optval, optvallen)
  /-- Otherwise the flag and its size are stored. -/
  getsockopt_full : ∀ more optval optvallen, sizeofInt ≤ optvallen →
    getsockopt more optval optvallen = (0, if more then 1 else 0, sizeofInt)

variable (zmq : Libzmq)

/-! ### The programs -/

/-- The assertion that fails. -/
inductive Assertion
  /-- The one on the size. -/
  | size (size : ℕ)
  /-- `assert (rc == 0)` behind `zmq_getsockopt`. -/
  | getsockopt
  /-- The one on the more flag. -/
  | more (more : Bool)
  deriving DecidableEq, Repr

/-- The parts of a message, one after another in the body of the loop. -/
inductive Place
  /-- The first part. -/
  | first
  /-- The second part. -/
  | second
  /-- The third part. -/
  | third
  deriving DecidableEq, Repr

/-- Where a program waits: the round of its loop, and the part it waits for. -/
structure Waiting where
  /-- Number of the round. -/
  round : ℕ
  /-- The part it waits for. -/
  place : Place
  deriving DecidableEq, Repr

/-- A program enters its loop. -/
def Waiting.start : Waiting := ⟨0, .first⟩

/-- Where it waits for the next part. -/
def Waiting.next : Waiting → Waiting
  | ⟨round, .first⟩ => ⟨round, .second⟩
  | ⟨round, .second⟩ => ⟨round, .third⟩
  | ⟨round, .third⟩ => ⟨round + 1, .first⟩

namespace Sub

/-- The variables of the loop of `sub.c`. -/
structure Locals where
  /-- `more`. -/
  more : ℤ
  /-- `moresz`. -/
  moresz : ℕ
  deriving DecidableEq, Repr

/-- `sub.c`, waiting for a part. -/
structure State extends Waiting where
  /-- The variables. -/
  locals : Locals
  deriving DecidableEq, Repr

/-- A part is received and checked. -/
def receivePart (size : ℕ) (more : Bool) (v : Locals) (part : Part) :
    Except Assertion Locals := do
  let rc := zmq.recv 1000 part.size
  check (rc == size) (.size size)
  let (rc, optval, optvallen) := zmq.getsockopt part.more v.more v.moresz
  check (rc == 0) .getsockopt
  check (decide (optval ≠ 0) == more) (.more more)
  return ⟨optval, optvallen⟩

/-- What `sub.c` does with the next part.  The variables are declared in the body of the
loop, behind the first `zmq_recv`: in each round they hold what is there. -/
def receive (contents : ℕ → Locals) (s : State) (part : Part) : Except Assertion State := do
  let v ← match s.place with
    | .first => receivePart zmq 5 true (contents s.round) part
    | .second => receivePart zmq 4 true s.locals part
    | .third => receivePart zmq 1000 false s.locals part
  return { s.toWaiting.next with locals := v }

/-- It goes on, or an assertion fails. -/
def step (contents : ℕ → Locals) (s : State) (part : Part) : Option State :=
  (receive zmq contents s part).toOption

/-- It enters its loop. -/
def start (contents : ℕ → Locals) : State := { Waiting.start with locals := contents 0 }

end Sub

namespace Sub2

/-- `zsockopt_rcvmore`, with what `rcvmore` holds before the call. -/
def zsockoptRcvmore (rcvmore : ℤ) (part : Part) : ℤ :=
  let (_, rcvmore, _) := zmq.getsockopt part.more rcvmore sizeofInt
  rcvmore

/-- A part is received and checked. -/
def receivePart (size : ℕ) (more : Bool) (rcvmore : ℤ) (part : Part) : Except Assertion Unit := do
  check (part.size == size) (.size size)
  check (decide (zsockoptRcvmore zmq rcvmore part ≠ 0) == more) (.more more)

/-- What `sub2.c` does with the next part. -/
def receive (contents : Waiting → ℤ) (s : Waiting) (part : Part) : Except Assertion Waiting := do
  match s.place with
    | .first => receivePart zmq 5 true (contents s) part
    | .second => receivePart zmq 4 true (contents s) part
    | .third => receivePart zmq 1000 false (contents s) part
  return s.next

/-- It goes on, or an assertion fails. -/
def step (contents : Waiting → ℤ) (s : Waiting) (part : Part) : Option Waiting :=
  (receive zmq contents s part).toOption

end Sub2

/-! ### Whole messages -/

/-- The parts of the first messages of the publisher. -/
def wholeMessages (n : ℕ) : List Part := (emit n).map Sent.part

theorem wholeMessages_succ (n : ℕ) :
    wholeMessages (n + 1) = wholeMessages n ++ [topicPart, seqPart, bodyPart] := by
  simp [wholeMessages, emit, List.range_succ, emitOnce]

theorem length_wholeMessages (n : ℕ) : (wholeMessages n).length = 3 * n := by
  induction n with
  | zero => rfl
  | succ n ih =>
    rw [wholeMessages_succ, List.length_append, ih]
    rfl

/-- The part of a message that belongs here. -/
def Place.expected : Place → Part
  | .first => topicPart
  | .second => seqPart
  | .third => bodyPart

/-- The parts of the message before it. -/
def Place.before : Place → List Part
  | .first => []
  | .second => [topicPart]
  | .third => [topicPart, seqPart]

/-- What a program has received if all was in order. -/
def Waiting.received (s : Waiting) : List Part := wholeMessages s.round ++ s.place.before

theorem Waiting.received_next (s : Waiting) :
    s.next.received = s.received ++ [s.place.expected] := by
  obtain ⟨round, place⟩ := s
  cases place with
  | first => simp [received, next, Place.before, Place.expected]
  | second => simp [received, next, Place.before, Place.expected]
  | third => simp [received, next, Place.before, Place.expected, wholeMessages_succ]

/-- A program gets to every place, one part after another. -/
theorem Waiting.induction {P : Waiting → Prop} (hstart : P .start) (hnext : ∀ s, P s → P s.next)
    (s : Waiting) : P s := by
  have hfirst : ∀ round, P ⟨round, .first⟩ := by
    intro round
    induction round with
    | zero => exact hstart
    | succ round ih => exact hnext _ (hnext _ (hnext _ ih))
  obtain ⟨round, place⟩ := s
  cases place with
  | first => exact hfirst round
  | second => exact hnext _ (hfirst round)
  | third => exact hnext _ (hnext _ (hfirst round))

/-- The number of parts tells where the program waits. -/
theorem Waiting.eq_of_length_received {s t : Waiting}
    (h : s.received.length = t.received.length) : s = t := by
  obtain ⟨round, place⟩ := s
  obtain ⟨round', place'⟩ := t
  simp only [received, List.length_append, length_wholeMessages] at h
  cases place <;> cases place' <;> simp [Place.before] at h ⊢ <;> omega

/-- The flag that is stored. -/
theorem decide_stored_ne_zero (more : Bool) :
    decide ((if more then 1 else 0 : ℤ) ≠ 0) = more := by
  cases more <;> rfl

/-! ### What `sub2.c` asks of the parts -/

namespace Sub2

variable {zmq} {contents : Waiting → ℤ}

/-- The variable is set in any case. -/
theorem decide_zsockoptRcvmore_ne_zero (rcvmore : ℤ) (part : Part) :
    decide (zsockoptRcvmore zmq rcvmore part ≠ 0) = part.more := by
  rw [zsockoptRcvmore, zmq.getsockopt_full _ _ _ (Nat.le_refl sizeofInt)]
  exact decide_stored_ne_zero part.more

theorem receivePart_eq_ok {size : ℕ} {more : Bool} {rcvmore : ℤ} {part : Part} {u : Unit} :
    receivePart zmq size more rcvmore part = .ok u ↔ part = ⟨size, more⟩ := by
  obtain ⟨s, m⟩ := part
  rw [receivePart, decide_zsockoptRcvmore_ne_zero]
  simp

theorem receive_eq (s : Waiting) (part : Part) :
    receive zmq contents s part =
      receivePart zmq s.place.expected.size s.place.expected.more (contents s) part >>=
        fun _ => .ok s.next := by
  obtain ⟨round, place⟩ := s
  cases place <;> rfl

/-- In front of a message the first assertion is the one on the size. -/
theorem receive_first_of_size_ne {round : ℕ} {part : Part} (h : part.size ≠ topicPart.size) :
    receive zmq contents ⟨round, .first⟩ part = .error (.size topicPart.size) := by
  rw [receive_eq]
  show (receivePart zmq topicPart.size true _ part >>= _) = _
  rw [receivePart, check_of_not (by simpa using h), error_bind, error_bind]

/-- **It accepts just the part that belongs here.** -/
theorem step_eq_some {s t : Waiting} {part : Part} :
    step zmq contents s part = some t ↔ part = s.place.expected ∧ t = s.next := by
  rw [step, toOption_eq_some, receive_eq, bind_eq_ok]
  constructor
  · intro h
    obtain ⟨_, hpart, ht⟩ := h
    exact ⟨receivePart_eq_ok.mp hpart, (Except.ok.inj ht).symm⟩
  · intro h
    obtain ⟨hpart, rfl⟩ := h
    exact ⟨(), receivePart_eq_ok.mpr hpart, rfl⟩

theorem isSome_step_iff {s : Waiting} {part : Part} :
    (step zmq contents s part).isSome ↔ part = s.place.expected := by
  simp [Option.isSome_iff_exists, step_eq_some]

/-- It gets through the parts of whole messages, up to anywhere in the last one, and
through no others. -/
theorem run_eq_some_iff {s : Waiting} {parts : List Part} :
    run (step zmq contents) Waiting.start parts = some s ↔ parts = s.received := by
  have hinv : ∀ {parts s}, run (step zmq contents) Waiting.start parts = some s →
      parts = s.received := by
    intro parts s hrun
    refine invariant_of_history (I := fun parts s => parts = s.received) rfl ?_ hrun
    intro parts s part t h hstep
    obtain ⟨rfl, rfl⟩ := step_eq_some.mp hstep
    rw [h, Waiting.received_next]
  constructor
  · exact hinv
  · intro h
    subst h
    induction s using Waiting.induction with
    | hstart => rfl
    | hnext s ih =>
      rw [Waiting.received_next]
      exact run_concat_eq_some.mpr ⟨s, ih, step_eq_some.mpr ⟨rfl, rfl⟩⟩

/-- It waits for the first part of the next message behind whole messages. -/
theorem run_wholeMessages (n : ℕ) :
    run (step zmq contents) Waiting.start (wholeMessages n) = some ⟨n, .first⟩ :=
  run_eq_some_iff.mpr (List.append_nil _).symm

end Sub2

/-! ### What `sub.c` asks of the parts -/

namespace Sub

variable {zmq} {contents : ℕ → Locals}

/-- The variables the program has where it waits. -/
def State.variables (contents : ℕ → Locals) (s : State) : Locals :=
  match s.place with
  | .first => contents s.round
  | _ => s.locals

theorem receivePart_eq_ok {size : ℕ} {more : Bool} {v v' : Locals} {part : Part} :
    receivePart zmq size more v part = .ok v' ↔ zmq.recv 1000 part.size = size ∧
      sizeofInt ≤ v.moresz ∧ part.more = more ∧ v' = ⟨if part.more then 1 else 0, sizeofInt⟩ := by
  obtain ⟨s, m⟩ := part
  rcases Nat.lt_or_ge v.moresz sizeofInt with hlt | hge
  · simp [receivePart, zmq.getsockopt_short _ _ _ hlt, Nat.not_le.mpr hlt]
  · simp only [receivePart, zmq.getsockopt_full _ _ _ hge, bind_eq_ok, check_eq_ok, beq_iff_eq,
      decide_stored_ne_zero]
    constructor
    · intro h
      obtain ⟨_, hrecv, _, -, _, hmore, hv⟩ := h
      exact ⟨hrecv, hge, hmore, (Except.ok.inj hv).symm⟩
    · intro h
      obtain ⟨hrecv, -, hmore, rfl⟩ := h
      exact ⟨(), hrecv, (), trivial, (), hmore, rfl⟩

theorem receive_eq (s : State) (part : Part) :
    receive zmq contents s part =
      receivePart zmq s.place.expected.size s.place.expected.more (s.variables contents) part >>=
        fun v => .ok { s.toWaiting.next with locals := v } := by
  obtain ⟨⟨round, place⟩, v⟩ := s
  cases place <;> rfl

/-- What a step needs, and what it leaves. -/
theorem step_eq_some {s t : State} {part : Part} :
    step zmq contents s part = some t ↔
      zmq.recv 1000 part.size = s.place.expected.size ∧
      sizeofInt ≤ (s.variables contents).moresz ∧ part.more = s.place.expected.more ∧
      t = { s.toWaiting.next with locals := ⟨if part.more then 1 else 0, sizeofInt⟩ } := by
  rw [step, toOption_eq_some, receive_eq, bind_eq_ok]
  constructor
  · intro h
    obtain ⟨v, hpart, ht⟩ := h
    obtain ⟨hrecv, hlen, hmore, rfl⟩ := receivePart_eq_ok.mp hpart
    exact ⟨hrecv, hlen, hmore, (Except.ok.inj ht).symm⟩
  · intro h
    obtain ⟨hrecv, hlen, hmore, rfl⟩ := h
    exact ⟨_, receivePart_eq_ok.mpr ⟨hrecv, hlen, hmore, rfl⟩, rfl⟩

/-- What holds where the program waits: the number of parts it has received is that of its
place, and behind the first part of a message the length has been set. -/
structure Got (parts : List Part) (s : State) : Prop where
  /-- The number of parts. -/
  length_eq : parts.length = s.received.length
  /-- The length. -/
  moresz_eq : s.place ≠ .first → s.locals.moresz = sizeofInt

theorem Got.of_run {parts : List Part} {s : State}
    (hrun : run (step zmq contents) (start contents) parts = some s) : Got parts s := by
  refine invariant_of_history (I := Got) ⟨rfl, fun h => absurd rfl h⟩ ?_ hrun
  intro parts s part t h hstep
  obtain ⟨-, -, -, rfl⟩ := step_eq_some.mp hstep
  refine ⟨?_, fun _ => rfl⟩
  show (parts ++ [part]).length = s.toWaiting.next.received.length
  rw [Waiting.received_next, List.length_append, List.length_append, h.length_eq]
  rfl

/-- **What `sub.c` asks of a part**: the size it is told and the flag, and for the first
part of a message that the length happens to be large enough. -/
theorem isSome_step_iff {s : State} {parts : List Part} (h : Got parts s) (part : Part) :
    (step zmq contents s part).isSome ↔
      zmq.recv 1000 part.size = s.place.expected.size ∧ part.more = s.place.expected.more ∧
      (s.place = .first → sizeofInt ≤ (contents s.round).moresz) := by
  have hlen : sizeofInt ≤ (s.variables contents).moresz ↔
      (s.place = .first → sizeofInt ≤ (contents s.round).moresz) := by
    have hset := h.moresz_eq
    unfold State.variables
    cases hplace : s.place with
    | first => simp
    | second => simp [hset (by simp [hplace])]
    | third => simp [hset (by simp [hplace])]
  rw [← hlen, Option.isSome_iff_exists]
  constructor
  · intro hstep
    obtain ⟨t, ht⟩ := hstep
    obtain ⟨hrecv, hlen, hmore, -⟩ := step_eq_some.mp ht
    exact ⟨hrecv, hmore, hlen⟩
  · intro hstep
    obtain ⟨hrecv, hmore, hlen⟩ := hstep
    exact ⟨_, step_eq_some.mpr ⟨hrecv, hlen, hmore, rfl⟩⟩

end Sub

/-! ### The verdicts -/

/-- The two programs fail an assertion at the same part, or both get through all parts. -/
def SameVerdict (contents : ℕ → Sub.Locals) (contents₂ : Waiting → ℤ) (parts : List Part) : Prop :=
  failsAt (Sub.step zmq contents) (Sub.start contents) parts =
    failsAt (Sub2.step zmq contents₂) Waiting.start parts

/-- Wherever the first part of a message is received behind whole messages, `moresz` happens
to hold the size of an `int` at least. -/
def LengthsHeld (contents : ℕ → Sub.Locals) (parts : List Part) : Prop :=
  ∀ round, wholeMessages round ++ [topicPart] <+: parts → sizeofInt ≤ (contents round).moresz

/-- Behind parts that belong where they are, `sub.c` lets no part pass that has another size
than `zmq_recv` says. -/
def SizesHeld (contents : ℕ → Sub.Locals) (parts : List Part) : Prop :=
  ∀ (s : Waiting) (part : Part), s.received ++ [part] <+: parts →
    zmq.recv 1000 part.size = s.place.expected.size → part.more = s.place.expected.more →
    (s.place = .first → sizeofInt ≤ (contents s.round).moresz) → part.size = s.place.expected.size

section

variable {zmq} {contents : ℕ → Sub.Locals} {contents₂ : Waiting → ℤ} {parts : List Part}

theorem sameVerdict_iff_forall : SameVerdict zmq contents contents₂ parts ↔
    ∀ pre, pre <+: parts → ((run (Sub.step zmq contents) (Sub.start contents) pre).isSome ↔
      (run (Sub2.step zmq contents₂) Waiting.start pre).isSome) :=
  failsAt_eq_iff

/-- Where both programs wait, they wait for the same part. -/
theorem eq_of_run {pre : List Part} {s : Sub.State} {t : Waiting}
    (hs : run (Sub.step zmq contents) (Sub.start contents) pre = some s)
    (ht : run (Sub2.step zmq contents₂) Waiting.start pre = some t) : s.toWaiting = t := by
  have hlen := (Sub.Got.of_run hs).length_eq
  rw [Sub2.run_eq_some_iff.mp ht] at hlen
  exact (Waiting.eq_of_length_received hlen).symm

/-- What is to come has a size that an `int` holds. -/
theorem recv_expected (place : Place) :
    zmq.recv 1000 place.expected.size = place.expected.size := by
  refine zmq.recv_eq 1000 _ ?_
  cases place <;> decide

/-- With the same verdict, `sub.c` gets wherever `sub2.c` gets. -/
theorem SameVerdict.exists_run (h : SameVerdict zmq contents contents₂ parts) {t : Waiting}
    (hpre : t.received <+: parts) :
    ∃ s : Sub.State, run (Sub.step zmq contents) (Sub.start contents) t.received = some s ∧
      s.toWaiting = t := by
  have ht : run (Sub2.step zmq contents₂) Waiting.start t.received = some t :=
    Sub2.run_eq_some_iff.mpr rfl
  have hgets := (sameVerdict_iff_forall.mp h t.received hpre).mpr (by rw [ht]; rfl)
  obtain ⟨s, hs⟩ := Option.isSome_iff_exists.mp hgets
  exact ⟨s, hs, eq_of_run hs ht⟩

theorem SameVerdict.lengthsHeld (h : SameVerdict zmq contents contents₂ parts) :
    LengthsHeld contents parts := by
  intro round hpre
  -- the first part of the message is behind the program
  have hsecond : (⟨round, .second⟩ : Waiting).received <+: parts := hpre
  obtain ⟨u, hu, -⟩ := h.exists_run hsecond
  obtain ⟨s, hs, hstep⟩ := run_concat_eq_some.mp hu
  have ht : run (Sub2.step zmq contents₂) Waiting.start (wholeMessages round) =
      some ⟨round, .first⟩ := Sub2.run_wholeMessages round
  have hat := eq_of_run hs ht
  have hasked := (Sub.isSome_step_iff (Sub.Got.of_run hs) topicPart).mp
    (Option.isSome_iff_exists.mpr ⟨u, hstep⟩)
  rw [hat] at hasked
  exact hasked.2.2 rfl

theorem SameVerdict.sizesHeld (h : SameVerdict zmq contents contents₂ parts) :
    SizesHeld zmq contents parts := by
  intro t part hpre hrecv hmore hlen
  obtain ⟨s, hs, rfl⟩ := h.exists_run ((List.prefix_append _ _).trans hpre)
  have hstep := (Sub.isSome_step_iff (Sub.Got.of_run hs) part).mpr ⟨hrecv, hmore, hlen⟩
  obtain ⟨s', hs'⟩ := Option.isSome_iff_exists.mp hstep
  have hrun := run_concat_eq_some.mpr ⟨s, hs, hs'⟩
  -- so `sub2.c` has let it pass, too
  have hgets := (sameVerdict_iff_forall.mp h _ hpre).mp (by rw [hrun]; rfl)
  obtain ⟨t', ht'⟩ := Option.isSome_iff_exists.mp hgets
  obtain ⟨t, ht, hstep₂⟩ := run_concat_eq_some.mp ht'
  rw [(Sub2.step_eq_some.mp hstep₂).1, ← eq_of_run hs ht]

/-- **The exact condition.** -/
theorem sameVerdict_iff :
    SameVerdict zmq contents contents₂ parts ↔
      LengthsHeld contents parts ∧ SizesHeld zmq contents parts := by
  constructor
  · intro h
    exact ⟨h.lengthsHeld, h.sizesHeld⟩
  · intro h
    obtain ⟨hlengths, hsizes⟩ := h
    refine sameVerdict_iff_forall.mpr (isSome_run_iff_of_step ?_)
    intro pre part s t hpre hs ht
    obtain rfl := Sub2.run_eq_some_iff.mp ht
    obtain rfl := eq_of_run hs ht
    rw [Sub.isSome_step_iff (Sub.Got.of_run hs), Sub2.isSome_step_iff]
    constructor
    · intro hasked
      obtain ⟨hrecv, hmore, hlen⟩ := hasked
      have hsize := hsizes s.toWaiting part hpre hrecv hmore hlen
      calc part = ⟨part.size, part.more⟩ := rfl
        _ = s.place.expected := by rw [hsize, hmore]
    · intro hpart
      subst hpart
      refine ⟨recv_expected s.place, rfl, ?_⟩
      intro hfirst
      apply hlengths s.round
      rw [Waiting.received, hfirst] at hpre
      simpa [Place.before, Place.expected] using hpre

/-- Where `zmq_recv` returns the sizes of the parts, the lengths alone decide. -/
theorem sizesHeld_of_forall (h : ∀ part ∈ parts, zmq.recv 1000 part.size = part.size) :
    SizesHeld zmq contents parts := by
  intro s part hpre hrecv _ _
  have hmem : part ∈ parts := hpre.subset (List.mem_append_right _ (List.mem_singleton_self part))
  rw [h part hmem] at hrecv
  exact Int.ofNat.inj hrecv

/-! ### Whole messages again -/

theorem wholeMessages_isPrefix {m n : ℕ} (h : m ≤ n) : wholeMessages m <+: wholeMessages n := by
  induction h with
  | refl => exact List.prefix_rfl
  | step _ ih =>
    rw [wholeMessages_succ]
    exact ih.trans (List.prefix_append _ _)

/-- The rounds of whole messages. -/
theorem lengthsHeld_wholeMessages {n : ℕ} :
    LengthsHeld contents (wholeMessages n) ↔ ∀ round < n, sizeofInt ≤ (contents round).moresz := by
  constructor
  · intro h round hround
    apply h round
    have hnext := wholeMessages_isPrefix (Nat.succ_le_of_lt hround)
    rw [wholeMessages_succ] at hnext
    exact (List.prefix_append_right_inj _).mpr (by simp) |>.trans hnext
  · intro h round hpre
    have hlen := hpre.length_le
    rw [List.length_append, length_wholeMessages, length_wholeMessages, List.length_singleton]
      at hlen
    exact h round (by omega)

theorem recv_wholeMessages (n : ℕ) :
    ∀ part ∈ wholeMessages n, zmq.recv 1000 part.size = part.size := by
  induction n with
  | zero => simp [wholeMessages, emit]
  | succ n ih =>
    rw [wholeMessages_succ, List.forall_mem_append]
    refine ⟨ih, ?_⟩
    simp only [List.forall_mem_cons]
    exact ⟨recv_expected .first, recv_expected .second, recv_expected .third, by simp⟩

/-- Where the variables keep their memory from one round to the next, `moresz` has been set
in all rounds but the first. -/
theorem lengthsHeld_iff_of_kept (h : ∀ round, (contents (round + 1)).moresz = sizeofInt) :
    LengthsHeld contents parts ↔ ([topicPart] <+: parts → sizeofInt ≤ (contents 0).moresz) := by
  constructor
  · intro hheld
    exact hheld 0
  · intro hheld round hpre
    cases round with
    | zero => exact hheld hpre
    | succ round => exact (h round).ge

end

/-- **The two verdicts are the same exactly if the length is large enough** wherever it is
used uninitialised: as long as `zmq_recv` returns the sizes of the parts, which it does for
all that fit an `int`; otherwise `sub.c` must also not take a part for one of another size.
`sub2.c` accepts all sequences of whole messages, `sub.c` only with large enough lengths.
Where the variables keep their memory, the first round alone is in question. -/
theorem verdicts_agree_iff (contents : ℕ → Sub.Locals) (contents₂ : Waiting → ℤ)
    (parts : List Part) :
    ((∀ part ∈ parts, zmq.recv 1000 part.size = part.size) →
      (SameVerdict zmq contents contents₂ parts ↔ LengthsHeld contents parts)) ∧
    (SameVerdict zmq contents contents₂ parts ↔
      LengthsHeld contents parts ∧ SizesHeld zmq contents parts) ∧
    (∀ n, failsAt (Sub2.step zmq contents₂) Waiting.start (wholeMessages n) = none ∧
      (failsAt (Sub.step zmq contents) (Sub.start contents) (wholeMessages n) = none ↔
        ∀ round < n, sizeofInt ≤ (contents round).moresz)) ∧
    ((∀ round, (contents (round + 1)).moresz = sizeofInt) →
      (SameVerdict zmq contents contents₂ parts ↔
        ([topicPart] <+: parts → sizeofInt ≤ (contents 0).moresz) ∧
          SizesHeld zmq contents parts)) := by
  refine ⟨?_, sameVerdict_iff, ?_, ?_⟩
  · intro hrecv
    rw [sameVerdict_iff]
    exact and_iff_left (sizesHeld_of_forall hrecv)
  · intro n
    have hnone : failsAt (Sub2.step zmq contents₂) Waiting.start (wholeMessages n) = none := by
      rw [failsAt_eq_none_iff, Sub2.run_wholeMessages]
      rfl
    have hsame : SameVerdict zmq contents contents₂ (wholeMessages n) ↔
        LengthsHeld contents (wholeMessages n) ∧ SizesHeld zmq contents (wholeMessages n) :=
      sameVerdict_iff
    refine ⟨hnone, ?_⟩
    rw [SameVerdict, hnone, lengthsHeld_wholeMessages] at hsame
    rw [hsame]
    exact and_iff_left (sizesHeld_of_forall (recv_wholeMessages n))
  · intro hkept
    rw [sameVerdict_iff, lengthsHeld_iff_of_kept hkept]

/-- The library as documented; sizes are converted to `int`. -/
def libzmq : Libzmq where
  recv _ size := int32 size
  getsockopt more optval optvallen :=
    if optvallen < sizeofInt then (-1, optval, optvallen)
    else (0, if more then 1 else 0, sizeofInt)
  recv_eq _ _ hsize := int32_natCast hsize
  getsockopt_short _ _ _ h := if_pos h
  getsockopt_full _ _ _ h := if_neg (Nat.not_lt.mpr h)

/-- With a length that happens to be large, both accept a message. -/
theorem verdicts_agree_iff_large :
    failsAt (Sub.step libzmq fun _ => ⟨7, 1000⟩) (Sub.start fun _ => ⟨7, 1000⟩)
      (wholeMessages 2) = none := by
  refine ((verdicts_agree_iff libzmq (fun _ => ⟨7, 1000⟩) (fun _ => 7) []).2.2.1 2).2.mpr ?_
  intro round _
  show 4 ≤ 1000
  decide

/-- **With a length that happens to be zero, `sub.c` aborts on the first part of a whole
message**, on the assertion behind `zmq_getsockopt`; `sub2.c` accepts the message. -/
theorem sub_aborts :
    failsAt (Sub.step libzmq fun _ => ⟨0, 0⟩) (Sub.start fun _ => ⟨0, 0⟩)
        [topicPart, seqPart, bodyPart] = some 0 ∧
      Sub.receive libzmq (fun _ => ⟨0, 0⟩) (Sub.start fun _ => ⟨0, 0⟩) topicPart =
        .error .getsockopt ∧
      failsAt (Sub2.step libzmq fun _ => 0) Waiting.start [topicPart, seqPart, bodyPart] = none ∧
      ¬ SameVerdict libzmq (fun _ => ⟨0, 0⟩) (fun _ => 0) [topicPart, seqPart, bodyPart] := by
  refine ⟨by decide, rfl, by decide, ?_⟩
  unfold SameVerdict
  decide

end Subscriber
end ZmqIssues
