import ZmqIssues.Lib.CStrings
import ZmqIssues.Lib.Multipart
import ZmqIssues.Lib.Numbers

/-!
# The receive loop of issue 511

The test sends ten messages of three parts and counts what a router receives.  After each
part it asks the socket for `ZMQ_RCVMORE`, but it stores the result of `zmq_getsockopt`,
which is 0, over the flag that was stored for it.  So every message ends for it behind the
second part, which is the first one it checks.

## Main definitions

* `receiveLoop` — the inner loop, which receives a message.
* `receiveMessages` — the outer loop, and the assertions.
* `Aligned` — an iteration has received a message.

## Main results

* `receiveLoop_two` — the inner loop stops behind two parts.
* `counts_correctly_iff` — **the parts are counted correctly just for messages of two.**
-/

namespace ZmqIssues
namespace RouterMore

open CStrings Multipart Numbers

/-- A message, as the list of its parts. -/
abbrev Message := List (List UInt8)

/-- What waits on the socket. -/
abbrev Queue := List (FlaggedPart (List UInt8))

/-- `zmq_getsockopt` for `ZMQ_RCVMORE`: its result, and the value it stores. -/
def getsockopt (rcvMore : Bool) : ℤ × ℤ := (0, if rcvMore then 1 else 0)

/-- What an iteration of the outer loop prints at its end. -/
inductive Print
  /-- `"Did not get %d message, part: %d"`. -/
  | didNotGet (parts : ℕ)
  /-- `"End of message, got %d parts"`. -/
  | endOfMessage (parts : ℕ)
  deriving DecidableEq, Repr

/-- The inner loop, with the parts that wait: what it prints at its end, and the parts it
leaves. -/
def receiveLoop : Queue → ℕ → Bool → Print × Queue
  -- `zmq_recv` does not wait
  | [], parts, _ => (.didNotGet parts, [])
  | p :: queue, parts, hasWhoSend =>
    -- the flag is stored in `more`, and the result of the call over it
    let (rc, _) := getsockopt p.more
    let more := rc
    let parts := parts + 1
    if hasWhoSend = false then
      receiveLoop queue parts true
    else if more = 0 then
      (.endOfMessage parts, queue)
    else
      receiveLoop queue parts hasWhoSend

/-- An iteration of the outer loop. -/
structure Iteration where
  /-- The parts that wait before it. -/
  before : Queue
  /-- What it prints. -/
  print : Print
  /-- The parts that wait behind it. -/
  after : Queue
  deriving DecidableEq, Repr

/-- How the program ends. -/
inductive Ending
  /-- `assert (parts == 3)` fails. -/
  | partsFailed
  /-- `assert (seen == 10)` fails. -/
  | seenFailed
  /-- No assertion fails. -/
  | finished
  deriving DecidableEq, Repr

/-- The outer loop, with `n` iterations to go: the iterations, and how the program ends. -/
def receiveMessages : ℕ → Queue → ℕ → List Iteration × Ending
  | 0, _, seen => ([], if seen = 10 then .finished else .seenFailed)
  | n + 1, queue, seen =>
    match receiveLoop queue 0 false with
    | (.didNotGet parts, rest) =>
      let (iterations, ending) := receiveMessages n rest seen
      (⟨queue, .didNotGet parts, rest⟩ :: iterations, ending)
    | (.endOfMessage parts, rest) =>
      if parts = 3 then
        let (iterations, ending) := receiveMessages n rest (seen + 1)
        (⟨queue, .endOfMessage parts, rest⟩ :: iterations, ending)
      else
        ([⟨queue, .endOfMessage parts, rest⟩], .partsFailed)

/-- The receiving part of `main`. -/
def receiveAll (queue : Queue) : List Iteration × Ending := receiveMessages 10 queue 0

/-- If the iteration prints the end of a message, it has received a message, printed the
number of its parts, and left the messages behind it. -/
def Aligned (ms : List Message) (it : Iteration) : Prop :=
  ∀ n, it.print = .endOfMessage n →
    ∃ m rest, m :: rest <:+ ms ∧ it.before = (m :: rest).flatMap parts ∧ n = m.length ∧
      it.after = rest.flatMap parts

/-- The parts are counted correctly: every iteration is aligned, and ten messages of three
parts are received without a failing assertion. -/
structure CountsCorrectly (ms : List Message) : Prop where
  /-- Every iteration is aligned. -/
  aligned : ∀ it ∈ (receiveAll (ms.flatMap parts)).1, Aligned ms it
  /-- Ten messages of three parts are received. -/
  finished : ms.length = 10 → (∀ m ∈ ms, m.length = 3) →
    (receiveAll (ms.flatMap parts)).2 = .finished

/-! ### Iterations -/

/-- **The inner loop stops behind two parts**, whatever their flags. -/
theorem receiveLoop_two (p q : FlaggedPart (List UInt8)) (queue : Queue) :
    receiveLoop (p :: q :: queue) 0 false = (.endOfMessage 2, queue) := rfl

/-- With fewer than two parts it prints no end of a message. -/
theorem receiveLoop_of_lt {queue : Queue} (h : queue.length < 2) :
    receiveLoop queue 0 false = (.didNotGet queue.length, []) := by
  match queue, h with
  | [], _ => rfl
  | [p], _ => rfl

theorem receiveMessages_two (n : ℕ) (p q : FlaggedPart (List UInt8)) (queue : Queue) (seen : ℕ) :
    receiveMessages (n + 1) (p :: q :: queue) seen =
      ([⟨p :: q :: queue, .endOfMessage 2, queue⟩], .partsFailed) := by
  rw [receiveMessages, receiveLoop_two]
  rfl

theorem print_ne_endOfMessage {n : ℕ} {queue : Queue} (h : queue.length < 2) (seen : ℕ) :
    ∀ it ∈ (receiveMessages n queue seen).1, ∀ k, it.print ≠ .endOfMessage k := by
  induction n generalizing queue with
  | zero => simp [receiveMessages]
  | succ n ih =>
    intro it hit k
    rw [receiveMessages, receiveLoop_of_lt h] at hit
    rcases List.mem_cons.mp hit with rfl | hit
    · simp
    · have hnone : ([] : Queue).length < 2 := Nat.two_pos
      exact ih hnone it hit k

/-! ### Messages -/

/-- The parts of messages determine the messages. -/
theorem flatMap_parts_injective {ms ms' : List Message} (h : ∀ m ∈ ms, m ≠ [])
    (h' : ∀ m ∈ ms', m ≠ []) (heq : ms.flatMap parts = ms'.flatMap parts) : ms = ms' := by
  rw [← messages_flatMap_parts h, heq, messages_flatMap_parts h']

theorem length_flatMap_parts (ms : List Message) :
    (ms.flatMap parts).length = (ms.map List.length).sum := by
  induction ms with
  | nil => rfl
  | cons m ms ih => rw [List.flatMap_cons, List.length_append, length_parts, ih]; rfl

/-- An iteration that stops behind two parts is aligned just if the first message has two. -/
theorem aligned_two_iff {ms : List Message} (hms : ∀ m ∈ ms, m ≠ [])
    {p q : FlaggedPart (List UInt8)} {queue : Queue} (hqueue : ms.flatMap parts = p :: q :: queue) :
    Aligned ms ⟨p :: q :: queue, .endOfMessage 2, queue⟩ ↔ ms.head?.map List.length = some 2 := by
  constructor
  · intro h
    obtain ⟨m, rest, hsuffix, hbefore, hlen, -⟩ := h 2 rfl
    -- the message starts where the iteration starts
    have hall : m :: rest = ms := by
      refine flatMap_parts_injective (fun m' hm' => hms m' (hsuffix.subset hm')) hms ?_
      rw [hqueue]
      exact hbefore.symm
    rw [← hall, List.head?_cons, Option.map_some, ← hlen]
  · intro h n hn
    obtain rfl : 2 = n := Print.endOfMessage.inj hn
    obtain ⟨m, rest, rfl⟩ : ∃ m rest, ms = m :: rest := by
      cases ms with
      | nil => exact absurd h (by simp)
      | cons m rest => exact ⟨m, rest, rfl⟩
    have hlen : m.length = 2 := Option.some.inj h
    refine ⟨m, rest, List.suffix_rfl, hqueue.symm, hlen.symm, ?_⟩
    obtain ⟨a, b, rfl⟩ := List.length_eq_two.mp hlen
    exact (List.cons.inj (List.cons.inj hqueue).2).2.symm

/-- **The parts are counted correctly just for messages of two.**  For messages that wait on
the socket, the program counts correctly if and only if fewer than two parts wait, so that
it prints no end of a message, or the first message has exactly two parts. -/
theorem counts_correctly_iff {ms : List Message} (hms : ∀ m ∈ ms, m ≠ []) :
    CountsCorrectly ms ↔
      (ms.map List.length).sum < 2 ∨ ms.head?.map List.length = some 2 := by
  rw [← length_flatMap_parts]
  rcases Nat.lt_or_ge (ms.flatMap parts).length 2 with hlt | hge
  · refine iff_of_true ⟨?_, ?_⟩ (Or.inl hlt)
    · intro it hit n hn
      exact absurd hn (print_ne_endOfMessage hlt 0 it hit n)
    · intro hten hthree
      -- already the first message would have three
      obtain ⟨m, rest, rfl⟩ := List.exists_cons_of_length_pos (l := ms) (by omega)
      have hm := hthree m List.mem_cons_self
      rw [List.flatMap_cons, List.length_append, length_parts] at hlt
      omega
  · obtain ⟨p, q, queue, hqueue⟩ : ∃ p q queue, ms.flatMap parts = p :: q :: queue := by
      match h : ms.flatMap parts, hge with
      | p :: q :: queue, _ => exact ⟨p, q, queue, rfl⟩
    have hall : receiveAll (ms.flatMap parts) =
        ([⟨p :: q :: queue, .endOfMessage 2, queue⟩], .partsFailed) := by
      rw [hqueue]
      exact receiveMessages_two 9 p q queue 0
    have htwo := aligned_two_iff hms hqueue
    constructor
    · intro h
      refine Or.inr (htwo.mp (h.aligned _ ?_))
      rw [hall]
      exact List.mem_singleton_self _
    · intro h
      have hhead := h.resolve_left (Nat.not_lt.mpr hge)
      refine ⟨?_, ?_⟩
      · intro it hit
        rw [hall, List.mem_singleton] at hit
        subst hit
        exact htwo.mpr hhead
      · intro hten hthree
        obtain ⟨m, rest, rfl⟩ := List.exists_cons_of_length_pos (l := ms) (by omega)
        have hm := hthree m List.mem_cons_self
        rw [List.head?_cons, Option.map_some, hm] at hhead
        exact absurd hhead (by decide)

/-- A message of two parts is counted correctly. -/
theorem counts_correctly_iff_pair :
    CountsCorrectly [[[1], [2]]] :=
  (counts_correctly_iff (by decide)).mpr (Or.inr rfl)

/-- Ten messages of three parts, as the test sends them. -/
def tenMessages : List Message :=
  (List.range 10).map fun i =>
    [bytes "sender", bytes "receiv", ascii ("message ".toList ++ decimal i)]

/-- **The test fails on its own messages**: its first message ends for it behind the second
part. -/
theorem receiveAll_tenMessages :
    (receiveAll (tenMessages.flatMap parts)).2 = .partsFailed ∧ ¬ CountsCorrectly tenMessages := by
  refine ⟨by decide, ?_⟩
  intro h
  exact absurd (h.finished (by decide) (by decide)) (by decide)

end RouterMore
end ZmqIssues
