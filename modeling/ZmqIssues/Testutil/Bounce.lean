import ZmqIssues.Testutil.Sequences

/-!
# Bouncing a message

`bounce` sends a message of two parts from the client to the server and back, and asserts
that each side receives just what was sent.  It cannot tell the message it has sent from one
that was left by an earlier call, as those of `expect_bounce_fail` are where the messages
arrive after all.

## Main definitions

* `bounce`, `bounces` — one call, and a row of calls.
* `copies n` — what waits at a socket when so many messages were left there.

## Main results

* `bounces_for_ever_iff` — **calls pass for ever just if only whole messages of earlier calls
  wait at the two sockets**, and they wait there for ever.
-/

namespace ZmqIssues
namespace Testutil

open CStrings Multipart Reader

/-! ### The calls -/

/-- `const char *content`. -/
def content : List UInt8 := bytes "12345678ABCDEFGH12345678abcdefgh"

/-- Receive a part of 32 bytes, compare it with the content and check `ZMQ_RCVMORE`: the
buffer, and what is left. -/
def recvContent (more : Bool) (q : Queue) : Except Stop (List UInt8 × Queue) := do
  let (msg, q) ← next .blocked q
  check (msg.data.length == 32) .size
  check (msg.data == content) .content
  check (msg.more == more) .more
  return (msg.data, q)

/-- `bounce`, with what waits at the server and at the client before and after it. -/
def bounce (server client : Queue) : Except Stop (Queue × Queue) := do
  -- send message from client to server, and receive it
  let (_, server) ← recvContent true (server ++ [⟨content, true⟩, ⟨content, false⟩])
  let (buffer, server) ← recvContent false server
  -- send two parts back to client, and receive them
  let (_, client) ← recvContent true (client ++ [⟨buffer, true⟩, ⟨buffer, false⟩])
  let (_, client) ← recvContent false client
  return (server, client)

/-- A row of calls. -/
def bounces : ℕ → Queue × Queue → Except Stop (Queue × Queue)
  | 0, p => .ok p
  | n + 1, p => bounce p.1 p.2 >>= bounces n

/-! ### What they receive -/

/-- The two parts of the message. -/
def message : Queue := [⟨content, true⟩, ⟨content, false⟩]

/-- Copies of the message. -/
def copies (n : ℕ) : Queue := (List.replicate n message).flatten

@[simp] theorem copies_zero : copies 0 = [] := rfl

theorem copies_succ (n : ℕ) : copies (n + 1) = message ++ copies n := rfl

theorem copies_add (m n : ℕ) : copies (m + n) = copies m ++ copies n := by
  rw [copies, List.replicate_add, List.flatten_append]
  rfl

theorem recvContent_eq_ok {more : Bool} {q r : Queue} {buffer : List UInt8} :
    recvContent more q = .ok (buffer, r) ↔ buffer = content ∧ q = ⟨content, more⟩ :: r := by
  have hlength : content.length = 32 := by decide
  cases q with
  | nil => simp [recvContent, next, error_bind]
  | cons msg q =>
    obtain ⟨data, more'⟩ := msg
    constructor
    · intro h
      simp only [recvContent, bind_eq_ok, next_eq_ok, check_eq_ok, Prod.exists, beq_iff_eq,
        exists_const, pure, Except.pure, Except.ok.injEq, Prod.mk.injEq] at h
      obtain ⟨_, _, hq, -, hcontent, hmore, hbuffer, hrest⟩ := h
      obtain ⟨rfl, rfl⟩ := List.cons.inj hq
      obtain rfl : more' = more := hmore
      obtain rfl : data = content := hcontent
      exact ⟨hbuffer.symm, by rw [hrest]⟩
    · rintro ⟨rfl, hq⟩
      obtain ⟨hmsg, rfl⟩ := List.cons.inj hq
      obtain ⟨rfl, rfl⟩ := (FlaggedPart.mk.injEq _ _ _ _).mp hmsg
      simp [recvContent, next, check, hlength, ok_bind, pure, Except.pure]

/-- A call passes if it receives the message, which may have been there before, and leaves
the one it has sent. -/
theorem bounce_eq_ok {server client server' client' : Queue} :
    bounce server client = .ok (server', client') ↔
      server ++ message = message ++ server' ∧ client ++ message = message ++ client' := by
  simp only [bounce, bind_eq_ok, recvContent_eq_ok, Prod.exists, pure, Except.pure,
    Except.ok.injEq, Prod.mk.injEq, message]
  constructor
  · rintro ⟨_, _, ⟨-, hserver⟩, _, _, ⟨rfl, rfl⟩, _, _, ⟨-, hclient⟩, _, _, ⟨-, rfl⟩, rfl, rfl⟩
    exact ⟨hserver, hclient⟩
  · rintro ⟨hserver, hclient⟩
    exact ⟨content, _, ⟨rfl, hserver⟩, content, server', ⟨rfl, rfl⟩, content, _, ⟨rfl, hclient⟩,
      content, client', ⟨rfl, rfl⟩, rfl, rfl⟩

/-- A message is received and one is left, and so it goes on. -/
theorem append_copies_succ_iff {n : ℕ} {q r : Queue} :
    q ++ copies (n + 1) = copies (n + 1) ++ r ↔
      ∃ p, q ++ message = message ++ p ∧ p ++ copies n = copies n ++ r := by
  constructor
  · intro h
    have hmessage : message <+: q ++ copies (n + 1) :=
      ⟨copies n ++ r, by rw [h, copies_succ, List.append_assoc]⟩
    have hqueue : q ++ message <+: q ++ copies (n + 1) :=
      ⟨copies n, by rw [copies_succ, List.append_assoc]⟩
    obtain ⟨p, hp⟩ := List.prefix_of_prefix_length_le hmessage hqueue (by simp)
    have hrest : message ++ (p ++ copies n) = message ++ (copies n ++ r) := by
      rw [← List.append_assoc, hp, List.append_assoc, ← copies_succ, h, copies_succ,
        List.append_assoc]
    exact ⟨p, hp.symm, List.append_cancel_left hrest⟩
  · rintro ⟨p, hq, hp⟩
    rw [copies_succ, ← List.append_assoc, hq, List.append_assoc, hp, List.append_assoc]

theorem bounces_eq_ok {n : ℕ} {server client server' client' : Queue} :
    bounces n (server, client) = .ok (server', client') ↔
      server ++ copies n = copies n ++ server' ∧
        client ++ copies n = copies n ++ client' := by
  induction n generalizing server client with
  | zero => simp [bounces, eq_comm]
  | succ n ih =>
    simp only [bounces, bind_eq_ok, Prod.exists, bounce_eq_ok, ih, append_copies_succ_iff]
    constructor
    · rintro ⟨s, c, ⟨hs, hc⟩, hs', hc'⟩
      exact ⟨⟨s, hs, hs'⟩, ⟨c, hc, hc'⟩⟩
    · rintro ⟨⟨s, hs, hs'⟩, ⟨c, hc, hc'⟩⟩
      exact ⟨s, c, ⟨hs, hc⟩, hs', hc'⟩

/-! ### Calls that pass for ever -/

/-- What can be received for ever are messages. -/
theorem exists_eq_copies :
    ∀ {q : Queue}, (∀ n, copies n <+: q ++ copies n) → ∃ k, q = copies k
  | [], _ => ⟨0, rfl⟩
  | [p], h => by
    have hone := h 1
    simp [copies, message] at hone
  | p :: r :: q, h => by
    obtain ⟨hp, hr⟩ : p = ⟨content, true⟩ ∧ r = ⟨content, false⟩ := by
      have hone := h 1
      simpa [copies, message, eq_comm] using hone
    have hrest : ∀ n, copies n <+: q ++ copies n := by
      intro n
      have hnext := h (n + 1)
      have hlong : copies n <+: q ++ copies (n + 1) := by
        rw [copies_succ, hp, hr] at hnext
        have hcons : message ++ copies n <+: message ++ (q ++ copies (n + 1)) := hnext
        exact (List.prefix_append_right_inj message).mp hcons
      refine List.prefix_of_prefix_length_le hlong ?_ ?_
      · rw [copies_add]
        exact ⟨copies 1, by rw [List.append_assoc]⟩
      · rw [List.length_append]
        omega
    obtain ⟨k, rfl⟩ := exists_eq_copies hrest
    exact ⟨k + 1, by rw [hp, hr]; rfl⟩

/-- **Calls pass for ever just if only whole messages of earlier calls wait** at the two
sockets.  Every call receives the oldest ones and leaves its own, so that as many wait
afterwards. -/
theorem bounces_for_ever_iff (server client : Queue) :
    (∀ n, ∃ p, bounces n (server, client) = .ok p) ↔
      ∃ k l, server = copies k ∧ client = copies l ∧
        ∀ n, bounces n (server, client) = .ok (server, client) := by
  constructor
  · intro h
    have hstarts : ∀ n, copies n <+: server ++ copies n ∧ copies n <+: client ++ copies n := by
      intro n
      obtain ⟨⟨server', client'⟩, hn⟩ := h n
      obtain ⟨hserver, hclient⟩ := bounces_eq_ok.mp hn
      exact ⟨⟨server', hserver.symm⟩, ⟨client', hclient.symm⟩⟩
    obtain ⟨k, rfl⟩ := exists_eq_copies fun n => (hstarts n).1
    obtain ⟨l, rfl⟩ := exists_eq_copies fun n => (hstarts n).2
    refine ⟨k, l, rfl, rfl, ?_⟩
    intro n
    rw [bounces_eq_ok, ← copies_add, ← copies_add, ← copies_add, ← copies_add, Nat.add_comm k n,
      Nat.add_comm l n]
    exact ⟨rfl, rfl⟩
  · rintro ⟨k, l, -, -, h⟩ n
    exact ⟨_, h n⟩

end Testutil
end ZmqIssues
