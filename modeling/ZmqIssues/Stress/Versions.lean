import ZmqIssues.Stress.Hex
import ZmqIssues.Stress.Server

/-!
# The two versions of the server of issue 199

The server exists for libzmq 2.1 and for libzmq 3.0.  Both make the same checks, those of
`Stress.receiveMp`; they differ in the call that receives a message, and in what they
assert of the `int` it returns: `zmq_recv` returns 0, `zmq_recvmsg` returns the size.

The functions are given here once more as a whole, with these calls, with the printed name
of the peer and with the frames they print.  All of this goes through an `int`, so a frame
may be too long for it.

## Main definitions

* `Version` — the version of libzmq.
* `Version.recvAssert`, `Version.receiveMp` — the functions of the server.
* `Version.Fits` — the messages that are short enough.

## Main results

* `Version.receiveMp_eq_ok_iff` — **the server accepts the messages that meet its checks and
  are short enough.**
-/

namespace ZmqIssues
namespace Stress

open CStrings Numbers Reader

/-- The version of libzmq. -/
inductive Version
  /-- libzmq 2.1. -/
  | twoOne
  /-- libzmq 3.0. -/
  | threeZero
  deriving DecidableEq, Repr

/-- `fprintf` of a frame with `%.*s`.  The precision is the size as an `int`; one below zero
counts as none, and then the text ends at a zero. -/
def shows (message : Frame) : Except Stop Unit :=
  check (decide (0 ≤ int32 message.size) || message.memory.contains 0) .segfault

namespace Version

/-- The `int` that is returned for a message of `size` bytes, by `zmq_recv` and by
`zmq_recvmsg`. -/
def received : Version → ℕ → ℤ
  | .twoOne, _ => 0
  | .threeZero, size => int32 size

/-- What is asserted of it: `0 == zmq_recv (..)` and `0 <= zmq_recvmsg (..)`. -/
def asserts : Version → ℤ → Bool
  | .twoOne, rc => 0 == rc
  | .threeZero, rc => decide (0 ≤ rc)

/-- Receive a message. -/
def recv (v : Version) (q : List Frame) : Except Stop (Frame × List Frame) := do
  let (message, q) ← next .blocked q
  check (v.asserts (v.received message.size)) .assertFailed
  return (message, q)

/-- `stupid_recv`. -/
def stupidRecv (v : Version) (q : List Frame) : Except Stop (List Frame) := do
  let (message, q) ← v.recv q
  check (0 < message.size) .assertFailed
  shows message
  return q

/-- `verbose_exit`. -/
def verboseExit (v : Version) (q : List Frame) : Stop :=
  match iterate v.stupidRecv 20 q with
  | .ok _ => .violated .assertFailed
  | .error ending => .violated ending

/-- Unless a condition holds, print the frame and enter `verbose_exit`. -/
def insist (v : Version) (c : Bool) (message : Frame) (q : List Frame) : Except Stop Unit :=
  if c then
    return ()
  else do
    shows message
    .error (v.verboseExit q)

/-- `recv_assert`. -/
def recvAssert (v : Version) (stressId expectation : List UInt8) (expectMore : Bool)
    (q : List Frame) : Except Stop (List Frame) := do
  let (message, q) ← v.recv q
  check (0 < message.size) .assertFailed
  v.insist (stressId.length + expectation.length == message.size) message q
  let cmp ← read (strncmp stressId.length (cstr stressId) message.memory)
  v.insist (cmp == 0) message q
  let cmp ← read (strncmp expectation.length (cstr expectation)
    (message.memory.drop stressId.length))
  v.insist (cmp == 0) message q
  v.insist (!(expectMore && !message.more)) message q
  v.insist (!(!expectMore && message.more)) message q
  shows message
  return q

/-- `receive_mp`, where `heap` is what the memory holds that `malloc` returns.  The name of
the peer is only printed. -/
def receiveMp (v : Version) (heap : ℕ → UInt8) (q : List Frame) : Except Stop (List Frame) := do
  let (idMessage, q) ← v.recv q
  check idMessage.more .assertFailed
  check (0 < idMessage.size) .assertFailed
  check (mallocAccepts (sizeT (idMessage.size * 2 + 1))) .assertFailed
  let _ ← read (toHex idMessage.data ((List.range (idMessage.size * 2 + 1)).map heap))
  let (firstMessage, q) ← v.recv q
  check firstMessage.more .assertFailed
  -- the length of the prefix is kept in an `int`
  let span ← read (strspn isPrefixByte firstMessage.memory)
  let stressIdLen := int32 span
  check (0 < stressIdLen) .assertFailed
  check (mallocAccepts (sizeT (int32 (stressIdLen + 1)))) .assertFailed
  let stressId := firstMessage.memory.take stressIdLen.toNat
  let cmp ← read (strncmp 6 (firstMessage.memory.drop stressIdLen.toNat) (cstr (bytes "stress")))
  v.insist (cmp == 0) firstMessage q
  shows firstMessage
  let q ← v.recvAssert stressId (bytes "AAAAAAAA") true q
  let q ← v.recvAssert stressId (bytes "BBBBBBBB") true q
  let q ← v.recvAssert stressId (bytes "CCCCCCCC") true q
  let q ← v.recvAssert stressId (bytes "DDDDDDDD") true q
  v.recvAssert stressId (bytes "EEEEEEEE") false q

/-- A frame is short enough to be received and printed. -/
def Handles (v : Version) (f : Frame) : Prop :=
  v.asserts (v.received f.size) = true ∧ (0 ≤ int32 f.size ∨ 0 ∈ f.memory)

instance (v : Version) : DecidablePred v.Handles := fun _ => inferInstanceAs (Decidable (_ ∧ _))

/-- The frames of a message are short enough. -/
structure Fits (v : Version) (identity first : Frame) (rest : List Frame) : Prop where
  /-- The name of the peer fits its buffer. -/
  identity_le : identity.size ≤ 2 ^ 30
  /-- The other frames can be received and printed. -/
  handles : ∀ f ∈ first :: rest, v.Handles f

/-! ### The calls -/

variable {v : Version} {q r : List Frame} {f : Frame}

@[simp] theorem recv_eq_ok :
    v.recv q = .ok (f, r) ↔ q = f :: r ∧ v.asserts (v.received f.size) = true := by
  rw [recv]
  constructor
  · intro h
    simp only [bind_eq_ok, check_eq_ok, Prod.exists, next_eq_ok] at h
    obtain ⟨_, _, rfl, _, hasserts, h⟩ := h
    obtain ⟨rfl, rfl⟩ := Prod.mk.inj (Except.ok.inj h)
    exact ⟨rfl, hasserts⟩
  · intro h
    obtain ⟨rfl, hasserts⟩ := h
    simp only [bind_eq_ok, check_eq_ok, Prod.exists, next_eq_ok]
    exact ⟨f, r, rfl, (), hasserts, rfl⟩

@[simp] theorem insist_eq_ok {c : Bool} {u : Unit} : v.insist c f q = .ok u ↔ c = true := by
  rw [insist]
  cases c with
  | true => simp [pure, Except.pure]
  | false => simp

@[simp] theorem shows_eq_ok {u : Unit} :
    shows f = .ok u ↔ 0 ≤ int32 f.size ∨ 0 ∈ f.memory := by
  simp [shows]

/-- An identity whose name fits the buffer can be received. -/
theorem asserts_received (v : Version) {n : ℕ} (h : n ≤ 2 ^ 30) :
    v.asserts (v.received n) = true := by
  cases v with
  | twoOne => rfl
  | threeZero =>
    have hint : int32 n = n := int32_natCast (by omega)
    rw [asserts, received, hint]
    exact decide_eq_true (Int.natCast_nonneg n)

/-- The name of a peer gets a buffer, and is printed into it, exactly if the identity has at
most `2 ^ 30` bytes. -/
theorem printsName_iff {identity : Frame} (hpos : 0 < identity.size) (heap : ℕ → UInt8) :
    (mallocAccepts (sizeT (identity.size * 2 + 1)) = true ∧
        ∃ name, toHex identity.data ((List.range (identity.size * 2 + 1)).map heap) = some name) ↔
      identity.size ≤ 2 ^ 30 := by
  constructor
  · intro h
    obtain ⟨-, name, hname⟩ := h
    by_contra hlen
    rw [toHex_eq_none (Nat.lt_of_not_le hlen)] at hname
    exact absurd hname (by simp)
  · intro hlen
    have hsize : sizeT (identity.size * 2 + 1 : ℕ) = identity.size * 2 + 1 :=
      sizeT_natCast (by omega)
    rw [Nat.cast_add, Nat.cast_mul] at hsize
    have hmalloc : mallocAccepts (identity.size * 2 + 1) = true := decide_eq_true (by omega)
    have hheap : ((List.range (identity.size * 2 + 1)).map heap).length =
        2 * identity.data.length + 1 := by simp [Frame.size, Nat.mul_comm]
    exact ⟨(congrArg mallocAccepts hsize).trans hmalloc, _,
      toHex_eq_some (List.length_pos_iff.mp hpos) hlen hheap⟩

/-! ### What is accepted -/

/-- A part is accepted if it meets the checks and is short enough. -/
theorem recvAssert_eq_ok_iff {stressId expectation : List UInt8} {expectMore : Bool} :
    v.recvAssert stressId expectation expectMore q = .ok r ↔
      ∃ f, q = f :: r ∧ v.Handles f ∧
        Stress.recvAssert stressId expectation expectMore q = .ok r := by
  simp only [recvAssert, Stress.recvAssert, bind_eq_ok, check_eq_ok, read_eq_ok, Prod.exists,
    next_eq_ok, recv_eq_ok, insist_eq_ok, shows_eq_ok]
  constructor
  · intro h
    obtain ⟨f, _, ⟨rfl, hasserts⟩, _, hpos, _, hsize, cmp₁, hcmp₁, _, hzero₁, cmp₂, hcmp₂, _,
      hzero₂, _, hmore₁, _, hmore₂, _, hshows, h⟩ := h
    obtain rfl := Except.ok.inj h
    exact ⟨f, rfl, ⟨hasserts, hshows⟩, f, _, rfl, (), hpos, (), hsize, cmp₁, hcmp₁, (), hzero₁,
      cmp₂, hcmp₂, (), hzero₂, (), hmore₁, (), hmore₂, rfl⟩
  · intro h
    obtain ⟨f, rfl, ⟨hasserts, hshows⟩, _, _, hq, _, hpos, _, hsize, cmp₁, hcmp₁, _, hzero₁, cmp₂,
      hcmp₂, _, hzero₂, _, hmore₁, _, hmore₂, -⟩ := h
    obtain ⟨rfl, rfl⟩ := List.cons.inj hq
    exact ⟨f, r, ⟨rfl, hasserts⟩, (), hpos, (), hsize, cmp₁, hcmp₁, (), hzero₁, cmp₂, hcmp₂, (),
      hzero₂, (), hmore₁, (), hmore₂, (), hshows, rfl⟩

/-- A part that meets the checks is taken from the queue. -/
theorem exists_of_recvAssert_eq_ok {stressId expectation : List UInt8} {expectMore : Bool}
    (h : Stress.recvAssert stressId expectation expectMore q = .ok r) : ∃ f, q = f :: r := by
  simp only [Stress.recvAssert, bind_eq_ok, Prod.exists, next_eq_ok] at h
  obtain ⟨f, _, rfl, _, _, _, _, _, _, _, _, _, _, _, _, _, _, _, _, h⟩ := h
  obtain rfl := Except.ok.inj h
  exact ⟨f, rfl⟩

/-- The five parts behind the first one. -/
theorem recvFollowers_eq_ok_iff {stressId : List UInt8} :
    (∃ q₁, v.recvAssert stressId (bytes "AAAAAAAA") true q = .ok q₁ ∧
      ∃ q₂, v.recvAssert stressId (bytes "BBBBBBBB") true q₁ = .ok q₂ ∧
      ∃ q₃, v.recvAssert stressId (bytes "CCCCCCCC") true q₂ = .ok q₃ ∧
      ∃ q₄, v.recvAssert stressId (bytes "DDDDDDDD") true q₃ = .ok q₄ ∧
        v.recvAssert stressId (bytes "EEEEEEEE") false q₄ = .ok r) ↔
      (∃ q₁, Stress.recvAssert stressId (bytes "AAAAAAAA") true q = .ok q₁ ∧
        ∃ q₂, Stress.recvAssert stressId (bytes "BBBBBBBB") true q₁ = .ok q₂ ∧
        ∃ q₃, Stress.recvAssert stressId (bytes "CCCCCCCC") true q₂ = .ok q₃ ∧
        ∃ q₄, Stress.recvAssert stressId (bytes "DDDDDDDD") true q₃ = .ok q₄ ∧
          Stress.recvAssert stressId (bytes "EEEEEEEE") false q₄ = .ok r) ∧
        ∃ rest, q = rest ++ r ∧ ∀ f ∈ rest, v.Handles f := by
  constructor
  · intro h
    obtain ⟨_, h₁, _, h₂, _, h₃, _, h₄, h₅⟩ := h
    obtain ⟨f₁, rfl, hf₁, h₁⟩ := recvAssert_eq_ok_iff.mp h₁
    obtain ⟨f₂, rfl, hf₂, h₂⟩ := recvAssert_eq_ok_iff.mp h₂
    obtain ⟨f₃, rfl, hf₃, h₃⟩ := recvAssert_eq_ok_iff.mp h₃
    obtain ⟨f₄, rfl, hf₄, h₄⟩ := recvAssert_eq_ok_iff.mp h₄
    obtain ⟨f₅, rfl, hf₅, h₅⟩ := recvAssert_eq_ok_iff.mp h₅
    refine ⟨⟨_, h₁, _, h₂, _, h₃, _, h₄, h₅⟩, [f₁, f₂, f₃, f₄, f₅], rfl, ?_⟩
    simp only [List.forall_mem_cons, List.not_mem_nil, false_implies, implies_true, and_true]
    exact ⟨hf₁, hf₂, hf₃, hf₄, hf₅⟩
  · intro h
    obtain ⟨⟨_, h₁, _, h₂, _, h₃, _, h₄, h₅⟩, rest, hq, hhandles⟩ := h
    obtain ⟨f₁, rfl⟩ := exists_of_recvAssert_eq_ok h₁
    obtain ⟨f₂, rfl⟩ := exists_of_recvAssert_eq_ok h₂
    obtain ⟨f₃, rfl⟩ := exists_of_recvAssert_eq_ok h₃
    obtain ⟨f₄, rfl⟩ := exists_of_recvAssert_eq_ok h₄
    obtain ⟨f₅, rfl⟩ := exists_of_recvAssert_eq_ok h₅
    -- the frames that are short enough are those that were checked
    obtain rfl : [f₁, f₂, f₃, f₄, f₅] = rest := (List.append_left_inj r).mp hq
    simp only [List.forall_mem_cons, List.not_mem_nil, false_implies, implies_true, and_true]
      at hhandles
    obtain ⟨hf₁, hf₂, hf₃, hf₄, hf₅⟩ := hhandles
    exact ⟨_, recvAssert_eq_ok_iff.mpr ⟨f₁, rfl, hf₁, h₁⟩, _,
      recvAssert_eq_ok_iff.mpr ⟨f₂, rfl, hf₂, h₂⟩, _,
      recvAssert_eq_ok_iff.mpr ⟨f₃, rfl, hf₃, h₃⟩, _,
      recvAssert_eq_ok_iff.mpr ⟨f₄, rfl, hf₄, h₄⟩, recvAssert_eq_ok_iff.mpr ⟨f₅, rfl, hf₅, h₅⟩⟩

/-- **The server accepts the messages that meet its checks and are short enough.** -/
theorem receiveMp_eq_ok_iff (heap : ℕ → UInt8) :
    v.receiveMp heap q = .ok r ↔
      Stress.receiveMp q = .ok r ∧
        ∃ identity first rest, q = identity :: first :: (rest ++ r) ∧
          v.Fits identity first rest := by
  simp only [receiveMp, Stress.receiveMp, bind_eq_ok, check_eq_ok, read_eq_ok, Prod.exists,
    next_eq_ok, recv_eq_ok, insist_eq_ok, shows_eq_ok, decide_eq_true_eq]
  constructor
  · intro h
    obtain ⟨identity, _, ⟨rfl, -⟩, _, hmore, _, hpos, _, hmalloc, name, hname, first, q,
      ⟨rfl, hasserts⟩, _, hfirst, span, hspan, _, hspan', _, hmalloc', cmp, hcmp, _, hzero, _,
      hshows, h⟩ := h
    have hidentity := (printsName_iff hpos heap).mp ⟨hmalloc, name, hname⟩
    obtain ⟨hchecks, rest, rfl, hhandles⟩ := recvFollowers_eq_ok_iff.mp h
    exact ⟨⟨identity, _, rfl, (), hmore, (), hpos, first, _, rfl, (), hfirst, span, hspan, (),
      hspan', (), hmalloc', cmp, hcmp, (), hzero, hchecks⟩, identity, first, rest, rfl, hidentity,
      List.forall_mem_cons.mpr ⟨⟨hasserts, hshows⟩, hhandles⟩⟩
  · intro h
    obtain ⟨⟨identity, _, rfl, _, hmore, _, hpos, first, q, rfl, _, hfirst, span, hspan, _,
      hspan', _, hmalloc', cmp, hcmp, _, hzero, hchecks⟩, _, _, rest, hq, hfits⟩ := h
    simp only [List.cons.injEq] at hq
    obtain ⟨rfl, rfl, rfl⟩ := hq
    obtain ⟨⟨hasserts, hshows⟩, hhandles⟩ := List.forall_mem_cons.mp hfits.handles
    obtain ⟨hmalloc, name, hname⟩ := (printsName_iff hpos heap).mpr hfits.identity_le
    exact ⟨identity, _, ⟨rfl, v.asserts_received hfits.identity_le⟩, (), hmore, (), hpos, (),
      hmalloc, name, hname, first, _, ⟨rfl, hasserts⟩, (), hfirst, span, hspan, (), hspan', (),
      hmalloc', cmp, hcmp, (), hzero, (), hshows,
      recvFollowers_eq_ok_iff.mpr ⟨hchecks, rest, rfl, hhandles⟩⟩

end Version
end Stress
end ZmqIssues
