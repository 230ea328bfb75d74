import ZmqIssues.Lib.CStrings
import ZmqIssues.Lib.Numbers
import ZmqIssues.Lib.Reader

/-!
# The server of issue 199

The server receives the messages of the stress clients and compares each frame with
what a client sends.  It stops with an assertion, or by `verbose_exit`, which shows
twenty more frames first.

A frame is not terminated by a zero, and `strspn` and `strncmp` are given no length
but the one they find, so a frame comes with the memory behind it.

Here the server is given by its checks.  What it prints, and the `int` that the calls return
which receive a message, are left to `Stress.Versions`.

## Main definitions

* `Frame` — a received frame.
* `Stop` — the ways the server stops.
* `recvAssert`, `receiveMp` — the checks the functions of the server make.
* `Accepted` — the seven frames of a message the server accepts.

## Main results

* `recvAssert_eq_ok` — the size check and the two comparisons amount to equality.
* `receiveMp_eq_ok` — what `receive_mp` accepts.
-/

namespace ZmqIssues
namespace Stress

open CStrings Numbers Reader

/-- A frame as the server receives it. -/
structure Frame where
  /-- The bytes of the frame. -/
  data : List UInt8
  /-- `ZMQ_RCVMORE` after the frame was received. -/
  more : Bool
  /-- The mapped memory behind the bytes of the frame. -/
  beyond : List UInt8
  deriving DecidableEq, Repr

/-- `zmq_msg_size`. -/
def Frame.size (f : Frame) : ℕ := f.data.length

/-- What can be read from `zmq_msg_data` on. -/
def Frame.memory (f : Frame) : List UInt8 := f.data ++ f.beyond

/-- Why the server stops. -/
inductive Stop
  /-- It waits for a frame. -/
  | blocked
  /-- An assertion failed. -/
  | assertFailed
  /-- It read past the end of the mapped memory. -/
  | segfault
  /-- It entered `verbose_exit`, which ended in the given way. -/
  | violated (ending : Stop)
  deriving DecidableEq, Repr

/-- Use the result of a string function. -/
def read {α : Type} (result : Option α) : Except Stop α :=
  match result with
  | some a => .ok a
  | none => .error .segfault

theorem read_some {α : Type} (a : α) : read (some a) = .ok a := rfl

theorem read_none {α : Type} : read (none : Option α) = .error .segfault := rfl

@[simp] theorem read_eq_ok {α : Type} {result : Option α} {a : α} :
    read result = .ok a ↔ result = some a := by
  cases result <;> simp [read]

/-- `stupid_recv`: receive a frame and print it. -/
def stupidRecv (q : List Frame) : Except Stop (List Frame) := do
  let (message, q) ← next .blocked q
  check (0 < message.size) .assertFailed
  return q

/-- `verbose_exit`: show the next 20 frames, then fail. -/
def verboseExit (q : List Frame) : Stop :=
  match iterate stupidRecv 20 q with
  | .ok _ => .violated .assertFailed
  | .error ending => .violated ending

/-- `recv_assert`: receive a frame that must be `stress_id` and then `expectation`.
The strings are given without their terminating zeros. -/
def recvAssert (stressId expectation : List UInt8) (expectMore : Bool) (q : List Frame) :
    Except Stop (List Frame) := do
  let (message, q) ← next .blocked q
  check (0 < message.size) .assertFailed
  check (stressId.length + expectation.length == message.size) (verboseExit q)
  let cmp ← read (strncmp stressId.length (cstr stressId) message.memory)
  check (cmp == 0) (verboseExit q)
  let cmp ← read (strncmp expectation.length (cstr expectation)
    (message.memory.drop stressId.length))
  check (cmp == 0) (verboseExit q)
  check (!(expectMore && !message.more)) (verboseExit q)
  check (!(!expectMore && message.more)) (verboseExit q)
  return q

/-- The bytes the prefix of a message is made of. -/
def isPrefixByte (b : UInt8) : Bool := (bytes "0123456789.").contains b

/-- `receive_mp`: receive a message.  The printed name of the peer is in
`Version.receiveMp`. -/
def receiveMp (q : List Frame) : Except Stop (List Frame) := do
  let (idMessage, q) ← next .blocked q
  check idMessage.more .assertFailed
  check (0 < idMessage.size) .assertFailed
  let (firstMessage, q) ← next .blocked q
  check firstMessage.more .assertFailed
  -- the length of the prefix is kept in an `int`
  let span ← read (strspn isPrefixByte firstMessage.memory)
  let stressIdLen := int32 span
  check (0 < stressIdLen) .assertFailed
  check (mallocAccepts (sizeT (int32 (stressIdLen + 1)))) .assertFailed
  let stressId := firstMessage.memory.take stressIdLen.toNat
  let cmp ← read (strncmp 6 (firstMessage.memory.drop stressIdLen.toNat) (cstr (bytes "stress")))
  check (cmp == 0) (verboseExit q)
  let q ← recvAssert stressId (bytes "AAAAAAAA") true q
  let q ← recvAssert stressId (bytes "BBBBBBBB") true q
  let q ← recvAssert stressId (bytes "CCCCCCCC") true q
  let q ← recvAssert stressId (bytes "DDDDDDDD") true q
  recvAssert stressId (bytes "EEEEEEEE") false q

/-! ### Frames -/

/-- **The checks of `recv_assert` amount to equality.** -/
theorem recvAssert_eq_ok {stressId expectation : List UInt8} {expectMore : Bool}
    {q r : List Frame} (hid : (0 : UInt8) ∉ stressId) (hexp : (0 : UInt8) ∉ expectation)
    (hne : expectation ≠ []) :
    recvAssert stressId expectation expectMore q = .ok r ↔
      ∃ f, q = f :: r ∧ f.data = stressId ++ expectation ∧ f.more = expectMore := by
  simp only [recvAssert, bind_eq_ok, check_eq_ok, read_eq_ok, Prod.exists, next_eq_ok, beq_iff_eq,
    decide_eq_true_eq]
  constructor
  · intro h
    obtain ⟨f, q, rfl, -, -, -, hsize, _, hcmp₁, -, rfl, _, hcmp₂, -, rfl, -, hmore₁, -, hmore₂,
      h⟩ := h
    obtain rfl : q = r := Except.ok.inj h
    obtain ⟨t, ht⟩ := (strncmp_eq_zero_iff hid).mp hcmp₁
    obtain ⟨u, hu⟩ := (strncmp_eq_zero_iff hexp).mp hcmp₂
    refine ⟨f, rfl, ?_, ?_⟩
    · -- both strings stand at the start of the memory, and together have the frame's size
      rw [← ht, List.drop_left] at hu
      rw [← hu, ← List.append_assoc] at ht
      exact (List.append_inj_left ht (by simpa [Frame.size] using hsize)).symm
    · revert hmore₁ hmore₂
      cases expectMore <;> cases f.more <;> simp
  · intro h
    obtain ⟨f, rfl, hdata, rfl⟩ := h
    have hlen : stressId.length + expectation.length = f.size := by
      rw [Frame.size, hdata, List.length_append]
    have hpos : 0 < expectation.length := List.length_pos_iff.mpr hne
    have hmem : f.memory = stressId ++ (expectation ++ f.beyond) := by
      rw [Frame.memory, hdata, List.append_assoc]
    refine ⟨f, r, rfl, (), by omega, (), hlen, 0, ?_, (), rfl, 0, ?_, (), rfl, (), ?_, (), ?_, rfl⟩
    · rw [cstr, strncmp_eq_zero_iff hid, hmem]
      exact List.prefix_append _ _
    · rw [cstr, strncmp_eq_zero_iff hexp, hmem, List.drop_left]
      exact List.prefix_append _ _
    · cases f.more <;> rfl
    · cases f.more <;> rfl

theorem zero_notMem {stressId : List UInt8} (h : ∀ b ∈ stressId, isPrefixByte b = true) :
    (0 : UInt8) ∉ stressId := by
  intro hmem
  exact absurd (h 0 hmem) (by decide)

/-- A message starts with the memory of its first frame: a prefix that fits an `int`,
and `"stress"` behind it. -/
structure Starts (memory stressId : List UInt8) : Prop where
  /-- The prefix is not empty. -/
  ne_nil : stressId ≠ []
  /-- It consists of digits and dots. -/
  isPrefixByte : ∀ b ∈ stressId, isPrefixByte b = true
  /-- Its length with a terminating zero fits an `int`. -/
  length_lt : stressId.length + 1 < 2 ^ 31
  /-- It is at the start of the memory, in front of `"stress"`. -/
  isPrefix : stressId ++ bytes "stress" <+: memory

theorem bytes_stress : bytes "stress" = [115, 116, 114, 101, 115, 115] := by decide

/-- `"stress"` does not start inside a run of prefix bytes. -/
theorem not_stress_of_lt {p r : List UInt8} {k : ℕ} (hp : ∀ b ∈ p, isPrefixByte b = true)
    (hk : k < p.length) : ¬ bytes "stress" <+: (p ++ r).drop k := by
  intro h
  obtain ⟨t, ht⟩ := h
  rw [List.drop_append_of_le_length hk.le, List.drop_eq_getElem_cons hk, bytes_stress] at ht
  have hs : p[k] = 115 := (List.cons.inj ht).1.symm
  exact absurd (hp _ (List.getElem_mem hk)) (by rw [hs]; decide)

/-- The check of the first frame finds just the prefix of a message. -/
theorem starts_of_strncmp {memory : List UInt8} {span : ℕ}
    (hspan : strspn isPrefixByte memory = some span) (hpos : 0 < int32 span)
    (hmalloc : mallocAccepts (sizeT (int32 (int32 span + 1))) = true)
    (hcmp : strncmp 6 (memory.drop (int32 span).toNat) (cstr (bytes "stress")) = some 0) :
    Starts memory (memory.take (int32 span).toNat) ∧ (int32 span).toNat = span := by
  obtain ⟨p, b, r, rfl, rfl, hp, hb⟩ := strspn_eq_some_iff.mp hspan
  have hstress := (strncmp_eq_zero_iff (s := bytes "stress") (t := [0]) (by decide)).mp
    (strncmp_comm_eq_zero.mp hcmp)
  -- if the length was cut to an `int`, a byte of the run stands where `"stress"` must
  have hlen : (int32 p.length).toNat = p.length := by
    by_contra hne
    have hle : (int32 p.length).toNat ≤ p.length := int32_toNat_le hpos
    exact not_stress_of_lt hp (by omega) hstress
  rw [hlen] at hstress ⊢
  rw [List.drop_left] at hstress
  obtain ⟨t, ht⟩ := hstress
  rw [List.take_left]
  refine ⟨⟨?_, hp, ?_, t, ?_⟩, rfl⟩
  · intro hnil
    rw [hnil] at hpos
    exact absurd hpos (by decide)
  · have := lt_of_mallocAccepts hmalloc
    omega
  · rw [← ht, List.append_assoc]

theorem Starts.strspn_eq {memory stressId : List UInt8} (h : Starts memory stressId) :
    strspn Stress.isPrefixByte memory = some stressId.length := by
  obtain ⟨t, ht⟩ := h.isPrefix
  refine strspn_eq_some_iff.mpr
    ⟨stressId, 115, [116, 114, 101, 115, 115] ++ t, ?_, rfl, h.isPrefixByte, ?_⟩
  · rw [← ht, List.append_assoc, bytes_stress]
    rfl
  · decide

/-! ### Messages -/

/-- The frames that must follow the first one: their bytes and their more flags. -/
def followers (stressId : List UInt8) : List (List UInt8 × Bool) :=
  [(stressId ++ bytes "AAAAAAAA", true), (stressId ++ bytes "BBBBBBBB", true),
    (stressId ++ bytes "CCCCCCCC", true), (stressId ++ bytes "DDDDDDDD", true),
    (stressId ++ bytes "EEEEEEEE", false)]

/-- The frames of a message the server accepts. -/
structure Accepted (identity first : Frame) (rest : List Frame) (stressId : List UInt8) :
    Prop where
  /-- The identity frame is not the last one. -/
  identity_more : identity.more = true
  /-- The identity frame is not empty. -/
  identity_ne_nil : identity.data ≠ []
  /-- The first frame is not the last one. -/
  first_more : first.more = true
  /-- The first frame starts with the prefix and `"stress"`. -/
  starts : Starts first.memory stressId
  /-- The other frames are equal to what must follow. -/
  rest_eq : rest.map (fun f => (f.data, f.more)) = followers stressId

/-- The grammar of the messages the server accepts. -/
def IsMessage (g : List Frame) : Prop :=
  ∃ identity first rest stressId, g = identity :: first :: rest ∧
    Accepted identity first rest stressId

/-- The five frames behind the first one. -/
theorem recvFollowers_eq_ok {stressId : List UInt8} (hid : (0 : UInt8) ∉ stressId)
    {q r : List Frame} :
    (∃ q₁, recvAssert stressId (bytes "AAAAAAAA") true q = .ok q₁ ∧
      ∃ q₂, recvAssert stressId (bytes "BBBBBBBB") true q₁ = .ok q₂ ∧
      ∃ q₃, recvAssert stressId (bytes "CCCCCCCC") true q₂ = .ok q₃ ∧
      ∃ q₄, recvAssert stressId (bytes "DDDDDDDD") true q₃ = .ok q₄ ∧
        recvAssert stressId (bytes "EEEEEEEE") false q₄ = .ok r) ↔
      ∃ rest, rest.map (fun f => (f.data, f.more)) = followers stressId ∧ q = rest ++ r := by
  simp (disch := decide) only [recvAssert_eq_ok hid]
  constructor
  · intro h
    obtain ⟨_, ⟨a, rfl, ha⟩, _, ⟨b, rfl, hb⟩, _, ⟨c, rfl, hc⟩, _, ⟨d, rfl, hd⟩, e, rfl, he⟩ := h
    exact ⟨[a, b, c, d, e], by simp [followers, ha, hb, hc, hd, he], rfl⟩
  · intro h
    obtain ⟨rest, hrest, rfl⟩ := h
    simp only [followers, List.map_eq_cons_iff, List.map_eq_nil_iff, Prod.mk.injEq] at hrest
    obtain ⟨a, _, rfl, ha, b, _, rfl, hb, c, _, rfl, hc, d, _, rfl, hd, e, _, rfl, he, rfl⟩ := hrest
    exact ⟨_, ⟨a, rfl, ha⟩, _, ⟨b, rfl, hb⟩, _, ⟨c, rfl, hc⟩, _, ⟨d, rfl, hd⟩, e, rfl, he⟩

/-- **What `receive_mp` accepts.** -/
theorem receiveMp_eq_ok {q r : List Frame} :
    receiveMp q = .ok r ↔ ∃ g, IsMessage g ∧ q = g ++ r := by
  simp only [receiveMp, bind_eq_ok, check_eq_ok, read_eq_ok, Prod.exists, next_eq_ok, beq_iff_eq,
    decide_eq_true_eq]
  constructor
  · intro h
    obtain ⟨identity, _, rfl, -, hmore, -, hsize, first, _, rfl, -, hfirst, span, hspan, -, hpos, -,
      hmalloc, _, hcmp, -, rfl, hrecv⟩ := h
    -- the prefix that was found is the one the other frames are compared with
    obtain ⟨hstarts, -⟩ := starts_of_strncmp hspan hpos hmalloc hcmp
    obtain ⟨rest, hrest, rfl⟩ := (recvFollowers_eq_ok (zero_notMem hstarts.isPrefixByte)).mp hrecv
    refine ⟨identity :: first :: rest, ⟨identity, first, rest,
      first.memory.take (int32 span).toNat, rfl, ?_⟩, rfl⟩
    exact ⟨hmore, List.length_pos_iff.mp hsize, hfirst, hstarts, hrest⟩
  · intro h
    obtain ⟨_, ⟨identity, first, rest, stressId, rfl, h⟩, rfl⟩ := h
    -- the prefix fits an `int`, so that its length survives the conversion
    have hlt := h.starts.length_lt
    have hpos : 0 < stressId.length := List.length_pos_iff.mpr h.starts.ne_nil
    have hint : int32 stressId.length = stressId.length := int32_natCast (by omega)
    obtain ⟨t, ht⟩ := h.starts.isPrefix
    have htake : first.memory.take stressId.length = stressId := by
      rw [← ht, List.append_assoc, List.take_left]
    have hdrop : first.memory.drop stressId.length = bytes "stress" ++ t := by
      rw [← ht, List.append_assoc, List.drop_left]
    refine ⟨identity, _, rfl, (), h.identity_more, (), List.length_pos_iff.mpr h.identity_ne_nil,
      first, _, rfl, (), h.first_more, stressId.length, h.starts.strspn_eq, (), ?_, (), ?_, 0, ?_,
      (), rfl, ?_⟩
    · rw [hint]
      omega
    · rw [hint]
      exact mallocAccepts_natCast hlt
    · -- the memory is the first argument here
      rw [hint, Int.toNat_natCast, hdrop]
      apply strncmp_comm_eq_zero.mp
      exact (strncmp_eq_zero_iff (s := bytes "stress") (t := [0]) (by decide)).mpr
        (List.prefix_append _ _)
    · rw [hint, Int.toNat_natCast, htake]
      exact (recvFollowers_eq_ok (zero_notMem h.starts.isPrefixByte)).mpr ⟨rest, h.rest_eq, rfl⟩

end Stress
end ZmqIssues
