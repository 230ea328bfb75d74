import ZmqIssues.Lib.CStrings
import ZmqIssues.Lib.Numbers

/-!
# The stress client of issue 199

A client sends twenty messages of six parts.  All parts of a message start with its
prefix, made of the process id and the number of the message.

## Main definitions

* `idPrefix` — the prefix of a message.
* `stress`, `main` — the parts a call of `stress` and a whole client send.
* `sentPart` — one of the parts a client sends.

## Main results

* `idPrefix_injective` — different messages have different prefixes.
* `mainLoop_spec`, `sentPart_eq_some` — a client sends the parts of its messages in order.
-/

namespace ZmqIssues
namespace Stress

open CStrings Numbers

/-- What a `zsend` call hands to the socket. -/
structure Part where
  /-- The bytes of the part. -/
  data : List UInt8
  /-- Is it sent with `ZMQ_SNDMORE`? -/
  more : Bool
  deriving DecidableEq, Repr

/-- `snprintf (id_prefix, 21, "%i.%i.", pid, i)`. -/
def idPrefix (pid i : ℕ) : List UInt8 :=
  (ascii (decimal pid ++ '.' :: (decimal i ++ ['.']))).take 20

/-- What follows the prefix in the parts of a message, and whether more parts follow. -/
def bodies : List Part :=
  [⟨bytes "stress", true⟩, ⟨bytes "AAAAAAAA", true⟩, ⟨bytes "BBBBBBBB", true⟩,
    ⟨bytes "CCCCCCCC", true⟩, ⟨bytes "DDDDDDDD", true⟩, ⟨bytes "EEEEEEEE", false⟩]

/-- The parts of the message with a given prefix. -/
def parts (id : List UInt8) : List Part := bodies.map fun p => ⟨id ++ p.data, p.more⟩

/-- `zsend` the parts in order, up to the first failure; `k` calls of `zsend` were made
before, and `ok` tells which calls succeed. -/
def zsends (ok : ℕ → Bool) (k : ℕ) : List Part → List Part × Bool
  | [] => ([], true)
  | p :: ps =>
    if ok k then
      let (sent, done) := zsends ok (k + 1) ps
      (p :: sent, done)
    else
      ([], false)

/-- `stress`: the parts sent, and whether all calls of `zsend` succeeded; there is no
result when the assertion on the length of the prefix fails. -/
def stress (ok : ℕ → Bool) (k : ℕ) (id : List UInt8) : Option (List Part × Bool) :=
  if id.length < 20 then some (zsends ok k (parts id)) else none

/-- The loop of `main` from message `i - 1` down to message 0: the parts sent, and the
exit code. -/
def mainLoop (ok : ℕ → Bool) (pid : ℕ) : ℕ → ℕ → Option (List Part × ℕ)
  | 0, _ => some ([], 0)
  | i + 1, k => do
    let (sent, done) ← stress ok k (idPrefix pid i)
    if done then
      let (rest, code) ← mainLoop ok pid i (k + 6)
      return (sent ++ rest, code)
    else
      return (sent, 5)

/-- The client. -/
def main (ok : ℕ → Bool) (pid : ℕ) : Option (List Part × ℕ) := mainLoop ok pid 20 0

/-! ### Prefixes -/

section Process

variable {pid i : ℕ}

/-- A process id and a message number fit into the buffer. -/
theorem idPrefix_eq (hp : pid < 2 ^ 31) (hi : i < 20) :
    idPrefix pid i = ascii (decimal pid ++ '.' :: (decimal i ++ ['.'])) := by
  have h₁ : (decimal pid).length ≤ 10 := length_decimal_le (by omega) (by omega)
  have h₂ : (decimal i).length ≤ 2 := length_decimal_le (by omega) (by omega)
  apply List.take_of_length_le
  simp only [ascii, List.length_map, List.length_append, List.length_cons, List.length_nil]
  omega

theorem length_idPrefix_lt (hp : pid < 2 ^ 31) (hi : i < 20) : (idPrefix pid i).length < 20 := by
  have h₁ : (decimal pid).length ≤ 10 := length_decimal_le (by omega) (by omega)
  have h₂ : (decimal i).length ≤ 2 := length_decimal_le (by omega) (by omega)
  rw [idPrefix_eq hp hi]
  simp only [ascii, List.length_map, List.length_append, List.length_cons, List.length_nil]
  omega

theorem idPrefix_ne_nil (pid i : ℕ) : idPrefix pid i ≠ [] := by
  have h := length_decimal_pos pid
  rw [← List.length_pos_iff]
  simp only [idPrefix, ascii, List.length_take, List.length_map, List.length_append]
  omega

/-- A prefix consists of digits and dots. -/
theorem exists_of_mem_idPrefix {b : UInt8} (h : b ∈ idPrefix pid i) :
    ∃ c : Char, (c.isDigit = true ∨ c = '.') ∧ b = c.toNat.toUInt8 := by
  obtain ⟨c, hc, rfl⟩ := List.mem_map.mp (List.mem_of_mem_take h)
  refine ⟨c, ?_, rfl⟩
  simp only [List.mem_append, List.mem_cons, List.not_mem_nil, or_false] at hc
  rcases hc with hc | rfl | hc | rfl
  · exact Or.inl (isDigit_of_mem_decimal hc)
  · exact Or.inr rfl
  · exact Or.inl (isDigit_of_mem_decimal hc)
  · exact Or.inr rfl

end Process

/-- The text of a prefix is ASCII. -/
theorem toNat_lt_of_mem_prefix {pid i : ℕ} {c : Char}
    (h : c ∈ decimal pid ++ '.' :: (decimal i ++ ['.'])) : c.toNat < 128 := by
  have hdigit : ∀ n : ℕ, c ∈ decimal n → c.toNat < 128 := by
    intro n hc
    obtain ⟨-, hhi⟩ := Char.isDigit_iff_toNat.mp (isDigit_of_mem_decimal hc)
    exact Nat.lt_of_le_of_lt hhi (by decide)
  simp only [List.mem_append, List.mem_cons, List.not_mem_nil, or_false] at h
  rcases h with h | rfl | h | rfl
  · exact hdigit pid h
  · decide
  · exact hdigit i h
  · decide

/-- **Different messages have different prefixes.** -/
theorem idPrefix_injective {pid pid' i i' : ℕ} (hp : pid < 2 ^ 31) (hi : i < 20)
    (hp' : pid' < 2 ^ 31) (hi' : i' < 20) (h : idPrefix pid i = idPrefix pid' i') :
    pid = pid' ∧ i = i' := by
  rw [idPrefix_eq hp hi, idPrefix_eq hp' hi'] at h
  have htext := congrArg chars h
  rw [chars_ascii fun c => toNat_lt_of_mem_prefix, chars_ascii fun c => toNat_lt_of_mem_prefix]
    at htext
  -- both numbers end at a dot
  have hpid : pid = pid' := by
    have hmag := congrArg magnitude htext
    rwa [magnitude_decimal_append pid (by rfl), magnitude_decimal_append pid' (by rfl)] at hmag
  subst hpid
  have hrest := (List.cons.inj (List.append_cancel_left htext)).2
  have hmag := congrArg magnitude hrest
  rw [magnitude_decimal_append i (by rfl), magnitude_decimal_append i' (by rfl)] at hmag
  exact ⟨rfl, hmag⟩

/-! ### What a client sends -/

theorem zsends_isPrefix (ok : ℕ → Bool) (k : ℕ) (ps : List Part) : (zsends ok k ps).1 <+: ps := by
  induction ps generalizing k with
  | nil => exact List.nil_prefix
  | cons p ps ih =>
    by_cases hk : ok k = true
    · simpa [zsends, hk] using ih (k + 1)
    · simp [zsends, hk]

/-- If all calls succeed, all parts are sent. -/
theorem zsends_of_done {ok : ℕ → Bool} {k : ℕ} {ps : List Part} (h : (zsends ok k ps).2 = true) :
    (zsends ok k ps).1 = ps := by
  induction ps generalizing k with
  | nil => rfl
  | cons p ps ih =>
    by_cases hk : ok k = true
    · simp only [zsends, hk, if_true] at h ⊢
      rw [ih h]
    · simp [zsends, hk] at h

/-- The parts of the messages below `i`, in the order of the loop, which counts down. -/
def messages (pid : ℕ) : ℕ → List Part
  | 0 => []
  | i + 1 => parts (idPrefix pid i) ++ messages pid i

theorem length_parts (id : List UInt8) : (parts id).length = 6 := rfl

/-- Each message has six places. -/
theorem getElem?_messages (pid : ℕ) {n i j : ℕ} (hi : i < n) (hj : j < 6) :
    (messages pid n)[6 * (n - 1 - i) + j]? = (parts (idPrefix pid i))[j]? := by
  induction n with
  | zero => exact absurd hi (Nat.not_lt_zero i)
  | succ n ih =>
    rw [messages]
    rcases Nat.eq_or_lt_of_le (Nat.le_of_lt_succ hi) with rfl | hlt
    · rw [List.getElem?_append_left (by rw [length_parts]; omega)]
      congr 1
      omega
    · rw [List.getElem?_append_right (by rw [length_parts]; omega), ← ih hlt, length_parts]
      congr 1
      omega

/-- **The loop sends the messages in order**, as far as it gets. -/
theorem mainLoop_spec {pid : ℕ} (hp : pid < 2 ^ 31) (ok : ℕ → Bool) {i : ℕ} (hi : i ≤ 20) (k : ℕ) :
    ∃ sent code, mainLoop ok pid i k = some (sent, code) ∧ sent <+: messages pid i := by
  induction i generalizing k with
  | zero => exact ⟨[], 0, rfl, List.nil_prefix⟩
  | succ i ih =>
    have hstress : stress ok k (idPrefix pid i) = some (zsends ok k (parts (idPrefix pid i))) := by
      rw [stress, if_pos (length_idPrefix_lt hp (by omega))]
    have hsub := zsends_isPrefix ok k (parts (idPrefix pid i))
    have hall : (zsends ok k (parts (idPrefix pid i))).2 = true →
        (zsends ok k (parts (idPrefix pid i))).1 = parts (idPrefix pid i) := zsends_of_done
    rw [mainLoop, hstress, messages]
    generalize zsends ok k (parts (idPrefix pid i)) = r at hsub hall
    obtain ⟨sent, done⟩ := r
    cases done with
    | false =>
      -- `main` returns at the first failure
      exact ⟨sent, 5, rfl, hsub.trans (List.prefix_append _ _)⟩
    | true =>
      obtain ⟨rest, code, hrest, hpre⟩ := ih (by omega) (k + 6)
      obtain rfl : sent = parts (idPrefix pid i) := hall rfl
      exact ⟨_, code, by simp [hrest], (List.prefix_append_right_inj _).mpr hpre⟩

/-- Part `j` of message `i` among the parts a client sends: the messages are counted down
from 19, and each has six parts. -/
def sentPart (ok : ℕ → Bool) (pid i j : ℕ) : Option Part := do
  let (sent, _) ← main ok pid
  sent[6 * (19 - i) + j]?

/-- **What a client sends.**  The assertion in `stress` never fails, and the parts sent,
whichever calls of `zsend` fail, are the parts of the twenty messages, in order. -/
theorem sentPart_eq_some {pid : ℕ} (hp : pid < 2 ^ 31) {ok : ℕ → Bool} {i j : ℕ} {p : Part}
    (hi : i < 20) (hj : j < 6) (h : sentPart ok pid i j = some p) :
    (parts (idPrefix pid i))[j]? = some p := by
  obtain ⟨sent, code, hsent, hpre⟩ := mainLoop_spec hp ok (Nat.le_refl 20) 0
  have hmain : main ok pid = some (sent, code) := hsent
  rw [sentPart, hmain] at h
  rw [← getElem?_messages pid hi hj]
  obtain ⟨hlt, rfl⟩ := List.getElem?_eq_some_iff.mp h
  exact List.prefix_iff_getElem?.mp hpre _ hlt

end Stress
end ZmqIssues
