import Mathlib.Algebra.Order.Ring.Int
import Mathlib.Data.List.Basic
import Mathlib.Data.List.TakeWhile
import Mathlib.Tactic.Common

/-!
# C integers and their decimal text

The conversions between the integer types of a 64-bit C program, the decimal text
`printf` writes for `%i` and `%ld`, and the functions that read it back.

## Main definitions

* `sizeT`, `int32`, `int64` — conversion to `size_t`, `int` and `long`.
* `mallocAccepts` — the sizes `malloc` accepts.
* `decimal` — the text of an integer.
* `strtol`, `atoi` — the value of a text.

## Main results

* `atoi_decimal` — reading a written `long` back reduces it to an `int`.
* `magnitude_decimal_append` — the digits of a number are read back from a longer text.
-/

namespace ZmqIssues
namespace Numbers

/-! ### Conversions -/

/-- Conversion to `size_t`. -/
def sizeT (z : ℤ) : ℕ := (z % 2 ^ 64).toNat

/-- Conversion to `int`. -/
def int32 (z : ℤ) : ℤ := z.bmod (2 ^ 32)

/-- Conversion to `long`. -/
def int64 (z : ℤ) : ℤ := z.bmod (2 ^ 64)

/-- Does `malloc` accept the size?  Memory is taken not to run out, and sizes above
`PTRDIFF_MAX` are refused. -/
def mallocAccepts (size : ℕ) : Bool := size < 2 ^ 63

theorem sizeT_natCast {n : ℕ} (h : n < 2 ^ 64) : sizeT n = n := by
  unfold sizeT
  omega

theorem int32_natCast {n : ℕ} (h : n < 2 ^ 31) : int32 n = n := by
  rw [int32, Int.bmod_def]
  omega

theorem int64_natCast {n : ℕ} (h : n < 2 ^ 63) : int64 n = n := by
  rw [int64, Int.bmod_def]
  omega

theorem int32_toNat_le {n : ℕ} (h : 0 < int32 n) : (int32 n).toNat ≤ n := by
  rw [int32, Int.bmod_def] at h ⊢
  omega

/-- A size that is one more than an `int` is accepted only if it still is an `int`. -/
theorem lt_of_mallocAccepts {z : ℤ}
    (h : mallocAccepts (sizeT (int32 (int32 z + 1))) = true) : int32 z + 1 < 2 ^ 31 := by
  have hsize : (int32 (int32 z + 1) % 2 ^ 64).toNat < 2 ^ 63 := of_decide_eq_true h
  simp only [int32, Int.bmod_def] at hsize ⊢
  omega

theorem mallocAccepts_natCast {n : ℕ} (h : n < 2 ^ 31) :
    mallocAccepts (sizeT (int32 n)) = true := by
  rw [int32_natCast h, sizeT_natCast (by omega)]
  exact decide_eq_true (by omega)

/-! ### Decimal text -/

/-- The text of `%i` or `%ld`. -/
def decimal : ℤ → List Char
  | .ofNat n => Nat.toDigits 10 n
  | .negSucc n => '-' :: Nat.toDigits 10 (n + 1)

/-- `isspace`. -/
def isspace (c : Char) : Bool := c = ' ' ∨ ('\t'.toNat ≤ c.toNat ∧ c.toNat ≤ '\r'.toNat)

/-- The number the digits at the start of a text stand for. -/
def magnitude (text : List Char) : ℕ := Nat.ofDigitChars 10 (text.takeWhile Char.isDigit) 0

/-- A signed text without blanks in front. -/
def signed : List Char → ℤ
  | '-' :: text => -magnitude text
  | '+' :: text => magnitude text
  | text => magnitude text

/-- `strtol` in base ten: skip blanks, read a sign and the digits, and stay in the range
of `long`. -/
def strtol (text : List Char) : ℤ :=
  max (-2 ^ 63) (min (2 ^ 63 - 1) (signed (text.dropWhile isspace)))

/-- `atoi`. -/
def atoi (text : List Char) : ℤ := int32 (strtol text)

theorem isDigit_of_mem_decimal {n : ℕ} {c : Char} (h : c ∈ decimal n) : c.isDigit = true :=
  Nat.isDigit_of_mem_toDigits (by omega) (by omega) h

theorem length_decimal_le {n k : ℕ} (hk : 0 < k) (h : n < 10 ^ k) : (decimal n).length ≤ k :=
  (Nat.length_toDigits_le_iff (by omega) hk).mpr h

theorem length_decimal_pos (n : ℕ) : 0 < (decimal n).length :=
  Nat.length_toDigits_pos

/-- The digits of a number are read back up to the first character that is none. -/
theorem magnitude_decimal_append (n : ℕ) {text : List Char}
    (h : text.takeWhile Char.isDigit = []) : magnitude (decimal n ++ text) = n := by
  rw [magnitude, List.takeWhile_append_of_pos fun c hc => isDigit_of_mem_decimal hc, h,
    List.append_nil]
  exact Nat.ofDigitChars_ten_toDigits

theorem magnitude_decimal (n : ℕ) : magnitude (decimal n) = n := by
  have h := magnitude_decimal_append n (rfl : [].takeWhile Char.isDigit = [])
  rwa [List.append_nil] at h

theorem not_isspace_of_isDigit {c : Char} (h : c.isDigit = true) : isspace c = false := by
  obtain ⟨hlo, -⟩ := Char.isDigit_iff_toNat.mp h
  have hne : c ≠ ' ' := by
    intro hc
    subst hc
    exact absurd h (by decide)
  have h0 : '0'.toNat = 48 := rfl
  have hr : 9 ≤ c.toNat → 13 < c.toNat := by omega
  simpa [isspace, hne] using hr

/-- What `decimal` writes starts with a digit or the minus sign. -/
theorem signed_decimal (z : ℤ) : signed ((decimal z).dropWhile isspace) = z := by
  cases z with
  | ofNat n =>
    obtain ⟨c, cs, hcs⟩ := List.exists_cons_of_length_pos (length_decimal_pos n)
    have hc : c.isDigit = true := isDigit_of_mem_decimal (n := n) (by simp [hcs])
    -- so that neither of the two signs is read
    have hminus : c ≠ '-' := by
      intro heq
      subst heq
      exact absurd hc (by decide)
    have hplus : c ≠ '+' := by
      intro heq
      subst heq
      exact absurd hc (by decide)
    show signed ((decimal n).dropWhile isspace) = n
    rw [hcs, List.dropWhile_cons_of_neg (by simp [not_isspace_of_isDigit hc]), signed, ← hcs,
      magnitude_decimal]
    · intro text htext
      exact hminus (List.cons.inj htext).1
    · intro text htext
      exact hplus (List.cons.inj htext).1
  | negSucc n =>
    have hmag : magnitude (Nat.toDigits 10 (n + 1)) = n + 1 := magnitude_decimal (n + 1)
    rw [decimal, List.dropWhile_cons_of_neg (by decide), signed, hmag]
    rfl

/-- **Reading back what was written.**  The value of a `long` survives but for the
reduction to `int`. -/
theorem atoi_decimal {z : ℤ} (hlo : -2 ^ 63 ≤ z) (hhi : z < 2 ^ 63) :
    atoi (decimal z) = int32 z := by
  have hrange : max (-2 ^ 63) (min (2 ^ 63 - 1) z) = z := by omega
  rw [atoi, strtol, signed_decimal, hrange]

end Numbers
end ZmqIssues
