import ZmqIssues.Lib.CStrings
import ZmqIssues.Lib.Numbers

/-!
# Hexadecimal text in a buffer

## Main definitions

* `schar`, `uint32` — the values of a `char` that is signed, and of an `unsigned int`.
* `hex02` — the text of `%02x`.
* `store`, `snprintf` — storing into a buffer.
* `decodeHex` — the bytes pairs of digits stand for.

## Main results

* `hex02_of_lt` — a byte has two digits.
* `take_hex02_schar` — the first two digits of the numbers a negative `char` is converted to.
-/

namespace ZmqIssues
namespace Hex

open CStrings Numbers

/-- The value of a `char`, where it is signed. -/
def schar (b : UInt8) : ℤ := if b.toNat < 128 then b.toNat else b.toNat - 256

/-- Conversion to `unsigned int`. -/
def uint32 (z : ℤ) : ℕ := (z % 2 ^ 32).toNat

/-- The text of `%02x`. -/
def hex02 (n : ℕ) : List Char := if n < 16 then '0' :: Nat.toDigits 16 n else Nat.toDigits 16 n

/-- Store bytes into a buffer, from position `pos` on; there is no result when they do not
fit in. -/
def store (buffer : List UInt8) (pos : ℤ) (data : List UInt8) : Option (List UInt8) :=
  if 0 ≤ pos ∧ pos.toNat + data.length ≤ buffer.length then
    some (buffer.take pos.toNat ++ data ++ buffer.drop (pos.toNat + data.length))
  else
    none

/-- `snprintf` of a text: at most `size - 1` of its characters and a zero. -/
def snprintf (buffer : List UInt8) (pos : ℤ) (size : ℕ) (text : List Char) :
    Option (List UInt8) :=
  if size = 0 then some buffer else store buffer pos ((ascii text).take (size - 1) ++ [0])

/-- A lowercase hexadecimal digit. -/
def isHexDigit (b : UInt8) : Bool := (bytes "0123456789abcdef").contains b

/-- The value of a lowercase hexadecimal digit. -/
def digitValue (b : UInt8) : Option ℕ :=
  if isHexDigit b then some ((bytes "0123456789abcdef").idxOf b) else none

/-- The bytes pairs of digits stand for. -/
def decodeHex : List UInt8 → Option (List UInt8)
  | [] => some []
  | c :: d :: text => do
    let high ← digitValue c
    let low ← digitValue d
    let rest ← decodeHex text
    return UInt8.ofNat (16 * high + low) :: rest
  | [_] => none

theorem schar_of_lt {b : UInt8} (h : b.toNat < 128) : schar b = b.toNat := if_pos h

theorem schar_of_le {b : UInt8} (h : 128 ≤ b.toNat) : schar b = b.toNat - 256 :=
  if_neg (Nat.not_lt.mpr h)

/-! ### Digits -/

/-- **A byte has two digits.** -/
theorem hex02_of_lt {n : ℕ} (h : n < 256) :
    hex02 n = [(n / 16).digitChar, (n % 16).digitChar] := by
  by_cases hn : n < 16
  · rw [hex02, if_pos hn, Nat.toDigits_of_lt_base hn, Nat.div_eq_of_lt hn, Nat.mod_eq_of_lt hn]
    rfl
  · have hdiv : n / 16 < 16 := by omega
    rw [hex02, if_neg hn, Nat.toDigits_of_base_le (by decide) (by omega),
      Nat.toDigits_of_lt_base hdiv]
    rfl

/-- Larger numbers have the digits of their leading part in front. -/
theorem hex02_of_le {n : ℕ} (h : 256 ≤ n) :
    hex02 n = Nat.toDigits 16 (n / 256) ++ [(n / 16 % 16).digitChar, (n % 16).digitChar] := by
  have hdiv : n / 16 / 16 = n / 256 := Nat.div_div_eq_div_mul n 16 16
  rw [hex02, if_neg (by omega), Nat.toDigits_of_base_le (by decide) (by omega),
    Nat.toDigits_of_base_le (by decide) (by omega), hdiv, List.append_assoc]
  rfl

/-- **A negative `char` becomes a number that starts with two `f`.** -/
theorem take_hex02_schar {b : UInt8} (h : 128 ≤ b.toNat) :
    (hex02 (uint32 (schar b))).take 2 = ['f', 'f'] := by
  have hlt := b.toNat_lt
  have hval : uint32 (schar b) = 2 ^ 32 - 256 + b.toNat := by
    rw [schar_of_le h, uint32]
    omega
  have hlead : (2 ^ 32 - 256 + b.toNat) / 256 = 2 ^ 24 - 1 := by omega
  rw [hval, hex02_of_le (by omega), hlead]
  rfl

theorem hex02_schar {b : UInt8} (h : b.toNat < 128) :
    hex02 (uint32 (schar b)) = [(b.toNat / 16).digitChar, (b.toNat % 16).digitChar] := by
  have hval : uint32 (schar b) = b.toNat := by
    rw [schar_of_lt h, uint32]
    omega
  rw [hval, hex02_of_lt (by omega)]

/-! ### Reading back -/

/-- Two digits in memory. -/
def hexPair (high low : ℕ) : List UInt8 := ascii [high.digitChar, low.digitChar]

theorem digitValue_digitChar :
    ∀ n < 16, digitValue n.digitChar.toNat.toUInt8 = some n := by decide

theorem isHexDigit_digitChar : ∀ n < 16, isHexDigit n.digitChar.toNat.toUInt8 = true := by decide

theorem isHexDigit_of_mem_hexPair {high low : ℕ} (hhigh : high < 16) (hlow : low < 16) {d : UInt8}
    (h : d ∈ hexPair high low) : isHexDigit d = true := by
  simp only [hexPair, ascii, List.map_cons, List.map_nil, List.mem_cons, List.not_mem_nil,
    or_false] at h
  rcases h with rfl | rfl
  · exact isHexDigit_digitChar high hhigh
  · exact isHexDigit_digitChar low hlow

/-- **A pair of digits is read back.** -/
theorem decodeHex_hexPair_append {high low : ℕ} (hhigh : high < 16) (hlow : low < 16)
    (text : List UInt8) :
    decodeHex (hexPair high low ++ text) =
      (decodeHex text).map (UInt8.ofNat (16 * high + low) :: ·) := by
  show decodeHex (high.digitChar.toNat.toUInt8 :: low.digitChar.toNat.toUInt8 :: text) = _
  rw [decodeHex, digitValue_digitChar high hhigh, digitValue_digitChar low hlow]
  cases decodeHex text <;> rfl

/-! ### Storing -/

/-- Storing behind a first part of a buffer keeps that part. -/
theorem store_append {written data tail : List UInt8} (h : data.length ≤ tail.length) :
    store (written ++ tail) written.length data =
      some (written ++ data ++ tail.drop data.length) := by
  have hfits : written.length + data.length ≤ (written ++ tail).length := by
    rw [List.length_append]
    omega
  rw [store, Int.toNat_natCast, if_pos ⟨Int.natCast_nonneg _, hfits⟩, List.take_left,
    List.drop_append, List.drop_eq_nil_of_le (Nat.le_add_right _ _), List.nil_append,
    Nat.add_sub_cancel_left]

theorem store_of_neg {buffer data : List UInt8} {pos : ℤ} (h : pos < 0) :
    store buffer pos data = none :=
  if_neg fun hpos => absurd hpos.1 (Int.not_le.mpr h)

end Hex
end ZmqIssues
