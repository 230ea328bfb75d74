import Mathlib.Data.List.Basic
import Mathlib.Tactic.Common

/-!
# ZMTP/1.0 frames

A frame is a length, which counts the flags byte and the data, then the flags byte and
the data.  The length is one byte, or the byte 255 and eight bytes in network order.

## Main definitions

* `bigEndian` — a number in network order.
* `Frame`, `Frame.encode` — a frame whose data fits a message object, and its bytes.

## Main results

* `getLast?_bigEndian` — the last byte of a number in network order.
-/

namespace ZmqIssues
namespace Zmtp

/-- The last `k` bytes of a number, in network order. -/
def bigEndian : ℕ → ℕ → List UInt8
  | 0, _ => []
  | k + 1, n => bigEndian k (n / 256) ++ [UInt8.ofNat n]

@[simp] theorem length_bigEndian (k n : ℕ) : (bigEndian k n).length = k := by
  induction k generalizing n with
  | zero => rfl
  | succ k ih => rw [bigEndian, List.length_append, ih, List.length_singleton]

/-- The last byte comes last. -/
theorem getLast?_bigEndian (b : UInt8) (k n : ℕ) :
    (b :: bigEndian (k + 1) n).getLast? = some (UInt8.ofNat n) := by
  rw [bigEndian, ← List.cons_append, List.getLast?_concat]

/-- A frame with at most 255 data bytes, and the way its length is written. -/
structure Frame where
  /-- The flags byte. -/
  flags : UInt8
  /-- The data. -/
  data : List UInt8
  /-- Is the length written in nine bytes? -/
  escaped : Bool
  /-- The data fits a message object. -/
  length_data_le : data.length ≤ 255
  /-- A length written in one byte is not the escape byte. -/
  short_le : escaped = false → data.length + 1 ≤ 254

namespace Frame

/-- The length of a frame: the flags byte and the data. -/
def length (f : Frame) : ℕ := f.data.length + 1

/-- How the length is written. -/
def encodeLength (f : Frame) : List UInt8 :=
  if f.escaped then 255 :: bigEndian 8 f.length else [UInt8.ofNat f.length]

/-- The bytes of a frame. -/
def encode (f : Frame) : List UInt8 := f.encodeLength ++ f.flags :: f.data

end Frame

end Zmtp
end ZmqIssues
