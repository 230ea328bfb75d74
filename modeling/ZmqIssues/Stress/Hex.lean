import ZmqIssues.Lib.Hex

/-!
# The printed name of a peer

The server of issue 199 prints the identity of a peer as hexadecimal text.  `to_hex`
writes the text of each byte with `%02x`, cut to two characters.  A byte from 128 on is
a negative `char`, which `%02x` is given as a number of eight digits, and two of these
are left: they are `"ff"` for every such byte.

## Main definitions

* `toHex` — the function of the server.
* `Faithful` — the text is the hexadecimal encoding of the bytes.
* `printed` — the byte that is read back for a byte.

## Main results

* `toHex_eq_some` — what is written.
* `toHex_eq_none` — from `2 ^ 30` bytes on, the function stores outside its buffer.
* `toHex_faithful_iff` — **the encoding is faithful for the bytes below 128 and 255.**
-/

namespace ZmqIssues
namespace Stress

open CStrings Numbers Hex

/-- The loop of `to_hex`, at byte `i`.  Both `i` and `2 * i` are of type `int`. -/
def toHexLoop (i : ℤ) : List UInt8 → List UInt8 → Option (List UInt8)
  | [], dest => some dest
  | b :: data, dest => do
    let dest ← snprintf dest (int32 (2 * i)) 3 (hex02 (uint32 (schar b)))
    toHexLoop (int32 (i + 1)) data dest

/-- `to_hex`: the buffer afterwards; there is no result when something is stored outside
of it. -/
def toHex (data dest : List UInt8) : Option (List UInt8) := toHexLoop 0 data dest

/-- The text is the hexadecimal encoding of the bytes: whatever is in a buffer of the size
`receive_mp` allocates, it then holds two digits for each byte and a zero, and the digits
stand for the bytes. -/
def Faithful (data : List UInt8) : Prop :=
  ∀ dest, dest.length = 2 * data.length + 1 →
    ∃ digits, toHex data dest = some (digits ++ [0]) ∧ digits.length = 2 * data.length ∧
      (∀ d ∈ digits, isHexDigit d = true) ∧ decodeHex digits = some data

/-! ### The digits of a byte -/

/-- The byte that is read back for a byte. -/
def printed (b : UInt8) : UInt8 := if b.toNat < 128 then b else 255

/-- The two digits that are written for a byte. -/
def digitsOf (b : UInt8) : List UInt8 := hexPair ((printed b).toNat / 16) ((printed b).toNat % 16)

theorem printed_eq_iff {b : UInt8} : printed b = b ↔ b.toNat < 128 ∨ b = 255 := by
  rw [printed]
  split
  · next h => simp [h]
  · next h => simp [h, eq_comm]

/-- Two characters are left of the text of a byte. -/
theorem take_text (b : UInt8) : (ascii (hex02 (uint32 (schar b)))).take 2 = digitsOf b := by
  rw [digitsOf, printed, ascii, ← List.map_take]
  split
  · next h =>
    rw [hex02_schar h]
    rfl
  · next h =>
    rw [take_hex02_schar (Nat.le_of_not_lt h)]
    rfl

theorem length_digitsOf (b : UInt8) : (digitsOf b).length = 2 := rfl

theorem decodeHex_digitsOf (data : List UInt8) :
    decodeHex (data.flatMap digitsOf) = some (data.map printed) := by
  induction data with
  | nil => rfl
  | cons b data ih =>
    have hlt := (printed b).toNat_lt
    have hbyte : 16 * ((printed b).toNat / 16) + (printed b).toNat % 16 = (printed b).toNat :=
      Nat.div_add_mod _ 16
    rw [List.flatMap_cons, digitsOf, decodeHex_hexPair_append (by omega) (by omega), ih, hbyte,
      UInt8.ofNat_toNat]
    rfl

/-! ### What is written -/

/-- A byte is written behind those before it. -/
theorem snprintf_byte {i : ℕ} (hi : i < 2 ^ 30) (b : UInt8) {written tail : List UInt8}
    (hwritten : written.length = 2 * i) (htail : 3 ≤ tail.length) :
    snprintf (written ++ tail) (int32 (2 * i)) 3 (hex02 (uint32 (schar b))) =
      some (written ++ digitsOf b ++ 0 :: tail.drop 3) := by
  have hpos : int32 (2 * i) = written.length := by
    have hint : int32 (2 * i : ℕ) = (2 * i : ℕ) := int32_natCast (by omega)
    rw [hwritten, ← hint, Nat.cast_mul, Nat.cast_ofNat]
  have hthree : (digitsOf b ++ [0]).length = 3 := rfl
  have hfits : (digitsOf b ++ [0]).length ≤ tail.length := by omega
  rw [snprintf, if_neg (by decide), hpos, take_text, store_append hfits, hthree]
  simp

theorem int32_succ {i : ℕ} (hi : i < 2 ^ 30) : int32 (i + 1) = (i + 1 : ℕ) :=
  int32_natCast (n := i + 1) (by omega)

/-- **What is written**: two digits for each byte, and a zero behind the last ones. -/
theorem toHexLoop_eq_some {i : ℕ} {b : UInt8} {data written tail : List UInt8}
    (hwritten : written.length = 2 * i) (htail : tail.length = 2 * (data.length + 1) + 1)
    (hi : i + (data.length + 1) ≤ 2 ^ 30) :
    toHexLoop i (b :: data) (written ++ tail) =
      some (written ++ (b :: data).flatMap digitsOf ++ [0]) := by
  induction data generalizing i b written tail with
  | nil =>
    -- the zero behind the last byte stays
    have htail' : tail.length = 3 := htail
    rw [toHexLoop, snprintf_byte hi b hwritten htail'.ge, List.drop_eq_nil_of_le htail'.le]
    simp [toHexLoop]
  | cons b' data ih =>
    rw [List.length_cons] at htail hi
    rw [toHexLoop, snprintf_byte (by omega) b hwritten (by omega), Option.bind_eq_bind,
      Option.bind_some, int32_succ (by omega)]
    have hwritten' : (written ++ digitsOf b).length = 2 * (i + 1) := by
      rw [List.length_append, length_digitsOf, hwritten]
      omega
    have htail' : (0 :: tail.drop 3).length = 2 * (data.length + 1) + 1 := by
      rw [List.length_cons, List.length_drop, htail]
      omega
    -- each zero is overwritten by the next byte
    rw [ih hwritten' htail' (by omega)]
    simp

/-- A byte from `2 ^ 30` on would be written in front of the buffer. -/
theorem toHexLoop_eq_none {i : ℕ} {data : List UInt8} (hi : i ≤ 2 ^ 30)
    (hlen : 2 ^ 30 < i + data.length) (dest : List UInt8) : toHexLoop i data dest = none := by
  induction data generalizing i dest with
  | nil =>
    rw [List.length_nil] at hlen
    omega
  | cons b data ih =>
    rw [List.length_cons] at hlen
    rcases Nat.lt_or_eq_of_le hi with hlt | rfl
    · rw [toHexLoop, int32_succ hlt]
      cases snprintf dest (int32 (2 * i)) 3 (hex02 (uint32 (schar b))) with
      | none => rfl
      | some dest' => exact ih (by omega) (by omega) dest'
    · have hneg : int32 (2 * (2 ^ 30 : ℕ)) < 0 := by decide
      rw [toHexLoop, snprintf, if_neg (by decide), store_of_neg hneg]
      rfl

theorem toHex_eq_some {data dest : List UInt8} (hne : data ≠ []) (hlen : data.length ≤ 2 ^ 30)
    (hdest : dest.length = 2 * data.length + 1) :
    toHex data dest = some (data.flatMap digitsOf ++ [0]) := by
  obtain ⟨b, data, rfl⟩ := List.exists_cons_of_ne_nil hne
  rw [List.length_cons] at hlen hdest
  have hwritten : ([] : List UInt8).length = 2 * 0 := rfl
  have hloop := toHexLoop_eq_some (i := 0) (b := b) hwritten hdest (by omega)
  exact hloop

theorem toHex_eq_none {data : List UInt8} (hlen : 2 ^ 30 < data.length) (dest : List UInt8) :
    toHex data dest = none :=
  toHexLoop_eq_none (i := 0) (Nat.zero_le _) (by omega) dest

/-! ### When the encoding is faithful -/

theorem length_flatMap_digitsOf (data : List UInt8) :
    (data.flatMap digitsOf).length = 2 * data.length := by
  induction data with
  | nil => rfl
  | cons b data ih =>
    rw [List.flatMap_cons, List.length_append, length_digitsOf, ih, List.length_cons]
    omega

theorem isHexDigit_of_mem_flatMap {data : List UInt8} {d : UInt8}
    (h : d ∈ data.flatMap digitsOf) : isHexDigit d = true := by
  obtain ⟨b, -, hd⟩ := List.mem_flatMap.mp h
  have hlt := (printed b).toNat_lt
  exact isHexDigit_of_mem_hexPair (by omega) (by omega) hd

theorem faithful_iff (data : List UInt8) :
    Faithful data ↔
      data ≠ [] ∧ data.length ≤ 2 ^ 30 ∧ ∀ b ∈ data, b.toNat < 128 ∨ b = 255 := by
  constructor
  · intro h
    obtain ⟨digits, hdigits, -, -, hdecode⟩ :=
      h (List.replicate (2 * data.length + 1) 1) List.length_replicate
    have hlen : data.length ≤ 2 ^ 30 := by
      by_contra hgt
      rw [toHex_eq_none (Nat.lt_of_not_le hgt)] at hdigits
      exact absurd hdigits (by simp)
    have hne : data ≠ [] := by
      -- nothing is written for no bytes
      intro hnil
      subst hnil
      have hlast := congrArg (Option.map List.getLast?) hdigits
      simp [toHex, toHexLoop] at hlast
    refine ⟨hne, hlen, ?_⟩
    rw [toHex_eq_some hne hlen List.length_replicate, Option.some.injEq] at hdigits
    obtain rfl := List.append_cancel_right hdigits
    rw [decodeHex_digitsOf, Option.some.injEq] at hdecode
    have hmap : data.map printed = data.map id := by rw [hdecode, List.map_id]
    intro b hb
    exact printed_eq_iff.mp (List.map_inj_left.mp hmap b hb)
  · intro h dest hdest
    obtain ⟨hne, hlen, hbytes⟩ := h
    refine ⟨data.flatMap digitsOf, toHex_eq_some hne hlen hdest, length_flatMap_digitsOf data,
      fun d => isHexDigit_of_mem_flatMap, ?_⟩
    rw [decodeHex_digitsOf]
    have hmap : data.map printed = data.map id := by
      apply List.map_congr_left
      intro b hb
      exact printed_eq_iff.mpr (hbytes b hb)
    rw [hmap, List.map_id]

/-- **The encoding is faithful for the bytes below 128 and 255.**  `to_hex` writes the
hexadecimal encoding of the bytes if and only if there is a byte, there are no more than
`2 ^ 30`, and each is below 128 or is 255; and two identities of such lengths get the same
printed name if and only if they are the same up to the bytes from 128 on. -/
theorem toHex_faithful_iff (data : List UInt8) :
    (Faithful data ↔
      data ≠ [] ∧ data.length ≤ 2 ^ 30 ∧ ∀ b ∈ data, b.toNat < 128 ∨ b = 255) ∧
    ∀ data' dest dest' : List UInt8,
      data ≠ [] → data.length ≤ 2 ^ 30 → dest.length = 2 * data.length + 1 →
      data' ≠ [] → data'.length ≤ 2 ^ 30 → dest'.length = 2 * data'.length + 1 →
      (toHex data dest = toHex data' dest' ↔ data.map printed = data'.map printed) := by
  refine ⟨faithful_iff data, ?_⟩
  intro data' dest dest' hne hlen hdest hne' hlen' hdest'
  rw [toHex_eq_some hne hlen hdest, toHex_eq_some hne' hlen' hdest', Option.some.injEq]
  constructor
  · intro h
    -- the printed bytes are read back from the name
    have hdecode := congrArg decodeHex (List.append_cancel_right h)
    rw [decodeHex_digitsOf, decodeHex_digitsOf] at hdecode
    exact Option.some.inj hdecode
  · intro h
    have hdigits : ∀ l : List UInt8, l.flatMap digitsOf = (l.map printed).flatMap fun b =>
        hexPair (b.toNat / 16) (b.toNat % 16) := by
      intro l
      rw [List.flatMap_map]
      rfl
    rw [hdigits, hdigits, h]

/-- Two identities as the router makes them get the same printed name, which does not stand
for the first one. -/
theorem toHex_collision :
    toHex [0, 128] (List.replicate 5 1) = some (bytes "00ff" ++ [0]) ∧
      toHex [0, 200] (List.replicate 5 1) = some (bytes "00ff" ++ [0]) ∧ ¬ Faithful [0, 128] := by
  refine ⟨by decide, by decide, ?_⟩
  intro h
  have hbytes := ((faithful_iff [0, 128]).mp h).2.2 128 (by decide)
  exact absurd hbytes (by decide)

end Stress
end ZmqIssues
