import Mathlib.Data.List.Basic
import Mathlib.Data.List.Infix
import Mathlib.Data.List.TakeWhile
import Mathlib.Tactic.Common

/-!
# C string functions on memory that need not be terminated

A string function of C that is given a pointer into a buffer without a terminating
zero reads on behind the buffer.  Memory is the list of the values from the pointer
up to the end of the mapped region, and a function that reads past this end has no
result.

## Main definitions

* `ascii`, `bytes` — the bytes of a text, without a terminating zero; `chars` reads them.
* `cstr` — a string in memory, with its terminating zero.
* `CString` — the bytes of a string, none of them zero.
* `strspn`, `strncmp`, `strcmp` — the functions of `string.h`.
* `strspnReads`, `strncmpReads` — how many values they read.

## Main results

* `strspn_eq_some_iff` — the run `strspn` measures is the longest one.
* `strncmp_eq_zero_iff` — comparing with a whole string is a test for a first part.
* `strcmp_eq_zero_iff`, `strcmp_eq_none_iff` — so it is where the length is not limited, and
  the comparison reads on behind the proper first parts.
* `strspn_congr`, `strncmp_congr` — the result depends on what was read only.
* `strncmpReads_le_length_iff` — comparing reads on behind the proper first parts of a string.
-/

namespace ZmqIssues
namespace CStrings

/-- The bytes of an ASCII text. -/
def ascii (text : List Char) : List UInt8 := text.map fun c => c.toNat.toUInt8

/-- The bytes of an ASCII string literal, without its terminating zero. -/
def bytes (s : String) : List UInt8 := ascii s.toList

/-- A string in memory. -/
def cstr (s : List UInt8) : List UInt8 := s ++ [0]

/-- `strspn`: the length of the run of accepted values at the start of the memory. -/
def strspn {α : Type*} (accept : α → Bool) : List α → Option ℕ
  | [] => none
  | a :: m => if accept a then (strspn accept m).map Nat.succ else some 0

/-- `strncmp`: compare up to `n` bytes, and no byte behind a zero both have. -/
def strncmp : ℕ → List UInt8 → List UInt8 → Option ℤ
  | 0, _, _ => some 0
  | n + 1, a :: s, b :: t =>
    if a = b then (if a = 0 then some 0 else strncmp n s t) else some (a.toNat - b.toNat)
  | _ + 1, _, _ => none

/-- The text some ASCII bytes stand for. -/
def chars (data : List UInt8) : List Char := data.map fun b => Char.ofNat b.toNat

/-- An ASCII text can be read off its bytes. -/
theorem chars_ascii {text : List Char} (h : ∀ c ∈ text, c.toNat < 128) :
    chars (ascii text) = text := by
  induction text with
  | nil => rfl
  | cons c text ih =>
    have hc : c.toNat.toUInt8.toNat = c.toNat := by
      have := h c List.mem_cons_self
      simp
      omega
    have hrest := ih fun d hd => h d (List.mem_cons_of_mem c hd)
    simp only [ascii, chars, List.map_cons, hc, Char.ofNat_toNat]
    exact congrArg _ hrest

section Strspn

variable {α : Type*} {accept : α → Bool}

theorem strspn_cons_of_accept {a : α} (h : accept a = true) (m : List α) :
    strspn accept (a :: m) = (strspn accept m).map Nat.succ := by
  simp [strspn, h]

theorem strspn_cons_of_not {a : α} (h : accept a = false) (m : List α) :
    strspn accept (a :: m) = some 0 := by
  simp [strspn, h]

/-- **`strspn` measures the longest run**, and it has to see the value that ends it. -/
theorem strspn_eq_some_iff {m : List α} {n : ℕ} :
    strspn accept m = some n ↔
      ∃ p b r, m = p ++ b :: r ∧ p.length = n ∧ (∀ a ∈ p, accept a = true) ∧ accept b = false := by
  induction m generalizing n with
  | nil => simp [strspn]
  | cons a m ih =>
    by_cases ha : accept a = true
    · rw [strspn_cons_of_accept ha, Option.map_eq_some_iff]
      constructor
      · intro h
        obtain ⟨k, hk, rfl⟩ := h
        obtain ⟨p, b, r, rfl, rfl, hp, hb⟩ := ih.mp hk
        refine ⟨a :: p, b, r, rfl, rfl, ?_, hb⟩
        intro x hx
        rcases List.mem_cons.mp hx with rfl | hx
        · exact ha
        · exact hp x hx
      · intro h
        obtain ⟨p, b, r, hm, rfl, hp, hb⟩ := h
        cases p with
        | nil =>
          -- the run would end in front of an accepted value
          obtain ⟨rfl, rfl⟩ := List.cons.inj hm
          exact absurd ha (by simp [hb])
        | cons x p =>
          obtain ⟨rfl, rfl⟩ := List.cons.inj hm
          refine ⟨p.length, ih.mpr ⟨p, b, r, rfl, rfl, ?_, hb⟩, rfl⟩
          intro y hy
          exact hp y (List.mem_cons_of_mem _ hy)
    · have ha' : accept a = false := by simpa using ha
      rw [strspn_cons_of_not ha']
      constructor
      · intro h
        exact ⟨[], a, m, rfl, Option.some.inj h, by simp, ha'⟩
      · intro h
        obtain ⟨p, b, r, hm, rfl, hp, -⟩ := h
        cases p with
        | nil => rfl
        | cons x p =>
          obtain ⟨rfl, -⟩ := List.cons.inj hm
          exact absurd (hp a List.mem_cons_self) ha

end Strspn

/-! ### Comparing -/

theorem strncmp_succ_eq_zero_iff {n : ℕ} {a b : UInt8} {s t : List UInt8} :
    strncmp (n + 1) (a :: s) (b :: t) = some 0 ↔ a = b ∧ (a = 0 ∨ strncmp n s t = some 0) := by
  rw [strncmp]
  by_cases hab : a = b
  · subst hab
    by_cases ha : a = 0 <;> simp [ha]
  · have hne : (a.toNat : ℤ) - b.toNat ≠ 0 := by
      intro h
      apply hab
      apply UInt8.toNat_inj.mp
      omega
    simp [hab, hne]

/-- Equality does not depend on the order of the arguments. -/
theorem strncmp_comm_eq_zero {n : ℕ} {s t : List UInt8} :
    strncmp n s t = some 0 ↔ strncmp n t s = some 0 := by
  induction n generalizing s t with
  | zero => simp [strncmp]
  | succ n ih =>
    cases s with
    | nil => cases t <;> simp [strncmp]
    | cons a s =>
      cases t with
      | nil => simp [strncmp]
      | cons b t =>
        rw [strncmp_succ_eq_zero_iff, strncmp_succ_eq_zero_iff, ih]
        constructor
        · intro h
          obtain ⟨rfl, h⟩ := h
          exact ⟨rfl, h⟩
        · intro h
          obtain ⟨rfl, h⟩ := h
          exact ⟨rfl, h⟩

/-- **Comparing the length of a string is a test for a first part.**  The memory must
start with the string; whatever stands behind the string is not read. -/
theorem strncmp_eq_zero_iff {s t m : List UInt8} (hs : (0 : UInt8) ∉ s) :
    strncmp s.length (s ++ t) m = some 0 ↔ s <+: m := by
  induction s generalizing m with
  | nil => simp [strncmp]
  | cons a s ih =>
    rw [List.mem_cons, not_or] at hs
    obtain ⟨ha, hs⟩ := hs
    cases m with
    | nil => simp [strncmp]
    | cons b m =>
      rw [List.length_cons, List.cons_append, strncmp_succ_eq_zero_iff, ih hs,
        List.cons_prefix_cons]
      have hne : a ≠ 0 := fun h => ha h.symm
      simp [hne]

/-! ### What is read -/

/-- How many values `strspn` reads, the one that ends the run included. -/
def strspnReads {α : Type*} (accept : α → Bool) : List α → ℕ
  | [] => 1
  | a :: m => if accept a then strspnReads accept m + 1 else 1

/-- How many bytes `strncmp` reads of each of its arguments. -/
def strncmpReads : ℕ → List UInt8 → List UInt8 → ℕ
  | 0, _, _ => 0
  | n + 1, a :: s, b :: t => if a = b ∧ a ≠ 0 then strncmpReads n s t + 1 else 1
  | _ + 1, _, _ => 1

theorem strspnReads_eq {α : Type*} (accept : α → Bool) (m : List α) :
    strspnReads accept m = (m.takeWhile accept).length + 1 := by
  induction m with
  | nil => rfl
  | cons a m ih => by_cases ha : accept a = true <;> simp [strspnReads, ha, ih]

theorem strncmpReads_le (n : ℕ) (s t : List UInt8) : strncmpReads n s t ≤ n := by
  fun_induction strncmpReads n s t with
  | case1 => exact Nat.le_refl 0
  | case2 n a s b t h ih => omega
  | case3 => omega
  | case4 => omega

/-- The first bytes are always read. -/
theorem strncmpReads_succ_pos (n : ℕ) (s t : List UInt8) : 0 < strncmpReads (n + 1) s t := by
  cases s with
  | nil => exact Nat.zero_lt_one
  | cons a s =>
    cases t with
    | nil => exact Nat.zero_lt_one
    | cons b t =>
      unfold strncmpReads
      split <;> omega

/-- The result of `strspn` depends on what was read only. -/
theorem strspn_congr {α : Type*} {accept : α → Bool} {m m' : List α}
    (h : ∀ i < strspnReads accept m, m[i]? = m'[i]?) : strspn accept m = strspn accept m' := by
  induction m generalizing m' with
  | nil =>
    have h₀ := h 0 Nat.zero_lt_one
    cases m' with
    | nil => rfl
    | cons b m' => simp at h₀
  | cons a m ih =>
    cases m' with
    | nil =>
      have h₀ := h 0 (by rw [strspnReads]; split <;> omega)
      simp at h₀
    | cons b m' =>
      have h₀ := h 0 (by rw [strspnReads]; split <;> omega)
      obtain rfl : a = b := by simpa using h₀
      by_cases ha : accept a = true
      · rw [strspn_cons_of_accept ha, strspn_cons_of_accept ha]
        congr 1
        refine ih ?_
        intro i hi
        have hi' : i + 1 < strspnReads accept (a :: m) := by
          rw [strspnReads, if_pos ha]
          omega
        simpa using h (i + 1) hi'
      · have ha' : accept a = false := by simpa using ha
        rw [strspn_cons_of_not ha', strspn_cons_of_not ha']

/-- The result of `strncmp` depends on what was read only. -/
theorem strncmp_congr {n : ℕ} {s s' t t' : List UInt8}
    (hs : ∀ i < strncmpReads n s t, s[i]? = s'[i]?)
    (ht : ∀ i < strncmpReads n s t, t[i]? = t'[i]?) : strncmp n s t = strncmp n s' t' := by
  induction n generalizing s s' t t' with
  | zero => simp [strncmp]
  | succ n ih =>
    have hs₀ := hs 0 (strncmpReads_succ_pos n s t)
    have ht₀ := ht 0 (strncmpReads_succ_pos n s t)
    cases s with
    | nil => cases s' <;> simp [strncmp] at hs₀ ⊢
    | cons a s =>
      cases s' with
      | nil => simp at hs₀
      | cons a' s' =>
        cases t with
        | nil => cases t' <;> simp [strncmp] at ht₀ ⊢
        | cons b t =>
          cases t' with
          | nil => simp at ht₀
          | cons b' t' =>
            obtain rfl : a = a' := by simpa using hs₀
            obtain rfl : b = b' := by simpa using ht₀
            rw [strncmp, strncmp]
            by_cases hab : a = b ∧ a ≠ 0
            · -- both go on behind the first byte
              rw [if_pos hab.1, if_pos hab.1, if_neg hab.2, if_neg hab.2]
              have hstep : ∀ i < strncmpReads n s t,
                  i + 1 < strncmpReads (n + 1) (a :: s) (b :: t) := by
                intro i hi
                rw [strncmpReads, if_pos hab]
                omega
              refine ih ?_ ?_
              · intro i hi
                simpa using hs (i + 1) (hstep i hi)
              · intro i hi
                simpa using ht (i + 1) (hstep i hi)
            · split
              · next heq =>
                have ha : a = 0 := by
                  by_contra hne
                  exact hab ⟨heq, hne⟩
                rw [if_pos ha, if_pos ha]
              · rfl

/-- **Comparing reads on behind the proper first parts of a string**, and behind no other
memory. -/
theorem strncmpReads_le_length_iff {s t m b : List UInt8} (hs : (0 : UInt8) ∉ s) :
    strncmpReads s.length (m ++ b) (s ++ t) ≤ m.length ↔ ¬ (m <+: s ∧ m ≠ s) := by
  induction s generalizing m with
  | nil => simp [strncmpReads]
  | cons a s ih =>
    rw [List.mem_cons, not_or] at hs
    obtain ⟨ha, hs⟩ := hs
    cases m with
    | nil =>
      have hpos := strncmpReads_succ_pos s.length b (a :: (s ++ t))
      simp only [List.length_cons, List.nil_append, List.cons_append, List.length_nil,
        List.nil_prefix, ne_eq, reduceCtorEq, not_false_eq_true, and_self, not_true_eq_false,
        iff_false]
      omega
    | cons c m =>
      rw [List.length_cons, List.cons_append, List.cons_append, strncmpReads,
        List.cons_prefix_cons, List.length_cons]
      by_cases hca : c = a
      · subst hca
        rw [if_pos ⟨rfl, fun h => ha h.symm⟩, Nat.add_le_add_iff_right, ih hs]
        simp
      · rw [if_neg fun h => hca h.1]
        simp [hca]

/-! ### Comparing whole strings -/

/-- The bytes of a C string, without the terminating zero. -/
def CString : Type := { s : List UInt8 // (0 : UInt8) ∉ s }
  deriving DecidableEq

/-- The string at the start of a terminated buffer: the bytes in front of the first zero. -/
def CString.ofBuffer (data : List UInt8) : CString :=
  ⟨data.takeWhile (· != 0), fun h => by simpa using List.mem_takeWhile_imp h⟩

/-- A string is read off its bytes. -/
theorem CString.ofBuffer_self {s : List UInt8} (hs : (0 : UInt8) ∉ s) :
    (CString.ofBuffer s).1 = s := by
  refine List.takeWhile_eq_self_iff.mpr ?_
  intro b hb
  simpa using fun h : b = 0 => hs (h ▸ hb)

/-- A string is read off its bytes and its zero. -/
theorem CString.ofBuffer_append {s : List UInt8} (hs : (0 : UInt8) ∉ s) (t : List UInt8) :
    (CString.ofBuffer (s ++ 0 :: t)).1 = s := by
  have hall : ∀ b ∈ s, (b != 0) = true := by
    intro b hb
    simpa using fun h : b = 0 => hs (h ▸ hb)
  simp [CString.ofBuffer, List.takeWhile_append_of_pos hall]

/-- `strcmp`: compare up to the first zero both have. -/
def strcmp : List UInt8 → List UInt8 → Option ℤ
  | a :: s, b :: t =>
    if a = b then (if a = 0 then some 0 else strcmp s t) else some (a.toNat - b.toNat)
  | [], _ => none
  | _ :: _, [] => none

theorem strcmp_cons_self {a : UInt8} (h : a ≠ 0) (s t : List UInt8) :
    strcmp (a :: s) (a :: t) = strcmp s t := by
  simp [strcmp, h]

theorem strcmp_cons_of_ne {a b : UInt8} (h : a ≠ b) (s t : List UInt8) :
    strcmp (a :: s) (b :: t) = some ((a.toNat : ℤ) - b.toNat) := by
  simp [strcmp, h]

/-- Bytes that differ have a difference. -/
theorem toNat_sub_ne_zero {a b : UInt8} (h : a ≠ b) : (a.toNat : ℤ) - b.toNat ≠ 0 := by
  have hne : a.toNat ≠ b.toNat := fun heq => h (UInt8.toNat_inj.mp heq)
  omega

/-- **A string is equal to what starts with it and its zero.** -/
theorem strcmp_eq_zero_iff {s m : List UInt8} (hs : (0 : UInt8) ∉ s) :
    strcmp (cstr s) m = some 0 ↔ cstr s <+: m := by
  induction s generalizing m with
  | nil =>
    cases m with
    | nil => simp [cstr, strcmp]
    | cons b m =>
      by_cases hb : b = 0
      · simp [cstr, strcmp, hb]
      · have hne := toNat_sub_ne_zero (Ne.symm hb)
        simp only [cstr, List.nil_append, strcmp_cons_of_ne (Ne.symm hb), Option.some.injEq, hne,
          List.cons_prefix_cons, Ne.symm hb, false_and]
  | cons a s ih =>
    have ha : a ≠ 0 := fun h => hs (h ▸ List.mem_cons_self)
    have hs' := fun h => hs (List.mem_cons_of_mem a h)
    cases m with
    | nil => simp [cstr, strcmp]
    | cons b m =>
      by_cases hab : a = b
      · subst hab
        have hrest := ih hs' (m := m)
        simpa [cstr, strcmp_cons_self ha] using hrest
      · simp [cstr, strcmp_cons_of_ne hab, toNat_sub_ne_zero hab, hab]

/-- **The comparison reads on behind what ends before the string does.** -/
theorem strcmp_eq_none_iff {s m : List UInt8} (hs : (0 : UInt8) ∉ s) :
    strcmp (cstr s) m = none ↔ m <+: s := by
  induction s generalizing m with
  | nil =>
    cases m with
    | nil => simp [cstr, strcmp]
    | cons b m =>
      by_cases hb : b = 0
      · simp [cstr, strcmp, hb]
      · simp [cstr, strcmp_cons_of_ne (Ne.symm hb)]
  | cons a s ih =>
    have ha : a ≠ 0 := fun h => hs (h ▸ List.mem_cons_self)
    have hs' := fun h => hs (List.mem_cons_of_mem a h)
    cases m with
    | nil => simp [cstr, strcmp]
    | cons b m =>
      by_cases hab : a = b
      · subst hab
        have hrest := ih hs' (m := m)
        simpa [cstr, strcmp_cons_self ha] using hrest
      · simp [cstr, strcmp_cons_of_ne hab, Ne.symm hab]

end CStrings
end ZmqIssues
