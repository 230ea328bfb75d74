import Mathlib.Data.List.Perm.Basic
import Mathlib.Data.List.Nodup
import Mathlib.Data.List.TakeDrop

/-!
# Arrays reordered by exchanges

An array whose order carries meaning only through a boundary — the elements
before it and the elements from it on — is edited by exchanging two slots and by
overwriting a slot with the last element and dropping the last slot.  This
module says what either edit does to the elements before a boundary.

## Main definitions

* `swap l i j` — exchange the elements in slots `i` and `j`.
* `overwriteLast l i` — put the last element in slot `i` and drop the last slot.

## Main results

* `cons_take_swap_perm` — exchanging slot `i` with the last slot before a
  boundary, and moving the boundary down over it, removes the element of slot
  `i` from the elements before the boundary.
* `take_succ_swap_perm` — exchanging the slot at a boundary with a later one, and
  moving the boundary up over it, adds the later element.
* `cons_overwriteLast_perm` — overwriting a slot removes its element.
* `take_overwriteLast_of_le`, `getElem?_overwriteLast_of_ne` — what the removal
  leaves alone.
* `mem_take_overwriteLast`, `exists_notMem_take_overwriteLast` — when the removal keeps
  the other elements on their side of a boundary, and which one it moves otherwise.
-/

namespace ZmqIssues
namespace Slots

open List

variable {α : Type*}

/-- Exchange two slots; a slot outside the list leaves it as it is. -/
def swap (l : List α) (i j : ℕ) : List α :=
  match l[i]?, l[j]? with
  | some a, some b => (l.set i b).set j a
  | _, _ => l

/-- Put the last element in slot `i` and drop the last slot. -/
def overwriteLast (l : List α) (i : ℕ) : List α :=
  match l.getLast? with
  | some z => (l.set i z).dropLast
  | none => l

/-! ### Exchanging two slots -/

theorem swap_of_getElem? {l : List α} {i j : ℕ} {a b : α} (hi : l[i]? = some a)
    (hj : l[j]? = some b) : swap l i j = (l.set i b).set j a := by
  simp only [swap, hi, hj]

@[simp] theorem length_swap (l : List α) (i j : ℕ) : (swap l i j).length = l.length := by
  unfold swap
  split <;> simp

theorem swap_self (l : List α) (i : ℕ) : swap l i i = l := by
  rcases h : l[i]? with _ | a
  · simp [swap, h]
  · obtain ⟨hi, rfl⟩ := List.getElem?_eq_some_iff.mp h
    rw [swap_of_getElem? h h]
    simp

/-- Every list splits at two slots. -/
theorem eq_append_of_lt {l : List α} {i k : ℕ} (hik : i < k) (hk : k < l.length) :
    ∃ A a B b D, l = A ++ a :: (B ++ b :: D) ∧ A.length = i ∧ A.length + (B.length + 1) = k := by
  refine ⟨l.take i, l[i], (l.drop (i + 1)).take (k - (i + 1)), l[k], l.drop (k + 1), ?_, ?_, ?_⟩
  · have hdrop : l.drop (i + 1)
        = (l.drop (i + 1)).take (k - (i + 1)) ++ l[k] :: l.drop (k + 1) := by
      conv_lhs => rw [← List.take_append_drop (k - (i + 1)) (l.drop (i + 1))]
      rw [List.drop_drop, show i + 1 + (k - (i + 1)) = k by omega, List.drop_eq_getElem_cons hk]
    rw [← hdrop, ← List.drop_eq_getElem_cons (by omega), List.take_append_drop]
  · simp; omega
  · simp; omega

/-- The exchange of two slots, on a list split at them. -/
theorem swap_append (A B D : List α) (a b : α) :
    swap (A ++ a :: (B ++ b :: D)) A.length (A.length + (B.length + 1))
      = A ++ b :: (B ++ a :: D) := by
  have ha : (A ++ a :: (B ++ b :: D))[A.length]? = some a := by simp
  have hb : (A ++ a :: (B ++ b :: D))[A.length + (B.length + 1)]? = some b := by simp
  rw [swap_of_getElem? ha hb]
  simp

theorem swap_comm (l : List α) (i j : ℕ) : swap l i j = swap l j i := by
  rcases hi : l[i]? with _ | a <;> rcases hj : l[j]? with _ | b <;> simp only [swap, hi, hj]
  rcases eq_or_ne i j with rfl | hne
  · rw [hi, Option.some.injEq] at hj
    rw [hj]
  · exact List.set_comm _ _ hne

theorem swap_perm (l : List α) (i j : ℕ) : swap l i j ~ l := by
  -- It is enough to treat `i < j`: the exchange is symmetric, and trivial on one slot.
  have key : ∀ i j, i < j → swap l i j ~ l := by
    intro i j hij
    rcases Nat.lt_or_ge j l.length with hj | hj
    · obtain ⟨A, a, B, b, D, rfl, rfl, rfl⟩ := eq_append_of_lt hij hj
      rw [swap_append]
      refine Perm.append_left A ?_
      calc b :: (B ++ a :: D) ~ b :: a :: (B ++ D) := perm_middle.cons b
        _ ~ a :: b :: (B ++ D) := Perm.swap a b (B ++ D)
        _ ~ a :: (B ++ b :: D) := perm_middle.symm.cons a
    · simp [swap, List.getElem?_eq_none hj]
  rcases Nat.lt_trichotomy i j with h | rfl | h
  · exact key i j h
  · rw [swap_self]
  · rw [swap_comm]; exact key j i h

/-- The slots before both exchanged ones are left alone. -/
theorem take_swap_of_le {l : List α} {m i j : ℕ} (hi : m ≤ i) (hj : m ≤ j) :
    (swap l i j).take m = l.take m := by
  unfold swap
  split
  · rw [List.take_set_of_le hj, List.take_set_of_le hi]
  · rfl

/-- Exchanging slot `i` with slot `k` and taking the first `k` slots removes the
element of slot `i` from the first `k + 1` ones. -/
theorem cons_take_swap_perm {l : List α} {i k : ℕ} {a : α} (hik : i ≤ k) (hk : k < l.length)
    (ha : l[i]? = some a) : a :: (swap l i k).take k ~ l.take (k + 1) := by
  rcases Nat.eq_or_lt_of_le hik with rfl | hlt
  · rw [swap_self, List.take_add_one, ha]
    simpa using (perm_append_singleton a (l.take i)).symm
  · obtain ⟨A, x, B, b, D, rfl, rfl, rfl⟩ := eq_append_of_lt hlt hk
    obtain rfl : x = a := by simpa using ha
    have hleft : (A ++ b :: (B ++ x :: D)).take (A.length + (B.length + 1)) = A ++ b :: B := by
      rw [List.take_length_add_append]; simp
    have hright : (A ++ x :: (B ++ b :: D)).take (A.length + (B.length + 1) + 1)
        = A ++ x :: (B ++ [b]) := by
      rw [Nat.add_assoc, List.take_length_add_append, List.take_succ_cons,
        List.take_length_add_append]
      rfl
    rw [swap_append, hleft, hright]
    calc x :: (A ++ b :: B) ~ A ++ x :: b :: B := perm_middle.symm
      _ ~ A ++ x :: (B ++ [b]) :=
        Perm.append_left A ((perm_append_singleton b B).symm.cons x)

/-- The same exchange, seen from slot `i` on. -/
theorem cons_drop_take_swap_perm {l : List α} {i k : ℕ} {a : α} (hik : i ≤ k)
    (hk : k < l.length) (ha : l[i]? = some a) :
    a :: ((swap l i k).take k).drop i ~ (l.take (k + 1)).drop i := by
  have hcut : ∀ (m : List α) (n : ℕ), i ≤ n → m.take i ++ (m.take n).drop i = m.take n := by
    intro m n hn
    conv_rhs => rw [← List.take_append_drop i (m.take n), List.take_take, Nat.min_eq_left hn]
  have h₁ : l.take i ++ ((swap l i k).take k).drop i = (swap l i k).take k := by
    rw [← take_swap_of_le (Nat.le_refl i) hik, hcut _ _ hik]
  have h₂ : l.take i ++ (l.take (k + 1)).drop i = l.take (k + 1) := hcut _ _ (by omega)
  refine (List.perm_append_left_iff (l.take i)).mp ?_
  calc l.take i ++ a :: ((swap l i k).take k).drop i
      ~ a :: (l.take i ++ ((swap l i k).take k).drop i) := perm_middle
    _ = a :: (swap l i k).take k := by rw [h₁]
    _ ~ l.take (k + 1) := cons_take_swap_perm hik hk ha
    _ = l.take i ++ (l.take (k + 1)).drop i := h₂.symm

/-- Exchanging slot `k` with a later slot `j` and taking the first `k + 1` slots
adds the element of slot `j` to the first `k` ones. -/
theorem take_succ_swap_perm {l : List α} {j k : ℕ} {b : α} (hkj : k ≤ j)
    (hb : l[j]? = some b) : (swap l k j).take (k + 1) ~ b :: l.take k := by
  have hj : j < l.length := (List.getElem?_eq_some_iff.mp hb).1
  have hslot : (swap l k j)[k]? = some b := by
    rcases Nat.eq_or_lt_of_le hkj with rfl | hlt
    · rwa [swap_self]
    · rw [swap_of_getElem? (List.getElem?_eq_getElem (by omega)) hb,
        List.getElem?_set_ne (by omega), List.getElem?_set_self (by omega)]
  rw [List.take_add_one, hslot, take_swap_of_le (Nat.le_refl k) hkj]
  exact perm_append_singleton b (l.take k)

/-! ### Overwriting a slot with the last element -/

theorem overwriteLast_concat (l : List α) (z : α) (i : ℕ) :
    overwriteLast (l ++ [z]) i = if i < l.length then l.set i z else l := by
  have hlast : (l ++ [z]).getLast? = some z := by simp
  simp only [overwriteLast, hlast]
  split
  · next h => rw [List.set_append_left _ _ h, List.dropLast_concat]
  · next h =>
    rw [List.set_append_right _ _ (by omega)]
    rcases hd : i - l.length with _ | d <;> simp

theorem length_overwriteLast (l : List α) (i : ℕ) :
    (overwriteLast l i).length = l.length - 1 := by
  rcases List.eq_nil_or_concat' l with rfl | ⟨l, z, rfl⟩
  · rfl
  · rw [overwriteLast_concat]
    split <;> simp

/-- Overwriting a slot with the last element removes the element of the slot. -/
theorem cons_overwriteLast_perm {l : List α} {i : ℕ} {a : α} (ha : l[i]? = some a) :
    a :: overwriteLast l i ~ l := by
  rcases List.eq_nil_or_concat' l with rfl | ⟨l, z, rfl⟩
  · simp at ha
  rw [overwriteLast_concat]
  split
  · next h =>
    rw [List.getElem?_append_left h, List.getElem?_eq_getElem h, Option.some.injEq] at ha
    subst ha
    rw [List.set_eq_take_append_cons_drop, if_pos h]
    calc l[i] :: (l.take i ++ z :: l.drop (i + 1))
        ~ l.take i ++ l[i] :: z :: l.drop (i + 1) := perm_middle.symm
      _ ~ l.take i ++ l[i] :: (l.drop (i + 1) ++ [z]) :=
        Perm.append_left _ ((perm_append_singleton z _).symm.cons _)
      _ = l ++ [z] := by
        rw [← List.cons_append, ← List.append_assoc, ← List.drop_eq_getElem_cons h,
          List.take_append_drop]
  · next h =>
    have hi : i < (l ++ [z]).length := (List.getElem?_eq_some_iff.mp ha).1
    obtain rfl : i = l.length := by simp at hi; omega
    obtain rfl : z = a := by simpa using ha
    exact (perm_append_singleton z l).symm

/-- A boundary before the overwritten slot does not see the removal. -/
theorem take_overwriteLast_of_le {l : List α} {i k : ℕ} (hik : k ≤ i) (hi : i < l.length) :
    (overwriteLast l i).take k = l.take k := by
  rcases List.eq_nil_or_concat' l with rfl | ⟨l, z, rfl⟩
  · simp at hi
  have hi' : i < l.length + 1 := by simpa using hi
  rw [overwriteLast_concat, List.take_append_of_le_length (by omega)]
  split
  · exact List.take_set_of_le hik
  · rfl

/-- The other slots are left alone, but for the last one. -/
theorem getElem?_overwriteLast_of_ne {l : List α} {i k : ℕ} (hki : k ≠ i)
    (hk : k + 1 < l.length) : (overwriteLast l i)[k]? = l[k]? := by
  rcases List.eq_nil_or_concat' l with rfl | ⟨l, z, rfl⟩
  · simp at hk
  have hk' : k < l.length := by simpa using hk
  rw [overwriteLast_concat, List.getElem?_append_left hk']
  split
  · exact List.getElem?_set_ne hki.symm
  · rfl

/-- The removal keeps the other elements on their side of a boundary that lies at the end
of the array, or not behind the slot after the overwritten one. -/
theorem mem_take_overwriteLast {l : List α} (hnd : l.Nodup) {i k : ℕ} {a : α}
    (ha : l[i]? = some a) (hside : k = l.length ∨ k ≤ i + 1) (b : α) :
    b ∈ (overwriteLast l i).take (if i < k then k - 1 else k) ↔ b ∈ l.take k ∧ b ≠ a := by
  obtain ⟨hi, hslot⟩ := List.getElem?_eq_some_iff.mp ha
  have hperm : a :: overwriteLast l i ~ l := cons_overwriteLast_perm ha
  have hnotin : a ∉ overwriteLast l i := (List.nodup_cons.mp (hperm.nodup_iff.mpr hnd)).1
  have hne : ∀ {n}, b ∈ (overwriteLast l i).take n → b ≠ a := by
    intro n hb hba
    exact hnotin (hba ▸ List.mem_of_mem_take hb)
  have hlen : (overwriteLast l i).length = l.length - 1 := length_overwriteLast l i
  by_cases hall : k = l.length
  · -- all elements lie before the boundary, before and after
    have htake : (overwriteLast l i).take (if i < k then k - 1 else k) = overwriteLast l i := by
      rw [if_pos (hall ▸ hi), List.take_of_length_le (by omega)]
    rw [htake, hall, List.take_length, ← hperm.mem_iff, List.mem_cons]
    constructor
    · intro hb
      exact ⟨Or.inr hb, fun hba => hnotin (hba ▸ hb)⟩
    · intro h
      exact h.1.resolve_left h.2
  · have hle : k ≤ i + 1 := hside.resolve_left hall
    rcases Nat.lt_or_ge i k with hlt | hge
    · -- the element stands last before the boundary
      have hki : k = i + 1 := by omega
      have hafter : (overwriteLast l i).take i = l.take i :=
        take_overwriteLast_of_le (Nat.le_refl i) hi
      rw [if_pos hlt, hki, Nat.add_sub_cancel, List.take_add_one, ha]
      constructor
      · intro hb
        exact ⟨List.mem_append_left _ (hafter ▸ hb), hne hb⟩
      · intro h
        rw [hafter]
        refine (List.mem_append.mp h.1).resolve_right ?_
        simpa using h.2
    · -- the element stands behind the boundary
      have hafter : (overwriteLast l i).take k = l.take k := take_overwriteLast_of_le hge hi
      rw [if_neg (by omega)]
      constructor
      · intro hb
        exact ⟨hafter ▸ hb, hne hb⟩
      · intro h
        exact hafter ▸ h.1

/-- Otherwise the removal puts the last element before the boundary behind it. -/
theorem exists_notMem_take_overwriteLast {l : List α} (hnd : l.Nodup) {i k : ℕ} {a : α}
    (ha : l[i]? = some a) (hk : k ≤ l.length) (hside : ¬ (k = l.length ∨ k ≤ i + 1)) :
    ∃ b ∈ l.take k, b ∈ overwriteLast l i ∧
      b ∉ (overwriteLast l i).take (if i < k then k - 1 else k) := by
  obtain ⟨n, rfl⟩ : ∃ n, k = n + 1 := ⟨k - 1, by omega⟩
  have hn : n < l.length := by omega
  have hslot : (overwriteLast l i)[n]? = some l[n] := by
    rw [getElem?_overwriteLast_of_ne (by omega) (by omega), List.getElem?_eq_getElem hn]
  have hnd' : (overwriteLast l i).Nodup :=
    (List.nodup_cons.mp ((cons_overwriteLast_perm ha).nodup_iff.mpr hnd)).2
  refine ⟨l[n], ?_, List.mem_of_getElem? hslot, ?_⟩
  · rw [List.take_add_one, List.getElem?_eq_getElem hn]
    exact List.mem_append_right _ (List.mem_singleton_self _)
  · rw [if_pos (by omega), Nat.add_sub_cancel]
    intro hmem
    -- an array without repetitions has the element in slot `n` alone
    obtain ⟨m, hm, hmn⟩ := List.mem_take_iff_getElem.mp hmem
    obtain ⟨hlt, heq⟩ := List.getElem?_eq_some_iff.mp hslot
    have hmm : m = n := (hnd'.getElem_inj_iff).mp (hmn.trans heq.symm)
    omega

end Slots
end ZmqIssues
