import Mathlib.Data.List.Basic
import Mathlib.Data.List.Infix
import Mathlib.Tactic.Common

/-!
# Reading a text by lines

A text is read through a buffer of a fixed size, by a function that stops behind the end of
a line or when the buffer is full.  So a line that does not fit is read in several pieces, and
nothing tells the last piece of a text from a line that ends there.

## Main definitions

* `lines eol text` — the lines of a text, without their ends; what follows the last end is a
  line if it is not empty.
* `fgets eol size text` — the function of `stdio.h`: the piece it reads and the rest.

## Main results

* `text_cases` — a text is empty, begins with a whole line, or is the beginning of one.
* `fgets_line`, `fgets_last`, `fgets_long` — what is read in each case.
-/

namespace ZmqIssues
namespace Lines

variable {α : Type*} [DecidableEq α]

/-- The lines of a text. -/
def lines (eol : α) : List α → List (List α)
  | [] => []
  | a :: text =>
    if a = eol then
      [] :: lines eol text
    else
      match lines eol text with
      | [] => [[a]]
      | l :: ls => (a :: l) :: ls

/-- The piece that is read when there is room for `n`, and the rest. -/
def readPiece (eol : α) : ℕ → List α → List α × List α
  | 0, text => ([], text)
  | _ + 1, [] => ([], [])
  | n + 1, a :: text =>
    if a = eol then ([a], text) else ((a :: (readPiece eol n text).1), (readPiece eol n text).2)

/-- `fgets`: the last place of the buffer is for the terminating zero. -/
def fgets (eol : α) (size : ℕ) (text : List α) : Option (List α × List α) :=
  if text = [] then none else some (readPiece eol (size - 1) text)

variable {eol : α} {n : ℕ} {l text : List α}

/-! ### Lines -/

@[simp] theorem lines_nil : lines eol ([] : List α) = [] := rfl

theorem lines_line (hl : eol ∉ l) (text : List α) :
    lines eol (l ++ eol :: text) = l :: lines eol text := by
  induction l with
  | nil => simp [lines]
  | cons a l ih =>
    have ha : a ≠ eol := fun h => hl (h ▸ List.mem_cons_self)
    have hrest := ih fun h => hl (List.mem_cons_of_mem a h)
    simp [lines, ha, hrest]

theorem lines_last (hl : eol ∉ l) (hne : l ≠ []) : lines eol l = [l] := by
  induction l with
  | nil => exact absurd rfl hne
  | cons a l ih =>
    have ha : a ≠ eol := fun h => hl (h ▸ List.mem_cons_self)
    by_cases hnil : l = []
    · simp [lines, ha, hnil]
    · have hrest := ih (fun h => hl (List.mem_cons_of_mem a h)) hnil
      simp [lines, ha, hrest]

/-- **A text is empty, begins with a whole line, or is the beginning of one.** -/
theorem text_cases (eol : α) (text : List α) : text = [] ∨
    (∃ l rest, eol ∉ l ∧ text = l ++ eol :: rest) ∨ (eol ∉ text ∧ text ≠ []) := by
  by_cases hmem : eol ∈ text
  · obtain ⟨l, rest, rfl, hl⟩ := List.eq_append_cons_of_mem hmem
    exact .inr (.inl ⟨l, rest, hl, rfl⟩)
  · by_cases hnil : text = []
    · exact .inl hnil
    · exact .inr (.inr ⟨hmem, hnil⟩)

/-! ### Pieces -/

theorem readPiece_line (hl : eol ∉ l) (hn : l.length < n) (text : List α) :
    readPiece eol n (l ++ eol :: text) = (l ++ [eol], text) := by
  induction l generalizing n with
  | nil =>
    obtain ⟨n, rfl⟩ := Nat.exists_eq_add_one_of_ne_zero (Nat.ne_of_gt hn)
    simp [readPiece]
  | cons a l ih =>
    have ha : a ≠ eol := fun h => hl (h ▸ List.mem_cons_self)
    obtain ⟨n, rfl⟩ := Nat.exists_eq_add_one_of_ne_zero (Nat.ne_of_gt (Nat.zero_lt_of_lt hn))
    have hrest := ih (fun h => hl (List.mem_cons_of_mem a h)) (n := n) (by simpa using hn)
    simp [readPiece, ha, hrest]

theorem readPiece_long (hl : eol ∉ l) (hn : n ≤ l.length) (text : List α) :
    readPiece eol n (l ++ text) = (l.take n, l.drop n ++ text) := by
  induction l generalizing n with
  | nil =>
    obtain rfl : n = 0 := Nat.le_zero.mp hn
    rfl
  | cons a l ih =>
    have ha : a ≠ eol := fun h => hl (h ▸ List.mem_cons_self)
    cases n with
    | zero => rfl
    | succ n =>
      have hrest := ih (fun h => hl (List.mem_cons_of_mem a h)) (n := n) (by simpa using hn)
      simp [readPiece, ha, hrest]

theorem readPiece_last (hl : eol ∉ l) (hn : l.length < n) : readPiece eol n l = (l, []) := by
  induction l generalizing n with
  | nil =>
    obtain ⟨n, rfl⟩ := Nat.exists_eq_add_one_of_ne_zero (Nat.ne_of_gt hn)
    rfl
  | cons a l ih =>
    have ha : a ≠ eol := fun h => hl (h ▸ List.mem_cons_self)
    obtain ⟨n, rfl⟩ := Nat.exists_eq_add_one_of_ne_zero (Nat.ne_of_gt (Nat.zero_lt_of_lt hn))
    have hrest := ih (fun h => hl (List.mem_cons_of_mem a h)) (n := n) (by simpa using hn)
    simp [readPiece, ha, hrest]

/-- Nothing is lost between the pieces. -/
theorem readPiece_append (eol : α) (n : ℕ) (text : List α) :
    (readPiece eol n text).1 ++ (readPiece eol n text).2 = text := by
  fun_induction readPiece eol n text with
  | case1 text => rfl
  | case2 n => rfl
  | case3 n text => rfl
  | case4 n a text ha ih => rw [List.cons_append, ih]

theorem readPiece_ne_nil (hn : 0 < n) (htext : text ≠ []) : (readPiece eol n text).1 ≠ [] := by
  obtain ⟨n, rfl⟩ := Nat.exists_eq_add_one_of_ne_zero (Nat.ne_of_gt hn)
  obtain ⟨a, text, rfl⟩ := List.exists_cons_of_ne_nil htext
  rw [readPiece]
  split <;> simp

theorem fgets_nil (eol : α) (n : ℕ) : fgets eol n [] = none := rfl

theorem fgets_line (hl : eol ∉ l) (hn : l.length + 1 < n) (text : List α) :
    fgets eol n (l ++ eol :: text) = some (l ++ [eol], text) := by
  have hpiece := readPiece_line (n := n - 1) hl (by omega) text
  rw [fgets, if_neg (by simp), hpiece]

theorem fgets_long (hl : eol ∉ l) (hn : n ≤ l.length + 1) (hne : l ≠ []) (text : List α) :
    fgets eol n (l ++ text) = some (l.take (n - 1), l.drop (n - 1) ++ text) := by
  have hpiece := readPiece_long (n := n - 1) hl (by omega) text
  rw [fgets, if_neg (by simp [hne]), hpiece]

theorem fgets_last (hl : eol ∉ l) (hn : l.length + 1 < n) (hne : l ≠ []) :
    fgets eol n l = some (l, []) := by
  have hpiece := readPiece_last (n := n - 1) hl (by omega)
  rw [fgets, if_neg hne, hpiece]

/-- Something is read, unless the text is at its end. -/
theorem length_lt_of_fgets (hn : 1 < n) {piece rest : List α}
    (h : fgets eol n text = some (piece, rest)) : rest.length < text.length := by
  rw [fgets, Option.ite_none_left_eq_some, Option.some.injEq] at h
  obtain ⟨hne, hread⟩ := h
  have happend := congrArg List.length (readPiece_append eol (n - 1) text)
  have hroom : 0 < n - 1 := by omega
  have hpiece : (readPiece eol (n - 1) text).1 ≠ [] := readPiece_ne_nil hroom hne
  have hpos := List.length_pos_iff.mpr hpiece
  rw [hread, List.length_append] at happend
  rw [hread] at hpos
  dsimp only at happend hpos
  omega

end Lines
end ZmqIssues
