import Mathlib.Data.List.Basic
import Mathlib.Tactic.Common

/-!
# Streams cut into segments

A stream of bytes arrives in pieces: whoever asks for at most `n` values gets the first
ones of the next piece, and the rest of the piece stays for the next time.

## Main definitions

* `Segmented` — the values that will still arrive, cut into non-empty segments.
* `Segmented.receive` — the next values, at most `n` of them.

## Main results

* `contents_receive` — nothing is lost or reordered.
* `length_receive_pos` — something arrives as long as something is left.
-/

namespace ZmqIssues

variable {α : Type*}

/-- A stream cut into non-empty segments. -/
structure Segmented (α : Type*) where
  /-- The segments. -/
  segments : List (List α)
  /-- None of them is empty. -/
  ne_nil : ∀ s ∈ segments, s ≠ []

namespace Segmented

/-- All values that will still arrive. -/
def contents (s : Segmented α) : List α := s.segments.flatten

/-- What is left of the segments when at most `n` values of the first one are taken. -/
def rest (n : ℕ) : List (List α) → List (List α)
  | [] => []
  | seg :: segs => if seg.length ≤ n then segs else seg.drop n :: segs

theorem ne_nil_of_mem_rest {n : ℕ} {segs : List (List α)} (h : ∀ s ∈ segs, s ≠ []) :
    ∀ s ∈ rest n segs, s ≠ [] := by
  cases segs with
  | nil => simp [rest]
  | cons seg segs =>
    intro s hs
    by_cases hn : seg.length ≤ n
    · rw [rest, if_pos hn] at hs
      exact h s (List.mem_cons_of_mem seg hs)
    · rw [rest, if_neg hn] at hs
      rcases List.mem_cons.mp hs with rfl | hs
      · simpa [List.drop_eq_nil_iff] using hn
      · exact h s (List.mem_cons_of_mem seg hs)

/-- The next values, at most `n` of them, and the stream behind them. -/
def receive (s : Segmented α) (n : ℕ) : List α × Segmented α :=
  (s.segments.headD [] |>.take n, ⟨rest n s.segments, ne_nil_of_mem_rest s.ne_nil⟩)

/-- **Nothing is lost or reordered.** -/
theorem contents_receive (s : Segmented α) (n : ℕ) :
    (s.receive n).1 ++ (s.receive n).2.contents = s.contents := by
  obtain ⟨segs, h⟩ := s
  cases segs with
  | nil => simp [receive, contents, rest]
  | cons seg segs =>
    by_cases hn : seg.length ≤ n
    · simp [receive, contents, rest, hn, List.take_of_length_le hn]
    · simp only [receive, contents, rest, if_neg hn, List.headD_cons, List.flatten_cons]
      rw [← List.append_assoc, List.take_append_drop]

theorem length_receive_le (s : Segmented α) (n : ℕ) : (s.receive n).1.length ≤ n := by
  simp only [receive, List.length_take]
  omega

/-- **Something arrives as long as something is left.** -/
theorem length_receive_pos {s : Segmented α} {n : ℕ} (hn : 0 < n) (hs : s.contents ≠ []) :
    0 < (s.receive n).1.length := by
  obtain ⟨segs, h⟩ := s
  cases segs with
  | nil => exact absurd rfl hs
  | cons seg segs =>
    have hseg : 0 < seg.length := List.length_pos_iff.mpr (h seg List.mem_cons_self)
    simp only [receive, List.headD_cons, List.length_take]
    omega

theorem segments_ne_nil {s : Segmented α} (h : s.contents ≠ []) : s.segments ≠ [] := by
  intro hnil
  exact h (by rw [contents, hnil, List.flatten_nil])

theorem segments_eq_nil {s : Segmented α} (h : s.contents = []) : s.segments = [] := by
  rw [List.eq_nil_iff_forall_not_mem]
  intro seg hseg
  exact s.ne_nil seg hseg (List.flatten_eq_nil_iff.mp h seg hseg)

end Segmented
end ZmqIssues
