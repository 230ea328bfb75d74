import Mathlib.Data.List.Basic
import ZmqIssues.Lib.Slots

/-!
# The pipe array and the distribution of one part

The array of outbound pipes of a distributor, and the loop that offers one part
of a message to its active pipes.  Both are used unchanged by the distributor
before and after the patch for issue 191, which edits neither `distribute` nor
`write`.

`array_t` keeps in each item its own index, so that `index` needs no search; on
a list the index of a pipe is the position of its first occurrence.  Using an
index outside the array is undefined behaviour in the source.  Here the array is
marked `stray` and its items are left alone, so that an index out of range is
never lost from sight and a run can still be followed behind it: the items are the
pipes that are attached.  What then stands in the slots is not known (`MayHold`).

## Main definitions

* `PipeArray` — `array_t`, with `pushBack`, `swap`, `erase` and `index`.
* `PipeArray.MayHold` — what may stand in the slots.
* `distribute` — offer a part to each of `pipes[0 .. active)`.

## Main results

* `distribute_spec` — what one distribution does to the array, for any choice of
  the pipes that refuse.
-/

namespace ZmqIssues
namespace PubDist

open List

variable {α : Type*}

/-! ### The array -/

/-- `array_t`: the items, and whether an index outside them has been used. -/
structure PipeArray (α : Type*) where
  /-- The pipes, in order. -/
  items : List α
  /-- An index outside the array has been used. -/
  stray : Bool
  deriving DecidableEq, Repr, Inhabited

namespace PipeArray

/-- The empty array. -/
def empty : PipeArray α := ⟨[], false⟩

/-- `size`. -/
def size (a : PipeArray α) : ℕ := a.items.length

/-- `push_back`: append a pipe. -/
def pushBack (a : PipeArray α) (p : α) : PipeArray α := { a with items := a.items ++ [p] }

/-- `swap`: exchange two slots. -/
def swap (a : PipeArray α) (i j : ℕ) : PipeArray α :=
  ⟨Slots.swap a.items i j, a.stray || !(decide (i < a.size) && decide (j < a.size))⟩

@[simp] theorem items_pushBack (a : PipeArray α) (p : α) :
    (a.pushBack p).items = a.items ++ [p] := rfl

@[simp] theorem stray_pushBack (a : PipeArray α) (p : α) : (a.pushBack p).stray = a.stray := rfl

@[simp] theorem size_pushBack (a : PipeArray α) (p : α) : (a.pushBack p).size = a.size + 1 := by
  simp [size, pushBack]

@[simp] theorem items_swap (a : PipeArray α) (i j : ℕ) :
    (a.swap i j).items = Slots.swap a.items i j := rfl

@[simp] theorem size_swap (a : PipeArray α) (i j : ℕ) : (a.swap i j).size = a.size := by
  simp [size, swap]

/-- An exchange uses no index outside the array exactly when both its arguments
lie inside. -/
theorem stray_swap_eq_false {a : PipeArray α} {i j : ℕ} :
    (a.swap i j).stray = false ↔ a.stray = false ∧ i < a.size ∧ j < a.size := by
  simp [swap]

/-- May these items stand in the slots, where `none` is what is no pipe?  As long as every
index used lay inside the array, they are those of the model.  After that a pipe has been
exchanged with what lies behind the array, and of the slots only their number is known. -/
def MayHold (a : PipeArray α) (items : List (Option α)) : Prop :=
  items.length = a.size ∧ (a.stray = false → items = a.items.map some)

theorem mayHold_map_some (a : PipeArray α) : a.MayHold (a.items.map some) :=
  ⟨List.length_map .., fun _ => rfl⟩

theorem mayHold_of_stray {a : PipeArray α} (h : a.stray = true) {items : List (Option α)}
    (hlen : items.length = a.size) : a.MayHold items := by
  refine ⟨hlen, ?_⟩
  intro hin
  exact absurd (h.symm.trans hin) (by decide)

variable [DecidableEq α]

/-- `index`: the slot of a pipe. -/
def index (a : PipeArray α) (p : α) : ℕ := a.items.idxOf p

/-- `erase`: overwrite the slot of a pipe with the last element and shrink by one. -/
def erase (a : PipeArray α) (p : α) : PipeArray α :=
  { a with items := Slots.overwriteLast a.items (a.index p) }

@[simp] theorem items_erase (a : PipeArray α) (p : α) :
    (a.erase p).items = Slots.overwriteLast a.items (a.index p) := rfl

@[simp] theorem size_erase (a : PipeArray α) (p : α) : (a.erase p).size = a.size - 1 :=
  Slots.length_overwriteLast _ _

/-- The slot of an attached pipe lies inside the array. -/
theorem index_lt_size {a : PipeArray α} {p : α} (hp : p ∈ a.items) : a.index p < a.size :=
  List.idxOf_lt_length_of_mem hp

theorem getElem?_index {a : PipeArray α} {p : α} (hp : p ∈ a.items) :
    a.items[a.index p]? = some p :=
  List.getElem?_idxOf hp

/-- A slot is the slot of the pipe in it. -/
theorem index_of_getElem? {a : PipeArray α} (hnd : a.items.Nodup) {i : ℕ} {p : α}
    (hi : a.items[i]? = some p) : a.index p = i := by
  obtain ⟨h, rfl⟩ := List.getElem?_eq_some_iff.mp hi
  exact hnd.idxOf_getElem i h

/-- Removing a pipe removes just that pipe. -/
theorem cons_erase_perm {a : PipeArray α} {p : α} (hp : p ∈ a.items) :
    p :: (a.erase p).items ~ a.items :=
  Slots.cons_overwriteLast_perm (getElem?_index hp)

end PipeArray

/-! ### Offering a part to the active pipes -/

/-- A distribution under way: the array, the number of active pipes, and the
pipes that took and that refused the part so far. -/
structure Sending (α : Type*) where
  /-- The pipe array. -/
  pipes : PipeArray α
  /-- Number of active pipes. -/
  active : ℕ
  /-- The pipes that accepted the part, in the order they were offered it. -/
  took : List α
  /-- The pipes that refused it. -/
  refused : List α
  deriving Repr

variable [DecidableEq α]

/-- `write`: offer the part to one pipe.  A pipe that refuses is moved behind the
active ones; the result says whether the part was accepted. -/
def write (refuses : α → Bool) (s : Sending α) (p : α) : Bool × Sending α :=
  if refuses p then
    let active := s.active - 1
    (false, { s with
      active := active, pipes := s.pipes.swap (s.pipes.index p) active,
      refused := s.refused ++ [p] })
  else (true, { s with took := s.took ++ [p] })

/-- The loop of `distribute` from slot `i` on.  The slot is left only when its
pipe took the part: after a refusal another pipe stands in it.  Every round
brings `i` and `active` closer by one, which bounds the rounds. -/
def distributeFrom (refuses : α → Bool) : ℕ → ℕ → Sending α → Sending α
  | 0, _, s => s
  | rounds + 1, i, s =>
    if i < s.active then
      match s.pipes.items[i]? with
      | some p =>
        let r := write refuses s p
        distributeFrom refuses rounds (if r.1 then i + 1 else i) r.2
      | none => { s with pipes := { s.pipes with stray := true } }
    else s

/-- `distribute`: offer the part once to each of `pipes[0 .. active)`. -/
def distribute (refuses : α → Bool) (pipes : PipeArray α) (active : ℕ) : Sending α :=
  distributeFrom refuses active 0 ⟨pipes, active, [], []⟩

/-- A distribution attaches and detaches no pipe, whatever the counters say. -/
theorem distributeFrom_items_perm (refuses : α → Bool) (rounds i : ℕ) (s : Sending α) :
    (distributeFrom refuses rounds i s).pipes.items ~ s.pipes.items := by
  induction rounds generalizing i s with
  | zero => exact Perm.refl _
  | succ rounds ih =>
    simp only [distributeFrom]
    split
    · split
      · next p _ =>
        refine (ih _ _).trans ?_
        simp only [write]
        split
        · exact Slots.swap_perm _ _ _
        · exact Perm.refl _
      · exact Perm.refl _
    · exact Perm.refl _

/-- An index used outside the array is not forgotten. -/
theorem distributeFrom_stray (refuses : α → Bool) (rounds i : ℕ) {s : Sending α}
    (h : s.pipes.stray = true) : (distributeFrom refuses rounds i s).pipes.stray = true := by
  induction rounds generalizing i s with
  | zero => exact h
  | succ rounds ih =>
    simp only [distributeFrom]
    split
    · split
      · refine ih _ ?_
        simp only [write]
        split
        · simp [PipeArray.swap, h]
        · exact h
      · rfl
    · exact h

/-- What a distribution from slot `i` on does to an array without repetitions
whose active pipes lie inside it: the pipes in slots `i .. active)` are split
into those that took the part and those that refused it, and the former end up
before the boundary, behind the pipes in the slots before `i`. -/
structure Distributed (refuses : α → Bool) (i : ℕ) (s t : Sending α) : Prop where
  items : t.pipes.items ~ s.pipes.items
  stray : t.pipes.stray = s.pipes.stray
  active_le : t.active ≤ s.active
  took : t.took ~ s.took ++ ((s.pipes.items.take s.active).drop i).filter (!refuses ·)
  refused : t.refused ~ s.refused ++ ((s.pipes.items.take s.active).drop i).filter refuses
  take_active : t.pipes.items.take t.active ~
    s.pipes.items.take i ++ ((s.pipes.items.take s.active).drop i).filter (!refuses ·)

theorem distributeFrom_spec (refuses : α → Bool) {rounds i : ℕ} {s : Sending α}
    (hnd : s.pipes.items.Nodup) (hi : i ≤ s.active) (hle : s.active ≤ s.pipes.size)
    (hrounds : s.active - i ≤ rounds) :
    Distributed refuses i s (distributeFrom refuses rounds i s) := by
  induction rounds generalizing i s with
  | zero =>
    obtain rfl : i = s.active := by omega
    simp only [distributeFrom]
    exact ⟨.refl _, rfl, Nat.le_refl _, by simp, by simp, by simp⟩
  | succ rounds ih =>
    simp only [distributeFrom]
    split
    · next hlt =>
      have hsz : i < s.pipes.items.length := Nat.lt_of_lt_of_le hlt hle
      have hp : s.pipes.items[i]? = some s.pipes.items[i] := List.getElem?_eq_getElem hsz
      generalize s.pipes.items[i] = p at hp
      simp only [hp]
      by_cases hr : refuses p = true
      · -- the pipe refuses: it changes places with the last active one
        have hidx : s.pipes.index p = i := PipeArray.index_of_getElem? hnd hp
        obtain ⟨k, hk⟩ : ∃ k, s.active = k + 1 := ⟨s.active - 1, by omega⟩
        have hkl : k < s.pipes.items.length := by
          have : s.active ≤ s.pipes.items.length := hle
          omega
        simp only [write, hr, if_true, hidx, hk, Nat.add_sub_cancel, Bool.false_eq_true, if_false]
        have hperm := Slots.swap_perm s.pipes.items i k
        have hslice : p :: ((Slots.swap s.pipes.items i k).take k).drop i
            ~ (s.pipes.items.take s.active).drop i := by
          rw [hk]; exact Slots.cons_drop_take_swap_perm (by omega) hkl hp
        have hstep := ih (i := i)
          (s := ⟨s.pipes.swap i k, k, s.took, s.refused ++ [p]⟩)
          (hperm.nodup_iff.mpr hnd) (by simp; omega) (by simp [PipeArray.size]; omega)
          (by simp; omega)
        have hfilter := hslice.filter (!refuses ·)
        have hfilter' := hslice.filter refuses
        simp only [List.filter_cons, hr, Bool.not_true, Bool.false_eq_true, if_false] at hfilter
        simp only [List.filter_cons, hr, if_true] at hfilter'
        refine ⟨hstep.items.trans hperm, ?_, ?_, ?_, ?_, ?_⟩
        · rw [hstep.stray]
          simp [PipeArray.swap, PipeArray.size, hsz, hkl]
        · have := hstep.active_le
          simp only at this
          omega
        · exact hstep.took.trans (hfilter.append_left _)
        · refine hstep.refused.trans ?_
          simp only [List.append_assoc, List.singleton_append]
          exact hfilter'.append_left _
        · refine hstep.take_active.trans ?_
          simp only [PipeArray.items_swap]
          rw [Slots.take_swap_of_le (Nat.le_refl i) (by omega)]
          exact hfilter.append_left _
      · -- the pipe takes the part: the loop goes on to the next slot
        rw [Bool.not_eq_true] at hr
        simp only [write, hr, Bool.false_eq_true, if_false, if_true]
        have hslice : (s.pipes.items.take s.active).drop i
            = p :: (s.pipes.items.take s.active).drop (i + 1) := by
          rw [List.drop_eq_getElem_cons (by simp; omega), List.getElem_take]
          rw [List.getElem?_eq_getElem hsz, Option.some.injEq] at hp
          rw [hp]
        have hstep := ih (i := i + 1) (s := { s with took := s.took ++ [p] }) hnd hlt hle (by
          simp only; omega)
        refine ⟨hstep.items, hstep.stray, hstep.active_le, ?_, ?_, ?_⟩
        · rw [hslice]
          simpa [List.filter_cons, hr] using hstep.took
        · rw [hslice]
          simpa [List.filter_cons, hr] using hstep.refused
        · rw [hslice]
          have := hstep.take_active
          rw [List.take_add_one, hp] at this
          simpa [List.filter_cons, hr] using this
    · next hge =>
      obtain rfl : i = s.active := by omega
      exact ⟨.refl _, rfl, Nat.le_refl _, by simp, by simp, by simp⟩

/-- **One distribution.**  The active pipes are split into those that took the
part and those that refused it; the former are the active pipes afterwards. -/
theorem distribute_spec (refuses : α → Bool) {pipes : PipeArray α} {active : ℕ}
    (hnd : pipes.items.Nodup) (hle : active ≤ pipes.size) :
    Distributed refuses 0 ⟨pipes, active, [], []⟩ (distribute refuses pipes active) :=
  distributeFrom_spec refuses hnd (Nat.zero_le _) hle (by simp)

/-- The pipes that take a part are the active ones that do not refuse it. -/
theorem mem_took_distribute {refuses : α → Bool} {pipes : PipeArray α} {active : ℕ} {p : α}
    (hnd : pipes.items.Nodup) (hle : active ≤ pipes.size) :
    p ∈ (distribute refuses pipes active).took ↔
      p ∈ pipes.items.take active ∧ refuses p = false := by
  rw [(distribute_spec refuses hnd hle).took.mem_iff]
  simp

/-- The active pipes after a distribution are those that took the part. -/
theorem mem_take_distribute {refuses : α → Bool} {pipes : PipeArray α} {active : ℕ} {p : α}
    (hnd : pipes.items.Nodup) (hle : active ≤ pipes.size) :
    p ∈ (distribute refuses pipes active).pipes.items.take
        (distribute refuses pipes active).active ↔
      p ∈ pipes.items.take active ∧ refuses p = false := by
  rw [(distribute_spec refuses hnd hle).take_active.mem_iff]
  simp

end PubDist
end ZmqIssues
