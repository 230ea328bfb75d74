import Mathlib.Data.Set.Insert
import Mathlib.Data.List.Sublists
import Mathlib.Tactic.Common

/-!
# Sending multipart messages to a changing set of pipes

What a distributor is for, without arrays and counters.  Pipes come and go at any
moment, and every part of a message goes to a set of pipes: the first part to the
attached pipes that do not refuse it, a later part to the pipes that took all the
parts before it.  A pipe attached between two parts waits for the next message.

Whoever works this way tears no message, as long as a pipe refuses nothing but
first parts: what a pipe has accepted is a sequence of whole messages, followed
by all the parts of the message in progress or by none.

## Main definitions

* `Fanout` — the attached pipes and those that take part in the message in progress.
* `Ledger` — the messages sent and the parts every pipe accepted.
* `Ledger.Atomic` — no message is torn for a pipe.

## Main results

* `Whole.send`, `Whole.attach`, `Whole.detach` — what each step preserves.
* `Whole.atomic` — **no attached pipe holds a torn message.**
* `Ledger.not_atomic_record` — a pipe that misses a part of a message it began is
  left with a torn message.
* `Ledger.not_atomic_record_late` — so is a pipe that accepts a part of a message whose
  beginning it missed.
-/

namespace ZmqIssues
namespace PubDist

open List

variable {α β : Type*}

/-! ### The ledger -/

/-- What was sent, and what every pipe accepted. -/
structure Ledger (α β : Type*) where
  /-- The messages whose last part was sent, oldest first. -/
  done : List (List β)
  /-- The parts sent so far of the message in progress. -/
  cur : List β
  /-- The parts a pipe accepted since it was attached. -/
  took : α → List β

namespace Ledger

/-- Nothing was sent. -/
def init : Ledger α β := ⟨[], [], fun _ => []⟩

variable [DecidableEq α]

/-- A new pipe has accepted nothing. -/
def attach (l : Ledger α β) (p : α) : Ledger α β :=
  { l with took := Function.update l.took p [] }

/-- A part was sent, and the pipes of a list accepted it. -/
def record (l : Ledger α β) (part : β) (msgMore : Bool) (accepted : List α) : Ledger α β where
  done := if msgMore then l.done else l.done ++ [l.cur ++ [part]]
  cur := if msgMore then l.cur ++ [part] else []
  took := fun p => if p ∈ accepted then l.took p ++ [part] else l.took p

section Record

variable (l : Ledger α β) (part : β) (msgMore : Bool) {accepted : List α} {p : α}

theorem took_record_of_mem (hp : p ∈ accepted) :
    (l.record part msgMore accepted).took p = l.took p ++ [part] :=
  if_pos hp

theorem took_record_of_notMem (hp : p ∉ accepted) :
    (l.record part msgMore accepted).took p = l.took p :=
  if_neg hp

end Record

end Ledger

/-! ### The abstract distributor -/

/-- The pipes a distributor serves. -/
structure Fanout (α : Type*) where
  /-- The attached pipes. -/
  attached : Set α
  /-- The pipes that took every part of the message in progress. -/
  taking : Set α
  /-- A message is in progress. -/
  more : Bool

namespace Fanout

/-- No pipe is attached. -/
def init : Fanout α := ⟨∅, ∅, false⟩

/-- A new pipe waits for the next message. -/
def attach (f : Fanout α) (p : α) : Fanout α := { f with attached := insert p f.attached }

/-- A pipe is gone. -/
def detach (f : Fanout α) (p : α) : Fanout α :=
  { f with attached := f.attached \ {p}, taking := f.taking \ {p} }

/-- The pipes that accept the next part. -/
def acceptors (f : Fanout α) (refuses : α → Bool) : Set α :=
  {p | p ∈ (if f.more then f.taking else f.attached) ∧ refuses p = false}

/-- A part is sent. -/
def send (f : Fanout α) (msgMore : Bool) (refuses : α → Bool) : Fanout α :=
  { f with taking := f.acceptors refuses, more := msgMore }

theorem mem_acceptors {f : Fanout α} {refuses : α → Bool} {p : α} :
    p ∈ f.acceptors refuses ↔
      (if f.more then p ∈ f.taking else p ∈ f.attached) ∧ refuses p = false := by
  unfold acceptors
  cases f.more <;> rfl

end Fanout

/-! ### Atomicity -/

/-- What a pipe accepted is a sequence of whole messages, followed by all the parts
sent of the message in progress or by none of them. -/
def Ledger.Atomic (l : Ledger α β) (p : α) : Prop :=
  ∃ ms, ms <+ l.done ∧ (l.took p = ms.flatten ∨ l.took p = ms.flatten ++ l.cur)

/-- The invariant behind atomicity: the attached pipes that took part in the message
in progress hold all its parts, and the others hold whole messages only. -/
structure Whole (f : Fanout α) (l : Ledger α β) : Prop where
  taking_subset : f.taking ⊆ f.attached
  cur_eq_nil : f.more = false → l.cur = []
  cur_ne_nil : f.more = true → l.cur ≠ []
  taking : f.more = true → ∀ p ∈ f.taking, ∃ ms, ms <+ l.done ∧ l.took p = ms.flatten ++ l.cur
  waiting : ∀ p ∈ f.attached, (f.more = true → p ∉ f.taking) →
    ∃ ms, ms <+ l.done ∧ l.took p = ms.flatten

theorem whole_init : Whole (Fanout.init : Fanout α) (Ledger.init : Ledger α β) :=
  ⟨Set.empty_subset _, fun _ => rfl, fun h => absurd h (by simp [Fanout.init]),
    fun h => absurd h (by simp [Fanout.init]), fun _ hp => absurd hp (Set.notMem_empty _)⟩

/-- **No attached pipe holds a torn message.** -/
theorem Whole.atomic {f : Fanout α} {l : Ledger α β} (h : Whole f l) {p : α}
    (hp : p ∈ f.attached) : l.Atomic p := by
  by_cases ht : f.more = true ∧ p ∈ f.taking
  · obtain ⟨ms, hms, htook⟩ := h.taking ht.1 p ht.2
    exact ⟨ms, hms, Or.inr htook⟩
  · obtain ⟨ms, hms, htook⟩ := h.waiting p hp fun hm hpt => ht ⟨hm, hpt⟩
    exact ⟨ms, hms, Or.inl htook⟩

variable [DecidableEq α]

theorem Whole.attach {f : Fanout α} {l : Ledger α β} (h : Whole f l) {p : α}
    (hp : p ∉ f.attached) : Whole (f.attach p) (l.attach p) := by
  have hne : ∀ q ∈ f.attached, q ≠ p := by
    intro q hq hqp
    exact hp (hqp ▸ hq)
  refine ⟨fun q hq => Or.inr (h.taking_subset hq), h.cur_eq_nil, h.cur_ne_nil, ?_, ?_⟩
  · intro hm q hq
    have hqp : q ≠ p := hne q (h.taking_subset hq)
    obtain ⟨ms, hms, htook⟩ := h.taking hm q hq
    exact ⟨ms, hms, by simpa [Ledger.attach, Function.update_of_ne hqp] using htook⟩
  · intro q hq hnt
    rcases hq with rfl | hq
    · -- the new pipe has accepted nothing yet
      exact ⟨[], List.nil_sublist _, by simp [Ledger.attach]⟩
    · obtain ⟨ms, hms, htook⟩ := h.waiting q hq hnt
      exact ⟨ms, hms, by simpa [Ledger.attach, Function.update_of_ne (hne q hq)] using htook⟩

omit [DecidableEq α] in
theorem Whole.detach {f : Fanout α} {l : Ledger α β} (h : Whole f l) (p : α) :
    Whole (f.detach p) l := by
  refine ⟨?_, h.cur_eq_nil, h.cur_ne_nil, ?_, ?_⟩
  · intro q hq
    exact ⟨h.taking_subset hq.1, hq.2⟩
  · intro hm q hq
    exact h.taking hm q hq.1
  · intro q hq hnt
    refine h.waiting q hq.1 ?_
    intro hm hqt
    exact hnt hm ⟨hqt, hq.2⟩

/-- **Sending a part tears no message**, if the pipes that take part in the message in
progress do not refuse it. -/
theorem Whole.send {f : Fanout α} {l : Ledger α β} (h : Whole f l) {refuses : α → Bool}
    (hstart : f.more = true → ∀ p ∈ f.taking, refuses p = false) {accepted : List α}
    (hacc : ∀ p, p ∈ accepted ↔ p ∈ f.acceptors refuses) (part : β) (msgMore : Bool) :
    Whole (f.send msgMore refuses) (l.record part msgMore accepted) := by
  -- A pipe that accepts holds the message in progress up to this part.
  have haccepts : ∀ p ∈ f.acceptors refuses, ∃ ms, ms <+ l.done ∧
      (l.record part msgMore accepted).took p = ms.flatten ++ (l.cur ++ [part]) := by
    intro p hp
    have htook := l.took_record_of_mem part msgMore ((hacc p).mpr hp)
    rw [Fanout.mem_acceptors] at hp
    cases hm : f.more with
    | true =>
      rw [hm, if_pos rfl] at hp
      obtain ⟨ms, hms, hl⟩ := h.taking hm p hp.1
      exact ⟨ms, hms, by rw [htook, hl, List.append_assoc]⟩
    | false =>
      rw [hm, if_neg Bool.false_ne_true] at hp
      obtain ⟨ms, hms, hl⟩ := h.waiting p hp.1 fun hm' => absurd hm' (by simp [hm])
      exact ⟨ms, hms, by rw [htook, hl, h.cur_eq_nil hm, List.nil_append]⟩
  -- A pipe that does not accept holds whole messages.
  have hwaits : ∀ p ∈ f.attached, p ∉ f.acceptors refuses → ∃ ms, ms <+ l.done ∧
      (l.record part msgMore accepted).took p = ms.flatten := by
    intro p hp hna
    rw [l.took_record_of_notMem part msgMore (mt (hacc p).mp hna)]
    refine h.waiting p hp ?_
    intro hm hpt
    -- a pipe that took the parts before would not refuse this one
    apply hna
    rw [Fanout.mem_acceptors, hm, if_pos rfl]
    exact ⟨hpt, hstart hm p hpt⟩
  have hdone : l.done <+ (l.record part msgMore accepted).done := by
    cases msgMore
    · exact List.sublist_append_left _ _
    · exact List.Sublist.refl _
  refine ⟨?_, ?_, ?_, ?_, ?_⟩
  · intro p hp
    obtain ⟨hmem, -⟩ := Fanout.mem_acceptors.mp hp
    split at hmem
    · exact h.taking_subset hmem
    · exact hmem
  · intro hmore
    obtain rfl : msgMore = false := hmore
    rfl
  · intro hmore
    obtain rfl : msgMore = true := hmore
    simp [Ledger.record]
  · intro hmore p hp
    obtain rfl : msgMore = true := hmore
    exact haccepts p hp
  · intro p hp hnt
    by_cases hpa : p ∈ f.acceptors refuses
    · -- the last part completes the message
      obtain rfl : msgMore = false := by
        rw [← Bool.not_eq_true]
        intro hm
        exact hnt hm hpa
      obtain ⟨ms, hms, htook⟩ := haccepts p hpa
      exact ⟨ms ++ [l.cur ++ [part]], hms.append (List.Sublist.refl _), by simpa using htook⟩
    · obtain ⟨ms, hms, htook⟩ := hwaits p hp hpa
      exact ⟨ms, hms.trans hdone, htook⟩

/-! ### Torn messages -/

/-- A pipe that took a part of the message in progress and misses the next one is
left with a torn message, if the parts sent can be told apart. -/
theorem Ledger.not_atomic_record {l : Ledger α β} {part : β} {msgMore : Bool}
    {accepted : List α} {p : α} {c : β} (hnd : (l.done.flatten ++ (l.cur ++ [part])).Nodup)
    (hc : c ∈ l.cur) (hct : c ∈ l.took p) (hpart : part ∉ l.took p) (hp : p ∉ accepted) :
    ¬ (l.record part msgMore accepted).Atomic p := by
  have htook := l.took_record_of_notMem part msgMore hp
  have hcd : c ∉ l.done.flatten := by
    intro h
    exact List.disjoint_of_nodup_append hnd h (List.mem_append_left _ hc)
  intro h
  obtain ⟨ms, hms, hatomic⟩ := h
  rw [htook] at hatomic
  -- Every way to account for `c` brings the missed part along.
  have hmsg : ∀ m ∈ (l.record part msgMore accepted).done, c ∈ m → part ∈ m := by
    intro m hm hcm
    cases msgMore with
    | true => exact absurd (List.mem_flatten.mpr ⟨m, hm, hcm⟩) hcd
    | false =>
      rcases List.mem_append.mp hm with hm | hm
      · exact absurd (List.mem_flatten.mpr ⟨m, hm, hcm⟩) hcd
      · rw [List.mem_singleton.mp hm]
        simp
  have hflat : c ∈ ms.flatten → part ∈ ms.flatten := by
    intro h
    obtain ⟨m, hm, hcm⟩ := List.mem_flatten.mp h
    exact List.mem_flatten.mpr ⟨m, hm, hmsg m (hms.subset hm) hcm⟩
  rcases hatomic with hl | hl
  · exact hpart (hl ▸ hflat (hl ▸ hct))
  · cases msgMore with
    | true => exact hpart (hl ▸ List.mem_append_right _ (by simp [Ledger.record]))
    | false =>
      -- no message is in progress any more, so `c` belongs to a whole one
      have hcm : c ∈ ms.flatten := by
        have := hl ▸ hct
        simpa [Ledger.record] using this
      exact hpart (hl ▸ List.mem_append_left _ (hflat hcm))

/-- A pipe that missed a part of the message in progress and accepts the next one is left
with a torn message, if the parts sent can be told apart. -/
theorem Ledger.not_atomic_record_late {l : Ledger α β} {part : β} {msgMore : Bool}
    {accepted : List α} {p : α} {c : β} (hnd : (l.done.flatten ++ (l.cur ++ [part])).Nodup)
    (hc : c ∈ l.cur) (hct : c ∉ l.took p) (hp : p ∈ accepted) :
    ¬ (l.record part msgMore accepted).Atomic p := by
  have htook := l.took_record_of_mem part msgMore hp
  have hpd : part ∉ l.done.flatten := by
    intro h
    exact List.disjoint_of_nodup_append hnd h (by simp)
  have hcp : c ∉ l.took p ++ [part] := by
    rw [List.mem_append, not_or, List.mem_singleton]
    refine ⟨hct, ?_⟩
    rintro rfl
    have hcur := (List.nodup_append.mp hnd).2.1
    exact List.disjoint_of_nodup_append hcur hc (List.mem_singleton_self c)
  intro h
  obtain ⟨ms, hms, hatomic⟩ := h
  rw [htook] at hatomic
  -- Every way to account for the part brings `c` along.
  have hflat : part ∈ ms.flatten → c ∈ ms.flatten := by
    intro h
    obtain ⟨m, hm, hpm⟩ := List.mem_flatten.mp h
    refine List.mem_flatten.mpr ⟨m, hm, ?_⟩
    have hmd := hms.subset hm
    cases msgMore with
    | true => exact absurd (List.mem_flatten.mpr ⟨m, hmd, hpm⟩) hpd
    | false =>
      rcases List.mem_append.mp hmd with hmd | hmd
      · exact absurd (List.mem_flatten.mpr ⟨m, hmd, hpm⟩) hpd
      · rw [List.mem_singleton.mp hmd]
        exact List.mem_append_left _ hc
  have hpart : part ∈ l.took p ++ [part] := by simp
  rcases hatomic with hl | hl
  · exact hcp (hl ▸ hflat (hl ▸ hpart))
  · cases msgMore with
    | true =>
      have hcur : c ∈ (l.record part true accepted).cur := List.mem_append_left _ hc
      exact hcp (hl ▸ List.mem_append_right _ hcur)
    | false =>
      -- no message is in progress any more, so the part belongs to a whole one
      have hpm : part ∈ ms.flatten := by
        have := hl ▸ hpart
        simpa [Ledger.record] using this
      exact hcp (hl ▸ List.mem_append_left _ (hflat hpm))

end PubDist
end ZmqIssues
