import Mathlib.Tactic.Common
import ZmqIssues.Dist.Model

/-!
# The two counters and the pipe array

`active` and `eligible` are meant to cut the pipe array into three zones: pipes
that get the next part, pipes that get the next message, and pipes that have
refused a part.  A refusal moves a pipe behind `active` only, so nothing ever
puts a pipe behind `eligible`: as long as no pipe is activated, `eligible` is the
number of attached pipes.  No attached pipe is ever starved then — and the first
`activated` exchanges a pipe with the slot behind the last one.

## Main definitions

* `InBounds` — the counters are ordered and no index outside the array was used.
* `Sound` — the invariant of the runs without `activated`.
* `NoneStarved` — every attached pipe that is not refusing is offered the next message.

## Main results

* `sound_of_run`, `stray_of_run` — a run without `activated` ends in a sound world,
  and any other one has used an index outside the array.
* `inBounds_throughout_iff` — **a run stays inside the array exactly when it
  activates no pipe.**
* `noneStarved_throughout_iff` — **a run starves no subscriber exactly when it activates
  no pipe.**
-/

namespace ZmqIssues
namespace PubDist

open List Machine

variable {α β : Type*} [DecidableEq α]

/-! ### The attached pipes under each call -/

omit [DecidableEq α] in
theorem attach_items_perm (d : DistT α) (p : α) :
    (d.attach p).pipes.items ~ p :: d.pipes.items := by
  rw [DistT.pipes_attach, PipeArray.items_swap, PipeArray.items_pushBack]
  exact (Slots.swap_perm _ _ _).trans (perm_append_singleton p _)

theorem cons_terminated_items_perm {d : DistT α} {p : α} (hp : p ∈ d.pipes.items) :
    p :: (d.terminated p).pipes.items ~ d.pipes.items := by
  rw [DistT.pipes_terminated]
  exact PipeArray.cons_erase_perm hp

theorem send_items_perm (d : DistT α) (msgMore : Bool) (refuses : α → Bool) :
    (d.send msgMore refuses).pipes.items ~ d.pipes.items := by
  rw [DistT.pipes_send]
  exact distributeFrom_items_perm _ _ _ _

omit [DecidableEq α] in
@[simp] theorem size_attach (d : DistT α) (p : α) :
    (d.attach p).pipes.size = d.pipes.size + 1 := by
  simp [DistT.pipes_attach]

@[simp] theorem size_terminated (d : DistT α) (p : α) :
    (d.terminated p).pipes.size = d.pipes.size - 1 := by
  simp [DistT.pipes_terminated]

@[simp] theorem size_send (d : DistT α) (msgMore : Bool) (refuses : α → Bool) :
    (d.send msgMore refuses).pipes.size = d.pipes.size :=
  (send_items_perm d msgMore refuses).length_eq

/-! ### The runs without `activated` -/

/-- The counters are ordered, meet between two messages, and every index used so
far was inside the array. -/
structure InBounds (d : DistT α) : Prop where
  active_le : d.active ≤ d.eligible
  eligible_le : d.eligible ≤ d.pipes.size
  active_eq : d.more = false → d.active = d.eligible
  stray : d.pipes.stray = false

/-- The invariant of the runs without `activated`: every attached pipe lies before
`eligible`, just once. -/
structure Sound (d : DistT α) : Prop where
  nodup : d.pipes.items.Nodup
  active_le : d.active ≤ d.eligible
  eligible_eq : d.eligible = d.pipes.size
  active_eq : d.more = false → d.active = d.eligible
  stray : d.pipes.stray = false

omit [DecidableEq α] in
theorem Sound.inBounds {d : DistT α} (h : Sound d) : InBounds d :=
  ⟨h.active_le, h.eligible_eq.le, h.active_eq, h.stray⟩

omit [DecidableEq α] in
theorem Sound.active_le_size {d : DistT α} (h : Sound d) : d.active ≤ d.pipes.size :=
  h.active_le.trans h.eligible_eq.le

omit [DecidableEq α] in
theorem sound_init : Sound (DistT.init : DistT α) :=
  ⟨List.nodup_nil, Nat.le_refl _, rfl, fun _ => rfl, rfl⟩

omit [DecidableEq α] in
theorem Sound.attach {d : DistT α} (h : Sound d) {p : α} (hp : p ∉ d.pipes.items) :
    Sound (d.attach p) := by
  refine ⟨?_, ?_, ?_, ?_, ?_⟩
  · rw [(attach_items_perm d p).nodup_iff, List.nodup_cons]
    exact ⟨hp, h.nodup⟩
  · have := h.active_le
    rw [DistT.active_attach, DistT.eligible_attach]
    split <;> omega
  · rw [DistT.eligible_attach, size_attach, h.eligible_eq]
  · intro hm
    rw [DistT.more_attach] at hm
    simp [hm, h.active_eq hm]
  · -- both branches exchange a slot with the one just appended
    have hle := h.active_le_size
    have he := h.eligible_eq
    rw [DistT.pipes_attach, PipeArray.stray_swap_eq_false]
    refine ⟨h.stray, ?_, by simp⟩
    rw [PipeArray.size_pushBack]
    split <;> omega

theorem Sound.terminated {d : DistT α} (h : Sound d) {p : α} (hp : p ∈ d.pipes.items) :
    Sound (d.terminated p) := by
  have hidx : d.pipes.index p < d.pipes.size := PipeArray.index_lt_size hp
  have hle := h.active_le
  have he := h.eligible_eq
  have heq := h.active_eq
  refine ⟨?_, ?_, ?_, ?_, ?_⟩
  · exact (List.nodup_cons.mp ((cons_terminated_items_perm hp).nodup_iff.mpr h.nodup)).2
  · rw [DistT.active_terminated, DistT.eligible_terminated]
    split <;> split <;> omega
  · rw [DistT.eligible_terminated, size_terminated, if_pos (by omega), he]
  · intro hm
    rw [DistT.more_terminated] at hm
    rw [DistT.active_terminated, DistT.eligible_terminated, heq hm]
  · rw [DistT.pipes_terminated]
    exact h.stray

theorem Sound.send {d : DistT α} (h : Sound d) (msgMore : Bool) (refuses : α → Bool) :
    Sound (d.send msgMore refuses) := by
  have hspec : Distributed refuses 0 _ (d.offers refuses) :=
    distribute_spec refuses h.nodup h.active_le_size
  refine ⟨?_, ?_, ?_, ?_, ?_⟩
  · exact (send_items_perm d msgMore refuses).nodup_iff.mpr h.nodup
  · rw [DistT.active_send, DistT.eligible_send]
    split
    · exact hspec.active_le.trans h.active_le
    · exact Nat.le_refl _
  · rw [DistT.eligible_send, size_send, h.eligible_eq]
  · intro hm
    rw [DistT.more_send] at hm
    simp [hm]
  · rw [DistT.pipes_send, hspec.stray]
    exact h.stray

/-- From a sound distributor every `activated` uses the slot behind the last one. -/
theorem Sound.stray_activated {d : DistT α} (h : Sound d) (p : α) :
    (d.activated p).pipes.stray = true := by
  have he := h.eligible_eq
  have heq := h.active_eq
  rw [← Bool.not_eq_false, DistT.pipes_activated, PipeArray.stray_swap_eq_false]
  intro h
  obtain ⟨-, -, hlt⟩ := h
  -- the slot is that of `eligible` in both branches, and it is not one of the array
  split at hlt
  · omega
  · next hm =>
    have := heq (Bool.eq_false_iff.mpr hm)
    omega

/-- Does an event call `activated`? -/
def Event.IsActivated : Event α β → Prop
  | .activated _ => True
  | _ => False

theorem sound_step {w v : World α β} {e : Event α β} (hw : Sound w.dist)
    (he : ¬ e.IsActivated) (h : step w e = some v) : Sound v.dist := by
  cases e with
  | attach p =>
    obtain ⟨hp, rfl⟩ := step_attach_eq_some.mp h
    exact hw.attach hp
  | activated p => exact absurd trivial he
  | terminated p =>
    obtain ⟨hp, rfl⟩ := step_terminated_eq_some.mp h
    exact hw.terminated hp
  | send part msgMore refuses =>
    obtain ⟨-, rfl⟩ := step_send_eq_some.mp h
    exact hw.send msgMore refuses

theorem sound_of_run {es : List (Event α β)} {w : World α β}
    (hes : ∀ e ∈ es, ¬ e.IsActivated) (h : run step World.init es = some w) : Sound w.dist :=
  invariant_of_along (I := fun w : World α β => Sound w.dist)
    (C := fun _ e => ¬ e.IsActivated) (fun _ _ _ => sound_step) sound_init
    (along_of_forall hes _) h

/-! ### Leaving the array -/

theorem stray_step {w v : World α β} {e : Event α β} (hw : w.dist.pipes.stray = true)
    (h : step w e = some v) : v.dist.pipes.stray = true := by
  cases e with
  | attach p =>
    obtain ⟨-, rfl⟩ := step_attach_eq_some.mp h
    simp [DistT.pipes_attach, PipeArray.swap, hw]
  | activated p =>
    obtain ⟨-, rfl⟩ := step_activated_eq_some.mp h
    simp [DistT.pipes_activated, PipeArray.swap, hw]
  | terminated p =>
    obtain ⟨-, rfl⟩ := step_terminated_eq_some.mp h
    rw [DistT.pipes_terminated]
    exact hw
  | send part msgMore refuses =>
    obtain ⟨-, rfl⟩ := step_send_eq_some.mp h
    rw [DistT.pipes_send]
    exact distributeFrom_stray _ _ _ hw

/-- A run that activated a pipe has used an index outside the array. -/
theorem stray_of_run {es : List (Event α β)} {w : World α β}
    (h : run step World.init es = some w) (hes : ∃ e ∈ es, e.IsActivated) :
    w.dist.pipes.stray = true := by
  induction es using List.reverseRecOn generalizing w with
  | nil => simp at hes
  | append_singleton es e ih =>
    obtain ⟨u, hu, huw⟩ := run_concat_eq_some.mp h
    by_cases hpre : ∃ e ∈ es, e.IsActivated
    · exact stray_step (ih hu hpre) huw
    · -- this is the first pipe that is activated
      have hsound : Sound u.dist := by
        refine sound_of_run ?_ hu
        intro a ha hact
        exact hpre ⟨a, ha, hact⟩
      obtain ⟨e', he', hact⟩ := hes
      obtain rfl : e' = e := by
        rcases List.mem_append.mp he' with hmem | hmem
        · exact absurd ⟨e', hmem, hact⟩ hpre
        · exact List.mem_singleton.mp hmem
      cases e' with
      | activated p =>
        obtain ⟨-, rfl⟩ := step_activated_eq_some.mp huw
        exact hsound.stray_activated p
      | attach p => exact absurd hact id
      | terminated p => exact absurd hact id
      | send part msgMore refuses => exact absurd hact id

/-- **A run stays inside the array exactly when it activates no pipe.**  Up to the
first `activated` the counters are ordered, meet between two messages, and every
exchange and every offer uses slots of the array; the first `activated` does not. -/
theorem inBounds_throughout_iff {es : List (Event α β)} {w : World α β}
    (h : run step World.init es = some w) :
    Throughout step (fun w => InBounds w.dist) World.init es ↔ ∀ e ∈ es, ¬ e.IsActivated := by
  constructor
  · intro hb e he hact
    have hfinal : InBounds w.dist := hb.final h
    exact Bool.false_ne_true (hfinal.stray.symm.trans (stray_of_run h ⟨e, he, hact⟩))
  · intro hes pre hpre v hv
    have hsound : Sound v.dist := by
      refine sound_of_run ?_ hv
      intro e he
      exact hes e (hpre.subset he)
    exact hsound.inBounds

/-- A pipe that refuses the only part of a message and is activated afterwards. -/
def refusedAndActivated : List (Event ℕ ℕ) :=
  [.attach 0, .send 0 false fun _ => true, .activated 0]

/-- `inBounds_throughout_iff` on the run that stops before the pipe is activated. -/
theorem inBounds_throughout_refused :
    (∃ w, run step World.init (refusedAndActivated.take 2) = some w) ∧
      Throughout step (fun w => InBounds w.dist) World.init (refusedAndActivated.take 2) := by
  refine ⟨⟨_, rfl⟩, (inBounds_throughout_iff (w := _) rfl).mpr ?_⟩
  intro e he
  simp only [refusedAndActivated, List.take_succ_cons, List.take_zero, List.mem_cons,
    List.not_mem_nil, or_false] at he
  rcases he with rfl | rfl <;> exact id

/-- With one attached pipe, which refused a part, `activated` exchanges slot 0 with
slot 1. -/
theorem activated_outside_array :
    ∃ w, run step World.init refusedAndActivated = some w ∧ w.attached = [0] ∧
      w.dist.eligible = 2 ∧ w.dist.pipes.stray = true ∧ ¬ InBounds w.dist :=
  ⟨_, rfl, rfl, rfl, rfl, fun h => absurd h.stray (by decide)⟩

/-! ### Starving a pipe -/

/-- The distributor, if these items stand in its array.  The calls it has made are left
out. -/
def DistT.holding (d : DistT α) (items : List (Option α)) : DistT (Option α) :=
  ⟨⟨items, d.pipes.stray⟩, d.active, d.eligible, d.more, d.terminating, []⟩

/-- A distributor serves a pipe: it has the pipe before `eligible`, and between two
messages before `active`, where it is offered the first part of the next one. -/
structure DistT.Serves (d : DistT α) (p : α) : Prop where
  /-- The pipe is in the array. -/
  mem : p ∈ d.pipes.items
  /-- It is eligible. -/
  index_lt_eligible : d.pipes.index p < d.eligible
  /-- It is active between two messages. -/
  index_lt_active : d.more = false → d.pipes.index p < d.active
  /-- It is offered the first part of the next message. -/
  offered : d.more = false → ∀ refuses,
    p ∈ (d.offers refuses).took ∨ p ∈ (d.offers refuses).refused

/-- **No subscriber is starved**: whatever stands in the array, the distributor serves
every attached pipe that is not refusing, and the termination of another pipe leaves
it eligible. -/
def NoneStarved (w : World α β) : Prop :=
  ∀ p ∈ w.attached, w.refusing p = false → ∀ items, w.dist.pipes.MayHold items →
    (w.dist.holding items).Serves (some p) ∧
      ∀ q ∈ w.attached, q ≠ p →
        ((w.dist.holding items).terminated (some q)).pipes.index (some p) <
          ((w.dist.holding items).terminated (some q)).eligible

/-- A sound distributor serves every attached pipe, refusing or not. -/
theorem Sound.serves {d : DistT α} (h : Sound d) {p : α} (hp : p ∈ d.pipes.items) :
    d.Serves p := by
  have hidx : d.pipes.index p < d.eligible := by
    rw [h.eligible_eq]
    exact PipeArray.index_lt_size hp
  refine ⟨hp, hidx, ?_, ?_⟩
  · intro hm
    rw [h.active_eq hm]
    exact hidx
  · intro hm refuses
    -- the active pipes are all the attached ones
    have hall : d.pipes.items.take d.active = d.pipes.items := by
      rw [h.active_eq hm, h.eligible_eq, PipeArray.size, List.take_length]
    have hspec : Distributed refuses 0 _ (d.offers refuses) :=
      distribute_spec refuses h.nodup h.active_le_size
    rw [hspec.took.mem_iff, hspec.refused.mem_iff]
    cases hr : refuses p <;> simp [hall, hp, hr]

/-- The termination of another pipe leaves a pipe eligible. -/
theorem Sound.index_lt_terminated {d : DistT α} (h : Sound d) {p q : α} (hp : p ∈ d.pipes.items)
    (hq : q ∈ d.pipes.items) (hqp : q ≠ p) :
    (d.terminated q).pipes.index p < (d.terminated q).eligible := by
  -- the pipe is still attached, and all attached pipes are eligible
  have hp' : p ∈ (d.terminated q).pipes.items := by
    have hmem := (cons_terminated_items_perm hq).mem_iff.mpr hp
    exact (List.mem_cons.mp hmem).resolve_left hqp.symm
  exact ((h.terminated hq).serves hp').index_lt_eligible

omit [DecidableEq α] in
/-- In a sound distributor nothing but the pipes stands in the slots. -/
theorem Sound.holding {d : DistT α} (h : Sound d) : Sound (d.holding (d.pipes.items.map some)) := by
  refine ⟨h.nodup.map fun _ _ => Option.some.inj, h.active_le, ?_, h.active_eq, h.stray⟩
  rw [PipeArray.size, DistT.holding, List.length_map]
  exact h.eligible_eq

theorem Sound.noneStarved {w : World α β} (h : Sound w.dist) : NoneStarved w := by
  intro p hp _ items hitems
  obtain rfl := hitems.2 h.stray
  have hslot : ∀ {q}, q ∈ w.attached → some q ∈ w.dist.pipes.items.map some :=
    List.mem_map_of_mem
  refine ⟨h.holding.serves (hslot hp), ?_⟩
  intro q hq hqp
  apply h.holding.index_lt_terminated (hslot hp) (hslot hq)
  intro heq
  exact hqp (Option.some.inj heq)

/-- The pipe that is activated outside the array is attached and not refusing, and
nothing is known of its slot. -/
theorem not_noneStarved_of_activated {w v : World α β} {p : α}
    (h : step w (.activated p) = some v) (hstray : v.dist.pipes.stray = true) :
    ¬ NoneStarved v := by
  intro hnone
  obtain ⟨⟨hp, -⟩, rfl⟩ := step_activated_eq_some.mp h
  have hmem : p ∈ (w.dist.activated p).pipes.items := by
    rw [DistT.pipes_activated, PipeArray.items_swap]
    exact (Slots.swap_perm _ _ _).mem_iff.mpr hp
  have hrefusing : Function.update w.refusing p false p = false := Function.update_self ..
  -- there may be no pipe in any slot
  have hmay : (w.dist.activated p).pipes.MayHold
      (List.replicate (w.dist.activated p).pipes.size none) :=
    PipeArray.mayHold_of_stray hstray List.length_replicate
  obtain ⟨hserves, -⟩ := hnone p hmem hrefusing _ hmay
  exact absurd (List.eq_of_mem_replicate hserves.mem) (Option.some_ne_none p)

/-- **A run starves no subscriber exactly when it activates no pipe.**  Up to the first
`activated` every attached pipe, whether it refused a part or not, lies before
`eligible` and is offered the next message, and no termination of another pipe changes
that; the first `activated` exchanges its pipe with what lies behind the array. -/
theorem noneStarved_throughout_iff {es : List (Event α β)} {w : World α β}
    (h : run step World.init es = some w) :
    Throughout step NoneStarved World.init es ↔ ∀ e ∈ es, ¬ e.IsActivated := by
  constructor
  · intro hnone e he hact
    obtain ⟨pre, post, rfl⟩ := List.append_of_mem he
    obtain ⟨u, hu, huw⟩ := run_append_eq_some.mp h
    obtain ⟨v, huv, -⟩ := run_cons_eq_some.mp huw
    have hv : run step World.init (pre ++ [e]) = some v := run_concat_eq_some.mpr ⟨u, hu, huv⟩
    have hstray : v.dist.pipes.stray = true := stray_of_run hv ⟨e, by simp, hact⟩
    have hpre : pre ++ [e] <+: pre ++ e :: post := ⟨post, by simp⟩
    cases e with
    | activated p => exact not_noneStarved_of_activated huv hstray (hnone _ hpre v hv)
    | attach p => exact absurd hact id
    | terminated p => exact absurd hact id
    | send part msgMore refuses => exact absurd hact id
  · intro hes pre hpre v hv
    have hsound : Sound v.dist := by
      refine sound_of_run ?_ hv
      intro e he
      exact hes e (hpre.subset he)
    exact hsound.noneStarved

/-- Pipe 1 refuses a part, and pipe 0 is terminated before the next message. -/
def terminatedBesideRefusing : List (Event ℕ ℕ) :=
  [.attach 0, .attach 1, .attach 2, .send 10 false (· == 1), .terminated 0]

/-- Pipe 2 is still served. -/
theorem noneStarved_throughout_beside_refusing :
    ∃ w, run step World.init terminatedBesideRefusing = some w ∧
      w.attached = [1, 2] ∧ w.refusing 1 = true ∧ w.refusing 2 = false ∧
      (w.dist.holding [some 1, some 2]).Serves (some 2) := by
  refine ⟨_, rfl, rfl, rfl, rfl, ?_⟩
  have hrun : run step World.init terminatedBesideRefusing = some _ := rfl
  have hes : ∀ e ∈ terminatedBesideRefusing, ¬ e.IsActivated := by
    intro e he
    simp only [terminatedBesideRefusing, List.mem_cons, List.not_mem_nil, or_false] at he
    rcases he with rfl | rfl | rfl | rfl | rfl <;> exact id
  have h := (noneStarved_throughout_iff hrun).mpr hes
  exact (h.final hrun 2 (by decide) rfl _ (PipeArray.mayHold_map_some _)).1

/-- The activated pipe has changed places with what lay behind the array: it is attached and
not refusing, and if what stands in the only slot is no pipe, the distributor does not
serve it. -/
theorem activated_starves :
    ∃ w, run step World.init refusedAndActivated = some w ∧ w.attached = [0] ∧
      w.refusing 0 = false ∧ w.dist.pipes.MayHold [none] ∧
      ¬ (w.dist.holding [none]).Serves (some 0) ∧
      ¬ Throughout step NoneStarved World.init refusedAndActivated := by
  have hserves : ∀ d : DistT ℕ, ¬ (d.holding [none]).Serves (some 0) := by
    intro d h
    exact absurd h.mem (by simp [DistT.holding])
  have hrun : run step World.init refusedAndActivated = some _ := rfl
  have hmay : ∀ a : PipeArray ℕ, a.stray = true → a.size = 1 → a.MayHold [none] :=
    fun a h hsize => PipeArray.mayHold_of_stray h hsize.symm
  refine ⟨_, hrun, rfl, rfl, hmay _ rfl rfl, hserves _, ?_⟩
  intro h
  exact hserves _ (h.final hrun 0 (by decide) rfl [none] (hmay _ rfl rfl)).1

end PubDist
end ZmqIssues
