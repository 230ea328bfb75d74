import ZmqIssues.Dist.PrePatch

/-!
# Every callback of the distributor before the patch

`PrePatch` compares the two distributors while pipes are only attached.  Here the
distributor before the patch takes part in all of its callbacks, in any order.  A
pipe in `new_pipes` has no event sink yet, so that only the pipes of the array are
activated and terminated.

Before the patch `active` is the boundary between the pipes that can be written to
and those that refused a part, in the middle of a message as well.  Every callback
keeps it so except `terminated`, which lowers `active` by one and moves the last
pipe of the array into the slot that becomes free.

## Main definitions

* `OldWorld`, `oldStep` — the distributor before the patch among its pipes.
* `OldExact` — the active pipes are just those that can be written to.
* `OldSparing` — an event that terminates no pipe across `active`.

## Main results

* `oldExact_throughout_iff` — **`active` is exact throughout a run just if every
  termination is sparing.**
* `starved_behind_active` — a termination that is not leaves a pipe without any
  further part.
-/

namespace ZmqIssues
namespace PubDist

open List Machine

variable {α β : Type*}

/-! ### The distributor among its pipes -/

/-- A distributor before the patch, the pipes that refused a part and were not activated
since, and the ledger. -/
structure OldWorld (α β : Type*) where
  /-- The distributor. -/
  dist : OldDistT α
  /-- The pipes that have refused a part and were not activated since. -/
  refusing : α → Bool
  /-- What was sent and accepted. -/
  ledger : Ledger α β

namespace OldWorld

/-- The empty distributor. -/
def init : OldWorld α β := ⟨.init, fun _ => false, .init⟩

/-- The pipes attached to the distributor: those that wait for the end of the message,
and those of the array. -/
abbrev attached (w : OldWorld α β) : List α := w.dist.newPipes ++ w.dist.pipes.items

/-- The active pipes: those before `active`. -/
abbrev activePipes (w : OldWorld α β) : List α := w.dist.pipes.items.take w.dist.active

end OldWorld

variable [DecidableEq α]

/-- One event, when the environment can produce it.  Only the pipes of the array have the
distributor as their event sink. -/
def oldStep (w : OldWorld α β) : Event α β → Option (OldWorld α β)
  | .attach p =>
    if p ∈ w.attached then none
    else some ⟨w.dist.attach p, Function.update w.refusing p false, w.ledger.attach p⟩
  | .activated p =>
    if p ∈ w.dist.pipes.items ∧ w.refusing p = true then
      some { w with dist := w.dist.activated p, refusing := Function.update w.refusing p false }
    else none
  | .terminated p =>
    if p ∈ w.dist.pipes.items then some { w with dist := w.dist.terminated p } else none
  | .send part msgMore refuses =>
    if ∀ p ∈ w.attached, w.refusing p = true → refuses p = true then
      let s := w.dist.offers refuses
      some ⟨w.dist.send msgMore refuses, fun p => w.refusing p || decide (p ∈ s.refused),
        w.ledger.record part msgMore s.took⟩
    else none

theorem oldStep_attach_eq_some {w v : OldWorld α β} {p : α} :
    oldStep w (.attach p) = some v ↔ p ∉ w.attached ∧
      ⟨w.dist.attach p, Function.update w.refusing p false, w.ledger.attach p⟩ = v := by
  simp [oldStep]

theorem oldStep_activated_eq_some {w v : OldWorld α β} {p : α} :
    oldStep w (.activated p) = some v ↔ (p ∈ w.dist.pipes.items ∧ w.refusing p = true) ∧
      { w with
        dist := w.dist.activated p, refusing := Function.update w.refusing p false } = v := by
  simp [oldStep]

theorem oldStep_terminated_eq_some {w v : OldWorld α β} {p : α} :
    oldStep w (.terminated p) = some v ↔ p ∈ w.dist.pipes.items ∧
      { w with dist := w.dist.terminated p } = v := by
  simp [oldStep]

theorem oldStep_send_eq_some {w v : OldWorld α β} {part : β} {msgMore : Bool}
    {refuses : α → Bool} :
    oldStep w (.send part msgMore refuses) = some v ↔
      (∀ p ∈ w.attached, w.refusing p = true → refuses p = true) ∧
      ⟨w.dist.send msgMore refuses,
        fun p => w.refusing p || decide (p ∈ (w.dist.offers refuses).refused),
        w.ledger.record part msgMore (w.dist.offers refuses).took⟩ = v := by
  simp [oldStep]

/-! ### What each callback does to the array -/

/-- What the callbacks rely on: no pipe is listed twice, no index outside the array was
used, and the pipes in `new_pipes` wait for the end of a message and refused nothing. -/
structure OldShape (w : OldWorld α β) : Prop where
  nodup : w.attached.Nodup
  active_le : w.dist.active ≤ w.dist.pipes.size
  stray : w.dist.pipes.stray = false
  running : w.dist.terminating = false
  idle : w.dist.more = false → w.dist.newPipes = []
  fresh : ∀ p ∈ w.dist.newPipes, w.refusing p = false

omit [DecidableEq α] in
theorem oldShape_init : OldShape (OldWorld.init : OldWorld α β) :=
  ⟨List.nodup_nil, Nat.le_refl _, rfl, rfl, fun _ => rfl,
    fun _ hp => absurd hp List.not_mem_nil⟩

omit [DecidableEq α] in
theorem OldShape.items_nodup {w : OldWorld α β} (h : OldShape w) : w.dist.pipes.items.Nodup :=
  (List.nodup_append.mp h.nodup).2.1

omit [DecidableEq α] in
theorem OldShape.notMem_items {w : OldWorld α β} (h : OldShape w) {p : α}
    (hp : p ∈ w.dist.newPipes) : p ∉ w.dist.pipes.items := by
  intro hmem
  exact (List.nodup_append.mp h.nodup).2.2 p hp p hmem rfl

omit [DecidableEq α] in
theorem more_attach (d : OldDistT α) (p : α) : (d.attach p).more = d.more := by
  unfold OldDistT.attach
  dsimp only [OldDistT.plug]
  cases d.more <;> cases d.terminating <;> rfl

/-- A new pipe is added to the active ones between two messages, and to `new_pipes` in
the middle of one. -/
theorem OldShape.attach {w v : OldWorld α β} {p : α} (h : OldShape w)
    (hv : oldStep w (.attach p) = some v) :
    OldShape v ∧ v.attached ~ p :: w.attached ∧
      (∀ q, q ∈ v.dist.newPipes ↔ q ∈ w.dist.newPipes ∨ (w.dist.more = true ∧ q = p)) ∧
      ∀ q, q ∈ v.activePipes ↔ q ∈ w.activePipes ∨ (w.dist.more = false ∧ q = p) := by
  obtain ⟨hp, rfl⟩ := oldStep_attach_eq_some.mp hv
  have hfull : ∀ q ∈ w.attached, Function.update w.refusing p false q = w.refusing q := by
    intro q hq
    have hqp : q ≠ p := fun hqp => hp (hqp ▸ hq)
    exact Function.update_of_ne hqp _ _
  cases hm : w.dist.more with
  | true =>
    have hd : w.dist.attach p = { w.dist with newPipes := w.dist.newPipes ++ [p] } := by
      simp [OldDistT.attach, h.running, hm]
    rw [hd]
    have hperm : w.dist.newPipes ++ [p] ++ w.dist.pipes.items ~ p :: w.attached := by simp
    refine ⟨⟨?_, h.active_le, h.stray, h.running, ?_, ?_⟩, hperm, by simp, by simp⟩
    · exact hperm.nodup_iff.mpr (List.nodup_cons.mpr ⟨hp, h.nodup⟩)
    · intro hm'
      exact absurd (hm.symm.trans hm') (by simp)
    · intro q hq
      rcases List.mem_append.mp hq with hq | hq
      · exact (hfull q (List.mem_append_left _ hq)).trans (h.fresh q hq)
      · rw [List.mem_singleton.mp hq]
        exact Function.update_self _ _ _
  | false =>
    have hd : w.dist.attach p = w.dist.plug p := by
      have hrun : (w.dist.plug p).terminating = false := h.running
      simp [OldDistT.attach, hm, hrun]
    rw [hd]
    have hnew : (w.dist.plug p).newPipes = [] := h.idle hm
    have hperm : (w.dist.plug p).newPipes ++ (w.dist.plug p).pipes.items ~ p :: w.attached := by
      rw [hnew, OldWorld.attached, h.idle hm]
      exact plug_items_perm w.dist p
    have hsize : (w.dist.plug p).pipes.size = w.dist.pipes.size + 1 :=
      (plug_items_perm w.dist p).length_eq
    refine ⟨⟨?_, ?_, ?_, h.running, fun _ => hnew, ?_⟩, hperm, ?_, ?_⟩
    · exact hperm.nodup_iff.mpr (List.nodup_cons.mpr ⟨hp, h.nodup⟩)
    · exact hsize ▸ Nat.succ_le_succ h.active_le
    · have hlt : w.dist.active < w.dist.pipes.size + 1 := Nat.lt_succ_of_le h.active_le
      exact PipeArray.stray_swap_eq_false.mpr ⟨h.stray, by simpa using hlt, by simp⟩
    · intro q hq
      rw [hnew] at hq
      exact absurd hq List.not_mem_nil
    · intro q
      simp [hnew, h.idle hm]
    · intro q
      rw [OldWorld.activePipes, (take_active_plug_perm h.active_le p).mem_iff, List.mem_cons]
      simp [or_comm]

/-- A pipe behind the active ones joins them. -/
theorem OldShape.activated {w v : OldWorld α β} {p : α} (h : OldShape w)
    (hv : oldStep w (.activated p) = some v) (hpa : p ∉ w.activePipes) :
    OldShape v ∧ v.dist.pipes.items ~ w.dist.pipes.items ∧
      ∀ q, q ∈ v.activePipes ↔ q ∈ w.activePipes ∨ q = p := by
  obtain ⟨⟨hp, -⟩, rfl⟩ := oldStep_activated_eq_some.mp hv
  have hidx : w.dist.pipes.index p < w.dist.pipes.size := PipeArray.index_lt_size hp
  have hle : w.dist.active ≤ w.dist.pipes.index p := by
    rw [← Nat.not_lt]
    exact mt (List.mem_take_iff_idxOf_lt hp).mpr hpa
  have hperm : (w.dist.activated p).pipes.items ~ w.dist.pipes.items := Slots.swap_perm _ _ _
  have hsize : (w.dist.activated p).pipes.size = w.dist.pipes.size := hperm.length_eq
  refine ⟨⟨?_, ?_, ?_, h.running, h.idle, ?_⟩, hperm, ?_⟩
  · exact (hperm.append_left _).nodup_iff.mpr h.nodup
  · rw [hsize]
    exact Nat.lt_of_le_of_lt hle hidx
  · exact PipeArray.stray_swap_eq_false.mpr ⟨h.stray, hidx, Nat.lt_of_le_of_lt hle hidx⟩
  · intro q hq
    have hqp : q ≠ p := by
      intro hqp
      exact h.notMem_items (p := q) hq (hqp ▸ hp)
    exact (Function.update_of_ne hqp _ _).trans (h.fresh q hq)
  · intro q
    have hswap := Slots.take_succ_swap_perm hle (PipeArray.getElem?_index hp)
    rw [Slots.swap_comm] at hswap
    rw [OldWorld.activePipes]
    refine hswap.mem_iff.trans ?_
    rw [List.mem_cons, or_comm]

theorem terminated_eq {d : OldDistT α} (h : d.terminating = false) (p : α) :
    d.terminated p = { d with
      active := if d.pipes.index p < d.active then d.active - 1 else d.active,
      pipes := d.pipes.erase p } := by
  unfold OldDistT.terminated
  split <;> simp [h]

theorem OldShape.terminated {w v : OldWorld α β} {p : α} (h : OldShape w)
    (hv : oldStep w (.terminated p) = some v) :
    OldShape v ∧ p :: v.dist.pipes.items ~ w.dist.pipes.items ∧
      v.dist.newPipes = w.dist.newPipes := by
  obtain ⟨hp, rfl⟩ := oldStep_terminated_eq_some.mp hv
  rw [terminated_eq h.running]
  have hperm : p :: (w.dist.pipes.erase p).items ~ w.dist.pipes.items :=
    PipeArray.cons_erase_perm hp
  have hall : p :: (w.dist.newPipes ++ (w.dist.pipes.erase p).items) ~ w.attached :=
    perm_middle.symm.trans (hperm.append_left _)
  have hidx : w.dist.pipes.index p < w.dist.pipes.size := PipeArray.index_lt_size hp
  refine ⟨⟨?_, ?_, h.stray, h.running, h.idle, h.fresh⟩, hperm, rfl⟩
  · exact (List.nodup_cons.mp (hall.nodup_iff.mpr h.nodup)).2
  · have hle := h.active_le
    rw [PipeArray.size_erase]
    dsimp only
    split <;> omega

omit [DecidableEq α] in
/-- Plugging in pipes uses no index outside the array. -/
theorem stray_foldl_plug (ps : List α) {d : OldDistT α} (hle : d.active ≤ d.pipes.size) :
    (ps.foldl OldDistT.plug d).pipes.stray = d.pipes.stray := by
  induction ps generalizing d with
  | nil => rfl
  | cons p ps ih =>
    have hsize : (d.plug p).pipes.size = d.pipes.size + 1 := (plug_items_perm d p).length_eq
    have hle' : (d.plug p).active ≤ (d.plug p).pipes.size :=
      hsize ▸ Nat.succ_le_succ hle
    rw [List.foldl_cons, ih hle']
    have hlt : d.active < d.pipes.size + 1 := Nat.lt_succ_of_le hle
    simp [OldDistT.plug, PipeArray.swap, hlt]

/-- The pipes that take a part stay active, those that refuse it fall behind, and the new
pipes join when a multipart message ends. -/
theorem OldShape.send {w v : OldWorld α β} {part : β} {msgMore : Bool} {refuses : α → Bool}
    (h : OldShape w) (hv : oldStep w (.send part msgMore refuses) = some v) :
    OldShape v ∧ v.attached ~ w.attached ∧
      v.dist.newPipes = (if w.dist.more && !msgMore then [] else w.dist.newPipes) ∧
      (∀ q, q ∈ v.activePipes ↔ (q ∈ w.activePipes ∧ refuses q = false) ∨
        ((w.dist.more && !msgMore) = true ∧ q ∈ w.dist.newPipes)) ∧
      ∀ q, v.refusing q = false ↔
        w.refusing q = false ∧ (q ∈ w.activePipes → refuses q = false) := by
  obtain ⟨-, rfl⟩ := oldStep_send_eq_some.mp hv
  have hsent := send_spec h.items_nodup h.active_le msgMore refuses
  have hspec : Distributed refuses 0 _ (w.dist.offers refuses) :=
    distribute_spec refuses h.items_nodup h.active_le
  have hrefused : ∀ q, q ∈ (w.dist.offers refuses).refused ↔
      q ∈ w.activePipes ∧ refuses q = true := by
    intro q
    rw [hspec.refused.mem_iff]
    simp
  have hrefusing : ∀ q, (w.refusing q || decide (q ∈ (w.dist.offers refuses).refused)) = false ↔
      w.refusing q = false ∧ (q ∈ w.activePipes → refuses q = false) := by
    intro q
    simp [hrefused]
  have hstray : (w.dist.send msgMore refuses).pipes.stray = false := by
    cases hend : w.dist.more && !msgMore with
    | true =>
      simp only [OldDistT.send, hend, if_true, OldDistT.clearNewPipes]
      refine (stray_foldl_plug _ ?_).trans (hspec.stray.trans h.stray)
      exact hspec.active_le.trans (h.active_le.trans_eq hspec.items.length_eq.symm)
    | false =>
      simp only [OldDistT.send, hend, Bool.false_eq_true, if_false]
      exact hspec.stray.trans h.stray
  refine ⟨⟨hsent.all.nodup_iff.mpr h.nodup, hsent.active_le, hstray,
    hsent.terminating.trans h.running, ?_, ?_⟩, hsent.all, hsent.newPipes, hsent.take_active,
    hrefusing⟩
  · intro hm
    -- at the end of a message no new pipe is left
    obtain rfl : msgMore = false := hsent.more.symm.trans hm
    refine hsent.newPipes.trans ?_
    split
    · rfl
    · next hend => exact h.idle (by simpa using hend)
  · intro q hq
    have hold : q ∈ w.dist.newPipes := by
      have hnew : q ∈ if w.dist.more && !msgMore then [] else w.dist.newPipes :=
        hsent.newPipes ▸ hq
      split at hnew
      · exact absurd hnew List.not_mem_nil
      · exact hnew
    refine (hrefusing q).mpr ⟨h.fresh q hold, ?_⟩
    intro hact
    exact absurd (List.mem_of_mem_take hact) (h.notMem_items hold)

/-! ### The exact boundary -/

/-- The active pipes are just the pipes of the array that can be written to. -/
def OldExact (w : OldWorld α β) : Prop :=
  ∀ p ∈ w.dist.pipes.items, p ∈ w.activePipes ↔ w.refusing p = false

/-- The termination of a pipe keeps the other pipes on their side of `active`: all pipes
of the array are active, or the pipe's slot is not before the last active one. -/
def OldSpares (d : OldDistT α) (p : α) : Prop :=
  d.active = d.pipes.size ∨ d.active ≤ d.pipes.index p + 1

/-- No pipe is terminated across `active`. -/
def OldSparing (w : OldWorld α β) : Event α β → Prop
  | .terminated p => OldSpares w.dist p
  | _ => True

/-- The boundary and what it relies on. -/
def OldSound (w : OldWorld α β) : Prop := OldShape w ∧ OldExact w

theorem OldShape.mem_activePipes_terminated {w v : OldWorld α β} {p : α} (h : OldShape w)
    (hv : oldStep w (.terminated p) = some v) (hsp : OldSpares w.dist p) (q : α) :
    q ∈ v.activePipes ↔ q ∈ w.activePipes ∧ q ≠ p := by
  obtain ⟨hp, rfl⟩ := oldStep_terminated_eq_some.mp hv
  have hkeep := Slots.mem_take_overwriteLast h.items_nodup (PipeArray.getElem?_index hp) hsp q
  rw [← hkeep, terminated_eq h.running]
  exact Iff.rfl

/-- **Sparing events keep the boundary exact.** -/
theorem oldSound_step {w v : OldWorld α β} {e : Event α β} (hw : OldSound w)
    (hsp : OldSparing w e) (h : oldStep w e = some v) : OldSound v := by
  obtain ⟨hshape, hexact⟩ := hw
  cases e with
  | attach p =>
    obtain ⟨hshape', hperm, hnew, hactive⟩ := hshape.attach h
    obtain ⟨hp, rfl⟩ := oldStep_attach_eq_some.mp h
    refine ⟨hshape', ?_⟩
    intro q hq
    rw [hactive]
    have hqnew : q ∉ w.dist.newPipes ∧ (w.dist.more = true → q ≠ p) := by
      simpa [hnew] using mt hshape'.notMem_items (not_not.mpr hq)
    rcases List.mem_cons.mp (hperm.mem_iff.mp (List.mem_append_right _ hq)) with rfl | hq'
    · -- the new pipe is in the array between two messages only
      have hm : w.dist.more = false := by
        rw [← Bool.not_eq_true]
        intro hm
        exact hqnew.2 hm rfl
      exact iff_of_true (Or.inr ⟨hm, rfl⟩) (Function.update_self _ _ _)
    · have hqp : q ≠ p := fun hqp => hp (hqp ▸ hq')
      have hqi : q ∈ w.dist.pipes.items := (List.mem_append.mp hq').resolve_left hqnew.1
      have hfull : Function.update w.refusing p false q = w.refusing q :=
        Function.update_of_ne hqp _ _
      simpa [hqp, hfull] using hexact q hqi
  | activated p =>
    obtain ⟨⟨hp, hr⟩, hv⟩ := oldStep_activated_eq_some.mp h
    have hpa : p ∉ w.activePipes := by
      intro hmem
      exact Bool.false_ne_true (((hexact p hp).mp hmem).symm.trans hr)
    obtain ⟨hshape', hperm, hactive⟩ := hshape.activated h hpa
    refine ⟨hshape', ?_⟩
    intro q hq
    rw [hactive]
    subst hv
    by_cases hqp : q = p
    · exact iff_of_true (Or.inr hqp) (hqp ▸ Function.update_self _ _ _)
    · have hfull : Function.update w.refusing p false q = w.refusing q :=
        Function.update_of_ne hqp _ _
      simpa [hqp, hfull] using hexact q (hperm.mem_iff.mp hq)
  | terminated p =>
    obtain ⟨hshape', hperm, -⟩ := hshape.terminated h
    refine ⟨hshape', ?_⟩
    intro q hq
    have hqp : q ≠ p := by
      intro hqp
      have hnd := hperm.nodup_iff.mpr hshape.items_nodup
      exact (List.nodup_cons.mp hnd).1 (hqp ▸ hq)
    rw [hshape.mem_activePipes_terminated h hsp q]
    have hrefusing : v.refusing = w.refusing := by
      obtain ⟨-, rfl⟩ := oldStep_terminated_eq_some.mp h
      rfl
    rw [hrefusing, ← hexact q (hperm.mem_iff.mp (List.mem_cons_of_mem p hq))]
    exact and_iff_left hqp
  | send part msgMore refuses =>
    obtain ⟨hshape', hperm, hnew, hactive, hrefusing⟩ := hshape.send h
    refine ⟨hshape', ?_⟩
    intro q hq
    rw [hactive, hrefusing]
    have hqv : q ∉ v.dist.newPipes := mt hshape'.notMem_items (not_not.mpr hq)
    rcases List.mem_append.mp (hperm.mem_iff.mp (List.mem_append_right _ hq)) with hq' | hq'
    · -- the pipe was new, and joins the array now
      have hend : (w.dist.more && !msgMore) = true := by
        by_contra hend
        rw [hnew, if_neg hend] at hqv
        exact hqv hq'
      refine iff_of_true (Or.inr ⟨hend, hq'⟩) ⟨hshape.fresh q hq', ?_⟩
      intro hact
      exact absurd (List.mem_of_mem_take hact) (hshape.notMem_items hq')
    · have hqn : q ∉ w.dist.newPipes := fun hmem => hshape.notMem_items hmem hq'
      have hqe := hexact q hq'
      simp only [hqn, and_false, or_false]
      tauto

/-- A termination that is not sparing puts an active pipe behind `active`. -/
theorem OldSound.exists_dropped {w v : OldWorld α β} {p : α} (hw : OldSound w)
    (hv : oldStep w (.terminated p) = some v) (hsp : ¬ OldSpares w.dist p) :
    ∃ q ∈ w.activePipes, q ∈ v.dist.pipes.items ∧ v.refusing q = false ∧
      q ∉ v.activePipes := by
  obtain ⟨hshape, hexact⟩ := hw
  obtain ⟨hp, rfl⟩ := oldStep_terminated_eq_some.mp hv
  obtain ⟨q, hq, hqv, hqa⟩ := Slots.exists_notMem_take_overwriteLast hshape.items_nodup
    (PipeArray.getElem?_index hp) hshape.active_le hsp
  rw [terminated_eq hshape.running]
  exact ⟨q, hq, hqv, (hexact q (List.mem_of_mem_take hq)).mp hq, hqa⟩

omit [DecidableEq α] in
theorem oldSound_init : OldSound (OldWorld.init : OldWorld α β) :=
  ⟨oldShape_init, fun _ hp => absurd hp List.not_mem_nil⟩

/-- **The active pipes are just those that can be written to, throughout a run, exactly
when every termination of the run is sparing.** -/
theorem oldExact_throughout_iff {es : List (Event α β)} {w : OldWorld α β}
    (h : run oldStep OldWorld.init es = some w) :
    Throughout oldStep OldExact OldWorld.init es ↔ Along oldStep OldSparing OldWorld.init es := by
  refine throughout_iff_along (I := OldSound) (fun _ hw => hw.2) ?_ ?_ oldSound_init h
  · intro u e v hu hsp hv
    exact oldSound_step hu hsp hv
  · intro u e v hu hsp hv hexact
    cases e with
    | terminated p =>
      obtain ⟨q, -, hqv, hr, hqa⟩ := hu.exists_dropped hv hsp
      exact hqa ((hexact q hqv).mpr hr)
    | attach p => exact hsp trivial
    | activated p => exact hsp trivial
    | send part msgMore refuses => exact hsp trivial

/-- Pipe 1 refuses a part, and is activated in time before pipe 0 is terminated. -/
def activatedInTime : List (Event ℕ ℕ) :=
  [.attach 0, .attach 1, .send 10 false (· == 1), .activated 1, .terminated 0]

theorem oldExact_throughout_activatedInTime :
    (∃ w, run oldStep OldWorld.init activatedInTime = some w) ∧
      Throughout oldStep OldExact OldWorld.init activatedInTime := by
  have hrun : run oldStep OldWorld.init (activatedInTime.take 4) = some _ := rfl
  refine ⟨⟨_, rfl⟩, (oldExact_throughout_iff (w := _) rfl).mpr ?_⟩
  refine (along_concat hrun (.terminated 0)).mpr ⟨?_, ?_⟩
  · simp [activatedInTime, Along, OldSparing]
  · exact Or.inl rfl

/-! ### A pipe behind the boundary -/

/-- An event that terminates a pipe. -/
def Event.IsTerminated : Event α β → Prop
  | .terminated _ => True
  | _ => False

/-- A pipe that can be written to, but is not active. -/
structure Behind (w : OldWorld α β) (q : α) : Prop where
  shape : OldShape w
  mem : q ∈ w.dist.pipes.items
  willing : w.refusing q = false
  behind : q ∉ w.activePipes

/-- A part is not offered to a pipe behind the active ones, and whoever is active afterwards
can be written to. -/
theorem Behind.send {w v : OldWorld α β} {q : α} {part : β} {msgMore : Bool} {refuses : α → Bool}
    (hw : Behind w q) (h : oldStep w (.send part msgMore refuses) = some v) :
    (Behind v q ∧ ∀ r ∈ v.activePipes, v.refusing r = false) ∧
      v.ledger.took q = w.ledger.took q := by
  obtain ⟨hshape, hperm, hnew, hactive, hrefusing⟩ := hw.shape.send h
  have hqn : q ∉ w.dist.newPipes := fun hmem => hw.shape.notMem_items hmem hw.mem
  obtain ⟨hkeep, hv⟩ := oldStep_send_eq_some.mp h
  refine ⟨⟨⟨hshape, ?_, ?_, ?_⟩, ?_⟩, ?_⟩
  · refine (List.mem_append.mp (hperm.mem_iff.mpr (List.mem_append_right _ hw.mem))).resolve_left ?_
    rw [hnew]
    split
    · exact List.not_mem_nil
    · exact hqn
  · exact (hrefusing q).mpr ⟨hw.willing, fun hact => absurd hact hw.behind⟩
  · rw [hactive]
    rintro (⟨hact, -⟩ | ⟨-, hmem⟩)
    · exact hw.behind hact
    · exact hqn hmem
  · intro r hr
    rw [hrefusing]
    rcases (hactive r).mp hr with ⟨hact, hrr⟩ | ⟨-, hmem⟩
    · refine ⟨?_, fun _ => hrr⟩
      rw [← Bool.not_eq_true]
      intro hf
      have hatt : r ∈ w.attached := List.mem_append_right _ (List.mem_of_mem_take hact)
      exact Bool.false_ne_true (hrr.symm.trans (hkeep r hatt hf))
    · refine ⟨hw.shape.fresh r hmem, ?_⟩
      intro hact
      exact absurd (List.mem_of_mem_take hact) (hw.shape.notMem_items hmem)
  · have hnot : q ∉ (w.dist.offers refuses).took := by
      rw [OldDistT.offers, mem_took_distribute hw.shape.items_nodup hw.shape.active_le]
      exact fun hmem => hw.behind hmem.1
    rw [← hv]
    simp [Ledger.record, hnot]

/-- A pipe behind the active ones stays there, as long as no pipe is terminated and all
active pipes can be written to. -/
theorem behind_step {w v : OldWorld α β} {q : α} {e : Event α β}
    (hw : Behind w q ∧ ∀ r ∈ w.activePipes, w.refusing r = false) (he : ¬ e.IsTerminated)
    (h : oldStep w e = some v) :
    (Behind v q ∧ ∀ r ∈ v.activePipes, v.refusing r = false) ∧
      v.ledger.took q = w.ledger.took q := by
  obtain ⟨hq, hsettled⟩ := hw
  cases e with
  | attach p =>
    obtain ⟨hshape, hperm, hnew, hactive⟩ := hq.shape.attach h
    obtain ⟨hp, rfl⟩ := oldStep_attach_eq_some.mp h
    have hfull : ∀ r ∈ w.attached, Function.update w.refusing p false r = w.refusing r := by
      intro r hr
      have hrp : r ≠ p := fun hrp => hp (hrp ▸ hr)
      exact Function.update_of_ne hrp _ _
    have hqa : q ∈ w.attached := List.mem_append_right _ hq.mem
    have hqp : q ≠ p := fun hqp => hp (hqp ▸ hqa)
    refine ⟨⟨⟨hshape, ?_, (hfull q hqa).trans hq.willing, ?_⟩, ?_⟩, ?_⟩
    · have hmem := hperm.mem_iff.mpr (List.mem_cons_of_mem p hqa)
      refine (List.mem_append.mp hmem).resolve_left ?_
      rw [hnew]
      rintro (hmem | ⟨-, hqp'⟩)
      · exact hq.shape.notMem_items hmem hq.mem
      · exact hqp hqp'
    · rw [hactive]
      rintro (hact | ⟨-, hqp'⟩)
      · exact hq.behind hact
      · exact hqp hqp'
    · intro r hr
      rcases (hactive r).mp hr with hact | ⟨-, rfl⟩
      · exact (hfull r (List.mem_append_right _ (List.mem_of_mem_take hact))).trans
          (hsettled r hact)
      · exact Function.update_self _ _ _
    · exact Function.update_of_ne hqp _ _
  | activated p =>
    obtain ⟨⟨hp, hr⟩, hv⟩ := oldStep_activated_eq_some.mp h
    have hpa : p ∉ w.activePipes := by
      intro hmem
      exact Bool.false_ne_true ((hsettled p hmem).symm.trans hr)
    obtain ⟨hshape, hperm, hactive⟩ := hq.shape.activated h hpa
    subst hv
    have hqp : q ≠ p := by
      rintro rfl
      exact Bool.false_ne_true (hq.willing.symm.trans hr)
    refine ⟨⟨⟨hshape, hperm.mem_iff.mpr hq.mem, ?_, ?_⟩, ?_⟩, rfl⟩
    · exact (Function.update_of_ne hqp _ _).trans hq.willing
    · rw [hactive]
      rintro (hact | hqp')
      · exact hq.behind hact
      · exact hqp hqp'
    · intro r hr'
      rcases (hactive r).mp hr' with hact | rfl
      · have hrp : r ≠ p := fun hrp => hpa (hrp ▸ hact)
        exact (Function.update_of_ne hrp _ _).trans (hsettled r hact)
      · exact Function.update_self _ _ _
  | terminated p => exact absurd trivial he
  | send part msgMore refuses => exact hq.send h

theorem behind_of_run {es : List (Event α β)} {w v : OldWorld α β} {q : α}
    (hw : Behind w q ∧ ∀ r ∈ w.activePipes, w.refusing r = false)
    (he : ∀ e ∈ es, ¬ e.IsTerminated) (h : run oldStep w es = some v) :
    Behind v q ∧ v.ledger.took q = w.ledger.took q := by
  have hrun := invariant_of_along (C := fun _ e => ¬ e.IsTerminated)
    (I := fun u => (Behind u q ∧ ∀ r ∈ u.activePipes, u.refusing r = false) ∧
      u.ledger.took q = w.ledger.took q) ?_ ⟨hw, rfl⟩ (along_of_forall he w) h
  · exact ⟨hrun.1.1, hrun.2⟩
  · intro s e t hs hes hst
    obtain ⟨hb, htook⟩ := behind_step hs.1 hes hst
    exact ⟨hb, htook.trans hs.2⟩

/-- **A termination that is not sparing starves a pipe.**  If a part is sent behind it, some
attached pipe that can be written to is offered neither that part nor any later one, as
long as no other pipe is terminated: whatever is attached, activated or sent, it holds
what it held before. -/
theorem starved_behind_active {es : List (Event α β)} {w v u : OldWorld α β} {p : α} {part : β}
    {msgMore : Bool} {refuses : α → Bool} (hsparing : Along oldStep OldSparing OldWorld.init es)
    (h : run oldStep OldWorld.init es = some w) (hv : oldStep w (.terminated p) = some v)
    (hsp : ¬ OldSpares w.dist p) (hu : oldStep v (.send part msgMore refuses) = some u) :
    ∃ q ∈ w.attached, w.refusing q = false ∧
      ∀ (es' : List (Event α β)) (x : OldWorld α β), (∀ e ∈ es', ¬ e.IsTerminated) →
        run oldStep u es' = some x →
        q ∈ x.attached ∧ x.refusing q = false ∧ x.ledger.took q = w.ledger.took q := by
  have hw : OldSound w :=
    invariant_of_along (I := OldSound) (fun _ _ _ => oldSound_step) oldSound_init hsparing h
  obtain ⟨q, hq, hqv, hr, hqa⟩ := hw.exists_dropped hv hsp
  have hqi : q ∈ w.dist.pipes.items := List.mem_of_mem_take hq
  refine ⟨q, List.mem_append_right _ hqi, (hw.2 q hqi).mp hq, ?_⟩
  intro es' x he hx
  have hbehind : Behind v q := ⟨(hw.1.terminated hv).1, hqv, hr, hqa⟩
  obtain ⟨hstranded, htook⟩ := hbehind.send hu
  obtain ⟨hfinal, htook'⟩ := behind_of_run hstranded he hx
  have hledger : v.ledger = w.ledger := by
    obtain ⟨-, rfl⟩ := oldStep_terminated_eq_some.mp hv
    rfl
  exact ⟨List.mem_append_right _ hfinal.mem, hfinal.willing,
    htook'.trans (htook.trans (by rw [hledger]))⟩

/-- Pipe 2 refuses a part, and pipe 0 is terminated before the next one. -/
def droppedBesideRefusing : List (Event ℕ ℕ) :=
  [.attach 0, .attach 1, .attach 2, .send 10 false (· == 2)]

/-- Pipe 1 is left with the one part it was sent at first. -/
theorem starved_beside_refusing :
    ∃ w v u x, run oldStep OldWorld.init droppedBesideRefusing = some w ∧
      oldStep w (.terminated 0) = some v ∧ oldStep v (.send 11 false (· == 2)) = some u ∧
      run oldStep u [.activated 2, .send 12 false fun _ => false] = some x ∧
      ∃ q ∈ w.attached, w.refusing q = false ∧ q ∈ x.attached ∧ x.refusing q = false ∧
        x.ledger.took q = w.ledger.took q := by
  refine ⟨_, _, _, _, rfl, rfl, rfl, rfl, ?_⟩
  have hsparing : Along oldStep OldSparing OldWorld.init droppedBesideRefusing := by
    simp [droppedBesideRefusing, Along, OldSparing]
  have hbefore : run oldStep OldWorld.init droppedBesideRefusing = some _ := rfl
  obtain ⟨q, hq, hr, hlater⟩ := starved_behind_active (p := 0) hsparing hbefore rfl
    (by unfold OldSpares; decide) (show oldStep _ (.send 11 false (· == 2)) = some _ from rfl)
  refine ⟨q, hq, hr, hlater [.activated 2, .send 12 false fun _ => false] _ ?_ rfl⟩
  intro e he
  rcases List.mem_pair.mp he with rfl | rfl <;> exact id

end PubDist
end ZmqIssues
