import ZmqIssues.Dist.Callbacks

/-!
# Message atomicity before the patch

The defect of issue 191.  A pipe that is full when a message begins takes no part in
it.  Before the patch `activated` makes it active at once, in the middle of the
message as well, so that it is sent the rest of a message whose beginning it missed.

In every other respect the distributor before the patch is as good as the patched
one: it represents the same abstract distributor.

## Main definitions

* `OldRefusesAtStart` — a pipe begins to refuse at the first part of a message only.
* `OldClean` — a sparing event that activates no pipe in the middle of a message.
* `OldServes` — a distributor represents an abstract one that tears no message.

## Main results

* `oldServes_step` — on clean events the distributor refines the abstract one.
* `old_atomic_exactly` — **clean runs tear no message, and a pipe activated in the
  middle of one is sent its end alone.**
-/

namespace ZmqIssues
namespace PubDist

open List Machine

variable {α β : Type*} [DecidableEq α]

/-! ### Clean runs -/

/-- A pipe of the array starts refusing at the first part of a message only. -/
def OldRefusesAtStart (w : OldWorld α β) : Event α β → Prop
  | .send _ _ refuses =>
    w.dist.more = true → ∀ p ∈ w.dist.pipes.items, refuses p = true → w.refusing p = true
  | _ => True

/-- No pipe is activated in the middle of a message, and no pipe is terminated across
`active`. -/
def OldClean (w : OldWorld α β) : Event α β → Prop
  | .activated _ => w.dist.more = false
  | .terminated p => OldSpares w.dist p
  | _ => True

theorem OldClean.sparing {w : OldWorld α β} {e : Event α β} (h : OldClean w e) :
    OldSparing w e := by
  cases e with
  | terminated p => exact h
  | attach p => trivial
  | activated p => trivial
  | send part msgMore refuses => trivial

/-- What holds in a world reached by clean events: the distributor represents an abstract
one that tears no message. -/
structure OldServes (w : OldWorld α β) (f : Fanout α) : Prop where
  sound : OldSound w
  whole : Whole f w.ledger
  attached : ∀ p, p ∈ f.attached ↔ p ∈ w.attached
  taking : w.dist.more = true → ∀ p, p ∈ f.taking ↔ p ∈ w.activePipes
  more : f.more = w.dist.more

/-- The pipes that take the next part are those of the abstract distributor. -/
theorem OldServes.mem_took {w : OldWorld α β} {f : Fanout α} (h : OldServes w f)
    {refuses : α → Bool} (hkeep : ∀ p ∈ w.attached, w.refusing p = true → refuses p = true)
    (p : α) : p ∈ (w.dist.offers refuses).took ↔ p ∈ f.acceptors refuses := by
  rw [OldDistT.offers, mem_took_distribute h.sound.1.items_nodup h.sound.1.active_le,
    Fanout.mem_acceptors, h.more]
  apply and_congr_left
  intro hr
  cases hm : w.dist.more with
  | true =>
    rw [if_pos rfl]
    exact (h.taking hm p).symm
  | false =>
    rw [if_neg Bool.false_ne_true, h.attached]
    constructor
    · intro hp
      exact List.mem_append_right _ (List.mem_of_mem_take hp)
    · intro hp
      -- between two messages no pipe waits outside the array
      have hitems : p ∈ w.dist.pipes.items := by
        simpa [OldWorld.attached, h.sound.1.idle hm] using hp
      refine (h.sound.2 p hitems).mpr ?_
      rw [← Bool.not_eq_true]
      intro hf
      exact Bool.false_ne_true (hr.symm.trans (hkeep p hp hf))

/-- **On clean events the distributor before the patch refines the abstract one.** -/
theorem oldServes_step {w v : OldWorld α β} {e : Event α β} {f : Fanout α} (hw : OldServes w f)
    (hstart : OldRefusesAtStart w e) (hclean : OldClean w e) (h : oldStep w e = some v) :
    ∃ f', OldServes v f' := by
  have hsound : OldSound v := oldSound_step hw.sound hclean.sparing h
  cases e with
  | attach p =>
    obtain ⟨-, hperm, -, hactive⟩ := hw.sound.1.attach h
    obtain ⟨hp, rfl⟩ := oldStep_attach_eq_some.mp h
    have hpf : p ∉ f.attached := mt (hw.attached p).mp hp
    have hmore : (w.dist.attach p).more = w.dist.more := more_attach w.dist p
    refine ⟨f.attach p, hsound, hw.whole.attach hpf, ?_, ?_, hw.more.trans hmore.symm⟩
    · intro q
      rw [hperm.mem_iff, List.mem_cons, ← hw.attached]
      exact Iff.rfl
    · intro hm q
      have hm' : w.dist.more = true := hmore.symm.trans hm
      have htaking : q ∈ (f.attach p).taking ↔ q ∈ w.activePipes := hw.taking hm' q
      rw [hactive, hm']
      simpa using htaking
  | activated p =>
    have hm : w.dist.more = false := hclean
    obtain ⟨⟨hp, hr⟩, rfl⟩ := oldStep_activated_eq_some.mp h
    have hperm : (w.dist.activated p).pipes.items ~ w.dist.pipes.items := Slots.swap_perm _ _ _
    refine ⟨f, hsound, hw.whole, ?_, ?_, hw.more⟩
    · intro q
      rw [hw.attached]
      exact (hperm.append_left _).mem_iff.symm
    · intro hm'
      exact absurd (hm.symm.trans hm') (by simp)
  | terminated p =>
    obtain ⟨-, hperm, hnew⟩ := hw.sound.1.terminated h
    have hactive := hw.sound.1.mem_activePipes_terminated h hclean
    have hall : p :: v.attached ~ w.attached := by
      rw [OldWorld.attached, hnew]
      exact perm_middle.symm.trans (hperm.append_left _)
    obtain ⟨hp, rfl⟩ := oldStep_terminated_eq_some.mp h
    have hmore : (w.dist.terminated p).more = w.dist.more := by
      rw [terminated_eq hw.sound.1.running]
    refine ⟨f.detach p, hsound, hw.whole.detach p, ?_, ?_, hw.more.trans hmore.symm⟩
    · intro q
      have hnd := List.nodup_cons.mp (hall.nodup_iff.mpr hw.sound.1.nodup)
      constructor
      · intro h
        obtain ⟨hq, hqp⟩ := h
        exact (List.mem_cons.mp (hall.mem_iff.mpr ((hw.attached q).mp hq))).resolve_left hqp
      · intro hq
        refine ⟨(hw.attached q).mpr (hall.mem_iff.mp (List.mem_cons_of_mem p hq)), ?_⟩
        intro hqp
        exact hnd.1 (hqp ▸ hq)
    · intro hm q
      rw [hactive, ← hw.taking (hmore.symm.trans hm)]
      exact Iff.rfl
  | send part msgMore refuses =>
    obtain ⟨-, hperm, -, hactive, -⟩ := hw.sound.1.send h
    obtain ⟨hkeep, rfl⟩ := oldStep_send_eq_some.mp h
    have hacc := hw.mem_took hkeep
    refine ⟨f.send msgMore refuses, hsound, ?_, ?_, ?_, rfl⟩
    · refine hw.whole.send ?_ hacc part msgMore
      intro hm q hq
      -- a pipe in the middle of a message has refused nothing, and does not begin now
      have hq' : q ∈ w.activePipes := (hw.taking (hw.more ▸ hm) q).mp hq
      have hqi : q ∈ w.dist.pipes.items := List.mem_of_mem_take hq'
      rw [← Bool.not_eq_true]
      intro hr
      have := hstart (hw.more ▸ hm) q hqi hr
      rw [(hw.sound.2 q hqi).mp hq'] at this
      exact Bool.false_ne_true this
    · intro q
      rw [hperm.mem_iff]
      exact hw.attached q
    · intro hm q
      obtain rfl : msgMore = true := hm
      rw [hactive]
      refine (hacc q).symm.trans ?_
      rw [OldDistT.offers, mem_took_distribute hw.sound.1.items_nodup hw.sound.1.active_le]
      simp

omit [DecidableEq α] in
theorem oldServes_init : OldServes (OldWorld.init : OldWorld α β) Fanout.init :=
  ⟨oldSound_init, whole_init, by simp [Fanout.init, OldWorld.init, OldDistT.init, PipeArray.empty],
    fun h => absurd h (by simp [OldWorld.init, OldDistT.init]), rfl⟩

theorem oldServes_of_run {es : List (Event α β)} {w : OldWorld α β}
    (hstart : Along oldStep OldRefusesAtStart OldWorld.init es)
    (hclean : Along oldStep OldClean OldWorld.init es)
    (h : run oldStep OldWorld.init es = some w) : ∃ f, OldServes w f := by
  refine invariant_of_along (I := fun w : OldWorld α β => ∃ f, OldServes w f)
    (C := fun w e => OldRefusesAtStart w e ∧ OldClean w e) ?_ ⟨_, oldServes_init⟩
    (hstart.and hclean) h
  intro w e v hw hcond hv
  obtain ⟨f, hf⟩ := hw
  obtain ⟨hs, hc⟩ := hcond
  exact oldServes_step hf hs hc hv

/-- A pipe activated in the middle of a message holds whole messages only, and takes the
next part unless it refuses it. -/
theorem OldServes.activated {w v : OldWorld α β} {f : Fanout α} {p : α} (hw : OldServes w f)
    (hm : w.dist.more = true) (hv : oldStep w (.activated p) = some v) :
    v.ledger = w.ledger ∧ (∃ ms, ms <+ w.ledger.done ∧ w.ledger.took p = ms.flatten) ∧
      ∀ refuses, refuses p = false → p ∈ (v.dist.offers refuses).took := by
  obtain ⟨⟨hp, hrp⟩, hvw⟩ := oldStep_activated_eq_some.mp hv
  have hpa : p ∉ w.activePipes := by
    intro hmem
    exact Bool.false_ne_true (((hw.sound.2 p hp).mp hmem).symm.trans hrp)
  obtain ⟨hshape, -, hactive⟩ := hw.sound.1.activated hv hpa
  have hpt : p ∉ f.taking := mt (hw.taking hm p).mp hpa
  have hpf : p ∈ f.attached := (hw.attached p).mpr (List.mem_append_right _ hp)
  refine ⟨hvw ▸ rfl, hw.whole.waiting p hpf fun _ => hpt, ?_⟩
  intro refuses hr
  rw [OldDistT.offers, mem_took_distribute hshape.items_nodup hshape.active_le]
  exact ⟨(hactive p).mpr (Or.inr rfl), hr⟩

/-- If the parts can be told apart, the pipe then holds a torn message: it has not accepted
the parts before. -/
theorem OldServes.not_atomic_of_activated {w v u : OldWorld α β} {f : Fanout α} {p : α} {part : β}
    {msgMore : Bool} {refuses : α → Bool} (hw : OldServes w f) (hm : w.dist.more = true)
    (hv : oldStep w (.activated p) = some v) (hr : refuses p = false)
    (hu : oldStep v (.send part msgMore refuses) = some u)
    (hnd : (w.ledger.done.flatten ++ (w.ledger.cur ++ [part])).Nodup) : ¬ u.ledger.Atomic p := by
  obtain ⟨hledger, ⟨ms, hms, htook⟩, haccepts⟩ := hw.activated hm hv
  have hfm : f.more = true := hw.more.trans hm
  obtain ⟨c, hc⟩ := List.exists_mem_of_ne_nil _ (hw.whole.cur_ne_nil hfm)
  have hct : c ∉ w.ledger.took p := by
    rw [htook]
    intro hmem
    obtain ⟨m, hmm, hcm⟩ := List.mem_flatten.mp hmem
    exact List.disjoint_of_nodup_append hnd (List.mem_flatten.mpr ⟨m, hms.subset hmm, hcm⟩)
      (List.mem_append_left _ hc)
  obtain ⟨-, rfl⟩ := oldStep_send_eq_some.mp hu
  rw [← hledger] at hnd hc hct
  exact Ledger.not_atomic_record_late hnd hc hct (haccepts refuses hr)

/-- **The distributor before the patch tears no message exactly as far as no pipe is
activated in the middle of one**, and none is terminated across `active`.  Every run of
clean events keeps every message whole for every attached pipe.  A pipe activated in the
middle of a message holds a torn one as soon as it accepts the next part. -/
theorem old_atomic_exactly :
    (∀ es : List (Event α β), Along oldStep OldRefusesAtStart OldWorld.init es →
      Along oldStep OldClean OldWorld.init es →
        Throughout oldStep (fun w => ∀ p ∈ w.attached, w.ledger.Atomic p) OldWorld.init es) ∧
    (∀ (es : List (Event α β)) (w v u : OldWorld α β) (p : α) (part : β) (msgMore : Bool)
      (refuses : α → Bool), Along oldStep OldRefusesAtStart OldWorld.init es →
      Along oldStep OldClean OldWorld.init es → run oldStep OldWorld.init es = some w →
      oldStep w (.activated p) = some v → w.dist.more = true → refuses p = false →
      oldStep v (.send part msgMore refuses) = some u →
      (w.ledger.done.flatten ++ (w.ledger.cur ++ [part])).Nodup → ¬ u.ledger.Atomic p) := by
  constructor
  · intro es hstart hclean pre hpre w hw p hp
    obtain ⟨f, hf⟩ := oldServes_of_run (hstart.of_isPrefix hpre) (hclean.of_isPrefix hpre) hw
    exact hf.whole.atomic ((hf.attached p).mpr hp)
  · intro es w v u p part msgMore refuses hstart hclean h hv hm hr hu hnd
    obtain ⟨f, hf⟩ := oldServes_of_run hstart hclean h
    exact hf.not_atomic_of_activated hm hv hr hu hnd

/-- Pipe 0 is full when a message begins, and is activated before the message ends. -/
def activatedMidMessage : List (Event ℕ ℕ) :=
  [.attach 0, .attach 1, .send 10 false fun _ => false, .send 20 true (· == 0)]

/-- It is sent the end of the message without its beginning. -/
theorem torn_by_activation :
    ∃ w v u, run oldStep OldWorld.init activatedMidMessage = some w ∧
      (∀ p ∈ w.attached, w.ledger.Atomic p) ∧ oldStep w (.activated 0) = some v ∧
      oldStep v (.send 21 false fun _ => false) = some u ∧ u.ledger.took 0 = [10, 21] ∧
      ¬ u.ledger.Atomic 0 := by
  have hbefore : run oldStep OldWorld.init (activatedMidMessage.take 3) = some _ := rfl
  have hstart : Along oldStep OldRefusesAtStart OldWorld.init activatedMidMessage := by
    refine (along_concat hbefore (.send 20 true (· == 0))).mpr ⟨?_, ?_⟩
    · simp [activatedMidMessage, Along, OldRefusesAtStart]
    · intro hm
      exact absurd hm (by decide)
  have hclean : Along oldStep OldClean OldWorld.init activatedMidMessage := by
    simp [activatedMidMessage, Along, OldClean]
  refine ⟨_, _, _, rfl, ?_, rfl, rfl, rfl, ?_⟩
  · exact old_atomic_exactly.1 activatedMidMessage hstart hclean _ List.prefix_rfl _ rfl
  · exact old_atomic_exactly.2 activatedMidMessage _ _ _ 0 21 false (fun _ => false) hstart hclean
      rfl rfl rfl rfl rfl (by decide)

end PubDist
end ZmqIssues
