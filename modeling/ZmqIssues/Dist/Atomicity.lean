import ZmqIssues.Dist.Bounds

/-!
# Message atomicity of the patched distributor

The pipes before `active` are meant to be those that took every part of the
message in progress.  `attach` and a refusal keep it so.  `terminated` does not:
`erase` moves the last pipe of the array into the slot of the one that is gone,
and `active` is lowered by one.  If the slot lies before `active` and the last
pipe does not, a pipe that missed the beginning of the message is now offered the
rest of it, and the pipe that stood last before `active` misses the rest.

## Main definitions

* `Refines` — a distributor represents an abstract one.
* `RefusesAtStart` — a pipe begins to refuse at the first part of a message only.
* `Clean` — an event that activates no pipe, and exchanges no pipe across `active`.

## Main results

* `serves_step` — on clean events the distributor refines the abstract one.
* `atomic_of_clean` — **clean runs tear no message.**
* `torn_of_not_clean` — a pipe terminated across `active` tears the message in
  progress at the next part.
-/

namespace ZmqIssues
namespace PubDist

open List Machine

variable {α β : Type*} [DecidableEq α]

/-! ### The distributor as an abstract one -/

/-- A distributor represents an abstract one: its array holds the attached pipes, and
in the middle of a message those before `active` take part in it. -/
structure Refines (d : DistT α) (f : Fanout α) : Prop where
  sound : Sound d
  attached : ∀ p, p ∈ f.attached ↔ p ∈ d.pipes.items
  taking : d.more = true → ∀ p, p ∈ f.taking ↔ p ∈ d.pipes.items.take d.active
  more : f.more = d.more

omit [DecidableEq α] in
theorem refines_init : Refines (DistT.init : DistT α) Fanout.init :=
  ⟨sound_init, by simp [Fanout.init, DistT.init, PipeArray.empty],
    fun h => absurd h (by simp [DistT.init]), rfl⟩

omit [DecidableEq α] in
/-- Between two messages all attached pipes are active. -/
theorem Sound.take_active {d : DistT α} (h : Sound d) (hm : d.more = false) :
    d.pipes.items.take d.active = d.pipes.items := by
  rw [h.active_eq hm, h.eligible_eq, PipeArray.size, List.take_length]

/-- The pipes that take the next part are the same. -/
theorem Refines.mem_took {d : DistT α} {f : Fanout α} (h : Refines d f) (refuses : α → Bool)
    (p : α) : p ∈ (d.offers refuses).took ↔ p ∈ f.acceptors refuses := by
  rw [DistT.offers, mem_took_distribute h.sound.nodup h.sound.active_le_size,
    Fanout.mem_acceptors, h.more]
  apply and_congr_left
  intro _
  cases hm : d.more with
  | true => rw [if_pos rfl, h.taking hm]
  | false => rw [if_neg Bool.false_ne_true, h.attached, h.sound.take_active hm]

omit [DecidableEq α] in
theorem Refines.attach {d : DistT α} {f : Fanout α} (h : Refines d f) {p : α}
    (hp : p ∉ d.pipes.items) : Refines (d.attach p) (f.attach p) := by
  refine ⟨h.sound.attach hp, ?_, ?_, ?_⟩
  · intro q
    rw [(attach_items_perm d p).mem_iff, List.mem_cons, ← h.attached]
    exact Iff.rfl
  · intro hm q
    -- in the middle of a message the new pipe stays behind `active`
    rw [DistT.more_attach] at hm
    have hle : d.active ≤ d.pipes.size := h.sound.active_le_size
    have hel : d.eligible = d.pipes.size := h.sound.eligible_eq
    rw [DistT.pipes_attach, DistT.active_attach, if_pos hm, if_pos hm, PipeArray.items_swap,
      Slots.take_swap_of_le (by omega) hle, PipeArray.items_pushBack,
      List.take_append_of_le_length hle]
    exact h.taking hm q
  · rw [DistT.more_attach]
    exact h.more

/-- The termination of a pipe keeps the other pipes on their side of `active`: all
attached pipes are active, or the pipe's slot is not before the last active one. -/
def Spares (d : DistT α) (p : α) : Prop :=
  d.active = d.pipes.size ∨ d.active ≤ d.pipes.index p + 1

theorem mem_take_terminated {d : DistT α} {p : α} (hd : Sound d) (hp : p ∈ d.pipes.items)
    (hsp : Spares d p) (q : α) :
    q ∈ (d.terminated p).pipes.items.take (d.terminated p).active ↔
      q ∈ d.pipes.items.take d.active ∧ q ≠ p := by
  have hidx : d.pipes.index p < d.pipes.size := PipeArray.index_lt_size hp
  have hslot : d.pipes.items[d.pipes.index p]? = some p := PipeArray.getElem?_index hp
  have hperm := cons_terminated_items_perm hp
  have hnd : (p :: (d.terminated p).pipes.items).Nodup := hperm.nodup_iff.mpr hd.nodup
  have hne : ∀ q ∈ (d.terminated p).pipes.items, q ≠ p := by
    intro q hq hqp
    exact (List.nodup_cons.mp hnd).1 (hqp ▸ hq)
  by_cases hall : d.active = d.pipes.size
  · -- all pipes are active, before and after
    have hactive : (d.terminated p).active = (d.terminated p).pipes.items.length := by
      have hsz : (d.terminated p).pipes.items.length = d.pipes.size - 1 := size_terminated d p
      rw [DistT.active_terminated, if_pos (by omega), hsz, hall]
    rw [hactive, hall, List.take_length, PipeArray.size, List.take_length]
    constructor
    · intro hq
      exact ⟨hperm.mem_iff.mp (List.mem_cons_of_mem p hq), hne q hq⟩
    · intro h
      obtain ⟨hq, hqp⟩ := h
      exact (List.mem_cons.mp (hperm.mem_iff.mpr hq)).resolve_left hqp
  · have hle : d.active ≤ d.pipes.index p + 1 := hsp.resolve_left hall
    rw [DistT.pipes_terminated, DistT.active_terminated, PipeArray.items_erase]
    rcases Nat.lt_or_ge (d.pipes.index p) d.active with hlt | hge
    · -- the pipe is the last active one
      have hk : d.active = d.pipes.index p + 1 := by omega
      rw [if_pos hlt, hk, Nat.add_sub_cancel,
        Slots.take_overwriteLast_of_le (Nat.le_refl _) hidx, List.take_add_one, hslot]
      have hnot : p ∉ d.pipes.items.take (d.pipes.index p) := by
        intro hmem
        exact absurd ((List.mem_take_iff_idxOf_lt hp).mp hmem) (Nat.lt_irrefl _)
      simp only [Option.toList_some, List.mem_append, List.mem_singleton]
      constructor
      · intro hq
        exact ⟨Or.inl hq, fun hqp => hnot (hqp ▸ hq)⟩
      · intro h
        rcases h with ⟨hq | hq, hqp⟩
        · exact hq
        · exact absurd hq hqp
    · -- the pipe is behind the active ones
      rw [if_neg (by omega), Slots.take_overwriteLast_of_le hge hidx]
      have hnot : p ∉ d.pipes.items.take d.active := by
        intro hmem
        exact absurd ((List.mem_take_iff_idxOf_lt hp).mp hmem) (Nat.not_lt.mpr hge)
      exact ⟨fun hq => ⟨hq, fun hqp => hnot (hqp ▸ hq)⟩, And.left⟩

theorem Refines.terminated {d : DistT α} {f : Fanout α} (h : Refines d f) {p : α}
    (hp : p ∈ d.pipes.items) (hsp : d.more = true → Spares d p) :
    Refines (d.terminated p) (f.detach p) := by
  refine ⟨h.sound.terminated hp, ?_, ?_, ?_⟩
  · intro q
    have hperm := cons_terminated_items_perm hp
    have hnd := List.nodup_cons.mp (hperm.nodup_iff.mpr h.sound.nodup)
    constructor
    · intro h
      obtain ⟨hq, hqp⟩ := h
      exact (List.mem_cons.mp (hperm.mem_iff.mpr ((h.attached q).mp hq))).resolve_left hqp
    · intro hq
      refine ⟨(h.attached q).mpr (hperm.mem_iff.mp (List.mem_cons_of_mem p hq)), ?_⟩
      intro hqp
      exact hnd.1 (hqp ▸ hq)
  · intro hm q
    rw [DistT.more_terminated] at hm
    rw [mem_take_terminated h.sound hp (hsp hm), ← h.taking hm]
    exact Iff.rfl
  · rw [DistT.more_terminated]
    exact h.more

theorem Refines.send {d : DistT α} {f : Fanout α} (h : Refines d f) (msgMore : Bool)
    (refuses : α → Bool) : Refines (d.send msgMore refuses) (f.send msgMore refuses) := by
  refine ⟨h.sound.send msgMore refuses, ?_, ?_, rfl⟩
  · intro q
    rw [(send_items_perm d msgMore refuses).mem_iff, ← h.attached]
    exact Iff.rfl
  · intro hm q
    -- the pipes that took the part are the active ones behind it
    rw [DistT.more_send] at hm
    rw [DistT.pipes_send, DistT.active_send, if_pos hm, DistT.offers,
      mem_take_distribute h.sound.nodup h.sound.active_le_size,
      ← mem_took_distribute h.sound.nodup h.sound.active_le_size]
    exact (h.mem_took refuses q).symm

/-! ### Clean runs -/

/-- A pipe starts refusing at the first part of a message only: the high-water mark is
counted in whole messages. -/
def RefusesAtStart (w : World α β) : Event α β → Prop
  | .send _ _ refuses =>
    w.dist.more = true → ∀ p ∈ w.attached, refuses p = true → w.refusing p = true
  | _ => True

/-- No pipe is activated, and a pipe terminated in the middle of a message keeps the
others on their side of `active`. -/
def Clean (w : World α β) : Event α β → Prop
  | .activated _ => False
  | .terminated p => w.dist.more = true → Spares w.dist p
  | _ => True

/-- What holds in a world reached by clean events: its distributor represents an
abstract one that tears no message, and whose pipes in the middle of a message have
refused nothing. -/
def Serves (w : World α β) (f : Fanout α) : Prop :=
  Refines w.dist f ∧ Whole f w.ledger ∧
    (f.more = true → ∀ p ∈ f.taking, w.refusing p = false)

/-- **On clean events the distributor refines the abstract one.** -/
theorem serves_step {w v : World α β} {e : Event α β} {f : Fanout α} (hw : Serves w f)
    (hstart : RefusesAtStart w e) (hclean : Clean w e) (h : step w e = some v) :
    ∃ f', Serves v f' := by
  obtain ⟨href, hwhole, htaking⟩ := hw
  cases e with
  | attach p =>
    obtain ⟨hp, rfl⟩ := step_attach_eq_some.mp h
    have hpf : p ∉ f.attached := mt (href.attached p).mp hp
    refine ⟨f.attach p, href.attach hp, hwhole.attach hpf, ?_⟩
    intro hm q hq
    have hqp : q ≠ p := fun hqp => hpf (hqp ▸ hwhole.taking_subset hq)
    simpa [Function.update_of_ne hqp] using htaking hm q hq
  | activated p => exact absurd hclean id
  | terminated p =>
    obtain ⟨hp, rfl⟩ := step_terminated_eq_some.mp h
    refine ⟨f.detach p, href.terminated hp hclean, hwhole.detach p, ?_⟩
    intro hm q hq
    exact htaking hm q hq.1
  | send part msgMore refuses =>
    obtain ⟨hkeep, rfl⟩ := step_send_eq_some.mp h
    refine ⟨f.send msgMore refuses, href.send msgMore refuses, ?_, ?_⟩
    · refine hwhole.send ?_ (href.mem_took refuses) part msgMore
      intro hm q hq
      -- a pipe in the middle of a message has refused nothing, and does not begin now
      have hq' : q ∈ w.attached := (href.attached q).mp (hwhole.taking_subset hq)
      rw [← Bool.not_eq_true]
      intro hr
      have := hstart (href.more ▸ hm) q hq' hr
      rw [htaking hm q hq] at this
      exact Bool.false_ne_true this
    · intro _ q hq
      -- whoever accepted this part has not refused one
      obtain ⟨hmem, hr⟩ := Fanout.mem_acceptors.mp hq
      have hq' : q ∈ w.attached := by
        split at hmem
        · exact (href.attached q).mp (hwhole.taking_subset hmem)
        · exact (href.attached q).mp hmem
      have hspec : Distributed refuses 0 _ (w.dist.offers refuses) :=
        distribute_spec refuses href.sound.nodup href.sound.active_le_size
      have hold : w.refusing q = false := by
        rw [← Bool.not_eq_true]
        intro hrq
        rw [hkeep q hq' hrq] at hr
        exact Bool.false_ne_true hr.symm
      have hnew : q ∉ (w.dist.offers refuses).refused := by
        rw [hspec.refused.mem_iff]
        simp [hr]
      simp [hold, hnew]

theorem Clean.not_isActivated {w : World α β} {e : Event α β} (h : Clean w e) :
    ¬ e.IsActivated := by
  cases e with
  | activated p => exact absurd h id
  | attach p => exact id
  | terminated p => exact id
  | send part msgMore refuses => exact id

theorem sound_of_clean {es : List (Event α β)} {w : World α β}
    (hclean : Along step Clean World.init es) (h : run step World.init es = some w) :
    Sound w.dist :=
  invariant_of_along (I := fun w : World α β => Sound w.dist)
    (fun _ _ _ hw he => sound_step hw he.not_isActivated) sound_init hclean h

theorem serves_of_run {es : List (Event α β)} {w : World α β}
    (hstart : Along step RefusesAtStart World.init es) (hclean : Along step Clean World.init es)
    (h : run step World.init es = some w) : ∃ f, Serves w f := by
  refine invariant_of_along (I := fun w : World α β => ∃ f, Serves w f)
    (C := fun w e => RefusesAtStart w e ∧ Clean w e) ?_ ?_ (hstart.and hclean) h
  · intro w e v hw hcond hv
    obtain ⟨f, hf⟩ := hw
    obtain ⟨hs, hc⟩ := hcond
    exact serves_step hf hs hc hv
  · exact ⟨Fanout.init, refines_init, whole_init, fun hm => absurd hm (by simp [Fanout.init])⟩

/-- **Clean runs tear no message.** -/
theorem atomic_of_clean {es : List (Event α β)} (hstart : Along step RefusesAtStart World.init es)
    (hclean : Along step Clean World.init es) :
    Throughout step (fun w => ∀ p ∈ w.attached, w.ledger.Atomic p) World.init es := by
  intro pre hpre w hw p hp
  obtain ⟨f, href, hwhole, -⟩ :=
    serves_of_run (hstart.of_isPrefix hpre) (hclean.of_isPrefix hpre) hw
  exact hwhole.atomic ((href.attached p).mpr hp)

/-! ### Torn messages -/

/-- A pipe terminated in the middle of a message puts the last active pipe behind
`active`, unless the others keep their side. -/
theorem exists_dropped {d : DistT α} (hd : Sound d) {p : α} (hp : p ∈ d.pipes.items)
    (hsp : ¬ Spares d p) : ∃ q, q ∈ d.pipes.items.take d.active ∧
      q ∈ (d.terminated p).pipes.items ∧
      q ∉ (d.terminated p).pipes.items.take (d.terminated p).active := by
  have hle : d.active ≤ d.pipes.items.length := hd.active_le_size
  obtain ⟨hne, hidx⟩ : d.active ≠ d.pipes.items.length ∧ d.pipes.index p + 1 < d.active := by
    unfold Spares PipeArray.size at hsp
    omega
  obtain ⟨k, hk⟩ : ∃ k, d.active = k + 1 := ⟨d.active - 1, by omega⟩
  have hkl : k < d.pipes.items.length := by omega
  have hslot : (d.terminated p).pipes.items[k]? = some d.pipes.items[k] := by
    rw [DistT.pipes_terminated, PipeArray.items_erase,
      Slots.getElem?_overwriteLast_of_ne (by omega) (by omega), List.getElem?_eq_getElem hkl]
  have hmem : d.pipes.items[k] ∈ (d.terminated p).pipes.items := List.mem_of_getElem? hslot
  have hactive : (d.terminated p).active = k := by
    rw [DistT.active_terminated, if_pos (by omega), hk, Nat.add_sub_cancel]
  -- the last active pipe keeps its slot, and `active` is lowered to it
  refine ⟨d.pipes.items[k], ?_, hmem, ?_⟩
  · rw [hk, List.take_add_one, List.getElem?_eq_getElem hkl]
    exact List.mem_append_right _ (List.mem_singleton_self _)
  · rw [hactive, List.mem_take_iff_idxOf_lt hmem]
    have hindex : (d.terminated p).pipes.index d.pipes.items[k] = k :=
      PipeArray.index_of_getElem? (hd.terminated hp).nodup hslot
    intro hlt
    exact absurd hindex (Nat.ne_of_lt hlt)

/-- **A pipe terminated across `active` tears the message in progress**: at the next
part some attached pipe is left with the beginning of the message alone. -/
theorem torn_of_not_clean {es : List (Event α β)} {w v u : World α β} {p : α} {part : β}
    {msgMore : Bool} {refuses : α → Bool} (hstart : Along step RefusesAtStart World.init es)
    (hclean : Along step Clean World.init es) (h : run step World.init es = some w)
    (hv : step w (.terminated p) = some v) (hdirty : ¬ Clean w (.terminated p))
    (hu : step v (.send part msgMore refuses) = some u)
    (hnd : (w.ledger.done.flatten ++ (w.ledger.cur ++ [part])).Nodup) :
    ∃ q ∈ u.attached, ¬ u.ledger.Atomic q := by
  obtain ⟨f, href, hwhole, -⟩ := serves_of_run hstart hclean h
  obtain ⟨hp, rfl⟩ := step_terminated_eq_some.mp hv
  obtain ⟨-, rfl⟩ := step_send_eq_some.mp hu
  obtain ⟨hm, hsp⟩ : w.dist.more = true ∧ ¬ Spares w.dist p := by
    simpa only [Clean, Classical.not_imp] using hdirty
  obtain ⟨q, hq, hq', hq''⟩ := exists_dropped href.sound hp hsp
  have hfm : f.more = true := href.more.trans hm
  have hsound := href.sound.terminated hp
  -- The dropped pipe has taken every part so far, and is not offered this one.
  obtain ⟨ms, hms, htook⟩ := hwhole.taking hfm q ((href.taking hm q).mpr hq)
  obtain ⟨c, hc⟩ := List.exists_mem_of_ne_nil _ (hwhole.cur_ne_nil hfm)
  have hnot : q ∉ ((w.dist.terminated p).offers refuses).took := by
    rw [DistT.offers, mem_took_distribute hsound.nodup hsound.active_le_size]
    intro hmem
    exact hq'' hmem.1
  refine ⟨q, (send_items_perm _ msgMore refuses).mem_iff.mpr hq',
    Ledger.not_atomic_record hnd hc (htook ▸ List.mem_append_right _ hc) ?_ hnot⟩
  -- The part is new: none of the parts sent before equals it.
  rw [← List.append_assoc] at hnd
  intro hpart
  refine List.disjoint_of_nodup_append hnd ?_ (List.mem_singleton_self part)
  rw [htook, List.mem_append] at hpart
  refine List.mem_append.mpr (hpart.imp_left ?_)
  intro hflat
  obtain ⟨m, hmem, hpm⟩ := List.mem_flatten.mp hflat
  exact List.mem_flatten.mpr ⟨m, hms.subset hmem, hpm⟩

/-- **The patched distributor tears no message exactly as far as its runs are clean.**
Every run of clean events keeps every message whole for every attached pipe.  A
termination that is not clean leaves, at the next part sent, an attached pipe with a
torn message; an activation that is not clean uses a slot outside the array. -/
theorem atomic_exactly_on_clean :
    (∀ es : List (Event α β), Along step RefusesAtStart World.init es →
      Along step Clean World.init es →
        Throughout step (fun w => ∀ p ∈ w.attached, w.ledger.Atomic p) World.init es) ∧
    (∀ (es : List (Event α β)) (w v u : World α β) (p : α) (part : β) (msgMore : Bool)
      (refuses : α → Bool), Along step RefusesAtStart World.init es →
      Along step Clean World.init es → run step World.init es = some w →
      step w (.terminated p) = some v → ¬ Clean w (.terminated p) →
      step v (.send part msgMore refuses) = some u →
      (w.ledger.done.flatten ++ (w.ledger.cur ++ [part])).Nodup →
        ∃ q ∈ u.attached, ¬ u.ledger.Atomic q) ∧
    (∀ (es : List (Event α β)) (w v : World α β) (p : α), Along step Clean World.init es →
      run step World.init es = some w → step w (.activated p) = some v →
        w.dist.pipes.stray = false ∧ v.dist.pipes.stray = true) := by
  refine ⟨?_, ?_, ?_⟩
  · intro es hstart hclean
    exact atomic_of_clean hstart hclean
  · intro es w v u p part msgMore refuses hstart hclean h hv hdirty hu hnd
    exact torn_of_not_clean hstart hclean h hv hdirty hu hnd
  · intro es w v p hclean h hv
    have hsound : Sound w.dist := sound_of_clean hclean h
    obtain ⟨-, rfl⟩ := step_activated_eq_some.mp hv
    exact ⟨hsound.stray, hsound.stray_activated p⟩

/-- Pipe 2 is attached, and pipe 0 is terminated, between the two parts of a message. -/
def leavesMidMessage : List (Event ℕ ℕ) :=
  [.attach 0, .attach 1, .send 10 true fun _ => false, .attach 2, .terminated 0,
    .send 11 false fun _ => false]

/-- Without the termination, the message reaches pipes 0 and 1 whole. -/
theorem atomic_before_termination :
    ∃ w, run step World.init (leavesMidMessage.take 4) = some w ∧
      (∀ p ∈ w.attached, w.ledger.Atomic p) ∧ w.ledger.took 1 = [10] := by
  refine ⟨_, rfl, atomic_exactly_on_clean.1 (leavesMidMessage.take 4) ?_ ?_ _
    List.prefix_rfl _ rfl, rfl⟩
  · simp [leavesMidMessage, Along, RefusesAtStart]
  · simp [leavesMidMessage, Along, Clean]

/-- Pipe 1 holds the first part of the message alone, and pipe 2 the last one alone. -/
theorem torn_by_termination :
    ∃ w, run step World.init leavesMidMessage = some w ∧
      Along step RefusesAtStart World.init leavesMidMessage ∧
      w.attached = [2, 1] ∧ w.ledger.done = [[10, 11]] ∧ w.ledger.cur = [] ∧
      w.ledger.took 1 = [10] ∧ w.ledger.took 2 = [11] ∧
      ¬ w.ledger.Atomic 1 ∧ ¬ w.ledger.Atomic 2 := by
  have htorn : ∀ (took : List ℕ) ms, ms <+ [[10, 11]] →
      took = ms.flatten ∨ took = ms.flatten ++ [] → took = [] ∨ took = [10, 11] := by
    intro took ms hms hl
    rcases List.sublist_singleton.mp hms with rfl | rfl
    · exact Or.inl (by simpa using hl)
    · exact Or.inr (by simpa using hl)
  refine ⟨_, rfl, by simp [leavesMidMessage, Along, RefusesAtStart], rfl, rfl, rfl, rfl, rfl,
    ?_, ?_⟩
  · intro h
    obtain ⟨ms, hms, hl⟩ := h
    exact absurd (htorn [10] ms hms hl) (by decide)
  · intro h
    obtain ⟨ms, hms, hl⟩ := h
    exact absurd (htorn [11] ms hms hl) (by decide)

end PubDist
end ZmqIssues
