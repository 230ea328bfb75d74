import ZmqIssues.Dist.Atomicity

/-!
# The distributor before the patch

Before the patch a pipe attached in the middle of a message was kept in a second
list, `new_pipes`, and moved to the pipe array when the message ended.  There was
one counter, and a pipe that refused a part stayed behind it for good unless it
was activated.  The patched distributor keeps the late pipes in the array, before
`eligible`, and offers every message to all attached pipes again.

As long as pipes are only attached, and a pipe that refuses a part refuses every
later one, the two cannot be told apart by what the pipes accept: both represent
the same abstract distributor.

## Main definitions

* `OldDistT` — `dist_t` before the patch.
* `Env` — the attached pipes, and those that refuse everything from now on.

## Main results

* `together_step` — every event leaves both distributors with one abstract one.
* `same_deliveries` — **the two distributors have every part accepted by the same
  pipes.**
-/

namespace ZmqIssues
namespace PubDist

open List Machine

variable {α β : Type*}

/-! ### The distributor before the patch -/

/-- `dist_t` before the patch. -/
structure OldDistT (α : Type*) where
  /-- List of outbound pipes. -/
  pipes : PipeArray α
  /-- List of new pipes that were not yet inserted into the array. -/
  newPipes : List α
  /-- Number of active pipes, all at the beginning of the array. -/
  active : ℕ
  /-- Are we in the middle of a multipart message? -/
  more : Bool
  /-- Is the distributor shutting down? -/
  terminating : Bool
  /-- The calls it has made, oldest first. -/
  calls : List (Call α)
  deriving Repr

namespace OldDistT

/-- The constructor. -/
def init : OldDistT α := ⟨.empty, [], 0, false, false, []⟩

/-- The lines by which `attach` and `clear_new_pipes` make a pipe active. -/
def plug (d : OldDistT α) (p : α) : OldDistT α :=
  let pipes := d.pipes.pushBack p
  { d with
    calls := d.calls ++ [Call.setEventSink p],
    pipes := pipes.swap d.active (pipes.size - 1), active := d.active + 1 }

/-- `attach`. -/
def attach (d : OldDistT α) (p : α) : OldDistT α :=
  if !d.terminating && d.more then
    { d with newPipes := d.newPipes ++ [p] }
  else
    let d := d.plug p
    if d.terminating then
      { d with calls := d.calls ++ [Call.registerTermAcks 1, Call.terminate p] }
    else d

/-- `clear_new_pipes`. -/
def clearNewPipes (d : OldDistT α) : OldDistT α :=
  { d.newPipes.foldl plug d with newPipes := [] }

variable [DecidableEq α]

/-- `terminated`. -/
def terminated (d : OldDistT α) (p : α) : OldDistT α :=
  let d := if d.pipes.index p < d.active then { d with active := d.active - 1 } else d
  let d := { d with pipes := d.pipes.erase p }
  if d.terminating then { d with calls := d.calls ++ [Call.unregisterTermAck] } else d

/-- `activated`. -/
def activated (d : OldDistT α) (p : α) : OldDistT α :=
  { d with pipes := d.pipes.swap (d.pipes.index p) d.active, active := d.active + 1 }

/-- The distribution `send` starts with. -/
def offers (d : OldDistT α) (refuses : α → Bool) : Sending α :=
  distribute refuses d.pipes d.active

/-- `send`. -/
def send (d : OldDistT α) (msgMore : Bool) (refuses : α → Bool) : OldDistT α :=
  let s := d.offers refuses
  let d := { d with pipes := s.pipes, active := s.active }
  let d := if d.more && !msgMore then d.clearNewPipes else d
  { d with more := msgMore }

/-- One event. -/
def next (d : OldDistT α) : Event α β → OldDistT α
  | .attach p => d.attach p
  | .activated p => d.activated p
  | .terminated p => d.terminated p
  | .send _ msgMore refuses => d.send msgMore refuses

/-- The pipes that accept the part an event sends. -/
def accepted (d : OldDistT α) : Event α β → Option (List α)
  | .send _ _ refuses => some (d.offers refuses).took
  | _ => none

end OldDistT

variable [DecidableEq α]

/-- One event of the patched distributor. -/
def DistT.next (d : DistT α) : Event α β → DistT α
  | .attach p => d.attach p
  | .activated p => d.activated p
  | .terminated p => d.terminated p
  | .send _ msgMore refuses => d.send msgMore refuses

/-- The pipes that accept the part an event sends. -/
def DistT.accepted (d : DistT α) : Event α β → Option (List α)
  | .send _ _ refuses => some (d.offers refuses).took
  | _ => none

/-! ### The environment -/

/-- The attached pipes, and those among them that refuse everything from now on. -/
structure Env (α : Type*) where
  /-- The attached pipes. -/
  attached : List α
  /-- The pipes that have begun to refuse. -/
  full : α → Bool

namespace Env

omit [DecidableEq α] in
/-- No pipe is attached. -/
def init : Env α := ⟨[], fun _ => false⟩

/-- New pipes are attached and parts are sent; a pipe that refuses a part refuses all
later ones.  No pipe is activated or terminated. -/
def step (e : Env α) : Event α β → Option (Env α)
  | .attach p =>
    if p ∈ e.attached then none
    else some ⟨p :: e.attached, Function.update e.full p false⟩
  | .send _ _ refuses =>
    if ∀ p ∈ e.attached, e.full p = true → refuses p = true then some ⟨e.attached, refuses⟩
    else none
  | .activated _ => none
  | .terminated _ => none

end Env

/-! ### Plugging in the new pipes -/

omit [DecidableEq α] in
theorem plug_items_perm (d : OldDistT α) (p : α) :
    (d.plug p).pipes.items ~ p :: d.pipes.items :=
  (Slots.swap_perm _ _ _).trans (perm_append_singleton p _)

omit [DecidableEq α] in
theorem take_active_plug_perm {d : OldDistT α} (hle : d.active ≤ d.pipes.size) (p : α) :
    (d.plug p).pipes.items.take (d.plug p).active ~ p :: d.pipes.items.take d.active := by
  have hslot : (d.pipes.pushBack p).items[(d.pipes.pushBack p).size - 1]? = some p := by
    simp [PipeArray.size]
  have h := Slots.take_succ_swap_perm (k := d.active) (by simpa using hle) hslot
  rwa [PipeArray.items_pushBack, List.take_append_of_le_length hle] at h

omit [DecidableEq α] in
/-- Plugging in a list of pipes adds them to the array and to its active pipes. -/
theorem foldl_plug_spec (ps : List α) {d : OldDistT α} (hle : d.active ≤ d.pipes.size) :
    (ps.foldl OldDistT.plug d).pipes.items ~ ps ++ d.pipes.items ∧
      (ps.foldl OldDistT.plug d).pipes.items.take (ps.foldl OldDistT.plug d).active
        ~ ps ++ d.pipes.items.take d.active ∧
      (ps.foldl OldDistT.plug d).active ≤ (ps.foldl OldDistT.plug d).pipes.size ∧
      (ps.foldl OldDistT.plug d).more = d.more ∧
      (ps.foldl OldDistT.plug d).terminating = d.terminating := by
  induction ps generalizing d with
  | nil => exact ⟨.refl _, .refl _, hle, rfl, rfl⟩
  | cons p ps ih =>
    have hsz : (d.plug p).pipes.size = d.pipes.size + 1 := (plug_items_perm d p).length_eq
    have hle' : (d.plug p).active ≤ (d.plug p).pipes.size := by
      rw [hsz]
      exact Nat.succ_le_succ hle
    obtain ⟨hitems, htake, hact, hmore, hterm⟩ := ih hle'
    refine ⟨?_, ?_, hact, hmore, hterm⟩
    · exact (hitems.trans ((plug_items_perm d p).append_left ps)).trans perm_middle
    · exact (htake.trans ((take_active_plug_perm hle p).append_left ps)).trans perm_middle

/-! ### Both distributors represent the abstract one -/

/-- A distributor before the patch represents an abstract one, seen by an environment:
the pipes that have not begun to refuse are in the active part of the array or wait in
`new_pipes`. -/
structure OldRefines (e : Env α) (d : OldDistT α) (f : Fanout α) : Prop where
  nodup : (d.newPipes ++ d.pipes.items).Nodup
  active_le : d.active ≤ d.pipes.size
  env : ∀ p, p ∈ e.attached ↔ p ∈ d.newPipes ++ d.pipes.items
  attached : ∀ p, p ∈ f.attached ↔ p ∈ e.attached
  idle : d.more = false → d.newPipes = []
  willing : ∀ p ∈ d.pipes.items, e.full p = false → p ∈ d.pipes.items.take d.active
  taking_subset : f.taking ⊆ f.attached
  taking : d.more = true → ∀ p ∈ e.attached, e.full p = false →
    (p ∈ f.taking ↔ p ∈ d.pipes.items.take d.active)
  more : f.more = d.more
  running : d.terminating = false

omit [DecidableEq α] in
theorem oldRefines_init : OldRefines Env.init (OldDistT.init : OldDistT α) Fanout.init :=
  ⟨List.nodup_nil, Nat.le_refl _, fun _ => Iff.rfl,
    by simp [Fanout.init, Env.init], fun _ => rfl, by simp [OldDistT.init, PipeArray.empty],
    Set.empty_subset _, fun h => absurd h (by simp [OldDistT.init]), rfl, rfl⟩

omit [DecidableEq α] in
theorem OldRefines.items_nodup {e : Env α} {d : OldDistT α} {f : Fanout α}
    (h : OldRefines e d f) : d.pipes.items.Nodup :=
  (List.nodup_append.mp h.nodup).2.1

/-- The pipes that take the next part are those of the abstract distributor. -/
theorem OldRefines.mem_took {e : Env α} {d : OldDistT α} {f : Fanout α} (h : OldRefines e d f)
    {refuses : α → Bool} (hkeep : ∀ p ∈ e.attached, e.full p = true → refuses p = true) (p : α) :
    p ∈ (d.offers refuses).took ↔ p ∈ f.acceptors refuses := by
  rw [OldDistT.offers, mem_took_distribute h.items_nodup h.active_le, Fanout.mem_acceptors, h.more]
  apply and_congr_left
  intro hr
  have hwilling : p ∈ e.attached → e.full p = false := by
    intro hp
    rw [← Bool.not_eq_true]
    intro hf
    exact Bool.false_ne_true (hr.symm.trans (hkeep p hp hf))
  have henv : p ∈ d.pipes.items → p ∈ e.attached := by
    intro hp
    exact (h.env p).mpr (List.mem_append_right _ hp)
  cases hm : d.more with
  | true =>
    rw [if_pos rfl]
    constructor
    · intro hp
      have hp' := henv (List.mem_of_mem_take hp)
      exact (h.taking hm p hp' (hwilling hp')).mpr hp
    · intro hp
      have hp' := (h.attached p).mp (h.taking_subset hp)
      exact (h.taking hm p hp' (hwilling hp')).mp hp
  | false =>
    rw [if_neg Bool.false_ne_true, h.attached]
    constructor
    · intro hp
      exact henv (List.mem_of_mem_take hp)
    · intro hp
      -- between two messages no pipe waits outside the array
      have hitems : p ∈ d.pipes.items := by simpa [h.idle hm] using (h.env p).mp hp
      exact h.willing p hitems (hwilling hp)

omit [DecidableEq α] in
theorem OldRefines.attached_attach {e : Env α} {d : OldDistT α} {f : Fanout α}
    (h : OldRefines e d f) (p q : α) : q ∈ (f.attach p).attached ↔ q ∈ p :: e.attached := by
  rw [List.mem_cons, ← h.attached]
  exact Iff.rfl

omit [DecidableEq α] in
theorem OldRefines.taking_subset_attach {e : Env α} {d : OldDistT α} {f : Fanout α}
    (h : OldRefines e d f) (p : α) : (f.attach p).taking ⊆ (f.attach p).attached := by
  intro q hq
  exact Or.inr (h.taking_subset hq)

/-- A pipe attached in the middle of a message is kept until the message ends. -/
theorem OldRefines.keep {e : Env α} {d : OldDistT α} {f : Fanout α} (h : OldRefines e d f)
    {p : α} (hp : p ∉ e.attached) (hm : d.more = true) :
    OldRefines ⟨p :: e.attached, Function.update e.full p false⟩
      { d with newPipes := d.newPipes ++ [p] } (f.attach p) := by
  have hpd : p ∉ d.newPipes ++ d.pipes.items := mt (h.env p).mpr hp
  have hpi : p ∉ d.pipes.items := by
    intro hmem
    exact hpd (List.mem_append_right _ hmem)
  have hpt : p ∉ f.taking := by
    intro hmem
    exact hp ((h.attached p).mp (h.taking_subset hmem))
  have hfull : ∀ q, q ≠ p → Function.update e.full p false q = e.full q := by
    intro q hq
    exact Function.update_of_ne hq _ _
  have hperm : d.newPipes ++ [p] ++ d.pipes.items ~ p :: (d.newPipes ++ d.pipes.items) := by
    simp
  refine ⟨?_, h.active_le, ?_, h.attached_attach p, ?_, ?_, h.taking_subset_attach p, ?_, h.more,
    h.running⟩
  · rw [hperm.nodup_iff, List.nodup_cons]
    exact ⟨hpd, h.nodup⟩
  · intro q
    rw [hperm.mem_iff, List.mem_cons, List.mem_cons, h.env]
  · intro hm'
    exact absurd (hm.symm.trans hm') (by simp)
  · intro q hq hfq
    exact h.willing q hq (hfull q (fun hqp => hpi (hqp ▸ hq)) ▸ hfq)
  · intro _ q hq hfq
    rcases List.mem_cons.mp hq with rfl | hq
    · -- the new pipe takes no part in the message in progress
      exact iff_of_false hpt fun hmem => hpi (List.mem_of_mem_take hmem)
    · have hqp : q ≠ p := fun hqp => hp (hqp ▸ hq)
      exact h.taking hm q hq (hfull q hqp ▸ hfq)

/-- A pipe attached between two messages becomes active at once. -/
theorem OldRefines.plug {e : Env α} {d : OldDistT α} {f : Fanout α} (h : OldRefines e d f)
    {p : α} (hp : p ∉ e.attached) (hm : d.more = false) :
    OldRefines ⟨p :: e.attached, Function.update e.full p false⟩ (d.plug p) (f.attach p) := by
  have hpi : p ∉ d.pipes.items := by
    intro hmem
    exact hp ((h.env p).mpr (List.mem_append_right _ hmem))
  have hidle : (d.plug p).newPipes = [] := h.idle hm
  have hperm : (d.plug p).newPipes ++ (d.plug p).pipes.items ~ p :: d.pipes.items := by
    rw [hidle]
    exact plug_items_perm d p
  have hold : d.newPipes ++ d.pipes.items = d.pipes.items := by rw [h.idle hm]; rfl
  have hmore : (d.plug p).more = false := hm
  refine ⟨?_, ?_, ?_, h.attached_attach p, fun _ => hidle, ?_, h.taking_subset_attach p, ?_, h.more,
    h.running⟩
  · rw [hperm.nodup_iff, List.nodup_cons]
    exact ⟨hpi, h.items_nodup⟩
  · have hsz : (d.plug p).pipes.size = d.pipes.size + 1 := (plug_items_perm d p).length_eq
    rw [hsz]
    exact Nat.succ_le_succ h.active_le
  · intro q
    rw [hperm.mem_iff, List.mem_cons, List.mem_cons, h.env, hold]
  · intro q hq hfq
    rw [(take_active_plug_perm h.active_le p).mem_iff, List.mem_cons]
    rcases List.mem_cons.mp ((plug_items_perm d p).mem_iff.mp hq) with rfl | hq'
    · exact Or.inl rfl
    · have hqp : q ≠ p := fun hqp => hpi (hqp ▸ hq')
      have hfull : Function.update e.full p false q = e.full q := Function.update_of_ne hqp _ _
      exact Or.inr (h.willing q hq' (hfull ▸ hfq))
  · intro hm'
    exact absurd (hmore.symm.trans hm') (by simp)

theorem OldRefines.attach {e : Env α} {d : OldDistT α} {f : Fanout α} (h : OldRefines e d f)
    {p : α} (hp : p ∉ e.attached) :
    OldRefines ⟨p :: e.attached, Function.update e.full p false⟩ (d.attach p) (f.attach p) := by
  cases hm : d.more with
  | true =>
    have hd : d.attach p = { d with newPipes := d.newPipes ++ [p] } := by
      simp [OldDistT.attach, h.running, hm]
    rw [hd]
    exact h.keep hp hm
  | false =>
    have hd : d.attach p = d.plug p := by
      have hrun : (d.plug p).terminating = false := h.running
      simp [OldDistT.attach, hm, hrun]
    rw [hd]
    exact h.plug hp hm

/-- What `send` does to the two lists of pipes: those that took the part stay active, and
the new pipes are plugged in behind the last part of a multipart message. -/
structure Sent (d : OldDistT α) (msgMore : Bool) (refuses : α → Bool) (d' : OldDistT α) :
    Prop where
  all : d'.newPipes ++ d'.pipes.items ~ d.newPipes ++ d.pipes.items
  newPipes : d'.newPipes = if d.more && !msgMore then [] else d.newPipes
  take_active : ∀ p, p ∈ d'.pipes.items.take d'.active ↔
    (p ∈ d.pipes.items.take d.active ∧ refuses p = false) ∨
      ((d.more && !msgMore) = true ∧ p ∈ d.newPipes)
  active_le : d'.active ≤ d'.pipes.size
  more : d'.more = msgMore
  terminating : d'.terminating = d.terminating

theorem send_spec {d : OldDistT α} (hnd : d.pipes.items.Nodup) (hle : d.active ≤ d.pipes.size)
    (msgMore : Bool) (refuses : α → Bool) : Sent d msgMore refuses (d.send msgMore refuses) := by
  have hspec : Distributed refuses 0 _ (d.offers refuses) := distribute_spec refuses hnd hle
  have htake : ∀ p, p ∈ (d.offers refuses).pipes.items.take (d.offers refuses).active ↔
      p ∈ d.pipes.items.take d.active ∧ refuses p = false := fun p => mem_take_distribute hnd hle
  have hle' : (d.offers refuses).active ≤ (d.offers refuses).pipes.size :=
    hspec.active_le.trans (hle.trans_eq hspec.items.length_eq.symm)
  cases hend : d.more && !msgMore with
  | true =>
    -- the last part of a multipart message: the new pipes are plugged in behind it
    obtain ⟨hitems, hactive, hsize, -, hterm⟩ := foldl_plug_spec d.newPipes
      (d := { d with pipes := (d.offers refuses).pipes, active := (d.offers refuses).active }) hle'
    have hd : d.send msgMore refuses =
        { d.newPipes.foldl OldDistT.plug { d with
            pipes := (d.offers refuses).pipes, active := (d.offers refuses).active } with
          newPipes := [], more := msgMore } := by
      simp only [OldDistT.send, hend, if_true, OldDistT.clearNewPipes]
    rw [hd]
    refine ⟨hitems.trans (hspec.items.append_left _), by simp [hend], ?_, hsize, rfl, hterm⟩
    intro p
    rw [hactive.mem_iff, List.mem_append, htake, hend]
    tauto
  | false =>
    have hd : d.send msgMore refuses =
        { d with
          pipes := (d.offers refuses).pipes, active := (d.offers refuses).active,
          more := msgMore } := by
      simp only [OldDistT.send, hend, Bool.false_eq_true, if_false]
    rw [hd]
    refine ⟨hspec.items.append_left _, by simp [hend], ?_, hle', rfl, rfl⟩
    intro p
    rw [htake, hend]
    simp

theorem OldRefines.send {e : Env α} {d : OldDistT α} {f : Fanout α} (h : OldRefines e d f)
    {refuses : α → Bool} (hkeep : ∀ p ∈ e.attached, e.full p = true → refuses p = true)
    (msgMore : Bool) :
    OldRefines ⟨e.attached, refuses⟩ (d.send msgMore refuses) (f.send msgMore refuses) := by
  have hsent := send_spec h.items_nodup h.active_le msgMore refuses
  have hacc : ∀ p, p ∈ f.acceptors refuses ↔
      p ∈ d.pipes.items.take d.active ∧ refuses p = false := by
    intro p
    rw [← h.mem_took hkeep p, OldDistT.offers, mem_took_distribute h.items_nodup h.active_le]
  have henv : ∀ p, p ∈ e.attached ↔
      p ∈ (d.send msgMore refuses).newPipes ++ (d.send msgMore refuses).pipes.items := by
    intro p
    exact (h.env p).trans hsent.all.mem_iff.symm
  refine ⟨hsent.all.nodup_iff.mpr h.nodup, hsent.active_le, henv, h.attached, ?_, ?_, ?_, ?_,
    hsent.more.symm, hsent.terminating.trans h.running⟩
  · intro hm
    -- at the end of a message no new pipe is left
    obtain rfl : msgMore = false := hsent.more.symm.trans hm
    rw [hsent.newPipes]
    split
    · rfl
    · next hend => exact h.idle (by simpa using hend)
  · intro p hp hr
    rw [hsent.take_active]
    have hold : p ∈ d.newPipes ++ d.pipes.items :=
      hsent.all.mem_iff.mp (List.mem_append_right _ hp)
    rcases List.mem_append.mp hold with hnew | hitems
    · refine Or.inr ⟨?_, hnew⟩
      -- a pipe that still waits is not in the array
      by_contra hend
      have hnd := (List.nodup_append.mp (hsent.all.nodup_iff.mpr h.nodup)).2.2
      refine hnd p ?_ p hp rfl
      rwa [hsent.newPipes, if_neg hend]
    · refine Or.inl ⟨h.willing p hitems ?_, hr⟩
      rw [← Bool.not_eq_true]
      intro hf
      have := hkeep p ((h.env p).mpr hold) hf
      exact Bool.false_ne_true (hr.symm.trans this)
  · intro p hp
    obtain ⟨hmem, -⟩ := (hacc p).mp hp
    exact (h.attached p).mpr
      ((h.env p).mpr (List.mem_append_right _ (List.mem_of_mem_take hmem)))
  · intro hm p _ hr
    obtain rfl : msgMore = true := hsent.more.symm.trans hm
    rw [hsent.take_active]
    refine (hacc p).trans ?_
    simp

/-! ### The same deliveries -/

/-- The distributors before and after the patch represent one abstract distributor. -/
def Together (e : Env α) (d : OldDistT α) (d' : DistT α) : Prop :=
  ∃ f, OldRefines e d f ∧ Refines d' f

theorem together_step (e : Env α) (d : OldDistT α) (d' : DistT α) (a : Event α β) (e' : Env α)
    (h : Together e d d') (ha : e.step a = some e') :
    Together e' (d.next a) (d'.next a) ∧
      Option.Rel (fun old new : List α => old ~ new) (d.accepted a) (d'.accepted a) := by
  obtain ⟨f, hold, hnew⟩ := h
  cases a with
  | attach p =>
    have hp : p ∉ e.attached ∧ ⟨p :: e.attached, Function.update e.full p false⟩ = e' := by
      simpa [Env.step] using ha
    obtain ⟨hp, rfl⟩ := hp
    have hpn : p ∉ d'.pipes.items := by
      intro hmem
      exact hp ((hold.attached p).mp ((hnew.attached p).mpr hmem))
    exact ⟨⟨f.attach p, hold.attach hp, hnew.attach hpn⟩, Option.Rel.none⟩
  | activated p => simp [Env.step] at ha
  | terminated p => simp [Env.step] at ha
  | send part msgMore refuses =>
    have hkeep : (∀ p ∈ e.attached, e.full p = true → refuses p = true) ∧
        ⟨e.attached, refuses⟩ = e' := by
      simpa [Env.step] using ha
    obtain ⟨hkeep, rfl⟩ := hkeep
    refine ⟨⟨f.send msgMore refuses, hold.send hkeep msgMore, hnew.send msgMore refuses⟩,
      Option.Rel.some ?_⟩
    have hspec : Distributed refuses 0 _ (d.offers refuses) :=
      distribute_spec refuses hold.items_nodup hold.active_le
    have hspec' : Distributed refuses 0 _ (d'.offers refuses) :=
      distribute_spec refuses hnew.sound.nodup hnew.sound.active_le_size
    -- neither list has repetitions, and both have the pipes of the abstract distributor
    refine (List.perm_ext_iff_of_nodup ?_ ?_).mpr ?_
    · rw [hspec.took.nodup_iff]
      exact (hold.items_nodup.sublist (List.take_sublist _ _)).filter _
    · rw [hspec'.took.nodup_iff]
      exact (hnew.sound.nodup.sublist (List.take_sublist _ _)).filter _
    · intro p
      rw [hold.mem_took hkeep, hnew.mem_took]

/-- **The two distributors have every part accepted by the same pipes**, each of them
once, over every run in which pipes are attached and parts are sent, and a pipe that
refuses a part refuses all later ones. -/
theorem same_deliveries {es : List (Event α β)} {e : Env α}
    (h : run Env.step Env.init es = some e) :
    List.Forall₂ (fun old new : List α => old ~ new)
      (outputs OldDistT.next OldDistT.accepted OldDistT.init es)
      (outputs DistT.next DistT.accepted DistT.init es) :=
  forall₂_outputs (R := Together) (fun e d d' a e' => together_step e d d' a e')
    ⟨Fanout.init, oldRefines_init, refines_init⟩ h

/-- Pipe 2 is attached in the middle of a message, in which pipe 0 begins to refuse. -/
def attachedMidMessage : List (Event ℕ ℕ) :=
  [.attach 0, .attach 1, .send 10 true fun _ => false, .attach 2,
    .send 11 false (· == 0), .send 12 false (· == 0)]

theorem same_deliveries_midMessage :
    outputs DistT.next DistT.accepted DistT.init attachedMidMessage = [[0, 1], [1], [1, 2]] ∧
      List.Forall₂ (fun old new : List ℕ => old ~ new)
        (outputs OldDistT.next OldDistT.accepted OldDistT.init attachedMidMessage)
        (outputs DistT.next DistT.accepted DistT.init attachedMidMessage) :=
  ⟨rfl, same_deliveries (e := _) rfl⟩

end PubDist
end ZmqIssues
