import ZmqIssues.Dist.PrePatchAtomicity
import ZmqIssues.Subscriber.Detection
import ZmqIssues.Subscriber.Verdicts

/-!
# From the publisher through the distributor to the subscribers

The three programs of issue 191 together.  The publisher sends its messages through
the distributor of its socket, between any callbacks of the pipes; behind every pipe a
subscriber checks the parts its pipe accepted, in their order.

A subscriber sees sizes and more flags only.  What the distributor promises is enough
for it: where no message is torn, no assertion of any subscriber ever fails.  Before the
patch a pipe activated in the middle of a message makes its subscriber fail at the very
part it is sent next: the size is not that of the first part it waits for.

## Main definitions

* `Action`, `events` — what the pipes do while the publisher is in its loop, and the
  calls into the distributor that come of it.
* `Published` — the ledger of a publisher that is at some place of its loop.

## Main results

* `Published.exists_iterations` — what a pipe that holds no torn message has accepted.
* `no_assertion_fails` — **on clean runs no subscriber fails an assertion**, with either
  distributor.
* `fails_where_activated` — **the subscriber of a pipe activated in the middle of a message
  fails at the next part.**
-/

namespace ZmqIssues
namespace Subscriber

open List Machine PubDist

variable {α : Type*}

/-! ### The publisher in its loop -/

/-- What happens to the pipes while the publisher is in its loop. -/
inductive Action (α : Type*)
  /-- A subscriber connects. -/
  | attach (p : α)
  /-- A pipe can be written to again. -/
  | activated (p : α)
  /-- A subscriber is gone. -/
  | terminated (p : α)
  /-- The publisher sends the next part, which these pipes would refuse. -/
  | publish (refuses : α → Bool)

/-- The part the publisher sends at a place of its loop. -/
def Waiting.sends (s : Waiting) : Sent := ⟨s.round, s.place.expected⟩

/-- The call into the distributor.  The part goes out with `ZMQ_SNDMORE`, or without it if it
is the last one of its message. -/
def Action.event (s : Waiting) : Action α → Event α Sent
  | .attach p => .attach p
  | .activated p => .activated p
  | .terminated p => .terminated p
  | .publish refuses => .send s.sends s.place.expected.more refuses

/-- Where the publisher is afterwards. -/
def Action.next (s : Waiting) : Action α → Waiting
  | .publish _ => s.next
  | _ => s

/-- The calls into the distributor while the publisher is in its loop. -/
def events : Waiting → List (Action α) → List (Event α Sent)
  | _, [] => []
  | s, a :: as => a.event s :: events (a.next s) as

/-- Where the publisher is after them. -/
def placeAfter (s : Waiting) (as : List (Action α)) : Waiting := as.foldl Action.next s

theorem events_concat (s : Waiting) (as : List (Action α)) (a : Action α) :
    events s (as ++ [a]) = events s as ++ [a.event (placeAfter s as)] := by
  induction as generalizing s with
  | nil => rfl
  | cons b as ih =>
    rw [List.cons_append, events, ih]
    rfl

theorem placeAfter_concat (s : Waiting) (as : List (Action α)) (a : Action α) :
    placeAfter s (as ++ [a]) = a.next (placeAfter s as) := by
  simp [placeAfter]

/-! ### The ledger of the publisher -/

/-- The messages sent at a place of the loop, and the parts of the one in progress. -/
structure Published (l : Ledger α Sent) (s : Waiting) : Prop where
  done : l.done = (List.range s.round).map emitOnce
  cur : l.cur = s.place.before.map (Sent.mk s.round)

theorem published_init : Published (Ledger.init : Ledger α Sent) .start := ⟨rfl, rfl⟩

section

variable [DecidableEq α] {l : Ledger α Sent} {s : Waiting}

theorem Published.attach (h : Published l s) (p : α) : Published (l.attach p) s := ⟨h.done, h.cur⟩

theorem Published.record (h : Published l s) (accepted : List α) :
    Published (l.record s.sends s.place.expected.more accepted) s.next := by
  obtain ⟨hdone, hcur⟩ := h
  obtain ⟨round, place⟩ := s
  cases place with
  | first =>
    refine ⟨hdone, ?_⟩
    simp [Ledger.record, hcur, Place.before, Place.expected, topicPart, Waiting.sends,
      Waiting.next]
  | second =>
    refine ⟨hdone, ?_⟩
    simp [Ledger.record, hcur, Place.before, Place.expected, seqPart, Waiting.sends,
      Waiting.next]
  | third =>
    refine ⟨?_, rfl⟩
    simp [Ledger.record, hdone, hcur, List.range_succ, Place.before, Place.expected, bodyPart,
      Waiting.sends, Waiting.next, emitOnce]

omit [DecidableEq α] in
theorem Published.flatten_done (h : Published l s) : l.done.flatten = emit s.round := by
  rw [h.done, emit, List.flatMap_def]

omit [DecidableEq α] in
/-- The parts sent can be told apart. -/
theorem Published.nodup (h : Published l s) : (l.done.flatten ++ (l.cur ++ [s.sends])).Nodup := by
  have hemit : (emit (s.round + 1)).Nodup := by
    refine List.Nodup.of_map position ?_
    rw [map_position_emit]
    exact List.nodup_range
  have hlast : emit (s.round + 1) = emit s.round ++ emitOnce s.round := by
    simp [emit, List.range_succ]
  refine hemit.sublist ?_
  rw [h.flatten_done, h.cur, hlast]
  refine List.Sublist.append (List.Sublist.refl _) ?_
  obtain ⟨round, place⟩ := s
  cases place <;> simp [Place.before, Place.expected, Waiting.sends, emitOnce]

omit [DecidableEq α] in
/-- **What a pipe that holds no torn message has accepted**: whole iterations of the
publisher's loop, and the parts of the one in progress or none of them. -/
theorem Published.exists_iterations (h : Published l s) {p : α} (hp : l.Atomic p) :
    ∃ is : List ℕ, is <+ List.range s.round ∧
      (l.took p = is.flatMap emitOnce ∨
        l.took p = is.flatMap emitOnce ++ s.place.before.map (Sent.mk s.round)) := by
  obtain ⟨ms, hms, htook⟩ := hp
  rw [h.done] at hms
  obtain ⟨is, his, rfl⟩ := List.sublist_map_iff.mp hms
  rw [h.cur, ← List.flatMap_def] at htook
  exact ⟨is, his, htook⟩

end

/-! ### The verdict of a subscriber -/

theorem map_part_flatMap_emitOnce (is : List ℕ) :
    (is.flatMap emitOnce).map Sent.part = wholeMessages is.length := by
  induction is using List.reverseRecOn with
  | nil => rfl
  | append_singleton is i ih =>
    rw [List.flatMap_append, List.map_append, ih, List.length_append, List.length_singleton,
      wholeMessages_succ]
    rfl

section

variable {zmq : Libzmq} {contents : Waiting → ℤ} {l : Ledger α Sent} {s : Waiting}

/-- **The subscriber of a pipe that holds no torn message fails no assertion.** -/
theorem Published.failsAt_eq_none (h : Published l s) {p : α} (hp : l.Atomic p) :
    failsAt (Sub2.step zmq contents) .start ((l.took p).map Sent.part) = none := by
  obtain ⟨is, -, htook⟩ := h.exists_iterations hp
  rw [failsAt_eq_none_iff, Option.isSome_iff_exists]
  rcases htook with hl | hl
  · refine ⟨⟨is.length, .first⟩, Sub2.run_eq_some_iff.mpr ?_⟩
    rw [hl, map_part_flatMap_emitOnce]
    exact (List.append_nil _).symm
  · refine ⟨⟨is.length, s.place⟩, Sub2.run_eq_some_iff.mpr ?_⟩
    rw [hl, List.map_append, map_part_flatMap_emitOnce, List.map_map]
    simp [Waiting.received, Function.comp_def]

end

theorem before_ne_nil {place : Place} (h : place ≠ .first) : place.before ≠ [] := by
  cases place with
  | first => exact absurd rfl h
  | second => exact List.cons_ne_nil _ _
  | third => exact List.cons_ne_nil _ _

theorem size_ne_topicPart {place : Place} (h : place ≠ .first) :
    place.expected.size ≠ topicPart.size := by
  cases place with
  | first => exact absurd rfl h
  | second => decide
  | third => decide

/-! ### The system -/

/-- The ledger follows the publisher, whatever the distributor does with the calls. -/
theorem published_of_run {ω : Type*} {stepWorld : ω → Event α Sent → Option ω}
    (ledger : ω → Ledger α Sent) {w₀ : ω} (hinit : Published (ledger w₀) .start)
    (hstep : ∀ w v s (a : Action α), Published (ledger w) s →
      stepWorld w (a.event s) = some v → Published (ledger v) (a.next s))
    {as : List (Action α)} :
    ∀ {w}, run stepWorld w₀ (events .start as) = some w →
      Published (ledger w) (placeAfter .start as) := by
  induction as using List.reverseRecOn with
  | nil =>
    intro w h
    obtain rfl : w₀ = w := Option.some.inj h
    exact hinit
  | append_singleton as a ih =>
    intro w h
    rw [events_concat] at h
    obtain ⟨u, hu, huw⟩ := run_concat_eq_some.mp h
    rw [placeAfter_concat]
    exact hstep u w _ a (ih hu) huw

variable [DecidableEq α]

theorem published_of_run_patched {as : List (Action α)} {w : World α Sent}
    (h : run PubDist.step World.init (events .start as) = some w) :
    Published w.ledger (placeAfter .start as) := by
  refine published_of_run World.ledger published_init ?_ h
  intro w v s a hw hv
  cases a with
  | attach p =>
    obtain ⟨-, rfl⟩ := step_attach_eq_some.mp hv
    exact hw.attach p
  | activated p =>
    obtain ⟨-, rfl⟩ := step_activated_eq_some.mp hv
    exact hw
  | terminated p =>
    obtain ⟨-, rfl⟩ := step_terminated_eq_some.mp hv
    exact hw
  | publish refuses =>
    obtain ⟨-, rfl⟩ := step_send_eq_some.mp hv
    exact hw.record _

theorem published_of_run_prePatch {as : List (Action α)} {w : OldWorld α Sent}
    (h : run oldStep OldWorld.init (events .start as) = some w) :
    Published w.ledger (placeAfter .start as) := by
  refine published_of_run OldWorld.ledger published_init ?_ h
  intro w v s a hw hv
  cases a with
  | attach p =>
    obtain ⟨-, rfl⟩ := oldStep_attach_eq_some.mp hv
    exact hw.attach p
  | activated p =>
    obtain ⟨-, rfl⟩ := oldStep_activated_eq_some.mp hv
    exact hw
  | terminated p =>
    obtain ⟨-, rfl⟩ := oldStep_terminated_eq_some.mp hv
    exact hw
  | publish refuses =>
    obtain ⟨-, rfl⟩ := oldStep_send_eq_some.mp hv
    exact hw.record _

variable (zmq : Libzmq) (contents : Waiting → ℤ)

/-- **On clean runs no subscriber ever fails an assertion**, with either distributor.  Every
attached pipe has accepted whole iterations of the publisher's loop, none of them twice and
in their order, and then the parts of the one in progress or none of them. -/
theorem no_assertion_fails :
    (∀ (as : List (Action α)) (w : World α Sent),
      Along PubDist.step RefusesAtStart World.init (events .start as) →
      Along PubDist.step Clean World.init (events .start as) →
      run PubDist.step World.init (events .start as) = some w → ∀ p ∈ w.attached,
        failsAt (Sub2.step zmq contents) .start ((w.ledger.took p).map Sent.part) = none ∧
        ∃ is : List ℕ, is <+ List.range (placeAfter .start as).round ∧
          (w.ledger.took p = is.flatMap emitOnce ∨
            w.ledger.took p = is.flatMap emitOnce ++ w.ledger.cur)) ∧
    (∀ (as : List (Action α)) (w : OldWorld α Sent),
      Along oldStep OldRefusesAtStart OldWorld.init (events .start as) →
      Along oldStep OldClean OldWorld.init (events .start as) →
      run oldStep OldWorld.init (events .start as) = some w → ∀ p ∈ w.attached,
        failsAt (Sub2.step zmq contents) .start ((w.ledger.took p).map Sent.part) = none ∧
        ∃ is : List ℕ, is <+ List.range (placeAfter .start as).round ∧
          (w.ledger.took p = is.flatMap emitOnce ∨
            w.ledger.took p = is.flatMap emitOnce ++ w.ledger.cur)) := by
  constructor
  · intro as w hstart hclean h p hp
    have hpub := published_of_run_patched h
    have hatomic : w.ledger.Atomic p :=
      atomic_of_clean hstart hclean _ List.prefix_rfl w h p hp
    exact ⟨hpub.failsAt_eq_none hatomic, hpub.cur ▸ hpub.exists_iterations hatomic⟩
  · intro as w hstart hclean h p hp
    have hpub := published_of_run_prePatch h
    obtain ⟨f, hf⟩ := oldServes_of_run hstart hclean h
    have hatomic : w.ledger.Atomic p := hf.whole.atomic ((hf.attached p).mpr hp)
    exact ⟨hpub.failsAt_eq_none hatomic, hpub.cur ▸ hpub.exists_iterations hatomic⟩

/-- **The subscriber of a pipe activated in the middle of a message fails at the next part**
that is sent to it, before the patch.  All parts it received before are in order, and it
waits at the start of its loop; the first assertion there, on the size, fails.  The pipe
then holds a torn message. -/
theorem fails_where_activated {as : List (Action α)} {w v u : OldWorld α Sent} {p : α}
    {refuses : α → Bool} (hstart : Along oldStep OldRefusesAtStart OldWorld.init (events .start as))
    (hclean : Along oldStep OldClean OldWorld.init (events .start as))
    (h : run oldStep OldWorld.init (events .start as) = some w)
    (hmid : (placeAfter .start as).place ≠ .first)
    (hv : oldStep w (.activated p) = some v) (hr : refuses p = false)
    (hu : oldStep v ((Action.publish refuses).event (placeAfter .start as)) = some u) :
    failsAt (Sub2.step zmq contents) .start ((w.ledger.took p).map Sent.part) = none ∧
      (∃ n, run (Sub2.step zmq contents) .start ((w.ledger.took p).map Sent.part) =
          some ⟨n, .first⟩ ∧
        Sub2.receive zmq contents ⟨n, .first⟩ (placeAfter .start as).sends.part =
          .error (.size topicPart.size)) ∧
      failsAt (Sub2.step zmq contents) .start ((u.ledger.took p).map Sent.part) =
        some (w.ledger.took p).length ∧
      ¬ u.ledger.Atomic p := by
  have hpub := published_of_run_prePatch h
  obtain ⟨f, hf⟩ := oldServes_of_run hstart hclean h
  have hm : w.dist.more = true := by
    rw [← Bool.not_eq_false]
    intro hm
    have hcur := hf.whole.cur_eq_nil (hf.more.trans hm)
    rw [hpub.cur, List.map_eq_nil_iff] at hcur
    exact before_ne_nil hmid hcur
  obtain ⟨hledger, ⟨ms, hms, htook⟩, haccepts⟩ := hf.activated hm hv
  have htorn : ¬ u.ledger.Atomic p := hf.not_atomic_of_activated hm hv hr hu hpub.nodup
  obtain ⟨-, rfl⟩ := oldStep_send_eq_some.mp hu
  -- The subscriber waits for the first part of a message.
  rw [hpub.done] at hms
  obtain ⟨is, -, rfl⟩ := List.sublist_map_iff.mp hms
  rw [← List.flatMap_def] at htook
  have hrun : run (Sub2.step zmq contents) .start ((w.ledger.took p).map Sent.part) =
      some ⟨is.length, .first⟩ := by
    rw [htook, map_part_flatMap_emitOnce]
    exact Sub2.run_wholeMessages is.length
  have hreceive : Sub2.receive zmq contents ⟨is.length, .first⟩ (placeAfter .start as).sends.part =
      .error (.size topicPart.size) := Sub2.receive_first_of_size_ne (size_ne_topicPart hmid)
  refine ⟨failsAt_eq_none_iff.mpr (by rw [hrun]; rfl), ⟨is.length, hrun, hreceive⟩, ?_, htorn⟩
  rw [Ledger.took_record_of_mem _ _ _ (haccepts refuses hr), hledger, List.map_append,
    failsAt_append hrun, List.length_map]
  -- It is sent another one.
  have hstop : Sub2.step zmq contents ⟨is.length, .first⟩ (placeAfter .start as).sends.part =
      none := by
    rw [Sub2.step, hreceive]
    rfl
  rw [List.map_singleton, failsAt_cons_of_none hstop]
  simp

/-- One message is sent, and the only pipe is full when the next one begins. -/
def fullAtTopic : List (Action ℕ) :=
  [.attach 0, .publish fun _ => false, .publish fun _ => false, .publish fun _ => false,
    .publish fun _ => true]

theorem oldRefusesAtStart_fullAtTopic :
    Along oldStep OldRefusesAtStart OldWorld.init (events .start fullAtTopic) := by
  have hbefore : run oldStep OldWorld.init (events .start (fullAtTopic.take 4)) = some _ := rfl
  have hlast := along_concat (C := OldRefusesAtStart) hbefore
    ((Action.publish fun _ => true).event ⟨1, .first⟩)
  refine hlast.mpr ⟨?_, ?_⟩
  · simp [fullAtTopic, events, Action.event, Along, OldRefusesAtStart]
  · intro hm
    exact absurd hm (by decide)

/-- The subscriber has accepted the whole message. -/
theorem no_assertion_fails_full :
    ∃ w, run oldStep OldWorld.init (events .start fullAtTopic) = some w ∧
      failsAt (Sub2.step libzmq fun _ => 0) .start ((w.ledger.took 0).map Sent.part) = none := by
  refine ⟨_, rfl, ((no_assertion_fails libzmq fun _ => 0).2 fullAtTopic _
    oldRefusesAtStart_fullAtTopic ?_ rfl 0 (by decide)).1⟩
  simp [fullAtTopic, events, Action.event, Along, OldClean]

/-- Activated before the next part, it makes its subscriber fail at the fourth part it
receives, which has the size of a second one. -/
theorem fails_behind_topic :
    ∃ w v u, run oldStep OldWorld.init (events .start fullAtTopic) = some w ∧
      oldStep w (.activated 0) = some v ∧
      oldStep v (.send ⟨1, seqPart⟩ true fun _ => false) = some u ∧
      Sub2.receive libzmq (fun _ => 0) ⟨1, .first⟩ seqPart = .error (.size 5) ∧
      failsAt (Sub2.step libzmq fun _ => 0) .start ((u.ledger.took 0).map Sent.part) = some 3 ∧
      ¬ u.ledger.Atomic 0 := by
  have hclean : Along oldStep OldClean OldWorld.init (events .start fullAtTopic) := by
    simp [fullAtTopic, events, Action.event, Along, OldClean]
  refine ⟨_, _, _, rfl, rfl, rfl, rfl, ?_⟩
  exact (fails_where_activated libzmq (fun _ => 0) oldRefusesAtStart_fullAtTopic hclean rfl
    (by decide) rfl rfl rfl).2.2

end Subscriber
end ZmqIssues
