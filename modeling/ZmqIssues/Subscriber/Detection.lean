import ZmqIssues.Subscriber.Loops

/-!
# What the subscriber of issue 191 detects

The transport may lose any parts of the stream the publisher sends.  The
subscriber asserts sizes and more flags only, and all messages look alike, so it
cannot tell a message from parts of several ones: a loss that begins behind one
part of a message and ends in front of the next part of a later message goes
unnoticed.  Such a loss always takes a multiple of three parts, so every shorter
loss inside a message is detected.

## Main definitions

* `position` — the index of a part in the stream the publisher sends.
* `Triple` — the parts one round of the subscriber accepts.

## Main results

* `map_position_emit` — the parts are sent in the order of their positions.
* `accepted_triples` — **what the subscriber accepts, and when it is whole messages.**
* `mixed_message_accepted` — parts of two messages pass all assertions.
-/

namespace ZmqIssues
namespace Subscriber

open List Reader

/-! ### The order of the parts -/

/-- The place of a part in its message. -/
def slot (p : Part) : ℕ := if p = topicPart then 0 else if p = seqPart then 1 else 2

/-- The index of a part in the stream the publisher sends. -/
def position (s : Sent) : ℕ := 3 * s.iteration + slot s.part

@[simp] theorem position_topic (i : ℕ) : position ⟨i, topicPart⟩ = 3 * i := rfl

@[simp] theorem position_seq (i : ℕ) : position ⟨i, seqPart⟩ = 3 * i + 1 := rfl

@[simp] theorem position_body (i : ℕ) : position ⟨i, bodyPart⟩ = 3 * i + 2 := rfl

/-- The parts are sent in the order of their positions, without a gap. -/
theorem map_position_emit (n : ℕ) : (emit n).map position = List.range (3 * n) := by
  induction n with
  | zero => rfl
  | succ n ih =>
    have hlast : (emitOnce n).map position = [3 * n, 3 * n + 1, 3 * n + 2] := rfl
    have hsplit : emit (n + 1) = emit n ++ emitOnce n := by
      simp [emit, List.range_succ]
    rw [hsplit, List.map_append, ih, hlast, show 3 * (n + 1) = 3 * n + 1 + 1 + 1 by omega,
      List.range_succ, List.range_succ, List.range_succ]
    simp

/-- Whatever the transport loses, the delivered parts are in the order of their positions. -/
theorem pairwise_position {n : ℕ} {delivered : List Sent} (h : delivered <+ emit n) :
    delivered.Pairwise fun x y => position x < position y := by
  apply List.pairwise_map.mp
  apply List.Pairwise.sublist (h.map position)
  rw [map_position_emit]
  exact List.pairwise_lt_range

/-- Number of parts sent between two parts. -/
def sentBetween (x y : Sent) : ℕ := position y - position x - 1

/-! ### Triples -/

/-- The parts one round accepts: the send iterations they come from. -/
structure Triple where
  /-- Where the first part comes from. -/
  first : ℕ
  /-- Where the second part comes from. -/
  second : ℕ
  /-- Where the third part comes from. -/
  third : ℕ
  deriving DecidableEq, Repr

namespace Triple

/-- The delivered parts. -/
def parts (t : Triple) : List Sent :=
  [⟨t.first, topicPart⟩, ⟨t.second, seqPart⟩, ⟨t.third, bodyPart⟩]

/-- The parts lost behind the first part. -/
def lostAfterFirst (t : Triple) : ℕ := sentBetween ⟨t.first, topicPart⟩ ⟨t.second, seqPart⟩

/-- The parts lost behind the second part. -/
def lostAfterSecond (t : Triple) : ℕ := sentBetween ⟨t.second, seqPart⟩ ⟨t.third, bodyPart⟩

/-- The three parts come from one send iteration. -/
def IsWhole (t : Triple) : Prop := t.first = t.second ∧ t.second = t.third

/-- The parts come from the same or from later iterations. -/
def Ordered (t : Triple) : Prop := t.first ≤ t.second ∧ t.second ≤ t.third

theorem Ordered.lostAfterFirst_eq {t : Triple} (h : t.Ordered) :
    t.lostAfterFirst = 3 * (t.second - t.first) := by
  have := h.1
  simp only [lostAfterFirst, sentBetween, position_topic, position_seq]
  omega

theorem Ordered.lostAfterSecond_eq {t : Triple} (h : t.Ordered) :
    t.lostAfterSecond = 3 * (t.third - t.second) := by
  have := h.2
  simp only [lostAfterSecond, sentBetween, position_seq, position_body]
  omega

/-- A triple is whole exactly when fewer than three parts were lost at a time inside it. -/
theorem Ordered.isWhole_iff {t : Triple} (h : t.Ordered) :
    t.IsWhole ↔ t.lostAfterFirst < 3 ∧ t.lostAfterSecond < 3 := by
  rw [h.lostAfterFirst_eq, h.lostAfterSecond_eq]
  obtain ⟨h₁, h₂⟩ := h
  unfold IsWhole
  omega

end Triple

/-- What the rounds accept is a sequence of triples. -/
theorem exists_triples {delivered : List Sent} {gs : List (List Part)}
    (hgs : ∀ g ∈ gs, g = [topicPart, seqPart, bodyPart])
    (h : delivered.map Sent.part = gs.flatten) :
    ∃ ts : List Triple, ts.length = gs.length ∧ delivered = ts.flatMap Triple.parts := by
  induction gs generalizing delivered with
  | nil =>
    refine ⟨[], rfl, ?_⟩
    simpa using h
  | cons g gs ih =>
    rw [hgs g List.mem_cons_self, List.flatten_cons, List.cons_append, List.cons_append,
      List.singleton_append] at h
    obtain ⟨⟨i, _⟩, r₁, rfl, rfl, h₁⟩ := List.map_eq_cons_iff.mp h
    obtain ⟨⟨j, _⟩, r₂, rfl, rfl, h₂⟩ := List.map_eq_cons_iff.mp h₁
    obtain ⟨⟨k, _⟩, r₃, rfl, rfl, h₃⟩ := List.map_eq_cons_iff.mp h₂
    obtain ⟨ts, hlen, rfl⟩ := ih (fun g' hg' => hgs g' (List.mem_cons_of_mem g hg')) h₃
    refine ⟨⟨i, j, k⟩ :: ts, by simp [hlen], ?_⟩
    rfl

theorem ordered_of_pairwise {ts : List Triple}
    (h : (ts.flatMap Triple.parts).Pairwise fun x y => position x < position y) :
    (∀ t ∈ ts, t.Ordered) ∧ ts.Pairwise fun t u => t.third < u.first := by
  obtain ⟨hinside, hbetween⟩ := List.pairwise_flatMap.mp h
  constructor
  · intro t ht
    have hp := hinside t ht
    simp only [Triple.parts, List.pairwise_cons, List.mem_cons, List.not_mem_nil, or_false,
      forall_eq_or_imp, forall_eq, position_topic, position_seq, position_body] at hp
    constructor <;> omega
  · apply hbetween.imp
    intro t u htu
    -- the last part of a triple was sent before the first one of the next
    have := htu ⟨t.third, bodyPart⟩ (by simp [Triple.parts]) ⟨u.first, topicPart⟩
      (by simp [Triple.parts])
    rw [position_body, position_topic] at this
    omega

/-- Whole messages are the sequences of whole triples. -/
theorem exists_flatMap_emitOnce_iff {ts : List Triple} :
    (∃ is : List ℕ, ts.flatMap Triple.parts = is.flatMap emitOnce) ↔ ∀ t ∈ ts, t.IsWhole := by
  constructor
  · intro h
    obtain ⟨is, h⟩ := h
    -- both lists give three parts for each of their members
    induction ts generalizing is with
    | nil => simp
    | cons t ts ih =>
      cases is with
      | nil => simp [Triple.parts] at h
      | cons i is =>
        simp only [List.flatMap_cons, Triple.parts, emitOnce, List.cons_append, List.nil_append,
          List.cons.injEq, Sent.mk.injEq, and_true] at h
        obtain ⟨h₁, h₂, h₃, hrest⟩ := h
        intro u hu
        rcases List.mem_cons.mp hu with rfl | hu
        · exact ⟨h₁.trans h₂.symm, h₂.trans h₃.symm⟩
        · exact ih is hrest u hu
  · intro h
    refine ⟨ts.map Triple.first, ?_⟩
    rw [List.flatMap_map]
    apply List.flatMap_congr
    intro t ht
    obtain ⟨h₁, h₂⟩ := h t ht
    simp [Triple.parts, emitOnce, ← h₂, ← h₁]

/-! ### What the subscriber accepts -/

/-- **What the subscriber accepts, and when it is whole messages.**  The rounds that
pass all assertions accept one triple each, made of parts of the same or of later send
iterations.  The parts lost inside a triple are multiples of three, and the delivered
parts are whole messages exactly when fewer than three were lost at a time inside
every triple. -/
theorem accepted_triples {N n : ℕ} {delivered : List Sent} (hsub : delivered <+ emit N)
    (hpass : iterate receiveRound n (delivered.map Sent.part) = .ok []) :
    ∃ ts : List Triple, ts.length = n ∧ delivered = ts.flatMap Triple.parts ∧
      (∀ t ∈ ts, t.Ordered ∧ t.lostAfterFirst = 3 * (t.second - t.first) ∧
        t.lostAfterSecond = 3 * (t.third - t.second)) ∧
      (ts.Pairwise fun t u => t.third < u.first) ∧
      ((∃ is : List ℕ, delivered = is.flatMap emitOnce) ↔
        ∀ t ∈ ts, t.lostAfterFirst < 3 ∧ t.lostAfterSecond < 3) := by
  obtain ⟨gs, hlen, hgs, hparts⟩ := (iterate_eq_ok_iff fun _ _ => receiveRound_eq_ok).mp hpass
  rw [List.append_nil] at hparts
  -- sizes and flags give the triples, and the order of sending the rest
  obtain ⟨ts, htl, rfl⟩ := exists_triples hgs hparts
  obtain ⟨hord, hbetween⟩ := ordered_of_pairwise (pairwise_position hsub)
  refine ⟨ts, htl.trans hlen, rfl, ?_, hbetween, ?_⟩
  · intro t ht
    have h := hord t ht
    exact ⟨h, h.lostAfterFirst_eq, h.lostAfterSecond_eq⟩
  · rw [exists_flatMap_emitOnce_iff]
    exact forall₂_congr fun t ht => (hord t ht).isWhole_iff

/-- The first part of one message, and the other parts of the next one. -/
def mixedMessage : List Sent := [⟨0, topicPart⟩, ⟨1, seqPart⟩, ⟨1, bodyPart⟩]

theorem mixedMessage_sublist : mixedMessage <+ emit 2 := by decide

/-- The subscriber accepts it: three parts were lost behind its first one. -/
theorem accepted_triples_mixedMessage :
    ∃ ts : List Triple, ts.length = 1 ∧ mixedMessage = ts.flatMap Triple.parts ∧
      ∀ t ∈ ts, t.Ordered := by
  obtain ⟨ts, hlen, hts, hord, -⟩ := accepted_triples (n := 1) mixedMessage_sublist rfl
  exact ⟨ts, hlen, hts, fun t ht => (hord t ht).1⟩

/-- **Parts of two messages pass all assertions.** -/
theorem mixed_message_accepted :
    mixedMessage <+ emit 2 ∧
      iterate receiveRound 1 (mixedMessage.map Sent.part) = .ok [] ∧
      ¬ ∃ is : List ℕ, mixedMessage = is.flatMap emitOnce := by
  refine ⟨by decide, rfl, ?_⟩
  intro h
  obtain ⟨is, h⟩ := h
  have hwhole : ∀ t ∈ [Triple.mk 0 1 1], t.IsWhole := exists_flatMap_emitOnce_iff.mp ⟨is, h⟩
  exact absurd (hwhole ⟨0, 1, 1⟩ List.mem_cons_self).1 (by decide)

end Subscriber
end ZmqIssues
