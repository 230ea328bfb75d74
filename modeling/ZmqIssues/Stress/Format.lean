import ZmqIssues.Stress.Versions

/-!
# The documented format and what the server accepts

The comment above `stress` gives the format of a message: all parts start with the prefix
of the message, and each has its own text behind it.  The server compares sizes for the
last five parts.  Of the first part it only looks at the prefix and the six bytes behind
it, so anything may follow, and the six bytes need not even belong to the frame.  The
length of the prefix is kept in an `int`, so a prefix of 2 GiB is refused, and so are
other frames that are too long.

## Main definitions

* `runOf` — the prefix the server finds in the memory of a frame.
* `Documented` — seven frames in the documented format.
* `Agrees` — what the format and the checks of the server have in common.

## Main results

* `documented_iff`, `accepted_iff` — what each of the two asks for beside that.
* `accepts_documented_iff` — **the server accepts the documented format exactly if the
  first part ends behind `"stress"`, just in case the frames are short enough.**
-/

namespace ZmqIssues
namespace Stress

open CStrings Reader

/-- The run of prefix bytes at the start of the memory. -/
def runOf (memory : List UInt8) : List UInt8 := memory.takeWhile isPrefixByte

/-- Seven frames in the documented format, with the prefix `id`. -/
structure Documented (identity first : Frame) (rest : List Frame) (id : List UInt8) : Prop where
  /-- The identity frame is not the last one. -/
  identity_more : identity.more = true
  /-- The first part is not the last one. -/
  first_more : first.more = true
  /-- The prefix is not empty. -/
  ne_nil : id ≠ []
  /-- It consists of digits and dots. -/
  isPrefixByte : ∀ b ∈ id, isPrefixByte b = true
  /-- The first part is the prefix and `"stress"`. -/
  first_eq : first.data = id ++ bytes "stress"
  /-- The other parts are the prefix and their texts. -/
  rest_eq : rest.map (fun f => (f.data, f.more)) = followers id

/-- What the format and the checks of the server have in common. -/
structure Agrees (identity first : Frame) (rest : List Frame) : Prop where
  /-- The identity frame is not the last one. -/
  identity_more : identity.more = true
  /-- The identity frame is not empty. -/
  identity_ne_nil : identity.data ≠ []
  /-- The first part is not the last one. -/
  first_more : first.more = true
  /-- The memory of the first part starts with a prefix. -/
  run_ne_nil : runOf first.memory ≠ []
  /-- Behind the prefix stands `"stress"`. -/
  isPrefix : runOf first.memory ++ bytes "stress" <+: first.memory
  /-- The other parts are the prefix and their texts. -/
  rest_eq : rest.map (fun f => (f.data, f.more)) = followers (runOf first.memory)

variable {identity first : Frame} {rest : List Frame}

theorem isPrefixByte_of_mem_runOf {memory : List UInt8} {b : UInt8} (h : b ∈ runOf memory) :
    isPrefixByte b = true :=
  List.mem_takeWhile_imp h

/-- `"stress"` ends a run of prefix bytes. -/
theorem runOf_append_stress {p : List UInt8} (hp : ∀ b ∈ p, isPrefixByte b = true)
    (t : List UInt8) : runOf (p ++ (bytes "stress" ++ t)) = p := by
  have hnil : (bytes "stress" ++ t).takeWhile isPrefixByte = [] := by
    rw [bytes_stress]
    exact List.takeWhile_cons_of_neg (by decide)
  rw [runOf, List.takeWhile_append_of_pos hp, hnil, List.append_nil]

theorem Starts.runOf_eq {memory id : List UInt8} (h : Starts memory id) : runOf memory = id := by
  obtain ⟨t, rfl⟩ := h.isPrefix
  rw [List.append_assoc]
  exact runOf_append_stress h.isPrefixByte t

/-- **What the server asks for**: the prefix fits an `int`. -/
theorem accepted_iff :
    (∃ id, Accepted identity first rest id) ↔
      Agrees identity first rest ∧ (runOf first.memory).length + 1 < 2 ^ 31 := by
  constructor
  · intro h
    obtain ⟨id, h⟩ := h
    obtain rfl := h.starts.runOf_eq
    exact ⟨⟨h.identity_more, h.identity_ne_nil, h.first_more, h.starts.ne_nil, h.starts.isPrefix,
      h.rest_eq⟩, h.starts.length_lt⟩
  · intro h
    obtain ⟨h, hlt⟩ := h
    have hstarts : Starts first.memory (runOf first.memory) :=
      ⟨h.run_ne_nil, fun _ => isPrefixByte_of_mem_runOf, hlt, h.isPrefix⟩
    exact ⟨_, h.identity_more, h.identity_ne_nil, h.first_more, hstarts, h.rest_eq⟩

/-- **What the format asks for**: the first part ends behind `"stress"`. -/
theorem documented_iff (hid : identity.data ≠ []) :
    (∃ id, Documented identity first rest id) ↔
      Agrees identity first rest ∧ first.size = (runOf first.memory).length + 6 := by
  constructor
  · intro h
    obtain ⟨id, h⟩ := h
    have hmemory : first.memory = id ++ (bytes "stress" ++ first.beyond) := by
      rw [Frame.memory, h.first_eq, List.append_assoc]
    have hrun : runOf first.memory = id := by
      rw [hmemory]
      exact runOf_append_stress h.isPrefixByte _
    refine ⟨⟨h.identity_more, hid, h.first_more, ?_, ?_, ?_⟩, ?_⟩
    · rw [hrun]
      exact h.ne_nil
    · rw [hrun, hmemory, ← List.append_assoc]
      exact List.prefix_append _ _
    · rw [hrun]
      exact h.rest_eq
    · rw [hrun, Frame.size, h.first_eq, List.length_append]
      rfl
  · intro h
    obtain ⟨h, hsize⟩ := h
    refine ⟨runOf first.memory, h.identity_more, h.first_more, h.run_ne_nil,
      fun _ => isPrefixByte_of_mem_runOf, ?_, h.rest_eq⟩
    -- the frame is as long as the part of its memory that was compared
    obtain ⟨t, ht⟩ := h.isPrefix
    refine (List.append_inj_left ht ?_).symm
    rw [List.length_append]
    exact hsize.symm

/-- The seven frames the server takes from its queue are those of the message. -/
theorem receiveMp_seven_eq_ok (v : Version) (heap : ℕ → UInt8) (hrest : rest.length = 5)
    (q : List Frame) :
    (∃ r, v.receiveMp heap (identity :: first :: rest ++ q) = .ok r) ↔
      (∃ id, Accepted identity first rest id) ∧ v.Fits identity first rest := by
  constructor
  · intro h
    obtain ⟨r, hr⟩ := h
    obtain ⟨hchecks, identity₁, first₁, rest₁, hq₁, hfits⟩ := (v.receiveMp_eq_ok_iff heap).mp hr
    obtain ⟨g, ⟨identity₂, first₂, rest₂, id, rfl, h⟩, hq₂⟩ := receiveMp_eq_ok.mp hchecks
    have hrest₂ : rest₂.length = 5 := by
      have := congrArg List.length h.rest_eq
      rwa [List.length_map] at this
    -- all three are the first seven frames
    obtain ⟨heq₂, rfl⟩ := List.append_inj hq₂ (by simp [hrest, hrest₂])
    obtain ⟨rfl, rfl, rfl⟩ : identity = identity₂ ∧ first = first₂ ∧ rest = rest₂ := by
      simpa using heq₂
    obtain ⟨rfl, rfl, rfl⟩ : identity = identity₁ ∧ first = first₁ ∧ rest = rest₁ := by
      simpa using hq₁
    exact ⟨⟨id, h⟩, hfits⟩
  · intro h
    obtain ⟨⟨id, h⟩, hfits⟩ := h
    have hchecks : receiveMp (identity :: first :: rest ++ q) = .ok q :=
      receiveMp_eq_ok.mpr ⟨_, ⟨identity, first, rest, id, rfl, h⟩, rfl⟩
    exact ⟨q, (v.receiveMp_eq_ok_iff heap).mpr ⟨hchecks, identity, first, rest, rfl, hfits⟩⟩

/-- **The server accepts the documented format exactly if the first part ends behind
`"stress"`, just in case the frames are short enough.**  For seven frames that meet every
other condition, the server's verdict is right if and only if the first part is no longer
and no shorter than the prefix and `"stress"`, just in case the prefix fits an `int`, the
identity has at most `2 ^ 30` bytes and the other frames can be received and printed; on
all other frames it is right. -/
theorem accepts_documented_iff (v : Version) (heap : ℕ → UInt8) (hid : identity.data ≠ [])
    (hrest : rest.length = 5) (q : List Frame) :
    ((∃ r, v.receiveMp heap (identity :: first :: rest ++ q) = .ok r) ↔
        ∃ id, Documented identity first rest id) ↔
      (Agrees identity first rest →
        (first.size = (runOf first.memory).length + 6 ↔
          (runOf first.memory).length + 1 < 2 ^ 31 ∧ v.Fits identity first rest)) := by
  rw [receiveMp_seven_eq_ok v heap hrest, accepted_iff, documented_iff hid, and_assoc]
  constructor
  · intro h hagrees
    constructor
    · intro hsize
      exact (h.mpr ⟨hagrees, hsize⟩).2
    · intro hfits
      exact (h.mp ⟨hagrees, hfits⟩).2
  · intro h
    exact and_congr_right fun hagrees => (h hagrees).symm

/-- The five parts behind the first one, with the prefix `"1."`. -/
def fiveParts : List Frame := (followers (bytes "1.")).map fun part => ⟨part.1, part.2, []⟩

theorem accepts_documented_iff_stress :
    (∃ r, Version.threeZero.receiveMp (fun _ => 0)
        (⟨[7], true, []⟩ :: ⟨bytes "1.stress", true, []⟩ :: fiveParts ++ []) = .ok r) ↔
      ∃ id, Documented ⟨[7], true, []⟩ ⟨bytes "1.stress", true, []⟩ fiveParts id := by
  refine (accepts_documented_iff .threeZero _ (by decide) (by decide) []).mpr ?_
  intro _
  refine iff_of_true (by decide) ⟨by decide, ?_, ?_⟩ <;> decide

/-- A message with a byte too many in its first part is accepted, although it is not in the
documented format. -/
theorem receiveMp_stressX :
    Version.threeZero.receiveMp (fun _ => 0)
        (⟨[7], true, []⟩ :: ⟨bytes "1.stressX", true, []⟩ :: fiveParts) = .ok [] ∧
      ¬ ∃ id, Documented ⟨[7], true, []⟩ ⟨bytes "1.stressX", true, []⟩ fiveParts id := by
  constructor
  · decide
  · intro h
    obtain ⟨-, hsize⟩ := (documented_iff (by decide)).mp h
    exact absurd hsize (by decide)

end Stress
end ZmqIssues
