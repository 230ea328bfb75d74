import Mathlib.Data.List.Basic
import Mathlib.Data.List.Infix
import Mathlib.Tactic.Common

/-!
# Messages of several parts

A message travels as a row of parts, each with a flag that tells whether more parts of the
message follow.  The flags are all that keeps the messages apart.

## Main definitions

* `FlaggedPart` — a part with its flag.
* `parts` — the parts of a message.
* `messages` — the complete messages in a row of parts.

## Main results

* `messages_flatMap_parts` — the messages are recovered from their parts.
* `messages_isPrefix` — what is complete stays when more parts come.
* `flatMap_parts_isPrefix_iff` — messages follow each other just as their parts do.
-/

namespace ZmqIssues
namespace Multipart

variable {α : Type*}

/-- A part of a message. -/
structure FlaggedPart (α : Type*) where
  /-- What the part contains. -/
  data : α
  /-- Do more parts of the message follow? -/
  more : Bool
  deriving DecidableEq, Repr

/-- The parts of a message. -/
def parts : List α → List (FlaggedPart α)
  | [] => []
  | [a] => [⟨a, false⟩]
  | a :: b :: m => ⟨a, true⟩ :: parts (b :: m)

/-- The complete messages in a row of parts. -/
def messages : List (FlaggedPart α) → List (List α)
  | [] => []
  | p :: ps =>
    if p.more then
      match messages ps with
      | [] => []
      | m :: ms => (p.data :: m) :: ms
    else
      [p.data] :: messages ps

@[simp] theorem parts_nil : parts ([] : List α) = [] := rfl

@[simp] theorem parts_singleton (a : α) : parts [a] = [⟨a, false⟩] := rfl

@[simp] theorem parts_cons_cons (a b : α) (m : List α) :
    parts (a :: b :: m) = ⟨a, true⟩ :: parts (b :: m) := rfl

@[simp] theorem messages_nil : messages ([] : List (FlaggedPart α)) = [] := rfl

@[simp] theorem messages_cons_last (a : α) (ps : List (FlaggedPart α)) :
    messages (⟨a, false⟩ :: ps) = [a] :: messages ps := rfl

theorem messages_cons_more {a : α} {ps : List (FlaggedPart α)} {m : List α} {ms : List (List α)}
    (h : messages ps = m :: ms) : messages (⟨a, true⟩ :: ps) = (a :: m) :: ms := by
  simp [messages, h]

@[simp] theorem length_parts (m : List α) : (parts m).length = m.length := by
  fun_induction parts m with
  | case1 => rfl
  | case2 => rfl
  | case3 a b m ih => simp [ih]

@[simp] theorem map_data_parts (m : List α) : (parts m).map FlaggedPart.data = m := by
  fun_induction parts m with
  | case1 => rfl
  | case2 => rfl
  | case3 a b m ih => simp [ih]

/-- The first message is read off its parts. -/
theorem messages_parts_append {m : List α} (hm : m ≠ []) (ps : List (FlaggedPart α)) :
    messages (parts m ++ ps) = m :: messages ps := by
  fun_induction parts m with
  | case1 => exact absurd rfl hm
  | case2 => rfl
  | case3 a b m ih => exact messages_cons_more (ih (List.cons_ne_nil b m))

/-- **The messages are recovered from their parts.** -/
theorem messages_flatMap_parts {ms : List (List α)} (h : ∀ m ∈ ms, m ≠ []) :
    messages (ms.flatMap parts) = ms := by
  induction ms with
  | nil => rfl
  | cons m ms ih =>
    rw [List.flatMap_cons, messages_parts_append (h m List.mem_cons_self),
      ih fun m' hm' => h m' (List.mem_cons_of_mem m hm')]

/-- **What is complete stays when more parts come.** -/
theorem messages_isPrefix (ps qs : List (FlaggedPart α)) : messages ps <+: messages (ps ++ qs) := by
  induction ps with
  | nil => exact List.nil_prefix
  | cons p ps ih =>
    obtain ⟨a, more⟩ := p
    cases more with
    | false => exact List.cons_prefix_cons.mpr ⟨rfl, ih⟩
    | true =>
      cases hps : messages ps with
      | nil => simp [messages, hps]
      | cons m ms =>
        -- the first message was complete, and stays the first one
        rw [hps] at ih
        obtain ⟨t, ht⟩ := ih
        rw [List.cons_append, messages_cons_more hps, messages_cons_more ht.symm]
        exact ⟨t, rfl⟩

/-- **Messages follow each other just as their parts do.** -/
theorem flatMap_parts_isPrefix_iff {ms ns : List (List α)} (hm : ∀ m ∈ ms, m ≠ [])
    (hn : ∀ n ∈ ns, n ≠ []) : ms.flatMap parts <+: ns.flatMap parts ↔ ms <+: ns := by
  constructor
  · rintro ⟨ps, hps⟩
    have h := messages_isPrefix (ms.flatMap parts) ps
    rwa [hps, messages_flatMap_parts hm, messages_flatMap_parts hn] at h
  · rintro ⟨rest, rfl⟩
    rw [List.flatMap_append]
    exact List.prefix_append _ _

end Multipart
end ZmqIssues
