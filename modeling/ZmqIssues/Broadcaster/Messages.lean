import ZmqIssues.Lib.CStrings
import ZmqIssues.Lib.Lines
import ZmqIssues.Lib.Reader

/-!
# What the broadcaster of issue 526 sends

The program reads its input with `fgets` into a buffer of 1024 bytes, cuts off the last byte
of what it has read, which it takes for the end of the line, and sends the rest behind a
header.  So a line of more than 1022 bytes is sent in pieces, each without its last byte, and a
last line that is not ended loses its last byte.  Where the input has a zero, `strlen` does
not see what follows it, and if the zero comes first, the program writes in front of the
buffer.

## Main definitions

* `cutLast` — `message [strlen (message) - 1] = 0`.
* `broadcast` — the loop: all messages it sends, until the input ends.

## Main results

* `broadcast_eq_lines_iff` — **the messages are the lines of the input just if every line is
  ended, fits in the buffer, and has no zero.**
* `broadcast_underrun_iff` — the write in front of the buffer happens just if some line has a
  zero where a piece of it begins.
-/

namespace ZmqIssues
namespace Broadcaster

open CStrings Lines Reader

/-- A write in front of the buffer. -/
inductive Stop
  /-- `message [-1] = 0`. -/
  | underrun
  deriving DecidableEq, Repr

/-- The end of a line. -/
def newline : UInt8 := 10

/-- `"pieter: "`. -/
def header : List UInt8 := bytes "pieter: "

/-- `message [strlen (message) - 1] = 0`: the string that is left. -/
def cutLast (message : List UInt8) : Except Stop (List UInt8) :=
  let string := (CString.ofBuffer message).1
  if string = [] then .error .underrun else .ok string.dropLast

/-- The loop of the program: the messages it sends until its input ends.  Where it writes in
front of the buffer, the messages sent before are not part of the result. -/
def broadcast (input : List UInt8) : Except Stop (List (List UInt8)) :=
  match _h : fgets newline 1024 input with
  | none => .ok []
  | some (message, rest) => do
    let string ← cutLast message
    let ms ← broadcast rest
    return (header ++ string) :: ms
  termination_by input.length
  decreasing_by exact length_lt_of_fgets (by decide) _h

/-! ### One round of the loop -/

theorem broadcast_nil : broadcast [] = .ok [] := by
  rw [broadcast, fgets_nil]

theorem broadcast_of_fgets {input message rest : List UInt8}
    (h : fgets newline 1024 input = some (message, rest)) :
    broadcast input = do
      let string ← cutLast message
      let ms ← broadcast rest
      return (header ++ string) :: ms := by
  rw [broadcast]
  split
  · next hnone => exact absurd (h.symm.trans hnone) (by simp)
  · next message' rest' hsome =>
    obtain ⟨rfl, rfl⟩ := Prod.mk.inj (Option.some.inj (h.symm.trans hsome))
    rfl

/-- The first message is what is left of the first piece. -/
theorem broadcast_eq_cons_iff {input message rest l : List UInt8} {ms : List (List UInt8)}
    (h : fgets newline 1024 input = some (message, rest)) :
    broadcast input = .ok ((header ++ l) :: ms) ↔
      cutLast message = .ok l ∧ broadcast rest = .ok ms := by
  rw [broadcast_of_fgets h]
  cases hcut : cutLast message with
  | error e => simp
  | ok string =>
    cases hrest : broadcast rest with
    | error e => simp [ok_bind]
    | ok ms' => simp [ok_bind, pure, Except.pure]

/-- A line that is ended and has no zero is left as it was. -/
theorem cutLast_line {l : List UInt8} (hzero : (0 : UInt8) ∉ l) :
    cutLast (l ++ [newline]) = .ok l := by
  have hstring : (CString.ofBuffer (l ++ [newline])).1 = l ++ [newline] :=
    CString.ofBuffer_self (by simp [hzero, newline])
  simp [cutLast, hstring]

/-- What is left is shorter. -/
theorem length_lt_of_cutLast {message string : List UInt8} (h : cutLast message = .ok string) :
    string.length < message.length := by
  have hle : (CString.ofBuffer message).1.length ≤ message.length :=
    (List.takeWhile_prefix _).length_le
  simp only [cutLast] at h
  split at h
  · exact absurd h (by simp)
  · next hne =>
    have hpos := List.length_pos_iff.mpr hne
    rw [Except.ok.injEq] at h
    rw [← h, List.length_dropLast]
    omega

/-- A zero shortens the line. -/
theorem cutLast_ne_of_mem {l : List UInt8} (hzero : (0 : UInt8) ∈ l) :
    cutLast (l ++ [newline]) ≠ .ok l := by
  obtain ⟨s, t, rfl, hs⟩ := List.eq_append_cons_of_mem hzero
  have hstring : (CString.ofBuffer (s ++ 0 :: t ++ [newline])).1 = s := by
    rw [List.append_assoc]
    exact CString.ofBuffer_append hs (t ++ [newline])
  intro h
  simp only [cutLast, hstring] at h
  split at h
  · exact absurd h (by simp)
  · have hlength := congrArg List.length (Except.ok.inj h)
    rw [List.length_dropLast, List.length_append, List.length_cons] at hlength
    omega

/-! ### The messages -/

/-- The last line of an input is ended. -/
def Ended (input : List UInt8) : Prop := ∀ last ∈ input.getLast?, last = newline

theorem ended_append_cons (l rest : List UInt8) : Ended (l ++ newline :: rest) ↔ Ended rest := by
  cases rest with
  | nil => simp [Ended]
  | cons b rest => simp [Ended, List.getLast?_append, List.getLast?_cons_cons]

theorem not_ended {last : List UInt8} (hlast : newline ∉ last) (hne : last ≠ []) :
    ¬ Ended last := by
  intro h
  have heq := h _ (List.getLast?_eq_some_getLast hne)
  exact hlast (heq ▸ List.getLast_mem hne)

/-- **The messages are the lines of the input just if every line is ended, fits in the buffer
and has no zero.**  In particular a last line that is not ended, or one line of more than
1022 bytes, is enough to change them. -/
theorem broadcast_eq_lines_iff (input : List UInt8) :
    broadcast input = .ok ((lines newline input).map (header ++ ·)) ↔
      Ended input ∧ ∀ l ∈ lines newline input, l.length ≤ 1022 ∧ (0 : UInt8) ∉ l := by
  induction hn : input.length using Nat.strong_induction_on generalizing input with
  | _ n ih =>
    rcases text_cases newline input with rfl | ⟨l, rest, hl, rfl⟩ | ⟨hlast, hne⟩
    · simp [broadcast_nil, Ended]
    · rw [lines_line hl, List.map_cons, List.forall_mem_cons, ended_append_cons]
      rcases Nat.lt_or_ge 1022 l.length with hlong | hfits
      · -- the first message ends in front of the line's last byte
        have hread := fgets_long (n := 1024) hl (by omega) (List.ne_nil_of_length_pos (by omega))
          (newline :: rest)
        rw [broadcast_eq_cons_iff hread]
        constructor
        · rintro ⟨hcut, -⟩
          have hlt := length_lt_of_cutLast hcut
          rw [List.length_take] at hlt
          omega
        · rintro ⟨-, ⟨hle, -⟩, -⟩
          omega
      · have hread := fgets_line (n := 1024) hl (by omega) rest
        have hcut : cutLast (l ++ [newline]) = .ok l ↔ (0 : UInt8) ∉ l :=
          ⟨fun h hzero => cutLast_ne_of_mem hzero h, cutLast_line⟩
        have hlt : rest.length < n := by
          rw [← hn, List.length_append, List.length_cons]
          omega
        rw [broadcast_eq_cons_iff hread, ih rest.length hlt rest rfl, hcut]
        tauto
    · -- the last byte of the last line is cut off, or the line is sent in pieces
      have hread : ∃ message rest, fgets newline 1024 input = some (message, rest) ∧
          message.length ≤ input.length := by
        rcases Nat.lt_or_ge (input.length + 1) 1024 with hfits | hlong
        · exact ⟨input, [], fgets_last hlast hfits hne, Nat.le_refl _⟩
        · have hread := fgets_long hlast hlong hne []
          rw [List.append_nil] at hread
          exact ⟨_, _, hread, by rw [List.length_take]; exact Nat.min_le_right _ _⟩
      obtain ⟨message, rest, hread, hle⟩ := hread
      rw [lines_last hlast hne, List.map_cons, broadcast_eq_cons_iff hread]
      constructor
      · rintro ⟨hcut, -⟩
        exact absurd (length_lt_of_cutLast hcut) (Nat.not_lt.mpr hle)
      · rintro ⟨hended, -⟩
        exact absurd hended (not_ended hlast hne)

/-! ### The write in front of the buffer -/

theorem cutLast_eq_error_iff {message : List UInt8} (hne : message ≠ []) :
    cutLast message = .error .underrun ↔ message[0]? = some 0 := by
  obtain ⟨b, message, rfl⟩ := List.exists_cons_of_ne_nil hne
  by_cases hb : b = 0 <;> simp [cutLast, CString.ofBuffer, hb]

/-- The first piece begins with a zero, or the loop gets behind it. -/
theorem broadcast_eq_error_iff {input message rest : List UInt8}
    (h : fgets newline 1024 input = some (message, rest)) (hne : message ≠ []) :
    broadcast input = .error .underrun ↔
      message[0]? = some 0 ∨ broadcast rest = .error .underrun := by
  rw [broadcast_of_fgets h, ← cutLast_eq_error_iff hne]
  cases hcut : cutLast message with
  | error e => simp [error_bind]
  | ok string =>
    cases hrest : broadcast rest with
    | error e => simp [ok_bind]
    | ok ms => simp [ok_bind, pure, Except.pure]

/-- Some piece of a line begins with a zero: the pieces of 1023 bytes that a long line is read
in, and what is left of it. -/
def ZeroFirst (l : List UInt8) : Prop := ∃ k, l[1023 * k]? = some 0

theorem zeroFirst_short {l : List UInt8} (hl : l.length ≤ 1023) :
    ZeroFirst l ↔ l[0]? = some 0 := by
  constructor
  · rintro ⟨k, hk⟩
    obtain ⟨hlt, -⟩ := List.getElem?_eq_some_iff.mp hk
    obtain rfl : k = 0 := by omega
    exact hk
  · intro h
    exact ⟨0, h⟩

theorem zeroFirst_long (l : List UInt8) :
    ZeroFirst l ↔ l[0]? = some 0 ∨ ZeroFirst (l.drop 1023) := by
  constructor
  · rintro ⟨k, hk⟩
    cases k with
    | zero => exact .inl hk
    | succ k =>
      refine .inr ⟨k, ?_⟩
      rw [List.getElem?_drop, ← hk]
      congr 1
      omega
  · rintro (h | ⟨k, hk⟩)
    · exact ⟨0, h⟩
    · refine ⟨k + 1, ?_⟩
      rw [List.getElem?_drop] at hk
      rw [← hk]
      congr 1
      omega

/-- **The program writes in front of its buffer just if a line has a zero where a piece of it
begins**: at the start of the line, or a multiple of 1023 bytes behind it. -/
theorem broadcast_underrun_iff (input : List UInt8) :
    broadcast input = .error .underrun ↔ ∃ l ∈ lines newline input, ZeroFirst l := by
  induction hn : input.length using Nat.strong_induction_on generalizing input with
  | _ n ih =>
    rcases text_cases newline input with rfl | ⟨l, rest, hl, rfl⟩ | ⟨hlast, hne⟩
    · simp [broadcast_nil]
    · rw [lines_line hl, List.exists_mem_cons_iff]
      rcases Nat.lt_or_ge 1022 l.length with hlong | hfits
      · have hread := fgets_long (n := 1024) hl (by omega) (List.ne_nil_of_length_pos (by omega))
          (newline :: rest)
        have hdrop : newline ∉ l.drop 1023 := fun h => hl (List.mem_of_mem_drop h)
        have hlt : (l.drop 1023 ++ newline :: rest).length < n := by
          rw [← hn, List.length_append, List.length_append, List.length_drop]
          omega
        have hne : l.take 1023 ≠ [] := List.ne_nil_of_length_pos (by rw [List.length_take]; omega)
        rw [broadcast_eq_error_iff hread hne, ih _ hlt _ rfl, lines_line hdrop,
          List.exists_mem_cons_iff, zeroFirst_long l, or_assoc]
        simp
      · have hread := fgets_line (n := 1024) hl (by omega) rest
        have hlt : rest.length < n := by
          rw [← hn, List.length_append, List.length_cons]
          omega
        have hfirst : (l ++ [newline])[0]? = some 0 ↔ l[0]? = some 0 := by
          cases l <;> simp [newline]
        rw [broadcast_eq_error_iff hread (by simp), ih rest.length hlt rest rfl,
          zeroFirst_short (by omega), hfirst]
    · rw [lines_last hlast hne, List.exists_mem_cons_iff]
      rcases Nat.lt_or_ge (input.length + 1) 1024 with hfits | hlong
      · have hread := fgets_last (n := 1024) hlast hfits hne
        rw [broadcast_eq_error_iff hread hne, broadcast_nil, zeroFirst_short (by omega)]
        simp
      · have hread := fgets_long hlast hlong hne []
        rw [List.append_nil, List.append_nil] at hread
        have hdrop : newline ∉ input.drop 1023 := fun h => hlast (List.mem_of_mem_drop h)
        have hlt : (input.drop 1023).length < n := by
          rw [← hn, List.length_drop]
          omega
        have htake : input.take 1023 ≠ [] :=
          List.ne_nil_of_length_pos (by rw [List.length_take]; omega)
        rw [broadcast_eq_error_iff hread htake, ih _ hlt _ rfl, zeroFirst_long input]
        by_cases hnil : input.drop 1023 = []
        · simp [hnil, ZeroFirst]
        · rw [lines_last hdrop hnil]
          simp

end Broadcaster
end ZmqIssues
