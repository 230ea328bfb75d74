import Mathlib.Data.List.Forall2
import ZmqIssues.Lib.CStrings
import ZmqIssues.Lib.Multipart
import ZmqIssues.Lib.Reader

/-!
# Sending and receiving sequences of strings

`s_send_seq` sends its arguments as the frames of one message, a C string with its
terminating zero and a null pointer as an empty frame.  `s_recv_seq` receives one
message and compares its frames with its own arguments.  Here a socket is the
queue of the frames that wait at it, and a frame is never cut or lost.

A call of `s_recv_seq` ends at the first assertion that fails.  It may do worse: a
frame that is compared with a string is not known to be terminated, so that
`strcmp` may read on behind its end.

## Main definitions

* `Arg`, `Args` — the arguments of a call before `SEQ_END`.
* `sSendSeq`, `sRecvSeq` — the two functions.
* `Differs stop x y` — the frame sent for `y` stops a receiver that expects `x`.
* `sSend`, `sSendmore`, `sRecv` — the functions for a single frame.

## Main results

* `recvAll_sendAll` — **what any row of calls receives from any other one, and where it stops.**
* `readAll_eq_iff` — reading frame by frame recovers the strings up to 255 bytes, and takes
  null frames for empty strings.
-/

namespace ZmqIssues
namespace Testutil

open CStrings Multipart Reader

/-- The frames that wait at a socket. -/
abbrev Queue := List (FlaggedPart (List UInt8))

/-- An argument: a C string, or 0 for a null frame. -/
abbrev Arg := Option CString

/-- The arguments of a call before `SEQ_END`: there is at least one. -/
structure Args where
  /-- The first argument. -/
  data : Arg
  /-- The other ones. -/
  rest : List Arg
  deriving DecidableEq

/-- Why a receiver does not come to its end. -/
inductive Stop
  /-- No frame is waiting. -/
  | blocked
  /-- `assert (zmq_msg_size (&msg) == 0)` fails. -/
  | size
  /-- `strcmp` reads on behind the frame. -/
  | overrun
  /-- `assert (strcmp (data, zmq_msg_data (&msg)) == 0)` fails. -/
  | content
  /-- `assert (!more == end)` fails. -/
  | more
  deriving DecidableEq, Repr

/-! ### The two functions -/

/-- What is sent for an argument: nothing, or `strlen (prev) + 1` bytes. -/
def frame : Arg → List UInt8
  | none => []
  | some s => cstr s.1

/-- The loop of `s_send_seq`. -/
def sSendSeqFrom (prev : Arg) : List Arg → Queue
  | [] => [⟨frame prev, false⟩]
  | data :: args => ⟨frame prev, true⟩ :: sSendSeqFrom data args

/-- `s_send_seq`: the frames it sends. -/
def sSendSeq (m : Args) : Queue := sSendSeqFrom m.data m.rest

/-- What `s_recv_seq` asserts of the data of a frame. -/
def checkData : Arg → List UInt8 → Except Stop Unit
  | none, data => check data.isEmpty .size
  | some s, data =>
    match strcmp (cstr s.1) data with
    | none => .error .overrun
    | some order => check (order == 0) .content

/-- The loop of `s_recv_seq`. -/
def sRecvSeqFrom (data : Arg) : List Arg → Queue → Except Stop Queue
  | [], q => do
    let (msg, q) ← next .blocked q
    checkData data msg.data
    check (!msg.more) .more
    return q
  | next' :: args, q => do
    let (msg, q) ← next .blocked q
    checkData data msg.data
    check msg.more .more
    sRecvSeqFrom next' args q

/-- `s_recv_seq`: the frames it leaves. -/
def sRecvSeq (m : Args) : Queue → Except Stop Queue := sRecvSeqFrom m.data m.rest

/-- A row of calls of `s_send_seq`. -/
def sendAll (ms : List Args) : Queue := ms.flatMap sSendSeq

/-- A row of calls of `s_recv_seq`. -/
def recvAll : List Args → Queue → Except Stop Queue
  | [], q => .ok q
  | m :: ms, q => sRecvSeq m q >>= recvAll ms

/-! ### Both sides, frame by frame -/

/-- The arguments of a call. -/
def Args.toList (m : Args) : List Arg := m.data :: m.rest

/-- The arguments of a row of calls, each with the flag of its frame. -/
def flagged (ms : List Args) : List (FlaggedPart Arg) := (ms.map Args.toList).flatMap parts

/-- The frame that is sent for an argument. -/
def sent (y : FlaggedPart Arg) : FlaggedPart (List UInt8) := ⟨frame y.data, y.more⟩

/-- What is asserted of the frame that is received for an argument. -/
def meets (x : FlaggedPart Arg) (msg : FlaggedPart (List UInt8)) : Except Stop Unit := do
  checkData x.data msg.data
  check (msg.more == x.more) .more

theorem Args.toList_injective : Function.Injective Args.toList := by
  rintro ⟨data, rest⟩ ⟨data', rest'⟩ h
  obtain ⟨rfl, rfl⟩ := List.cons.inj h
  rfl

@[simp] theorem flagged_nil : flagged [] = [] := rfl

theorem flagged_cons (m : Args) (ms : List Args) :
    flagged (m :: ms) = parts m.toList ++ flagged ms := rfl

theorem flagged_append (ms ns : List Args) : flagged (ms ++ ns) = flagged ms ++ flagged ns := by
  simp [flagged]

/-- The calls can be read off their arguments with the flags. -/
theorem flagged_isPrefix_iff {ms ns : List Args} : flagged ms <+: flagged ns ↔ ms <+: ns := by
  have hne : ∀ ls : List Args, ∀ l ∈ ls.map Args.toList, l ≠ [] := by
    intro ls l hl
    obtain ⟨m, -, rfl⟩ := List.mem_map.mp hl
    exact List.cons_ne_nil _ _
  rw [flagged, flagged, flatMap_parts_isPrefix_iff (hne ms) (hne ns)]
  exact List.prefix_map_iff_of_injective Args.toList_injective

theorem flagged_ne_nil {ms : List Args} (h : ms ≠ []) : flagged ms ≠ [] := by
  obtain ⟨m, ms, rfl⟩ := List.exists_cons_of_ne_nil h
  rw [flagged_cons, Args.toList]
  cases m.rest <;> simp

theorem sSendSeqFrom_eq (prev : Arg) (args : List Arg) :
    sSendSeqFrom prev args = (parts (prev :: args)).map sent := by
  induction args generalizing prev with
  | nil => rfl
  | cons data args ih => rw [sSendSeqFrom, ih, parts_cons_cons, List.map_cons]; rfl

theorem sendAll_eq (ms : List Args) : sendAll ms = (flagged ms).map sent := by
  induction ms with
  | nil => rfl
  | cons m ms ih =>
    rw [flagged_cons, List.map_append, ← ih, Args.toList, ← sSendSeqFrom_eq]
    rfl

theorem sRecvSeqFrom_eq (data : Arg) (args : List Arg) (q : Queue) :
    sRecvSeqFrom data args q = expect .blocked meets (parts (data :: args)) q := by
  induction args generalizing data q with
  | nil =>
    cases q with
    | nil => rfl
    | cons msg q =>
      obtain ⟨d, more⟩ := msg
      cases hd : checkData data d with
      | error stop => simp [sRecvSeqFrom, expect, meets, next, hd, ok_bind, error_bind]
      | ok _ => cases more <;> simp [sRecvSeqFrom, expect, meets, next, check, hd, ok_bind,
          error_bind, pure, Except.pure]
  | cons data' args ih =>
    cases q with
    | nil => rfl
    | cons msg q =>
      obtain ⟨d, more⟩ := msg
      cases hd : checkData data d with
      | error stop => simp [sRecvSeqFrom, expect, meets, next, hd, ok_bind, error_bind]
      | ok _ => cases more <;> simp [sRecvSeqFrom, expect, meets, next, check, hd, ok_bind,
          error_bind, ih]

theorem recvAll_eq (ms : List Args) (q : Queue) :
    recvAll ms q = expect .blocked meets (flagged ms) q := by
  induction ms generalizing q with
  | nil => rw [recvAll, flagged_nil, expect_nil]
  | cons m ms ih =>
    rw [recvAll, flagged_cons, expect_append, sRecvSeq, sRecvSeqFrom_eq, Args.toList]
    exact congrArg _ (funext ih)

/-! ### A frame that is not the expected one -/

/-- The frame sent for `y` stops a receiver that expects `x`. -/
inductive Differs : Stop → FlaggedPart Arg → FlaggedPart Arg → Prop
  /-- A string where a null frame is expected. -/
  | size (s : CString) (more more' : Bool) : Differs .size ⟨none, more⟩ ⟨some s, more'⟩
  /-- A null frame where a string is expected: it is empty, and not terminated. -/
  | overrun (s : CString) (more more' : Bool) : Differs .overrun ⟨some s, more⟩ ⟨none, more'⟩
  /-- Another string. -/
  | content {s t : CString} (h : s ≠ t) (more more' : Bool) :
      Differs .content ⟨some s, more⟩ ⟨some t, more'⟩
  /-- The right frame, but it ends its message while more is expected, or does not end it. -/
  | more (data : Arg) {b b' : Bool} (h : b ≠ b') : Differs .more ⟨data, b⟩ ⟨data, b'⟩

/-- A string with its zero starts with no other string with its zero. -/
theorem cstr_isPrefix_iff {s t : CString} : cstr s.1 <+: cstr t.1 ↔ s = t := by
  constructor
  · intro h
    obtain heq | hpre := List.prefix_concat_iff.mp h
    · exact Subtype.ext (List.append_cancel_right heq)
    · -- the zero is no byte of a string
      exact absurd (hpre.subset (by simp [cstr])) t.2
  · rintro rfl
    exact List.prefix_rfl

theorem checkData_self (x : Arg) : checkData x (frame x) = .ok () := by
  cases x with
  | none => rfl
  | some s => simp [checkData, frame, (strcmp_eq_zero_iff s.2).mpr List.prefix_rfl, check]

theorem checkData_null (s : CString) : checkData none (frame (some s)) = .error .size := by
  simp [checkData, frame, cstr, check]

theorem checkData_empty (s : CString) : checkData (some s) (frame none) = .error .overrun := by
  have h : strcmp (cstr s.1) [] = none := (strcmp_eq_none_iff s.2).mpr List.nil_prefix
  simp [checkData, frame, h]

theorem checkData_of_ne {s t : CString} (h : s ≠ t) :
    checkData (some s) (frame (some t)) = .error .content := by
  simp only [checkData, frame]
  cases hcmp : strcmp (cstr s.1) (cstr t.1) with
  | none =>
    -- the zero is no byte of the expected string
    have hpre := (strcmp_eq_none_iff s.2).mp hcmp
    exact absurd (hpre.subset (by simp [cstr])) s.2
  | some order =>
    have hne : order ≠ 0 := by
      rintro rfl
      exact h (cstr_isPrefix_iff.mp ((strcmp_eq_zero_iff s.2).mp hcmp))
    simp [check, hne]

theorem meets_sent_self (x : FlaggedPart Arg) : meets x (sent x) = .ok () := by
  simp [meets, sent, checkData_self, ok_bind, check]

theorem Differs.meets_sent {x y : FlaggedPart Arg} {stop : Stop} (h : Differs stop x y) :
    meets x (sent y) = .error stop := by
  cases h with
  | size s b b' => simp [meets, sent, checkData_null, error_bind]
  | overrun s b b' => simp [meets, sent, checkData_empty, error_bind]
  | content h b b' => simp [meets, sent, checkData_of_ne h, error_bind]
  | more data h => simp [meets, sent, checkData_self, ok_bind, check, Ne.symm h]

/-- Frames that are not the same differ in one of the four ways. -/
theorem exists_differs {x y : FlaggedPart Arg} (h : x ≠ y) : ∃ stop, Differs stop x y := by
  obtain ⟨data, b⟩ := x
  obtain ⟨data', b'⟩ := y
  by_cases hdata : data = data'
  · subst hdata
    exact ⟨_, .more data fun hb => h (hb ▸ rfl)⟩
  · cases data with
    | none =>
      cases data' with
      | none => exact absurd rfl hdata
      | some t => exact ⟨_, .size t b b'⟩
    | some s =>
      cases data' with
      | none => exact ⟨_, .overrun s b b'⟩
      | some t => exact ⟨_, .content (fun hst => hdata (congrArg some hst)) b b'⟩

theorem meets_sent_eq_ok {x y : FlaggedPart Arg} : meets x (sent y) = .ok () ↔ x = y := by
  constructor
  · intro h
    by_contra hne
    obtain ⟨stop, hdiff⟩ := exists_differs hne
    exact absurd (h.symm.trans hdiff.meets_sent) (by simp)
  · rintro rfl
    exact meets_sent_self x

/-- **What a frame does to a receiver that does not expect it.** -/
theorem meets_sent_eq_error {x y : FlaggedPart Arg} {stop : Stop} :
    meets x (sent y) = .error stop ↔ Differs stop x y := by
  constructor
  · intro h
    have hne : x ≠ y := by
      rintro rfl
      exact absurd (h.symm.trans (meets_sent_self x)) (by simp)
    obtain ⟨stop', hdiff⟩ := exists_differs hne
    have hstop := h.symm.trans hdiff.meets_sent
    rw [Except.error.injEq] at hstop
    exact hstop ▸ hdiff
  · exact Differs.meets_sent

/-! ### Rows of calls -/

/-- The frames that meet some arguments are those sent for them. -/
theorem forall₂_meets_iff {xs ys : List (FlaggedPart Arg)} :
    List.Forall₂ (fun x msg => meets x msg = .ok ()) xs (ys.map sent) ↔ xs = ys := by
  rw [List.forall₂_map_right_iff]
  simp only [meets_sent_eq_ok]
  exact List.forall₂_eq_eq_eq ▸ Iff.rfl

/-- **What a row of calls receives from another one, and where it stops.**  It comes to its end
just if the other row begins with the same calls, and then leaves what the other calls sent.  It
waits for ever just if the calls of the other row are the first of its own.  Otherwise there
is a first frame that is not the expected one, and that stops the receiver as `Differs` says;
so `strcmp` reads on behind a frame just where the first difference is a null frame that was
sent in the place of a string. -/
theorem recvAll_sendAll (exps sents : List Args) :
    (∀ q, recvAll exps (sendAll sents) = .ok q ↔
      ∃ rest, sents = exps ++ rest ∧ q = sendAll rest) ∧
    (recvAll exps (sendAll sents) = .error .blocked ↔ sents <+: exps ∧ sents ≠ exps) ∧
    (∀ stop ≠ .blocked, recvAll exps (sendAll sents) = .error stop ↔
      ∃ common x xs y ys, flagged exps = common ++ x :: xs ∧ flagged sents = common ++ y :: ys ∧
        Differs stop x y) := by
  simp only [recvAll_eq, sendAll_eq]
  refine ⟨?_, ?_, ?_⟩
  · intro q
    rw [expect_eq_ok_iff]
    constructor
    · rintro ⟨ms, hq, hms⟩
      obtain ⟨taken, rest, htaken, rfl, rfl⟩ := List.map_eq_append_iff.mp hq
      rw [forall₂_meets_iff] at hms
      subst hms
      obtain ⟨rest', rfl⟩ := flagged_isPrefix_iff.mp ⟨rest, htaken.symm⟩
      rw [flagged_append] at htaken
      exact ⟨rest', rfl, by rw [List.append_cancel_left htaken]⟩
    · rintro ⟨rest, rfl, rfl⟩
      rw [flagged_append, List.map_append]
      exact ⟨_, rfl, forall₂_meets_iff.mpr rfl⟩
  · rw [expect_eq_error_iff]
    constructor
    · rintro (⟨-, bs, x, xs, hexps, hbs⟩ | ⟨bs, x, xs, ms, m, r, -, hq, -, hm⟩)
      · rw [forall₂_meets_iff] at hbs
        subst hbs
        refine ⟨flagged_isPrefix_iff.mp ⟨_, hexps.symm⟩, ?_⟩
        rintro rfl
        exact absurd hexps (by simp)
      · obtain ⟨_, _, _, _, hmap⟩ := List.map_eq_append_iff.mp hq
        obtain ⟨y, _, _, rfl, _⟩ := List.map_eq_cons_iff.mp hmap
        exact nomatch meets_sent_eq_error.mp hm
    · rintro ⟨⟨rest, rfl⟩, hne⟩
      have hrest : rest ≠ [] := fun h => hne (by rw [h, List.append_nil])
      obtain ⟨x, xs, hx⟩ := List.exists_cons_of_ne_nil (flagged_ne_nil hrest)
      exact .inl ⟨rfl, _, x, xs, by rw [flagged_append, hx], forall₂_meets_iff.mpr rfl⟩
  · intro stop hstop
    rw [expect_eq_error_iff]
    constructor
    · rintro (⟨hblocked, -⟩ | ⟨bs, x, xs, ms, m, r, hexps, hq, hbs, hm⟩)
      · exact absurd hblocked hstop
      · obtain ⟨common, rest, hsents, rfl, hmap⟩ := List.map_eq_append_iff.mp hq
        obtain ⟨y, ys, rfl, rfl, rfl⟩ := List.map_eq_cons_iff.mp hmap
        rw [forall₂_meets_iff] at hbs
        subst hbs
        exact ⟨_, x, xs, y, ys, hexps, hsents, meets_sent_eq_error.mp hm⟩
    · rintro ⟨common, x, xs, y, ys, hexps, hsents, hdiff⟩
      rw [hexps, hsents, List.map_append, List.map_cons]
      exact .inr ⟨common, x, xs, _, _, _, rfl, rfl, forall₂_meets_iff.mpr rfl, hdiff.meets_sent⟩

/-- A null frame where a string is expected makes `strcmp` read on behind it. -/
theorem recvAll_sendAll_null :
    recvAll [⟨some (.ofBuffer (bytes "ABC")), []⟩] (sendAll [⟨none, []⟩]) = .error .overrun :=
  ((recvAll_sendAll _ _).2.2 .overrun (by decide)).mpr
    ⟨[], _, [], _, [], rfl, rfl, .overrun _ _ _⟩

/-! ### Single frames -/

/-- `s_send`: `strlen (string)` bytes, the zero is not sent. -/
def sSend (s : CString) : Queue := [⟨s.1, false⟩]

/-- `s_sendmore`: the same, and more frames follow. -/
def sSendmore (s : CString) : Queue := [⟨s.1, true⟩]

/-- `s_recv`: the string it returns and the frames it leaves.  At most 255 bytes of the frame
are in the buffer. -/
def sRecv (q : Queue) : Except Stop (CString × Queue) := do
  let (msg, q) ← next .blocked q
  return (.ofBuffer (msg.data.take 255), q)

/-- A row of `n` calls of `s_recv`. -/
def readAll : ℕ → Queue → Except Stop (List CString × Queue)
  | 0, q => .ok ([], q)
  | n + 1, q => do
    let (s, q) ← sRecv q
    let (ss, q) ← readAll n q
    return (s :: ss, q)

/-- A call of one of the functions that send. -/
inductive Call
  /-- `s_send`. -/
  | send (s : CString)
  /-- `s_sendmore`. -/
  | sendmore (s : CString)
  /-- `s_send_seq`. -/
  | sendSeq (m : Args)

/-- The frames a call sends. -/
def Call.frames : Call → Queue
  | .send s => sSend s
  | .sendmore s => sSendmore s
  | .sendSeq m => sSendSeq m

/-- The string an argument stands for, where a null frame is an empty string. -/
def Arg.string (x : Arg) : CString := x.getD ⟨[], List.not_mem_nil⟩

/-- The strings of a call. -/
def Call.strings : Call → List CString
  | .send s => [s]
  | .sendmore s => [s]
  | .sendSeq m => m.toList.map Arg.string

/-- The string `s_recv` returns for a frame. -/
def received (msg : FlaggedPart (List UInt8)) : CString := .ofBuffer (msg.data.take 255)

/-- The first 255 bytes of a string. -/
def truncate (s : CString) : CString := ⟨s.1.take 255, fun h => s.2 (List.mem_of_mem_take h)⟩

theorem readAll_length (q : Queue) : readAll q.length q = .ok (q.map received, []) := by
  induction q with
  | nil => rfl
  | cons msg q ih =>
    simp [readAll, sRecv, next, ih, received, ok_bind, pure, Except.pure]

theorem received_string (s : CString) (more : Bool) : received ⟨s.1, more⟩ = truncate s :=
  Subtype.ext (CString.ofBuffer_self (truncate s).2)

theorem received_frame (x : Arg) (more : Bool) :
    received ⟨frame x, more⟩ = truncate x.string := by
  cases x with
  | none => rfl
  | some s =>
    apply Subtype.ext
    rcases Nat.lt_or_ge s.1.length 255 with hlt | hge
    · -- the zero is in the buffer
      have hbuffer : (cstr s.1).take 255 = cstr s.1 :=
        List.take_of_length_le (by rw [cstr, List.length_append]; exact hlt)
      have hstring : s.1.take 255 = s.1 := List.take_of_length_le (Nat.le_of_lt hlt)
      simp only [received, frame, hbuffer]
      exact (CString.ofBuffer_append s.2 []).trans hstring.symm
    · have hbuffer : (cstr s.1).take 255 = s.1.take 255 := List.take_append_of_le_length hge
      simp only [received, frame, hbuffer]
      exact CString.ofBuffer_self (truncate s).2

theorem Call.map_received_frames (call : Call) :
    call.frames.map received = call.strings.map truncate := by
  cases call with
  | send s => simp [Call.frames, Call.strings, sSend, received_string]
  | sendmore s => simp [Call.frames, Call.strings, sSendmore, received_string]
  | sendSeq m =>
    have hsent : ∀ y : FlaggedPart Arg, received (sent y) = truncate y.data.string :=
      fun y => received_frame y.data y.more
    rw [Call.frames, sSendSeq, sSendSeqFrom_eq, List.map_map, Call.strings, List.map_map]
    calc (parts m.toList).map (received ∘ sent)
        = (parts m.toList).map ((truncate ∘ Arg.string) ∘ FlaggedPart.data) :=
          List.map_congr_left fun y _ => hsent y
      _ = m.toList.map (truncate ∘ Arg.string) := by rw [← List.map_map, map_data_parts]

/-- **Reading frame by frame recovers the strings just if none is longer than 255 bytes**, with
any row of calls of the functions that send.  A null frame is not told from an empty string. -/
theorem readAll_eq_iff (calls : List Call) :
    readAll (calls.flatMap Call.frames).length (calls.flatMap Call.frames) =
        .ok (calls.flatMap Call.strings, []) ↔
      ∀ s ∈ calls.flatMap Call.strings, s.1.length ≤ 255 := by
  have hmap : (calls.flatMap Call.frames).map received =
      (calls.flatMap Call.strings).map truncate := by
    simp only [List.map_flatMap, Call.map_received_frames]
  have htruncate : ∀ s : CString, truncate s = s ↔ s.1.length ≤ 255 := by
    intro s
    rw [← List.take_eq_self_iff]
    exact Subtype.ext_iff
  have hall : ∀ ss : List CString, ss.map truncate = ss ↔ ∀ s ∈ ss, truncate s = s := by
    intro ss
    simpa using List.map_inj_left (f := truncate) (g := id) (l := ss)
  rw [readAll_length, hmap, Except.ok.injEq, Prod.mk.injEq, and_iff_left rfl, hall]
  simp only [htruncate]

end Testutil
end ZmqIssues
