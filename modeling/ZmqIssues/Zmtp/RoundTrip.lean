import Mathlib.Algebra.Order.BigOperators.Group.List
import Mathlib.Algebra.Order.Group.Nat
import Mathlib.Data.List.Forall2
import ZmqIssues.Zmtp.Receive

/-!
# Sending frames

`zmtp_send` counts the flags byte in the size field, which is the right length for the
wire, but it also takes this number for the number of bytes to write, and the bytes it
writes start with the length itself.  So the last byte is missing, and the size field
stays changed.

## Main definitions

* `ZmtpMsg.frame` — the frame of a message.
* `RoundTrip` — the messages sent are well formed, arrive, and leave the objects alone.

## Main results

* `length_zmtpSend_lt` — a call never writes a whole frame.
* `roundTrip_iff` — **nothing survives a round trip but the empty list.**
-/

namespace ZmqIssues
namespace Zmtp

variable {ι : Type*}

/-! ### Frames of messages -/

theorem ZmtpMsg.length_content (msg : ZmtpMsg) : msg.content.length = msg.size.toNat := by
  have := msg.size.toNat_lt
  rw [ZmtpMsg.content, List.length_take, List.Vector.toList_length]
  omega

/-- The frame of a message: its length takes nine bytes from 255 on. -/
def ZmtpMsg.frame (msg : ZmtpMsg) : Frame where
  flags := msg.flags
  data := msg.content
  escaped := decide (255 ≤ msg.content.length + 1)
  length_data_le := by
    have := msg.size.toNat_lt
    rw [msg.length_content]
    omega
  short_le := by
    intro h
    have := of_decide_eq_false h
    omega

/-- The receiver is not to blame: frames that are sent well arrive. -/
theorem received_of_sent_eq {objs : ι → ZmtpMsg} {is : List ι} {sock : Socket} {msg : ZmtpMsg}
    {fuel : ℕ} (hfuel : 255 ≤ fuel)
    (h : sock.stream.contents = is.flatMap fun i => (objs i).frame.encode) :
    ∃ msgs sock', zmtpRecvs fuel is.length sock msg = .ok (msgs, sock') ∧
      List.Forall₂ (fun m i => Holds m (objs i).frame) msgs is ∧ sock'.stream.contents = [] := by
  have hstream : sock.stream.contents =
      (is.map fun i => (objs i).frame).flatMap Frame.encode ++ [] := by
    rw [h, List.append_nil, List.flatMap_map]
  obtain ⟨msgs, sock', hrecvs, hall, hrest⟩ := zmtpRecvs_eq_ok hfuel msg hstream
  rw [List.length_map] at hrecvs
  exact ⟨msgs, sock', hrecvs, List.forall₂_map_right_iff.mp hall, hrest⟩

variable [DecidableEq ι]

/-- The messages survive the way over the connection: what the calls of `zmtp_send` put
on it are the frames of the messages; as many calls of `zmtp_recv`, however the stream
is cut, give the messages and leave nothing; and no call of `zmtp_send` changes an
object. -/
structure RoundTrip (objs : ι → ZmtpMsg) (is : List ι) : Prop where
  /-- The bytes sent are the frames. -/
  sent_eq : (zmtpSends objs is).1 = is.flatMap fun i => (objs i).frame.encode
  /-- The messages arrive. -/
  received : ∀ (sock : Socket) (msg : ZmtpMsg) (fuel : ℕ), 255 ≤ fuel →
    sock.stream.contents = (zmtpSends objs is).1 →
    ∃ msgs sock', zmtpRecvs fuel is.length sock msg = .ok (msgs, sock') ∧
      List.Forall₂ (fun m i => Holds m (objs i).frame) msgs is ∧ sock'.stream.contents = []
  /-- The objects are not changed. -/
  unchanged : ∀ n ≤ is.length, (zmtpSends objs (is.take n)).2 = objs

/-! ### What is sent -/

/-- A call writes no more bytes than the frame has behind its first one. -/
theorem length_zmtpSend_lt (msg : ZmtpMsg) :
    (zmtpSend msg).1.length < msg.frame.encode.length := by
  have hsize : (msg.size + 1).toNat ≤ msg.size.toNat + 1 := by
    simp
    omega
  have hlength : 1 ≤ msg.frame.encodeLength.length := by
    unfold Frame.encodeLength
    split <;> simp
  have hframe : msg.frame.encode.length = msg.frame.encodeLength.length + (msg.size.toNat + 1) := by
    rw [Frame.encode, List.length_append, List.length_cons]
    exact congrArg (_ + ·) (congrArg (· + 1) msg.length_content)
  simp only [zmtpSend, List.length_take]
  omega

/-- A call changes the object. -/
theorem zmtpSend_ne (msg : ZmtpMsg) : (zmtpSend msg).2 ≠ msg := by
  intro h
  have hsize : msg.size + 1 = msg.size := congrArg ZmtpMsg.size h
  have := congrArg UInt8.toNat hsize
  simp at this
  omega

/-- What is sent depends on the objects that are sent only. -/
theorem zmtpSends_congr {objs objs' : ι → ZmtpMsg} {is : List ι} (h : ∀ i ∈ is, objs i = objs' i) :
    (zmtpSends objs is).1 = (zmtpSends objs' is).1 := by
  induction is generalizing objs objs' with
  | nil => rfl
  | cons i is ih =>
    have hi : objs i = objs' i := h i List.mem_cons_self
    simp only [zmtpSends, hi]
    congr 1
    apply ih
    intro j hj
    by_cases hij : j = i
    · rw [hij, Function.update_self, Function.update_self]
    · rw [Function.update_of_ne hij, Function.update_of_ne hij]
      exact h j (List.mem_cons_of_mem i hj)

/-- Different objects are sent as they are. -/
theorem zmtpSends_of_nodup (objs : ι → ZmtpMsg) {is : List ι} (h : is.Nodup) :
    (zmtpSends objs is).1 = is.flatMap fun i => (zmtpSend (objs i)).1 := by
  induction is with
  | nil => rfl
  | cons i is ih =>
    obtain ⟨hi, hnodup⟩ := List.nodup_cons.mp h
    rw [List.flatMap_cons, ← ih hnodup]
    refine congrArg (_ ++ ·) (zmtpSends_congr ?_)
    intro j hj
    apply Function.update_of_ne
    intro hji
    exact hi (hji ▸ hj)

/-- The bytes of different messages are too few. -/
theorem length_zmtpSends_lt (objs : ι → ZmtpMsg) {is : List ι} (h : is.Nodup) (hne : is ≠ []) :
    (zmtpSends objs is).1.length < (is.flatMap fun i => (objs i).frame.encode).length := by
  rw [zmtpSends_of_nodup objs h, List.length_flatMap, List.length_flatMap]
  apply List.sum_lt_sum_of_ne_nil hne
  intro i _
  exact length_zmtpSend_lt (objs i)

/-! ### Round trips -/

theorem RoundTrip.nil (objs : ι → ZmtpMsg) : RoundTrip objs [] where
  sent_eq := rfl
  received := by
    intro sock msg fuel hfuel h
    exact received_of_sent_eq hfuel h
  unchanged := by
    intro n _
    rw [List.take_nil]
    rfl

/-- **Nothing survives a round trip but the empty list.**  If the messages are different
objects, already the bytes sent are not the frames. -/
theorem roundTrip_iff (objs : ι → ZmtpMsg) (is : List ι) :
    (RoundTrip objs is ↔ is = []) ∧
      (is.Nodup ∧ (zmtpSends objs is).1 = (is.flatMap fun i => (objs i).frame.encode) ↔
        is = []) := by
  constructor
  · constructor
    · intro h
      by_contra hne
      obtain ⟨i, is, rfl⟩ := List.exists_cons_of_ne_nil hne
      -- the first call changes its object
      have hfirst := congrFun (h.unchanged 1 (by simp)) i
      simp only [List.take_succ_cons, List.take_zero, zmtpSends, Function.update_self] at hfirst
      exact zmtpSend_ne (objs i) hfirst
    · intro h
      subst h
      exact RoundTrip.nil objs
  · constructor
    · intro h
      obtain ⟨hnodup, hsent⟩ := h
      by_contra hne
      -- too few bytes were sent
      have hlt := length_zmtpSends_lt objs hnodup hne
      rw [hsent] at hlt
      exact absurd hlt (Nat.lt_irrefl _)
    · intro h
      subst h
      exact ⟨List.nodup_nil, rfl⟩

/-- The greeting `main` sends: a message with one data byte. -/
def greeting : ZmtpMsg := ⟨1, 0, List.Vector.replicate 255 0⟩

/-- **The data byte of the greeting is not sent.** -/
theorem greeting_cut :
    (zmtpSend greeting).1 = [2, 0] ∧ greeting.frame.encode = [2, 0, 0] ∧
      ¬ RoundTrip (fun _ : Unit => greeting) [()] := by
  have hsent : (zmtpSend greeting).1 = [2, 0] := rfl
  have hframe : greeting.frame.encode = [2, 0, 0] := rfl
  refine ⟨hsent, hframe, ?_⟩
  -- the frame has one byte more
  intro h
  have hlen := congrArg List.length h.sent_eq
  simp [zmtpSends, hsent, hframe] at hlen

end Zmtp
end ZmqIssues
