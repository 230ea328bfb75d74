import ZmqIssues.Zmtp.Calls
import ZmqIssues.Zmtp.Wire

/-!
# Receiving frames

## Main definitions

* `Holds` — a message object holds a frame.

## Main results

* `zmtpRecv_eq_ok` — one call reads one frame.
* `frames_read_exactly` — **the frames of a stream are read exactly, however it is cut.**
-/

namespace ZmqIssues
namespace Zmtp

/-- The data a message object holds. -/
def ZmtpMsg.content (msg : ZmtpMsg) : List UInt8 := msg.data.toList.take msg.size.toNat

/-- A message object holds a frame. -/
structure Holds (msg : ZmtpMsg) (f : Frame) : Prop where
  /-- The flags byte. -/
  flags_eq : msg.flags = f.flags
  /-- The size does not count the flags byte. -/
  size_eq : msg.size.toNat = f.data.length
  /-- The data bytes. -/
  content_eq : msg.content = f.data

/-- The size that is kept is one less than the length, also where the length needs a
ninth bit. -/
theorem toNat_ofNat_sub_one {n : ℕ} (h : n ≤ 255) : (UInt8.ofNat (n + 1) - 1).toNat = n := by
  rw [toNat_ofNat_sub_one_eq]
  omega

/-- The first byte tells how the length is written: a short one is not the escape byte. -/
theorem lengthBytes_encodeLength (f : Frame) (rest : List UInt8) :
    f.encodeLength.length = lengthBytes (f.encodeLength ++ rest) := by
  by_cases hesc : f.escaped = true
  · rw [Frame.encodeLength, if_pos hesc, List.length_cons, length_bigEndian]
    rfl
  · have hshort := f.short_le (by simpa using hesc)
    have hne : UInt8.ofNat f.length ≠ 255 := by
      intro heq
      have := congrArg UInt8.toNat heq
      simp [Frame.length] at this
      omega
    rw [Frame.encodeLength, if_neg hesc, lengthBytes, if_neg]
    · rfl
    · intro hhead
      exact hne (Option.some.inj hhead)

/-- Both ways to write a length end in its last byte. -/
theorem getLast?_encodeLength (f : Frame) :
    f.encodeLength.getLast? = some (UInt8.ofNat f.length) := by
  unfold Frame.encodeLength
  split
  · exact getLast?_bigEndian 255 7 f.length
  · rfl

/-- The last byte of the length is kept. -/
theorem recvLength_eq_ok {fuel : ℕ} (hfuel : 255 ≤ fuel) {sock : Socket} (old : UInt8) (f : Frame)
    {rest : List UInt8} (h : sock.stream.contents = f.encodeLength ++ rest) :
    ∃ sock', recvLength fuel sock old = .ok (UInt8.ofNat f.length, sock') ∧
      sock'.stream.contents = rest ∧ sock'.ending = sock.ending := by
  have hfuel₈ : 8 ≤ fuel := by omega
  have hlen : f.encodeLength.length = lengthBytes sock.stream.contents := by
    rw [h]
    exact lengthBytes_encodeLength f rest
  obtain ⟨size, sock', hok, hsize, hrest, hending⟩ :=
    (recvLength_takes fuel sock old).exists_of_append hfuel₈ hlen h
  obtain rfl : UInt8.ofNat f.length = size :=
    Option.some.inj ((getLast?_encodeLength f).symm.trans hsize)
  exact ⟨sock', hok, hrest, hending⟩

/-- **One call reads one frame.** -/
theorem zmtpRecv_eq_ok {fuel : ℕ} (hfuel : 255 ≤ fuel) {sock : Socket} (msg : ZmtpMsg) (f : Frame)
    {rest : List UInt8} (h : sock.stream.contents = f.encode ++ rest) :
    ∃ msg' sock', zmtpRecv fuel sock msg = .ok (msg', sock') ∧ Holds msg' f ∧
      sock'.stream.contents = rest ∧ sock'.ending = sock.ending := by
  have hlen := f.length_data_le
  have hfuel₁ : 0 < fuel := by omega
  have hfuelₙ : f.data.length ≤ fuel := by omega
  have hsize : (UInt8.ofNat f.length - 1).toNat = f.data.length := toNat_ofNat_sub_one hlen
  rw [Frame.encode, List.append_assoc, List.cons_append] at h
  obtain ⟨sock₁, hlength, hcontents₁, hending₁⟩ := recvLength_eq_ok hfuel msg.size f h
  obtain ⟨sock₂, hflags, hcontents₂, hending₂⟩ :=
    tcpRecvByte_eq_ok hfuel₁ msg.flags hcontents₁
  by_cases hzero : UInt8.ofNat f.length - 1 = 0
  · -- no data follow, and the old data stay
    have hnil : f.data = [] := by
      rw [← List.length_eq_zero_iff, ← hsize, hzero]
      rfl
    refine ⟨⟨UInt8.ofNat f.length - 1, f.flags, msg.data⟩, sock₂, ?_, ⟨rfl, hsize, ?_⟩, ?_,
      hending₂.trans hending₁⟩
    · simp only [zmtpRecv, hlength, hflags, bind, Except.bind, pure, Except.pure, hzero, ne_eq,
        not_true_eq_false, if_false]
    · simp [ZmtpMsg.content, hzero, hnil]
    · simpa [hnil] using hcontents₂
  · obtain ⟨data, sock₃, hdata, hbuffer, hrest, hending₃⟩ :=
      tcpRecv_eq_ok hlen hfuelₙ msg.data rfl hcontents₂
    refine ⟨⟨UInt8.ofNat f.length - 1, f.flags, data⟩, sock₃, ?_, ⟨rfl, hsize, ?_⟩, hrest,
      (hending₃.trans hending₂).trans hending₁⟩
    · rw [← hsize] at hdata
      simp only [zmtpRecv, hlength, hflags, bind, Except.bind, pure, Except.pure, hzero, ne_eq,
        not_false_eq_true, if_true, hdata]
    · rw [ZmtpMsg.content, hsize, hbuffer, List.take_left]

/-- One call for each frame reads them all. -/
theorem zmtpRecvs_eq_ok {fuel : ℕ} (hfuel : 255 ≤ fuel) {fs : List Frame} {sock : Socket}
    (msg : ZmtpMsg) {rest : List UInt8}
    (h : sock.stream.contents = fs.flatMap Frame.encode ++ rest) :
    ∃ msgs sock', zmtpRecvs fuel fs.length sock msg = .ok (msgs, sock') ∧
      List.Forall₂ Holds msgs fs ∧ sock'.stream.contents = rest := by
  induction fs generalizing sock msg with
  | nil => exact ⟨[], sock, rfl, List.Forall₂.nil, h⟩
  | cons f fs ih =>
    rw [List.flatMap_cons, List.append_assoc] at h
    obtain ⟨msg₁, sock₁, hrecv, hholds, hcontents, -⟩ := zmtpRecv_eq_ok hfuel msg f h
    obtain ⟨msgs, sock', hrecvs, hall, hrest⟩ := ih msg₁ hcontents
    refine ⟨msg₁ :: msgs, sock', ?_, List.Forall₂.cons hholds hall, hrest⟩
    simp only [zmtpRecvs, List.length_cons, hrecv, hrecvs, bind, Except.bind, pure, Except.pure]

/-- **The frames of a stream are read exactly, however it is cut.**  After `n` calls of
`zmtp_recv` the message object has held the first `n` frames, one after another, and
what is left of the stream starts with the next frame. -/
theorem frames_read_exactly {fuel : ℕ} (hfuel : 255 ≤ fuel) {fs : List Frame} {sock : Socket}
    (msg : ZmtpMsg) {rest : List UInt8}
    (h : sock.stream.contents = fs.flatMap Frame.encode ++ rest) {n : ℕ} (hn : n ≤ fs.length) :
    ∃ msgs sock', zmtpRecvs fuel n sock msg = .ok (msgs, sock') ∧
      List.Forall₂ Holds msgs (fs.take n) ∧
      sock'.stream.contents = (fs.drop n).flatMap Frame.encode ++ rest := by
  have hsplit : sock.stream.contents =
      (fs.take n).flatMap Frame.encode ++ ((fs.drop n).flatMap Frame.encode ++ rest) := by
    rw [h, ← List.append_assoc, ← List.flatMap_append, List.take_append_drop]
  have hrecvs := zmtpRecvs_eq_ok hfuel msg hsplit
  rwa [List.length_take, Nat.min_eq_left hn] at hrecvs

/-- A frame without data and one with as many as fit, its length in nine bytes. -/
def extremeFrames : List Frame :=
  [⟨0, [], false, by decide, by decide⟩,
    ⟨1, List.replicate 255 7, true, Nat.le_of_eq List.length_replicate, by decide⟩]

/-- They arrive byte by byte. -/
def byteByByte : Socket where
  stream := ⟨(extremeFrames.flatMap Frame.encode).map fun b => [b], by
    intro s hs
    obtain ⟨b, -, rfl⟩ := List.mem_map.mp hs
    exact List.cons_ne_nil b []⟩
  ending := .blocks

theorem frames_read_exactly_byteByByte :
    ∃ msgs sock', zmtpRecvs 255 2 byteByByte ⟨1, 0, List.Vector.replicate 255 0⟩ =
      .ok (msgs, sock') ∧ List.Forall₂ Holds msgs extremeFrames ∧ sock'.stream.contents = [] := by
  have h : byteByByte.stream.contents = extremeFrames.flatMap Frame.encode ++ [] := by
    rw [List.append_nil, byteByByte, Segmented.contents, ← List.flatMap_def]
    exact List.flatMap_singleton' _
  obtain ⟨msgs, sock', hrecvs, hall, hrest⟩ := frames_read_exactly (Nat.le_refl 255)
    ⟨1, 0, List.Vector.replicate 255 0⟩ h (Nat.le_refl 2)
  exact ⟨msgs, sock', hrecvs, hall, hrest⟩

end Zmtp
end ZmqIssues
