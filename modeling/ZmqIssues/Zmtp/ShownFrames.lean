import ZmqIssues.Zmtp.Shown

/-!
# The frames the program of issue 763 shows

Of a stream of frames, `zmtp_recv` shows one frame after another: the rule, the length as it is
written, the flags, and the data if there are any.  Where the stream is cut cannot be seen.

## Main definitions

* `Frame.items` — the lines a frame is shown by.

## Main results

* `frames_shown` — **the frames are shown one by one.**
* `flatMap_items_injective` — different frames are shown differently.
* `text_eq_text_iff` — **the text tells which frames were received.**
-/

namespace ZmqIssues
namespace Zmtp

open Printing

/-! ### What is printed -/

/-- The lines of the length of a frame. -/
def Frame.lengthItems (f : Frame) : List Item :=
  if f.escaped then [.dump [255], .dump (bigEndian 8 f.length)] else [.dump [UInt8.ofNat f.length]]

/-- The lines of the data. -/
def Frame.dataItems (f : Frame) : List Item := if f.data = [] then [] else [.dump f.data]

/-- The lines a frame is shown by. -/
def Frame.items (f : Frame) : List Item :=
  .rule :: (f.lengthItems ++ .dump [f.flags] :: f.dataItems)

theorem tcpRecvShown_eq_ok {n len fuel : ℕ} (hlen : len ≤ n) (hfuel : len ≤ fuel) {sock : Socket}
    (buffer : List.Vector UInt8 n) {bs rest : List UInt8} (hbs : bs.length = len)
    (h : sock.stream.contents = bs ++ rest) :
    ∃ buffer' sock', tcpRecvShown fuel sock buffer len =
        ⟨(Item.dump bs).text, .ok (buffer', sock')⟩ ∧
      buffer'.toList = bs ++ buffer.toList.drop len ∧ sock'.stream.contents = rest := by
  obtain ⟨buffer', sock', hrecv, hbuffer, hrest, -⟩ := tcpRecv_eq_ok hlen hfuel buffer hbs h
  have hshown : buffer'.toList.take len = bs := by
    rw [hbuffer, List.take_left' hbs]
  refine ⟨buffer', sock', ?_, hbuffer, hrest⟩
  rw [tcpRecvShown_of_ok hrecv hlen, hshown]

theorem tcpRecvByteShown_eq_ok {fuel : ℕ} (hfuel : 0 < fuel) {sock : Socket} (old : UInt8)
    {b : UInt8} {rest : List UInt8} (h : sock.stream.contents = b :: rest) :
    ∃ sock', tcpRecvByteShown fuel sock old = ⟨(Item.dump [b]).text, .ok (b, sock')⟩ ∧
      sock'.stream.contents = rest := by
  have hone : [b].length = 1 := rfl
  obtain ⟨buffer, sock', hrecv, hbuffer, hrest⟩ := tcpRecvShown_eq_ok (Nat.le_refl 1) hfuel
    (List.Vector.cons old List.Vector.nil) hone h
  refine ⟨sock', ?_, hrest⟩
  have hhead : buffer.head = b := by
    obtain ⟨l, hl⟩ := buffer
    obtain ⟨c, rfl⟩ := List.length_eq_one_iff.mp hl
    exact List.head_eq_of_cons_eq hbuffer
  rw [tcpRecvByteShown, hrecv, mk_ok_bind, ← hhead]
  simp

/-- A length of one byte is not the escape byte. -/
theorem Frame.ofNat_length_ne {f : Frame} (h : f.escaped = false) : UInt8.ofNat f.length ≠ 255 := by
  have hshort := f.short_le h
  intro heq
  have hmod := congrArg UInt8.toNat heq
  simp [Frame.length] at hmod
  omega

/-- The length is shown as it is written. -/
theorem text_recvLengthShown {fuel : ℕ} (hfuel : 255 ≤ fuel) {sock : Socket} (old : UInt8)
    (f : Frame) {rest : List UInt8} (h : sock.stream.contents = f.encodeLength ++ rest) :
    (recvLengthShown fuel sock old).text = f.lengthItems.flatMap Item.text := by
  have hfuel₁ : 0 < fuel := by omega
  have hfuel₈ : 8 ≤ fuel := by omega
  cases hesc : f.escaped with
  | true =>
    rw [Frame.encodeLength, if_pos hesc, List.cons_append] at h
    obtain ⟨sock₁, hbyte, hcontents₁⟩ := tcpRecvByteShown_eq_ok hfuel₁ old h
    obtain ⟨longLen, sock₂, hlong, -, -⟩ := tcpRecvShown_eq_ok (Nat.le_refl 8) hfuel₈
      (List.Vector.replicate 8 0) (length_bigEndian 8 f.length) hcontents₁
    simp only [recvLengthShown, hbyte, mk_ok_bind, if_true, hlong, Frame.lengthItems, hesc]
    simp
  | false =>
    have hne := Frame.ofNat_length_ne hesc
    rw [Frame.encodeLength, if_neg (by simp [hesc])] at h
    obtain ⟨sock₁, hbyte, -⟩ := tcpRecvByteShown_eq_ok hfuel₁ old h
    simp only [recvLengthShown, hbyte, mk_ok_bind, hne, if_false, Frame.lengthItems, hesc]
    simp

/-- **A frame is shown as it is.** -/
theorem text_zmtpRecvShown {fuel : ℕ} (hfuel : 255 ≤ fuel) {sock : Socket} (msg : ZmtpMsg)
    (f : Frame) {rest : List UInt8} (h : sock.stream.contents = f.encode ++ rest) :
    (zmtpRecvShown fuel sock msg).text = f.items.flatMap Item.text := by
  have hfuel₁ : 0 < fuel := by omega
  have hlen := f.length_data_le
  have hsize : (UInt8.ofNat f.length - 1).toNat = f.data.length := toNat_ofNat_sub_one hlen
  rw [Frame.encode, List.append_assoc, List.cons_append] at h
  obtain ⟨sock₁, hlength, hcontents₁, -⟩ := recvLength_eq_ok hfuel msg.size f h
  have hlengthShown : recvLengthShown fuel sock msg.size =
      ⟨f.lengthItems.flatMap Item.text, .ok (UInt8.ofNat f.length, sock₁)⟩ :=
    Printing.ext (text_recvLengthShown hfuel msg.size f h)
      ((result_recvLengthShown fuel sock msg.size).trans hlength)
  obtain ⟨sock₂, hflags, hcontents₂⟩ := tcpRecvByteShown_eq_ok hfuel₁ msg.flags hcontents₁
  simp only [zmtpRecvShown, text_print_bind, hlengthShown, mk_ok_bind, hflags]
  by_cases hzero : UInt8.ofNat f.length - 1 = 0
  · have hnil : f.data = [] := by
      rw [← List.length_eq_zero_iff, ← hsize, hzero]
      rfl
    rw [if_neg (not_not.mpr hzero), Frame.items, Frame.dataItems, if_pos hnil]
    simp [Item.text, Item.line]
  · have hne : f.data ≠ [] := by
      intro hnil
      rw [hnil] at hsize
      exact hzero (UInt8.toNat_inj.mp hsize)
    have hfuelₙ : f.data.length ≤ fuel := by omega
    obtain ⟨data, sock₃, hdata, -, -⟩ :=
      tcpRecvShown_eq_ok hlen hfuelₙ msg.data rfl hcontents₂
    rw [if_pos hzero, hsize, hdata, mk_ok_bind, Frame.items, Frame.dataItems, if_neg hne]
    simp [Item.text, Item.line]

/-- **The frames of a stream are shown one by one, however it is cut.** -/
theorem frames_shown {fuel : ℕ} (hfuel : 255 ≤ fuel) {fs : List Frame} {sock : Socket}
    (msg : ZmtpMsg) {rest : List UInt8}
    (h : sock.stream.contents = fs.flatMap Frame.encode ++ rest) :
    (zmtpRecvsShown fuel fs.length sock msg).text =
      (fs.flatMap Frame.items).flatMap Item.text := by
  induction fs generalizing sock msg with
  | nil => rfl
  | cons f fs ih =>
    rw [List.flatMap_cons, List.append_assoc] at h
    obtain ⟨msg₁, sock₁, hrecv, -, hcontents, -⟩ := zmtpRecv_eq_ok hfuel msg f h
    have hshown : zmtpRecvShown fuel sock msg = ⟨f.items.flatMap Item.text, .ok (msg₁, sock₁)⟩ :=
      Printing.ext (text_zmtpRecvShown hfuel msg f h)
        ((result_zmtpRecvShown fuel sock msg).trans hrecv)
    obtain ⟨msgs, sock', hrecvs, -⟩ := zmtpRecvs_eq_ok hfuel msg₁ hcontents
    have hrest : zmtpRecvsShown fuel fs.length sock₁ msg₁ =
        ⟨(fs.flatMap Frame.items).flatMap Item.text, .ok (msgs, sock')⟩ :=
      Printing.ext (ih msg₁ hcontents)
        ((result_zmtpRecvsShown fuel fs.length sock₁ msg₁).trans hrecvs)
    simp only [List.length_cons, zmtpRecvsShown, hshown, mk_ok_bind, hrest]
    simp

/-! ### Telling frames apart -/

/-- Lines that do not begin with data: there are no more, or a frame begins. -/
def AtRule (items : List Item) : Prop := ∀ item ∈ items.head?, item = .rule

theorem atRule_flatMap (fs : List Frame) : AtRule (fs.flatMap Frame.items) := by
  cases fs with
  | nil => simp [AtRule]
  | cons f fs => simp [AtRule, Frame.items]

/-- The lines of the data end where the next rule stands. -/
theorem Frame.dataItems_append_inj {f g : Frame} {items items' : List Item} (hitems : AtRule items)
    (hitems' : AtRule items') (h : f.dataItems ++ items = g.dataItems ++ items') :
    f.data = g.data ∧ items = items' := by
  unfold Frame.dataItems at h
  by_cases hf : f.data = [] <;> by_cases hg : g.data = []
  · simpa [hf, hg] using h
  · rw [if_pos hf, if_neg hg, List.nil_append, List.singleton_append] at h
    exact absurd (hitems (.dump g.data) (by simp [h])) (by simp)
  · rw [if_neg hf, if_pos hg, List.nil_append, List.singleton_append] at h
    exact absurd (hitems' (.dump f.data) (by simp [← h])) (by simp)
  · simpa [hf, hg] using h

/-- How a length is written can be seen from its lines. -/
theorem Frame.lengthItems_append_inj {f g : Frame} {items items' : List Item}
    (h : f.lengthItems ++ items = g.lengthItems ++ items') :
    f.escaped = g.escaped ∧ items = items' := by
  unfold Frame.lengthItems at h
  cases hf : f.escaped <;> cases hg : g.escaped
  · simp_all
  · have hne := Frame.ofNat_length_ne hf
    simp [hf, hg, hne] at h
  · have hne := Frame.ofNat_length_ne hg
    simp [hf, hg, hne.symm] at h
  · simp_all

theorem Frame.items_append_inj {f g : Frame} {items items' : List Item} (hitems : AtRule items)
    (hitems' : AtRule items') (h : f.items ++ items = g.items ++ items') :
    f = g ∧ items = items' := by
  rw [Frame.items, Frame.items, List.cons_append, List.cons_append, List.append_assoc,
    List.append_assoc] at h
  obtain ⟨hescaped, hbehind⟩ := Frame.lengthItems_append_inj (List.cons.inj h).2
  obtain ⟨hflags, hdata⟩ := List.cons.inj hbehind
  obtain ⟨hdata, hrest⟩ := Frame.dataItems_append_inj hitems hitems' hdata
  refine ⟨?_, hrest⟩
  cases f
  cases g
  simp_all

/-- **Different frames are shown differently.** -/
theorem flatMap_items_injective : Function.Injective (List.flatMap Frame.items) := by
  intro fs gs h
  induction fs generalizing gs with
  | nil =>
    cases gs with
    | nil => rfl
    | cons g gs => simp [Frame.items] at h
  | cons f fs ih =>
    cases gs with
    | nil => simp [Frame.items] at h
    | cons g gs =>
      rw [List.flatMap_cons, List.flatMap_cons] at h
      obtain ⟨rfl, hrest⟩ := Frame.items_append_inj (atRule_flatMap fs) (atRule_flatMap gs) h
      rw [ih hrest]

/-- **The text tells which frames were received.**  Two streams that start with some frames show
the same text for these just if the frames are the same, however the streams are cut, and
whatever the message objects held before. -/
theorem text_eq_text_iff {fuel : ℕ} (hfuel : 255 ≤ fuel) {fs gs : List Frame}
    {sock sock' : Socket} (msg msg' : ZmtpMsg) {rest rest' : List UInt8}
    (h : sock.stream.contents = fs.flatMap Frame.encode ++ rest)
    (h' : sock'.stream.contents = gs.flatMap Frame.encode ++ rest') :
    (zmtpRecvsShown fuel fs.length sock msg).text =
        (zmtpRecvsShown fuel gs.length sock' msg').text ↔ fs = gs := by
  rw [frames_shown hfuel msg h, frames_shown hfuel msg' h']
  constructor
  · intro htext
    have hread := congrArg readText htext
    rw [readText_flatMap_text, readText_flatMap_text] at hread
    exact flatMap_items_injective (Option.some.inj hread)
  · intro hfs
    rw [hfs]

theorem contents_byteByByte :
    byteByByte.stream.contents = extremeFrames.flatMap Frame.encode ++ [] := by
  rw [List.append_nil, byteByByte, Segmented.contents, ← List.flatMap_def]
  exact List.flatMap_singleton' _

/-- The same frames arrive at once. -/
def atOnce : Socket where
  stream := ⟨[extremeFrames.flatMap Frame.encode], by
    intro s hs
    obtain rfl := List.mem_singleton.mp hs
    exact List.cons_ne_nil _ _⟩
  ending := .closed

theorem contents_atOnce : atOnce.stream.contents = extremeFrames.flatMap Frame.encode ++ [] := rfl

theorem text_byteByByte_eq_atOnce :
    (zmtpRecvsShown 255 extremeFrames.length byteByByte greeting).text =
      (zmtpRecvsShown 255 extremeFrames.length atOnce ⟨9, 9, List.Vector.replicate 255 9⟩).text :=
  (text_eq_text_iff (Nat.le_refl 255) greeting ⟨9, 9, List.Vector.replicate 255 9⟩
    contents_byteByByte contents_atOnce).mpr rfl

end Zmtp
end ZmqIssues
