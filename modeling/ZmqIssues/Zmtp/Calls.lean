import ZmqIssues.Zmtp.Program

/-!
# What a receiving call can do

A call of `tcp_recv` asks for a number of bytes and either takes just these off the
stream, or does not return: it waits, fails or goes on calling `recv` for ever, depending
on what comes behind the last byte.  Which of these happens is settled by the number of
bytes that are left.  The same holds for the calls that are made of several of these.

## Main definitions

* `Takes` — what a call that asks for a number of bytes can do.
* `demand` — the bytes a call of `zmtp_recv` asks for.

## Main results

* `Takes.bind` — one call after another.
* `tcpRecv_takes`, `zmtpRecv_takes` — the functions of the program.
-/

namespace ZmqIssues
namespace Zmtp

variable {α β : Type}

/-- **What a call can do** that asks for `d` bytes.  If it returns, it has taken `d` bytes
off the stream, and these and its result are related by `R`.  If it may make `enough`
calls of `recv`, it does not return only where too few bytes are left, and what comes
behind these says how. -/
inductive Takes (enough : Prop) (d : ℕ) (R : List UInt8 → α → Prop) (sock : Socket) :
    Except Stop (α × Socket) → Prop
  /-- It returns. -/
  | returns {a : α} {sock' : Socket} {bs : List UInt8} (hlen : bs.length = d)
      (hcontents : sock.stream.contents = bs ++ sock'.stream.contents)
      (hending : sock'.ending = sock.ending) (hR : R bs a) : Takes enough d R sock (.ok (a, sock'))
  /-- It has made all the `recv` calls it may make. -/
  | unfinished (h : enough → sock.stream.contents.length < d ∧ sock.ending = .closed) :
      Takes enough d R sock (.error .unfinished)
  /-- It waits. -/
  | waiting (hlen : sock.stream.contents.length < d) (hending : sock.ending = .blocks) :
      Takes enough d R sock (.error .waiting)
  /-- It fails. -/
  | failed (hlen : sock.stream.contents.length < d) (hending : sock.ending = .fails) :
      Takes enough d R sock (.error .recvFailed)

/-- How a call stops that does not get its bytes. -/
def Ending.stop : Ending → Stop
  | .blocks => .waiting
  | .closed => .unfinished
  | .fails => .recvFailed

section Rules

variable {enough : Prop} {d : ℕ} {R S : List UInt8 → α → Prop} {sock : Socket}
  {x : Except Stop (α × Socket)}

/-- With enough calls of `recv`, it returns if there are enough bytes. -/
theorem Takes.exists_eq_ok (h : Takes enough d R sock x) (henough : enough)
    (hlen : d ≤ sock.stream.contents.length) : ∃ a sock', x = .ok (a, sock') := by
  cases h with
  | returns _ _ _ _ => exact ⟨_, _, rfl⟩
  | unfinished h => exact absurd (h henough).1 (Nat.not_lt.mpr hlen)
  | waiting hlt _ => exact absurd hlt (Nat.not_lt.mpr hlen)
  | failed hlt _ => exact absurd hlt (Nat.not_lt.mpr hlen)

/-- If it returns, it has taken the bytes it asked for. -/
theorem Takes.of_eq_ok {a : α} {sock' : Socket} (h : Takes enough d R sock (.ok (a, sock'))) :
    ∃ bs, bs.length = d ∧ sock.stream.contents = bs ++ sock'.stream.contents ∧
      sock'.ending = sock.ending ∧ R bs a := by
  cases h with
  | returns hlen hcontents hending hR => exact ⟨_, hlen, hcontents, hending, hR⟩

/-- On a stream that starts with as many bytes, these are the bytes it takes. -/
theorem Takes.exists_of_append (h : Takes enough d R sock x) (henough : enough)
    {bs rest : List UInt8} (hbs : bs.length = d) (hcontents : sock.stream.contents = bs ++ rest) :
    ∃ a sock', x = .ok (a, sock') ∧ R bs a ∧ sock'.stream.contents = rest ∧
      sock'.ending = sock.ending := by
  have hlen : d ≤ sock.stream.contents.length := by
    rw [hcontents, List.length_append]
    omega
  obtain ⟨a, sock', rfl⟩ := h.exists_eq_ok henough hlen
  obtain ⟨cs, hcs, hcontents', hending, hR⟩ := h.of_eq_ok
  obtain ⟨rfl, rfl⟩ := List.append_inj (hcontents.symm.trans hcontents') (hbs.trans hcs.symm)
  exact ⟨a, sock', rfl, hR, rfl, hending⟩

/-- If the peer has closed the connection too early, it never finishes. -/
theorem Takes.eq_unfinished (h : Takes enough d R sock x) (hclosed : sock.ending = .closed)
    (hlen : sock.stream.contents.length < d) : x = .error .unfinished := by
  cases h with
  | returns hbs hcontents _ _ =>
    rw [hcontents, List.length_append] at hlen
    omega
  | unfinished _ => rfl
  | waiting _ hending => exact absurd (hclosed.symm.trans hending) (by decide)
  | failed _ hending => exact absurd (hclosed.symm.trans hending) (by decide)

/-- With too few bytes, what comes behind them says how it stops. -/
theorem Takes.eq_error (h : Takes enough d R sock x) (henough : enough)
    (hlen : sock.stream.contents.length < d) : x = .error sock.ending.stop := by
  cases h with
  | returns hbs hcontents _ _ =>
    rw [hcontents, List.length_append] at hlen
    omega
  | unfinished h =>
    rw [(h henough).2]
    rfl
  | waiting _ hending =>
    rw [hending]
    rfl
  | failed _ hending =>
    rw [hending]
    rfl

/-- A call fails only with the connection. -/
theorem Takes.of_eq_recvFailed (h : Takes enough d R sock (.error .recvFailed)) :
    sock.stream.contents.length < d ∧ sock.ending = .fails := by
  cases h with
  | failed hlen hending => exact ⟨hlen, hending⟩

theorem Takes.mono (h : Takes enough d R sock x) {enough' : Prop} (henough : enough' → enough)
    (hR : ∀ bs a, R bs a → S bs a) : Takes enough' d S sock x := by
  cases h with
  | returns hlen hcontents hending h => exact .returns hlen hcontents hending (hR _ _ h)
  | unfinished h => exact .unfinished fun h' => h (henough h')
  | waiting hlen hending => exact .waiting hlen hending
  | failed hlen hending => exact .failed hlen hending

/-- More calls of `recv` are enough, too. -/
theorem Takes.of_le {fuel m n : ℕ} (h : Takes (m ≤ fuel) d R sock x) (hmn : m ≤ n) :
    Takes (n ≤ fuel) d R sock x := by
  refine h.mono ?_ fun _ _ => id
  intro hfuel
  exact Nat.le_trans hmn hfuel

/-- What is left to a call when some of its bytes have been received. -/
theorem Takes.after {bs : List UInt8} {sock' : Socket} {y : Except Stop (β × Socket)} {D : ℕ}
    {T : List UInt8 → β → Prop} (hbs : bs.length = d) (hD : d ≤ D)
    (hcontents : sock.stream.contents = bs ++ sock'.stream.contents)
    (hending : sock'.ending = sock.ending)
    (h : Takes enough (D - d) (fun cs b => T (bs ++ cs) b) sock' y) : Takes enough D T sock y := by
  have htotal : sock.stream.contents.length = d + sock'.stream.contents.length := by
    rw [hcontents, List.length_append, hbs]
  cases h with
  | returns hlen' hcontents' hending' hT =>
    refine .returns ?_ ?_ (hending'.trans hending) hT
    · rw [List.length_append, hbs, hlen']
      omega
    · rw [hcontents, hcontents', List.append_assoc]
  | unfinished h =>
    refine .unfinished ?_
    intro henough
    obtain ⟨hlt, hclosed⟩ := h henough
    exact ⟨by omega, hending.symm.trans hclosed⟩
  | waiting hlt hends => exact .waiting (by omega) (hending.symm.trans hends)
  | failed hlt hends => exact .failed (by omega) (hending.symm.trans hends)

/-- **One call after another.**  The second one may ask for a number of bytes that depends
on the first. -/
theorem Takes.bind (h : Takes enough d R sock x) {D : ℕ} (hD : d ≤ D) {T : List UInt8 → β → Prop}
    {f : α × Socket → Except Stop (β × Socket)}
    (hf : ∀ a sock' bs, bs.length = d → sock.stream.contents = bs ++ sock'.stream.contents →
      R bs a → Takes enough (D - d) (fun cs b => T (bs ++ cs) b) sock' (f (a, sock'))) :
    Takes enough D T sock (x >>= f) := by
  cases h with
  | returns hlen hcontents hending hR =>
    exact (hf _ _ _ hlen hcontents hR).after hlen hD hcontents hending
  | unfinished h => exact .unfinished fun henough =>
      ⟨Nat.lt_of_lt_of_le (h henough).1 hD, (h henough).2⟩
  | waiting hlt hends => exact .waiting (Nat.lt_of_lt_of_le hlt hD) hends
  | failed hlt hends => exact .failed (Nat.lt_of_lt_of_le hlt hD) hends

/-- What the call returns at the end. -/
theorem Takes.pure {sock : Socket} {a : α} (h : R [] a) : Takes enough 0 R sock (.ok (a, sock)) :=
  .returns rfl rfl rfl h

end Rules

/-! ### The functions of the program -/

/-- What was stored behind the first bytes of a buffer stays there. -/
theorem take_append_of_stored {buffer buffer₁ bytes : List UInt8} {pos len : ℕ}
    (hpos : pos ≤ buffer.length) (hlen : pos + bytes.length ≤ len)
    (h : buffer₁ = buffer.take pos ++ bytes ++ buffer.drop (pos + bytes.length)) (cs : List UInt8) :
    buffer₁.take (pos + bytes.length) ++ cs ++ buffer₁.drop len =
      buffer.take pos ++ (bytes ++ cs) ++ buffer.drop len := by
  have htake : (buffer.take pos ++ bytes).length = pos + bytes.length := by
    rw [List.length_append, List.length_take, Nat.min_eq_left hpos]
  have hdone : (buffer.take pos ++ bytes).drop len = [] := List.drop_eq_nil_of_le (by omega)
  have hend : pos + bytes.length + (len - (pos + bytes.length)) = len := by omega
  rw [h, List.take_left' htake, List.drop_append, htake, List.drop_drop, hdone, hend,
    List.nil_append, List.append_assoc _ bytes cs]

section Loop

variable {n len : ℕ}

theorem tcpRecvLoop_of_not_lt {lenRecd : ℕ} (h : ¬ lenRecd < len) (fuel : ℕ) (sock : Socket)
    (buffer : List.Vector UInt8 n) :
    tcpRecvLoop len fuel sock buffer lenRecd = .ok (buffer, sock) := by
  cases fuel with
  | zero => exact if_neg h
  | succ fuel => exact if_neg h

/-- **The loop of `tcp_recv`** asks for what is missing. -/
theorem tcpRecvLoop_takes (hlen : len ≤ n) (fuel : ℕ) (sock : Socket)
    (buffer : List.Vector UInt8 n) {lenRecd : ℕ} (hrecd : lenRecd ≤ len) :
    Takes (len - lenRecd ≤ fuel) (len - lenRecd)
      (fun bs buffer' => buffer'.toList =
        buffer.toList.take lenRecd ++ bs ++ buffer.toList.drop len) sock
      (tcpRecvLoop len fuel sock buffer lenRecd) := by
  induction fuel generalizing sock buffer lenRecd with
  | zero =>
    by_cases hlt : lenRecd < len
    · rw [tcpRecvLoop, if_pos hlt]
      exact .unfinished fun h => absurd h (by omega)
    · obtain rfl : lenRecd = len := by omega
      rw [tcpRecvLoop_of_not_lt hlt, Nat.sub_self]
      exact .pure (by rw [List.append_nil, List.take_append_drop])
  | succ fuel ih =>
    by_cases hlt : lenRecd < len
    · by_cases hnil : sock.stream.contents = []
      · -- there is nothing left to receive
        have hshort : sock.stream.contents.length < len - lenRecd := by
          rw [hnil, List.length_nil]
          omega
        rw [tcpRecvLoop, if_pos hlt, recv_of_nil _ hnil]
        cases hending : sock.ending with
        | blocks => exact .waiting hshort hending
        | fails => exact .failed hshort hending
        | closed =>
          have hfits : lenRecd + ([] : List UInt8).length ≤ n := by
            rw [List.length_nil]
            omega
          obtain ⟨buffer₁, hstore, -⟩ := store_eq_ok buffer hfits
          show Takes _ _ _ sock (store buffer lenRecd [] >>= _)
          rw [hstore]
          have hloop := (ih sock buffer₁ hrecd).eq_unfinished hending hshort
          show Takes _ _ _ sock (tcpRecvLoop len fuel sock buffer₁ lenRecd)
          rw [hloop]
          exact .unfinished fun _ => ⟨hshort, hending⟩
      · have hmissing : 0 < len - lenRecd := Nat.sub_pos_of_lt hlt
        obtain ⟨bytes, sock₁, hrecv, hpos, hle, hcontents, hending⟩ :=
          recv_of_ne_nil hmissing hnil
        have hrecd₁ : lenRecd + bytes.length ≤ len := by omega
        obtain ⟨buffer₁, hstore, hbuffer₁⟩ := store_eq_ok buffer (Nat.le_trans hrecd₁ hlen)
        rw [tcpRecvLoop, if_pos hlt, hrecv]
        show Takes _ _ _ sock (store buffer lenRecd bytes >>= _)
        rw [hstore]
        show Takes _ _ _ sock (tcpRecvLoop len fuel sock₁ buffer₁ (lenRecd + bytes.length))
        -- what was received goes behind the bytes that are there
        refine Takes.after rfl hle hcontents hending ?_
        rw [← Nat.sub_add_eq]
        refine (ih sock₁ buffer₁ hrecd₁).mono (by omega) ?_
        intro cs buffer₂ hbuffer₂
        have hstart : lenRecd ≤ buffer.toList.length := by
          rw [List.Vector.toList_length]
          omega
        rw [hbuffer₂]
        exact take_append_of_stored hstart hrecd₁ hbuffer₁ cs
    · obtain rfl : lenRecd = len := by omega
      rw [tcpRecvLoop_of_not_lt hlt, Nat.sub_self]
      exact .pure (by rw [List.append_nil, List.take_append_drop])

/-- **`tcp_recv` takes the bytes it is asked for**, however they are cut. -/
theorem tcpRecv_takes (hlen : len ≤ n) (fuel : ℕ) (sock : Socket)
    (buffer : List.Vector UInt8 n) :
    Takes (len ≤ fuel) len (fun bs buffer' => buffer'.toList = bs ++ buffer.toList.drop len) sock
      (tcpRecv fuel sock buffer len) := by
  have h := tcpRecvLoop_takes hlen fuel sock buffer (Nat.zero_le len)
  rw [Nat.sub_zero] at h
  refine h.mono id ?_
  intro bs buffer' hbuffer
  rwa [List.take_zero, List.nil_append] at hbuffer

/-- With enough calls of `recv` it stores the first bytes of the stream. -/
theorem tcpRecv_eq_ok {fuel : ℕ} (hlen : len ≤ n) (hfuel : len ≤ fuel) {sock : Socket}
    (buffer : List.Vector UInt8 n) {bs rest : List UInt8} (hbs : bs.length = len)
    (h : sock.stream.contents = bs ++ rest) :
    ∃ buffer' sock', tcpRecv fuel sock buffer len = .ok (buffer', sock') ∧
      buffer'.toList = bs ++ buffer.toList.drop len ∧
      sock'.stream.contents = rest ∧ sock'.ending = sock.ending :=
  (tcpRecv_takes hlen fuel sock buffer).exists_of_append hfuel hbs h

end Loop

/-- A single byte. -/
theorem tcpRecvByte_takes (fuel : ℕ) (sock : Socket) (old : UInt8) :
    Takes (0 < fuel) 1 (fun bs b => bs = [b]) sock (tcpRecvByte fuel sock old) := by
  have h := tcpRecv_takes (n := 1) (Nat.le_refl 1) fuel sock ⟨[old], rfl⟩
  refine (h.mono (S := fun bs buffer' => bs = [buffer'.head]) id ?_).bind (Nat.le_refl 1) ?_
  · intro bs buffer hbuffer
    obtain ⟨l, hl⟩ := buffer
    obtain ⟨b, rfl⟩ := List.length_eq_one_iff.mp hl
    have hbytes : [b] = bs ++ [] := hbuffer
    rw [List.append_nil] at hbytes
    exact hbytes.symm
  · intro buffer sock' bs _ _ hbs
    exact .pure (by simpa using hbs)

theorem tcpRecvByte_eq_ok {fuel : ℕ} (hfuel : 0 < fuel) {sock : Socket} (old : UInt8) {b : UInt8}
    {rest : List UInt8} (h : sock.stream.contents = b :: rest) :
    ∃ sock', tcpRecvByte fuel sock old = .ok (b, sock') ∧ sock'.stream.contents = rest ∧
      sock'.ending = sock.ending := by
  have hone : [b].length = 1 := rfl
  obtain ⟨b', sock', hok, hb, hrest, hending⟩ :=
    (tcpRecvByte_takes fuel sock old).exists_of_append hfuel hone h
  obtain rfl := List.singleton_inj.mp hb
  exact ⟨sock', hok, hrest, hending⟩

/-! ### Frames as `zmtp_recv` counts them -/

/-- How many bytes the length of a frame takes: the first byte tells. -/
def lengthBytes (contents : List UInt8) : ℕ := if contents.head? = some 255 then 9 else 1

/-- What is kept of the length: its last byte, less one, counted in eight bits. -/
def keptSize (contents : List UInt8) : ℕ :=
  ((contents.getD (lengthBytes contents - 1) 1) - 1).toNat

/-- How many bytes `zmtp_recv` asks for: the length, the flags byte and the data. -/
def demand (contents : List UInt8) : ℕ := lengthBytes contents + (1 + keptSize contents)

/-- What is kept of a length is one less, in eight bits. -/
theorem toNat_ofNat_sub_one_eq (L : ℕ) : (UInt8.ofNat L - 1).toNat = (L + 255) % 256 := by
  have hone : (1 : UInt8).toNat = 1 := rfl
  rw [UInt8.toNat_sub, UInt8.toNat_ofNat', hone]
  omega

/-- The length of a frame. -/
theorem recvLength_takes (fuel : ℕ) (sock : Socket) (old : UInt8) :
    Takes (8 ≤ fuel) (lengthBytes sock.stream.contents)
      (fun bs size => bs.getLast? = some size) sock (recvLength fuel sock old) := by
  have hbyte := (tcpRecvByte_takes fuel sock old).of_le (n := 8) (by decide)
  have hone : 1 ≤ lengthBytes sock.stream.contents := by
    unfold lengthBytes
    split <;> decide
  refine hbyte.bind hone ?_
  intro size sock' bs _ hcontents hbs
  subst hbs
  show Takes _ _ _ sock' (if size = 255 then _ else _)
  by_cases hesc : size = 255
  · -- the last of eight more bytes is kept
    have hnine : lengthBytes sock.stream.contents = 9 := by
      rw [lengthBytes, hcontents, hesc]
      rfl
    rw [if_pos hesc, hnine]
    refine (tcpRecv_takes (n := 8) (Nat.le_refl 8) fuel sock' _).bind (Nat.le_refl 8) ?_
    intro longLen sock'' cs hcs _ hlong
    refine .pure ?_
    have hlast : cs[7]? = some (longLen.get 7) := by
      rw [List.drop_eq_nil_of_le (by simp), List.append_nil] at hlong
      subst hlong
      exact List.getElem?_eq_some_iff.mpr ⟨by omega, rfl⟩
    rw [List.append_nil, List.getLast?_eq_getElem?, List.length_append, hcs]
    exact hlast
  · have hone' : lengthBytes sock.stream.contents = 1 := by
      rw [lengthBytes, hcontents, if_neg]
      intro hhead
      exact hesc (Option.some.inj hhead)
    rw [if_neg hesc, hone']
    exact .pure rfl

/-- The last byte of the length. -/
theorem keptSize_eq {contents bs rest : List UInt8} {size : UInt8}
    (hlen : bs.length = lengthBytes contents) (hcontents : contents = bs ++ rest)
    (hlast : bs.getLast? = some size) : keptSize contents = (size - 1).toNat := by
  have hget : contents[lengthBytes contents - 1]? = some size := by
    have hone : lengthBytes contents ≠ 0 := by
      unfold lengthBytes
      split <;> decide
    rw [← hlen, ← hlast, List.getLast?_eq_getElem?, hcontents,
      List.getElem?_append_left (by omega)]
  rw [keptSize, List.getD_eq_getElem?_getD, hget]
  rfl

/-- **`zmtp_recv` takes a frame as it counts it.** -/
theorem zmtpRecv_takes (fuel : ℕ) (sock : Socket) (msg : ZmtpMsg) :
    Takes (255 ≤ fuel) (demand sock.stream.contents) (fun _ _ => True) sock
      (zmtpRecv fuel sock msg) := by
  have hlength := (recvLength_takes fuel sock msg.size).of_le (n := 255) (by decide)
  refine hlength.bind (Nat.le_add_right _ _) ?_
  intro size sock₁ bs hbs hcontents hlast
  rw [Nat.add_sub_cancel_left, keptSize_eq hbs hcontents hlast]
  have hflags := (tcpRecvByte_takes fuel sock₁ msg.flags).of_le (n := 255) (by decide)
  show Takes _ _ _ sock₁ (tcpRecvByte fuel sock₁ msg.flags >>= _)
  refine hflags.bind (Nat.le_add_right _ _) ?_
  intro flags sock₂ _ _ _ _
  rw [Nat.add_sub_cancel_left]
  show Takes _ _ _ sock₂ (if size - 1 ≠ 0 then _ else _)
  by_cases hzero : size - 1 = 0
  · rw [if_neg (not_not.mpr hzero), hzero]
    exact .pure trivial
  · rw [if_pos hzero]
    have hle : (size - 1).toNat ≤ 255 := Nat.le_of_lt_succ (size - 1).toNat_lt
    have hdata := (tcpRecv_takes hle fuel sock₂ msg.data).of_le hle
    refine hdata.bind (Nat.le_refl _) ?_
    intro data sock₃ _ _ _ _
    rw [Nat.sub_self]
    exact .pure trivial

end Zmtp
end ZmqIssues
