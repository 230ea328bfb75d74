import ZmqIssues.Stress.Client
import ZmqIssues.Stress.Server

/-!
# Clients and server of issue 199 together

Any number of clients with different process ids send their messages to one server.
Whatever is lost, duplicated or interleaved on the way, a frame the server receives is
an identity the router made, which starts with a zero byte, or has the bytes of a part
the `main` of some client sent.

The server recognises the parts of one message by their prefix.  The scan of the
prefix stops at the first letter, so it finds the prefix of the sender, and no two
messages share one.

## Main definitions

* `Origin`, `Delivered` — a frame with the place it comes from.
* `Genuine` — the frame has the bytes of what it comes from: an identity, or a part that
  a client has sent.
* `IsWhole` — a message that arrives complete.

## Main results

* `origin_of_starts`, `origin_of_data` — the prefix and the letters behind it tell where
  a frame comes from.
* `alarm_only_on_torn` — **the server accepts no mixed message and complains about no
  complete one.**
-/

namespace ZmqIssues
namespace Stress

open CStrings Reader

/-- Where a frame comes from. -/
inductive Origin (κ : Type*)
  /-- The router made it. -/
  | router
  /-- It is part `j` of message `i` of a process. -/
  | call (process : κ) (i j : ℕ)
  deriving DecidableEq, Repr

/-- A frame with the place it comes from, which the server does not see. -/
structure Delivered (κ : Type*) where
  /-- Where the frame comes from. -/
  origin : Origin κ
  /-- The frame. -/
  frame : Frame
  deriving DecidableEq, Repr

variable {κ : Type*}

/-- The frame is an identity as the router makes them, or has the bytes of the part it is
a copy of, which the client has sent; `ok k` tells which of the `zsend` calls of client `k`
succeed.  Nothing is said about the more flag of the frame and the memory behind it. -/
def Delivered.Genuine (pid : κ → ℕ) (ok : κ → ℕ → Bool) (d : Delivered κ) : Prop :=
  match d.origin with
  | .router => d.frame.data.head? = some 0
  | .call k i j =>
    i < 20 ∧ j < 6 ∧ (sentPart (ok k) (pid k) i j).map Part.data = some d.frame.data

instance (pid : κ → ℕ) (ok : κ → ℕ → Bool) : DecidablePred (Delivered.Genuine pid ok)
  | ⟨.router, f⟩ => inferInstanceAs (Decidable (f.data.head? = some 0))
  | ⟨.call k i j, f⟩ => inferInstanceAs
      (Decidable (i < 20 ∧ j < 6 ∧ (sentPart (ok k) (pid k) i j).map Part.data = some f.data))

/-- The frames of a message that arrives complete. -/
def IsWhole (pid : κ → ℕ) (g : List Frame) : Prop :=
  ∃ identity six k i, g = identity :: six ∧ identity.data.head? = some 0 ∧ identity.more = true ∧
    i < 20 ∧ six.map (fun f => Part.mk f.data f.more) = parts (idPrefix (pid k) i)

/-! ### The run of prefix bytes -/

/-- Where a run of prefix bytes ends is determined by the bytes. -/
theorem run_unique {p p' t t' : List UInt8} {b b' : UInt8} (hp : ∀ a ∈ p, isPrefixByte a = true)
    (hb : isPrefixByte b = false) (hp' : ∀ a ∈ p', isPrefixByte a = true)
    (hb' : isPrefixByte b' = false) (h : p ++ b :: t = p' ++ b' :: t') :
    p = p' ∧ b :: t = b' :: t' := by
  have hspan : strspn isPrefixByte (p ++ b :: t) = some p.length :=
    strspn_eq_some_iff.mpr ⟨p, b, t, rfl, rfl, hp, hb⟩
  have hspan' : strspn isPrefixByte (p ++ b :: t) = some p'.length :=
    strspn_eq_some_iff.mpr ⟨p', b', t', h, rfl, hp', hb'⟩
  have hlen : p.length = p'.length := Option.some.inj (hspan.symm.trans hspan')
  exact List.append_inj h hlen

theorem isPrefixByte_of_mem_idPrefix {pid i : ℕ} {b : UInt8} (h : b ∈ idPrefix pid i) :
    isPrefixByte b = true := by
  rcases exists_of_mem_idPrefix h with ⟨c, hc | rfl, rfl⟩
  · obtain ⟨hlo, hhi⟩ := Char.isDigit_iff_toNat.mp hc
    have hall : ∀ n < 58, 48 ≤ n → isPrefixByte n.toUInt8 = true := by decide
    apply hall
    · have h9 : '9'.toNat = 57 := rfl
      omega
    · exact hlo
  · decide

/-- The bodies start with a letter. -/
theorem exists_cons_of_mem_bodies {p : Part} (h : p ∈ bodies) :
    ∃ b t, p.data = b :: t ∧ isPrefixByte b = false := by
  have hall : ∀ p ∈ bodies, p.data.head?.any (fun b => !isPrefixByte b) = true := by decide
  have hp := hall p h
  cases hdata : p.data with
  | nil => simp [hdata] at hp
  | cons b t => exact ⟨b, t, rfl, by simpa [hdata] using hp⟩

/-! ### Where a frame comes from -/

section Origins

variable {pid : κ → ℕ} {ok : κ → ℕ → Bool} {d : Delivered κ} {stressId : List UInt8}

/-- A frame that starts with a run of prefix bytes is a part of the message with this
prefix. -/
theorem exists_origin (hlt : ∀ k, pid k < 2 ^ 31) (hd : d.Genuine pid ok) (hne : stressId ≠ [])
    (hid : ∀ a ∈ stressId, isPrefixByte a = true) {b : UInt8} {t : List UInt8}
    (hb : isPrefixByte b = false) (h : d.frame.memory = stressId ++ b :: t) :
    ∃ k i j p, d.origin = .call k i j ∧ i < 20 ∧ stressId = idPrefix (pid k) i ∧
      bodies[j]? = some p ∧ b :: t = p.data ++ d.frame.beyond := by
  obtain ⟨origin, frame⟩ := d
  cases origin with
  | router =>
    -- a router's identity starts with a zero
    obtain ⟨a, s, rfl⟩ := List.exists_cons_of_ne_nil hne
    have hhead : frame.data.head? = some 0 := hd
    obtain ⟨data, hdata⟩ := List.head?_eq_some_iff.mp hhead
    simp only [Frame.memory, hdata, List.cons_append, List.cons.injEq] at h
    exact absurd (hid a List.mem_cons_self) (by rw [← h.1]; decide)
  | call k i j =>
    obtain ⟨hi, hj, hsent⟩ := hd
    obtain ⟨_, hpart, hdata⟩ := Option.map_eq_some_iff.mp hsent
    have hparts := sentPart_eq_some (hlt k) hi hj hpart
    simp only [parts, List.getElem?_map, Option.map_eq_some_iff] at hparts
    obtain ⟨p, hp, rfl⟩ := hparts
    obtain ⟨b', t', hbody, hb'⟩ := exists_cons_of_mem_bodies (List.mem_of_getElem? hp)
    have hmem : frame.data ++ frame.beyond = idPrefix (pid k) i ++ b' :: (t' ++ frame.beyond) := by
      have hdata' : idPrefix (pid k) i ++ p.data = frame.data := hdata
      rw [← hdata', hbody, List.append_assoc, List.cons_append]
    rw [Frame.memory, hmem] at h
    obtain ⟨h₁, h₂⟩ := run_unique (fun a => isPrefixByte_of_mem_idPrefix) hb' hid hb h
    exact ⟨k, i, j, p, rfl, hi, h₁.symm, hp, by rw [hbody, List.cons_append, h₂]⟩

/-- The first frame of an accepted message is the first part of a message. -/
theorem origin_of_starts (hlt : ∀ k, pid k < 2 ^ 31) (hd : d.Genuine pid ok)
    (h : Starts d.frame.memory stressId) :
    ∃ k i, d.origin = .call k i 0 ∧ i < 20 ∧ stressId = idPrefix (pid k) i := by
  obtain ⟨t, ht⟩ := h.isPrefix
  rw [bytes_stress, List.append_assoc, List.cons_append] at ht
  obtain ⟨k, i, j, p, horigin, hi, hid, hp, hbody⟩ :=
    exists_origin hlt hd h.ne_nil h.isPrefixByte (by decide) ht.symm
  obtain rfl : j = 0 := by
    -- the other bodies start with another letter
    have hall : ∀ j < 6, (bodies[j]?.bind fun p => p.data.head?) = some 115 → j = 0 := by decide
    have hj : j < 6 := (List.getElem?_eq_some_iff.mp hp).1
    obtain ⟨b, s, hcons, -⟩ := exists_cons_of_mem_bodies (List.mem_of_getElem? hp)
    apply hall j hj
    rw [hcons, List.cons_append] at hbody
    simp [hp, hcons, (List.cons.inj hbody).1]
  exact ⟨k, i, horigin, hi, hid⟩

/-- A frame with the bytes of a part comes from this part. -/
theorem origin_of_data (hinj : Function.Injective pid) (hlt : ∀ k, pid k < 2 ^ 31)
    (hd : d.Genuine pid ok) {k : κ} {i j : ℕ} (hi : i < 20) {p : Part} (hp : bodies[j]? = some p)
    (h : d.frame.data = idPrefix (pid k) i ++ p.data) : d.origin = .call k i j := by
  obtain ⟨b, t, hbody, hb⟩ := exists_cons_of_mem_bodies (List.mem_of_getElem? hp)
  have hmem : d.frame.memory = idPrefix (pid k) i ++ b :: (t ++ d.frame.beyond) := by
    rw [Frame.memory, h, hbody, List.append_assoc, List.cons_append]
  obtain ⟨k', i', j', p', horigin, hi', hid, hp', hbody'⟩ :=
    exists_origin hlt hd (idPrefix_ne_nil _ _) (fun a => isPrefixByte_of_mem_idPrefix) hb hmem
  -- the prefix tells the process and the message, and the rest tells the part
  obtain ⟨hpid, rfl⟩ := idPrefix_injective (hlt k) hi (hlt k') hi' hid
  obtain rfl := hinj hpid
  have hdata : p.data = p'.data := by
    rw [hbody]
    exact List.append_cancel_right ((List.cons_append).trans hbody')
  have hj : j = j' := by
    have hall : ∀ j < 6, ∀ j' < 6,
        bodies[j]?.map Part.data = bodies[j']?.map Part.data → j = j' := by
      decide
    apply hall j (List.getElem?_eq_some_iff.mp hp).1 j' (List.getElem?_eq_some_iff.mp hp').1
    rw [hp, hp', Option.map_some, Option.map_some, hdata]
  rw [horigin, hj]

end Origins

/-! ### Messages -/

section Messages

variable {pid : κ → ℕ} {ok : κ → ℕ → Bool}

/-- The frames of an accepted message behind its identity are the six parts of one
message, in order. -/
theorem origins_of_isMessage (hinj : Function.Injective pid) (hlt : ∀ k, pid k < 2 ^ 31)
    {g : List (Delivered κ)} (hg : ∀ d ∈ g, d.Genuine pid ok)
    (h : IsMessage (g.map Delivered.frame)) :
    ∃ identity six k i, g = identity :: six ∧ i < 20 ∧
      six.map Delivered.origin = (List.range 6).map (Origin.call k i) := by
  obtain ⟨_, _, _, stressId, hmap, h⟩ := h
  obtain ⟨identity, _, rfl, -, hmap⟩ := List.map_eq_cons_iff.mp hmap
  obtain ⟨first, rest, rfl, rfl, rfl⟩ := List.map_eq_cons_iff.mp hmap
  obtain ⟨k, i, hfirst, hi, rfl⟩ := origin_of_starts hlt (hg first (by simp)) h.starts
  have hpart : ∀ d ∈ rest, ∀ (j : ℕ) (p : Part), bodies[j]? = some p →
      d.frame.data = idPrefix (pid k) i ++ p.data → d.origin = .call k i j := by
    intro d hd j p hp hdata
    exact origin_of_data hinj hlt (hg d (by simp [hd])) hi hp hdata
  have hrest := h.rest_eq
  simp only [followers, List.map_map, List.map_eq_cons_iff, List.map_eq_nil_iff,
    Function.comp_apply, Prod.mk.injEq] at hrest
  obtain ⟨a, _, rfl, ⟨ha, -⟩, b, _, rfl, ⟨hb, -⟩, c, _, rfl, ⟨hc, -⟩, d, _, rfl, ⟨hd, -⟩,
    e, _, rfl, ⟨he, -⟩, rfl⟩ := hrest
  refine ⟨identity, [first, a, b, c, d, e], k, i, rfl, hi, ?_⟩
  have h₁ := hpart a (by simp) 1 _ rfl ha
  have h₂ := hpart b (by simp) 2 _ rfl hb
  have h₃ := hpart c (by simp) 3 _ rfl hc
  have h₄ := hpart d (by simp) 4 _ rfl hd
  have h₅ := hpart e (by simp) 5 _ rfl he
  simp [hfirst, h₁, h₂, h₃, h₄, h₅, List.range_succ]

/-- A message that arrives complete is accepted. -/
theorem IsWhole.isMessage (hlt : ∀ k, pid k < 2 ^ 31) {g : List Frame} (h : IsWhole pid g) :
    IsMessage g := by
  obtain ⟨identity, six, k, i, rfl, hhead, hmore, hi, hsix⟩ := h
  cases six with
  | nil => exact absurd hsix (by simp [parts, bodies])
  | cons first rest =>
    have hsplit : parts (idPrefix (pid k) i) = ⟨idPrefix (pid k) i ++ bytes "stress", true⟩ ::
        (followers (idPrefix (pid k) i)).map fun p => ⟨p.1, p.2⟩ := rfl
    rw [hsplit, List.map_cons, List.cons.injEq, Part.mk.injEq] at hsix
    obtain ⟨⟨hdata, hfirst⟩, hrest⟩ := hsix
    refine ⟨identity, first, rest, idPrefix (pid k) i, rfl, hmore, ?_, hfirst, ?_, ?_⟩
    · intro hnil
      rw [hnil] at hhead
      exact absurd hhead (by simp)
    · have hlen := length_idPrefix_lt (hlt k) hi
      refine ⟨idPrefix_ne_nil _ _, fun b => isPrefixByte_of_mem_idPrefix, by omega, ?_⟩
      rw [Frame.memory, hdata]
      exact List.prefix_append _ _
    · have hpairs := congrArg (List.map fun p : Part => (p.data, p.more)) hrest
      simpa [Function.comp_def] using hpairs

/-- **The server accepts no mixed message and complains about no complete one.**
Whatever copies of parts that the clients have sent arrive, the frames of each message it
accepts are, behind the identity, the six parts of one message in order.  If the messages
arrive complete, in any order, it accepts them all and then waits for the next one. -/
theorem alarm_only_on_torn (hinj : Function.Injective pid) (hlt : ∀ k, pid k < 2 ^ 31) :
    (∀ (ok : κ → ℕ → Bool) (q : List (Delivered κ)) (n : ℕ) (r : List Frame),
      (∀ d ∈ q, d.Genuine pid ok) →
      iterate receiveMp n (q.map Delivered.frame) = .ok r →
      ∃ (gs : List (List (Delivered κ))) (rest : List (Delivered κ)), gs.length = n ∧
        q = gs.flatten ++ rest ∧ r = rest.map Delivered.frame ∧
        ∀ g ∈ gs, ∃ identity six k i, g = identity :: six ∧ i < 20 ∧
          six.map Delivered.origin = (List.range 6).map (Origin.call k i)) ∧
    (∀ gs : List (List Frame), (∀ g ∈ gs, IsWhole pid g) → ∀ n,
      iterate receiveMp n gs.flatten =
        if n ≤ gs.length then .ok (gs.drop n).flatten else .error .blocked) := by
  constructor
  · intro ok q n r hq h
    obtain ⟨gs, rest, hlen, hgs, rfl, hr⟩ :=
      exists_of_iterate_map_eq_ok (fun _ _ => receiveMp_eq_ok) h
    refine ⟨gs, rest, hlen, rfl, hr, ?_⟩
    intro g hg
    have hgenuine : ∀ d ∈ g, d.Genuine pid ok := by
      intro d hd
      exact hq d (List.mem_append_left _ (List.mem_flatten_of_mem hg hd))
    exact origins_of_isMessage hinj hlt hgenuine (hgs g hg)
  · intro gs hgs n
    have haccept : ∀ m ≤ gs.length, iterate receiveMp m gs.flatten = .ok (gs.drop m).flatten := by
      intro m hm
      apply (iterate_eq_ok_iff fun _ _ => receiveMp_eq_ok).mpr
      refine ⟨gs.take m, by simp [hm], ?_, ?_⟩
      · intro g hg
        exact (hgs g (List.mem_of_mem_take hg)).isMessage hlt
      · rw [← List.flatten_append, List.take_append_drop]
    by_cases hn : n ≤ gs.length
    · rw [if_pos hn, haccept n hn]
    · -- all messages are accepted, and the next round waits
      obtain ⟨m, rfl⟩ : ∃ m, n = gs.length + (m + 1) := ⟨n - gs.length - 1, by omega⟩
      rw [if_neg hn, iterate_add, haccept gs.length (Nat.le_refl _), List.drop_length]
      rfl

end Messages

/-! ### Two clients -/

/-- The process ids of two clients. -/
def twoPids (k : Bool) : ℕ := if k then 4711 else 4712

/-- A complete message of one of the two clients, with nothing readable behind its frames. -/
def messageOf (identity : List UInt8) (k : Bool) (i : ℕ) : List (Delivered Bool) :=
  ⟨.router, ⟨identity, true, []⟩⟩ ::
    (parts (idPrefix (twoPids k) i)).mapIdx fun j p => ⟨.call k i j, ⟨p.data, p.more, []⟩⟩

/-- The frames of two messages, one of each client. -/
def twoMessages : List (Delivered Bool) := messageOf [0, 1] true 19 ++ messageOf [0, 2] false 19

/-- The server accepts both messages, each as a message of its sender, and then waits. -/
theorem alarm_only_on_torn_twoMessages :
    iterate receiveMp 3 (twoMessages.map Delivered.frame) = .error .blocked ∧
      ∃ (gs : List (List (Delivered Bool))) (rest : List (Delivered Bool)), gs.length = 2 ∧
        twoMessages = gs.flatten ++ rest ∧
        ∀ g ∈ gs, ∃ identity six k i, g = identity :: six ∧ i < 20 ∧
          six.map Delivered.origin = (List.range 6).map (Origin.call k i) := by
  have hinj : Function.Injective twoPids := by
    intro k k' h
    cases k <;> cases k' <;> simp [twoPids] at h ⊢
  have hlt : ∀ k, twoPids k < 2 ^ 31 := by decide
  obtain ⟨hpart, hwhole⟩ := alarm_only_on_torn hinj hlt
  have hgs : ∀ g ∈ [(messageOf [0, 1] true 19).map Delivered.frame,
      (messageOf [0, 2] false 19).map Delivered.frame], IsWhole twoPids g := by
    intro g hg
    simp only [List.mem_cons, List.not_mem_nil, or_false] at hg
    rcases hg with rfl | rfl
    · exact ⟨_, _, true, 19, rfl, rfl, rfl, by omega, rfl⟩
    · exact ⟨_, _, false, 19, rfl, rfl, rfl, by omega, rfl⟩
  have hgenuine : ∀ d ∈ twoMessages, d.Genuine twoPids fun _ _ => true := by decide +kernel
  obtain ⟨gs, rest, hlen, hq, -, horigin⟩ := hpart _ twoMessages 2 [] hgenuine (hwhole _ hgs 2)
  exact ⟨hwhole _ hgs 3, gs, rest, hlen, hq, horigin⟩

end Stress
end ZmqIssues
