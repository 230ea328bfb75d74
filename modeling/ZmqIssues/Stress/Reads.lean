import ZmqIssues.Stress.Server

/-!
# What the server reads of a frame

`receive_mp` gives the bytes of the first part to `strspn` and `strncmp`, which are not
told where the frame ends.  `strspn` reads up to the first byte that is not a digit or a
dot, so a frame of such bytes only is read behind its end, and `strncmp` reads up to the
first difference from `"stress"`, so a frame that ends inside this word is too.  In
`recv_assert` the size check comes first and keeps both comparisons in the frame.

## Main definitions

* `receiveMpReads`, `recvAssertReads` — the positions of a frame that are read.
* `OwnBytes` — the first parts that are not read behind their end.

## Main results

* `receiveMp_congr` — the verdict depends on what was read only.
* `receiveMpReads_lt_iff` — which first parts are read behind their end.
* `reads_own_bytes_iff` — **the server stays in the frames it receives exactly on these.**
-/

namespace ZmqIssues
namespace Stress

open CStrings Numbers Reader

/-! ### Positions -/

/-- The positions of the first part that `receive_mp` reads. -/
def receiveMpReads (memory : List UInt8) : List ℕ :=
  -- the scan of the prefix
  List.range (strspnReads isPrefixByte memory) ++
    match strspn isPrefixByte memory with
    | none => []
    | some span =>
      let stressIdLen := int32 span
      if 0 < stressIdLen ∧ mallocAccepts (sizeT (int32 (stressIdLen + 1))) = true then
        -- the copy of the prefix, and the comparison of what follows
        List.range stressIdLen.toNat ++
          (List.range (strncmpReads 6 (memory.drop stressIdLen.toNat)
            (cstr (bytes "stress")))).map (stressIdLen.toNat + ·)
      else
        []

/-- The positions of a part that `recv_assert` reads. -/
def recvAssertReads (stressId expectation : List UInt8) (message : Frame) : List ℕ :=
  if 0 < message.size ∧ stressId.length + expectation.length = message.size then
    List.range (strncmpReads stressId.length (cstr stressId) message.memory) ++
      -- the second comparison is made only if the first one finds no difference
      if strncmp stressId.length (cstr stressId) message.memory = some 0 then
        (List.range (strncmpReads expectation.length (cstr expectation)
          (message.memory.drop stressId.length))).map (stressId.length + ·)
      else
        []
  else
    []

/-- The first parts that are not read behind their end: they do not consist of prefix bytes
only, and they do not end inside the `"stress"` behind their prefix, if they have a prefix
that fits an `int`. -/
def OwnBytes (data : List UInt8) : Prop :=
  data.dropWhile isPrefixByte ≠ [] ∧
    (data.takeWhile isPrefixByte = [] ∨ 2 ^ 31 ≤ (data.takeWhile isPrefixByte).length + 1 ∨
      ¬ (data.dropWhile isPrefixByte <+: bytes "stress" ∧
        data.dropWhile isPrefixByte ≠ bytes "stress"))

instance : DecidablePred OwnBytes := fun _ => inferInstanceAs (Decidable (_ ∧ _))

/-! ### The first part -/

theorem scanned {memory : List UInt8} {i : ℕ} (h : i < strspnReads isPrefixByte memory) :
    i ∈ receiveMpReads memory :=
  List.mem_append_left _ (List.mem_range.mpr h)

section Memory

variable {memory : List UInt8} {span : ℕ}

/-- What is read behind the scan. -/
theorem receiveMpReads_eq (hspan : strspn isPrefixByte memory = some span)
    (hpos : 0 < int32 span) (hmalloc : mallocAccepts (sizeT (int32 (int32 span + 1))) = true) :
    receiveMpReads memory = List.range (strspnReads isPrefixByte memory) ++
      (List.range (int32 span).toNat ++
        (List.range (strncmpReads 6 (memory.drop (int32 span).toNat)
          (cstr (bytes "stress")))).map ((int32 span).toNat + ·)) := by
  rw [receiveMpReads, hspan]
  exact congrArg _ (if_pos ⟨hpos, hmalloc⟩)

theorem receiveMpReads_eq_scan (hspan : strspn isPrefixByte memory = some span)
    (hstop : ¬ (0 < int32 span ∧ mallocAccepts (sizeT (int32 (int32 span + 1))) = true)) :
    receiveMpReads memory = List.range (strspnReads isPrefixByte memory) := by
  rw [receiveMpReads, hspan]
  show _ ++ (if _ then _ else _) = _
  rw [if_neg hstop, List.append_nil]

end Memory

/-- The checks of the first part. -/
theorem receiveMp_cons_cons (identity first : Frame) (q : List Frame) :
    receiveMp (identity :: first :: q) = (do
      check identity.more .assertFailed
      check (0 < identity.size) .assertFailed
      check first.more .assertFailed
      let span ← read (strspn isPrefixByte first.memory)
      check (0 < int32 span) .assertFailed
      check (mallocAccepts (sizeT (int32 (int32 span + 1)))) .assertFailed
      let cmp ← read (strncmp 6 (first.memory.drop (int32 span).toNat) (cstr (bytes "stress")))
      check (cmp == 0) (verboseExit q)
      let stressId := first.memory.take (int32 span).toNat
      let q ← recvAssert stressId (bytes "AAAAAAAA") true q
      let q ← recvAssert stressId (bytes "BBBBBBBB") true q
      let q ← recvAssert stressId (bytes "CCCCCCCC") true q
      let q ← recvAssert stressId (bytes "DDDDDDDD") true q
      recvAssert stressId (bytes "EEEEEEEE") false q) := rfl

/-- **The verdict depends on what was read only.** -/
theorem receiveMp_congr {identity first first' : Frame} {q : List Frame}
    (hmore : first.more = first'.more)
    (h : ∀ i ∈ receiveMpReads first.memory, first.memory[i]? = first'.memory[i]?) :
    receiveMp (identity :: first :: q) = receiveMp (identity :: first' :: q) := by
  have hspan : strspn isPrefixByte first.memory = strspn isPrefixByte first'.memory :=
    strspn_congr fun i hi => h i (scanned hi)
  rw [receiveMp_cons_cons, receiveMp_cons_cons, hmore, ← hspan]
  refine bind_congr fun _ => bind_congr fun _ => bind_congr fun _ => ?_
  cases hrun : strspn isPrefixByte first.memory with
  | none => rw [read_none, error_bind, error_bind]
  | some span =>
    rw [read_some, ok_bind, ok_bind]
    by_cases hgo : 0 < int32 span ∧ mallocAccepts (sizeT (int32 (int32 span + 1))) = true
    · rw [receiveMpReads_eq hrun hgo.1 hgo.2] at h
      -- the copy and the comparison see the same bytes
      have htake : first.memory.take (int32 span).toNat =
          first'.memory.take (int32 span).toNat := by
        apply List.ext_getElem?
        intro i
        rw [List.getElem?_take, List.getElem?_take]
        split
        · next hi => exact h i (by simp [hi])
        · rfl
      have hcmp : strncmp 6 (first.memory.drop (int32 span).toNat) (cstr (bytes "stress")) =
          strncmp 6 (first'.memory.drop (int32 span).toNat) (cstr (bytes "stress")) := by
        refine strncmp_congr ?_ fun _ _ => rfl
        intro i hi
        rw [List.getElem?_drop, List.getElem?_drop]
        exact h _ (by simp [hi])
      rw [htake, hcmp]
    · -- there is no copy, and no comparison
      by_cases hpos : 0 < int32 span
      · have hmalloc := fun h => hgo ⟨hpos, h⟩
        rw [check_of_true (decide_eq_true hpos), check_of_not hmalloc, ok_bind, ok_bind, error_bind,
          error_bind]
      · rw [check_of_not (by simpa using hpos), error_bind, error_bind]

/-- The comparison behind a prefix that fits an `int`. -/
theorem goes_on {p : List UInt8} (hne : p ≠ []) (hlt : p.length + 1 < 2 ^ 31) :
    (0 < int32 p.length ∧ mallocAccepts (sizeT (int32 (int32 p.length + 1))) = true) ∧
      (int32 p.length).toNat = p.length := by
  have hpos : 0 < p.length := List.length_pos_iff.mpr hne
  have hint : int32 p.length = p.length := int32_natCast (by omega)
  rw [hint]
  exact ⟨⟨by omega, mallocAccepts_natCast hlt⟩, Int.toNat_natCast _⟩

/-- Inside a run of prefix bytes the comparison stops at once. -/
theorem strncmpReads_run {p : List UInt8} {k n : ℕ} (hp : ∀ a ∈ p, isPrefixByte a = true)
    (hk : k < p.length) (m : List UInt8) :
    strncmpReads (n + 1) ((p ++ m).drop k) (cstr (bytes "stress")) = 1 := by
  have hne : p[k] ≠ 115 := by
    intro hs
    exact absurd (hp _ (List.getElem_mem hk)) (by rw [hs]; decide)
  rw [List.drop_append_of_le_length hk.le, List.drop_eq_getElem_cons hk, bytes_stress]
  exact if_neg fun h => hne h.1

/-- The positions of a scan, a copy and a comparison behind the copy. -/
theorem forall_positions_lt_iff {k l m n : ℕ} :
    (∀ i ∈ List.range k ++ (List.range l ++ (List.range m).map (l + ·)), i < n) ↔
      k ≤ n ∧ l ≤ n ∧ (m = 0 ∨ l + m ≤ n) := by
  have hrange : ∀ k, (∀ i ∈ List.range k, i < n) ↔ k ≤ n := by
    intro k
    simp only [List.mem_range]
    constructor
    · intro h
      by_contra hlt
      exact Nat.lt_irrefl n (h n (Nat.lt_of_not_le hlt))
    · intro h i hi
      exact Nat.lt_of_lt_of_le hi h
  have hmap : (∀ i ∈ (List.range m).map (l + ·), i < n) ↔ m = 0 ∨ l + m ≤ n := by
    rw [List.forall_mem_map]
    constructor
    · intro h
      rcases Nat.eq_zero_or_pos m with hm | hm
      · exact Or.inl hm
      · have := h (m - 1) (List.mem_range.mpr (by omega))
        omega
    · intro h j hj
      rw [List.mem_range] at hj
      omega
  rw [List.forall_mem_append, List.forall_mem_append, hrange, hrange, hmap]

/-- A frame with a byte that ends the run is read behind its end only by the comparison. -/
theorem receiveMpReads_append_lt_iff {p r : List UInt8} {b : UInt8}
    (hp : ∀ a ∈ p, isPrefixByte a = true) (hb : isPrefixByte b = false) (beyond : List UInt8) :
    (∀ i ∈ receiveMpReads (p ++ b :: r ++ beyond), i < (p ++ b :: r).length) ↔
      p = [] ∨ 2 ^ 31 ≤ p.length + 1 ∨ ¬ (b :: r <+: bytes "stress" ∧ b :: r ≠ bytes "stress") := by
  have hmem : p ++ b :: r ++ beyond = p ++ b :: (r ++ beyond) := by simp
  have hspan : strspn isPrefixByte (p ++ b :: r ++ beyond) = some p.length :=
    strspn_eq_some_iff.mpr ⟨p, b, r ++ beyond, hmem, rfl, hp, hb⟩
  have hscan : strspnReads isPrefixByte (p ++ b :: r ++ beyond) = p.length + 1 := by
    rw [strspnReads_eq, hmem, List.takeWhile_append_of_pos hp,
      List.takeWhile_cons_of_neg (by simp [hb]), List.append_nil]
  have hlen : (p ++ b :: r).length = p.length + (b :: r).length := List.length_append
  have hone : 0 < (b :: r).length := Nat.succ_pos _
  by_cases hgo : 0 < int32 p.length ∧ mallocAccepts (sizeT (int32 (int32 p.length + 1))) = true
  · rw [receiveMpReads_eq hspan hgo.1 hgo.2, hscan]
    have hle : (int32 p.length).toNat ≤ p.length := int32_toNat_le hgo.1
    rcases Nat.eq_or_lt_of_le hle with heq | hlt
    · -- the comparison starts behind the prefix
      have hne : p ≠ [] := by
        intro hnil
        rw [hnil] at hgo
        exact absurd hgo.1 (by decide)
      have hfits : ¬ 2 ^ 31 ≤ p.length + 1 := by
        have := lt_of_mallocAccepts hgo.2
        omega
      have hdrop : (p ++ b :: r ++ beyond).drop p.length = b :: r ++ beyond := by
        rw [List.append_assoc, List.drop_left]
      have hreads : strncmpReads 6 (b :: r ++ beyond) (cstr (bytes "stress")) ≤ (b :: r).length ↔
          ¬ (b :: r <+: bytes "stress" ∧ b :: r ≠ bytes "stress") :=
        strncmpReads_le_length_iff (s := bytes "stress") (t := [0]) (by decide)
      rw [heq, hdrop, hlen, forall_positions_lt_iff]
      simp only [hne, hfits, false_or, ← hreads]
      omega
    · -- the length was cut to an `int`, and a byte of the run is not that of `"stress"`
      have hbig : 2 ^ 31 ≤ p.length + 1 := by
        by_contra hfits
        have hne : p ≠ [] := by
          intro hnil
          rw [hnil] at hlt
          exact absurd hlt (Nat.not_lt_zero _)
        exact absurd (goes_on hne (Nat.lt_of_not_le hfits)).2 (Nat.ne_of_lt hlt)
      have hreads := strncmpReads_run (n := 5) hp hlt (b :: r ++ beyond)
      rw [← List.append_assoc] at hreads
      rw [hreads, hlen, forall_positions_lt_iff]
      exact iff_of_true (by omega) (Or.inr (Or.inl hbig))
  · rw [receiveMpReads_eq_scan hspan hgo, hscan]
    have hright : p = [] ∨ 2 ^ 31 ≤ p.length + 1 := by
      by_contra hfits
      rw [not_or, Nat.not_le] at hfits
      exact hgo (goes_on hfits.1 hfits.2).1
    constructor
    · intro _
      rcases hright with h | h
      · exact Or.inl h
      · exact Or.inr (Or.inl h)
    · intro _ i hi
      rw [List.mem_range] at hi
      omega

/-- **Which first parts are read behind their end.** -/
theorem receiveMpReads_lt_iff (first : Frame) :
    (∀ i ∈ receiveMpReads first.memory, i < first.size) ↔ OwnBytes first.data := by
  obtain ⟨data, more, beyond⟩ := first
  show (∀ i ∈ receiveMpReads (data ++ beyond), i < data.length) ↔ OwnBytes data
  have hp : ∀ a ∈ data.takeWhile isPrefixByte, isPrefixByte a = true :=
    fun a => List.mem_takeWhile_imp
  have hsplit : data.takeWhile isPrefixByte ++ data.dropWhile isPrefixByte = data :=
    List.takeWhile_append_dropWhile
  unfold OwnBytes
  cases hrest : data.dropWhile isPrefixByte with
  | nil =>
    -- the scan does not find an end
    rw [hrest, List.append_nil] at hsplit
    refine iff_of_false ?_ (fun h => h.1 rfl)
    intro h
    have hscan := h data.length (scanned (by
      rw [strspnReads_eq, List.takeWhile_append_of_pos (by rwa [hsplit] at hp), List.length_append]
      omega))
    exact absurd hscan (Nat.lt_irrefl _)
  | cons b r =>
    have hb : isPrefixByte b = false := by
      have := List.head_dropWhile_not (p := isPrefixByte) (l := data) (by simp [hrest])
      simpa [hrest] using this
    rw [hrest] at hsplit
    have h := receiveMpReads_append_lt_iff hp hb (r := r) beyond
    rw [hsplit] at h
    rw [h]
    simp

/-! ### The other parts -/

/-- **The size check keeps both comparisons in the frame.** -/
theorem recvAssertReads_lt (stressId expectation : List UInt8) (message : Frame) :
    ∀ i ∈ recvAssertReads stressId expectation message, i < message.size := by
  intro i hi
  rw [recvAssertReads] at hi
  split at hi
  · next hsize =>
    have hfirst := strncmpReads_le stressId.length (cstr stressId) message.memory
    have hsecond := strncmpReads_le expectation.length (cstr expectation)
      (message.memory.drop stressId.length)
    rcases List.mem_append.mp hi with hi | hi
    · rw [List.mem_range] at hi
      omega
    · split at hi
      · simp only [List.mem_map, List.mem_range] at hi
        obtain ⟨j, hj, rfl⟩ := hi
        omega
      · exact absurd hi List.not_mem_nil
  · exact absurd hi List.not_mem_nil

/-- The checks of a part. -/
theorem recvAssert_cons (stressId expectation : List UInt8) (expectMore : Bool) (message : Frame)
    (q : List Frame) : recvAssert stressId expectation expectMore (message :: q) = (do
      check (0 < message.size) .assertFailed
      check (stressId.length + expectation.length == message.size) (verboseExit q)
      let cmp ← read (strncmp stressId.length (cstr stressId) message.memory)
      check (cmp == 0) (verboseExit q)
      let cmp ← read (strncmp expectation.length (cstr expectation)
        (message.memory.drop stressId.length))
      check (cmp == 0) (verboseExit q)
      check (!(expectMore && !message.more)) (verboseExit q)
      check (!(!expectMore && message.more)) (verboseExit q)
      return q) := rfl

/-- The verdict on a part depends on what was read only. -/
theorem recvAssert_congr {stressId expectation : List UInt8} {expectMore : Bool}
    {message message' : Frame} {q : List Frame} (hsize : message.size = message'.size)
    (hmore : message.more = message'.more)
    (h : ∀ i ∈ recvAssertReads stressId expectation message,
      message.memory[i]? = message'.memory[i]?) :
    recvAssert stressId expectation expectMore (message :: q) =
      recvAssert stressId expectation expectMore (message' :: q) := by
  rw [recvAssert_cons, recvAssert_cons, hsize, hmore]
  by_cases hpos : 0 < message'.size
  · rw [check_of_true (decide_eq_true hpos), ok_bind, ok_bind]
    by_cases hsum : stressId.length + expectation.length = message'.size
    · rw [check_of_true (beq_iff_eq.mpr hsum), ok_bind, ok_bind]
      rw [recvAssertReads, hsize, if_pos ⟨hpos, hsum⟩] at h
      have hfirst : strncmp stressId.length (cstr stressId) message.memory =
          strncmp stressId.length (cstr stressId) message'.memory :=
        strncmp_congr (fun _ _ => rfl) fun i hi => h i (by simp [hi])
      rw [← hfirst]
      cases hcmp : strncmp stressId.length (cstr stressId) message.memory with
      | none => rw [read_none, error_bind, error_bind]
      | some cmp =>
        rw [read_some, ok_bind, ok_bind]
        by_cases hzero : cmp = 0
        · -- only now the rest is compared
          rw [hcmp, if_pos (congrArg some hzero)] at h
          have hsecond : strncmp expectation.length (cstr expectation)
              (message.memory.drop stressId.length) =
                strncmp expectation.length (cstr expectation)
                  (message'.memory.drop stressId.length) := by
            refine strncmp_congr (fun _ _ => rfl) ?_
            intro i hi
            rw [List.getElem?_drop, List.getElem?_drop]
            exact h _ (by simp [hi])
          rw [hsecond]
        · rw [check_of_not (by simpa using hzero), error_bind, error_bind]
    · rw [check_of_not (by simpa using hsum), error_bind, error_bind]
  · rw [check_of_not (by simpa using hpos), error_bind, error_bind]

/-! ### Frames and the memory behind them -/

/-- The memory behind a frame does not matter to its own positions. -/
theorem getElem?_memory (f : Frame) (beyond : List UInt8) {i : ℕ} (h : i < f.size) :
    { f with beyond := beyond }.memory[i]? = f.memory[i]? := by
  show (f.data ++ beyond)[i]? = (f.data ++ f.beyond)[i]?
  rw [List.getElem?_append_left h, List.getElem?_append_left h]

end Stress
end ZmqIssues
