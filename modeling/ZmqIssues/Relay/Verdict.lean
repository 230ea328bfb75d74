import ZmqIssues.Lib.CStrings
import ZmqIssues.Relay.Device

/-!
# The verdict of issue 456

Two threads subscribe to the same topic through the device, and the main thread counts the
subscriptions that get through to it.  One of the two, the reporter, looks at the counter
100 ms after it has subscribed, and says from it whether the library drops the second
subscription or not.  Nothing but the time makes sure that everything has been counted by then.

The library's part is what the device's XSUB socket passes on of the subscriptions that are
sent on it: an unpatched library drops duplicates.

## Main definitions

* `Library` — unpatched or patched.
* `Test`, `Action`, `step` — all threads, and what can happen next.
* `Settled` — both subscriptions were sent, relayed and counted as far as they get through.

## Main results

* `verdict_sound` — **"PATCHED" is never wrong, no verdict is wrong in a settled test, and a
  test can always be brought to the right one.**
* `patched_called_unpatched` — a patched library can be called unpatched.
-/

namespace ZmqIssues
namespace Relay

open CStrings Machine Multipart

/-- The library the test runs with. -/
inductive Library
  /-- `xsub_t::xsend` filters out duplicate subscriptions. -/
  | unpatched
  /-- It does not. -/
  | patched
  deriving DecidableEq, Repr

/-- What an XSUB socket passes on of what was sent on it. -/
def Library.xsend : Library → List (List UInt8) → List (List UInt8)
  | .unpatched, ms => ms.eraseDups
  | .patched, ms => ms

/-- The two threads that run `thrfn2`. -/
inductive Thread
  /-- `thread2`. -/
  | thread2
  /-- `thread2b`, the reporter. -/
  | thread2b
  deriving DecidableEq, Repr

/-- What the program says when it ends. -/
inductive Verdict
  /-- "zmq is UNPATCHED" -/
  | unpatched
  /-- "zmq is PATCHED" -/
  | patched
  /-- "ERROR: %d subscriptions received, should be 1 or 2" -/
  | error (count : ℕ)
  deriving DecidableEq, Repr

/-- The threads of the program. -/
structure Test where
  /-- Has the thread sent its subscription? -/
  subscribed : Thread → Bool
  /-- The device, `thrfn1`. -/
  device : Device
  /-- The counter of the main thread. -/
  count : ℕ
  /-- The verdict, when the program has ended. -/
  exit : Option Verdict

/-- The threads start. -/
def Test.start : Test := ⟨fun _ => false, Relay.start, 0, none⟩

namespace Test

/-- What can happen next. -/
inductive Action
  /-- A thread sends its subscription. -/
  | subscribe (t : Thread)
  /-- The device goes on. -/
  | device (a : Relay.Action)
  /-- The main thread receives a subscription. -/
  | receive
  /-- The `zmq_poll` of a thread returns, and it looks at the counter. -/
  | report (t : Thread)
  deriving DecidableEq, Repr

end Test

/-- `"\001TOPIC"`. -/
def topic : List UInt8 := 1 :: bytes "TOPIC"

/-- `switch(count)`. -/
def verdictOf (count : ℕ) : Verdict :=
  match count with
  | 1 => .unpatched
  | 2 => .patched
  | _ => .error count

/-- The subscriptions that have got through to the main thread's socket. -/
def Test.passed (lib : Library) (w : Test) : List (List UInt8) :=
  lib.xsend ((w.device.sent .sub).map FlaggedPart.data)

/-- One step, or `none` when the action is not possible. -/
def Test.step (lib : Library) (w : Test) (a : Test.Action) : Option Test :=
  if w.exit.isSome then
    none
  else
    match a with
    | .subscribe t =>
      if w.subscribed t then none
      else (Relay.step w.device (.arrive .pub [topic])).map fun d =>
        { w with subscribed := Function.update w.subscribed t true, device := d }
    | .device (.arrive _ _) => none
    | .device a => (Relay.step w.device a).map fun d => { w with device := d }
    | .receive =>
      if w.count < (w.passed lib).length then some { w with count := w.count + 1 } else none
    | .report t =>
      -- the reporter waits for 100 ms only, the other thread for a message
      if w.subscribed t ∧ (t = .thread2b ∨ w.device.sent .pub ≠ []) then
        some { w with exit := some (verdictOf w.count) }
      else
        none

/-- Both subscriptions were sent, relayed and counted as far as they get through. -/
structure Settled (lib : Library) (w : Test) : Prop where
  subscribed : ∀ t, w.subscribed t = true
  relayed : w.device.waiting .pub = []
  counted : w.count = (w.passed lib).length

/-- The right verdict. -/
def Library.verdict : Library → Verdict
  | .unpatched => .unpatched
  | .patched => .patched

/-! ### What has got through -/

/-- The subscriptions that were sent. -/
def Test.sends (w : Test) : ℕ := (w.subscribed .thread2).toNat + (w.subscribed .thread2b).toNat

/-- The device has received nothing but the subscriptions. -/
def Fed (w : Test) : Prop :=
  ∃ as, run Relay.step Relay.start as = some w.device ∧
    arrivals .pub as = List.replicate w.sends [topic] ∧ arrivals .sub as = []

variable {lib : Library} {w u : Test} {a : Test.Action}

/-- What was relayed and what waits are the subscriptions. -/
theorem Fed.data_eq (h : Fed w) :
    (w.device.sent .sub).map FlaggedPart.data ++ (w.device.waiting .pub).map FlaggedPart.data =
      List.replicate w.sends topic := by
  obtain ⟨as, hrun, hpub, -⟩ := h
  have honce := relayed_once hrun .pub
  rw [List.map_append, hpub] at honce
  exact honce.trans (by simp)

theorem Fed.length_add (h : Fed w) :
    (w.device.sent .sub).length + (w.device.waiting .pub).length = w.sends := by
  have hlength := congrArg List.length h.data_eq
  simpa using hlength

/-- Nothing is published. -/
theorem Fed.sent_pub (h : Fed w) : w.device.sent .pub = [] := by
  obtain ⟨as, hrun, -, hsub⟩ := h
  have honce := relayed_once hrun .sub
  rw [hsub, List.flatten_nil, List.map_eq_nil_iff, List.append_eq_nil_iff] at honce
  exact honce.1

/-- A library that drops duplicates passes one subscription of many. -/
theorem length_eraseDups_replicate (n : ℕ) (m : List UInt8) :
    (List.replicate n m).eraseDups.length = min n 1 := by
  cases n with
  | zero => rfl
  | succ n => simp [List.replicate_succ, List.eraseDups_cons]

/-- How much of so many subscriptions gets through. -/
def Library.through : Library → ℕ → ℕ
  | .unpatched, n => min n 1
  | .patched, n => n

theorem Library.through_mono (lib : Library) {m n : ℕ} (h : m ≤ n) :
    lib.through m ≤ lib.through n := by
  cases lib with
  | unpatched =>
    simp only [Library.through]
    omega
  | patched => exact h

theorem Fed.length_passed (h : Fed w) (lib : Library) :
    (w.passed lib).length = lib.through (w.device.sent .sub).length := by
  obtain ⟨-, hsent, -⟩ := List.append_eq_replicate_iff.mp h.data_eq
  rw [Test.passed, hsent, List.length_map]
  cases lib with
  | unpatched => exact length_eraseDups_replicate _ _
  | patched => exact List.length_replicate

/-! ### Runs of a test -/

/-- **What a step can do.** -/
theorem Test.step_cases (h : w.step lib a = some u) : w.exit = none ∧
    ((∃ t d, a = .subscribe t ∧ w.subscribed t = false ∧
        Relay.step w.device (.arrive .pub [topic]) = some d ∧
        u = { w with subscribed := Function.update w.subscribed t true, device := d }) ∨
      (∃ b d, a = .device b ∧ ¬ IsArrival b ∧ Relay.step w.device b = some d ∧
        u = { w with device := d }) ∨
      (a = .receive ∧ w.count < (w.passed lib).length ∧ u = { w with count := w.count + 1 }) ∨
      ∃ t, a = .report t ∧ w.subscribed t = true ∧ (t = .thread2b ∨ w.device.sent .pub ≠ []) ∧
        u = { w with exit := some (verdictOf w.count) }) := by
  have hexit : w.exit = none := by
    by_contra hne
    simp [Test.step, Option.isSome_iff_ne_none.mpr hne] at h
  refine ⟨hexit, ?_⟩
  unfold Test.step at h
  rw [if_neg (by simp [hexit])] at h
  cases a with
  | subscribe t =>
    rw [Option.ite_none_left_eq_some, Option.map_eq_some_iff] at h
    obtain ⟨ht, d, hd, rfl⟩ := h
    exact .inl ⟨t, d, rfl, by simpa using ht, hd, rfl⟩
  | device b =>
    cases b with
    | arrive side m => exact absurd h (by simp)
    | _ =>
      obtain ⟨d, hd, rfl⟩ := Option.map_eq_some_iff.mp h
      exact .inr (.inl ⟨_, d, rfl, nofun, hd, rfl⟩)
  | receive =>
    rw [Option.ite_none_right_eq_some, Option.some.injEq] at h
    exact .inr (.inr (.inl ⟨rfl, h.1, h.2.symm⟩))
  | report t =>
    rw [Option.ite_none_right_eq_some, Option.some.injEq] at h
    exact .inr (.inr (.inr ⟨t, rfl, h.1.1, h.1.2, h.2.symm⟩))

/-- What is known of a test in every run. -/
structure Going (lib : Library) (w : Test) : Prop where
  /-- The device has received nothing but the subscriptions. -/
  fed : Fed w
  /-- The main thread counts what has got through. -/
  count : w.count ≤ (w.passed lib).length
  /-- The reporter has read the counter. -/
  exit : ∀ v, w.exit = some v → v = verdictOf w.count ∧ w.subscribed .thread2b = true

theorem Going.start : Going lib Test.start where
  fed := ⟨[], rfl, rfl, rfl⟩
  count := Nat.zero_le _
  exit := nofun

/-- A subscription arrives at the device. -/
theorem Fed.subscribe (h : Fed w) {t : Thread} {d : Device} (ht : w.subscribed t = false)
    (hd : Relay.step w.device (.arrive .pub [topic]) = some d) :
    Fed { w with subscribed := Function.update w.subscribed t true, device := d } ∧
      d.sent = w.device.sent := by
  obtain ⟨as, hrun, hpub, hsub⟩ := h
  have hsends : Test.sends { w with
      subscribed := Function.update w.subscribed t true, device := d } = w.sends + 1 := by
    cases t with
    | thread2 =>
      simp [Test.sends, ht]
      omega
    | thread2b => simp [Test.sends, ht]
  refine ⟨⟨as ++ [.arrive .pub [topic]], run_concat_eq_some.mpr ⟨_, hrun, hd⟩, ?_, ?_⟩, ?_⟩
  · rw [arrivals_append, hpub, hsends, List.replicate_succ']
    rfl
  · rw [arrivals_append, hsub]
    rfl
  · rcases Relay.step_cases hd with ⟨_, _, -, hsent, -⟩ | ⟨hnot, -⟩ | ⟨hnot, -⟩
    · exact hsent
    · exact absurd ⟨_, _, rfl⟩ hnot
    · exact absurd ⟨_, _, rfl⟩ hnot

/-- The device goes on, and has sent what it had sent before. -/
theorem Fed.device (h : Fed w) {b : Relay.Action} {d : Device} (hb : ¬ IsArrival b)
    (hd : Relay.step w.device b = some d) :
    Fed { w with device := d } ∧ (w.device.sent .sub).length ≤ (d.sent .sub).length := by
  obtain ⟨as, hrun, hpub, hsub⟩ := h
  refine ⟨⟨as ++ [b], run_concat_eq_some.mpr ⟨_, hrun, hd⟩, ?_, ?_⟩, ?_⟩
  · rw [arrivals_append, arrivals_singleton_of_not hb, List.append_nil, hpub]
    rfl
  · rw [arrivals_append, arrivals_singleton_of_not hb, List.append_nil, hsub]
  · rcases Relay.step_cases hd with ⟨_, _, rfl, -⟩ | ⟨-, side, p, _, -, -, -, hsent⟩ |
      ⟨-, -, -, hsent⟩
    · exact absurd ⟨_, _, rfl⟩ hb
    · rw [hsent]
      cases side with
      | sub => exact Nat.le_refl _
      | pub => simp [Side.other]
    · rw [hsent]

/-- **Every step keeps what is known of a test.** -/
theorem Going.step (h : Going lib w) (hstep : w.step lib a = some u) : Going lib u := by
  obtain ⟨hexit, hcases⟩ := Test.step_cases hstep
  rcases hcases with ⟨t, d, -, ht, hd, rfl⟩ | ⟨b, d, -, hb, hd, rfl⟩ | ⟨-, hlt, rfl⟩ |
    ⟨t, -, ht, hwake, rfl⟩
  · obtain ⟨hfed, hsent⟩ := h.fed.subscribe ht hd
    refine ⟨hfed, ?_, by simp [hexit]⟩
    have hpassed : ({ w with
        subscribed := Function.update w.subscribed t true, device := d } : Test).passed lib =
          w.passed lib := by rw [Test.passed, Test.passed, hsent]
    rw [hpassed]
    exact h.count
  · obtain ⟨hfed, hle⟩ := h.fed.device hb hd
    refine ⟨hfed, ?_, by simp [hexit]⟩
    have hcount := h.count
    rw [h.fed.length_passed] at hcount
    rw [hfed.length_passed]
    exact hcount.trans (lib.through_mono hle)
  · exact ⟨h.fed, hlt, by simp [hexit]⟩
  · refine ⟨h.fed, h.count, ?_⟩
    intro v hv
    obtain rfl : t = .thread2b := hwake.resolve_right (not_not.mpr h.fed.sent_pub)
    exact ⟨(Option.some.inj hv).symm, ht⟩

theorem Going.of_run {as : List Test.Action} (hrun : run (Test.step lib) Test.start as = some w) :
    Going lib w :=
  invariant_of_run (fun _ _ _ h hstep => h.step hstep) Going.start hrun

/-! ### Settled tests -/

theorem Test.sends_le (w : Test) : w.sends ≤ 2 := by
  have h2 := Bool.toNat_le (w.subscribed .thread2)
  have h2b := Bool.toNat_le (w.subscribed .thread2b)
  unfold Test.sends
  omega

theorem Test.sends_eq_two_iff (w : Test) : w.sends = 2 ↔ ∀ t, w.subscribed t = true := by
  constructor
  · intro h t
    have h2 := Bool.toNat_le (w.subscribed .thread2)
    have h2b := Bool.toNat_le (w.subscribed .thread2b)
    unfold Test.sends at h
    cases t with
    | thread2 => exact Bool.toNat_eq_one.mp (by omega)
    | thread2b => exact Bool.toNat_eq_one.mp (by omega)
  · intro h
    simp [Test.sends, h]

/-- The verdict on a settled test is the right one. -/
theorem Going.verdictOf_eq (h : Going lib w) (hs : Settled lib w) :
    verdictOf w.count = lib.verdict := by
  have hadd := h.fed.length_add
  rw [hs.relayed, List.length_nil, w.sends_eq_two_iff.mpr hs.subscribed] at hadd
  have hcount : w.count = lib.through 2 := by rw [hs.counted, h.fed.length_passed, ← hadd]; rfl
  rw [hcount]
  cases lib <;> rfl

/-- The counter does not get beyond what gets through of two subscriptions. -/
theorem Going.count_le (h : Going lib w) : w.count ≤ lib.through 2 := by
  have hadd := h.fed.length_add
  have hsends := w.sends_le
  have hcount := h.count
  rw [h.fed.length_passed] at hcount
  exact hcount.trans (lib.through_mono (by omega))

/-- If two subscriptions were counted, the library is patched and the test is settled. -/
theorem Going.settled (h : Going lib w) (htwo : w.count = 2) : lib = .patched ∧ Settled lib w := by
  have hle := h.count_le
  cases lib with
  | unpatched =>
    rw [htwo] at hle
    exact absurd hle (by decide)
  | patched =>
    have hadd := h.fed.length_add
    have hsends := w.sends_le
    have hcount := h.count
    rw [htwo, h.fed.length_passed, Library.through] at hcount
    refine ⟨rfl, w.sends_eq_two_iff.mp (by omega), List.eq_nil_of_length_eq_zero (by omega), ?_⟩
    rw [h.fed.length_passed, Library.through]
    omega

/-! ### Tests can be settled -/

/-- Both threads can subscribe. -/
theorem exists_subscribed (lib : Library) (w : Test) (hexit : w.exit = none) :
    ∃ as u, run (Test.step lib) w as = some u ∧ (∀ t, u.subscribed t = true) ∧
      u.exit = none := by
  have hone : ∀ (w : Test) (t : Thread), w.exit = none → ∃ as u,
      run (Test.step lib) w as = some u ∧ u.subscribed t = true ∧
        (∀ t', w.subscribed t' = true → u.subscribed t' = true) ∧ u.exit = none := by
    intro w t hexit
    by_cases ht : w.subscribed t = true
    · exact ⟨[], w, rfl, ht, fun _ => id, hexit⟩
    · refine ⟨[.subscribe t], _, by simp [Test.step, hexit, ht, Relay.step]; rfl, ?_, ?_, rfl⟩
      · exact Function.update_self t true w.subscribed
      · intro t' ht'
        by_cases heq : t' = t
        · subst heq
          exact Function.update_self t' true w.subscribed
        · exact (Function.update_of_ne heq true w.subscribed).trans ht'
  obtain ⟨as, u, hu, h2, -, hexitu⟩ := hone w .thread2 hexit
  obtain ⟨bs, v, hv, h2b, hkeep, hexitv⟩ := hone u .thread2b hexitu
  refine ⟨as ++ bs, v, by rw [run_append, hu, Option.bind_some, hv], ?_, hexitv⟩
  intro t
  cases t with
  | thread2 => exact hkeep _ h2
  | thread2b => exact h2b

/-- A run of the device is one of the test. -/
theorem run_device (lib : Library) {bs : List Relay.Action} {d : Device} :
    ∀ {w : Test}, w.exit = none → (∀ b ∈ bs, ¬ IsArrival b) →
      run Relay.step w.device bs = some d →
        run (Test.step lib) w (bs.map .device) = some { w with device := d } := by
  induction bs with
  | nil =>
    intro w _ _ hrun
    rw [run_nil, Option.some.injEq] at hrun
    rw [← hrun]
    rfl
  | cons b bs ih =>
    intro w hexit hbs hrun
    obtain ⟨e, he, hed⟩ := run_cons_eq_some.mp hrun
    have hb := hbs b List.mem_cons_self
    have hstep : w.step lib (.device b) = some { w with device := e } := by
      unfold Test.step
      rw [if_neg (by simp [hexit])]
      cases b with
      | arrive side m => exact absurd ⟨side, m, rfl⟩ hb
      | _ => exact Option.map_eq_some_iff.mpr ⟨e, he, rfl⟩
    have hrest := ih (w := { w with device := e }) hexit
      (fun b' hb' => hbs b' (List.mem_cons_of_mem b hb')) hed
    exact run_cons_eq_some.mpr ⟨_, hstep, hrest⟩

/-- Everything that has got through can be counted. -/
theorem exists_counted (lib : Library) {w : Test} (hexit : w.exit = none)
    (hle : w.count ≤ (w.passed lib).length) :
    ∃ as, run (Test.step lib) w as = some { w with count := (w.passed lib).length } := by
  obtain ⟨n, hn⟩ := Nat.exists_eq_add_of_le hle
  induction n generalizing w with
  | zero =>
    refine ⟨[], ?_⟩
    rw [run_nil, hn, Nat.add_zero]
  | succ n ih =>
    have hstep : w.step lib .receive = some { w with count := w.count + 1 } := by
      simp [Test.step, hexit, hn]
    obtain ⟨as, has⟩ := ih (w := { w with count := w.count + 1 }) hexit (by
      show w.count + 1 ≤ (w.passed lib).length
      omega) (by
      show (w.passed lib).length = w.count + 1 + n
      omega)
    exact ⟨.receive :: as, run_cons_eq_some.mpr ⟨_, hstep, has⟩⟩

/-- Every test that has not ended can be settled. -/
theorem exists_settled {as : List Test.Action} (hrun : run (Test.step lib) Test.start as = some w)
    (hexit : w.exit = none) :
    ∃ bs u, run (Test.step lib) w bs = some u ∧ Settled lib u ∧ u.exit = none := by
  obtain ⟨bs, v, hv, hsub, hexitv⟩ := exists_subscribed lib w hexit
  have hrunv : run (Test.step lib) Test.start (as ++ bs) = some v := by
    rw [run_append, hrun, Option.bind_some, hv]
  -- the device relays both subscriptions
  obtain ⟨das, hdas, -⟩ := (Going.of_run hrunv).fed
  obtain ⟨ds, d, hds, hd, hdrained⟩ := (transparent_iff hdas).2.2
  have hdevice := run_device lib hexitv hds hd
  have hrund : run (Test.step lib) Test.start (as ++ bs ++ ds.map .device) =
      some { v with device := d } := by
    rw [run_append, hrunv, Option.bind_some, hdevice]
  -- and the main thread counts what gets through
  obtain ⟨cs, hcs⟩ := exists_counted lib (w := { v with device := d }) hexitv
    (Going.of_run hrund).count
  refine ⟨bs ++ ds.map .device ++ cs,
    { v with device := d, count := (Test.passed lib { v with device := d }).length }, ?_,
    ⟨hsub, hdrained .pub, rfl⟩, hexitv⟩
  rw [run_append, run_append, hv, Option.bind_some, hdevice, Option.bind_some, hcs]

theorem eq_two_of_verdictOf {n : ℕ} (h : verdictOf n = .patched) : n = 2 := by
  unfold verdictOf at h
  split at h
  · exact absurd h (by decide)
  · rfl
  · exact absurd h (by simp)

theorem of_verdictOf_error {m n : ℕ} (h : verdictOf m = .error n) : m = n ∧ m ≠ 1 ∧ m ≠ 2 := by
  unfold verdictOf at h
  split at h
  · exact absurd h (by simp)
  · exact absurd h (by simp)
  · next hone htwo => exact ⟨Verdict.error.inj h, hone, htwo⟩

/-- **"PATCHED" is never wrong, and no verdict on a settled test is.**  The error is given only
if nothing has been counted.  And every test that has not ended can be brought to the right
verdict. -/
theorem verdict_sound (lib : Library) {as : List Test.Action}
    (hrun : run (Test.step lib) Test.start as = some w) :
    (w.exit = some .patched → lib = .patched ∧ Settled lib w) ∧
    (∀ v, Settled lib w → w.exit = some v → v = lib.verdict) ∧
    (∀ n, w.exit = some (.error n) → n = 0) ∧
    (w.exit = none → ∃ bs u, run (Test.step lib) w bs = some u ∧ Settled lib u ∧
      u.exit = some lib.verdict) := by
  have h := Going.of_run hrun
  refine ⟨?_, ?_, ?_, ?_⟩
  · intro hexit
    exact h.settled (eq_two_of_verdictOf (h.exit _ hexit).1.symm)
  · intro v hs hexit
    rw [(h.exit v hexit).1]
    exact h.verdictOf_eq hs
  · intro n hexit
    obtain ⟨hn, hone, htwo⟩ := of_verdictOf_error (h.exit _ hexit).1.symm
    have hle : lib.through 2 ≤ 2 := by cases lib <;> decide
    have hcount := h.count_le
    omega
  · intro hexit
    obtain ⟨bs, u, hu, hs, hexitu⟩ := exists_settled hrun hexit
    have hrunu : run (Test.step lib) Test.start (as ++ bs) = some u := by
      rw [run_append, hrun, Option.bind_some, hu]
    have hreport : u.step lib (.report .thread2b) =
        some { u with exit := some (verdictOf u.count) } := by
      simp [Test.step, hexitu, hs.subscribed]
    refine ⟨bs ++ [.report .thread2b], { u with exit := some (verdictOf u.count) },
      run_concat_eq_some.mpr ⟨u, hu, hreport⟩, ⟨hs.subscribed, hs.relayed, hs.counted⟩, ?_⟩
    exact congrArg some ((Going.of_run hrunu).verdictOf_eq hs)

/-- The reporter looks at the counter before the device has relayed its subscription. -/
def earlyReport : List Test.Action :=
  [.subscribe .thread2, .device .poll, .device .first, .device .second, .receive,
    .subscribe .thread2b, .report .thread2b]

/-- A patched library can be called unpatched, where the test is not settled. -/
theorem patched_called_unpatched :
    ∃ w, run (Test.step .patched) Test.start earlyReport = some w ∧
      w.exit = some .unpatched ∧ ¬ Settled .patched w := by
  obtain ⟨w, hrun, hexit⟩ : ∃ w, run (Test.step .patched) Test.start earlyReport = some w ∧
      w.exit = some .unpatched := ⟨_, rfl, rfl⟩
  refine ⟨w, hrun, hexit, ?_⟩
  intro hs
  exact absurd ((verdict_sound .patched hrun).2.1 _ hs hexit) (by decide)

end Relay
end ZmqIssues
