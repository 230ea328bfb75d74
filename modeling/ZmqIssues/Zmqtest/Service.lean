import Mathlib.Algebra.BigOperators.Ring.Finset
import Mathlib.Algebra.Order.BigOperators.Group.Finset
import Mathlib.Data.Fintype.Card
import ZmqIssues.Lib.Progress
import ZmqIssues.Zmqtest.Model

/-!
# The worker serves its hammers for ever

The program has no end, so what can be said of its progress is how much of it the steps
make.  A round of a hammer takes five steps of its own and six of the worker.  As every
hammer has one request at most, the number of steps and the worker's counter determine each
other up to a constant.

## Main definitions

* `Hammer.spent`, `Hammer.served` — the steps a hammer has taken, and the requests of it that
  the worker has answered.
* `Counted as s` — what the actions `as` have brought about.

## Main results

* `requests_served` — **no assertion on a frame fails, each request is answered once and to the
  hammer that sent it, and the system never gets stuck: eleven steps serve a request.**
-/

namespace ZmqIssues
namespace Zmqtest

open Machine

variable {ι : Type*}

/-! ### Counting -/

/-- The steps a hammer has taken in its round. -/
def HammerPc.steps : HammerPc ι → ℕ
  | .ready => 0
  | .opened => 1
  | .connected => 2
  | .waiting => 3
  | .answered _ => 4

/-- The steps a hammer has taken. -/
def Hammer.spent (h : Hammer ι) : ℕ := 5 * h.rounds + h.pc.steps

/-- Has the hammer received its reply? -/
def HammerPc.answers : HammerPc ι → ℕ
  | .answered _ => 1
  | .ready | .opened | .connected | .waiting => 0

/-- The replies that were sent to the hammer. -/
def Hammer.served (h : Hammer ι) : ℕ := h.rounds + h.replies.length + h.pc.answers

/-- The steps the worker has taken for a request it has not counted. -/
def WorkerPc.ahead : WorkerPc ι → ℕ
  | .recvEmpty _ => 1
  | .recvMsg _ _ => 2
  | .recvAddr | .sendAddr _ _ _ | .sendEmpty _ _ _ | .sendMsg _ _ _ => 0

/-- The steps the worker has to take for a request it has counted. -/
def WorkerPc.owed : WorkerPc ι → ℕ
  | .sendAddr _ _ _ => 3
  | .sendEmpty _ _ _ => 2
  | .sendMsg _ _ _ => 1
  | .recvAddr | .recvEmpty _ | .recvMsg _ _ => 0

/-- Has the worker counted a request that it has not answered? -/
def WorkerPc.sending : WorkerPc ι → ℕ
  | .sendAddr _ _ _ | .sendEmpty _ _ _ | .sendMsg _ _ _ => 1
  | .recvAddr | .recvEmpty _ | .recvMsg _ _ => 0

/-- The step in which an assertion failed. -/
def System.aborts (s : System ι) : ℕ := if s.failed.isSome then 1 else 0

variable [Fintype ι]

/-- What the actions have brought about. -/
structure Counted (as : List (Action ι)) (s : System ι) : Prop extends Sound s where
  /-- Every action was a step of a hammer or of the worker. -/
  spent : as.length + s.worker.owed =
    ∑ t, (s.hammers t).spent + 6 * s.n + s.worker.ahead + s.aborts
  /-- What the worker has counted, it has answered or is answering. -/
  counted : s.n = ∑ t, (s.hammers t).served + s.worker.sending

variable [DecidableEq ι] {s s' : System ι} {a : Action ι}

omit [DecidableEq ι] in
theorem Counted.start : Counted [] (System.start : System ι) where
  toSound := Sound.start
  spent := by simp [System.start, Hammer.start, Hammer.spent, HammerPc.steps, WorkerPc.owed,
    WorkerPc.ahead, System.aborts]
  counted := by simp [System.start, Hammer.start, Hammer.served, HammerPc.answers,
    WorkerPc.sending]

omit [Fintype ι] in
/-- Nothing happens when an assertion has failed. -/
theorem failed_eq_none (hstep : step s a = some s') : s.failed = none := by
  by_contra hne
  simp [step, Option.isSome_iff_ne_none.mpr hne] at hstep

theorem sum_spent_setHammer (s : System ι) (t : ι) (g : Hammer ι) :
    ∑ u, ((s.setHammer t g).hammers u).spent + (s.hammers t).spent =
      ∑ u, (s.hammers u).spent + g.spent :=
  sum_update_add s.hammers Hammer.spent t g

theorem sum_served_setHammer (s : System ι) (t : ι) (g : Hammer ι) :
    ∑ u, ((s.setHammer t g).hammers u).served + (s.hammers t).served =
      ∑ u, (s.hammers u).served + g.served :=
  sum_update_add s.hammers Hammer.served t g

/-- A step of a hammer. -/
theorem Counted.setHammer {as : List (Action ι)} (h : Counted as s) {t : ι} {g : Hammer ι}
    (hsound : Sound (s.setHammer t g)) (hspent : g.spent = (s.hammers t).spent + 1)
    (hserved : g.served = (s.hammers t).served) : Counted (as ++ [a]) (s.setHammer t g) where
  toSound := hsound
  spent := by
    have hsum := sum_spent_setHammer s t g
    have hbefore : as.length + s.worker.owed =
      ∑ t, (s.hammers t).spent + 6 * s.n + s.worker.ahead + s.aborts := h.spent
    have hafter : (as ++ [a]).length + s.worker.owed =
        ∑ u, ((s.setHammer t g).hammers u).spent + 6 * s.n + s.worker.ahead + s.aborts := by
      rw [List.length_append, List.length_singleton]
      omega
    exact hafter
  counted := by
    have hsum := sum_served_setHammer s t g
    have hbefore := h.counted
    have hafter : s.n = ∑ u, ((s.setHammer t g).hammers u).served + s.worker.sending := by omega
    exact hafter

omit [DecidableEq ι] in
/-- A step of the worker. -/
theorem Counted.work {as : List (Action ι)} (h : Counted as s) (hsound : Sound s')
    (hspent : ∑ t, (s'.hammers t).spent = ∑ t, (s.hammers t).spent)
    (hserved : ∑ t, (s'.hammers t).served + s'.worker.sending + s.n =
      ∑ t, (s.hammers t).served + s.worker.sending + s'.n)
    (hwork : s'.worker.owed + 6 * s.n + s.worker.ahead + 1 =
      s.worker.owed + 6 * s'.n + s'.worker.ahead) (haborts : s'.aborts = s.aborts) :
    Counted (as ++ [a]) s' where
  toSound := hsound
  spent := by
    have hbefore := h.spent
    rw [List.length_append, List.length_singleton]
    omega
  counted := by
    have hbefore := h.counted
    omega

/-- **Every step counts.** -/
theorem Counted.step {as : List (Action ι)} (h : Counted as s) (hstep : step s a = some s') :
    Counted (as ++ [a]) s' := by
  have hmoves := h.moves hstep
  have hsound := hmoves.sound h.toSound
  have hfailed := failed_eq_none hstep
  cases hmoves with
  | socket hpc =>
    exact h.setHammer hsound (by simp [Hammer.spent, hpc, HammerPc.steps])
      (by simp [Hammer.served, hpc, HammerPc.answers])
  | noSocket hpc =>
    refine ⟨hsound, ?_, h.counted⟩
    have hbefore := h.spent
    simp only [System.aborts, hfailed, List.length_append, List.length_singleton,
      Option.isSome_none, Option.isSome_some, if_true, Bool.false_eq_true, if_false]
      at hbefore ⊢
    omega
  | connect hpc =>
    exact h.setHammer hsound (by simp [Hammer.spent, hpc, HammerPc.steps])
      (by simp [Hammer.served, hpc, HammerPc.answers])
  | request hpc =>
    exact h.setHammer hsound (by simp [Hammer.spent, hpc, HammerPc.steps])
      (by simp [Hammer.served, hpc, HammerPc.answers])
  | reply hpc hreplies =>
    exact h.setHammer hsound (by simp [Hammer.spent, hpc, HammerPc.steps])
      (by simp [Hammer.served, hpc, hreplies, HammerPc.answers])
  | @close t msg hpc =>
    obtain ⟨-, hreplies, -⟩ := h.of_ne_waiting (t := t) (by simp [hpc])
    refine h.setHammer hsound ?_ (by simp [Hammer.served, hpc, hreplies, HammerPc.answers])
    simp only [Hammer.spent, hpc, HammerPc.steps]
    omega
  | @recvAddr t hworker hrequests =>
    have hspent := sum_spent_setHammer s t { s.hammers t with requests := [] }
    have hserved := sum_served_setHammer s t { s.hammers t with requests := [] }
    refine h.work hsound ?_ ?_ ?_ rfl
    · exact Nat.add_right_cancel hspent
    · rw [hworker]
      exact congrArg (· + s.n) (Nat.add_right_cancel hserved)
    · simp [hworker, WorkerPc.owed, WorkerPc.ahead]
  | recvEmpty hworker =>
    exact h.work hsound rfl (by simp [hworker, WorkerPc.sending])
      (by simp [hworker, WorkerPc.owed, WorkerPc.ahead]) rfl
  | recvMsg hworker =>
    refine h.work hsound rfl ?_ ?_ rfl
    · simp only [hworker, WorkerPc.sending]
      omega
    · simp only [hworker, WorkerPc.owed, WorkerPc.ahead]
      omega
  | sendAddr hworker =>
    refine h.work hsound rfl (by simp [hworker, WorkerPc.sending]) ?_ rfl
    simp only [hworker, WorkerPc.owed, WorkerPc.ahead]
    omega
  | sendEmpty hworker =>
    refine h.work hsound rfl (by simp [hworker, WorkerPc.sending]) ?_ rfl
    simp only [hworker, WorkerPc.owed, WorkerPc.ahead]
    omega
  | @sendMsg t hworker =>
    have hserving : s.Serving t := by
      rw [System.Serving, hworker]
      rfl
    obtain ⟨-, -, hreplies⟩ := h.of_serving hserving
    have hspent := sum_spent_setHammer s t
      { s.hammers t with replies := [envelope (.data body)] }
    have hserved := sum_served_setHammer s t
      { s.hammers t with replies := [envelope (.data body)] }
    have hone : ({ s.hammers t with replies := [envelope (.data body)] } : Hammer ι).served =
        (s.hammers t).served + 1 := by
      simp only [Hammer.served, hreplies, List.length_nil, List.length_singleton]
      omega
    refine h.work hsound ?_ ?_ ?_ rfl
    · exact Nat.add_right_cancel hspent
    · have hsum : ∑ u, ((s.setHammer t { s.hammers t with
          replies := [envelope (.data body)] }).hammers u).served =
            ∑ u, (s.hammers u).served + 1 := by omega
      rw [hworker]
      simp only [WorkerPc.sending]
      exact congrArg (· + 0 + s.n) hsum
    · simp only [hworker, WorkerPc.owed, WorkerPc.ahead, System.setHammer_n]
      omega

theorem Counted.of_run {as : List (Action ι)} (hrun : run Zmqtest.step System.start as = some s) :
    Counted as s :=
  invariant_of_history (I := Counted) Counted.start (fun _ _ _ _ h hstep => h.step hstep) hrun

/-! ### The system goes on -/

omit [Fintype ι] in
/-- Where the worker is in the middle of a message, it can go on. -/
theorem Sound.exists_step_worker (h : Sound s) (hfailed : s.failed = none)
    (hworker : s.worker ≠ .recvAddr) [Nonempty ι] : ∃ a s', step s a = some s' := by
  obtain ⟨t⟩ := ‹Nonempty ι›
  have hincoming := h.incoming
  cases hpc : s.worker with
  | recvAddr => exact absurd hpc hworker
  | recvEmpty addr =>
    rw [hpc] at hincoming
    exact ⟨.recv t, _, by simp [step, hfailed, hpc, System.routerRecv_of_cons hincoming]; rfl⟩
  | recvMsg addr empty =>
    rw [hpc] at hincoming
    exact ⟨.recv t, _, by simp [step, hfailed, hpc, System.routerRecv_of_cons hincoming]; rfl⟩
  | sendAddr addr empty msg => exact ⟨.send, _, by simp [step, hfailed, hpc]; rfl⟩
  | sendEmpty addr empty msg => exact ⟨.send, _, by simp [step, hfailed, hpc]; rfl⟩
  | sendMsg addr empty msg => exact ⟨.send, _, by simp [step, hfailed, hpc]; rfl⟩

omit [Fintype ι] in
/-- **The system never gets stuck.** -/
theorem Sound.exists_step (h : Sound s) (hfailed : s.failed = none) [Nonempty ι] :
    ∃ a s', step s a = some s' := by
  by_cases hworker : s.worker = .recvAddr
  · obtain ⟨t⟩ := ‹Nonempty ι›
    cases hpc : (s.hammers t).pc with
    | ready => exact ⟨.socket t, _, by simp [step, hfailed, hpc]; rfl⟩
    | opened => exact ⟨.connect t, _, by simp [step, hfailed, hpc]; rfl⟩
    | connected => exact ⟨.request t, _, by simp [step, hfailed, hpc]; rfl⟩
    | answered msg => exact ⟨.close t, _, by simp [step, hfailed, hpc]; rfl⟩
    | waiting =>
      -- the request is at the router, or it has been answered
      cases h.place t with
      | away hnot => exact absurd hpc hnot
      | queued _ hrequests =>
        have hincoming : s.incoming = [] := by rw [h.incoming, hworker]; rfl
        exact ⟨.recv t, _, by
          simp [step, hfailed, hworker, System.routerRecv_of_envelope hincoming hrequests]; rfl⟩
      | served _ _ _ hserving =>
        rw [System.Serving, hworker] at hserving
        cases hserving
      | replied _ _ hreplies =>
        exact ⟨.reply t, _, by simp [step, hfailed, hpc, hreplies, envelope]; rfl⟩
  · exact h.exists_step_worker hfailed hworker

/-! ### What the program does -/

omit [Fintype ι] [DecidableEq ι] in
/-- A hammer has no more than one reply in this round, and three steps to take for it. -/
theorem Sound.served_bounds (h : Sound s) (t : ι) :
    (s.hammers t).rounds ≤ (s.hammers t).served ∧
      (s.hammers t).served ≤ (s.hammers t).rounds + 1 ∧
      5 * (s.hammers t).served ≤ (s.hammers t).spent + 2 ∧
      (s.hammers t).spent ≤ 5 * (s.hammers t).served + 3 := by
  unfold Hammer.served Hammer.spent
  cases h.place t with
  | away hpc _ hreplies =>
    cases hat : (s.hammers t).pc <;>
      simp only [hreplies, HammerPc.steps, HammerPc.answers, List.length_nil] <;> omega
  | queued hpc _ hreplies =>
    simp only [hpc, hreplies, HammerPc.steps, HammerPc.answers, List.length_nil]
    omega
  | served hpc _ hreplies =>
    simp only [hpc, hreplies, HammerPc.steps, HammerPc.answers, List.length_nil]
    omega
  | replied hpc _ hreplies =>
    simp only [hpc, hreplies, HammerPc.steps, HammerPc.answers, List.length_singleton]
    omega

omit [Fintype ι] in
/-- A request is in one place, while its hammer waits. -/
theorem Sound.one_place (h : Sound s) (t : ι) :
    (s.hammers t).requests.length +
        (if s.worker.client = some (.address t (s.hammers t).rounds) then 1 else 0) +
        (s.hammers t).replies.length = if (s.hammers t).pc = .waiting then 1 else 0 := by
  have hplace := h.place t
  unfold System.Serving at hplace
  cases hplace with
  | away hpc hrequests hreplies hserving => simp [hpc, hrequests, hreplies, hserving]
  | queued hpc hrequests hreplies hserving => simp [hpc, hrequests, hreplies, hserving]
  | served hpc hrequests hreplies hserving => simp [hpc, hrequests, hreplies, hserving]
  | replied hpc hrequests hreplies hserving => simp [hpc, hrequests, hreplies, hserving]

omit [DecidableEq ι] in
/-- While the worker answers a request, its hammer has no reply. -/
theorem Counted.le_rounds {as : List (Action ι)} (h : Counted as s) :
    s.n ≤ ∑ t, (s.hammers t).rounds + Fintype.card ι := by
  have hsum : ∑ t, ((s.hammers t).rounds + 1) = ∑ t, (s.hammers t).rounds + Fintype.card ι := by
    simp [Finset.sum_add_distrib]
  rw [h.counted, ← hsum]
  cases hclient : s.worker.client with
  | none =>
    have hsending : s.worker.sending = 0 := by
      cases hpc : s.worker with
      | recvAddr => rfl
      | _ => simp [hpc, WorkerPc.client] at hclient
    rw [hsending, Nat.add_zero]
    exact Finset.sum_le_sum fun t _ => (h.served_bounds t).2.1
  | some addr =>
    obtain ⟨t, rfl⟩ := h.served addr hclient
    obtain ⟨hpc, -, hreplies⟩ := h.of_serving hclient
    have hlt : (s.hammers t).served < (s.hammers t).rounds + 1 := by
      simp [Hammer.served, hpc, hreplies, HammerPc.answers]
    have hsending : s.worker.sending ≤ 1 := by
      cases s.worker <;> simp [WorkerPc.sending]
    have hless := Finset.sum_lt_sum (fun u _ => (h.served_bounds u).2.1)
      ⟨t, Finset.mem_univ t, hlt⟩
    omega

/-- **The worker serves its hammers for ever**, as long as they get their sockets.  In every
run no assertion on a frame fails, and a hammer receives what it has sent.  While a hammer
waits, its request is in one place: at the router, with the worker, or answered.  The worker has
counted the rounds of the hammers and no more than one request of each besides, and the
steps of the system are eleven for each request counted, up to a few for each thread.  Some
step can always be taken. -/
theorem requests_served {as : List (Action ι)}
    (hrun : run Zmqtest.step System.start as = some s) :
    s.failed ≠ some .more ∧
    (∀ t msg, (s.hammers t).pc = .answered msg → msg = .data body) ∧
    (∀ t, (s.hammers t).requests.length +
        (if s.worker.client = some (.address t (s.hammers t).rounds) then 1 else 0) +
        (s.hammers t).replies.length = if (s.hammers t).pc = .waiting then 1 else 0) ∧
    (∑ t, (s.hammers t).rounds ≤ s.n ∧ s.n ≤ ∑ t, (s.hammers t).rounds + Fintype.card ι) ∧
    (11 * s.n ≤ as.length + 2 * Fintype.card ι + 8 ∧
      as.length ≤ 11 * s.n + 3 * Fintype.card ι + 3) ∧
    (Nonempty ι → s.failed = none → ∃ a s', Zmqtest.step s a = some s') := by
  have h := Counted.of_run hrun
  have hcounted := h.counted
  have hspent := h.spent
  have hrounds : ∑ t, (s.hammers t).rounds ≤ ∑ t, (s.hammers t).served :=
    Finset.sum_le_sum fun t _ => (h.served_bounds t).1
  have hleast : 5 * ∑ t, (s.hammers t).served ≤
      ∑ t, (s.hammers t).spent + 2 * Fintype.card ι := by
    have hsum := Finset.sum_le_sum fun t (_ : t ∈ Finset.univ) => (h.served_bounds t).2.2.1
    simpa [Finset.mul_sum, Finset.sum_add_distrib, Nat.mul_comm] using hsum
  have hmost : ∑ t, (s.hammers t).spent ≤
      5 * ∑ t, (s.hammers t).served + 3 * Fintype.card ι := by
    have hsum := Finset.sum_le_sum fun t (_ : t ∈ Finset.univ) => (h.served_bounds t).2.2.2
    simpa [Finset.mul_sum, Finset.sum_add_distrib, Nat.mul_comm] using hsum
  have howed : s.worker.owed ≤ 3 * s.worker.sending := by
    cases s.worker <;> simp [WorkerPc.owed, WorkerPc.sending]
  have hsending : s.worker.sending ≤ 1 := by
    cases s.worker <;> simp [WorkerPc.sending]
  have hahead : s.worker.ahead ≤ 2 := by
    cases s.worker <;> simp [WorkerPc.ahead]
  have haborts : s.aborts ≤ 1 := by
    unfold System.aborts
    split <;> simp
  refine ⟨h.failed, h.answered, fun t => ?_, ⟨?_, h.le_rounds⟩, ⟨?_, ?_⟩, ?_⟩
  · exact h.one_place t
  · omega
  · omega
  · omega
  · intro hnonempty hfailed
    exact h.exists_step hfailed

/-- A hammer is served while the other one opens its socket. -/
def oneRound : List (Action Bool) :=
  [.socket true, .connect true, .request true, .recv true, .recv true, .socket false, .recv true,
    .send, .send, .connect false, .send, .reply true, .close true]

/-- The worker has counted the round of the hammer, and the system goes on. -/
theorem requests_served_oneRound :
    ∃ s : System Bool, run Zmqtest.step System.start oneRound = some s ∧
      (s.hammers true).rounds = 1 ∧ ∑ t, (s.hammers t).rounds ≤ s.n ∧
        ∃ a s', Zmqtest.step s a = some s' := by
  obtain ⟨s, hrun, hrounds, hfailed⟩ : ∃ s : System Bool,
      run Zmqtest.step System.start oneRound = some s ∧ (s.hammers true).rounds = 1 ∧
        s.failed = none := ⟨_, rfl, rfl, rfl⟩
  have h := requests_served hrun
  exact ⟨s, hrun, hrounds, h.2.2.2.1.1, h.2.2.2.2.2 ⟨true⟩ hfailed⟩

end Zmqtest
end ZmqIssues
