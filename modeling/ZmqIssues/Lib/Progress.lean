import Mathlib.Algebra.BigOperators.Group.Finset.Piecewise
import ZmqIssues.Lib.Machine

/-!
# Runs that come to an end

If every step makes a measure smaller, runs are no longer than the measure of the state
they start in, and every run can be continued until it is stuck: until no action that
meets a condition is possible any more.  So a system of which it is known what it looks
like when it is stuck gets there, whatever the order of its steps.

## Main definitions

* `Stuck step C s` — no action that meets `C` is possible.
* `Decreasing step I C μ` — the steps that meet `C` keep `I` and make `μ` smaller.

## Main results

* `Decreasing.length_add_le` — the length of a run is bounded by the measure.
* `Decreasing.exists_stuck` — **every run can be continued until it is stuck.**
* `sum_update_add` — the measure of many parties when one of them changes.
-/

namespace ZmqIssues
namespace Machine

variable {σ α : Type*}

/-- No action that meets the condition is possible. -/
def Stuck (step : σ → α → Option σ) (C : σ → α → Prop) (s : σ) : Prop :=
  ∀ a, C s a → step s a = none

/-- The steps that meet a condition keep an invariant and make a measure smaller. -/
structure Decreasing (step : σ → α → Option σ) (I : σ → Prop) (C : σ → α → Prop) (μ : σ → ℕ) :
    Prop where
  keep : ∀ {s a t}, I s → C s a → step s a = some t → I t
  lt : ∀ {s a t}, I s → C s a → step s a = some t → μ t < μ s

variable {step : σ → α → Option σ} {I : σ → Prop} {C : σ → α → Prop} {μ : σ → ℕ}

/-- **The length of a run is bounded by the measure of the state it starts in.** -/
theorem Decreasing.length_add_le (h : Decreasing step I C μ) {as : List α} :
    ∀ {s t}, I s → Along step C s as → run step s as = some t → as.length + μ t ≤ μ s := by
  induction as with
  | nil =>
    intro s t _ _ hrun
    rw [run_nil, Option.some.injEq] at hrun
    simp [hrun]
  | cons a as ih =>
    intro s t hs hal hrun
    obtain ⟨u, hu, hut⟩ := run_cons_eq_some.mp hrun
    have hlt := h.lt hs hal.1 hu
    have hrest := ih (h.keep hs hal.1 hu) (hal.2 u hu) hut
    rw [List.length_cons]
    omega

theorem Decreasing.invariant (h : Decreasing step I C μ) {as : List α} {s t : σ} (hs : I s)
    (hal : Along step C s as) (hrun : run step s as = some t) : I t :=
  invariant_of_along (fun _ _ _ => h.keep) hs hal hrun

/-- **Every run can be continued until it is stuck.** -/
theorem Decreasing.exists_stuck (h : Decreasing step I C μ) {s : σ} (hs : I s) :
    ∃ as t, run step s as = some t ∧ Along step C s as ∧ I t ∧ Stuck step C t := by
  induction hn : μ s using Nat.strong_induction_on generalizing s with
  | _ n ih =>
    by_cases hstuck : Stuck step C s
    · exact ⟨[], s, rfl, trivial, hs, hstuck⟩
    · obtain ⟨a, hC, hstep⟩ : ∃ a, C s a ∧ step s a ≠ none := by
        simpa only [Stuck, not_forall, exists_prop] using hstuck
      obtain ⟨u, hu⟩ := Option.ne_none_iff_exists'.mp hstep
      obtain ⟨as, t, hrun, hal, ht⟩ := ih (μ u) (hn ▸ h.lt hs hC hu) (h.keep hs hC hu) rfl
      refine ⟨a :: as, t, run_cons_eq_some.mpr ⟨u, hu, hrun⟩, ⟨hC, ?_⟩, ht⟩
      intro v hv
      obtain rfl : u = v := Option.some.inj (hu.symm.trans hv)
      exact hal

/-- When one of many parties changes, so does one summand of their measure. -/
theorem sum_update_add {ι π : Type*} [Fintype ι] [DecidableEq ι] (f : ι → π) (w : π → ℕ) (c : ι)
    (b : π) : ∑ d, w (Function.update f c b d) + w (f c) = ∑ d, w (f d) + w b := by
  have hmap : ∀ d, w (Function.update f c b d) = Function.update (fun d => w (f d)) c (w b) d := by
    intro d
    exact Function.apply_update (fun _ => w) f c b d
  simp only [hmap]
  rw [Finset.sum_update_of_mem (Finset.mem_univ c),
    Finset.sum_eq_add_sum_sdiff_singleton_of_mem (Finset.mem_univ c)]
  omega

end Machine
end ZmqIssues
