import Mathlib.Data.List.Infix
import Mathlib.Data.List.Induction
import Mathlib.Data.Option.Defs

/-!
# Runs of a partial step function

A system is given by a step function `σ → α → Option σ`: the state after an
action, or `none` when the action is not possible in that state.  A run is a
list of actions, and what is proved about a system is proved of every run.

## Main definitions

* `run step s as` — the state after the actions `as`, if all of them are possible.
* `Throughout step P s as` — `P` holds in every state the run passes through.
* `Along step C s as` — every action of the run meets the condition `C` in the
  state it is taken in.
* `failsAt step s as` — the place of the first action that is not possible.
* `outputs next out s as` — what a system that is never stuck puts out on the way.

## Main results

* `invariant_of_run` — the induction rule for invariants.
* `invariant_of_along` — the same rule for the runs whose actions meet a condition.
* `invariant_of_history` — the same rule for what also speaks of the actions taken.
* `throughout_iff_along` — what exactly the actions have to meet for a property to hold
  throughout a run.
* `run_append` — runs compose.
* `failsAt_eq_iff` — two systems stop at the same place if they run through the same prefixes.
* `isSome_run_iff_of_step` — they do if they are stuck alike wherever both get.
* `forall₂_outputs` — the simulation rule: two systems that stay related under the
  actions an environment can take put out related results.
-/

namespace ZmqIssues
namespace Machine

variable {σ α : Type*}

/-- The state after the actions, or `none` as soon as one of them is not possible. -/
def run (step : σ → α → Option σ) : σ → List α → Option σ
  | s, [] => some s
  | s, a :: as => (step s a).bind fun t => run step t as

/-- `P` holds in every state a run passes through, the first one included. -/
def Throughout (step : σ → α → Option σ) (P : σ → Prop) (s : σ) (as : List α) : Prop :=
  ∀ pre, pre <+: as → ∀ t, run step s pre = some t → P t

/-- Every action of a run meets the condition `C` in the state it is taken in. -/
def Along (step : σ → α → Option σ) (C : σ → α → Prop) : σ → List α → Prop
  | _, [] => True
  | s, a :: as => C s a ∧ ∀ t, step s a = some t → Along step C t as

variable {step : σ → α → Option σ} {C : σ → α → Prop} {I : σ → Prop}

@[simp] theorem run_nil (s : σ) : run step s [] = some s := rfl

@[simp] theorem run_cons (s : σ) (a : α) (as : List α) :
    run step s (a :: as) = (step s a).bind fun t => run step t as := rfl

@[simp] theorem along_nil (s : σ) : Along step C s [] := trivial

theorem along_cons {s : σ} {a : α} {as : List α} :
    Along step C s (a :: as) ↔ C s a ∧ ∀ t, step s a = some t → Along step C t as := Iff.rfl

/-- A condition on the actions alone is met along a run when all its actions meet it. -/
theorem along_of_forall {D : α → Prop} {as : List α} (h : ∀ a ∈ as, D a) (s : σ) :
    Along step (fun _ a => D a) s as := by
  induction as generalizing s with
  | nil => trivial
  | cons a as ih =>
    refine ⟨h a List.mem_cons_self, ?_⟩
    intro t _
    exact ih (fun b hb => h b (List.mem_cons_of_mem a hb)) t

/-- What follows from a condition met along a run is met along it. -/
theorem Along.mono {D : σ → α → Prop} {s : σ} {as : List α} (h : Along step C s as)
    (hCD : ∀ s a, C s a → D s a) : Along step D s as := by
  induction as generalizing s with
  | nil => trivial
  | cons a as ih => exact ⟨hCD s a h.1, fun t hstep => ih (h.2 t hstep)⟩

/-- Two conditions met along a run are met together. -/
theorem Along.and {D : σ → α → Prop} {s : σ} {as : List α} (hC : Along step C s as)
    (hD : Along step D s as) : Along step (fun s a => C s a ∧ D s a) s as := by
  induction as generalizing s with
  | nil => trivial
  | cons a as ih =>
    refine ⟨⟨hC.1, hD.1⟩, ?_⟩
    intro t ht
    exact ih (hC.2 t ht) (hD.2 t ht)

/-- A run of at least one action takes its first one. -/
theorem run_cons_eq_some {s t : σ} {a : α} {as : List α} :
    run step s (a :: as) = some t ↔ ∃ u, step s a = some u ∧ run step u as = some t := by
  rw [run_cons, Option.bind_eq_some_iff]

theorem run_append (s : σ) (as bs : List α) :
    run step s (as ++ bs) = (run step s as).bind fun t => run step t bs := by
  induction as generalizing s with
  | nil => rfl
  | cons a as ih =>
    rw [List.cons_append, run_cons, run_cons, Option.bind_assoc]
    congr 1
    funext t
    exact ih t

theorem run_append_eq_some {s t : σ} {as bs : List α} :
    run step s (as ++ bs) = some t ↔ ∃ u, run step s as = some u ∧ run step u bs = some t := by
  rw [run_append, Option.bind_eq_some_iff]

theorem run_concat_eq_some {s t : σ} {as : List α} {a : α} :
    run step s (as ++ [a]) = some t ↔ ∃ u, run step s as = some u ∧ step u a = some t := by
  rw [run_append_eq_some]
  simp

theorem Throughout.final {P : σ → Prop} {s t : σ} {as : List α} (h : Throughout step P s as)
    (hrun : run step s as = some t) : P t :=
  h as List.prefix_rfl t hrun

theorem along_append {s : σ} {as bs : List α} :
    Along step C s (as ++ bs) ↔
      Along step C s as ∧ ∀ t, run step s as = some t → Along step C t bs := by
  induction as generalizing s with
  | nil => simp
  | cons a as ih =>
    rw [List.cons_append, along_cons, along_cons, and_assoc]
    refine and_congr_right fun _ => ?_
    constructor
    · intro h
      constructor
      · intro t ht
        exact (ih.mp (h t ht)).1
      · intro t ht
        obtain ⟨u, hu, hut⟩ := run_cons_eq_some.mp ht
        exact (ih.mp (h u hu)).2 t hut
    · intro h t ht
      obtain ⟨h₁, h₂⟩ := h
      refine ih.mpr ⟨h₁ t ht, ?_⟩
      intro v hv
      exact h₂ v (run_cons_eq_some.mpr ⟨t, ht, hv⟩)

/-- One more action meets the condition where the run has led to. -/
theorem along_concat {s t : σ} {as : List α} (hrun : run step s as = some t) (a : α) :
    Along step C s (as ++ [a]) ↔ Along step C s as ∧ C t a := by
  rw [along_append]
  refine and_congr_right fun _ => ?_
  constructor
  · intro h
    exact (h t hrun).1
  · intro h u hu
    obtain rfl : t = u := Option.some.inj (hrun.symm.trans hu)
    exact ⟨h, fun _ _ => trivial⟩

/-- What holds throughout a run holds at first and throughout the rest. -/
theorem throughout_cons {P : σ → Prop} {s : σ} {a : α} {as : List α} :
    Throughout step P s (a :: as) ↔ P s ∧ ∀ t, step s a = some t → Throughout step P t as := by
  constructor
  · intro h
    refine ⟨h [] List.nil_prefix s rfl, ?_⟩
    intro t ht pre hpre u hu
    exact h (a :: pre) (List.cons_prefix_cons.mpr ⟨rfl, hpre⟩) u (run_cons_eq_some.mpr ⟨t, ht, hu⟩)
  · intro h pre hpre u hu
    rcases List.prefix_cons_iff.mp hpre with rfl | ⟨rest, rfl, hrest⟩
    · rw [run_nil, Option.some.injEq] at hu
      exact hu ▸ h.1
    · obtain ⟨t, ht, htu⟩ := run_cons_eq_some.mp hu
      exact h.2 t ht rest hrest u htu

/-- **The induction rule on the runs whose actions meet a condition.** -/
theorem invariant_of_along
    (hstep : ∀ s a t, I s → C s a → step s a = some t → I t) {as : List α} :
    ∀ {s t : σ}, I s → Along step C s as → run step s as = some t → I t := by
  induction as with
  | nil =>
    intro s t hs _ hrun
    rw [run_nil, Option.some.injEq] at hrun
    exact hrun ▸ hs
  | cons a as ih =>
    intro s t hs hal hrun
    obtain ⟨u, hu, hut⟩ := run_cons_eq_some.mp hrun
    exact ih (hstep s a u hs hal.1 hu) (hal.2 u hu) hut

/-- **The induction rule on runs.**  What holds at first and is kept by every
step holds after every run. -/
theorem invariant_of_run (hstep : ∀ s a t, I s → step s a = some t → I t) {as : List α} :
    ∀ {s t : σ}, I s → run step s as = some t → I t := by
  induction as with
  | nil =>
    intro s t hs hrun
    rw [run_nil, Option.some.injEq] at hrun
    exact hrun ▸ hs
  | cons a as ih =>
    intro s t hs hrun
    obtain ⟨u, hu, hut⟩ := run_cons_eq_some.mp hrun
    exact ih (hstep s a u hs hu) hut

/-- **The rule for exact conditions.**  If the invariant `I` is kept by the actions that
meet `C`, and `P` follows from it and fails behind every other action, then `P` holds
throughout a run just if all its actions meet `C`. -/
theorem throughout_iff_along {P : σ → Prop} (hP : ∀ s, I s → P s)
    (hkeep : ∀ s a t, I s → C s a → step s a = some t → I t)
    (hbreak : ∀ s a t, I s → ¬ C s a → step s a = some t → ¬ P t) {as : List α} :
    ∀ {s t : σ}, I s → run step s as = some t →
      (Throughout step P s as ↔ Along step C s as) := by
  induction as with
  | nil =>
    intro s t hs _
    refine iff_of_true ?_ trivial
    intro pre hpre u hu
    obtain rfl : pre = [] := List.prefix_nil.mp hpre
    rw [run_nil, Option.some.injEq] at hu
    exact hu ▸ hP s hs
  | cons a as ih =>
    intro s t hs hrun
    obtain ⟨u, hu, hut⟩ := run_cons_eq_some.mp hrun
    rw [throughout_cons, along_cons]
    constructor
    · intro h
      have hC : C s a := by
        by_contra hC
        exact hbreak s a u hs hC hu (h.2 u hu [] List.nil_prefix u rfl)
      refine ⟨hC, ?_⟩
      intro v hv
      obtain rfl : u = v := Option.some.inj (hu.symm.trans hv)
      exact (ih (hkeep s a u hs hC hu) hut).mp (h.2 u hu)
    · intro h
      refine ⟨hP s hs, ?_⟩
      intro v hv
      obtain rfl : u = v := Option.some.inj (hu.symm.trans hv)
      exact (ih (hkeep s a u hs h.1 hu) hut).mpr (h.2 u hu)

/-- **The induction rule on histories.**  What is said about the actions taken so far and
the state they lead to. -/
theorem invariant_of_history {I : List α → σ → Prop} {s₀ : σ} (hstart : I [] s₀)
    (hstep : ∀ as s a t, I as s → step s a = some t → I (as ++ [a]) t) {as : List α} :
    ∀ {t : σ}, run step s₀ as = some t → I as t := by
  induction as using List.reverseRecOn with
  | nil =>
    intro t hrun
    rw [run_nil, Option.some.injEq] at hrun
    exact hrun ▸ hstart
  | append_singleton as a ih =>
    intro t hrun
    obtain ⟨u, hu, hut⟩ := run_concat_eq_some.mp hrun
    exact hstep as u a t (ih hu) hut

/-- A run whose actions meet a condition can be stopped after any of them. -/
theorem Along.of_isPrefix {s : σ} {as pre : List α} (h : Along step C s as) (hpre : pre <+: as) :
    Along step C s pre := by
  obtain ⟨post, rfl⟩ := hpre
  exact (along_append.mp h).1

/-! ### Where a run stops -/

/-- The place of the first action that is not possible, counted from 0. -/
def failsAt (step : σ → α → Option σ) : σ → List α → Option ℕ
  | _, [] => none
  | s, a :: as => (step s a).elim (some 0) fun t => (failsAt step t as).map (· + 1)

@[simp] theorem failsAt_nil (s : σ) : failsAt step s [] = none := rfl

theorem failsAt_cons_of_none {s : σ} {a : α} (h : step s a = none) (as : List α) :
    failsAt step s (a :: as) = some 0 := by
  rw [failsAt, h]
  rfl

theorem failsAt_cons_of_some {s t : σ} {a : α} (h : step s a = some t) (as : List α) :
    failsAt step s (a :: as) = (failsAt step t as).map (· + 1) := by
  rw [failsAt, h]
  rfl

theorem failsAt_eq_none_iff {s : σ} {as : List α} :
    failsAt step s as = none ↔ (run step s as).isSome := by
  induction as generalizing s with
  | nil => simp
  | cons a as ih =>
    cases h : step s a with
    | none => simp [failsAt_cons_of_none h, h]
    | some t => simp [failsAt_cons_of_some h, h, ih]

/-- The actions a run gets through are counted with those behind them. -/
theorem failsAt_append {s t : σ} {as : List α} (h : run step s as = some t) (bs : List α) :
    failsAt step s (as ++ bs) = (failsAt step t bs).map (· + as.length) := by
  induction as generalizing s with
  | nil =>
    obtain rfl : s = t := Option.some.inj h
    simp
  | cons a as ih =>
    obtain ⟨u, hu, hut⟩ := run_cons_eq_some.mp h
    rw [List.cons_append, failsAt_cons_of_some hu, ih hut, Option.map_map]
    rfl

section Two

variable {τ : Type*} {step₂ : τ → α → Option τ}

/-- **Two systems stop at the same place** just if they run through the same prefixes. -/
theorem failsAt_eq_iff {s : σ} {t : τ} {as : List α} :
    failsAt step s as = failsAt step₂ t as ↔
      ∀ pre, pre <+: as → ((run step s pre).isSome ↔ (run step₂ t pre).isSome) := by
  induction as generalizing s t with
  | nil => simp
  | cons a as ih =>
    have hfirst : [a] <+: a :: as := List.prefix_append [a] as
    cases hs : step s a with
    | none =>
      rw [failsAt_cons_of_none hs]
      cases ht : step₂ t a with
      | none =>
        rw [failsAt_cons_of_none ht]
        refine iff_of_true rfl ?_
        intro pre hpre
        rcases List.prefix_cons_iff.mp hpre with rfl | ⟨rest, rfl, -⟩
        · simp
        · simp [hs, ht]
      | some t' =>
        rw [failsAt_cons_of_some ht]
        refine iff_of_false (by cases failsAt step₂ t' as <;> simp) ?_
        intro h
        simpa [hs, ht] using h [a] hfirst
    | some s' =>
      rw [failsAt_cons_of_some hs]
      cases ht : step₂ t a with
      | none =>
        rw [failsAt_cons_of_none ht]
        refine iff_of_false (by cases failsAt step s' as <;> simp) ?_
        intro h
        simpa [hs, ht] using h [a] hfirst
      | some t' =>
        rw [failsAt_cons_of_some ht, (Option.map_injective Nat.succ_injective).eq_iff, ih]
        constructor
        · intro h pre hpre
          rcases List.prefix_cons_iff.mp hpre with rfl | ⟨rest, rfl, hrest⟩
          · simp
          · simpa [hs, ht] using h rest hrest
        · intro h pre hpre
          simpa [hs, ht] using h (a :: pre) (List.cons_prefix_cons.mpr ⟨rfl, hpre⟩)

/-- Two systems that are stuck alike wherever both get run through the same prefixes. -/
theorem isSome_run_iff_of_step {s : σ} {t : τ} {as : List α}
    (h : ∀ pre a s' t', pre ++ [a] <+: as → run step s pre = some s' → run step₂ t pre = some t' →
      ((step s' a).isSome ↔ (step₂ t' a).isSome)) :
    ∀ pre, pre <+: as → ((run step s pre).isSome ↔ (run step₂ t pre).isSome) := by
  intro pre
  induction pre using List.reverseRecOn with
  | nil => simp
  | append_singleton pre a ih =>
    intro hpre
    have hrun := ih ((List.prefix_append pre [a]).trans hpre)
    rw [run_append, run_append]
    cases hs : run step s pre with
    | none =>
      have ht : run step₂ t pre = none := by simpa [hs] using hrun
      simp [ht]
    | some s' =>
      rw [hs] at hrun
      obtain ⟨t', ht⟩ := Option.isSome_iff_exists.mp (hrun.mp rfl)
      simpa [ht] using h pre a s' t' hpre hs ht

end Two

/-! ### Outputs and simulation -/

/-- What a system that is never stuck puts out along a list of actions. -/
def outputs {γ : Type*} (next : σ → α → σ) (out : σ → α → Option γ) : σ → List α → List γ
  | _, [] => []
  | s, a :: as => (out s a).toList ++ outputs next out (next s a) as

/-- **The simulation rule.**  An environment `env` decides which actions are possible.
If every possible action keeps two systems related and makes both of them put out
related results, or none, their outputs along a run of the environment are related. -/
theorem forall₂_outputs {ε τ γ δ : Type*} {env : ε → α → Option ε} {next₁ : σ → α → σ}
    {out₁ : σ → α → Option γ} {next₂ : τ → α → τ} {out₂ : τ → α → Option δ}
    {R : ε → σ → τ → Prop} {O : γ → δ → Prop}
    (hstep : ∀ e s t a e', R e s t → env e a = some e' →
      R e' (next₁ s a) (next₂ t a) ∧ Option.Rel O (out₁ s a) (out₂ t a))
    {as : List α} : ∀ {e e' : ε} {s : σ} {t : τ}, R e s t → run env e as = some e' →
      List.Forall₂ O (outputs next₁ out₁ s as) (outputs next₂ out₂ t as) := by
  induction as with
  | nil => intro e e' s t _ _; exact List.Forall₂.nil
  | cons a as ih =>
    intro e e' s t hR hrun
    obtain ⟨e₁, he₁, hrest⟩ := run_cons_eq_some.mp hrun
    obtain ⟨hR', hout⟩ := hstep e s t a e₁ hR he₁
    have hrec := ih hR' hrest
    unfold outputs
    generalize out₁ s a = x at hout ⊢
    generalize out₂ t a = y at hout ⊢
    cases hout with
    | none => exact hrec
    | some hO => exact List.Forall₂.cons hO hrec

end Machine
end ZmqIssues
