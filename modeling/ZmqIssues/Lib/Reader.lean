import Mathlib.Data.List.Basic
import Mathlib.Data.List.Forall2
import Mathlib.Tactic.Common

/-!
# Programs that read messages from a queue

A program that takes messages from a queue one at a time, and stops when a check
on one of them fails, is a function from the waiting messages to the messages it
leaves, in `Except`.  Its main loop repeats one body for ever; here the body is
repeated a given number of times.

## Main definitions

* `next`, `check` — take a message, and stop unless a condition holds.
* `iterate body n q` — the body `n` times on the queue `q`.
* `expect blocked meets as q` — a message for each of the expectations `as`.

## Main results

* `iterate_eq_ok_iff` — if the body accepts the messages of a grammar `G` from the
  front of the queue, `n` rounds accept `n` words of `G`.
* `exists_of_iterate_map_eq_ok` — the words accepted from a queue of decorated messages.
* `expect_eq_ok_iff`, `expect_eq_error_iff` — which messages meet the expectations, and where
  they stop doing so.
-/

namespace ZmqIssues
namespace Reader

universe u

variable {φ ε : Type*} {α β : Type u}

/-- Take the next message from the queue; stop with `blocked` when none is waiting. -/
def next (blocked : ε) : List φ → Except ε (φ × List φ)
  | [] => .error blocked
  | m :: q => .ok (m, q)

/-- Stop with `failed` unless the condition holds. -/
def check (c : Bool) (failed : ε) : Except ε Unit := if c then .ok () else .error failed

/-- The body of a loop, `n` times. -/
def iterate (body : List φ → Except ε (List φ)) : ℕ → List φ → Except ε (List φ)
  | 0, q => .ok q
  | n + 1, q => body q >>= iterate body n

@[simp] theorem bind_eq_ok {x : Except ε α} {f : α → Except ε β} {b : β} :
    (x >>= f) = .ok b ↔ ∃ a, x = .ok a ∧ f a = .ok b := by
  cases x <;> simp [bind, Except.bind]

theorem ok_bind (a : α) (f : α → Except ε β) : (Except.ok a >>= f) = f a := rfl

theorem error_bind (e : ε) (f : α → Except ε β) : (Except.error e >>= f) = .error e := rfl

theorem toOption_eq_some {x : Except ε α} {a : α} : x.toOption = some a ↔ x = .ok a := by
  cases x <;> simp [Except.toOption]

@[simp] theorem next_eq_ok {blocked : ε} {q r : List φ} {m : φ} :
    next blocked q = .ok (m, r) ↔ q = m :: r := by
  cases q <;> simp [next]

@[simp] theorem check_eq_ok {c : Bool} {failed : ε} {u : Unit} :
    check c failed = .ok u ↔ c = true := by
  cases c <;> simp [check]

theorem check_of_true {c : Bool} (h : c = true) (failed : ε) : check c failed = .ok () := if_pos h

theorem check_of_not {c : Bool} (h : ¬ c = true) (failed : ε) : check c failed = .error failed :=
  if_neg h

@[simp] theorem iterate_zero (body : List φ → Except ε (List φ)) (q : List φ) :
    iterate body 0 q = .ok q := rfl

theorem iterate_succ_eq_ok {body : List φ → Except ε (List φ)} {n : ℕ} {q r : List φ} :
    iterate body (n + 1) q = .ok r ↔ ∃ p, body q = .ok p ∧ iterate body n p = .ok r := by
  rw [iterate, bind_eq_ok]

/-- **The grammar of a loop.**  If the body accepts just the words of `G` from the
front of the queue, then `n` rounds accept just `n` words of `G`, one after another. -/
theorem iterate_eq_ok_iff {body : List φ → Except ε (List φ)} {G : List φ → Prop}
    (hbody : ∀ q r, body q = .ok r ↔ ∃ g, G g ∧ q = g ++ r) {n : ℕ} {q r : List φ} :
    iterate body n q = .ok r ↔
      ∃ gs : List (List φ), gs.length = n ∧ (∀ g ∈ gs, G g) ∧ q = gs.flatten ++ r := by
  induction n generalizing q with
  | zero =>
    constructor
    · intro h
      rw [iterate_zero, Except.ok.injEq] at h
      exact ⟨[], rfl, by simp, h⟩
    · intro h
      obtain ⟨gs, hlen, -, rfl⟩ := h
      rw [List.length_eq_zero_iff.mp hlen]
      rfl
  | succ n ih =>
    rw [iterate_succ_eq_ok]
    constructor
    · intro h
      obtain ⟨p, hp, hrest⟩ := h
      obtain ⟨g, hg, rfl⟩ := (hbody q p).mp hp
      obtain ⟨gs, rfl, hgs, rfl⟩ := ih.mp hrest
      refine ⟨g :: gs, rfl, ?_, by simp⟩
      intro g' hg'
      rcases List.mem_cons.mp hg' with rfl | hmem
      · exact hg
      · exact hgs g' hmem
    · intro h
      obtain ⟨gs, hlen, hgs, rfl⟩ := h
      cases gs with
      | nil => exact absurd hlen (by simp)
      | cons g gs =>
        refine ⟨gs.flatten ++ r, (hbody _ _).mpr ⟨g, hgs g List.mem_cons_self, by simp⟩, ?_⟩
        exact ih.mpr ⟨gs, by simpa using hlen,
          fun g' hg' => hgs g' (List.mem_cons_of_mem g hg'), rfl⟩

/-- The words a loop accepts from a queue of decorated messages. -/
theorem exists_of_iterate_map_eq_ok {δ : Type*} {f : δ → φ} {body : List φ → Except ε (List φ)}
    {G : List φ → Prop} (hbody : ∀ q r, body q = .ok r ↔ ∃ g, G g ∧ q = g ++ r) {n : ℕ}
    {q : List δ} {r : List φ} (h : iterate body n (q.map f) = .ok r) :
    ∃ (gs : List (List δ)) (rest : List δ), gs.length = n ∧ (∀ g ∈ gs, G (g.map f)) ∧
      q = gs.flatten ++ rest ∧ r = rest.map f := by
  induction n generalizing q with
  | zero =>
    rw [iterate_zero, Except.ok.injEq] at h
    exact ⟨[], q, rfl, by simp, rfl, h.symm⟩
  | succ n ih =>
    obtain ⟨p, hp, hrest⟩ := iterate_succ_eq_ok.mp h
    obtain ⟨g, hg, hmap⟩ := (hbody _ p).mp hp
    obtain ⟨d, q', rfl, rfl, rfl⟩ := List.map_eq_append_iff.mp hmap
    obtain ⟨gs, rest, rfl, hgs, rfl, rfl⟩ := ih hrest
    refine ⟨d :: gs, rest, rfl, ?_, by simp, rfl⟩
    intro g' hg'
    rcases List.mem_cons.mp hg' with rfl | hmem
    · exact hg
    · exact hgs g' hmem

/-- A loop that was done with its queue goes on with what is left. -/
theorem iterate_add {body : List φ → Except ε (List φ)} (m n : ℕ) (q : List φ) :
    iterate body (m + n) q = iterate body m q >>= iterate body n := by
  induction m generalizing q with
  | zero => rw [Nat.zero_add]; rfl
  | succ m ih =>
    rw [Nat.succ_add, iterate, iterate]
    cases body q with
    | error e => rfl
    | ok p => exact ih p

/-! ### Expectations -/

section

variable {γ : Type*} {blocked e : ε} {meets : γ → φ → Except ε Unit}

/-- Take a message for each of the expectations, and stop at the first one that does not meet
its own. -/
def expect (blocked : ε) (meets : γ → φ → Except ε Unit) :
    List γ → List φ → Except ε (List φ)
  | [], q => .ok q
  | _ :: _, [] => .error blocked
  | a :: as, m :: q =>
    match meets a m with
    | .error e => .error e
    | .ok _ => expect blocked meets as q

@[simp] theorem expect_nil (q : List φ) : expect blocked meets [] q = .ok q := by
  cases q <;> rfl

@[simp] theorem expect_cons_nil (a : γ) (as : List γ) :
    expect blocked meets (a :: as) [] = .error blocked := rfl

theorem expect_cons_of_ok {a : γ} {m : φ} (h : meets a m = .ok ()) (as : List γ) (q : List φ) :
    expect blocked meets (a :: as) (m :: q) = expect blocked meets as q := by
  rw [expect, h]

theorem expect_cons_of_error {a : γ} {m : φ} (h : meets a m = .error e) (as : List γ)
    (q : List φ) : expect blocked meets (a :: as) (m :: q) = .error e := by
  rw [expect, h]

theorem expect_append (as bs : List γ) (q : List φ) :
    expect blocked meets (as ++ bs) q =
      expect blocked meets as q >>= expect blocked meets bs := by
  induction as generalizing q with
  | nil => rw [List.nil_append, expect_nil, ok_bind]
  | cons a as ih =>
    cases q with
    | nil => rfl
    | cons m q =>
      cases hm : meets a m with
      | error e =>
        rw [List.cons_append, expect_cons_of_error hm, expect_cons_of_error hm, error_bind]
      | ok _ => rw [List.cons_append, expect_cons_of_ok hm, expect_cons_of_ok hm, ih]

/-- The messages that meet the expectations are taken from the front of the queue. -/
theorem expect_eq_ok_iff {as : List γ} {q r : List φ} :
    expect blocked meets as q = .ok r ↔
      ∃ ms, q = ms ++ r ∧ List.Forall₂ (fun a m => meets a m = .ok ()) as ms := by
  induction as generalizing q with
  | nil => simp
  | cons a as ih =>
    cases q with
    | nil => simp [List.forall₂_cons_left_iff]
    | cons m q =>
      cases hm : meets a m with
      | error e =>
        rw [expect_cons_of_error hm]
        constructor
        · intro h
          exact absurd h (by simp)
        · rintro ⟨ms, hq, hms⟩
          cases hms with
          | cons hm' _ =>
            obtain ⟨rfl, -⟩ := List.cons.inj hq
            exact absurd (hm.symm.trans hm') (by simp)
      | ok _ =>
        rw [expect_cons_of_ok hm, ih]
        constructor
        · rintro ⟨ms, rfl, hms⟩
          exact ⟨m :: ms, rfl, .cons hm hms⟩
        · rintro ⟨ms, hq, hms⟩
          cases hms with
          | cons _ hms =>
            obtain ⟨-, rfl⟩ := List.cons.inj hq
            exact ⟨_, rfl, hms⟩

/-- Messages that meet their expectations are taken, and the next one decides. -/
theorem expect_append_append {bs : List γ} {ms : List φ}
    (h : List.Forall₂ (fun a m => meets a m = .ok ()) bs ms) (cs : List γ) (r : List φ) :
    expect blocked meets (bs ++ cs) (ms ++ r) = expect blocked meets cs r := by
  rw [expect_append, expect_eq_ok_iff.mpr ⟨ms, rfl, h⟩, ok_bind]

/-- **Where the expectations are not met.**  Either the messages ran out, or there is a first
message that does not meet its expectation. -/
theorem expect_eq_error_iff {as : List γ} {q : List φ} :
    expect blocked meets as q = .error e ↔
      (e = blocked ∧ ∃ bs a cs, as = bs ++ a :: cs ∧
        List.Forall₂ (fun a m => meets a m = .ok ()) bs q) ∨
      ∃ bs a cs ms m r, as = bs ++ a :: cs ∧ q = ms ++ m :: r ∧
        List.Forall₂ (fun a m => meets a m = .ok ()) bs ms ∧ meets a m = .error e := by
  constructor
  · intro h
    induction as generalizing q with
    | nil => exact absurd h (by simp)
    | cons a as ih =>
      cases q with
      | nil =>
        rw [expect_cons_nil, Except.error.injEq] at h
        exact .inl ⟨h.symm, [], a, as, rfl, .nil⟩
      | cons m q =>
        cases hm : meets a m with
        | error e' =>
          rw [expect_cons_of_error hm, Except.error.injEq] at h
          exact .inr ⟨[], a, as, [], m, q, rfl, rfl, .nil, h ▸ hm⟩
        | ok _ =>
          rw [expect_cons_of_ok hm] at h
          obtain ⟨rfl, bs, b, cs, rfl, hbs⟩ | ⟨bs, b, cs, ms, m', r, rfl, rfl, hbs, hm'⟩ := ih h
          · exact .inl ⟨rfl, a :: bs, b, cs, rfl, .cons hm hbs⟩
          · exact .inr ⟨a :: bs, b, cs, m :: ms, m', r, rfl, rfl, .cons hm hbs, hm'⟩
  · rintro (⟨rfl, bs, a, cs, rfl, hbs⟩ | ⟨bs, a, cs, ms, m, r, rfl, rfl, hbs, hm⟩)
    · rw [← List.append_nil q, expect_append_append hbs, expect_cons_nil]
    · rw [expect_append_append hbs, expect_cons_of_error hm]

end

end Reader
end ZmqIssues
