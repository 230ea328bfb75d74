import Mathlib.Data.List.Basic
import Mathlib.Tactic.Common

/-!
# Programs that print

A program prints while it computes.  It may stop in the middle, and what it has printed by
then has been printed.

## Main definitions

* `Printing ω ε α` — what has been printed, and the result or why there is none.
* `Printing.silent`, `Printing.print` — a computation that prints nothing, and one that only
  prints.

## Main results

* `result_bind` — forgetting what is printed leaves the computation.
* `mk_ok_bind` — what is printed by one computation after another.
-/

namespace ZmqIssues

/-- What a computation has printed, and its result or the reason why it stopped. -/
@[ext] structure Printing (ω ε α : Type) where
  /-- What has been printed. -/
  text : List ω
  /-- The result. -/
  result : Except ε α

namespace Printing

variable {ω ε α β : Type}

/-- A computation that prints nothing. -/
def silent (x : Except ε α) : Printing ω ε α := ⟨[], x⟩

/-- A computation that only prints. -/
def print (text : List ω) : Printing ω ε Unit := ⟨text, .ok ()⟩

/-- One computation after another. -/
protected def bind (x : Printing ω ε α) (f : α → Printing ω ε β) : Printing ω ε β :=
  match x.result with
  | .ok a => ⟨x.text ++ (f a).text, (f a).result⟩
  | .error e => ⟨x.text, .error e⟩

instance : Monad (Printing ω ε) where
  pure a := silent (.ok a)
  bind := Printing.bind

@[simp] theorem result_silent (x : Except ε α) : (silent x : Printing ω ε α).result = x := rfl

@[simp] theorem text_print_bind (text : List ω) (f : Unit → Printing ω ε β) :
    (print text >>= f).text = text ++ (f ()).text := rfl

@[simp] theorem result_pure (a : α) : (pure a : Printing ω ε α).result = .ok a := rfl

@[simp] theorem text_pure (a : α) : (pure a : Printing ω ε α).text = [] := rfl

/-- **Forgetting what is printed leaves the computation.** -/
@[simp] theorem result_bind (x : Printing ω ε α) (f : α → Printing ω ε β) :
    (x >>= f).result = x.result >>= fun a => (f a).result := by
  show (Printing.bind x f).result = _
  unfold Printing.bind
  cases x.result <;> rfl

/-- What comes behind a computation that returns is printed behind it. -/
theorem mk_ok_bind (text : List ω) (a : α) (f : α → Printing ω ε β) :
    ((⟨text, .ok a⟩ : Printing ω ε α) >>= f) = ⟨text ++ (f a).text, (f a).result⟩ := rfl

end Printing
end ZmqIssues
