import Mathlib.Logic.Basic

/-!
# Postconditions of statements that can end abruptly

A statement of `Except ε α` ends normally with an `α` or abruptly with an `ε`: an exception that
is caught further out, or a `return`. `Ends Q E m` is its correctness for two postconditions, one
for each way; the rules follow the statement's syntax.

`Alike Q E m m'` says the same of two statements run side by side: they end in the same way, and
what they end with is related.

Results: the rules `ends_bind` and `ends_ite`, `alike_bind` and `alike_ite`. What holds of every way
out of a body is shown by applying them statement by statement, with no case analysis on the
results.
-/

namespace AsioLearn.Lib.Hoare

universe u v

variable {α β : Type u} {ε : Type v}

/-- `m` ends normally in `Q` or abruptly in `E`. -/
def Ends (Q : α → Prop) (E : ε → Prop) : Except ε α → Prop
  | .ok a => Q a
  | .error e => E e

variable {Q : α → Prop} {R : β → Prop} {E : ε → Prop}

@[simp]
theorem ends_ok {a : α} : Ends Q E (.ok a) ↔ Q a := Iff.rfl

@[simp]
theorem ends_error {e : ε} : Ends Q E (.error e) ↔ E e := Iff.rfl

theorem ends_bind {m : Except ε α} {f : α → Except ε β} (hm : Ends Q E m)
    (hf : ∀ a, Q a → Ends R E (f a)) : Ends R E (m >>= f) := by
  cases m with
  | ok a => exact hf a hm
  | error e => exact hm

theorem ends_ite {c : Prop} [Decidable c] {m m' : Except ε α} (ht : c → Ends Q E m)
    (he : ¬ c → Ends Q E m') : Ends Q E (if c then m else m') := by
  by_cases h : c
  · rw [if_pos h]
    exact ht h
  · rw [if_neg h]
    exact he h

/-! ## Two statements -/

/-- Both end normally, related by `Q`, or both abruptly, related by `E`. -/
def Alike {α' : Type u} {ε' : Type v} (Q : α → α' → Prop) (E : ε → ε' → Prop) :
    Except ε α → Except ε' α' → Prop
  | .ok a, .ok a' => Q a a'
  | .error e, .error e' => E e e'
  | _, _ => False

variable {α' β' : Type u} {ε' : Type v} {Q₂ : α → α' → Prop} {R₂ : β → β' → Prop}
  {E₂ : ε → ε' → Prop}

theorem alike_bind {m : Except ε α} {m' : Except ε' α'} {f : α → Except ε β}
    {f' : α' → Except ε' β'} (hm : Alike Q₂ E₂ m m')
    (hf : ∀ a a', Q₂ a a' → Alike R₂ E₂ (f a) (f' a')) : Alike R₂ E₂ (m >>= f) (m' >>= f') := by
  match m, m', hm with
  | .ok a, .ok a', hm => exact hf a a' hm
  | .error e, .error e', hm => exact hm

/-- The same test on both sides. -/
theorem alike_ite {c : Prop} [Decidable c] {m n : Except ε α} {m' n' : Except ε' α'}
    (ht : Alike Q₂ E₂ m m') (he : Alike Q₂ E₂ n n') :
    Alike Q₂ E₂ (if c then m else n) (if c then m' else n') := by
  by_cases h : c
  · rw [if_pos h, if_pos h]
    exact ht
  · rw [if_neg h, if_neg h]
    exact he

end AsioLearn.Lib.Hoare
