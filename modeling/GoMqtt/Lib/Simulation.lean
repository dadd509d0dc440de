import Mathlib.Logic.Basic

/-! # Fallible computations that end alike

A computation simulates another if it returns a related value where the other returns
one, and fails where the other fails, with the same error under another name. What it
can end with beside that, it does not end with. -/
namespace GoMqtt.Lib

variable {ε σ α β γ δ : Type}

inductive Simulates (err : ε → σ) (R : α → β → Prop) : Except σ α → Except ε β → Prop
  | ok {a : α} {b : β} (h : R a b) : Simulates err R (.ok a) (.ok b)
  | error (e : ε) : Simulates err R (.error (err e)) (.error e)

namespace Simulates

variable {err : ε → σ} {R : α → β → Prop} {S : γ → δ → Prop} {x x' : Except σ α}
  {y y' : Except ε β}

theorem bind {f : α → Except σ γ} {g : β → Except ε δ} (h : Simulates err R x y)
    (hf : ∀ a b, R a b → Simulates err S (f a) (g b)) : Simulates err S (x >>= f) (y >>= g) := by
  cases h with
  | ok h => exact hf _ _ h
  | error e => exact .error e

/-- The two sides branch alike, each on its own condition. -/
theorem ite {c c' : Prop} [Decidable c] [Decidable c'] (hc : c ↔ c')
    (h : c → Simulates err R x y) (h' : ¬ c → Simulates err R x' y') :
    Simulates err R (if c then x else x') (if c' then y else y') := by
  by_cases hif : c
  · rw [if_pos hif, if_pos (hc.mp hif)]
    exact h hif
  · rw [if_neg hif, if_neg (mt hc.mpr hif)]
    exact h' hif

end Simulates
end GoMqtt.Lib
