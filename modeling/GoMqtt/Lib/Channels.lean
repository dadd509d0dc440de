import Mathlib.Algebra.BigOperators.Group.Finset.Piecewise

/-! # What channels hold together

A family of channels, each a list that is written at its end and taken from at its
front. What is counted over all channels below a bound grows by what is written to
them and shrinks by what is taken from them, whichever channel that was. -/
namespace GoMqtt.Lib

variable {α : Type*} {P : α → Bool} {n l : Nat} {ch new : Nat → List α} {a : α} {rest : List α}

/-- How many items on the channels below `n` meet `P`. -/
def pending (P : α → Bool) (n : Nat) (ch : Nat → List α) : Nat :=
  ∑ l ∈ Finset.range n, (ch l).countP P

theorem pending_nil : pending P n (fun _ => []) = 0 := by simp [pending]

theorem pending_append :
    pending P n (fun l => ch l ++ new l) = pending P n ch + pending P n new := by
  simp only [pending, List.countP_append, Finset.sum_add_distrib]

/-- One item on one channel. -/
theorem pending_single (hl : l < n) :
    pending P n (fun l' => if l = l' then [a] else []) = if P a then 1 else 0 := by
  have hat : ∀ l', (if l = l' then [a] else []).countP P =
      if l = l' then (if P a then 1 else 0) else 0 := by
    intro l'
    split
    · exact List.countP_singleton
    · rfl
  simp only [pending, hat, Finset.sum_ite_eq, Finset.mem_range, hl, if_true]

/-- The first item of a channel is taken off it. -/
theorem pending_take (hl : l < n) (h : ch l = a :: rest) :
    pending P n ch = pending P n (Function.update ch l rest) + if P a then 1 else 0 := by
  have hsplit : ∀ l', (ch l').countP P = (Function.update ch l rest l').countP P +
      if l = l' then (if P a then 1 else 0) else 0 := by
    intro l'
    by_cases hne : l = l'
    · subst hne
      rw [h, Function.update_self, if_pos rfl, List.countP_cons]
    · rw [Function.update_of_ne (Ne.symm hne), if_neg hne, Nat.add_zero]
  simp only [pending, hsplit, Finset.sum_add_distrib, Finset.sum_ite_eq, Finset.mem_range, hl,
    if_true]

end GoMqtt.Lib
