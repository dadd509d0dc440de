import Mathlib.Data.List.Basic

/-! # Readers of a prefix

A reader takes what it needs from the front of its input and returns the rest. It
delimits what it reads if its result does not depend on that rest; such a reader
does not mistake a part of what it reads for the whole. -/
namespace GoMqtt.Lib

variable {τ ε α β : Type}

/-- What the reader makes of an input it makes of all that start with what it took. -/
def Delimits (read : List τ → Except ε (α × List τ)) : Prop :=
  ∀ s a r, read s = .ok (a, r) → ∃ used, s = used ++ r ∧ ∀ r', read (used ++ r') = .ok (a, r')

namespace Delimits

variable {read : List τ → Except ε (α × List τ)}

/-- A reader that accepts exactly what a grammar derives from the value it returns. -/
theorem of_grammar (Derives : α → List τ → Prop)
    (h : ∀ s a r, read s = .ok (a, r) ↔ ∃ used, Derives a used ∧ s = used ++ r) :
    Delimits read := by
  intro s a r hr
  obtain ⟨used, hused, rfl⟩ := (h _ _ _).mp hr
  exact ⟨used, rfl, fun r' => (h _ _ _).mpr ⟨used, hused, rfl⟩⟩

theorem pure (a : α) : Delimits fun s : List τ => (.ok (a, s) : Except ε (α × List τ)) := by
  intro s a' r h
  cases h
  exact ⟨[], rfl, fun _ => rfl⟩

/-- One reader after another. -/
theorem bind {next : α → List τ → Except ε (β × List τ)} (h : Delimits read)
    (hnext : ∀ a, Delimits (next a)) : Delimits fun s => read s >>= fun x => next x.1 x.2 := by
  intro s b r hr
  dsimp only at hr ⊢
  cases hs : read s with
  | error e =>
    rw [hs] at hr
    cases hr
  | ok x =>
    rw [hs] at hr
    obtain ⟨used, hused, hread⟩ := h s x.1 x.2 hs
    obtain ⟨used', hused', hread'⟩ := hnext x.1 x.2 b r hr
    refine ⟨used ++ used', ?_, fun r' => ?_⟩
    · rw [List.append_assoc, ← hused', hused]
    · rw [List.append_assoc, hread]
      exact hread' r'

/-- A prefix that lacks some of what was read is not accepted. -/
theorem take_fails (h : Delimits read) {s r : List τ} {a : α} (hr : read s = .ok (a, r)) {n : Nat}
    (hn : n + r.length < s.length) (x : α × List τ) : read (s.take n) ≠ .ok x := by
  intro hx
  obtain ⟨used, hused, hread⟩ := h _ x.1 x.2 hx
  have hs : s = used ++ (x.2 ++ s.drop n) := by
    rw [← List.append_assoc, ← hused, List.take_append_drop]
  rw [hs, hread] at hr
  have hrest : r = x.2 ++ s.drop n := by
    cases hr
    rfl
  have hlen := congrArg List.length hrest
  rw [List.length_append, List.length_drop] at hlen
  omega

end Delimits
end GoMqtt.Lib
