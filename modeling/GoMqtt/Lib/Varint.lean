import Mathlib.Algebra.Order.Ring.Nat
import Mathlib.Data.List.Basic

/-! # Variable byte integers

A number is spelt in base 128, the lowest digit first, one digit a byte, with the
top bit set on every byte but the last. `IsVarint` admits no leading zero digit,
so a number has exactly one spelling and a spelling is never a proper start of
another. -/
namespace GoMqtt.Lib

inductive IsVarint : List UInt8 → Nat → Prop
  | last {b : UInt8} : b.toNat < 128 → IsVarint [b] b.toNat
  | more {b : UInt8} {bs : List UInt8} {n : Nat} : 128 ≤ b.toNat → IsVarint bs n → 0 < n →
      IsVarint (b :: bs) (b.toNat % 128 + 128 * n)

namespace IsVarint

variable {bs bs' rest rest' : List UInt8} {n m : Nat}

/-- A spelling determines its number, and no spelling starts another. -/
theorem unique_append (h : IsVarint bs n) (h' : IsVarint bs' m) (heq : bs ++ rest = bs' ++ rest') :
    bs = bs' ∧ n = m ∧ rest = rest' := by
  induction h generalizing bs' m with
  | last hb =>
    cases h' with
    | last _ =>
      simp only [List.cons_append, List.nil_append, List.cons.injEq] at heq
      obtain ⟨rfl, rfl⟩ := heq
      exact ⟨rfl, rfl, rfl⟩
    | more hb' _ _ =>
      simp only [List.cons_append, List.cons.injEq] at heq
      obtain ⟨rfl, -⟩ := heq
      omega
  | more hb _ _ ih =>
    cases h' with
    | last hb' =>
      simp only [List.cons_append, List.cons.injEq] at heq
      obtain ⟨rfl, -⟩ := heq
      omega
    | more _ h' _ =>
      simp only [List.cons_append, List.cons.injEq] at heq
      obtain ⟨rfl, heq⟩ := heq
      obtain ⟨rfl, rfl, rfl⟩ := ih h' heq
      exact ⟨rfl, rfl, rfl⟩

/-- A number has one spelling. -/
theorem unique (h : IsVarint bs n) (h' : IsVarint bs' n) : bs = bs' := by
  induction h generalizing bs' with
  | @last b hb =>
    generalize hn : b.toNat = n at h'
    cases h' with
    | last _ => rw [UInt8.toNat_inj.mp hn]
    | more _ _ _ => omega
  | @more b cs k hb hcs hk ih =>
    generalize hn : b.toNat % 128 + 128 * k = n at h'
    cases h' with
    | last _ => omega
    | @more b' cs' k' hb' hcs' hk' =>
      have hlt := b.toNat_lt
      have hlt' := b'.toNat_lt
      have hkk : k = k' := by omega
      subst hkk
      rw [ih hcs', UInt8.toNat_inj.mp (show b.toNat = b'.toNat by omega)]

theorem cons_iff {b : UInt8} : IsVarint (b :: bs) n ↔
    (b.toNat < 128 ∧ bs = [] ∧ n = b.toNat) ∨
    (128 ≤ b.toNat ∧ ∃ m, IsVarint bs m ∧ 0 < m ∧ n = b.toNat % 128 + 128 * m) := by
  constructor
  · intro h
    cases h with
    | last hb => exact .inl ⟨hb, rfl, rfl⟩
    | more hb h hm => exact .inr ⟨hb, _, h, hm, rfl⟩
  · rintro (⟨hb, rfl, rfl⟩ | ⟨hb, m, h, hm, rfl⟩)
    · exact .last hb
    · exact .more hb h hm

theorem length_pos (h : IsVarint bs n) : 0 < bs.length := by
  cases h <;> simp

/-- How many digits a number takes. -/
theorem length_le_iff (h : IsVarint bs n) (k : Nat) (hk : 0 < k) :
    bs.length ≤ k ↔ n < 128 ^ k := by
  induction h generalizing k with
  | @last b hb =>
    have : 128 ^ 1 ≤ 128 ^ k := Nat.pow_le_pow_right (by omega) hk
    simp only [List.length_singleton]
    omega
  | @more b cs j hb _ hj ih =>
    obtain ⟨k, rfl⟩ := Nat.exists_eq_succ_of_ne_zero hk.ne'
    rw [List.length_cons, Nat.succ_le_succ_iff, Nat.pow_succ]
    rcases Nat.eq_zero_or_pos k with rfl | hk
    · have hcs : 0 < cs.length := length_pos ‹_›
      omega
    · rw [ih k hk]
      omega

end IsVarint

end GoMqtt.Lib
