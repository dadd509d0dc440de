import Mathlib.Logic.Function.Basic
import Mathlib.Tactic.Common

/-! # Sets of positions packed into 64-bit words

A bitmap of `n` words, addressed by word and bit. Each operation reads or
writes through a one-bit mask; the lemmas say what that does to every other
position. -/
namespace GoMqtt.Lib

/-- `n` words of 64 bits. -/
structure Bitmap (n : ℕ) where
  word : Fin n → BitVec 64

namespace Bitmap

variable {n : ℕ}

def zero (n : ℕ) : Bitmap n := ⟨fun _ => 0#64⟩

def mask (k : Fin 64) : BitVec 64 := 1#64 <<< k.val

/-- The mask test: is bit `k` of word `w` set? -/
def test (b : Bitmap n) (w : Fin n) (k : Fin 64) : Bool := b.word w &&& mask k != 0#64

def set (b : Bitmap n) (w : Fin n) (k : Fin 64) : Bitmap n :=
  ⟨Function.update b.word w (b.word w ||| mask k)⟩

def clear (b : Bitmap n) (w : Fin n) (k : Fin 64) : Bitmap n :=
  ⟨Function.update b.word w (b.word w &&& ~~~mask k)⟩

theorem getLsbD_mask (k j : Fin 64) : (mask k).getLsbD j = decide (j = k) := by
  have hj := j.isLt
  have hk := k.isLt
  simp only [mask, BitVec.getLsbD_shiftLeft, BitVec.getLsbD_one, hj, decide_true, Bool.true_and]
  by_cases h : j = k
  · subst h; simp
  · have hne : j.val ≠ k.val := fun he => h (Fin.ext he)
    rcases Nat.lt_or_gt_of_ne hne with hlt | hgt
    · simp [h, hlt]
    · have h0 : j.val - k.val ≠ 0 := by omega
      simp [h, h0]

/-- The mask test reads exactly one bit. -/
theorem test_eq (b : Bitmap n) (w : Fin n) (k : Fin 64) : b.test w k = (b.word w).getLsbD k := by
  unfold test
  cases hb : (b.word w).getLsbD k with
  | true =>
    refine bne_iff_ne.mpr ?_
    intro hz
    have hbit := congrArg (fun v : BitVec 64 => v.getLsbD k) hz
    rw [BitVec.getLsbD_and, getLsbD_mask, hb] at hbit
    simp at hbit
  | false =>
    have hz : b.word w &&& mask k = 0#64 := by
      refine BitVec.eq_of_getLsbD_eq ?_
      intro i hi
      rw [BitVec.getLsbD_and, show (mask k).getLsbD i = decide ((⟨i, hi⟩ : Fin 64) = k) from
        getLsbD_mask k ⟨i, hi⟩]
      by_cases h : (⟨i, hi⟩ : Fin 64) = k
      · subst h; simpa using hb
      · simp [h]
    simp [hz]

@[simp] theorem test_zero (w : Fin n) (k : Fin 64) : (zero n).test w k = false := by
  simp [test_eq, zero]

theorem test_set (b : Bitmap n) (w w' : Fin n) (k k' : Fin 64) :
    (b.set w k).test w' k' = (decide (w' = w ∧ k' = k) || b.test w' k') := by
  simp only [test_eq, set]
  by_cases hw : w' = w
  · subst hw
    rw [Function.update_self, BitVec.getLsbD_or, getLsbD_mask, Bool.or_comm]
    simp
  · simp [hw]

theorem test_clear (b : Bitmap n) (w w' : Fin n) (k k' : Fin 64) :
    (b.clear w k).test w' k' = (!decide (w' = w ∧ k' = k) && b.test w' k') := by
  simp only [test_eq, clear]
  by_cases hw : w' = w
  · subst hw
    rw [Function.update_self, BitVec.getLsbD_and, BitVec.getLsbD_not, getLsbD_mask, Bool.and_comm]
    simp [k'.isLt]
  · simp [hw]

end Bitmap
end GoMqtt.Lib
