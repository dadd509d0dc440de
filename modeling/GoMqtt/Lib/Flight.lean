import Mathlib.Data.List.Perm.Subperm

/-! # What is due and what is under way

One side owes something for each entry of a list of dues, and tokens for them are
under way in some order. `Covers` says that every token stands for a due of its
own, and, where nothing gets lost, that every due has its token. The rules follow
a token through its life: it is sent with its due, it is lost, it arrives and
settles its due. -/
namespace GoMqtt.Lib
open scoped List

variable {α : Type*} {lossless : Prop} {tokens tokens' dues dues' : List α} {a : α}

structure Covers (lossless : Prop) (tokens dues : List α) : Prop where
  own : tokens <+~ dues
  all : lossless → dues.length ≤ tokens.length

namespace Covers

theorem nil : Covers lossless ([] : List α) [] := ⟨List.nil_subperm, fun _ => Nat.le_refl 0⟩

/-- The order does not matter. -/
theorem perm (h : Covers lossless tokens dues) (ht : tokens' ~ tokens) (hd : dues' ~ dues) :
    Covers lossless tokens' dues' :=
  ⟨(ht.subperm_right.trans hd.subperm_left).mpr h.own,
    fun he => by rw [hd.length_eq, ht.length_eq]; exact h.all he⟩

/-- A token is sent with its due. -/
theorem send (h : Covers lossless tokens dues) (a : α) : Covers lossless (a :: tokens) (a :: dues) :=
  ⟨(List.subperm_cons a).mpr h.own, fun he => Nat.succ_le_succ (h.all he)⟩

/-- A due whose token gets lost. -/
theorem lose (h : Covers lossless tokens dues) (hlossy : ¬ lossless) (hsub : tokens' <+ tokens) :
    Covers lossless tokens' dues :=
  ⟨hsub.subperm.trans h.own, fun he => absurd he hlossy⟩

/-- A token arrives, and its due goes. -/
theorem settle (h : Covers lossless (a :: tokens) (a :: dues)) : Covers lossless tokens dues :=
  ⟨(List.subperm_cons a).mp h.own, fun he => Nat.le_of_succ_le_succ (h.all he)⟩

theorem mem (h : Covers lossless tokens dues) (ha : a ∈ tokens) : a ∈ dues := h.own.subset ha

/-- Where nothing gets lost, tokens and dues are the same. -/
theorem same (h : Covers lossless tokens dues) (he : lossless) : tokens ~ dues :=
  h.own.perm_of_length_le (h.all he)

end Covers
end GoMqtt.Lib
