import Mathlib.Data.List.Sort
import Mathlib.Data.List.AList

/-! # Listing an unordered collection by stamp

A hash map hands out its values in no particular order. When the values carry
pairwise distinct stamps, sorting by stamp makes the order irrelevant, and the
sorted list then moves with the map: a value with a new highest stamp goes to
the end, a removed one drops out, a replaced one keeps its place. -/
namespace GoMqtt.Lib

variable {ι : Type*} {stamp : ι → ℕ}

/-- The values in ascending stamp order. -/
def byStamp (stamp : ι → ℕ) (l : List ι) : List ι :=
  l.insertionSort fun a b => stamp a ≤ stamp b

instance stamp_total (stamp : ι → ℕ) : Std.Total fun a b => stamp a ≤ stamp b :=
  ⟨fun a b => Nat.le_total (stamp a) (stamp b)⟩

instance stamp_trans (stamp : ι → ℕ) : IsTrans ι fun a b => stamp a ≤ stamp b :=
  ⟨fun _ _ _ => Nat.le_trans⟩

theorem byStamp_perm (l : List ι) : (byStamp stamp l).Perm l := List.perm_insertionSort _ l

theorem byStamp_sorted (l : List ι) :
    (byStamp stamp l).Pairwise fun a b => stamp a ≤ stamp b := List.pairwise_insertionSort _ l

@[simp] theorem mem_byStamp {l : List ι} {x : ι} : x ∈ byStamp stamp l ↔ x ∈ l :=
  (byStamp_perm l).mem_iff

/-- A list with distinct stamps has one sorted arrangement. -/
theorem eq_of_perm_of_sorted {l l' : List ι} (hp : l.Perm l')
    (hn : (l.map stamp).Nodup) (hs : l.Pairwise fun a b => stamp a ≤ stamp b)
    (hs' : l'.Pairwise fun a b => stamp a ≤ stamp b) : l = l' := by
  refine hp.eq_of_pairwise ?_ hs hs'
  intro a b ha hb hab hba
  exact List.inj_on_of_nodup_map hn ha (hp.mem_iff.mpr hb) (Nat.le_antisymm hab hba)

/-- The order in which the map is read out does not matter. -/
theorem byStamp_congr {l l' : List ι} (hp : l.Perm l') (hn : (l.map stamp).Nodup) :
    byStamp stamp l = byStamp stamp l' := by
  refine eq_of_perm_of_sorted (((byStamp_perm l).trans hp).trans (byStamp_perm l').symm) ?_
    (byStamp_sorted l) (byStamp_sorted l')
  exact ((byStamp_perm l).map stamp).nodup_iff.mpr hn

theorem byStamp_filter (p : ι → Bool) {l : List ι} (hn : (l.map stamp).Nodup) :
    byStamp stamp (l.filter p) = (byStamp stamp l).filter p := by
  refine eq_of_perm_of_sorted ((byStamp_perm _).trans ((byStamp_perm l).filter p).symm) ?_
    (byStamp_sorted _) ((byStamp_sorted l).filter p)
  have hsub : ((l.filter p).map stamp).Sublist (l.map stamp) := List.filter_sublist.map stamp
  exact ((byStamp_perm _).map stamp).nodup_iff.mpr (hsub.nodup hn)

/-- Replacing values without touching their stamps keeps their places. -/
theorem byStamp_map {f : ι → ι} (hf : ∀ x, stamp (f x) = stamp x) {l : List ι}
    (hn : (l.map stamp).Nodup) :
    byStamp stamp (l.map f) = (byStamp stamp l).map f := by
  have hstamps : (l.map f).map stamp = l.map stamp := by simp [hf]
  refine eq_of_perm_of_sorted ((byStamp_perm _).trans ((byStamp_perm l).map f).symm) ?_
    (byStamp_sorted _) ?_
  · rw [((byStamp_perm (l.map f)).map stamp).nodup_iff, hstamps]
    exact hn
  · exact List.pairwise_map.mpr ((byStamp_sorted l).imp fun h => by simpa [hf] using h)

/-- A value stamped above all others is listed last. -/
theorem byStamp_cons_max {l : List ι} {x : ι} (hx : ∀ y ∈ l, stamp y < stamp x)
    (hn : (l.map stamp).Nodup) :
    byStamp stamp (x :: l) = byStamp stamp l ++ [x] := by
  have hxl : stamp x ∉ l.map stamp := by
    intro hm
    obtain ⟨y, hy, he⟩ := List.mem_map.mp hm
    exact absurd he (Nat.ne_of_lt (hx y hy))
  refine eq_of_perm_of_sorted ?_ ?_ (byStamp_sorted _) ?_
  · exact (byStamp_perm _).trans (((byStamp_perm l).cons x).symm.trans
      (List.perm_append_singleton x _).symm)
  · rw [((byStamp_perm (x :: l)).map stamp).nodup_iff]
    exact List.nodup_cons.mpr ⟨hxl, hn⟩
  · refine List.pairwise_append.mpr ⟨byStamp_sorted l, List.pairwise_singleton _ _, ?_⟩
    intro y hy z hz
    rw [List.mem_singleton.mp hz]
    exact Nat.le_of_lt (hx y (mem_byStamp.mp hy))

section Entries

variable {κ : Type*} [DecidableEq κ] {β : κ → Type*}

/-- Erasing a key drops exactly the entries under it. -/
theorem kerase_eq_filter (k : κ) {l : List (Sigma β)} (hn : l.NodupKeys) :
    l.kerase k = l.filter fun e => e.1 ≠ k := by
  induction l with
  | nil => rfl
  | cons e l ih =>
    obtain ⟨hnot, htail⟩ := List.nodupKeys_cons.mp hn
    by_cases hk : k = e.1
    · subst hk
      rw [List.kerase_cons_eq rfl, List.filter_cons_of_neg (by simp)]
      refine (List.filter_eq_self.mpr ?_).symm
      intro x hx
      have : x.1 ≠ e.1 := fun he => hnot (he ▸ List.mem_keys_of_mem hx)
      simpa using this
    · rw [List.kerase_cons_ne hk, List.filter_cons_of_pos (by simpa using Ne.symm hk), ih htail]

/-- An entry and what erasing its key leaves make up the whole map. -/
theorem perm_cons_kerase {k : κ} {b : β k} {l : List (Sigma β)} (hn : l.NodupKeys)
    (hm : ⟨k, b⟩ ∈ l) : l.Perm (⟨k, b⟩ :: l.kerase k) := by
  obtain ⟨c, l₁, l₂, _, hl, he⟩ := List.exists_of_kerase (List.mem_keys_of_mem hm)
  have hcm : (⟨k, c⟩ : Sigma β) ∈ l := by rw [hl]; simp
  have hbc : b = c := by
    have hb := List.mem_dlookup hn hm
    have hc := List.mem_dlookup hn hcm
    exact Option.some.inj (hb.symm.trans hc)
  subst hbc
  rw [he, hl]
  exact List.perm_middle

end Entries

end GoMqtt.Lib
