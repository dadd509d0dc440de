import GoMqtt.Lib.Bitmap

/-! # The packet identifier allocator

`idAllocator` hands out non-zero 16-bit identifiers from a bitmap of 1024
64-bit words, scanning forward from a rotating cursor. The generation counter
moves on `Reset` only, and a release presents the generation it acquired
under. Callers reason with `inUse` alone. -/
namespace GoMqtt.Session
open GoMqtt.Lib

/-- The number of identifiers, 0 included. -/
def packetIDSpace : Nat := 1 <<< 16

/-- `id>>6`: the word an identifier lives in. -/
def wordOf (id : UInt16) : Fin 1024 :=
  ⟨(id >>> 6).toNat, by
    have := id.toNat_lt
    simp only [UInt16.toNat_shiftRight, UInt16.reduceToNat, Nat.reduceMod,
      Nat.shiftRight_eq_div_pow]
    omega⟩

/-- `id&63`: its bit in that word. -/
def bitOf (id : UInt16) : Fin 64 :=
  ⟨(id &&& 63).toNat, by
    simp only [UInt16.toNat_and, UInt16.reduceToNat]
    exact Nat.lt_of_le_of_lt Nat.and_le_right (by decide)⟩

theorem position_inj {a b : UInt16} (hw : wordOf a = wordOf b) (hb : bitOf a = bitOf b) :
    a = b := by
  have hw := congrArg Fin.val hw
  have hb := congrArg Fin.val hb
  simp only [wordOf, bitOf, UInt16.toNat_shiftRight, UInt16.toNat_and, UInt16.reduceToNat,
    Nat.reduceMod, Nat.shiftRight_eq_div_pow] at hw hb
  rw [show (63 : Nat) = 2 ^ 6 - 1 from rfl, Nat.and_two_pow_sub_one_eq_mod,
    Nat.and_two_pow_sub_one_eq_mod] at hb
  exact UInt16.toNat_inj.mp (by omega)

theorem position_surj (w : Fin 1024) (b : Fin 64) : ∃ id, wordOf id = w ∧ bitOf id = b := by
  have hw := w.isLt
  have hb := b.isLt
  have hid : (UInt16.ofNat (w.val * 64 + b.val)).toNat = w.val * 64 + b.val :=
    UInt16.toNat_ofNat_of_lt' (by unfold UInt16.size; omega)
  refine ⟨UInt16.ofNat (w.val * 64 + b.val), Fin.ext ?_, Fin.ext ?_⟩
  · simp only [wordOf, UInt16.toNat_shiftRight, hid, UInt16.reduceToNat, Nat.reduceMod,
      Nat.shiftRight_eq_div_pow]
    omega
  · simp only [bitOf, UInt16.toNat_and, hid, UInt16.reduceToNat]
    rw [show (63 : Nat) = 2 ^ 6 - 1 from rfl, Nat.and_two_pow_sub_one_eq_mod]
    omega

structure IdAllocator where
  used : Bitmap 1024
  next : UInt16
  gen : Nat

namespace IdAllocator

def init : IdAllocator := ⟨Bitmap.zero 1024, 0, 0⟩

def inUse (a : IdAllocator) (id : UInt16) : Bool := a.used.test (wordOf id) (bitOf id)

/-- The loop of `Acquire`: the identifier found, if any, and where the cursor
stands afterwards. The cursor wraps from 65535 to 0. -/
def scan (used : Bitmap 1024) : Nat → UInt16 → Option UInt16 × UInt16
  | 0, next => (none, next)
  | n + 1, next =>
    if next = 0 then scan used n (next + 1)
    else if used.test (wordOf next) (bitOf next) then scan used n (next + 1)
    else (some next, next + 1)

/-- `Acquire`: a free identifier and the generation, or `none` for
`ErrPacketIDExhausted`. -/
def acquire (a : IdAllocator) : Option (UInt16 × Nat) × IdAllocator :=
  match scan a.used packetIDSpace a.next with
  | (some id, next) => (some (id, a.gen), { a with used := a.used.set (wordOf id) (bitOf id), next })
  | (none, next) => (none, { a with next })

def releaseAt (a : IdAllocator) (id : UInt16) (gen : Nat) : IdAllocator :=
  if id = 0 then a
  else if gen = a.gen then { a with used := a.used.clear (wordOf id) (bitOf id) }
  else a

def generation (a : IdAllocator) : Nat := a.gen

def reset (a : IdAllocator) : IdAllocator := ⟨Bitmap.zero 1024, 0, a.gen + 1⟩

/-! ## What callers see -/

@[simp] theorem inUse_init (id : UInt16) : init.inUse id = false := Bitmap.test_zero _ _

@[simp] theorem inUse_reset (a : IdAllocator) (id : UInt16) : a.reset.inUse id = false :=
  Bitmap.test_zero _ _

@[simp] theorem gen_reset (a : IdAllocator) : a.reset.gen = a.gen + 1 := rfl

@[simp] theorem gen_releaseAt (a : IdAllocator) (id : UInt16) (gen : Nat) :
    (a.releaseAt id gen).gen = a.gen := by
  unfold releaseAt
  split
  · rfl
  · split <;> rfl

theorem scan_found {used : Bitmap 1024} {n : Nat} {next id cursor : UInt16}
    (h : scan used n next = (some id, cursor)) :
    id ≠ 0 ∧ used.test (wordOf id) (bitOf id) = false := by
  induction n generalizing next with
  | zero => simp [scan] at h
  | succ n ih =>
    simp only [scan] at h
    split at h
    · exact ih h
    · split at h
      · exact ih h
      · rename_i h0 hu
        cases h
        exact ⟨h0, by simpa using hu⟩

@[simp] theorem gen_acquire (a : IdAllocator) : a.acquire.2.gen = a.gen := by
  unfold acquire
  split <;> rfl

/-- A granted identifier is non-zero, was free, and is the only one whose mark
changes. -/
theorem acquire_some {a a' : IdAllocator} {id : UInt16} {gen : Nat}
    (h : a.acquire = (some (id, gen), a')) :
    id ≠ 0 ∧ gen = a.gen ∧ a'.gen = a.gen ∧ a.inUse id = false ∧
      ∀ j, a'.inUse j = (decide (j = id) || a.inUse j) := by
  unfold acquire at h
  split at h
  · rename_i i next hs
    obtain ⟨h0, hfree⟩ := scan_found hs
    cases h
    refine ⟨h0, rfl, rfl, hfree, ?_⟩
    intro j
    simp only [inUse, Bitmap.test_set]
    congr 1
    refine decide_eq_decide.mpr ⟨fun h => position_inj h.1 h.2, ?_⟩
    rintro rfl
    exact ⟨rfl, rfl⟩
  · cases h

theorem acquire_none {a a' : IdAllocator} (h : a.acquire = (none, a')) :
    a'.gen = a.gen ∧ ∀ j, a'.inUse j = a.inUse j := by
  unfold acquire at h
  split at h
  · cases h
  · cases h
    exact ⟨rfl, fun _ => rfl⟩

/-- A release in the current generation frees exactly its identifier, and one
from an older generation nothing. -/
theorem inUse_releaseAt (a : IdAllocator) (id : UInt16) (gen : Nat) (j : UInt16) :
    (a.releaseAt id gen).inUse j =
      (!decide (j = id ∧ id ≠ 0 ∧ gen = a.gen) && a.inUse j) := by
  unfold releaseAt
  by_cases h0 : id = 0
  · simp [h0]
  · by_cases hg : gen = a.gen
    · simp only [h0, hg, if_false, if_true, inUse, Bitmap.test_clear, ne_eq, not_false_eq_true,
        and_true]
      congr 2
      refine decide_eq_decide.mpr ⟨fun h => position_inj h.1 h.2, ?_⟩
      rintro rfl
      exact ⟨rfl, rfl⟩
    · simp [h0, hg]

theorem releaseAt_stale {a : IdAllocator} {id : UInt16} {gen : Nat} (h : gen ≠ a.gen) :
    a.releaseAt id gen = a := by
  unfold releaseAt
  split
  · rfl
  · rfl

end IdAllocator
end GoMqtt.Session
