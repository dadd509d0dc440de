import Mathlib.Data.List.Infix
import GoMqtt.Lib.Run
import GoMqtt.Session.IdAllocator

/-! # Identifiers over time

What the allocator guarantees across calls. Among its holders: a release may be
delayed past any number of resets, and the generation it presents keeps it away from
whoever holds the identifier by then. Along its cursor: an identifier comes round
again only after the cursor has gone past all others. -/
namespace GoMqtt.Session
open GoMqtt.Lib

namespace Holders

/-- The allocator, and the identifiers acquired and not yet released, each with its
generation. No step reads `held`. -/
structure World where
  ids : IdAllocator
  held : List (UInt16 × Nat)

inductive Act
  | acquire
  | releaseAt (id : UInt16) (gen : Nat)
  | reset
  deriving DecidableEq, Repr

def step (w : World) : Act → Option World
  | .acquire =>
    match w.ids.acquire with
    | (some h, ids) => some ⟨ids, h :: w.held⟩
    | (none, ids) => some { w with ids }
  | .releaseAt id gen => some ⟨w.ids.releaseAt id gen, w.held.erase (id, gen)⟩
  | .reset => some { w with ids := w.ids.reset }

/-- A release is by a holder, of what it acquired. -/
def Own (w : World) : Act → Prop
  | .releaseAt id gen => (id, gen) ∈ w.held
  | _ => True

instance (w : World) (a : Act) : Decidable (Own w a) := by
  cases a <;> unfold Own <;> infer_instance

/-- No identifier is held twice in one generation, and what is held in the current one
is marked. -/
structure Apart (w : World) : Prop where
  nodup : w.held.Nodup
  nonzero : ∀ h ∈ w.held, h.1 ≠ 0
  past : ∀ h ∈ w.held, h.2 ≤ w.ids.gen
  marked : ∀ h ∈ w.held, h.2 = w.ids.gen → w.ids.inUse h.1 = true

theorem Apart.acquire {w : World} (h : Apart w) {id : UInt16} {gen : Nat} {ids : IdAllocator}
    (ha : w.ids.acquire = (some (id, gen), ids)) : Apart ⟨ids, (id, gen) :: w.held⟩ := by
  obtain ⟨h0, rfl, hgen, hfree, hmarks⟩ := IdAllocator.acquire_some ha
  refine ⟨List.nodup_cons.mpr ⟨?_, h.nodup⟩, ?_, ?_, ?_⟩
  · intro hmem
    have hused := h.marked _ hmem rfl
    rw [hfree] at hused
    cases hused
  · exact List.forall_mem_cons.mpr ⟨h0, h.nonzero⟩
  · simp only [hgen]
    exact List.forall_mem_cons.mpr ⟨Nat.le_refl _, h.past⟩
  · simp only [hgen, hmarks, Bool.or_eq_true, decide_eq_true_eq]
    exact List.forall_mem_cons.mpr ⟨fun _ => .inl rfl, fun p hp hg => .inr (h.marked p hp hg)⟩

/-- The one released is gone from the holders, and the marks of the others stand. -/
theorem Apart.releaseAt {w : World} (h : Apart w) (id : UInt16) (gen : Nat) :
    Apart ⟨w.ids.releaseAt id gen, w.held.erase (id, gen)⟩ := by
  refine ⟨h.nodup.erase _, ?_, ?_, ?_⟩
  · exact fun p hp => h.nonzero p (List.mem_of_mem_erase hp)
  · intro p hp
    rw [IdAllocator.gen_releaseAt]
    exact h.past p (List.mem_of_mem_erase hp)
  · intro p hp hg
    rw [IdAllocator.gen_releaseAt] at hg
    have hother : p ≠ (id, gen) := (h.nodup.mem_erase_iff.mp hp).1
    have hmark := h.marked p (List.mem_of_mem_erase hp) hg
    simp only [IdAllocator.inUse_releaseAt, hmark, Bool.and_true, Bool.not_eq_true',
      decide_eq_false_iff_not]
    rintro ⟨hid, -, hgen⟩
    exact hother (Prod.ext hid (hg.trans hgen.symm))

/-- Nothing that is held is of the generation a reset starts. -/
theorem Apart.reset {w : World} (h : Apart w) : Apart { w with ids := w.ids.reset } := by
  refine ⟨h.nodup, h.nonzero, ?_, ?_⟩
  · intro p hp
    exact Nat.le_succ_of_le (h.past p hp)
  · intro p hp hg
    have hle := h.past p hp
    simp only [IdAllocator.gen_reset] at hg
    omega

theorem Apart.step {w u : World} {a : Act} (h : Apart w) (hs : step w a = some u) : Apart u := by
  cases a with
  | acquire =>
    simp only [Holders.step] at hs
    split at hs
    · rename_i p ids ha
      cases hs
      exact h.acquire ha
    · rename_i ids ha
      cases hs
      obtain ⟨hgen, hmarks⟩ := IdAllocator.acquire_none ha
      refine ⟨h.nodup, h.nonzero, ?_, ?_⟩
      · simpa only [hgen] using h.past
      · simpa only [hgen, hmarks] using h.marked
  | releaseAt id gen =>
    cases hs
    exact h.releaseAt id gen
  | reset =>
    cases hs
    exact h.reset

/-- From any allocator on that nobody holds anything of: those who acquired in one
generation and have not released hold different identifiers, none of them 0, and the
current ones stay marked; what is handed out next is held by none of them; and a release
from before the last reset changes nothing. -/
theorem identifiers_unique (ids : IdAllocator) {as : List Act} {w : World}
    (hrun : Run step Own ⟨ids, []⟩ as w) :
    w.held.Nodup ∧ (∀ h ∈ w.held, h.1 ≠ 0) ∧
    (∀ h ∈ w.held, h.2 = w.ids.gen → w.ids.inUse h.1 = true) ∧
    (∀ h ids', w.ids.acquire = (some h, ids') → h.1 ≠ 0 ∧ h.2 = w.ids.gen ∧ h ∉ w.held) ∧
    ∀ id gen, gen < w.ids.gen → w.ids.releaseAt id gen = w.ids := by
  have hinv : Apart w := by
    refine hrun.invariant (P := Apart) ?_ fun _ _ _ h _ hs => h.step hs
    exact ⟨List.nodup_nil, by simp, by simp, by simp⟩
  refine ⟨hinv.nodup, hinv.nonzero, hinv.marked, ?_, ?_⟩
  · intro h ids' ha
    obtain ⟨h0, hgen, -, -, -⟩ := IdAllocator.acquire_some ha
    exact ⟨h0, hgen, (List.nodup_cons.mp (hinv.acquire ha).nodup).1⟩
  · intro id gen hlt
    exact IdAllocator.releaseAt_stale (Nat.ne_of_lt hlt)

/-- The first identifier of a session is acquired, acquired again after the reset, and
released by the first holder only then. -/
def delayedRelease : List Act := [.acquire, .reset, .acquire, .releaseAt 1 0, .acquire]

theorem identifiers_unique_delayedRelease :
    ∃ w, Run step Own ⟨.init, []⟩ delayedRelease w ∧ w.held = [(2, 1), (1, 1)] ∧ w.held.Nodup ∧
      w.ids.inUse 1 = true := by
  have hheld : (execOk step Own ⟨.init, []⟩ delayedRelease).map (fun w => (w.held, w.ids.gen)) =
      some ([(2, 1), (1, 1)], 1) := by decide +kernel
  obtain ⟨w, hw, hheld⟩ := Option.map_eq_some_iff.mp hheld
  simp only [Prod.mk.injEq] at hheld
  obtain ⟨hnodup, -, hmarked, -⟩ := identifiers_unique .init (Run.of_execOk hw)
  exact ⟨w, Run.of_execOk hw, hheld.1, hnodup,
    hmarked (1, 1) (by rw [hheld.1]; simp) hheld.2.symm⟩

end Holders

/-! ## The cursor -/

namespace IdAllocator

/-- Where the cursor stands `k` rounds on. -/
def ahead (next : UInt16) (k : Nat) : UInt16 := next + UInt16.ofNat k

theorem ahead_zero (next : UInt16) : ahead next 0 = next := by simp [ahead]

theorem ahead_ahead (next : UInt16) (k m : Nat) : ahead (ahead next k) m = ahead next (k + m) := by
  simp only [ahead, UInt16.ofNat_add, UInt16.add_assoc]

theorem ahead_succ (next : UInt16) (k : Nat) : ahead (next + 1) k = ahead next (k + 1) := by
  rw [Nat.add_comm k 1, ← ahead_ahead]
  rfl

theorem ahead_toNat (next : UInt16) (k : Nat) :
    (ahead next k).toNat = (next.toNat + k) % 65536 := by
  simp [ahead, UInt16.toNat_add]

theorem inUse_acquire {a : IdAllocator} {id : UInt16} {gen : Nat}
    (h : a.acquire.1 = some (id, gen)) (j : UInt16) :
    a.acquire.2.inUse j = (decide (j = id) || a.inUse j) := by
  have heq : a.acquire = (some (id, gen), a.acquire.2) := Prod.ext h rfl
  exact (acquire_some heq).2.2.2.2 j

/-- The scan goes past this identifier. -/
def Taken (used : Bitmap 1024) (id : UInt16) : Prop :=
  id = 0 ∨ used.test (wordOf id) (bitOf id) = true

/-- The scan stops at the first identifier it does not go past, or, having gone past all
of them, where its rounds end. -/
theorem scan_spec (used : Bitmap 1024) (n : Nat) (next : UInt16) :
    (∃ k, k < n ∧ ¬ Taken used (ahead next k) ∧
      scan used n next = (some (ahead next k), ahead next (k + 1)) ∧
      ∀ m, m < k → Taken used (ahead next m)) ∨
    (scan used n next = (none, ahead next n) ∧ ∀ m, m < n → Taken used (ahead next m)) := by
  induction n generalizing next with
  | zero => exact .inr ⟨by simp [scan, ahead_zero], by omega⟩
  | succ n ih =>
    by_cases htaken : Taken used next
    · have hscan : scan used (n + 1) next = scan used n (next + 1) := by
        simp only [scan]
        split
        · rfl
        · rename_i h0
          rw [if_pos (htaken.resolve_left h0)]
      -- the rounds after the first, counted from the old cursor
      have hpast : ∀ k, (∀ m, m < k → Taken used (ahead (next + 1) m)) →
          ∀ m, m < k + 1 → Taken used (ahead next m) := by
        intro k hk m hm
        cases m with
        | zero => rwa [ahead_zero]
        | succ m =>
          rw [← ahead_succ]
          exact hk m (by omega)
      rcases ih (next + 1) with ⟨k, hk, hfree, heq, hall⟩ | ⟨heq, hall⟩
      · rw [ahead_succ] at hfree
        refine .inl ⟨k + 1, by omega, hfree, ?_, hpast k hall⟩
        rw [hscan, heq, ahead_succ, ahead_succ]
      · refine .inr ⟨?_, hpast n hall⟩
        rw [hscan, heq, ahead_succ]
    · refine .inl ⟨0, by omega, by rwa [ahead_zero], ?_, by omega⟩
      obtain ⟨h0, hfree⟩ := not_or.mp htaken
      rw [ahead_zero, scan, if_neg h0, if_neg hfree]
      rfl

/-- A whole round brings the cursor back. -/
theorem ahead_round (next : UInt16) : ahead next packetIDSpace = next := by
  have hlt := next.toNat_lt
  rw [← UInt16.toNat_inj, ahead_toNat]
  unfold packetIDSpace
  omega

/-- Every identifier is met within a round. -/
theorem exists_ahead_round (next id : UInt16) : ∃ k, k < packetIDSpace ∧ ahead next k = id := by
  have hnext := next.toNat_lt
  have hid := id.toNat_lt
  refine ⟨(id.toNat + 65536 - next.toNat) % 65536, ?_, ?_⟩
  · unfold packetIDSpace
    omega
  · rw [← UInt16.toNat_inj, ahead_toNat]
    omega

/-- What `Acquire` returns and leaves behind. -/
theorem acquire_spec (a : IdAllocator) :
    (∃ k, k < packetIDSpace ∧ ¬ Taken a.used (ahead a.next k) ∧
      (∀ m, m < k → Taken a.used (ahead a.next m)) ∧
      a.acquire = (some (ahead a.next k, a.gen),
        { a with
          used := a.used.set (wordOf (ahead a.next k)) (bitOf (ahead a.next k))
          next := ahead a.next (k + 1) })) ∨
    (a.acquire = (none, a) ∧ ∀ m, m < packetIDSpace → Taken a.used (ahead a.next m)) := by
  rcases scan_spec a.used packetIDSpace a.next with ⟨k, hk, hfree, heq, hall⟩ | ⟨heq, hall⟩
  · refine .inl ⟨k, hk, hfree, hall, ?_⟩
    unfold acquire
    rw [heq]
  · refine .inr ⟨?_, hall⟩
    unfold acquire
    rw [heq, ahead_round]

/-! ## One call -/

/-- Position `k` after the cursor holds the first identifier that is free and not 0. -/
def FirstFree (a : IdAllocator) (k : Nat) : Prop :=
  ahead a.next k ≠ 0 ∧ a.inUse (ahead a.next k) = false ∧
    ∀ m, m < k → ahead a.next m = 0 ∨ a.inUse (ahead a.next m) = true

theorem firstFree_iff {a : IdAllocator} {k : Nat} :
    a.FirstFree k ↔ ¬ Taken a.used (ahead a.next k) ∧
      ∀ m, m < k → Taken a.used (ahead a.next m) := by
  unfold FirstFree Taken inUse
  rw [not_or, Bool.not_eq_true, and_assoc]

/-- `Acquire` fails exactly if every identifier but 0 is in use, and then changes nothing. -/
theorem acquire_exhausted (a : IdAllocator) :
    (a.acquire.1 = none ↔ ∀ id, id ≠ 0 → a.inUse id = true) ∧
      (a.acquire.1 = none → a.acquire.2 = a) := by
  rcases acquire_spec a with ⟨k, -, hfree, -, heq⟩ | ⟨heq, hall⟩
  · obtain ⟨h0, hunused⟩ := not_or.mp hfree
    rw [heq]
    refine ⟨⟨fun h => (by cases h), ?_⟩, fun h => (by cases h)⟩
    intro hall
    exact absurd (hall _ h0) hunused
  · rw [heq]
    refine ⟨⟨fun _ => ?_, fun _ => rfl⟩, fun _ => rfl⟩
    intro id h0
    obtain ⟨k, hk, rfl⟩ := exists_ahead_round a.next id
    exact (hall k hk).resolve_left h0

/-- For any bitmap and cursor. If an identifier other than 0 is free, `Acquire` returns
the first one at or after the cursor, sets its bit and no other, and leaves the cursor just
past it. It fails exactly if all of them are in use, and then changes nothing. A release
in the current generation clears the bit of its identifier and no other. Each bit of the
map belongs to one identifier. -/
theorem acquire_exact (a : IdAllocator) :
    (∀ free, free ≠ 0 → a.inUse free = false →
      ∃ k id, k < 65536 ∧ id = ahead a.next k ∧ a.FirstFree k ∧
        a.acquire.1 = some (id, a.gen) ∧ a.acquire.2.next = id + 1 ∧ a.acquire.2.gen = a.gen ∧
        ∀ w b, a.acquire.2.used.test w b =
          (decide (w = wordOf id ∧ b = bitOf id) || a.used.test w b)) ∧
    (a.acquire.1 = none ↔ ∀ id, id ≠ 0 → a.inUse id = true) ∧
    (a.acquire.1 = none → a.acquire.2 = a) ∧
    (∀ id, id ≠ 0 → (a.releaseAt id a.gen).next = a.next ∧ (a.releaseAt id a.gen).gen = a.gen ∧
      ∀ w b, (a.releaseAt id a.gen).used.test w b =
        (!decide (w = wordOf id ∧ b = bitOf id) && a.used.test w b)) ∧
    ∀ w b, ∃! id, wordOf id = w ∧ bitOf id = b := by
  obtain ⟨hnone, hsame⟩ := acquire_exhausted a
  refine ⟨?_, hnone, hsame, ?_, ?_⟩
  · intro free h0 hfree
    rcases acquire_spec a with ⟨k, hk, hfirst, hall, heq⟩ | ⟨heq, -⟩
    · refine ⟨k, _, hk, rfl, firstFree_iff.mpr ⟨hfirst, hall⟩, ?_⟩
      rw [heq]
      refine ⟨rfl, ?_, rfl, fun w b => Bitmap.test_set ..⟩
      rw [← ahead_ahead]
      rfl
    · have hall := hnone.mp (by rw [heq])
      rw [hall free h0] at hfree
      cases hfree
  · intro id h0
    unfold releaseAt
    rw [if_neg h0, if_pos rfl]
    exact ⟨rfl, rfl, fun w b => Bitmap.test_clear ..⟩
  · intro w b
    obtain ⟨id, hw, hb⟩ := position_surj w b
    refine ⟨id, ⟨hw, hb⟩, ?_⟩
    intro id' h
    exact position_inj (h.1.trans hw.symm) (h.2.trans hb.symm)

/-- The cursor at the last identifier, which is in use as is the first. -/
def atTheEnd : IdAllocator where
  used := ((Bitmap.zero 1024).set (wordOf 65535) (bitOf 65535)).set (wordOf 1) (bitOf 1)
  next := 65535
  gen := 0

theorem acquire_exact_atTheEnd :
    (∃ k, k < 65536 ∧ (2 : UInt16) = ahead 65535 k ∧ atTheEnd.FirstFree k) ∧
      atTheEnd.acquire.1 = some (2, 0) ∧ atTheEnd.acquire.2.next = 3 := by
  obtain ⟨hfirst, -⟩ := acquire_exact atTheEnd
  obtain ⟨k, id, hk, hid, hfree, hret, hnext, -⟩ := hfirst 2 (by decide) (by decide +kernel)
  have htwo : atTheEnd.acquire.1 = some (2, 0) := by decide +kernel
  rw [htwo] at hret
  obtain rfl : (2 : UInt16) = id := by simpa using congrArg (Option.map Prod.fst) hret
  exact ⟨⟨k, hk, hid, hfree⟩, htwo, hnext⟩

/-- The identifiers the loop of `Acquire` finds in use and goes past. -/
def scanPassed (used : Bitmap 1024) : Nat → UInt16 → List UInt16
  | 0, _ => []
  | n + 1, next =>
    if next = 0 then scanPassed used n (next + 1)
    else if used.test (wordOf next) (bitOf next) then next :: scanPassed used n (next + 1)
    else []

def passed (a : IdAllocator) : List UInt16 := scanPassed a.used packetIDSpace a.next

theorem mem_scanPassed {used : Bitmap 1024} {n k : Nat} {next : UInt16} (hk : k ≤ n)
    (hall : ∀ m, m < k → Taken used (ahead next m)) {m : Nat} (hm : m < k)
    (h0 : ahead next m ≠ 0) : ahead next m ∈ scanPassed used n next := by
  induction n generalizing next k m with
  | zero => omega
  | succ n ih =>
    have hfirst : Taken used next := by simpa only [ahead_zero] using hall 0 (by omega)
    have hrest : ∀ m', m' < k - 1 → Taken used (ahead (next + 1) m') := by
      intro m' hm'
      rw [ahead_succ]
      exact hall (m' + 1) (by omega)
    have hin : ∀ m', m = m' + 1 → ahead next m ∈ scanPassed used n (next + 1) := by
      rintro m' rfl
      rw [← ahead_succ] at h0 ⊢
      exact ih (by omega) hrest (by omega) h0
    simp only [scanPassed]
    cases m with
    | zero =>
      rw [ahead_zero] at h0 ⊢
      rw [if_neg h0, if_pos (hfirst.resolve_left h0)]
      exact List.mem_cons_self
    | succ m' =>
      split
      · exact hin m' rfl
      · rename_i hnext
        rw [if_pos (hfirst.resolve_left hnext)]
        exact List.mem_cons_of_mem _ (hin m' rfl)

theorem inUse_of_mem_passed {a : IdAllocator} {j : UInt16} (h : j ∈ a.passed) :
    a.inUse j = true := by
  have hgen : ∀ n next, j ∈ scanPassed a.used n next → a.inUse j = true := by
    intro n
    induction n with
    | zero => simp [scanPassed]
    | succ n ih =>
      intro next h
      simp only [scanPassed] at h
      split at h
      · exact ih _ h
      · split at h
        · rename_i hused
          rcases List.mem_cons.mp h with rfl | h
          · exact hused
          · exact ih _ h
        · cases h
  exact hgen _ _ h

/-- The first identifier the scan does not go past is the one returned. -/
theorem acquire_first {a : IdAllocator} {k : Nat} (hk : k < packetIDSpace)
    (hfree : ¬ Taken a.used (ahead a.next k)) (hall : ∀ m, m < k → Taken a.used (ahead a.next m)) :
    a.acquire.1 = some (ahead a.next k, a.gen) := by
  rcases acquire_spec a with ⟨k', -, hfree', hall', heq⟩ | ⟨-, hall'⟩
  · have hkk : k' = k := by
      rcases Nat.lt_trichotomy k' k with hlt | heq | hgt
      · exact absurd (hall k' hlt) hfree'
      · exact heq
      · exact absurd (hall' k hgt) hfree
    subst hkk
    rw [heq]
  · exact absurd (hall' k hk) hfree

/-- How far one `Acquire` takes the cursor: past identifiers in use, and past the one it
returns if it finds any. -/
theorem acquire_passes (a : IdAllocator) :
    ∃ k, k ≤ packetIDSpace ∧ (∀ m, m < k → ahead a.next m ≠ 0 → ahead a.next m ∈ a.passed) ∧
      ((a.acquire.1 = some (ahead a.next k, a.gen) ∧ a.acquire.2.next = ahead a.next (k + 1)) ∨
        (a.acquire.1 = none ∧ k = packetIDSpace ∧ a.acquire.2.next = ahead a.next k)) := by
  rcases acquire_spec a with ⟨k, hk, -, hall, heq⟩ | ⟨heq, hall⟩
  · refine ⟨k, by omega, fun m hm h0 => mem_scanPassed (by omega) hall hm h0, .inl ?_⟩
    rw [heq]
    exact ⟨rfl, rfl⟩
  · refine ⟨_, Nat.le_refl _, fun m hm h0 => mem_scanPassed (Nat.le_refl _) hall hm h0, .inr ?_⟩
    rw [heq, ahead_round]
    exact ⟨rfl, rfl, rfl⟩

/-! ## Rotation -/

/-- The operations within one generation. -/
inductive Op
  | acquire
  | releaseAt (id : UInt16) (gen : Nat)
  deriving DecidableEq, Repr

def apply (a : IdAllocator) : Op → IdAllocator
  | .acquire => a.acquire.2
  | .releaseAt id gen => a.releaseAt id gen

def after (a : IdAllocator) (ops : List Op) : IdAllocator := ops.foldl apply a

theorem after_snoc (a : IdAllocator) (ops : List Op) (op : Op) :
    a.after (ops ++ [op]) = (a.after ops).apply op := by simp [after]

/-- Some `Acquire` among the operations returned `j`, or went past it. -/
def Seen (a : IdAllocator) (ops : List Op) (j : UInt16) : Prop :=
  ∃ bs, (bs ++ [Op.acquire]) <+: ops ∧
    ((∃ gen, (a.after bs).acquire.1 = some (j, gen)) ∨ j ∈ (a.after bs).passed)

theorem Seen.snoc {a : IdAllocator} {ops : List Op} {j : UInt16} (h : a.Seen ops j) (op : Op) :
    a.Seen (ops ++ [op]) j := by
  obtain ⟨bs, hbs, h⟩ := h
  exact ⟨bs, hbs.trans (List.prefix_append _ _), h⟩

/-- The first `n` identifiers after `i` have been seen. -/
def Covered (a : IdAllocator) (i : UInt16) (ops : List Op) (n : Nat) : Prop :=
  ∀ m, m < n → ahead (i + 1) m ≠ 0 → a.Seen ops (ahead (i + 1) m)

/-- One more `Acquire` covers what it goes past, and what it returns. -/
theorem Covered.acquire {a : IdAllocator} {i : UInt16} {ops : List Op} {d : Nat}
    (h : a.Covered i ops d) (hnext : (a.after ops).next = ahead (i + 1) d) :
    ∃ k, k ≤ packetIDSpace ∧ a.Covered i (ops ++ [.acquire]) (d + k) ∧
      (((a.after ops).acquire.1 = some (ahead (i + 1) (d + k), (a.after ops).gen) ∧
          a.Covered i (ops ++ [.acquire]) (d + k + 1) ∧
          (a.after (ops ++ [.acquire])).next = ahead (i + 1) (d + k + 1)) ∨
        k = packetIDSpace) := by
  obtain ⟨k, hk, hpassed, hend⟩ := acquire_passes (a.after ops)
  simp only [hnext, ahead_ahead] at hpassed hend
  have hcover : a.Covered i (ops ++ [.acquire]) (d + k) := by
    intro m hm h0
    by_cases hold : m < d
    · exact (h m hold h0).snoc _
    · have hm' : d + (m - d) = m := by omega
      have hin := hpassed (m - d) (by omega) (by rwa [hm'])
      rw [hm'] at hin
      exact ⟨ops, List.prefix_refl _, .inr hin⟩
  refine ⟨k, hk, hcover, ?_⟩
  rcases hend with ⟨hret, hcur⟩ | ⟨-, hall, -⟩
  · refine .inl ⟨hret, ?_, ?_⟩
    · intro m hm h0
      by_cases hlast : m = d + k
      · subst hlast
        exact ⟨ops, List.prefix_refl _, .inl ⟨_, hret⟩⟩
      · exact hcover m (by omega) h0
    · rw [after_snoc]
      exact hcur
  · exact .inr hall

/-- Since the cursor left `i`, it has covered all it went over, or everything. -/
theorem covered_after {a : IdAllocator} {i : UInt16} (hnext : a.next = i + 1) (ops : List Op) :
    a.Covered i ops 65535 ∨
      ∃ d, (a.after ops).next = ahead (i + 1) d ∧ a.Covered i ops d := by
  induction ops using List.reverseRecOn with
  | nil => exact .inr ⟨0, by rw [ahead_zero]; exact hnext, by intro m hm; omega⟩
  | append_singleton ops op ih =>
    rcases ih with hfull | ⟨d, hd, hcover⟩
    · exact .inl fun m hm h0 => (hfull m hm h0).snoc op
    cases op with
    | acquire =>
      obtain ⟨k, -, hcover', ⟨-, hmore, hcur⟩ | hk⟩ := hcover.acquire hd
      · exact .inr ⟨_, hcur, hmore⟩
      · refine .inl fun m hm => hcover' m ?_
        rw [hk]
        unfold packetIDSpace
        omega
    | releaseAt id gen =>
      refine .inr ⟨d, ?_, fun m hm h0 => (hcover m hm h0).snoc _⟩
      rw [after_snoc, ← hd]
      simp only [apply, releaseAt]
      split
      · rfl
      · split <;> rfl

/-- Every identifier but `i` comes within 65535 rounds after it. -/
theorem exists_ahead {i j : UInt16} (h : j ≠ i) : ∃ m, m < 65535 ∧ ahead (i + 1) m = j := by
  have hi := i.toNat_lt
  have hj := j.toNat_lt
  have hne : j.toNat ≠ i.toNat := fun he => h (UInt16.toNat_inj.mp he)
  refine ⟨(j.toNat + 65535 - i.toNat) % 65536, by omega, ?_⟩
  rw [← UInt16.toNat_inj, ahead_toNat, UInt16.toNat_add]
  simp only [UInt16.toNat_one]
  omega

theorem seen_between {a : IdAllocator} {i : UInt16} {g g' : Nat} {ops : List Op}
    (hfirst : a.acquire.1 = some (i, g))
    (hsecond : (a.acquire.2.after ops).acquire.1 = some (i, g')) {j : UInt16} (hj0 : j ≠ 0)
    (hj : j ≠ i) : a.acquire.2.Seen (ops ++ [.acquire]) j := by
  have hnext : a.acquire.2.next = i + 1 := by
    obtain ⟨k, -, -, ⟨hret, hcur⟩ | ⟨hret, -⟩⟩ := acquire_passes a
    · rw [hfirst] at hret
      obtain rfl : i = ahead a.next k := by simpa using congrArg (Option.map Prod.fst) hret
      rw [hcur, ← ahead_ahead]
      rfl
    · rw [hfirst] at hret
      cases hret
  obtain ⟨m, hm, rfl⟩ := exists_ahead hj
  rcases covered_after hnext ops with hfull | ⟨d, hd, hcover⟩
  · exact (hfull m hm hj0).snoc _
  obtain ⟨k, -, hcover', ⟨hret, -, -⟩ | hk⟩ := hcover.acquire hd
  · -- the cursor is back at `i`, so it went round
    refine hcover' m ?_ hj0
    rw [hsecond] at hret
    have hround : i = ahead (i + 1) (d + k) := by simpa using congrArg (Option.map Prod.fst) hret
    have hround := congrArg UInt16.toNat hround
    rw [ahead_toNat, UInt16.toNat_add] at hround
    simp only [UInt16.toNat_one] at hround
    have hi := i.toNat_lt
    omega
  · refine hcover' m ?_ hj0
    rw [hk]
    unfold packetIDSpace
    omega

/-- Between two calls of `Acquire` that return `i`, every other non-zero identifier was
returned by one, or was in use when the cursor went past it. So none of them stayed free
all the time in between. -/
theorem identifiers_rotate {a : IdAllocator} {i : UInt16} {g g' : Nat} {ops : List Op}
    (hfirst : a.acquire.1 = some (i, g))
    (hsecond : (a.acquire.2.after ops).acquire.1 = some (i, g')) (j : UInt16) (hj0 : j ≠ 0)
    (hj : j ≠ i) :
    ((∃ bs gen, (bs ++ [Op.acquire]) <+: ops ∧
        (a.acquire.2.after bs).acquire.1 = some (j, gen)) ∨
      ∃ bs, (bs ++ [Op.acquire]) <+: (ops ++ [.acquire]) ∧ j ∈ (a.acquire.2.after bs).passed ∧
        (a.acquire.2.after bs).inUse j = true) ∧
    ∃ bs, bs <+: ops ∧ (a.acquire.2.after bs).inUse j = true := by
  obtain ⟨bs, hbs, hseen⟩ := seen_between hfirst hsecond hj0 hj
  have hpre : bs <+: ops := by
    obtain ⟨cs, hcs⟩ := hbs
    rcases List.eq_nil_or_concat cs with rfl | ⟨cs, c, rfl⟩
    · rw [List.append_nil] at hcs
      rw [(List.append_inj' hcs rfl).1]
    · rw [List.concat_eq_append, ← List.append_assoc] at hcs
      obtain ⟨hcs, -⟩ := List.append_inj' hcs rfl
      exact ⟨[.acquire] ++ cs, by rw [← List.append_assoc, hcs]⟩
  rcases hseen with ⟨gen, hret⟩ | hpassed
  · -- the last call returned `i`, so this one is among the operations before it
    have hops : (bs ++ [Op.acquire]) <+: ops := by
      rcases List.prefix_concat_iff.mp hbs with heq | h
      · obtain ⟨rfl, -⟩ := List.append_inj' heq rfl
        rw [hsecond] at hret
        exact absurd (by simpa using congrArg (Option.map Prod.fst) hret) (Ne.symm hj)
      · exact h
    refine ⟨.inl ⟨bs, gen, hops, hret⟩, bs ++ [.acquire], hops, ?_⟩
    rw [after_snoc, apply, inUse_acquire hret]
    simp
  · have hused := inUse_of_mem_passed hpassed
    exact ⟨.inr ⟨bs, hbs, hpassed, hused⟩, bs, hpre, hused⟩

/-- All but two identifiers are in use, and the cursor is at the first of them. -/
def crowded : IdAllocator :=
  ⟨((⟨fun _ => BitVec.allOnes 64⟩ : Bitmap 1024).clear (wordOf 5) (bitOf 5)).clear
    (wordOf 6) (bitOf 6), 5, 0⟩

theorem inUse_crowded {j : UInt16} (h5 : j ≠ 5) (h6 : j ≠ 6) : crowded.inUse j = true := by
  have hall : (⟨fun _ => BitVec.allOnes 64⟩ : Bitmap 1024).test (wordOf j) (bitOf j) = true := by
    rw [Bitmap.test_eq, BitVec.getLsbD_allOnes]
    exact decide_eq_true (bitOf j).isLt
  unfold crowded inUse
  rw [Bitmap.test_clear, Bitmap.test_clear, hall]
  simp only [Bool.and_true, Bool.and_eq_true, Bool.not_eq_true', decide_eq_false_iff_not]
  exact ⟨fun h => h6 (position_inj h.1 h.2), fun h => h5 (position_inj h.1 h.2)⟩

theorem identifiers_rotate_crowded :
    crowded.acquire.1 = some (5, 0) ∧
    (crowded.acquire.2.after [.acquire, .releaseAt 5 0]).acquire.1 = some (5, 0) ∧
    ∃ bs, bs <+: [Op.acquire, Op.releaseAt 5 0] ∧
      (crowded.acquire.2.after bs).inUse 6 = true := by
  have hfirst : crowded.acquire.1 = some (5, 0) := by decide +kernel
  have hthen : crowded.acquire.2.acquire.1 = some (6, 0) := by decide +kernel
  let a := crowded.acquire.2.after [.acquire, .releaseAt 5 0]
  have hnext : a.next = 7 := by decide +kernel
  have hgen : a.gen = 0 := by decide +kernel
  have hused : ∀ j, j ≠ 5 → a.inUse j = true := by
    intro j h5
    have hrelease := inUse_releaseAt crowded.acquire.2.acquire.2 5 0 j
    rw [inUse_acquire hthen, inUse_acquire hfirst] at hrelease
    refine hrelease.trans ?_
    by_cases h6 : j = 6
    · simp [h6]
    · simp [h5, inUse_crowded h5 h6]
  have hsecond : a.acquire.1 = some (5, 0) := by
    have hat : ahead a.next 65534 = 5 := by rw [hnext]; decide
    have hret := acquire_first (a := a) (k := 65534) (by decide)
      (by rw [hat]; rintro (h | h) <;> revert h <;> decide +kernel) (fun m hm => .inr (hused _ ?_))
    · rwa [hat, hgen] at hret
    · intro h5
      have h5 := congrArg UInt16.toNat h5
      rw [ahead_toNat, hnext] at h5
      simp at h5
      omega
  exact ⟨hfirst, hsecond, (identifiers_rotate hfirst hsecond 6 (by decide) (by decide)).2⟩

end IdAllocator
end GoMqtt.Session
