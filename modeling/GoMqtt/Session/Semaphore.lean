import GoMqtt.Lib.Run
import GoMqtt.Session.Quota
import Mathlib.Data.List.Count
import Mathlib.Logic.Function.Basic

/-! # The quota among its callers

Any number of goroutines inside `quota.acquire`, interleaved at the lock with
`releaseAt`, `reset` and `fail`. A goroutine that finds no permit captures the wake
channel under the lock and waits for it outside, so everything can happen between
the two. -/
namespace GoMqtt.Session.Semaphore
open GoMqtt.Lib

/-- Where a goroutine stands in `acquire`: not in it, in front of the lock, or behind
it with the channel it captured, before its `select` or inside. -/
inductive Pc
  | outside
  | checking
  | waiting (wake : Nat)
  deriving DecidableEq, Repr

/-- The quota and its callers. `seed` is the argument of the last reset, or what the
quota was made with, and `held` the generation of each permit granted and not yet
returned; no step reads the two. -/
structure World where
  q : Quota
  pcs : Nat → Pc
  seed : Int
  held : List Nat

inductive Act
  | call (g : Nat)
  | check (g : Nat)
  | woken (g : Nat)
  | cancelled (g : Nat)
  | releaseAt (gen : Nat)
  | reset (n : Int)
  | fail
  deriving DecidableEq, Repr

def init (n : Int) : World := ⟨.new n, fun _ => .outside, n, []⟩

/-- The channel is closed. -/
def World.closed (w : World) (wake : Nat) : Bool := wake < w.q.wake

def World.setPc (w : World) (g : Nat) (pc : Pc) : World :=
  { w with pcs := Function.update w.pcs g pc }

def step (w : World) : Act → Option World
  | .call g => if w.pcs g = .outside then some (w.setPc g .checking) else none
  | .check g =>
    if w.pcs g = .checking then
      match w.q.acquire with
      | (.lost, _) => some (w.setPc g .outside)
      | (.granted gen, q) => some { w.setPc g .outside with q, held := gen :: w.held }
      | (.park wake, _) => some (w.setPc g (.waiting wake))
    else none
  | .woken g =>
    match w.pcs g with
    | .waiting wake => if w.closed wake then some (w.setPc g .checking) else none
    | _ => none
  | .cancelled g =>
    match w.pcs g with
    | .waiting _ => some (w.setPc g .outside)
    | _ => none
  | .releaseAt gen => some { w with q := w.q.releaseAt gen, held := w.held.erase gen }
  | .reset n => some { w with q := w.q.reset n, seed := n }
  | .fail => some { w with q := w.q.fail }

/-- The goroutine that takes the step; the others are steps of the client. -/
def Act.caller : Act → Option Nat
  | .call g | .check g | .woken g | .cancelled g => some g
  | .releaseAt _ | .reset _ | .fail => none

/-- What a step does: it moves one goroutine, or it changes the quota. -/
theorem step_cases {w u : World} {a : Act} (h : step w a = some u) :
    (∃ g pc, a.caller = some g ∧ u = w.setPc g pc ∧
      ∀ wake, pc = .waiting wake → w.q.acquire = (.park wake, w.q)) ∨
    (∃ g gen q, a = .check g ∧ w.q.acquire = (.granted gen, q) ∧
      u = { w.setPc g .outside with q, held := gen :: w.held }) ∨
    (∃ gen, a = .releaseAt gen ∧
      u = { w with q := w.q.releaseAt gen, held := w.held.erase gen }) ∨
    (∃ n, a = .reset n ∧ u = { w with q := w.q.reset n, seed := n }) ∨
    (a = .fail ∧ u = { w with q := w.q.fail }) := by
  cases a with
  | call g =>
    simp only [step] at h
    split at h
    · cases h
      exact .inl ⟨g, _, rfl, rfl, by simp⟩
    · cases h
  | check g =>
    simp only [step] at h
    split at h
    · split at h
      · cases h
        exact .inl ⟨g, _, rfl, rfl, by simp⟩
      · rename_i gen q hq
        cases h
        exact .inr (.inl ⟨g, gen, q, rfl, hq, rfl⟩)
      · rename_i wake q hq
        cases h
        refine .inl ⟨g, _, rfl, rfl, ?_⟩
        intro wake' heq
        cases heq
        rw [hq, Quota.acquire_refused hq (by simp)]
    · cases h
  | woken g =>
    simp only [step] at h
    split at h
    · split at h
      · cases h
        exact .inl ⟨g, _, rfl, rfl, by simp⟩
      · cases h
    · cases h
  | cancelled g =>
    simp only [step] at h
    split at h
    · cases h
      exact .inl ⟨g, _, rfl, rfl, by simp⟩
    · cases h
  | releaseAt gen =>
    cases h
    exact .inr (.inr (.inl ⟨gen, rfl, rfl⟩))
  | reset n =>
    cases h
    exact .inr (.inr (.inr (.inl ⟨n, rfl, rfl⟩)))
  | fail =>
    cases h
    exact .inr (.inr (.inr (.inr ⟨rfl, rfl⟩)))

/-! ## Conservation -/

/-- A release returns a permit that was granted and not returned before. -/
def Owned (w : World) : Act → Prop
  | .releaseAt gen => gen ∈ w.held
  | _ => True

instance (w : World) (a : Act) : Decidable (Owned w a) := by
  cases a <;> unfold Owned <;> infer_instance

/-- Free permits and those of the current generation make up the last seed; the free
ones fall below zero only where the seed did. -/
structure Conserved (w : World) : Prop where
  sum : w.q.avail + w.held.count w.q.gen = w.seed
  floor : min w.seed 0 ≤ w.q.avail
  past : ∀ gen ∈ w.held, gen ≤ w.q.gen

theorem Conserved.init (n : Int) : Conserved (init n) :=
  ⟨by simp [Semaphore.init, Quota.new], by simp [Semaphore.init, Quota.new],
    by simp [Semaphore.init]⟩

theorem Conserved.grant {w : World} {gen : Nat} {q : Quota} (h : Conserved w)
    (hq : w.q.acquire = (.granted gen, q)) (g : Nat) :
    Conserved { w.setPc g .outside with q, held := gen :: w.held } := by
  obtain ⟨-, hpos, rfl, rfl⟩ := Quota.acquire_granted hq
  refine ⟨?_, ?_, ?_⟩
  · have hsum := h.sum
    simp only [World.setPc, List.count_cons_self, Nat.cast_add, Nat.cast_one]
    omega
  · have hfloor := h.floor
    simp only [World.setPc]
    omega
  · intro gen hgen
    rcases List.mem_cons.mp hgen with rfl | hgen
    · exact Nat.le_refl _
    · exact h.past gen hgen

/-- A permit of an earlier generation was written off by the reset since. -/
theorem Conserved.release {w : World} {gen : Nat} (h : Conserved w) (hgen : gen ∈ w.held) :
    Conserved { w with q := w.q.releaseAt gen, held := w.held.erase gen } := by
  have hpast : ∀ gen' ∈ w.held.erase gen, gen' ≤ (w.q.releaseAt gen).gen := by
    intro gen' hmem
    rw [Quota.gen_releaseAt]
    exact h.past gen' (List.mem_of_mem_erase hmem)
  have hsum := h.sum
  have hfloor := h.floor
  by_cases hcur : gen = w.q.gen
  · subst hcur
    have hcount : 0 < w.held.count w.q.gen := List.count_pos_iff.mpr hgen
    refine ⟨?_, ?_, hpast⟩
    · simp only [Quota.avail_releaseAt, Quota.gen_releaseAt, if_true, List.count_erase_self]
      omega
    · simp only [Quota.avail_releaseAt, if_true]
      omega
  · refine ⟨?_, ?_, hpast⟩
    · simp only [Quota.avail_releaseAt, Quota.gen_releaseAt, if_neg hcur,
        List.count_erase_of_ne (Ne.symm hcur)]
      exact hsum
    · simpa only [Quota.avail_releaseAt, if_neg hcur] using hfloor

/-- A reset starts a generation of which nothing is held. -/
theorem Conserved.reset {w : World} (h : Conserved w) (n : Int) :
    Conserved { w with q := w.q.reset n, seed := n } := by
  have hnone : w.held.count (w.q.gen + 1) = 0 := by
    refine List.count_eq_zero.mpr ?_
    intro hmem
    have := h.past _ hmem
    omega
  refine ⟨?_, ?_, ?_⟩
  · simp [hnone]
  · simp
  · intro gen hgen
    have := h.past gen hgen
    simp only [Quota.gen_reset]
    omega

theorem Conserved.step {w u : World} {a : Act} (h : Conserved w) (ho : Owned w a)
    (hs : step w a = some u) : Conserved u := by
  rcases step_cases hs with ⟨g, pc, -, rfl, -⟩ | ⟨g, gen, q, -, hq, rfl⟩ | ⟨gen, rfl, rfl⟩ |
    ⟨n, -, rfl⟩ | ⟨-, rfl⟩
  · exact ⟨h.sum, h.floor, h.past⟩
  · exact h.grant hq g
  · exact h.release ho
  · exact h.reset n
  · exact ⟨h.sum, h.floor, h.past⟩

/-- In every run, the free permits and those granted since the last reset and not
returned add up to what that reset asked for. The free ones are negative only where
the reset asked for less than none; a permit is granted only if one is free and the
quota has not failed, and a release from before the last reset changes nothing. -/
theorem quota_conserves_permits (n : Int) {as : List Act} {w : World}
    (hrun : Run step Owned (init n) as w) :
    w.q.avail + w.held.count w.q.gen = w.seed ∧
    (0 ≤ w.seed → 0 ≤ w.q.avail) ∧ (w.seed < 0 → w.seed ≤ w.q.avail) ∧
    (∀ gen q, w.q.acquire = (.granted gen, q) →
      w.q.failed = false ∧ 0 < w.q.avail ∧ gen = w.q.gen) ∧
    ∀ gen, gen < w.q.gen → w.q.releaseAt gen = w.q := by
  have hinv : Conserved w :=
    hrun.invariant (.init n) fun _ _ _ h ho hs => h.step ho hs
  have hfloor := hinv.floor
  refine ⟨hinv.sum, by omega, by omega, ?_, ?_⟩
  · intro gen q hq
    obtain ⟨hf, hpos, hgen, -⟩ := Quota.acquire_granted hq
    exact ⟨hf, hpos, hgen⟩
  · intro gen hlt
    unfold Quota.releaseAt
    rw [if_neg (Nat.ne_of_lt hlt)]

/-- Two permits of two, one returned across a failure and a reset. -/
def acrossReset : List Act :=
  [.call 0, .check 0, .call 1, .check 1, .fail, .reset 1, .releaseAt 0, .call 2, .check 2,
   .call 3, .check 3]

theorem quota_conserves_permits_acrossReset :
    ∃ w, Run step Owned (init 2) acrossReset w ∧ w.held = [1, 0] ∧ w.seed = 1 ∧
      w.q.avail + w.held.count w.q.gen = w.seed ∧ 0 ≤ w.q.avail := by
  have hheld : (execOk step Owned (init 2) acrossReset).map (fun w => (w.held, w.seed)) =
      some ([1, 0], 1) := by decide +kernel
  obtain ⟨w, hw, hheld⟩ := Option.map_eq_some_iff.mp hheld
  simp only [Prod.mk.injEq] at hheld
  have hall := quota_conserves_permits 2 (Run.of_execOk hw)
  exact ⟨w, Run.of_execOk hw, hheld.1, hheld.2, hall.1, hall.2.1 (by rw [hheld.2]; decide)⟩

/-- A reset to less than none leaves a negative number free. -/
theorem reset_below_zero : ∃ w, Run step Owned (init 0) [.reset (-1)] w ∧ w.q.avail = -1 := by
  have hrun : execOk step Owned (init 0) [.reset (-1)] =
      some { init 0 with q := (Quota.new 0).reset (-1), seed := -1 } := rfl
  exact ⟨_, Run.of_execOk hrun, rfl⟩

/-! ## Wake-ups -/

/-- A goroutine with a channel that is still open has nothing to wake up for. -/
def Awake (w : World) : Prop :=
  ∀ g wake, w.pcs g = .waiting wake →
    wake ≤ w.q.wake ∧ (wake = w.q.wake → w.q.failed = false ∧ w.q.avail ≤ 0)

/-- A broadcast closes every channel captured so far. -/
theorem Awake.broadcast {w : World} (h : Awake w) {q : Quota} (hq : w.q.wake < q.wake)
    (seed : Int) (held : List Nat) : Awake { w with q, seed, held } := by
  intro g wake hg
  have hle := (h g wake hg).1
  simp only
  omega

theorem Awake.setPc {w : World} (h : Awake w) (g : Nat) {pc : Pc}
    (hpc : ∀ wake, pc = .waiting wake → w.q.acquire = (.park wake, w.q)) :
    Awake (w.setPc g pc) := by
  intro g' wake hg
  by_cases hgg : g' = g
  · subst hgg
    simp only [World.setPc, Function.update_self] at hg
    obtain ⟨rfl, hf, hv⟩ := Quota.acquire_park (hpc wake hg)
    exact ⟨Nat.le_refl _, fun _ => ⟨hf, hv⟩⟩
  · simp only [World.setPc, Function.update_of_ne hgg] at hg
    exact h g' wake hg

/-- Taking a permit closes no channel, and leaves those waiting no more to wake up for. -/
theorem Awake.grant {w : World} (h : Awake w) {gen : Nat} {q : Quota}
    (hq : w.q.acquire = (.granted gen, q)) (g : Nat) (held : List Nat) :
    Awake { w.setPc g .outside with q, held } := by
  obtain ⟨-, hpos, -, rfl⟩ := Quota.acquire_granted hq
  intro g' wake hg
  obtain ⟨hle, hsame⟩ := h.setPc g (by simp) g' wake hg
  refine ⟨hle, fun heq => ?_⟩
  have := (hsame heq).2
  simp only [World.setPc] at this
  omega

theorem Awake.step {w u : World} {a : Act} (h : Awake w) (hs : step w a = some u) : Awake u := by
  rcases step_cases hs with ⟨g, pc, -, rfl, hpc⟩ | ⟨g, gen, q, -, hq, rfl⟩ | ⟨gen, -, rfl⟩ |
    ⟨n, -, rfl⟩ | ⟨-, rfl⟩
  · exact h.setPc g hpc
  · exact h.grant hq g _
  · by_cases hgen : gen = w.q.gen
    · exact h.broadcast (by simp [Quota.releaseAt, hgen, Quota.broadcast]) _ _
    · have hsame : w.q.releaseAt gen = w.q := if_neg hgen
      rw [hsame]
      exact h
  · exact h.broadcast (by simp [Quota.reset, Quota.broadcast]) _ _
  · exact h.broadcast (by simp [Quota.fail, Quota.broadcast]) _ _

theorem awake_run {n : Int} {ok : World → Act → Prop} {as : List Act} {w : World}
    (hrun : Run step ok (init n) as w) : Awake w :=
  hrun.invariant (P := Awake) (fun _ _ h => by simp [init] at h) fun _ _ _ h _ hs => h.step hs

/-- Whoever waits has a channel that is closed already, or else no permit is free and
the quota has not failed; so nobody sleeps on while there is something to wake up for. -/
theorem no_wakeup_lost (n : Int) {as : List Act} {w : World}
    (hrun : Run step anyStep (init n) as w) {g wake : Nat} (hg : w.pcs g = .waiting wake) :
    (w.closed wake = true ∨ (w.q.failed = false ∧ ¬ 0 < w.q.avail)) ∧
    ((w.q.failed = true ∨ 0 < w.q.avail) →
      step w (.woken g) = some (w.setPc g .checking)) := by
  have hinv : Awake w := awake_run hrun
  obtain ⟨hle, hsame⟩ := hinv g wake hg
  have hclosed : w.closed wake = true ∨ (w.q.failed = false ∧ ¬ 0 < w.q.avail) := by
    unfold World.closed
    rcases Nat.lt_or_eq_of_le hle with hlt | heq
    · exact .inl (decide_eq_true hlt)
    · obtain ⟨hf, hv⟩ := hsame heq
      exact .inr ⟨hf, by omega⟩
  refine ⟨hclosed, fun hwork => ?_⟩
  rcases hclosed with hclosed | ⟨hf, hv⟩
  · simp only [step, hg, hclosed, if_true]
  · rcases hwork with hfailed | hpos
    · rw [hf] at hfailed
      cases hfailed
    · exact absurd hpos hv

/-- Two wait for a permit; it is released and taken by a third before they look. -/
def takenInBetween : List Act :=
  [.call 0, .check 0, .call 1, .check 1, .call 2, .check 2, .releaseAt 0, .call 3, .check 3,
   .woken 1, .check 1]

theorem no_wakeup_lost_takenInBetween :
    ∃ w, Run step anyStep (init 1) takenInBetween w ∧ w.pcs 1 = .waiting 1 ∧ w.pcs 2 = .waiting 0 ∧
      w.closed 0 = true ∧ (w.closed 1 = true ∨ (w.q.failed = false ∧ ¬ 0 < w.q.avail)) := by
  have hpcs : (execOk step anyStep (init 1) takenInBetween).map
      (fun w => (w.pcs 1, w.pcs 2, w.closed 0)) = some (.waiting 1, .waiting 0, true) := by
    decide +kernel
  obtain ⟨w, hw, hpcs⟩ := Option.map_eq_some_iff.mp hpcs
  simp only [Prod.mk.injEq] at hpcs
  obtain ⟨h1, h2, h0⟩ := hpcs
  exact ⟨w, Run.of_execOk hw, h1, h2, h0, (no_wakeup_lost 1 (Run.of_execOk hw) h1).1⟩

end GoMqtt.Session.Semaphore
