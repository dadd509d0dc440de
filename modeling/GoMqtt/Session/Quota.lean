import Mathlib.Algebra.Order.Ring.Int

/-! # The send quota

`quota` is the counting semaphore that bounds the QoS>0 sends in flight. A
permit is granted under a generation, `reset` starts a new one, and a release
presents the generation it was granted under. `wake` numbers the broadcast
channel: every channel before the current one is closed. -/
namespace GoMqtt.Session

structure Quota where
  avail : Int
  gen : Nat
  failed : Bool
  wake : Nat
  deriving DecidableEq, Repr

namespace Quota

def new (n : Int) : Quota := ⟨n, 0, false, 0⟩

/-- What one round of `acquire` finds under the lock. -/
inductive Round
  | lost
  | granted (gen : Nat)
  | park (wake : Nat)
  deriving DecidableEq, Repr

/-- One locked round of `acquire`. A parked caller waits for its context or for
the channel it captured and then tries again. -/
def acquire (q : Quota) : Round × Quota :=
  if q.failed then (.lost, q)
  else if q.avail > 0 then (.granted q.gen, { q with avail := q.avail - 1 })
  else (.park q.wake, q)

/-- Close the wake channel and make a new one. -/
def broadcast (q : Quota) : Quota := { q with wake := q.wake + 1 }

def releaseAt (q : Quota) (gen : Nat) : Quota :=
  if gen = q.gen then broadcast { q with avail := q.avail + 1 } else q

def reset (q : Quota) (n : Int) : Quota :=
  broadcast { q with avail := n, gen := q.gen + 1, failed := false }

def generation (q : Quota) : Nat := q.gen

def fail (q : Quota) : Quota := broadcast { q with failed := true }

/-! ## What callers see -/

@[simp] theorem avail_reset (q : Quota) (n : Int) : (q.reset n).avail = n := rfl
@[simp] theorem gen_reset (q : Quota) (n : Int) : (q.reset n).gen = q.gen + 1 := rfl
@[simp] theorem failed_reset (q : Quota) (n : Int) : (q.reset n).failed = false := rfl
@[simp] theorem avail_fail (q : Quota) : q.fail.avail = q.avail := rfl
@[simp] theorem gen_fail (q : Quota) : q.fail.gen = q.gen := rfl
@[simp] theorem failed_fail (q : Quota) : q.fail.failed = true := rfl

theorem avail_releaseAt (q : Quota) (gen : Nat) :
    (q.releaseAt gen).avail = if gen = q.gen then q.avail + 1 else q.avail := by
  unfold releaseAt broadcast
  split <;> rfl

@[simp] theorem gen_releaseAt (q : Quota) (gen : Nat) : (q.releaseAt gen).gen = q.gen := by
  unfold releaseAt broadcast
  split <;> rfl

@[simp] theorem failed_releaseAt (q : Quota) (gen : Nat) :
    (q.releaseAt gen).failed = q.failed := by
  unfold releaseAt broadcast
  split <;> rfl

/-- A caller is told of a lost connection exactly where the quota has failed. -/
theorem acquire_lost {q : Quota} : q.acquire = (.lost, q) ↔ q.failed = true := by
  unfold acquire
  split
  · rename_i hf
    exact ⟨fun _ => hf, fun _ => rfl⟩
  · rename_i hf
    split
    · exact ⟨fun h => (by cases h), fun h => absurd h hf⟩
    · exact ⟨fun h => (by cases h), fun h => absurd h hf⟩

/-- A permit is granted only by a quota that has not failed and has one free. -/
theorem acquire_granted {q q' : Quota} {gen : Nat} (h : q.acquire = (.granted gen, q')) :
    q.failed = false ∧ 0 < q.avail ∧ gen = q.gen ∧ q' = { q with avail := q.avail - 1 } := by
  unfold acquire at h
  split at h
  · cases h
  · split at h
    · rename_i hf ha
      cases h
      exact ⟨by simpa using hf, ha, rfl, rfl⟩
    · cases h

/-- A round that grants nothing leaves the quota alone. -/
theorem acquire_refused {q q' : Quota} {r : Round} (h : q.acquire = (r, q'))
    (hr : ∀ gen, r ≠ .granted gen) : q' = q := by
  unfold acquire at h
  split at h
  · cases h; rfl
  · split at h
    · cases h; exact absurd rfl (hr _)
    · cases h; rfl

/-- A caller parks on the current channel, and only where nothing is free. -/
theorem acquire_park {q q' : Quota} {wake : Nat} (h : q.acquire = (.park wake, q')) :
    wake = q.wake ∧ q.failed = false ∧ q.avail ≤ 0 := by
  unfold acquire at h
  split at h
  · cases h
  · split at h
    · cases h
    · rename_i hf ha
      cases h
      exact ⟨rfl, by simpa using hf, Int.not_lt.mp ha⟩

end Quota
end GoMqtt.Session
