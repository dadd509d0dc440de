import GoMqtt.Session.Semaphore

/-! # A drop and the senders it finds parked

`fail` wakes every goroutine parked in `acquire`, and both functions are documented to
make each of them return `ErrConnectionLost`. A woken goroutine looks at the quota again
only when it is scheduled, and `reset` clears the failed state: what the call returns is
decided by which of the two ran last before that look. -/
namespace GoMqtt.Session.Semaphore
open GoMqtt.Lib

/-- How a call of `acquire` ends. -/
inductive Outcome
  | granted (gen : Nat)
  | connectionLost
  | ctxErr
  deriving DecidableEq, Repr

/-- What the call that goroutine `g` is in returns in a step, if it returns there. -/
def returns (w : World) (g : Nat) : Act → Option Outcome
  | .check g' =>
    if g' = g ∧ w.pcs g = .checking then
      match w.q.acquire.1 with
      | .lost => some .connectionLost
      | .granted gen => some (.granted gen)
      | .park _ => none
    else none
  | .cancelled g' =>
    match w.pcs g with
    | .waiting _ => if g' = g then some .ctxErr else none
    | _ => none
  | _ => none

/-- The call that `g` is in goes on. -/
def Unreturned (g : Nat) (w : World) (a : Act) : Prop := returns w g a = none

instance (g : Nat) (w : World) (a : Act) : Decidable (Unreturned g w a) :=
  inferInstanceAs (Decidable (_ = _))

/-- The failed state after a step. -/
def stillFailed (failed : Bool) : Act → Bool
  | .fail => true
  | .reset _ => false
  | _ => failed

/-- Of the drops and reconnects in the list the last is a drop, one having come just
before the list. -/
def dropLast (as : List Act) : Bool := as.foldl stillFailed true

theorem stillFailed_of_caller {a : Act} {g : Nat} (h : a.caller = some g) (failed : Bool) :
    stillFailed failed a = failed := by
  cases a with
  | call | check | woken | cancelled => rfl
  | releaseAt | reset | fail => cases h

/-! ## What a step does to the quota -/

theorem failed_step {w u : World} {a : Act} (hs : step w a = some u) :
    u.q.failed = stillFailed w.q.failed a := by
  rcases step_cases hs with ⟨g, pc, hg, rfl, -⟩ | ⟨g, gen, q, rfl, hq, rfl⟩ | ⟨gen, rfl, rfl⟩ |
    ⟨n, rfl, rfl⟩ | ⟨rfl, rfl⟩
  · rw [stillFailed_of_caller hg]
    rfl
  · obtain ⟨-, -, -, rfl⟩ := Quota.acquire_granted hq
    rfl
  · exact Quota.failed_releaseAt w.q gen
  · rfl
  · rfl

theorem gen_step {w u : World} {a : Act} (hs : step w a = some u) :
    w.q.gen ≤ u.q.gen ∧ ∀ n, a = .reset n → w.q.gen < u.q.gen := by
  rcases step_cases hs with ⟨g, pc, hg, rfl, -⟩ | ⟨g, gen, q, rfl, hq, rfl⟩ | ⟨gen, rfl, rfl⟩ |
    ⟨n, rfl, rfl⟩ | ⟨rfl, rfl⟩
  · refine ⟨Nat.le_refl _, ?_⟩
    intro n heq
    subst heq
    cases hg
  · obtain ⟨-, -, -, rfl⟩ := Quota.acquire_granted hq
    exact ⟨Nat.le_refl _, fun _ heq => by cases heq⟩
  · exact ⟨Nat.le_of_eq (Quota.gen_releaseAt w.q gen).symm, fun _ heq => by cases heq⟩
  · exact ⟨Nat.le_succ _, fun _ _ => Nat.lt_succ_self _⟩
  · exact ⟨Nat.le_refl _, fun _ heq => by cases heq⟩

theorem failed_run {ok : World → Act → Prop} {w u : World} {as : List Act}
    (hrun : Run step ok w as u) : u.q.failed = as.foldl stillFailed w.q.failed := by
  induction hrun with
  | nil => rfl
  | snoc _ _ hs ih =>
    rw [failed_step hs, ih, List.foldl_append]
    rfl

/-- Since a drop under `gen`: only a reset lets the quota grant again, and then under a
later generation. -/
structure SinceDrop (gen : Nat) (w : World) : Prop where
  gen_le : gen ≤ w.q.gen
  reseeded : w.q.failed = false → gen < w.q.gen

theorem SinceDrop.step {gen : Nat} {w u : World} {a : Act} (h : SinceDrop gen w)
    (hs : step w a = some u) : SinceDrop gen u := by
  obtain ⟨hle, hlt⟩ := gen_step hs
  refine ⟨Nat.le_trans h.gen_le hle, ?_⟩
  intro hf
  rw [failed_step hs] at hf
  cases a with
  | reset n => exact Nat.lt_of_le_of_lt h.gen_le (hlt n rfl)
  | fail => cases hf
  | call | check | woken | cancelled | releaseAt => exact Nat.lt_of_lt_of_le (h.reseeded hf) hle

/-! ## What a step does to a call -/

theorem World.setPc_inside {w : World} {g g' : Nat} {pc : Pc} (hin : w.pcs g ≠ .outside)
    (hpc : g' = g → pc ≠ .outside) : (w.setPc g' pc).pcs g ≠ .outside := by
  by_cases hg : g = g'
  · subst hg
    simpa only [World.setPc, Function.update_self] using hpc rfl
  · simpa only [World.setPc, Function.update_of_ne hg] using hin

/-- A goroutine leaves `acquire` only by a return. -/
theorem inside_step {w u : World} {a : Act} {g : Nat} (hs : step w a = some u)
    (hin : w.pcs g ≠ .outside) (hret : Unreturned g w a) : u.pcs g ≠ .outside := by
  unfold Unreturned at hret
  cases a with
  | call g' =>
    simp only [step] at hs
    split at hs
    · cases hs
      exact World.setPc_inside hin (by simp)
    · cases hs
  | check g' =>
    simp only [step] at hs
    split at hs
    · rename_i hpc
      split at hs
      all_goals
        rename_i hq
        cases hs
        refine World.setPc_inside hin fun heq => ?_
        subst heq
        simp [returns, hpc, hq] at hret ⊢
    · cases hs
  | woken g' =>
    simp only [step] at hs
    split at hs
    · split at hs
      · cases hs
        exact World.setPc_inside hin (by simp)
      · cases hs
    · cases hs
  | cancelled g' =>
    simp only [step] at hs
    split at hs
    · rename_i wake hpc
      cases hs
      refine World.setPc_inside hin fun heq => ?_
      subst heq
      simp [returns, hpc] at hret
    · cases hs
  | releaseAt | reset | fail =>
    cases hs
    exact hin

/-- What a call returns at the lock is what the quota says there; behind the lock only
its context makes it return. -/
theorem returns_cases {w : World} {g : Nat} {a : Act} {o : Outcome} (h : returns w g a = some o) :
    (a = .check g ∧ w.pcs g = .checking ∧
      ((o = .connectionLost ∧ w.q.failed = true) ∨
        (o = .granted w.q.gen ∧ w.q.failed = false))) ∨
    (a = .cancelled g ∧ o = .ctxErr) := by
  cases a with
  | check g' =>
    simp only [returns] at h
    split at h
    · rename_i hg
      obtain ⟨rfl, hpc⟩ := hg
      refine .inl ⟨rfl, hpc, ?_⟩
      obtain ⟨r, q, hq⟩ : ∃ r q, w.q.acquire = (r, q) := ⟨_, _, rfl⟩
      rw [hq] at h
      cases r with
      | lost =>
        cases h
        have hq' := Quota.acquire_refused hq (by simp)
        subst hq'
        exact .inl ⟨rfl, Quota.acquire_lost.mp hq⟩
      | granted gen =>
        cases h
        obtain ⟨hf, -, rfl, -⟩ := Quota.acquire_granted hq
        exact .inr ⟨rfl, hf⟩
      | park wake => cases h
    · cases h
  | cancelled g' =>
    simp only [returns] at h
    split at h
    · split at h
      · rename_i heq
        cases h
        exact .inr ⟨by rw [heq], rfl⟩
      · cases h
    · cases h
  | call | woken | releaseAt | reset | fail => cases h

/-- At the lock of a failed quota. -/
theorem check_failed {w : World} {g : Nat} (hpc : w.pcs g = .checking)
    (hf : w.q.failed = true) : step w (.check g) = some (w.setPc g .outside) ∧
      returns w g (.check g) = some .connectionLost := by
  have hq := Quota.acquire_lost.mpr hf
  exact ⟨by simp [step, hpc, hq], by simp [returns, hpc, hq]⟩

/-- Nobody is left waiting on an open channel of a failed quota. -/
theorem woken_failed {w : World} (h : Awake w) {g wake : Nat}
    (hg : w.pcs g = .waiting wake) (hf : w.q.failed = true) :
    step w (.woken g) = some (w.setPc g .checking) := by
  obtain ⟨hle, hsame⟩ := h g wake hg
  have hlt : wake < w.q.wake := by
    rcases Nat.lt_or_eq_of_le hle with hlt | heq
    · exact hlt
    · rw [(hsame heq).1] at hf
      cases hf
  simp only [step, hg, World.closed, decide_eq_true hlt, if_true]

/-! ## The drop -/

/-- A goroutine is parked when `fail` runs, and any steps follow in which its call has
not returned. If it returns now, that is with `ErrConnectionLost` or its context's error
exactly if its context ended it or no reset has come since the last `fail`; a permit it is
granted belongs to a later generation than the one it waited in. Where no reset has come
since, it can go to the lock and lose there. -/
theorem drop_fails_parked (n : Int) {as bs : List Act} {w u : World} {g wake : Nat}
    (hrun : Run step anyStep (init n) as w) (hg : w.pcs g = .waiting wake)
    (hrest : Run step (Unreturned g) { w with q := w.q.fail } bs u) :
    (∀ a o, returns u g a = some o →
      (o = .connectionLost ∨ o = .ctxErr ↔ a = .cancelled g ∨ dropLast bs = true)) ∧
    (∀ a gen, returns u g a = some (.granted gen) → w.q.gen < gen) ∧
    (dropLast bs = true → ∃ cs v, (cs = [] ∨ cs = [.woken g]) ∧ Run step (Unreturned g) u cs v ∧
      step v (.check g) = some (v.setPc g .outside) ∧
      returns v g (.check g) = some .connectionLost) := by
  have hfail : step w .fail = some { w with q := w.q.fail } := rfl
  have hawake : Awake u := awake_run ((hrun.snoc trivial hfail).append hrest.any)
  have hfailed : u.q.failed = dropLast bs := failed_run hrest
  have hsince : SinceDrop w.q.gen u :=
    hrest.invariant (P := SinceDrop w.q.gen) ⟨Nat.le_refl _, fun h => by cases h⟩
      fun _ _ _ h _ hs => h.step hs
  have hin : u.pcs g ≠ .outside :=
    hrest.invariant (P := fun v => v.pcs g ≠ .outside) (by simp [hg])
      fun _ _ _ h hret hs => inside_step hs h hret
  refine ⟨?_, ?_, ?_⟩
  · intro a o ho
    rcases returns_cases ho with ⟨rfl, -, ⟨rfl, hf⟩ | ⟨rfl, hf⟩⟩ | ⟨rfl, rfl⟩
    · simp [← hfailed, hf]
    · simp [← hfailed, hf]
    · simp
  · intro a gen ho
    rcases returns_cases ho with ⟨-, -, ⟨heq, -⟩ | ⟨heq, hf⟩⟩ | ⟨-, heq⟩
    · cases heq
    · cases heq
      exact hsince.reseeded hf
    · cases heq
  · intro hdown
    have hf : u.q.failed = true := hfailed.trans hdown
    cases hpc : u.pcs g with
    | outside => exact absurd hpc hin
    | checking => exact ⟨[], u, .inl rfl, .nil, check_failed hpc hf⟩
    | waiting wake' =>
      have hwoken := woken_failed hawake hpc hf
      have hrun' : Run step (Unreturned g) u ([] ++ [.woken g]) _ := .snoc .nil rfl hwoken
      refine ⟨[.woken g], _, .inr rfl, hrun', ?_⟩
      exact check_failed (by simp [World.setPc]) hf

/-- The second of two waits for the only permit; the connection drops, comes back and
drops again before it is scheduled. -/
theorem drop_fails_parked_twice :
    ∃ w u, Run step anyStep (init 1) [.call 0, .check 0, .call 1, .check 1] w ∧
      w.pcs 1 = .waiting 0 ∧
      Run step (Unreturned 1) { w with q := w.q.fail }
        [.reset 1, .fail, .call 2, .check 2, .woken 1] u ∧
      returns u 1 (.check 1) = some .connectionLost ∧
      (Act.check 1 = .cancelled 1 ∨
        dropLast [.reset 1, .fail, .call 2, .check 2, .woken 1] = true) := by
  have hview : ((exec step (init 1) [.call 0, .check 0, .call 1, .check 1]).bind fun w =>
      (execOk step (Unreturned 1) { w with q := w.q.fail }
        [.reset 1, .fail, .call 2, .check 2, .woken 1]).map fun u =>
      (w.pcs 1, returns u 1 (.check 1))) = some (.waiting 0, some .connectionLost) := by
    decide +kernel
  obtain ⟨w, hw, hview⟩ := Option.bind_eq_some_iff.mp hview
  obtain ⟨u, hu, hview⟩ := Option.map_eq_some_iff.mp hview
  simp only [Prod.mk.injEq] at hview
  have hrun := run_iff_exec.mpr hw
  have hrest := Run.of_execOk hu
  obtain ⟨hends, -, -⟩ := drop_fails_parked 1 hrun hview.1 hrest
  exact ⟨w, u, hrun, hview.1, hrest, hview.2, (hends _ _ hview.2).mp (.inl rfl)⟩

/-- The quota has no permit. A caller parks, the connection drops and is back with one
permit before the caller is scheduled: it is granted a permit of the next generation. -/
theorem parked_across_reconnect :
    ∃ w u, Run step anyStep (init 0) [.call 0, .check 0] w ∧ w.pcs 0 = .waiting 0 ∧
      Run step (Unreturned 0) { w with q := w.q.fail } [.reset 1, .woken 0] u ∧
      w.q.gen = 0 ∧ returns u 0 (.check 0) = some (.granted 1) := by
  have hview : ((exec step (init 0) [.call 0, .check 0]).bind fun w =>
      (execOk step (Unreturned 0) { w with q := w.q.fail } [.reset 1, .woken 0]).map fun u =>
      (w.pcs 0, w.q.gen, returns u 0 (.check 0))) =
        some (.waiting 0, 0, some (.granted 1)) := by decide +kernel
  obtain ⟨w, hw, hview⟩ := Option.bind_eq_some_iff.mp hview
  obtain ⟨u, hu, hview⟩ := Option.map_eq_some_iff.mp hview
  simp only [Prod.mk.injEq] at hview
  exact ⟨w, u, run_iff_exec.mpr hw, hview.1, Run.of_execOk hu, hview.2⟩

end GoMqtt.Session.Semaphore
