import Mathlib.Algebra.Order.Ring.Nat
import Mathlib.Algebra.Order.Ring.Int
import Mathlib.Tactic.Ring
import GoMqtt.Lib.Run
import GoMqtt.Reconnect.Backoff

/-! # Retrying the first connect

`ConnectWithRetry` calls `Start` until it succeeds, its context is done, or the attempts
are used up. It waits between two attempts, each time twice as long as before up to a
maximum. What `Start` returns and when the context ends is up to the environment. -/
namespace GoMqtt.Reconnect
open GoMqtt.Lib

/-- The logger has no part in what is returned. -/
structure RetryConfig where
  initialBackoff : Int := 0
  maxBackoff : Int := 0
  maxAttempts : Int := 0
  deriving DecidableEq, Repr

/-- `initial`, as `ConnectWithRetry` has it. -/
def RetryConfig.initial (cfg : RetryConfig) : Int :=
  if cfg.initialBackoff ≤ 0 then 1000000000 else cfg.initialBackoff

/-- `maxBackoff`, as `ConnectWithRetry` has it in the end. -/
def RetryConfig.most (cfg : RetryConfig) : Int :=
  let most := if cfg.maxBackoff ≤ 0 then 30000000000 else cfg.maxBackoff
  if most < cfg.initial then cfg.initial else most

variable {ε : Type}

/-- What `ConnectWithRetry` returns. -/
inductive RetryResult (ε : Type)
  | connected
  | ctxErr
  | gaveUp (attempts : Nat) (cause : ε)
  deriving DecidableEq, Repr

inductive RetryPc (ε : Type)
  | starting
  | waiting
  | returned (result : RetryResult ε)
  deriving DecidableEq, Repr

structure Retry (ε : Type) where
  cfg : RetryConfig
  attempt : Nat := 1
  backoff : Int
  ctxDone : Bool := false
  pc : RetryPc ε := .starting

/-- The context ends; `Start` returns; the wait ends, by the timer or by the context. -/
inductive RetryEvent (ε : Type)
  | cancel
  | started (err : Option ε)
  | timer
  | done
  deriving DecidableEq, Repr

def Retry.init (cfg : RetryConfig) : Retry ε := { cfg, backoff := cfg.initial }

/-- No further attempt is allowed. -/
def Retry.exhausted (r : Retry ε) : Bool :=
  0 < r.cfg.maxAttempts && r.cfg.maxAttempts ≤ r.attempt

/-- The loop after `Start` has failed, up to the wait. -/
def Retry.failed (r : Retry ε) (err : ε) : Retry ε :=
  if r.ctxDone then { r with pc := .returned .ctxErr }
  else if r.exhausted then { r with pc := .returned (.gaveUp r.attempt err) }
  else { r with pc := .waiting }

/-- The next round. -/
def Retry.again (r : Retry ε) : Retry ε :=
  { r with
    backoff := min (wrap64 (r.backoff * 2)) r.cfg.most
    attempt := r.attempt + 1
    pc := .starting }

def connectWithRetry (r : Retry ε) : RetryEvent ε → Option (Retry ε)
  | .cancel => some { r with ctxDone := true }
  | .started err =>
    match r.pc, err with
    | .starting, none => some { r with pc := .returned .connected }
    | .starting, some err => some (r.failed err)
    | _, _ => none
  | .timer =>
    match r.pc with
    | .waiting => some r.again
    | _ => none
  | .done =>
    match r.pc with
    | .waiting => if r.ctxDone then some { r with pc := .returned .ctxErr } else none
    | _ => none

/-- A step leaves the configuration, and either the back-off with the attempt, or it is
the end of a wait. -/
theorem connectWithRetry_cases {r r' : Retry ε} {e : RetryEvent ε}
    (h : connectWithRetry r e = some r') : r'.cfg = r.cfg ∧
      ((r'.backoff = r.backoff ∧ r'.attempt = r.attempt ∧
          (r'.pc = .waiting → r.pc = .waiting ∨ r.exhausted = false)) ∨
        (r.pc = .waiting ∧ r'.backoff = min (wrap64 (r.backoff * 2)) r.cfg.most ∧
          r'.attempt = r.attempt + 1 ∧ r'.pc = .starting)) := by
  cases e with
  | cancel =>
    cases h
    exact ⟨rfl, .inl ⟨rfl, rfl, .inl⟩⟩
  | started err =>
    simp only [connectWithRetry] at h
    split at h
    · cases h
      exact ⟨rfl, .inl ⟨rfl, rfl, fun h => by cases h⟩⟩
    · cases h
      unfold Retry.failed
      split
      · exact ⟨rfl, .inl ⟨rfl, rfl, fun h => by cases h⟩⟩
      · split
        · exact ⟨rfl, .inl ⟨rfl, rfl, fun h => by cases h⟩⟩
        · rename_i hex
          exact ⟨rfl, .inl ⟨rfl, rfl, fun _ => .inr (by simpa using hex)⟩⟩
    · cases h
  | timer =>
    simp only [connectWithRetry] at h
    split at h
    · rename_i hpc
      cases h
      exact ⟨rfl, .inr ⟨hpc, rfl, rfl, rfl⟩⟩
    · cases h
  | done =>
    simp only [connectWithRetry] at h
    split at h
    · split at h
      · cases h
        exact ⟨rfl, .inl ⟨rfl, rfl, fun h => by cases h⟩⟩
      · cases h
    · cases h

/-! ## The range of the back-off -/

theorem RetryConfig.ordered (cfg : RetryConfig) : 0 < cfg.initial ∧ cfg.initial ≤ cfg.most := by
  simp only [RetryConfig.most, RetryConfig.initial]
  refine ⟨?_, ?_⟩
  · split <;> omega
  · split <;> omega

/-- Twice the maximum is a duration, or the attempts end before the back-off gets past
the range. -/
def RetryConfig.Fits (cfg : RetryConfig) : Prop :=
  cfg.most ≤ maxInt64 / 2 ∨
    (0 < cfg.maxAttempts ∧ cfg.initial * 2 ^ (cfg.maxAttempts.toNat - 1) ≤ maxInt64)

/-- At attempt `n` the back-off has been doubled `n - 1` times, and a wait is always
before an attempt that is allowed. -/
structure Retry.Paced (r : Retry ε) : Prop where
  attempt : 1 ≤ r.attempt
  low : r.cfg.initial ≤ r.backoff
  high : r.backoff ≤ r.cfg.most
  doubled : r.backoff ≤ r.cfg.initial * 2 ^ (r.attempt - 1)
  more : r.pc = .waiting → r.exhausted = false

theorem Retry.paced_init (cfg : RetryConfig) : (Retry.init cfg : Retry ε).Paced where
  attempt := Nat.le_refl _
  low := Int.le_refl _
  high := cfg.ordered.2
  doubled := by simp [Retry.init]
  more h := by cases h

/-- The value doubled at the end of a wait is in the lower half of the range. -/
theorem Retry.Paced.fits {r : Retry ε} (h : Paced r) (hfits : r.cfg.Fits) (hpc : r.pc = .waiting) :
    r.backoff ≤ maxInt64 / 2 := by
  rcases hfits with hmost | ⟨hpos, hlast⟩
  · exact Int.le_trans h.high hmost
  · have hmore := h.more hpc
    simp only [Retry.exhausted, Bool.and_eq_false_iff, decide_eq_false_iff_not] at hmore
    have hattempt := h.attempt
    have hlt : r.attempt ≤ r.cfg.maxAttempts.toNat - 1 := by omega
    have hpow : (2 : Int) ^ r.attempt ≤ 2 ^ (r.cfg.maxAttempts.toNat - 1) :=
      pow_le_pow_right₀ (by omega) hlt
    have hle := mul_le_mul_of_nonneg_left hpow (Int.le_of_lt r.cfg.ordered.1)
    have hsucc : (2 : Int) ^ r.attempt = 2 * 2 ^ (r.attempt - 1) := by
      rw [← pow_succ', Nat.sub_add_cancel hattempt]
    have hdoubled := h.doubled
    rw [hsucc, Int.mul_left_comm] at hle
    omega

theorem Retry.Paced.step {r r' : Retry ε} {e : RetryEvent ε} (h : Paced r) (hfits : r.cfg.Fits)
    (hs : connectWithRetry r e = some r') : Paced r' ∧ r.backoff ≤ r'.backoff := by
  obtain ⟨hcfg, ⟨hb, ha, hmore⟩ | ⟨hpc, hb, ha, hpc'⟩⟩ := connectWithRetry_cases hs
  · have hex : r'.exhausted = r.exhausted := by simp only [Retry.exhausted, hcfg, ha]
    refine ⟨⟨?_, ?_, ?_, ?_, ?_⟩, Int.le_of_eq hb.symm⟩
    · rw [ha]
      exact h.attempt
    · rw [hb, hcfg]
      exact h.low
    · rw [hb, hcfg]
      exact h.high
    · rw [hb, hcfg, ha]
      exact h.doubled
    · intro hw
      rw [hex]
      rcases hmore hw with hpc | hex
      · exact h.more hpc
      · exact hex
  · obtain ⟨hpos, hle⟩ := r.cfg.ordered
    have hlow := h.low
    have hhigh := h.high
    have hdoubled := h.doubled
    rw [wrap64_double (by omega) (h.fits hfits hpc)] at hb
    refine ⟨⟨by omega, ?_, ?_, ?_, ?_⟩, by omega⟩
    · rw [hb, hcfg]
      omega
    · rw [hb, hcfg]
      omega
    · have hsucc : (2 : Int) ^ (r.attempt + 1 - 1) = 2 * 2 ^ (r.attempt - 1) := by
        rw [← pow_succ', Nat.sub_add_cancel h.attempt, Nat.add_sub_cancel]
      rw [hb, hcfg, ha, hsucc, Int.mul_left_comm]
      omega
    · intro hw
      rw [hpc'] at hw
      cases hw

/-! ## Past the range -/

/-- A failed attempt and the wait after it. -/
theorem Retry.round {r : Retry ε} (err : ε) (hpc : r.pc = .starting) (hctx : r.ctxDone = false)
    (hmore : r.exhausted = false) :
    Run connectWithRetry anyStep r [.started (some err), .timer] r.again := by
  refine run_iff_exec.mpr ?_
  simp [exec, connectWithRetry, hpc, Retry.failed, hctx, hmore, Retry.again]

/-- After `n` failures that the attempts allow, as long as nothing wraps. -/
theorem Retry.failures (cfg : RetryConfig) (err : ε) (n : Nat)
    (hrange : cfg.initial * 2 ^ n ≤ maxInt64)
    (hmore : 0 < cfg.maxAttempts → (n : Int) < cfg.maxAttempts) :
    ∃ es, ∃ r : Retry ε, Run connectWithRetry anyStep (Retry.init cfg) es r ∧ r.cfg = cfg ∧
      r.attempt = n + 1 ∧ r.backoff = min (cfg.initial * 2 ^ n) cfg.most ∧ r.pc = .starting ∧
      r.ctxDone = false := by
  obtain ⟨hpos, hle⟩ := cfg.ordered
  induction n with
  | zero =>
    refine ⟨[], _, .nil, rfl, rfl, ?_, rfl, rfl⟩
    rw [pow_zero, mul_one, Int.min_eq_left hle]
    rfl
  | succ n ih =>
    rw [pow_succ, ← mul_assoc] at hrange ⊢
    have hbase : 0 < cfg.initial * 2 ^ n := Int.mul_pos hpos (Int.pow_pos (by omega))
    obtain ⟨es, r, hrun, hcfg, ha, hb, hpc, hctx⟩ := ih (by omega) (by omega)
    have hex : r.exhausted = false := by
      simp only [Retry.exhausted, hcfg, ha, Bool.and_eq_false_iff, decide_eq_false_iff_not]
      omega
    refine ⟨_, r.again, hrun.append (r.round err hpc hctx hex), hcfg, ?_, ?_, rfl, hctx⟩
    · simp only [Retry.again, ha]
    · have hdouble : wrap64 (r.backoff * 2) = r.backoff * 2 := by
        refine wrap64_double ?_ ?_
        · omega
        · omega
      simp only [Retry.again, hdouble, hcfg]
      omega

/-- The first power of two that takes the back-off past the range. -/
theorem exists_first_past {initial : Int} (hpos : 0 < initial) (hle : initial ≤ maxInt64) :
    ∃ n, initial * 2 ^ n ≤ maxInt64 ∧ maxInt64 < initial * 2 ^ (n + 1) := by
  have hex : ∃ m, maxInt64 < initial * 2 ^ m := by
    refine ⟨63, ?_⟩
    unfold maxInt64
    omega
  obtain ⟨n, hn⟩ : ∃ n, Nat.find hex = n + 1 := by
    refine Nat.exists_eq_succ_of_ne_zero ?_
    intro h0
    have hspec := Nat.find_spec hex
    rw [h0, pow_zero, mul_one] at hspec
    omega
  refine ⟨n, ?_, ?_⟩
  · exact Int.not_lt.mp (Nat.find_min hex (by omega))
  · rw [← hn]
    exact Nat.find_spec hex

/-- Otherwise enough failures make the back-off negative. -/
theorem Retry.leaves_range {cfg : RetryConfig} (err : ε) (hinitial : cfg.initial ≤ maxInt64)
    (hmost : cfg.most ≤ maxInt64) (hfits : ¬ cfg.Fits) :
    ∃ es, ∃ r : Retry ε, Run connectWithRetry anyStep (Retry.init cfg) es r ∧ r.cfg = cfg ∧
      r.backoff < 0 := by
  obtain ⟨hpos, hle⟩ := cfg.ordered
  unfold RetryConfig.Fits at hfits
  obtain ⟨hhalf, hlast⟩ := not_or.mp hfits
  obtain ⟨n, hin, hpast⟩ := exists_first_past hpos hinitial
  -- the last attempt allowed comes after the doubling that wraps
  have hmore : 0 < cfg.maxAttempts → (n : Int) + 1 < cfg.maxAttempts := by
    intro hA
    by_contra hge
    refine hlast ⟨hA, Int.le_trans ?_ hin⟩
    have hpow : (2 : Int) ^ (cfg.maxAttempts.toNat - 1) ≤ 2 ^ n :=
      pow_le_pow_right₀ (by omega) (by omega)
    exact mul_le_mul_of_nonneg_left hpow (Int.le_of_lt hpos)
  obtain ⟨es, r, hrun, hcfg, ha, hb, hpc, hctx⟩ := Retry.failures cfg err n hin (by omega)
  have hex : r.exhausted = false := by
    simp only [Retry.exhausted, hcfg, ha, Bool.and_eq_false_iff, decide_eq_false_iff_not]
    omega
  refine ⟨_, r.again, hrun.append (r.round err hpc hctx hex), hcfg, ?_⟩
  rw [pow_succ, ← mul_assoc] at hpast
  have hneg : wrap64 (r.backoff * 2) < 0 := wrap64_double_neg (by omega) (by omega)
  simp only [Retry.again]
  omega

/-- Whatever `Start` returns: the back-off is between its bounds, and one failure after
another never makes it less. -/
def RetryConfig.InRange (ε : Type) (cfg : RetryConfig) : Prop :=
  ∀ es, ∀ r : Retry ε, Run connectWithRetry anyStep (Retry.init cfg) es r →
    cfg.initial ≤ r.backoff ∧ r.backoff ≤ cfg.most ∧
    ∀ es', ∀ r' : Retry ε, Run connectWithRetry anyStep r es' r' → r.backoff ≤ r'.backoff

theorem RetryConfig.inRange_of_fits {cfg : RetryConfig} (hfits : cfg.Fits) : cfg.InRange ε := by
  have hstep : ∀ (r : Retry ε) e r', (r.cfg = cfg ∧ r.Paced) → connectWithRetry r e = some r' →
      (r'.cfg = cfg ∧ r'.Paced) ∧ r.backoff ≤ r'.backoff := by
    intro r e r' hr hs
    obtain ⟨hcfg, hpaced⟩ := hr
    obtain ⟨hpaced', hle⟩ := hpaced.step (by rwa [hcfg]) hs
    exact ⟨⟨(connectWithRetry_cases hs).1.trans hcfg, hpaced'⟩, hle⟩
  intro es r hrun
  have hr : r.cfg = cfg ∧ r.Paced :=
    hrun.invariant (P := fun r : Retry ε => r.cfg = cfg ∧ r.Paced) ⟨rfl, Retry.paced_init cfg⟩
      fun r e r' h _ hs => (hstep r e r' h hs).1
  have hlow := hr.2.low
  have hhigh := hr.2.high
  rw [hr.1] at hlow hhigh
  refine ⟨hlow, hhigh, ?_⟩
  intro es' r' hrun'
  have hr' : (r'.cfg = cfg ∧ r'.Paced) ∧ r.backoff ≤ r'.backoff := by
    refine hrun'.invariant (P := fun r' : Retry ε =>
      (r'.cfg = cfg ∧ r'.Paced) ∧ r.backoff ≤ r'.backoff) ⟨hr, Int.le_refl _⟩ ?_
    intro t e u ht _ hs
    obtain ⟨hu, hle⟩ := hstep t e u ht.1 hs
    exact ⟨hu, Int.le_trans ht.2 hle⟩
  exact hr'.2

theorem RetryConfig.inRange_iff [Nonempty ε] {cfg : RetryConfig}
    (hinitial : cfg.initialBackoff ≤ maxInt64) (hmost : cfg.maxBackoff ≤ maxInt64) :
    cfg.InRange ε ↔ cfg.Fits := by
  refine ⟨?_, RetryConfig.inRange_of_fits⟩
  intro hin
  by_contra hfits
  obtain ⟨err⟩ := ‹Nonempty ε›
  have hinitial' : cfg.initial ≤ maxInt64 := by
    unfold RetryConfig.initial maxInt64 at *
    split <;> omega
  have hmost' : cfg.most ≤ maxInt64 := by
    simp only [RetryConfig.most]
    unfold maxInt64 at *
    split <;> omega
  obtain ⟨es, r, hrun, -, hneg⟩ := Retry.leaves_range err hinitial' hmost' hfits
  have hlow := (hin es r hrun).1
  have hpos := cfg.ordered.1
  omega

end GoMqtt.Reconnect
