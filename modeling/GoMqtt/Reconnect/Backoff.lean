import Mathlib.Data.Int.Basic

/-! # Back-off

The delays of the reconnect loop. Durations are signed 64-bit nanoseconds, and
arithmetic on them wraps. -/
namespace GoMqtt.Reconnect

/-- The value a signed 64-bit result takes. -/
def wrap64 (x : Int) : Int := x.bmod 18446744073709551616

def maxInt64 : Int := 9223372036854775807

/-- A result in range is what it is. -/
theorem wrap64_of_le {x : Int} (hlo : -maxInt64 - 1 ≤ x) (hhi : x ≤ maxInt64) : wrap64 x = x := by
  unfold maxInt64 at hlo hhi
  exact Int.bmod_eq_of_le (by omega) (by omega)

/-- A result past the range by less than its width comes out negative. -/
theorem wrap64_of_gt {x : Int} (hlo : maxInt64 < x) (hhi : x ≤ 2 * maxInt64) :
    wrap64 x = x - 18446744073709551616 := by
  unfold maxInt64 at hlo hhi
  unfold wrap64
  rw [← Int.sub_bmod_right]
  exact Int.bmod_eq_of_le (by omega) (by omega)

theorem wrap64_double {x : Int} (hlo : 0 ≤ x) (hhi : x ≤ maxInt64 / 2) :
    wrap64 (x * 2) = x * 2 := by
  refine wrap64_of_le ?_ ?_
  · unfold maxInt64
    omega
  · unfold maxInt64 at hhi ⊢
    omega

/-- Past half of the range a doubled value is negative. -/
theorem wrap64_double_neg {x : Int} (hlo : maxInt64 / 2 < x) (hhi : x ≤ maxInt64) :
    wrap64 (x * 2) < 0 := by
  rw [wrap64_of_gt (by unfold maxInt64 at hlo ⊢; omega) (by omega)]
  unfold maxInt64 at hhi
  omega

structure LifecycleConfig where
  initialBackoff : Int := 0
  maxBackoff : Int := 0
  jitter : Int := 0
  flapWindow : Int := 0
  deriving DecidableEq, Repr

def defaultLifecycle : LifecycleConfig where
  initialBackoff := 1000000000
  maxBackoff := 30000000000
  jitter := 500000000
  flapWindow := 10000000000

/-- The configuration `NewLifecycle` keeps: a negative flap window is left alone. -/
def newLifecycle (cfg : LifecycleConfig) : LifecycleConfig :=
  let initial := if cfg.initialBackoff ≤ 0 then defaultLifecycle.initialBackoff else cfg.initialBackoff
  let most := if cfg.maxBackoff ≤ 0 then defaultLifecycle.maxBackoff else cfg.maxBackoff
  { cfg with
    initialBackoff := initial
    maxBackoff := if most < initial then initial else most
    flapWindow := if cfg.flapWindow = 0 then defaultLifecycle.flapWindow else cfg.flapWindow }

namespace LifecycleConfig

/-- Jitter is off, or past what the random draw can span. -/
def steady (cfg : LifecycleConfig) : Bool := cfg.jitter ≤ 0 || maxInt64 / 2 < cfg.jitter

/-- What `rand.Int63n` may return. -/
def draws (cfg : LifecycleConfig) (draw : Int) : Bool :=
  cfg.steady || (0 ≤ draw && draw < wrap64 (cfg.jitter * 2))

def jittered (cfg : LifecycleConfig) (d draw : Int) : Int :=
  if cfg.steady then d else max (wrap64 (wrap64 (d + draw) - cfg.jitter)) (d.tdiv 2)

/-- The argument of `rand.Int63n`, where `jittered` gets to it. -/
def span (cfg : LifecycleConfig) : Option Int :=
  if cfg.steady then none else some (wrap64 (cfg.jitter * 2))

/-- The loop that doubles the flap delay, with the rounds it may still take. -/
def doubled (cfg : LifecycleConfig) : Nat → Int → Int
  | 0, delay => delay
  | n + 1, delay => if delay < cfg.maxBackoff then cfg.doubled n (wrap64 (delay * 2)) else delay

def flapDelay (cfg : LifecycleConfig) (flapStreak : Nat) : Int :=
  min (cfg.doubled (flapStreak - 1) cfg.initialBackoff) cfg.maxBackoff

/-- The back-off after a connect that failed. -/
def nextBackoff (cfg : LifecycleConfig) (backoff : Int) : Int :=
  min (wrap64 (backoff * 2)) cfg.maxBackoff

/-! ## Jitter -/

theorem steady_eq_false {cfg : LifecycleConfig} :
    cfg.steady = false ↔ 0 < cfg.jitter ∧ cfg.jitter ≤ maxInt64 / 2 := by
  simp only [steady, Bool.or_eq_false_iff, decide_eq_false_iff_not]
  omega

/-- The jitter that is drawn can be doubled. -/
theorem span_eq {cfg : LifecycleConfig} (h : cfg.steady = false) :
    wrap64 (cfg.jitter * 2) = cfg.jitter * 2 := by
  obtain ⟨hpos, hle⟩ := steady_eq_false.mp h
  exact wrap64_double (Int.le_of_lt hpos) hle

/-- Some draw is always possible. -/
theorem draws_zero (cfg : LifecycleConfig) : cfg.draws 0 = true := by
  unfold draws
  cases hsteady : cfg.steady with
  | true => rfl
  | false =>
    have hpos := (steady_eq_false.mp hsteady).1
    simp only [span_eq hsteady, Bool.false_or, Bool.and_eq_true, decide_eq_true_eq]
    omega

/-- The sum that is clamped is the sum of numbers, or it wrapped and is negative. -/
theorem spread_cases {d draw j : Int} (hd : 0 ≤ d) (hd' : d ≤ maxInt64) (hj : 0 < j)
    (hj' : j ≤ maxInt64 / 2) (hdraw : 0 ≤ draw) (hdraw' : draw < j * 2) :
    wrap64 (wrap64 (d + draw) - j) = d + draw - j ∨ wrap64 (wrap64 (d + draw) - j) < 0 := by
  have hsum : wrap64 (wrap64 (d + draw) - j) = wrap64 (d + draw - j) := Int.bmod_sub_bmod
  rw [hsum]
  unfold maxInt64 at hj'
  by_cases hfits : d + draw - j ≤ maxInt64
  · exact .inl (wrap64_of_le (by unfold maxInt64; omega) hfits)
  · right
    rw [wrap64_of_gt (by omega) (by unfold maxInt64 at hd' ⊢; omega)]
    unfold maxInt64 at hd'
    omega

/-- For every delay that is not negative, every jitter and every draw: the random draw is
asked for over a positive span only, and the delay that comes out is at least half of the
one that went in; it is that one, or less than it and the jitter together, or the half. -/
theorem jittered_in_range (cfg : LifecycleConfig) {d draw : Int} (hd : 0 ≤ d)
    (hd' : d ≤ maxInt64) (hdraw : cfg.draws draw = true) :
    (∀ n, cfg.span = some n → 0 < n) ∧ d.tdiv 2 ≤ cfg.jittered d draw ∧
      (cfg.jittered d draw = d ∨ cfg.jittered d draw < d + cfg.jitter ∨
        cfg.jittered d draw = d.tdiv 2) := by
  have hhalf : d.tdiv 2 = d / 2 := Int.tdiv_eq_ediv_of_nonneg hd
  cases hsteady : cfg.steady with
  | true =>
    refine ⟨?_, ?_, .inl ?_⟩
    · simp [span, hsteady]
    · simp only [jittered, hsteady, if_true, hhalf]
      omega
    · simp [jittered, hsteady]
  | false =>
    obtain ⟨hpos, hle⟩ := steady_eq_false.mp hsteady
    have hspan := span_eq hsteady
    simp only [draws, hsteady, Bool.false_or, Bool.and_eq_true, decide_eq_true_eq, hspan] at hdraw
    simp only [jittered, span, hsteady, Bool.false_eq_true, if_false, hspan, hhalf,
      Option.some.injEq]
    refine ⟨?_, Int.le_max_right _ _, ?_⟩
    · intro n hn
      omega
    · rcases spread_cases hd hd' hpos hle hdraw.1 hdraw.2 with heq | hneg
      · omega
      · omega

/-- The longest delay there is, with the widest jitter and the highest draw: the sum wraps,
and the delay is halved. -/
theorem jittered_in_range_longest :
    let cfg : LifecycleConfig := { jitter := maxInt64 / 2 }
    cfg.draws (maxInt64 - 2) = true ∧ cfg.jittered maxInt64 (maxInt64 - 2) = maxInt64 / 2 ∧
      maxInt64.tdiv 2 ≤ cfg.jittered maxInt64 (maxInt64 - 2) := by
  have hdraws : ({ jitter := maxInt64 / 2 } : LifecycleConfig).draws (maxInt64 - 2) = true := by
    decide
  exact ⟨hdraws, by decide, (jittered_in_range _ (by decide) (by decide) hdraws).2.1⟩

/-! ## Growth -/

/-- What `NewLifecycle` keeps is positive and in order. -/
theorem newLifecycle_ordered (cfg : LifecycleConfig) :
    0 < (newLifecycle cfg).initialBackoff ∧
      (newLifecycle cfg).initialBackoff ≤ (newLifecycle cfg).maxBackoff := by
  simp only [newLifecycle, defaultLifecycle]
  refine ⟨?_, ?_⟩
  · split <;> omega
  · split <;> omega

section growth

variable {cfg : LifecycleConfig} (hmax : cfg.maxBackoff ≤ maxInt64 / 2)
include hmax

theorem nextBackoff_grows {backoff : Int} (hpos : 0 ≤ backoff) (hle : backoff ≤ cfg.maxBackoff) :
    backoff ≤ cfg.nextBackoff backoff ∧ cfg.nextBackoff backoff ≤ cfg.maxBackoff := by
  unfold nextBackoff
  rw [wrap64_double hpos (Int.le_trans hle hmax)]
  omega

theorem le_doubled {delay : Int} (hpos : 0 ≤ delay) (n : Nat) : delay ≤ cfg.doubled n delay := by
  induction n generalizing delay with
  | zero => exact Int.le_refl _
  | succ n ih =>
    unfold doubled
    split
    · rw [wrap64_double hpos (by omega)]
      have := ih (show 0 ≤ delay * 2 by omega)
      omega
    · exact Int.le_refl _

theorem doubled_le_succ {delay : Int} (hpos : 0 ≤ delay) (n : Nat) :
    cfg.doubled n delay ≤ cfg.doubled (n + 1) delay := by
  induction n generalizing delay with
  | zero => exact le_doubled hmax hpos 1
  | succ n ih =>
    rw [doubled, doubled]
    split
    · rw [wrap64_double hpos (by omega)]
      exact ih (by omega)
    · exact Int.le_refl _

theorem doubled_mono {delay : Int} (hpos : 0 ≤ delay) {n m : Nat} (h : n ≤ m) :
    cfg.doubled n delay ≤ cfg.doubled m delay := by
  induction h with
  | refl => exact Int.le_refl _
  | step _ ih => exact Int.le_trans ih (doubled_le_succ hmax hpos _)

/-- The flap delay, for any streak. -/
theorem flapDelay_grows (hpos : 0 ≤ cfg.initialBackoff) (hle : cfg.initialBackoff ≤ cfg.maxBackoff)
    (n : Nat) : cfg.initialBackoff ≤ cfg.flapDelay n ∧ cfg.flapDelay n ≤ cfg.maxBackoff ∧
      ∀ m, n ≤ m → cfg.flapDelay n ≤ cfg.flapDelay m := by
  have hlow := le_doubled hmax hpos (n - 1)
  unfold flapDelay
  refine ⟨by omega, by omega, ?_⟩
  intro m hm
  have := doubled_mono hmax hpos (show n - 1 ≤ m - 1 by omega)
  omega

end growth

end LifecycleConfig

end GoMqtt.Reconnect
