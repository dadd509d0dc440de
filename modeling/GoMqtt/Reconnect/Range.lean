import GoMqtt.Reconnect.Flap
import GoMqtt.Reconnect.Retry

/-! # The range of the back-off

Every delay the reconnect loop computes, over every sequence of connect outcomes and
connection losses. The loop doubles its back-off before it compares it with the maximum.
The maximum is itself a back-off: the loop sets it after a probe that found the client
connected. So the doubled value is in range exactly if twice the maximum is. -/
namespace GoMqtt.Reconnect
open GoMqtt.Lib

/-- A loss taken now counts as a flap. -/
def Keeper.flapped (k : Keeper) : Bool :=
  0 < k.cfg.flapWindow && k.clock - k.lastSuccess < k.cfg.flapWindow

/-- Connects fail, and no session is found up, established or lost after its flap window
in between. -/
def OnlyFailures (k : Keeper) : Event → Prop
  | .go answer _ => k.pc ≠ .begin ∧ k.pc ≠ .callbacks ∧
      (k.pc = .reconnect → answer = false ∧ k.link = none)
  | .lost _ => k.flapped = true
  | _ => True

/-- Every loss is a flap, in one run of the loop. -/
def OnlyFlaps (k : Keeper) : Event → Prop
  | .go _ _ => k.pc ≠ .begin
  | .lost _ => k.flapped = true
  | _ => True

/-! ## What a step does to the back-off and the streak -/

/-- What a step can do to the configuration, the back-off and the streak. -/
structure Paces (k : Keeper) (e : Event) (k' : Keeper) : Prop where
  cfg : k'.cfg = k.cfg
  backoff : (k'.backoff = k.backoff ∧ (k'.pc.timed = true → k.pc.timed = true)) ∨
    ((k'.backoff = k.cfg.initialBackoff ∨ k'.backoff = k.cfg.maxBackoff) ∧ ¬ OnlyFailures k e) ∨
    (k.pc = .reconnect ∧ k'.backoff = k.cfg.nextBackoff k.backoff)
  streak : k'.flapStreak = k.flapStreak ∨ k'.flapStreak = k.flapStreak + 1 ∨ ¬ OnlyFlaps k e

/-- A step that touches none of them. -/
theorem Paces.same {k k' : Keeper} {e : Event} (hcfg : k'.cfg = k.cfg)
    (hb : k'.backoff = k.backoff) (hs : k'.flapStreak = k.flapStreak)
    (hpc : k'.pc.timed = true → k.pc.timed = true) : Paces k e k' :=
  ⟨hcfg, .inl ⟨hb, hpc⟩, .inl hs⟩

theorem paces_go {k k' : Keeper} {answer : Bool} {draw : Int}
    (h : Goes k answer draw k') : Paces k (.go answer draw) k' := by
  cases h with
  | drained | refused | spawned => exact .same rfl rfl rfl (fun ht => by cases ht)
  | established _ _ hpc =>
    refine .same rfl rfl rfl fun ht => ?_
    rcases hpc with ⟨-, rfl⟩ | ⟨-, rfl⟩
    · cases ht
    · cases ht
  | begun hpc =>
    exact ⟨rfl, .inr (.inl ⟨.inl rfl, fun ho => ho.1 hpc⟩), .inr (.inr fun ho => ho hpc)⟩
  | armed hpc => exact .same rfl rfl rfl (fun _ => by rw [hpc]; rfl)
  | stillUp hpc hl =>
    exact ⟨rfl, .inr (.inl ⟨.inr rfl, fun ho => hl (ho.2.2 hpc).2⟩), .inl rfl⟩
  | failed hpc => exact ⟨rfl, .inr (.inr ⟨hpc, rfl⟩), .inl rfl⟩
  | succeeded hpc => exact ⟨rfl, .inr (.inl ⟨.inl rfl, fun ho => ho.2.1 hpc⟩), .inl rfl⟩

theorem paces_takeLost {k : Keeper} {deadline : Int} (hpc : k.pc = .select deadline)
    (token : Nat) (draw : Int) : Paces k (.lost draw) (k.takeLost token draw) := by
  unfold Keeper.takeLost
  split
  · exact ⟨rfl, .inl ⟨rfl, fun _ => by rw [hpc]; rfl⟩, .inr (.inl rfl)⟩
  · rename_i hflap
    exact ⟨rfl, .inr (.inl ⟨.inl rfl, hflap⟩), .inr (.inr hflap)⟩

theorem paces_keep {k k' : Keeper} {e : Event} (h : keep k e = some k') : Paces k e k' := by
  cases keeps h with
  | started | ended => exact .same rfl rfl rfl (fun ht => by cases ht)
  | went hg => exact paces_go hg
  | lost hpc _ => exact paces_takeLost hpc _ _
  | expired hpc =>
    rcases hpc with hpc | hpc
    all_goals exact .same rfl rfl rfl (fun _ => by rw [hpc]; rfl)
  | dropped | signalled | ticked => exact .same rfl rfl rfl id

/-! ## Whole runs -/

/-- In the loop the back-off is between its bounds. -/
structure Bounded (cfg : LifecycleConfig) (k : Keeper) : Prop where
  cfg_eq : k.cfg = newLifecycle cfg
  range : k.pc.timed = true →
    (newLifecycle cfg).initialBackoff ≤ k.backoff ∧ k.backoff ≤ (newLifecycle cfg).maxBackoff

theorem Bounded.step {cfg : LifecycleConfig} {k k' : Keeper} {e : Event}
    (hmax : (newLifecycle cfg).maxBackoff ≤ maxInt64 / 2) (h : Bounded cfg k)
    (hs : keep k e = some k') : Bounded cfg k' := by
  have hp := paces_keep hs
  obtain ⟨hpos, hle⟩ := LifecycleConfig.newLifecycle_ordered cfg
  refine ⟨hp.cfg.trans h.cfg_eq, ?_⟩
  intro ht
  have hb := hp.backoff
  rw [h.cfg_eq] at hb
  rcases hb with ⟨hb, htimed⟩ | ⟨hb, -⟩ | ⟨hpc, hb⟩
  · rw [hb]
    exact h.range (htimed ht)
  · omega
  · obtain ⟨hlow, hhigh⟩ := h.range (by rw [hpc]; rfl)
    have := LifecycleConfig.nextBackoff_grows hmax (by omega) hhigh
    omega

theorem Bounded.run {cfg : LifecycleConfig} {adopted : Bool} {es : List Event} {k : Keeper}
    (hmax : (newLifecycle cfg).maxBackoff ≤ maxInt64 / 2)
    (hrun : Run keep anyStep (Keeper.init cfg adopted) es k) : Bounded cfg k :=
  hrun.invariant (P := Bounded cfg) ⟨rfl, fun h => by cases h⟩ fun _ _ _ h _ hs => h.step hmax hs

/-- One failure after another never makes the back-off less. -/
theorem Bounded.failures {cfg : LifecycleConfig} {k k' : Keeper} {es : List Event}
    (hmax : (newLifecycle cfg).maxBackoff ≤ maxInt64 / 2) (h : Bounded cfg k)
    (hrun : Run keep OnlyFailures k es k') : k.backoff ≤ k'.backoff := by
  have hinv : Bounded cfg k' ∧ k.backoff ≤ k'.backoff := by
    refine hrun.invariant (P := fun u => Bounded cfg u ∧ k.backoff ≤ u.backoff)
      ⟨h, Int.le_refl _⟩ ?_
    intro u e v hu ho hs
    obtain ⟨hbound, hle⟩ := hu
    refine ⟨hbound.step hmax hs, ?_⟩
    rcases (paces_keep hs).backoff with ⟨hb, -⟩ | ⟨-, hno⟩ | ⟨hpc, hb⟩
    · omega
    · exact absurd ho hno
    · obtain ⟨hlow, hhigh⟩ := hbound.range (by rw [hpc]; rfl)
      have hpos := (LifecycleConfig.newLifecycle_ordered cfg).1
      rw [hbound.cfg_eq] at hb
      have := LifecycleConfig.nextBackoff_grows hmax (by omega) hhigh
      omega
  exact hinv.2

theorem streak_run {k k' : Keeper} {es : List Event} (hrun : Run keep OnlyFlaps k es k') :
    k.flapStreak ≤ k'.flapStreak := by
  refine hrun.invariant (P := fun u => k.flapStreak ≤ u.flapStreak) (Nat.le_refl _) ?_
  intro u e v hu ho hs
  rcases (paces_keep hs).streak with hst | hst | hno
  · omega
  · omega
  · exact absurd ho hno

/-- Every delay the loop computes with this configuration: the back-off in every state of
the loop, and the flap delay of any streak. -/
structure LifecycleConfig.InRange (cfg : LifecycleConfig) : Prop where
  backoff : ∀ adopted es k, Run keep anyStep (Keeper.init cfg adopted) es k →
    k.pc.timed = true → (newLifecycle cfg).initialBackoff ≤ k.backoff ∧
      k.backoff ≤ (newLifecycle cfg).maxBackoff
  flapDelay : ∀ n, (newLifecycle cfg).initialBackoff ≤ (newLifecycle cfg).flapDelay n ∧
    (newLifecycle cfg).flapDelay n ≤ (newLifecycle cfg).maxBackoff
  failures : ∀ adopted es k, Run keep anyStep (Keeper.init cfg adopted) es k →
    ∀ es' k', Run keep OnlyFailures k es' k' → k.backoff ≤ k'.backoff
  flaps : ∀ adopted es k, Run keep anyStep (Keeper.init cfg adopted) es k →
    ∀ es' k', Run keep OnlyFlaps k es' k' →
      k.cfg.flapDelay (k.flapStreak + 1) ≤ k'.cfg.flapDelay (k'.flapStreak + 1)

theorem LifecycleConfig.inRange_of_le {cfg : LifecycleConfig}
    (hmax : (newLifecycle cfg).maxBackoff ≤ maxInt64 / 2) : cfg.InRange := by
  obtain ⟨hpos, hle⟩ := newLifecycle_ordered cfg
  have hflap := flapDelay_grows hmax (Int.le_of_lt hpos) hle
  refine ⟨?_, ?_, ?_, ?_⟩
  · intro adopted es k hrun ht
    exact (Bounded.run hmax hrun).range ht
  · intro n
    exact ⟨(hflap n).1, (hflap n).2.1⟩
  · intro adopted es k hrun es' k' hrun'
    exact (Bounded.run hmax hrun).failures hmax hrun'
  · intro adopted es k hrun es' k' hrun'
    have hstreak := streak_run hrun'
    rw [(Bounded.run hmax hrun).cfg_eq, (Bounded.run hmax (hrun.append hrun'.any)).cfg_eq]
    exact (hflap _).2.2 _ (by omega)

/-! ## Past the range -/

/-- The timer can always expire. -/
theorem expire {k : Keeper} (hpc : k.pc = .arm) :
    ∃ es now, Run keep anyStep k es { k with clock := now, pc := .reconnect } := by
  have hdraw := k.cfg.draws_zero
  let deadline := k.clock + k.cfg.jittered k.backoff 0
  refine ⟨[.go true 0, .tick (max k.clock deadline), .timer], max k.clock deadline, ?_⟩
  refine run_iff_exec.mpr ?_
  simp [exec, keep, Keeper.go, hpc, hdraw, deadline]

/-- The loop waits for the first time. -/
theorem begun (cfg : LifecycleConfig) :
    ∃ es k, Run keep anyStep (Keeper.init cfg false) es k ∧ k.cfg = newLifecycle cfg ∧
      k.pc = .arm ∧ k.link = some 0 := by
  refine ⟨.start :: onward 4, _, run_iff_exec.mpr rfl, rfl, rfl, rfl⟩

/-- A probe finds the client connected, so the back-off is at its maximum; then the session
goes, and the next connect fails. -/
theorem probed_then_failed (cfg : LifecycleConfig) :
    ∃ es k, Run keep anyStep (Keeper.init cfg false) es k ∧ k.pc = .arm ∧
      k.backoff = (newLifecycle cfg).nextBackoff (newLifecycle cfg).maxBackoff := by
  obtain ⟨es₁, k₁, hrun₁, hcfg, hpc, hlink⟩ := begun cfg
  obtain ⟨es₂, now, hrun₂⟩ := expire hpc
  have hrun := hrun₁.append hrun₂
  have hprobe := hrun.snoc (a := .go true 0)
    (u := { k₁ with clock := now, backoff := k₁.cfg.maxBackoff, pc := .arm }) trivial
    (by simp [keep, Keeper.go, Keeper.connect, hlink])
  have hdrop := hprobe.snoc (a := .drop true) trivial
    (by simp only [keep, hlink]; rfl)
  obtain ⟨es₃, now', hrun₃⟩ := expire (k := { k₁ with
    clock := now
    backoff := k₁.cfg.maxBackoff
    pc := .arm
    link := none
    drops := Function.update k₁.drops 0 .done }) rfl
  have hfail := (hdrop.append hrun₃).snoc (a := .go false 0) trivial
    (by simp only [keep, Keeper.go, Keeper.connect]; rfl)
  exact ⟨_, _, hfail, rfl, by simp only [hcfg]⟩

theorem LifecycleConfig.inRange_iff {cfg : LifecycleConfig}
    (hinitial : cfg.initialBackoff ≤ maxInt64) (hmost : cfg.maxBackoff ≤ maxInt64) :
    cfg.InRange ↔ (newLifecycle cfg).maxBackoff ≤ maxInt64 / 2 := by
  refine ⟨?_, LifecycleConfig.inRange_of_le⟩
  intro hin
  by_contra hgt
  have h64 : (newLifecycle cfg).maxBackoff ≤ maxInt64 := by
    simp only [newLifecycle, defaultLifecycle]
    unfold maxInt64 at *
    split <;> omega
  obtain ⟨es, k, hrun, hpc, hb⟩ := probed_then_failed cfg
  have hlow := (hin.backoff false es k hrun (by rw [hpc]; rfl)).1
  have hneg := wrap64_double_neg (Int.not_le.mp hgt) h64
  have hpos := (newLifecycle_ordered cfg).1
  unfold nextBackoff at hb
  omega

/-- The delays stay between `InitialBackoff` and `MaxBackoff` and never decrease along
failures and flaps: in the loop exactly if twice the maximum is a duration, and in
`ConnectWithRetry` exactly if that holds or its attempts end first. -/
theorem backoff_in_range (ε : Type) [Nonempty ε] :
    (∀ cfg : LifecycleConfig, cfg.initialBackoff ≤ maxInt64 → cfg.maxBackoff ≤ maxInt64 →
      (cfg.InRange ↔ (newLifecycle cfg).maxBackoff ≤ maxInt64 / 2)) ∧
    ∀ cfg : RetryConfig, cfg.initialBackoff ≤ maxInt64 → cfg.maxBackoff ≤ maxInt64 →
      (cfg.InRange ε ↔ cfg.most ≤ maxInt64 / 2 ∨
        (0 < cfg.maxAttempts ∧ cfg.initial * 2 ^ (cfg.maxAttempts.toNat - 1) ≤ maxInt64)) :=
  ⟨fun _ hinitial hmost => LifecycleConfig.inRange_iff hinitial hmost,
    fun _ hinitial hmost => RetryConfig.inRange_iff hinitial hmost⟩

/-- The defaults, a retry with no maximum to speak of and five attempts, and the longest
maximum there is. -/
theorem backoff_in_range_configs :
    defaultLifecycle.InRange ∧
      ({ maxBackoff := maxInt64, maxAttempts := 5 } : RetryConfig).InRange ConnectError ∧
      ¬ ({ maxBackoff := maxInt64 } : LifecycleConfig).InRange := by
  have : Nonempty ConnectError := ⟨.failed⟩
  obtain ⟨hloop, hretry⟩ := backoff_in_range ConnectError
  refine ⟨(hloop _ (by decide) (by decide)).mpr (by decide),
    (hretry _ (by decide) (by decide)).mpr (.inr ⟨by decide, by decide⟩), ?_⟩
  intro hin
  exact absurd ((hloop _ (by decide) (by decide)).mp hin) (by decide)

/-- The first probe finds the client connected; then the session flaps, and the connect a
second later fails. -/
def flapAfterProbe : List Event :=
  .start :: (onward 5 ++ Event.tick 1000000000 :: .timer :: (onward 2 ++
    [Event.drop false, .signal 0, .lost 0, .tick 2000000000, .timer, .go false 0]))

/-- With a maximum of `math.MaxInt64`, two seconds after the start the loop waits for -2
nanoseconds. -/
theorem busy_retry : ∃ k, exec keep (Keeper.init { maxBackoff := maxInt64 } false) flapAfterProbe =
    some k ∧ k.pc = .arm ∧ k.clock = 2000000000 ∧ k.backoff = -2 ∧
      k.cfg.jittered k.backoff 0 = -2 ∧ k.cfg.initialBackoff = 1000000000 := by
  have hview : (exec keep (Keeper.init { maxBackoff := maxInt64 } false) flapAfterProbe).map
      (fun k => (k.pc, k.clock, k.backoff, k.cfg.jittered k.backoff 0, k.cfg.initialBackoff)) =
        some (.arm, 2000000000, -2, -2, 1000000000) := by decide +kernel
  obtain ⟨k, hk, hview⟩ := Option.map_eq_some_iff.mp hview
  simp only [Prod.mk.injEq] at hview
  exact ⟨k, hk, hview⟩

end GoMqtt.Reconnect
