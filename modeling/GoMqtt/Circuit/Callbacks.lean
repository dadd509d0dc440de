import Mathlib.Data.List.Basic
import Mathlib.Logic.Function.Basic
import GoMqtt.Circuit.Breaker
import GoMqtt.Lib.Run

/-! # The state change callbacks

A transition is queued under the lock and its callback runs outside of it, from a
drain that whichever goroutine finds the flag clear takes on. Each goroutine is
the stack of what it is in the middle of: a callback may publish through the
breaker again, which stacks a publish, and perhaps the drain it is handed, on top
of the drain that runs the callback. -/
namespace GoMqtt.Circuit
open GoMqtt.Lib

/-! ## The drain -/

/-- The head of `fireStateChanges`: whether this goroutine is to drain. -/
def Breaker.fireStateChanges (b : Breaker) : Breaker × Bool :=
  if b.draining then (b, false) else ({ b with draining := true }, true)

/-- One round of its loop: the transition to report, or none and the flag cleared. -/
def Breaker.drainNext (b : Breaker) : Breaker × Option StateChange :=
  match b.pending with
  | [] => ({ b with draining := false }, none)
  | next :: rest => ({ b with pending := rest }, some next)

/-! ## The goroutines -/

/-- What a goroutine is in the middle of: it holds a drain that it has not run yet, it
drains, with the callback it is in if any, or it is in the wrapped publisher. -/
inductive Frame
  | fire
  | drain (running : Option StateChange)
  | publishing (adm : Admission)
  deriving DecidableEq, Repr

def Frame.drains : Frame → Bool
  | .drain _ => true
  | _ => false

@[simp] theorem countP_fire (stack : List Frame) :
    (Frame.fire :: stack).countP Frame.drains = stack.countP Frame.drains :=
  List.countP_cons_of_neg (by simp [Frame.drains])

@[simp] theorem countP_publishing (adm : Admission) (stack : List Frame) :
    (Frame.publishing adm :: stack).countP Frame.drains = stack.countP Frame.drains :=
  List.countP_cons_of_neg (by simp [Frame.drains])

@[simp] theorem countP_drain (running : Option StateChange) (stack : List Frame) :
    (Frame.drain running :: stack).countP Frame.drains = stack.countP Frame.drains + 1 :=
  List.countP_cons_of_pos rfl

/-- In a callback. -/
def Frame.runs : Frame → Bool
  | .drain (some _) => true
  | _ => false

/-- The goroutine is in code that is not the breaker's and may call `Publish`. -/
def callsOut : List Frame → Bool
  | [] | .drain (some _) :: _ | .publishing _ :: _ => true
  | _ => false

/-- The breaker and its goroutines, the transitions in the order the lock was held for
them, and the callbacks in the order they were called. -/
structure Watch where
  breaker : Breaker
  frames : Nat → List Frame := fun _ => []
  happened : List StateChange := []
  called : List StateChange := []

def Watch.start (cfg : BreakerConfig) : Watch where
  breaker := newBreaker cfg

/-- `Publish` is called; the drain it was handed is run; the drain looks for the next
transition; a callback returns; the wrapped publisher returns. -/
inductive Turn
  | enter (g : Nat) (now : Int)
  | fire (g : Nat)
  | drain (g : Nat)
  | callbackReturns (g : Nat)
  | record (g : Nat) (now : Int) (ctxErr : Option Sentinel) (err : Option PublishError)
  deriving DecidableEq, Repr

/-- How the state differs across one critical section. -/
def changes (b b' : Breaker) : List StateChange :=
  if b.state = b'.state then [] else [⟨b.state, b'.state⟩]

/-- The drain the caller is handed goes on top of its stack. -/
def handed (fire : Bool) (stack : List Frame) : List Frame :=
  if fire then .fire :: stack else stack

def Watch.setStack (w : Watch) (g : Nat) (stack : List Frame) : Watch :=
  { w with frames := Function.update w.frames g stack }

/-- A critical section of `admit` or `record` is over. -/
def Watch.switch (w : Watch) (b : Breaker) : Watch :=
  { w with breaker := b, happened := w.happened ++ changes w.breaker b }

def turn (w : Watch) : Turn → Option Watch
  | .enter g now =>
    if callsOut (w.frames g) then
      match w.breaker.admitPublish now with
      | (b, some adm, fire) =>
        some ((w.switch b).setStack g (handed fire (.publishing adm :: w.frames g)))
      | (b, none, _) => some (w.switch b)
    else none
  | .fire g =>
    match w.frames g with
    | .fire :: stack =>
      let (b, drains) := w.breaker.fireStateChanges
      some ({ w with breaker := b }.setStack g (if drains then .drain none :: stack else stack))
    | _ => none
  | .drain g =>
    match w.frames g with
    | .drain none :: stack =>
      match w.breaker.drainNext with
      | (b, none) => some ({ w with breaker := b }.setStack g stack)
      | (b, some c) =>
        some ({ w with breaker := b, called := w.called ++ [c] }.setStack g
          (.drain (some c) :: stack))
    | _ => none
  | .callbackReturns g =>
    match w.frames g with
    | .drain (some _) :: stack => some (w.setStack g (.drain none :: stack))
    | _ => none
  | .record g now ctxErr err =>
    match w.frames g with
    | .publishing adm :: stack =>
      let (b, fire) := w.breaker.record ctxErr adm err now
      some ((w.switch b).setStack g (handed fire stack))
    | _ => none

/-! ## What a critical section queues -/

/-- With a handler, the section queues the transition it made and hands out a drain for
it; without one it queues nothing. -/
structure Queued (b b' : Breaker) (fire : Bool) : Prop where
  handler : b'.cfg.onStateChange = b.cfg.onStateChange
  draining : b'.draining = b.draining
  pending : b'.pending = b.pending ++ if b.cfg.onStateChange then changes b b' else []
  fires : fire = (b.cfg.onStateChange && b.state ≠ b'.state)

theorem Queued.refl (b : Breaker) : Queued b b false :=
  ⟨rfl, rfl, by simp [changes], by simp⟩

theorem Breaker.transitionLocked_queued (b : Breaker) (next : BreakerState) :
    Queued b (b.transitionLocked next).1 (b.transitionLocked next).2 := by
  unfold Breaker.transitionLocked
  split
  · exact .refl b
  · rename_i hne
    dsimp only
    split
    · rename_i hon
      exact ⟨rfl, rfl, by simp [changes, hon, hne], by simp [hon, hne]⟩
    · rename_i hoff
      exact ⟨rfl, rfl, by simp [hoff], by simp [hoff]⟩

theorem Breaker.admitPublish_queued (b : Breaker) (now : Int) :
    Queued b (b.admitPublish now).1 (b.admitPublish now).2.2 := by
  unfold Breaker.admitPublish
  split
  · exact .refl b
  · split
    · exact .refl b
    · have h := b.transitionLocked_queued .halfOpen
      exact ⟨h.handler, h.draining, h.pending, h.fires⟩
  · split
    · exact .refl b
    · have h := Queued.refl b
      exact ⟨h.handler, h.draining, h.pending, h.fires⟩

/-- A refused publish is handed nothing. -/
theorem Breaker.admitPublish_refused {b : Breaker} {now : Int}
    (h : (b.admitPublish now).2.1 = none) : (b.admitPublish now).1 = b := by
  have hadm := b.admitPublish_admitted now
  rw [h] at hadm
  generalize (b.admitPublish now).1 = b' at hadm ⊢
  cases hadm <;> rfl

theorem Breaker.recordSuccess_queued (b : Breaker) (adm : Admission) :
    Queued b (b.recordSuccess adm).1 (b.recordSuccess adm).2 := by
  unfold Breaker.recordSuccess
  split
  · exact .refl b
  · dsimp only
    split
    · have h := Breaker.transitionLocked_queued { b with failures := 0 } .closed
      exact ⟨h.handler, h.draining, h.pending, h.fires⟩
    · have h := Queued.refl b
      exact ⟨h.handler, h.draining, h.pending, h.fires⟩

theorem Breaker.recordFailure_queued (b : Breaker) (adm : Admission) (now : Int) :
    Queued b (b.recordFailure adm now).1 (b.recordFailure adm now).2 := by
  unfold Breaker.recordFailure
  split
  · exact .refl b
  · split
    · have h := b.transitionLocked_queued .opened
      exact ⟨h.handler, h.draining, h.pending, h.fires⟩
    · dsimp only
      split
      · have h := Breaker.transitionLocked_queued { b with failures := b.failures + 1 } .opened
        exact ⟨h.handler, h.draining, h.pending, h.fires⟩
      · have h := Queued.refl b
        exact ⟨h.handler, h.draining, h.pending, h.fires⟩
    · exact .refl b

theorem Breaker.recordNeutral_queued (b : Breaker) (adm : Admission) :
    Queued b (b.recordNeutral adm).1 (b.recordNeutral adm).2 := by
  unfold Breaker.recordNeutral
  split
  · exact .refl b
  · split
    · have h := Queued.refl b
      exact ⟨h.handler, h.draining, h.pending, h.fires⟩
    · exact .refl b

theorem Breaker.record_queued (b : Breaker) (ctxErr : Option Sentinel) (adm : Admission)
    (err : Option PublishError) (now : Int) :
    Queued b (b.record ctxErr adm err now).1 (b.record ctxErr adm err now).2 := by
  unfold Breaker.record Breaker.book
  cases outcome ctxErr err with
  | success => exact b.recordSuccess_queued adm
  | failure => exact b.recordFailure_queued adm now
  | neutral => exact b.recordNeutral_queued adm

/-! ## The invariant -/

/-- How often a goroutine is in the drain. -/
def Watch.drains (w : Watch) (g : Nat) : Nat := (w.frames g).countP Frame.drains

/-- The flag is set exactly while one goroutine is in the drain, once. -/
structure OneDrain (drains : Nat → Nat) (draining : Bool) : Prop where
  idle : draining = false → ∀ g, drains g = 0
  busy : draining = true → ∃ g, drains g = 1 ∧ ∀ g', g' ≠ g → drains g' = 0

/-- What holds in every run. -/
structure Delivery (on : Bool) (w : Watch) : Prop where
  handler : w.breaker.cfg.onStateChange = on
  log : w.called ++ w.breaker.pending = if on then w.happened else []
  one : OneDrain w.drains w.breaker.draining
  held : w.breaker.pending ≠ [] →
    w.breaker.draining = true ∨ ∃ g, (w.frames g).head? = some .fire

theorem delivery_start (cfg : BreakerConfig) :
    Delivery cfg.onStateChange (Watch.start cfg) where
  handler := rfl
  log := by simp [Watch.start, newBreaker]
  one := ⟨fun _ _ => rfl, fun h => by cases h⟩
  held h := absurd rfl h

section turns

variable {on : Bool} {w : Watch} {g : Nat}

theorem setStack_drains (stack : List Frame) :
    (w.setStack g stack).drains = Function.update w.drains g (stack.countP Frame.drains) := by
  funext g'
  unfold Watch.drains Watch.setStack
  by_cases hg : g' = g
  · subst hg
    simp
  · simp [hg]

/-- A goroutine that is as often in the drain as before. -/
theorem setStack_drains_same {stack : List Frame}
    (h : stack.countP Frame.drains = (w.frames g).countP Frame.drains) :
    (w.setStack g stack).drains = w.drains := by
  rw [setStack_drains, h]
  exact Function.update_eq_self g w.drains

theorem countP_handed (fire : Bool) (stack : List Frame) :
    (handed fire stack).countP Frame.drains = stack.countP Frame.drains := by
  unfold handed
  split <;> simp

/-- A critical section of a publish, by a goroutine that holds no drain. -/
theorem Delivery.section (h : Delivery on w) {b : Breaker} {fire : Bool} {stack : List Frame}
    (hq : Queued w.breaker b fire) (hhead : (w.frames g).head? ≠ some .fire)
    (hsame : stack.countP Frame.drains = (w.frames g).countP Frame.drains) :
    Delivery on ((w.switch b).setStack g (handed fire stack)) := by
  refine ⟨hq.handler.trans h.handler, ?_, ?_, ?_⟩
  · show w.called ++ b.pending = if on then w.happened ++ changes w.breaker b else []
    rw [hq.pending, ← List.append_assoc, h.log, h.handler]
    split <;> simp
  · have hd : ((w.switch b).setStack g (handed fire stack)).drains = w.drains :=
      setStack_drains_same (w := w.switch b) ((countP_handed fire stack).trans hsame)
    rw [hd]
    exact hq.draining.symm ▸ h.one
  · intro hp
    cases fire with
    | true => exact .inr ⟨g, by simp [Watch.setStack, handed]⟩
    | false =>
      -- nothing is queued, and whoever held a drain still does
      have hpend : b.pending = w.breaker.pending := by
        rw [hq.pending]
        have hf := hq.fires
        cases hon : w.breaker.cfg.onStateChange with
        | false => simp
        | true => simp_all [changes]
      have hp : b.pending ≠ [] := hp
      rw [hpend] at hp
      rcases h.held hp with hd | ⟨g', hg'⟩
      · exact .inl (hq.draining.trans hd)
      · have hne : g' ≠ g := by
          rintro rfl
          exact hhead hg'
        exact .inr ⟨g', by simpa [Watch.setStack, Watch.switch, hne] using hg'⟩

theorem Delivery.fire (h : Delivery on w) {stack : List Frame} (hs : w.frames g = .fire :: stack) :
    Delivery on ({ w with breaker := w.breaker.fireStateChanges.1 }.setStack g
      (if w.breaker.fireStateChanges.2 then .drain none :: stack else stack)) := by
  have hcount : (w.frames g).countP Frame.drains = stack.countP Frame.drains := by
    simp [hs]
  unfold Breaker.fireStateChanges
  split
  · rename_i hd
    refine ⟨h.handler, h.log, ?_, fun _ => .inl hd⟩
    rw [if_neg (by simp), setStack_drains_same (w := { w with breaker := w.breaker }) hcount.symm]
    exact h.one
  · rename_i hd
    have hidle := h.one.idle (by simpa using hd)
    refine ⟨h.handler, h.log, ⟨?_, fun _ => ⟨g, ?_, ?_⟩⟩, fun _ => .inl rfl⟩
    · intro hf
      cases hf
    · have hzero : stack.countP Frame.drains = 0 := hcount.symm.trans (hidle g)
      rw [setStack_drains]
      simpa using hzero
    · intro g' hne
      rw [setStack_drains, Function.update_of_ne hne]
      exact hidle g'

/-- Who drains does so alone, and the flag is set. -/
theorem Delivery.alone (h : Delivery on w) (hpos : 0 < w.drains g) :
    w.breaker.draining = true ∧ w.drains g = 1 ∧ ∀ g', g' ≠ g → w.drains g' = 0 := by
  have hd : w.breaker.draining = true := by
    by_contra hf
    exact Nat.ne_of_gt hpos (h.one.idle (by simpa using hf) g)
  obtain ⟨g₀, hone, hzero⟩ := h.one.busy hd
  have hg : g = g₀ := by
    by_contra hne
    exact Nat.ne_of_gt hpos (hzero g hne)
  subst hg
  exact ⟨hd, hone, hzero⟩

theorem Delivery.drained (h : Delivery on w) {stack : List Frame}
    (hs : w.frames g = .drain none :: stack) (hp : w.breaker.pending = []) :
    Delivery on ({ w with breaker := { w.breaker with draining := false } }.setStack g stack) := by
  have hcount : w.drains g = stack.countP Frame.drains + 1 := by
    simp [Watch.drains, hs]
  obtain ⟨-, hone, hzero⟩ := h.alone (g := g) (by omega)
  refine ⟨h.handler, h.log, ⟨fun _ g' => ?_, fun hf => by cases hf⟩, fun hne => absurd hp hne⟩
  rw [setStack_drains]
  by_cases hg : g' = g
  · subst hg
    rw [Function.update_self]
    omega
  · rw [Function.update_of_ne hg]
    exact hzero g' hg

theorem Delivery.call (h : Delivery on w) {stack : List Frame} {c : StateChange}
    {rest : List StateChange} (hs : w.frames g = .drain none :: stack)
    (hp : w.breaker.pending = c :: rest) :
    Delivery on ({ w with breaker := { w.breaker with pending := rest }
                          called := w.called ++ [c] }.setStack g (.drain (some c) :: stack)) := by
  have hcount : w.drains g = stack.countP Frame.drains + 1 := by
    simp [Watch.drains, hs]
  obtain ⟨hd, -, -⟩ := h.alone (g := g) (by omega)
  refine ⟨h.handler, ?_, ?_, fun _ => .inl hd⟩
  · have hlog := h.log
    rw [hp] at hlog
    simpa [Watch.setStack] using hlog
  · rw [setStack_drains_same (by simp [hs])]
    exact h.one

theorem Delivery.returns (h : Delivery on w) {stack : List Frame} {c : StateChange}
    (hs : w.frames g = .drain (some c) :: stack) :
    Delivery on (w.setStack g (.drain none :: stack)) := by
  refine ⟨h.handler, h.log, ?_, ?_⟩
  · rw [setStack_drains_same (by simp [hs])]
    exact h.one
  · intro hp
    rcases h.held hp with hd | ⟨g', hg'⟩
    · exact .inl hd
    · have hne : g' ≠ g := by
        rintro rfl
        simp [hs] at hg'
      exact .inr ⟨g', by simpa [Watch.setStack, hne] using hg'⟩

end turns

theorem delivery_turn {on : Bool} {w w' : Watch} {t : Turn} (h : Delivery on w)
    (hs : turn w t = some w') : Delivery on w' := by
  cases t with
  | enter g now =>
    simp only [turn] at hs
    split at hs
    · rename_i hout
      have hhead : (w.frames g).head? ≠ some .fire := by
        intro hfire
        obtain ⟨stack, hstack⟩ := List.head?_eq_some_iff.mp hfire
        simp [hstack, callsOut] at hout
      have hq := w.breaker.admitPublish_queued now
      split at hs
      · rename_i b adm fire heq
        rw [heq] at hq
        cases hs
        exact h.section hq hhead (by simp)
      · rename_i b fire heq
        have hb : b = w.breaker := by
          have hnone : (w.breaker.admitPublish now).2.1 = none := by rw [heq]
          have hkeep := Breaker.admitPublish_refused hnone
          rwa [heq] at hkeep
        subst hb
        cases hs
        refine ⟨h.handler, ?_, h.one, h.held⟩
        simpa [Watch.switch, changes] using h.log
    · cases hs
  | fire g =>
    simp only [turn] at hs
    split at hs
    · rename_i stack hstack
      cases hs
      exact h.fire hstack
    · cases hs
  | drain g =>
    simp only [turn, Breaker.drainNext] at hs
    split at hs
    · rename_i stack hstack
      split at hs
      · rename_i heq
        split at heq
        · rename_i hp
          cases heq
          cases hs
          exact h.drained hstack hp
        · cases heq
      · rename_i heq
        split at heq
        · cases heq
        · rename_i hp
          cases heq
          cases hs
          exact h.call hstack hp
    · cases hs
  | callbackReturns g =>
    simp only [turn] at hs
    split at hs
    · rename_i c stack hstack
      cases hs
      exact h.returns hstack
    · cases hs
  | record g now ctxErr err =>
    simp only [turn] at hs
    split at hs
    · rename_i adm stack hstack
      cases hs
      exact h.section (w.breaker.record_queued ctxErr adm err now) (by simp [hstack])
        (by simp [hstack])
    · cases hs

theorem delivery_run {cfg : BreakerConfig} {ts : List Turn} {w : Watch}
    (h : Run turn anyStep (Watch.start cfg) ts w) : Delivery cfg.onStateChange w :=
  h.invariant (delivery_start cfg) fun _ _ _ hi _ hs => delivery_turn hi hs

/-! ## The log the callbacks see -/

/-- How many callbacks a goroutine is in. -/
def Watch.running (w : Watch) (g : Nat) : Nat := (w.frames g).countP Frame.runs

theorem running_le_drains (w : Watch) (g : Nat) : w.running g ≤ w.drains g := by
  refine List.countP_mono_left fun f _ hf => ?_
  cases f with
  | drain => rfl
  | fire | publishing => cases hf

/-- Only the drain calls, with no callback under way anywhere. -/
theorem called_alone {on : Bool} {w w' : Watch} {t : Turn} (h : Delivery on w)
    (hs : turn w t = some w') (hc : w'.called ≠ w.called) (g : Nat) : w.running g = 0 := by
  cases t with
  | drain g₀ =>
    simp only [turn] at hs
    split at hs
    · rename_i stack hstack
      have hcount : w.drains g₀ = stack.countP Frame.drains + 1 := by
        simp [Watch.drains, hstack]
      obtain ⟨-, hone, hzero⟩ := h.alone (g := g₀) (by omega)
      by_cases hg : g = g₀
      · -- the callbacks of this goroutine are in what is under its drain
        subst hg
        have hrest : stack.countP Frame.runs ≤ stack.countP Frame.drains :=
          running_le_drains { w with frames := fun _ => stack } g
        have hrun : w.running g = stack.countP Frame.runs := by
          simp [Watch.running, hstack, Frame.runs]
        omega
      · have hle := running_le_drains w g
        have hg0 := hzero g hg
        omega
    · cases hs
  | enter g₀ now =>
    simp only [turn] at hs
    split at hs
    · split at hs <;> cases hs <;> exact absurd rfl hc
    · cases hs
  | fire g₀ | callbackReturns g₀ | record g₀ now ctxErr err =>
    simp only [turn] at hs
    split at hs
    · cases hs
      exact absurd rfl hc
    · cases hs

/-- The calls are the transitions in order, one at a time and with none left behind. -/
theorem callbacks_log {cfg : BreakerConfig} {ts : List Turn} {w : Watch}
    (h : Run turn anyStep (Watch.start cfg) ts w) :
    w.called <+: w.happened ∧
    (cfg.onStateChange = true → w.called ++ w.breaker.pending = w.happened) ∧
    (∀ g, w.running g ≤ 1) ∧
    (∀ g g', w.running g = 1 → w.running g' = 1 → g = g') ∧
    (∀ t w', turn w t = some w' → w'.called ≠ w.called → ∀ g, w.running g = 0) ∧
    (w.breaker.pending ≠ [] →
      ∃ g, (w.frames g).head? = some .fire ∨ ∃ f ∈ w.frames g, f.drains = true) := by
  have hinv := delivery_run h
  have hlog := hinv.log
  refine ⟨?_, ?_, ?_, ?_, ?_, ?_⟩
  · cases hon : cfg.onStateChange with
    | true =>
      rw [hon, if_pos rfl] at hlog
      exact ⟨_, hlog⟩
    | false =>
      rw [hon, if_neg (by simp)] at hlog
      rw [(List.append_eq_nil_iff.mp hlog).1]
      exact List.nil_prefix
  · intro hon
    rwa [hon, if_pos rfl] at hlog
  · intro g
    have hle := running_le_drains w g
    rcases Nat.eq_zero_or_pos (w.drains g) with hz | hpos
    · omega
    · have hone := (hinv.alone hpos).2.1
      omega
  · intro g g' hg hg'
    by_contra hne
    have hle := running_le_drains w g
    have hle' := running_le_drains w g'
    have hzero := (hinv.alone (g := g) (by omega)).2.2 g' (Ne.symm hne)
    omega
  · intro t w' hs hc
    exact called_alone hinv hs hc
  · intro hp
    rcases hinv.held hp with hd | ⟨g, hg⟩
    · obtain ⟨g, hone, -⟩ := hinv.one.busy hd
      exact ⟨g, .inr (List.countP_pos_iff.mp (Nat.lt_of_lt_of_eq Nat.one_pos hone.symm))⟩
    · exact ⟨g, .inl hg⟩

/-- A breaker that opens at the first failure and reports its transitions. -/
def touchy : BreakerConfig :=
  { failureThreshold := 1, recoveryTimeout := 5, onStateChange := true }

/-- The callback of the first transition publishes again, as the probe of the recovered
breaker; another goroutine's failure is late. -/
def reentrant : List Turn :=
  [.enter 0 0, .enter 1 0, .record 0 0 none (some {}), .fire 0, .drain 0, .enter 0 5, .fire 0,
    .record 1 6 none (some {}), .record 0 7 none none, .fire 0, .callbackReturns 0, .drain 0]

theorem callbacks_log_reentrant : ∃ w, exec turn (Watch.start touchy) reentrant = some w ∧
    w.happened = [⟨.closed, .opened⟩, ⟨.opened, .halfOpen⟩, ⟨.halfOpen, .closed⟩] ∧
    w.called = [⟨.closed, .opened⟩, ⟨.opened, .halfOpen⟩] ∧
    w.called <+: w.happened ∧ w.running 0 = 1 ∧ w.running 1 ≠ 1 := by
  have hview : (execOk turn anyStep (Watch.start touchy) reentrant).map (fun w =>
      (w.happened, w.called, w.running 0)) =
      some ([⟨.closed, .opened⟩, ⟨.opened, .halfOpen⟩, ⟨.halfOpen, .closed⟩],
        [⟨.closed, .opened⟩, ⟨.opened, .halfOpen⟩], 1) := by decide +kernel
  obtain ⟨w, hw, hview⟩ := Option.map_eq_some_iff.mp hview
  rw [Prod.mk.injEq, Prod.mk.injEq] at hview
  obtain ⟨hhappened, hcalled, hone⟩ := hview
  have hr := Run.of_execOk hw
  obtain ⟨hlog, -, -, hsole, -, -⟩ := callbacks_log hr
  exact ⟨w, run_iff_exec.mp hr, hhappened, hcalled, hlog, hone,
    fun h => absurd (hsole 0 1 hone h) (by decide)⟩

end GoMqtt.Circuit
