import Mathlib.Logic.Function.Basic
import GoMqtt.Lib.Run

/-! # Start and Stop

`Start` sets `started`, connects without the lock, and looks at `started` again
to learn whether a `Stop` came in between. The flag is one for all calls: a second
`Start` sets it again after a `Stop`, and a `Start` whose connect fails clears it,
whichever call it then belongs to. Each step is one critical section or one call of
the connector, whose answers are part of the action. -/
namespace GoMqtt.Reconnect
open GoMqtt.Lib

/-- What the lock protects. A context and a loop are named by the `Start` they are of. -/
structure Lifecycle where
  started : Bool := false
  cancel : Option Nat := none
  onConnect : List Nat := []
  loopDone : Option Nat := none
  deriving DecidableEq, Repr

/-- What `Start` returns: nil, "already started", the connector's error, or
"stopped during start". -/
inductive StartResult
  | ok
  | alreadyStarted
  | connectFailed
  | stopped
  deriving DecidableEq, Repr

/-- Where a `Start` stands. `failed` and `clearing` are the way out after a connect that
failed; `connected` and `calling` are the rest of `connectOnce`. -/
inductive StartPc
  | idle
  | drain
  | connecting
  | failed
  | clearing
  | connected
  | calling (cbs : List Nat)
  | check
  | undoing
  | returned (r : StartResult)
  deriving DecidableEq, Repr

/-- Between setting `started` and checking it or giving it back. -/
def StartPc.pending : StartPc → Bool
  | .drain | .connecting | .failed | .clearing | .connected | .calling _ | .check => true
  | .idle | .undoing | .returned _ => false

/-- A call of `Start`: `since` and `seen` are the calls of `Stop` before it set `started`
and before its check, `succeeded` and `disconnected` what it did with the connector. -/
structure StartCall where
  pc : StartPc := .idle
  since : Nat := 0
  seen : Nat := 0
  succeeded : Bool := false
  disconnected : Bool := false
  deriving DecidableEq, Repr

inductive StopPc
  | idle
  | cancelling (cancel : Option Nat) (done : Option Nat)
  | waiting (done : Option Nat)
  | disconnecting
  | returned
  deriving DecidableEq, Repr

inductive LoopState
  | absent
  | running
  | exited
  deriving DecidableEq, Repr

/-- `notifier` says whether the connector has a lost channel, `token` whether that holds
a token. -/
structure World where
  life : Lifecycle := {}
  notifier : Bool
  token : Bool := false
  nextStart : Nat := 0
  starts : Nat → StartCall := fun _ => {}
  stops : Nat := 0
  stopCalls : Nat → StopPc := fun _ => .idle
  cancelled : Nat → Bool := fun _ => false
  loops : Nat → LoopState := fun _ => .absent

/-- A call of `Start` or `Stop` enters or goes on; `answer` is what Connect answers if
this is where the `Start` is, `giveUp` whether a waiting `Stop` finds its context done.
A callback is registered, the connector signals a loss, the context of a `Start` is
cancelled, a loop ends. -/
inductive Act
  | start
  | go (s : Nat) (answer : Bool)
  | stop
  | goStop (k : Nat) (giveUp : Bool)
  | onConnect (cb : Nat)
  | signal
  | ctxDone (s : Nat)
  | loopExit (s : Nat)
  deriving DecidableEq, Repr

def init (notifier : Bool) : World := { notifier }

def World.setStart (w : World) (s : Nat) (c : StartCall) : World :=
  { w with starts := Function.update w.starts s c }

def World.setStop (w : World) (k : Nat) (pc : StopPc) : World :=
  { w with stopCalls := Function.update w.stopCalls k pc }

def World.cancelRun (w : World) (s : Nat) : World :=
  { w with cancelled := Function.update w.cancelled s true }

/-- The next step of a `Start`. -/
def goStart (w : World) (s : Nat) (answer : Bool) : Option World :=
  let c := w.starts s
  match c.pc with
  | .drain =>
    some ({ w with token := w.token && !w.notifier }.setStart s { c with pc := .connecting })
  | .connecting =>
    if answer then some (w.setStart s { c with pc := .connected, succeeded := true })
    else some (w.setStart s { c with pc := .failed })
  | .failed => some ((w.cancelRun s).setStart s { c with pc := .clearing })
  | .clearing =>
    some ({ w with life := { w.life with started := false } }.setStart s
      { c with pc := .returned .connectFailed })
  | .connected => some (w.setStart s { c with pc := .calling w.life.onConnect })
  | .calling [] => some (w.setStart s { c with pc := .check })
  | .calling (_ :: cbs) => some (w.setStart s { c with pc := .calling cbs })
  | .check =>
    if w.life.started then
      some ({ w with
        life := { w.life with loopDone := some s }
        loops := Function.update w.loops s .running }.setStart s
          { c with pc := .returned .ok, seen := w.stops })
    else some (w.setStart s { c with pc := .undoing, seen := w.stops })
  | .undoing => some (w.setStart s { c with pc := .returned .stopped, disconnected := true })
  | .idle | .returned _ => none

/-- The next step of a `Stop`. -/
def goStop (w : World) (k : Nat) (giveUp : Bool) : Option World :=
  match w.stopCalls k with
  | .cancelling none done => some (w.setStop k (.waiting done))
  | .cancelling (some s) done => some ((w.cancelRun s).setStop k (.waiting done))
  | .waiting none => some (w.setStop k .disconnecting)
  | .waiting (some s) =>
    if giveUp || w.loops s = .exited then some (w.setStop k .disconnecting) else none
  | .disconnecting => some (w.setStop k .returned)
  | .idle | .returned => none

def step (w : World) : Act → Option World
  | .start =>
    let s := w.nextStart
    if w.life.started then
      some ({ w with nextStart := s + 1 }.setStart s { pc := .returned .alreadyStarted })
    else
      some ({ w with
        life := { w.life with started := true, cancel := some s }
        nextStart := s + 1 }.setStart s { pc := .drain, since := w.stops })
  | .go s answer => goStart w s answer
  | .stop =>
    some ({ w with
      life := { w.life with started := false, cancel := none, loopDone := none }
      stops := w.stops + 1 }.setStop w.stops (.cancelling w.life.cancel w.life.loopDone))
  | .goStop k giveUp => goStop w k giveUp
  | .onConnect cb => some { w with life := { w.life with onConnect := w.life.onConnect ++ [cb] } }
  | .signal => if w.notifier then some { w with token := true } else none
  | .ctxDone s => if s < w.nextStart then some (w.cancelRun s) else none
  | .loopExit s =>
    if w.loops s = .running && w.cancelled s then
      some { w with loops := Function.update w.loops s .exited }
    else none

/-! ## One Start at a time -/

/-- No `Start` sets `started` while another one is still to check it or give it back. -/
def Alone (w : World) : Act → Prop
  | .start => w.life.started = false → ∀ s < w.nextStart, (w.starts s).pc.pending = false
  | _ => True

instance (w : World) (a : Act) : Decidable (Alone w a) :=
  match a with
  | .start => inferInstanceAs
      (Decidable (w.life.started = false → ∀ s < w.nextStart, (w.starts s).pc.pending = false))
  | .go .. | .stop | .goStop .. | .onConnect _ | .signal | .ctxDone _ | .loopExit _ =>
    .isTrue trivial

/-- What a call has come to, against the calls of `Stop` it was overtaken by. -/
def StartCall.Settled (c : StartCall) : Prop :=
  match c.pc with
  | .connected | .calling _ | .check => c.succeeded = true
  | .undoing => c.succeeded = true ∧ c.since < c.seen
  | .returned .ok => c.succeeded = true ∧ c.seen = c.since
  | .returned .stopped => c.succeeded = true ∧ c.since < c.seen ∧ c.disconnected = true
  | _ => c.succeeded = false

/-- What holds where the calls of `Start` keep apart: the flag is the pending call's,
and it is down exactly if a `Stop` came since. -/
structure Apart (w : World) : Prop where
  fresh : ∀ s, w.nextStart ≤ s → (w.starts s).pc = .idle
  sole : ∀ s s', (w.starts s).pc.pending = true → (w.starts s').pc.pending = true → s = s'
  flag : ∀ s, (w.starts s).pc.pending = true →
    (w.starts s).since ≤ w.stops ∧ (w.life.started = true ↔ (w.starts s).since = w.stops)
  settled : ∀ s, (w.starts s).Settled

theorem apart_init (notifier : Bool) : Apart (init notifier) where
  fresh s _ := rfl
  sole s s' h := by cases h
  flag s h := by cases h
  settled s := rfl

section steps

variable {w w' : World} {s : Nat}

/-- A step that leaves the calls of `Start` and the flag alone. -/
theorem Apart.congr (h : Apart w) (hnext : w'.nextStart = w.nextStart)
    (hstarts : w'.starts = w.starts) (hstops : w'.stops = w.stops)
    (hflag : w'.life.started = w.life.started) : Apart w' := by
  refine ⟨?_, ?_, ?_, ?_⟩
  · rw [hnext, hstarts]
    exact h.fresh
  · rw [hstarts]
    exact h.sole
  · rw [hstarts, hstops, hflag]
    exact h.flag
  · rw [hstarts]
    exact h.settled

/-- A `Start` goes on. It may only touch the flag as it stops being the pending one. -/
theorem Apart.move (h : Apart w) {c : StartCall} {started : Bool}
    (hstarts : w'.starts = Function.update w.starts s c) (hstops : w'.stops = w.stops)
    (hnext : w'.nextStart = w.nextStart) (hflag : w'.life.started = started)
    (hknown : (w.starts s).pc ≠ .idle) (hsince : c.since = (w.starts s).since)
    (hpend : c.pc.pending = true → (w.starts s).pc.pending = true)
    (hlife : started = w.life.started ∨
      (w.starts s).pc.pending = true ∧ c.pc.pending = false)
    (hset : c.Settled) : Apart w' := by
  have hold : ∀ s', (w'.starts s').pc.pending = true → (w.starts s').pc.pending = true := by
    intro s' hp
    rw [hstarts] at hp
    by_cases hs : s' = s
    · subst hs
      exact hpend (by simpa using hp)
    · simpa [hs] using hp
  refine ⟨?_, fun s₁ s₂ h₁ h₂ => h.sole s₁ s₂ (hold s₁ h₁) (hold s₂ h₂), ?_, ?_⟩
  · intro s' hs'
    have hidle := h.fresh s' (hnext ▸ hs')
    have hne : s' ≠ s := by
      rintro rfl
      exact hknown hidle
    simpa [hstarts, hne] using hidle
  · intro s' hp
    have hkeep : w'.life.started = w.life.started := by
      rcases hlife with hlife | ⟨hpending, hdone⟩
      · exact hflag.trans hlife
      · -- the pending call was `s`, and it no longer is
        obtain rfl := h.sole s' s (hold s' hp) hpending
        rw [hstarts, Function.update_self, hdone] at hp
        cases hp
    have hsame : (w'.starts s').since = (w.starts s').since := by
      rw [hstarts]
      by_cases hs : s' = s
      · subst hs
        simpa using hsince
      · simp [hs]
    rw [hkeep, hsame, hstops]
    exact h.flag s' (hold s' hp)
  · intro s'
    rw [hstarts]
    by_cases hs : s' = s
    · subst hs
      simpa using hset
    · simpa [hs] using h.settled s'

theorem Apart.goStart (h : Apart w) {answer : Bool} (hs : goStart w s answer = some w') :
    Apart w' := by
  have hset := h.settled s
  unfold StartCall.Settled at hset
  unfold Reconnect.goStart at hs
  dsimp only at hs
  split at hs
  case h_1 hpc | h_3 hpc | h_5 hpc | h_6 hpc | h_7 hpc =>
    cases hs
    rw [hpc] at hset
    exact h.move rfl rfl rfl rfl (by simp [hpc]) rfl (by simp [hpc, StartPc.pending]) (.inl rfl) hset
  case h_2 hpc =>
    rw [hpc] at hset
    split at hs
    · cases hs
      exact h.move rfl rfl rfl rfl (by simp [hpc]) rfl (by simp [hpc, StartPc.pending])
        (.inl rfl) rfl
    · cases hs
      exact h.move rfl rfl rfl rfl (by simp [hpc]) rfl (by simp [hpc, StartPc.pending])
        (.inl rfl) hset
  case h_4 hpc =>
    cases hs
    rw [hpc] at hset
    exact h.move rfl rfl rfl rfl (by simp [hpc]) rfl (by simp [StartPc.pending])
      (.inr ⟨by simp [hpc, StartPc.pending], rfl⟩) hset
  case h_8 hpc =>
    rw [hpc] at hset
    obtain ⟨hle, hflag⟩ := h.flag s (by rw [hpc]; rfl)
    split at hs
    · rename_i hstarted
      cases hs
      exact h.move rfl rfl rfl rfl (by simp [hpc]) rfl (by simp [StartPc.pending]) (.inl rfl)
        ⟨hset, (hflag.mp hstarted).symm⟩
    · rename_i hstarted
      cases hs
      exact h.move rfl rfl rfl rfl (by simp [hpc]) rfl (by simp [StartPc.pending]) (.inl rfl)
        ⟨hset, Nat.lt_of_le_of_ne hle fun heq => hstarted (hflag.mpr heq)⟩
  case h_9 hpc =>
    cases hs
    rw [hpc] at hset
    exact h.move rfl rfl rfl rfl (by simp [hpc]) rfl (by simp [StartPc.pending]) (.inl rfl)
      ⟨hset.1, hset.2, rfl⟩
  all_goals cases hs

theorem Apart.goStop (h : Apart w) {k : Nat} {giveUp : Bool} (hs : goStop w k giveUp = some w') :
    Apart w' := by
  unfold Reconnect.goStop at hs
  split at hs
  case h_4 =>
    split at hs
    · cases hs
      exact h.congr rfl rfl rfl rfl
    · cases hs
  all_goals
    cases hs
    try exact h.congr rfl rfl rfl rfl

/-- A new call of `Start`: it is refused, or no other one is pending. -/
theorem Apart.add (h : Apart w) {c : StartCall}
    (hstarts : w'.starts = Function.update w.starts w.nextStart c)
    (hnext : w'.nextStart = w.nextStart + 1) (hstops : w'.stops = w.stops) (hset : c.Settled)
    (hnew : c.pc.pending = false ∧ w'.life.started = w.life.started ∨
      c.since = w.stops ∧ w'.life.started = true ∧ ∀ s, (w.starts s).pc.pending = false) :
    Apart w' := by
  have hself : w'.starts w.nextStart = c := by rw [hstarts, Function.update_self]
  have hother : ∀ s, s ≠ w.nextStart → w'.starts s = w.starts s := by
    intro s hs
    rw [hstarts, Function.update_of_ne hs]
  have hfresh : ∀ s, w'.nextStart ≤ s → (w'.starts s).pc = .idle := by
    intro s hle
    rw [hother s (by omega)]
    exact h.fresh s (by omega)
  have hsettled : ∀ s, (w'.starts s).Settled := by
    intro s
    by_cases hs : s = w.nextStart
    · subst hs
      exact hself.symm ▸ hset
    · rw [hother s hs]
      exact h.settled s
  rcases hnew with ⟨hdone, hflag⟩ | ⟨hsince, hflag, hnone⟩
  · have hold : ∀ s, (w'.starts s).pc.pending = true → s ≠ w.nextStart := by
      rintro s hp rfl
      rw [hself, hdone] at hp
      cases hp
    refine ⟨hfresh, fun s s' hp hp' => ?_, fun s hp => ?_, hsettled⟩
    · rw [hother s (hold s hp)] at hp
      rw [hother s' (hold s' hp')] at hp'
      exact h.sole s s' hp hp'
    · have hsame := hother s (hold s hp)
      rw [hsame] at hp ⊢
      rw [hstops, hflag]
      exact h.flag s hp
  · have honly : ∀ s, (w'.starts s).pc.pending = true → s = w.nextStart := by
      intro s hp
      by_contra hs
      rw [hother s hs, hnone s] at hp
      cases hp
    refine ⟨hfresh, fun s s' hp hp' => (honly s hp).trans (honly s' hp').symm, ?_, hsettled⟩
    intro s hp
    obtain rfl := honly s hp
    rw [hself, hstops, hsince, hflag]
    simp

theorem Apart.start (h : Apart w) (ha : Alone w .start) (hs : step w .start = some w') :
    Apart w' := by
  simp only [step] at hs
  split at hs
  · cases hs
    exact h.add rfl rfl rfl rfl (.inl ⟨rfl, rfl⟩)
  · rename_i hdown
    cases hs
    refine h.add rfl rfl rfl rfl (.inr ⟨rfl, rfl, fun s => ?_⟩)
    by_cases hs : s < w.nextStart
    · exact ha (by simpa using hdown) s hs
    · rw [h.fresh s (Nat.le_of_not_lt hs)]
      rfl

end steps

theorem apart_step {w w' : World} {a : Act} (h : Apart w) (ha : Alone w a)
    (hs : step w a = some w') : Apart w' := by
  cases a with
  | start => exact h.start ha hs
  | go s answer => exact h.goStart hs
  | stop =>
    cases hs
    refine ⟨h.fresh, h.sole, ?_, h.settled⟩
    intro s hp
    have hle : (w.starts s).since ≤ w.stops := (h.flag s hp).1
    refine ⟨Nat.le_succ_of_le hle, ?_, ?_⟩
    · intro hf
      cases hf
    · intro heq
      have heq : (w.starts s).since = w.stops + 1 := heq
      omega
  | goStop k giveUp => exact h.goStop hs
  | onConnect cb =>
    cases hs
    exact h.congr rfl rfl rfl rfl
  | signal | ctxDone s | loopExit s =>
    simp only [step] at hs
    split at hs
    · cases hs
      exact h.congr rfl rfl rfl rfl
    · cases hs

theorem apart_run {notifier : Bool} {as : List Act} {w : World}
    (h : Run step Alone (init notifier) as w) : Apart w :=
  h.invariant (apart_init notifier) fun _ _ _ hi ha hs => apart_step hi ha hs

/-! ## A connected Start returns -/

/-- A `Start` that has connected and goes on alone. -/
def Returns (w : World) (s : Nat) : Prop :=
  ∃ n w', exec step w (List.replicate n (.go s true)) = some w' ∧
    ∃ r, (w'.starts s).pc = .returned r

theorem Returns.next {w u : World} {s : Nat} (hs : step w (.go s true) = some u)
    (h : Returns u s) : Returns w s := by
  obtain ⟨n, w', hw', hr⟩ := h
  refine ⟨n + 1, w', ?_, hr⟩
  rw [List.replicate_succ, exec, hs]
  exact hw'

theorem returns_undoing {w : World} {s : Nat} (hpc : (w.starts s).pc = .undoing) :
    Returns w s := by
  refine .next (u := w.setStart s
    { w.starts s with pc := .returned .stopped, disconnected := true }) ?_ ⟨0, _, rfl, ?_⟩
  · simp [step, goStart, hpc]
  · exact ⟨.stopped, by simp [World.setStart]⟩

theorem returns_check {w : World} {s : Nat} (hpc : (w.starts s).pc = .check) : Returns w s := by
  cases hstarted : w.life.started with
  | true =>
    refine .next (u := { w with
      life := { w.life with loopDone := some s }
      loops := Function.update w.loops s .running }.setStart s
        { w.starts s with pc := .returned .ok, seen := w.stops }) ?_ ⟨0, _, rfl, ?_⟩
    · simp [step, goStart, hpc, hstarted]
    · exact ⟨.ok, by simp [World.setStart]⟩
  | false =>
    refine .next (u := w.setStart s { w.starts s with pc := .undoing, seen := w.stops }) ?_
      (returns_undoing (by simp [World.setStart]))
    simp [step, goStart, hpc, hstarted]

theorem returns_calling (cbs : List Nat) : ∀ {w : World} {s : Nat},
    (w.starts s).pc = .calling cbs → Returns w s := by
  induction cbs with
  | nil =>
    intro w s hpc
    refine .next (u := w.setStart s { w.starts s with pc := .check }) ?_
      (returns_check (by simp [World.setStart]))
    simp [step, goStart, hpc]
  | cons cb cbs ih =>
    intro w s hpc
    refine .next (u := w.setStart s { w.starts s with pc := .calling cbs }) ?_
      (ih (by simp [World.setStart]))
    simp [step, goStart, hpc]

theorem returns_connected {w : World} {s : Nat} (hpc : (w.starts s).pc = .connected) :
    Returns w s := by
  refine .next (u := w.setStart s { w.starts s with pc := .calling w.life.onConnect }) ?_
    (returns_calling w.life.onConnect (by simp [World.setStart]))
  simp [step, goStart, hpc]

/-- Where the calls of `Start` keep apart, one whose connect succeeded returns, and what
it returns tells whether a `Stop` came before its check. -/
theorem start_outcome {notifier : Bool} {as : List Act} {w : World}
    (h : Run step Alone (init notifier) as w) {s : Nat} (hs : (w.starts s).succeeded = true) :
    Returns w s ∧
    ∀ r, (w.starts s).pc = .returned r →
      r = .ok ∧ (w.starts s).seen = (w.starts s).since ∨
      r = .stopped ∧ (w.starts s).since < (w.starts s).seen ∧ (w.starts s).disconnected = true := by
  have hset := (apart_run h).settled s
  unfold StartCall.Settled at hset
  split at hset
  case h_1 hpc => exact ⟨returns_connected hpc, fun r hr => by simp [hpc] at hr⟩
  case h_2 hpc => exact ⟨returns_calling _ hpc, fun r hr => by simp [hpc] at hr⟩
  case h_3 hpc => exact ⟨returns_check hpc, fun r hr => by simp [hpc] at hr⟩
  case h_4 hpc => exact ⟨returns_undoing hpc, fun r hr => by simp [hpc] at hr⟩
  case h_5 hpc =>
    refine ⟨⟨0, w, rfl, _, hpc⟩, fun r hr => .inl ?_⟩
    cases hpc.symm.trans hr
    exact ⟨rfl, hset.2⟩
  case h_6 hpc =>
    refine ⟨⟨0, w, rfl, _, hpc⟩, fun r hr => .inr ?_⟩
    cases hpc.symm.trans hr
    exact ⟨rfl, hset.2⟩
  case h_7 =>
    rw [hs] at hset
    cases hset

/-- The `n` next steps of a `Start`, with a connector that answers well. -/
def going (s n : Nat) : List Act := List.replicate n (.go s true)

/-- A `Stop` comes while the first `Start` connects; a second one is left alone. -/
def stoppedOnce : List Act :=
  .onConnect 0 :: .start :: .go 0 true :: .stop :: (going 0 6 ++ Act.start :: going 1 6)

theorem start_outcome_stoppedOnce : ∃ w, exec step (init true) stoppedOnce = some w ∧
    (w.starts 0).since < (w.starts 0).seen ∧ (w.starts 0).disconnected = true ∧
    (w.starts 1).pc = .returned .ok ∧ (w.starts 1).seen = (w.starts 1).since := by
  have hview : (execOk step Alone (init true) stoppedOnce).map (fun w =>
      ((w.starts 0).pc, (w.starts 0).succeeded, (w.starts 1).pc, (w.starts 1).succeeded)) =
      some (.returned .stopped, true, .returned .ok, true) := by decide +kernel
  obtain ⟨w, hw, hview⟩ := Option.map_eq_some_iff.mp hview
  rw [Prod.mk.injEq, Prod.mk.injEq, Prod.mk.injEq] at hview
  obtain ⟨hpc₀, hs₀, hpc₁, hs₁⟩ := hview
  have hr := Run.of_execOk hw
  have h₀ := (start_outcome hr hs₀).2 _ hpc₀
  have h₁ := (start_outcome hr hs₁).2 _ hpc₁
  simp only [reduceCtorEq, false_and, false_or, or_false, true_and] at h₀ h₁
  exact ⟨w, run_iff_exec.mp hr.any, h₀.1, h₀.2, hpc₁, h₁⟩

/-- A `Stop` comes while the first `Start` connects, and a second `Start` sets the flag
again before the first one looks at it. -/
def flagSetAgain : List Act :=
  .start :: .go 0 true :: .stop :: .goStop 0 false :: .start :: going 0 4

/-- The second `Start` has the flag, and the first one, stopped before, fails to connect
and clears it. -/
def flagTaken : List Act :=
  .start :: .go 0 true :: .stop :: .start :: .go 1 true :: .go 0 false :: .go 0 true ::
    .go 0 true :: going 1 5

/-- With two calls of `Start` at once one returns nil behind a `Stop`, with its context
cancelled and so no loop to reconnect, and one is undone that no `Stop` came after. -/
theorem start_outcome_mixed :
    (∃ w, exec step (init true) flagSetAgain = some w ∧ (w.starts 0).succeeded = true ∧
      (w.starts 0).pc = .returned .ok ∧ (w.starts 0).since < (w.starts 0).seen ∧
      w.cancelled 0 = true) ∧
    ∃ w, exec step (init true) flagTaken = some w ∧ (w.starts 1).succeeded = true ∧
      (w.starts 1).pc = .returned .stopped ∧ (w.starts 1).since = w.stops := by
  refine ⟨?_, ?_⟩
  · have hview : (exec step (init true) flagSetAgain).map (fun w =>
        ((w.starts 0).succeeded, (w.starts 0).pc, decide ((w.starts 0).since < (w.starts 0).seen),
          w.cancelled 0)) = some (true, .returned .ok, true, true) := by decide +kernel
    obtain ⟨w, hw, hview⟩ := Option.map_eq_some_iff.mp hview
    rw [Prod.mk.injEq, Prod.mk.injEq, Prod.mk.injEq, decide_eq_true_eq] at hview
    exact ⟨w, hw, hview⟩
  · have hview : (exec step (init true) flagTaken).map (fun w =>
        ((w.starts 1).succeeded, (w.starts 1).pc, decide ((w.starts 1).since = w.stops))) =
        some (true, .returned .stopped, true) := by decide +kernel
    obtain ⟨w, hw, hview⟩ := Option.map_eq_some_iff.mp hview
    rw [Prod.mk.injEq, Prod.mk.injEq, decide_eq_true_eq] at hview
    exact ⟨w, hw, hview⟩

end GoMqtt.Reconnect
