import GoMqtt.Protocol.Wire

/-! # The circuit breaker

The breaker counts the outcomes of the publishes it lets through. A publish is
admitted under the current epoch and its outcome is booked much later, possibly
in a state the breaker has entered since; every transition bumps the epoch, so
such an outcome is recognised and dropped. Each function here is one critical
section of the source, with the clock it reads as an argument. -/
namespace GoMqtt.Circuit
open GoMqtt.Protocol

/-- The state the source calls open is `opened` here. -/
inductive BreakerState
  | closed
  | opened
  | halfOpen
  deriving DecidableEq, Repr

/-- Durations and clock readings are in nanoseconds. -/
structure BreakerConfig where
  failureThreshold : Int := 0
  recoveryTimeout : Int := 0
  halfOpenMax : Int := 0
  onStateChange : Bool := false
  deriving DecidableEq, Repr

structure StateChange where
  fromState : BreakerState
  toState : BreakerState
  deriving DecidableEq, Repr

structure Breaker where
  cfg : BreakerConfig
  state : BreakerState := .closed
  epoch : Nat := 0
  failures : Nat := 0
  openedAt : Int := 0
  probes : Nat := 0
  pending : List StateChange := []
  draining : Bool := false
  deriving DecidableEq, Repr

/-- What an admitted publish carries from `admitPublish` to `record`. -/
structure Admission where
  epoch : Nat
  probe : Bool := false
  deriving DecidableEq, Repr

/-- What a publish tells about the broker. -/
inductive Outcome
  | success
  | failure
  | neutral
  deriving DecidableEq, Repr

def newBreaker (cfg : BreakerConfig) : Breaker where
  cfg := {
    failureThreshold := if cfg.failureThreshold ≤ 0 then 5 else cfg.failureThreshold
    recoveryTimeout := if cfg.recoveryTimeout ≤ 0 then 30 * 1000000000 else cfg.recoveryTimeout
    halfOpenMax := if cfg.halfOpenMax ≤ 0 then 1 else cfg.halfOpenMax
    onStateChange := cfg.onStateChange }

namespace Breaker

/-- Switch the state and queue the transition; the flag says whether the caller
is handed the drain to run. -/
def transitionLocked (b : Breaker) (next : BreakerState) : Breaker × Bool :=
  if b.state = next then (b, false)
  else
    let b' := { b with state := next, epoch := b.epoch + 1 }
    if b.cfg.onStateChange then ({ b' with pending := b.pending ++ [⟨b.state, next⟩] }, true)
    else (b', false)

/-- `admit`; no admission means `ErrCircuitOpen`. `time.Since` saturates at the largest
duration, which no recovery timeout exceeds, so the difference may stand for it. -/
def admitPublish (b : Breaker) (now : Int) : Breaker × Option Admission × Bool :=
  match b.state with
  | .closed => (b, some { epoch := b.epoch }, false)
  | .opened =>
    if now - b.openedAt < b.cfg.recoveryTimeout then (b, none, false)
    else
      let (b, fire) := b.transitionLocked .halfOpen
      ({ b with probes := 1 }, some { epoch := b.epoch, probe := true }, fire)
  | .halfOpen =>
    if b.cfg.halfOpenMax ≤ b.probes then (b, none, false)
    else ({ b with probes := b.probes + 1 }, some { epoch := b.epoch, probe := true }, false)

def recordSuccess (b : Breaker) (adm : Admission) : Breaker × Bool :=
  if adm.epoch ≠ b.epoch then (b, false)
  else
    let b := { b with failures := 0 }
    if b.state = .halfOpen then
      let (b, fire) := b.transitionLocked .closed
      ({ b with probes := 0 }, fire)
    else (b, false)

def recordFailure (b : Breaker) (adm : Admission) (now : Int) : Breaker × Bool :=
  if adm.epoch ≠ b.epoch then (b, false)
  else
    match b.state with
    | .halfOpen =>
      let (b, fire) := b.transitionLocked .opened
      ({ b with openedAt := now, probes := 0, failures := 0 }, fire)
    | .closed =>
      let b := { b with failures := b.failures + 1 }
      if b.cfg.failureThreshold ≤ b.failures then
        let (b, fire) := b.transitionLocked .opened
        ({ b with openedAt := now, failures := 0 }, fire)
      else (b, false)
    | .opened => (b, false)

def recordNeutral (b : Breaker) (adm : Admission) : Breaker × Bool :=
  if adm.epoch ≠ b.epoch then (b, false)
  else if adm.probe ∧ b.state = .halfOpen ∧ 0 < b.probes then
    ({ b with probes := b.probes - 1 }, false)
  else (b, false)

end Breaker

/-! ## What one section does -/

/-- A transition to another state, whatever it queues. -/
theorem Breaker.transitionLocked_eq (b : Breaker) (next : BreakerState) (h : b.state ≠ next) :
    ∃ q, (b.transitionLocked next).1 =
      { b with state := next, epoch := b.epoch + 1, pending := q } := by
  unfold Breaker.transitionLocked
  rw [if_neg h]
  dsimp only
  split
  · exact ⟨_, rfl⟩
  · exact ⟨b.pending, rfl⟩

/-- The ways `admitPublish` can go. -/
inductive Admitted (b : Breaker) (now : Int) : Breaker → Option Admission → Prop
  | passes : b.state = .closed → Admitted b now b (some { epoch := b.epoch })
  | rejects : b.state = .opened → now - b.openedAt < b.cfg.recoveryTimeout → Admitted b now b none
  | probes (q : List StateChange) : b.state = .opened →
      b.cfg.recoveryTimeout ≤ now - b.openedAt →
      Admitted b now
        { b with state := .halfOpen, epoch := b.epoch + 1, probes := 1, pending := q }
        (some { epoch := b.epoch + 1, probe := true })
  | full : b.state = .halfOpen → b.cfg.halfOpenMax ≤ b.probes → Admitted b now b none
  | joins : b.state = .halfOpen → b.probes < b.cfg.halfOpenMax →
      Admitted b now { b with probes := b.probes + 1 } (some { epoch := b.epoch, probe := true })

theorem Breaker.admitPublish_admitted (b : Breaker) (now : Int) :
    Admitted b now (b.admitPublish now).1 (b.admitPublish now).2.1 := by
  unfold Breaker.admitPublish
  split
  · exact .passes ‹_›
  · rename_i hs
    split
    · exact .rejects hs ‹_›
    · obtain ⟨q, hq⟩ := b.transitionLocked_eq .halfOpen (by simp [hs])
      simp only [hq]
      exact .probes q hs (by omega)
  · rename_i hs
    split
    · exact .full hs ‹_›
    · exact .joins hs (by omega)

/-- The ways a booked outcome can go. -/
inductive Booked (b : Breaker) (adm : Admission) (now : Int) : Outcome → Breaker → Prop
  | stale (o : Outcome) : adm.epoch ≠ b.epoch → Booked b adm now o b
  | closes (q : List StateChange) : adm.epoch = b.epoch → b.state = .halfOpen →
      Booked b adm now .success
        { b with state := .closed, epoch := b.epoch + 1, failures := 0, probes := 0, pending := q }
  | clears : adm.epoch = b.epoch → b.state ≠ .halfOpen →
      Booked b adm now .success { b with failures := 0 }
  | reopens (q : List StateChange) : adm.epoch = b.epoch → b.state = .halfOpen →
      Booked b adm now .failure
        { b with state := .opened, epoch := b.epoch + 1, openedAt := now, failures := 0,
                 probes := 0, pending := q }
  | counts : adm.epoch = b.epoch → b.state = .closed →
      (b.failures + 1 : Int) < b.cfg.failureThreshold →
      Booked b adm now .failure { b with failures := b.failures + 1 }
  | trips (q : List StateChange) : adm.epoch = b.epoch → b.state = .closed →
      b.cfg.failureThreshold ≤ (b.failures + 1 : Int) →
      Booked b adm now .failure
        { b with state := .opened, epoch := b.epoch + 1, openedAt := now, failures := 0,
                 pending := q }
  | late : adm.epoch = b.epoch → b.state = .opened → Booked b adm now .failure b
  | frees : adm.epoch = b.epoch → b.state = .halfOpen → adm.probe → 0 < b.probes →
      Booked b adm now .neutral { b with probes := b.probes - 1 }
  | passes : adm.epoch = b.epoch → ¬(adm.probe ∧ b.state = .halfOpen ∧ 0 < b.probes) →
      Booked b adm now .neutral b

theorem Breaker.recordSuccess_booked (b : Breaker) (adm : Admission) (now : Int) :
    Booked b adm now .success (b.recordSuccess adm).1 := by
  unfold Breaker.recordSuccess
  split
  · exact .stale _ ‹_›
  · rename_i he
    dsimp only
    split
    · rename_i hs
      obtain ⟨q, hq⟩ := Breaker.transitionLocked_eq { b with failures := 0 } .closed
        (by simp [hs])
      simp only [hq]
      exact .closes q (not_not.mp he) hs
    · exact .clears (not_not.mp he) ‹_›

theorem Breaker.recordFailure_booked (b : Breaker) (adm : Admission) (now : Int) :
    Booked b adm now .failure (b.recordFailure adm now).1 := by
  unfold Breaker.recordFailure
  split
  · exact .stale _ ‹_›
  · rename_i he
    have he := not_not.mp he
    split
    · rename_i hs
      obtain ⟨q, hq⟩ := b.transitionLocked_eq .opened (by simp [hs])
      simp only [hq]
      exact .reopens q he hs
    · rename_i hs
      dsimp only
      split
      · rename_i hf
        obtain ⟨q, hq⟩ := Breaker.transitionLocked_eq { b with failures := b.failures + 1 } .opened
          (by simp [hs])
        simp only [hq]
        exact .trips q he hs (by simpa using hf)
      · rename_i hf
        exact .counts he hs (by simpa using hf)
    · exact .late he ‹_›

theorem Breaker.recordNeutral_booked (b : Breaker) (adm : Admission) (now : Int) :
    Booked b adm now .neutral (b.recordNeutral adm).1 := by
  unfold Breaker.recordNeutral
  split
  · exact .stale _ ‹_›
  · rename_i he
    split
    · rename_i h
      exact .frees (not_not.mp he) h.2.1 h.1 h.2.2
    · exact .passes (not_not.mp he) ‹_›

/-! ## Outcomes -/

/-- The errors `countableFailure` looks for with `errors.Is`. -/
inductive Sentinel
  | ackTimeout
  | connectionLost
  | notConnected
  | packetTooLarge
  | packetIDExhausted
  | protocolViolation
  | malformedPacket
  | stringTooLong
  | canceled
  | deadlineExceeded
  deriving DecidableEq, Repr

/-- An error of the wrapped publisher: the sentinels in its chain, and the code
of the first `ReasonError` in it. -/
structure PublishError where
  chain : List Sentinel := []
  reason : Option ReasonCode := none
  deriving DecidableEq, Repr

def PublishError.is (e : PublishError) (x : Sentinel) : Bool := x ∈ e.chain

/-- `ctxErr` is what `ctx.Err()` returns. -/
def countableFailure (ctxErr : Option Sentinel) (err : PublishError) : Bool :=
  if err.is .ackTimeout || err.is .connectionLost || err.is .notConnected then true
  else if err.is .packetTooLarge || err.is .packetIDExhausted then false
  else if err.is .protocolViolation || err.is .malformedPacket || err.is .stringTooLong then false
  else if ctxErr.any err.is then false
  else
    match err.reason with
    | some code => code.isError
    | none => true

/-- How a returned error is booked. -/
def outcome (ctxErr : Option Sentinel) : Option PublishError → Outcome
  | none => .success
  | some err => if countableFailure ctxErr err then .failure else .neutral

def Breaker.book (b : Breaker) (adm : Admission) (now : Int) : Outcome → Breaker × Bool
  | .success => b.recordSuccess adm
  | .failure => b.recordFailure adm now
  | .neutral => b.recordNeutral adm

def Breaker.record (b : Breaker) (ctxErr : Option Sentinel) (adm : Admission)
    (err : Option PublishError) (now : Int) : Breaker × Bool :=
  b.book adm now (outcome ctxErr err)

theorem Breaker.record_booked (b : Breaker) (ctxErr : Option Sentinel) (adm : Admission)
    (err : Option PublishError) (now : Int) :
    Booked b adm now (outcome ctxErr err) (b.record ctxErr adm err now).1 := by
  unfold Breaker.record Breaker.book
  cases outcome ctxErr err with
  | success => exact b.recordSuccess_booked adm now
  | failure => exact b.recordFailure_booked adm now
  | neutral => exact b.recordNeutral_booked adm now

end GoMqtt.Circuit
