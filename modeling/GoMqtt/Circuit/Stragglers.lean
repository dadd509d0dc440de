import Mathlib.Algebra.Order.Ring.Int
import Mathlib.Data.List.Count
import GoMqtt.Circuit.Breaker
import GoMqtt.Lib.Run

/-! # Late outcomes

Any number of publishes run through one breaker: each is admitted in one
critical section and books its outcome in a later one, with everything else in
between. The counters are compared with what they are for: `probes` with the
probes of the current epoch still in flight, `failures` with the failures booked
since the last success of the epoch. -/
namespace GoMqtt.Circuit
open GoMqtt.Lib

/-- One booked outcome, with the clock and the state before and after it. -/
structure Entry where
  adm : Admission
  outcome : Outcome
  now : Int
  before : BreakerState
  after : BreakerState
  deriving DecidableEq, Repr

/-- The breaker, the admitted publishes that have not reported, and what has been
booked so far, the latest first. -/
structure World where
  breaker : Breaker
  inFlight : List (Nat × Admission)
  booked : List Entry
  deriving DecidableEq, Repr

/-- A publish calls in, or one that was let through reports. The call is any
name that is not in use, and the clock is read at will. -/
inductive Act
  | enter (call : Nat) (now : Int)
  | record (call : Nat) (now : Int) (ctxErr : Option Sentinel) (err : Option PublishError)
  deriving DecidableEq, Repr

def start (cfg : BreakerConfig) : World := ⟨newBreaker cfg, [], []⟩

def step (w : World) : Act → Option World
  | .enter call now =>
    if (w.inFlight.lookup call).isSome then none
    else
      match w.breaker.admitPublish now with
      | (b, some adm, _) => some { w with breaker := b, inFlight := (call, adm) :: w.inFlight }
      | (b, none, _) => some { w with breaker := b }
  | .record call now ctxErr err =>
    match w.inFlight.lookup call with
    | none => none
    | some adm =>
      let b := (w.breaker.record ctxErr adm err now).1
      some {
        breaker := b
        inFlight := w.inFlight.erase (call, adm)
        booked := ⟨adm, outcome ctxErr err, now, w.breaker.state, b.state⟩ :: w.booked }

/-! ## What the counters are for -/

/-- The publishes in flight that were admitted as probes in the current epoch. -/
def World.probing (w : World) : Nat :=
  w.inFlight.countP fun p => p.2.epoch = w.breaker.epoch && p.2.probe

/-- The failures booked since the last success, among the publishes of one epoch. -/
def streak (epoch : Nat) (booked : List Entry) : Nat :=
  ((booked.filter fun e => e.adm.epoch = epoch).takeWhile fun e => e.outcome ≠ .success).countP
    fun e => e.outcome = .failure

/-- When the circuit last went open. -/
def lastOpened (booked : List Entry) : Option Int :=
  (booked.find? fun e => e.after = .opened ∧ e.before ≠ .opened).map Entry.now

/-- The counters agree with the publishes they count. -/
structure Accounted (w : World) : Prop where
  probes : w.breaker.probes = if w.breaker.state = .halfOpen then w.probing else 0
  probes_le : w.breaker.probes ≤ w.breaker.cfg.halfOpenMax
  failures : w.breaker.state = .closed → w.breaker.failures = streak w.breaker.epoch w.booked
  failures_lt : w.breaker.failures < w.breaker.cfg.failureThreshold
  openedAt : w.breaker.state = .opened → lastOpened w.booked = some w.breaker.openedAt

/-- The action books this outcome for a publish in flight. -/
def Books (w : World) (a : Act) (adm : Admission) (o : Outcome) : Prop :=
  ∃ call now ctxErr err, a = .record call now ctxErr err ∧ (call, adm) ∈ w.inFlight ∧
    outcome ctxErr err = o

/-- What each transition takes. -/
def Grounds (w : World) (a : Act) : BreakerState → BreakerState → Prop
  | .halfOpen, .closed => ∃ adm, adm.epoch = w.breaker.epoch ∧ adm.probe ∧ Books w a adm .success
  | .halfOpen, .opened => ∃ adm, adm.epoch = w.breaker.epoch ∧ adm.probe ∧ Books w a adm .failure
  | .closed, .opened => ∃ adm, adm.epoch = w.breaker.epoch ∧ Books w a adm .failure ∧
      (streak w.breaker.epoch w.booked + 1 : Int) = w.breaker.cfg.failureThreshold
  | .opened, .halfOpen => ∃ call now t, a = .enter call now ∧ lastOpened w.booked = some t ∧
      w.breaker.cfg.recoveryTimeout ≤ now - t
  | _, _ => False

/-- Only a publish of the current epoch that is in flight moves the breaker. -/
def Justified (w : World) (a : Act) (w' : World) : Prop :=
  (w'.breaker.state ≠ w.breaker.state → Grounds w a w.breaker.state w'.breaker.state) ∧
  ∀ call now ctxErr err adm, a = .record call now ctxErr err →
    w.inFlight.lookup call = some adm → adm.epoch ≠ w.breaker.epoch → w'.breaker = w.breaker

/-! ## The invariant -/

/-- What carries the accounting: nothing is admitted under a later epoch, and the
publishes of the current epoch are probes exactly in the half-open state. -/
structure Inv (w : World) : Prop extends Accounted w where
  admitted_le : ∀ p ∈ w.inFlight, p.2.epoch ≤ w.breaker.epoch
  booked_le : ∀ e ∈ w.booked, e.adm.epoch ≤ w.breaker.epoch
  current : ∀ p ∈ w.inFlight, p.2.epoch = w.breaker.epoch →
    w.breaker.state ≠ .opened ∧ (p.2.probe ↔ w.breaker.state = .halfOpen)
  slots : 0 < w.breaker.cfg.halfOpenMax
  cleared : w.breaker.state ≠ .closed → w.breaker.failures = 0

theorem inv_start (cfg : BreakerConfig) : Inv (start cfg) := by
  have h1 : (0 : Int) < (newBreaker cfg).cfg.failureThreshold := by
    simp only [newBreaker]
    split <;> omega
  have h2 : (0 : Int) < (newBreaker cfg).cfg.halfOpenMax := by
    simp only [newBreaker]
    split <;> omega
  constructor
  · constructor
    · rfl
    · exact Int.le_of_lt h2
    · intro _; rfl
    · exact h1
    · intro h; cases h
  · intro p hp; cases hp
  · intro e he; cases he
  · intro p hp; cases hp
  · exact h2
  · intro h; exact absurd rfl h

theorem mem_of_lookup {l : List (Nat × Admission)} {call : Nat} {adm : Admission}
    (h : l.lookup call = some adm) : (call, adm) ∈ l := by
  obtain ⟨l₁, l₂, rfl, -⟩ := List.lookup_eq_some_iff.mp h
  simp

/-- After the epoch has moved on, nothing in flight counts. -/
theorem countP_newer {l : List (Nat × Admission)} {n : Nat} (h : ∀ p ∈ l, p.2.epoch ≤ n) :
    l.countP (fun p => p.2.epoch = n + 1 && p.2.probe) = 0 := by
  rw [List.countP_eq_zero]
  intro p hp
  have := h p hp
  simp
  omega

theorem streak_newer {l : List Entry} {n : Nat} (h : ∀ e ∈ l, e.adm.epoch ≤ n) :
    streak (n + 1) l = 0 := by
  have hnil : l.filter (fun e => e.adm.epoch = n + 1) = [] := by
    rw [List.filter_eq_nil_iff]
    intro e he
    have := h e he
    simp
    omega
  simp [streak, hnil]

theorem streak_cons (n : Nat) (e : Entry) (l : List Entry) :
    streak n (e :: l) =
      if e.adm.epoch ≠ n then streak n l
      else match e.outcome with
        | .success => 0
        | .failure => streak n l + 1
        | .neutral => streak n l := by
  by_cases he : e.adm.epoch = n
  · cases ho : e.outcome <;> simp [streak, he, ho]
  · simp [streak, he]

theorem lastOpened_cons (e : Entry) (l : List Entry) :
    lastOpened (e :: l) =
      if e.after = .opened ∧ e.before ≠ .opened then some e.now else lastOpened l := by
  simp only [lastOpened, List.find?_cons]
  by_cases he : e.after = .opened ∧ e.before ≠ .opened <;> simp [he]

/-! ## One step -/

/-- Letting a publish through under the current epoch. -/
theorem Inv.enter {w : World} (h : Inv w) (call : Nat) {adm : Admission} {n : Nat}
    (he : adm.epoch = w.breaker.epoch) (ho : w.breaker.state ≠ .opened)
    (hp : adm.probe ↔ w.breaker.state = .halfOpen)
    (hn : n = if w.breaker.state = .halfOpen then w.probing + 1 else 0)
    (hle : n ≤ w.breaker.cfg.halfOpenMax) :
    Inv { w with
      breaker := { w.breaker with probes := n }
      inFlight := (call, adm) :: w.inFlight } where
  probes := by
    rw [hn]
    split
    · rename_i hs
      simp [World.probing, he, hp.mpr hs]
    · rfl
  probes_le := hle
  failures := h.failures
  failures_lt := h.failures_lt
  openedAt := h.openedAt
  admitted_le := by
    rintro p (_ | ⟨_, hm⟩)
    · exact he.le
    · exact h.admitted_le p hm
  booked_le := h.booked_le
  current := by
    rintro p (_ | ⟨_, hm⟩)
    · exact fun _ => ⟨ho, hp⟩
    · exact h.current p hm
  slots := h.slots
  cleared := h.cleared

theorem Inv.entered {w : World} (h : Inv w) (call : Nat) (now : Int) {b : Breaker}
    {adm : Option Admission} (ha : Admitted w.breaker now b adm) :
    Inv { w with
      breaker := b
      inFlight := (adm.map fun adm => (call, adm)).toList ++ w.inFlight } := by
  cases ha with
  | passes hs =>
    have hprobes := h.probes
    simp only [hs, reduceCtorEq, if_false] at hprobes
    exact h.enter call rfl (by simp [hs]) (by simp [hs]) (by simp [hs, hprobes]) h.probes_le
  | rejects _ _ => exact h
  | full _ _ => exact h
  | joins hs hlt =>
    have hprobes := h.probes
    rw [if_pos hs] at hprobes
    exact h.enter call rfl (by simp [hs]) (by simp [hs]) (by simp [hs, hprobes]) (by push_cast; omega)
  | probes q hs hr =>
    have hzero := h.cleared (by simp [hs])
    -- the epoch moves on, so the new probe is the only publish that counts
    refine { probes := ?_, probes_le := ?_, failures := ?_, failures_lt := h.failures_lt,
             openedAt := ?_, admitted_le := ?_, booked_le := ?_, current := ?_, slots := h.slots,
             cleared := fun _ => hzero }
    · have := countP_newer h.admitted_le
      simp only [Option.map_some, Option.toList_some, List.singleton_append, World.probing,
        List.countP_cons, this]
      simp
    · exact h.slots
    · simp
    · simp
    · rintro p (_ | ⟨_, hm⟩)
      · exact le_rfl
      · exact (h.admitted_le p hm).trans (Nat.le_succ _)
    · exact fun e he => (h.booked_le e he).trans (Nat.le_succ _)
    · rintro p (_ | ⟨_, hm⟩)
      · simp
      · intro he
        have := h.admitted_le p hm
        simp only at he
        omega

/-- Booking an outcome that leaves the state as it was. -/
theorem Inv.leave {w : World} (h : Inv w) {call : Nat} {adm : Admission} {n f : Nat} {e : Entry}
    (hm : (call, adm) ∈ w.inFlight) (hadm : e.adm = adm) (hb : e.before = e.after)
    (hn : n = if w.breaker.state = .halfOpen then
      w.probing - (if adm.epoch = w.breaker.epoch ∧ adm.probe then 1 else 0) else 0)
    (hf : w.breaker.state = .closed → f = streak w.breaker.epoch (e :: w.booked))
    (hlt : f < w.breaker.cfg.failureThreshold) (hz : w.breaker.state ≠ .closed → f = 0) :
    Inv { breaker := { w.breaker with probes := n, failures := f }
          inFlight := w.inFlight.erase (call, adm)
          booked := e :: w.booked } where
  probes := by
    simp only [hn, World.probing, List.countP_erase, hm, true_and, decide_eq_true_eq,
      Bool.and_eq_true]
  probes_le := by
    have h1 := h.probes_le
    have h2 := h.probes
    have : n ≤ w.breaker.probes := by
      rw [hn, h2]
      split
      · exact Nat.sub_le _ _
      · exact le_rfl
    simp only
    omega
  failures := hf
  failures_lt := hlt
  openedAt := by
    intro hs
    rw [lastOpened_cons, if_neg (by rw [hb]; simp)]
    exact h.openedAt hs
  admitted_le := fun p hp => h.admitted_le p (List.mem_of_mem_erase hp)
  booked_le := by
    rintro x (_ | ⟨_, hx⟩)
    · rw [hadm]
      exact h.admitted_le _ hm
    · exact h.booked_le x hx
  current := fun p hp => h.current p (List.mem_of_mem_erase hp)
  slots := h.slots
  cleared := hz

/-- Booking an outcome that moves the circuit: every count starts again. -/
theorem Inv.move {w : World} (h : Inv w) {call : Nat} {adm : Admission} {e : Entry}
    {s : BreakerState} {t : Int} {q : List StateChange}
    (hm : (call, adm) ∈ w.inFlight) (hadm : e.adm = adm) (hs : s ≠ .halfOpen)
    (ht : s = .opened → lastOpened (e :: w.booked) = some t) :
    Inv { breaker := { w.breaker with state := s, epoch := w.breaker.epoch + 1, failures := 0,
                                      openedAt := t, probes := 0, pending := q }
          inFlight := w.inFlight.erase (call, adm)
          booked := e :: w.booked } where
  probes := by simp [hs]
  probes_le := Int.le_of_lt h.slots
  failures := by
    intro _
    refine (streak_newer ?_).symm
    rintro x (_ | ⟨_, hx⟩)
    · rw [hadm]
      exact h.admitted_le _ hm
    · exact h.booked_le x hx
  failures_lt := by
    have := h.failures_lt
    simp only
    omega
  openedAt := ht
  admitted_le := fun p hp => (h.admitted_le p (List.mem_of_mem_erase hp)).trans (Nat.le_succ _)
  booked_le := by
    rintro x (_ | ⟨_, hx⟩)
    · rw [hadm]
      exact (h.admitted_le _ hm).trans (Nat.le_succ _)
    · exact (h.booked_le x hx).trans (Nat.le_succ _)
  current := by
    intro p hp he
    have := h.admitted_le p (List.mem_of_mem_erase hp)
    simp only at he
    omega
  slots := h.slots
  cleared := fun _ => rfl

theorem Inv.record {w : World} (h : Inv w) {call : Nat} {adm : Admission} (now : Int) {o : Outcome}
    {b : Breaker} (hm : (call, adm) ∈ w.inFlight) (hb : Booked w.breaker adm now o b) :
    Inv { breaker := b
          inFlight := w.inFlight.erase (call, adm)
          booked := ⟨adm, o, now, w.breaker.state, b.state⟩ :: w.booked } := by
  have hprobes := h.probes
  cases hb with
  | stale _ he =>
    exact h.leave hm rfl rfl (by simp [he, hprobes]) (by simp [streak_cons, he]; exact h.failures)
      h.failures_lt h.cleared
  | closes q he hs => exact h.move hm rfl (by simp) (by simp)
  | clears he hs =>
    have hlt := h.failures_lt
    exact h.leave hm rfl rfl (by simpa [hs] using hprobes) (by simp [streak_cons, he]) (by omega)
      (fun _ => rfl)
  | reopens q he hs => exact h.move hm rfl (by simp) (by simp [lastOpened_cons, hs])
  | counts he hs hlt =>
    refine h.leave hm rfl rfl (by simpa [hs] using hprobes) ?_ (by push_cast; exact hlt)
      (fun hc => absurd hs hc)
    intro _
    simp [streak_cons, he, h.failures hs]
  | trips q he hs hle =>
    have := h.move (q := q) (s := .opened) (t := now) hm (e := ⟨adm, .failure, now, .closed, .opened⟩)
      rfl (by simp) (by simp [lastOpened_cons])
    simp only [hs, reduceCtorEq, if_false] at hprobes
    simpa [hs, hprobes] using this
  | late he hs => exact absurd hs (h.current _ hm he).1
  | frees he hs hp hpos =>
    exact h.leave hm rfl rfl (by simp [hs, he, hp, hprobes]) (by simp [hs]) h.failures_lt h.cleared
  | passes he hn =>
    have hprobe : adm.probe ↔ w.breaker.state = .halfOpen := (h.current _ hm he).2
    refine h.leave hm rfl rfl ?_ ?_ h.failures_lt h.cleared
    · -- a probe in flight is counted, so its slot is there to be freed
      by_cases hs : w.breaker.state = .halfOpen
      · have hpos : 0 < w.probing := List.countP_pos_iff.mpr ⟨_, hm, by simp [he, hprobe.mpr hs]⟩
        rw [if_pos hs] at hprobes
        exact absurd ⟨hprobe.mpr hs, hs, by omega⟩ hn
      · simpa [hs] using hprobes
    · intro hs
      simp [streak_cons, he, h.failures hs]

theorem inv_step {w w' : World} {a : Act} (h : Inv w) (hs : step w a = some w') : Inv w' := by
  cases a with
  | enter call now =>
    simp only [step] at hs
    split at hs
    · cases hs
    · have ha := h.entered call now (w.breaker.admitPublish_admitted now)
      split at hs <;> rename_i heq <;> cases hs <;> simpa [heq] using ha
  | record call now ctxErr err =>
    simp only [step] at hs
    split at hs
    · cases hs
    · rename_i adm hl
      cases hs
      exact h.record now (mem_of_lookup hl) (w.breaker.record_booked ctxErr adm err now)

theorem cfg_step {w w' : World} {a : Act} (hs : step w a = some w') :
    w'.breaker.cfg = w.breaker.cfg := by
  cases a with
  | enter call now =>
    have ha := w.breaker.admitPublish_admitted now
    simp only [step] at hs
    split at hs
    · cases hs
    split at hs <;> rename_i heq <;> cases hs <;> rw [heq] at ha <;> cases ha <;> rfl
  | record call now ctxErr err =>
    simp only [step] at hs
    split at hs
    · cases hs
    rename_i adm hl
    cases hs
    have hb := w.breaker.record_booked ctxErr adm err now
    generalize (w.breaker.record ctxErr adm err now).1 = b at hb ⊢
    generalize outcome ctxErr err = o at hb
    cases hb <;> rfl

theorem inv_of_run {cfg : BreakerConfig} {as : List Act} {w : World}
    (h : Run step anyStep (start cfg) as w) : Inv w :=
  h.invariant (inv_start cfg) fun _ _ _ hi _ hs => inv_step hi hs

/-! ## Every transition has its grounds -/

theorem justified_of_inv {w w' : World} {a : Act} (h : Inv w) (hs : step w a = some w') :
    Justified w a w' := by
  cases a with
  | enter call now =>
    refine ⟨?_, fun _ _ _ _ _ ha => by cases ha⟩
    have ha := w.breaker.admitPublish_admitted now
    simp only [step] at hs
    split at hs
    · cases hs
    split at hs <;> rename_i heq <;> cases hs <;> rw [heq] at ha <;> cases ha <;>
      simp only [ne_eq, not_true_eq_false, false_implies]
    rename_i q hst hr
    intro _
    rw [hst]
    exact ⟨call, now, _, rfl, h.openedAt hst, hr⟩
  | record call now ctxErr err =>
    simp only [step] at hs
    split at hs
    · cases hs
    rename_i adm hl
    cases hs
    have hm := mem_of_lookup hl
    have hb := w.breaker.record_booked ctxErr adm err now
    generalize (w.breaker.record ctxErr adm err now).1 = b at hb ⊢
    have hbooks : Books w (.record call now ctxErr err) adm (outcome ctxErr err) :=
      ⟨call, now, ctxErr, err, rfl, hm, rfl⟩
    generalize outcome ctxErr err = o at hb hbooks
    refine ⟨?_, ?_⟩
    · cases hb <;> simp only [ne_eq, not_true_eq_false, false_implies]
      case closes q he hst =>
        intro _
        rw [hst]
        exact ⟨adm, he, (h.current _ hm he).2.mpr hst, hbooks⟩
      case reopens q he hst =>
        intro _
        rw [hst]
        exact ⟨adm, he, (h.current _ hm he).2.mpr hst, hbooks⟩
      case trips q he hst hle =>
        intro _
        rw [hst]
        have hlt := h.failures_lt
        rw [h.failures hst] at hle hlt
        exact ⟨adm, he, hbooks, by omega⟩
    · rintro _ _ _ _ _ ⟨⟩ hl' hne
      rw [hl] at hl'
      cases hl'
      cases hb <;> first | rfl | exact absurd ‹_› hne

/-- In every state of every run the counters count what they are for, and every
further step moves the circuit only on the grounds given. -/
theorem stragglers_accounted {cfg : BreakerConfig} {as : List Act} {w : World}
    (h : Run step anyStep (start cfg) as w) :
    w.breaker.cfg = (newBreaker cfg).cfg ∧ Accounted w ∧
      ∀ a w', step w a = some w' → Justified w a w' := by
  refine ⟨?_, (inv_of_run h).toAccounted, fun _ _ hs => justified_of_inv (inv_of_run h) hs⟩
  exact h.invariant (P := fun w => w.breaker.cfg = (newBreaker cfg).cfg) rfl
    fun _ _ _ hc _ hs => (cfg_step hs).trans hc

/-- One failure trips the circuit while an earlier publish is still out; that
publish then reports a neutral outcome while the probe is in flight. -/
def straggling : List Act :=
  [.enter 1 0, .enter 2 0, .record 2 5 none (some { chain := [.connectionLost] }), .enter 3 20,
   .record 1 21 none (some { chain := [.packetTooLarge] }), .enter 4 22]

def tripAtOnce : BreakerConfig := { failureThreshold := 1, recoveryTimeout := 10 }

/-- The straggler frees no slot: one probe is in flight and counted. -/
theorem stragglers_accounted_probe : ∃ w, exec step (start tripAtOnce) straggling = some w ∧
    w.breaker.state = .halfOpen ∧ w.inFlight.map Prod.fst = [3] ∧
    w.breaker.cfg = (newBreaker tripAtOnce).cfg ∧ Accounted w ∧
    ∀ a w', step w a = some w' → Justified w a w' := by
  have hs : (exec step (start tripAtOnce) straggling).map
      (fun w => (w.breaker.state, w.inFlight.map Prod.fst)) = some (.halfOpen, [3]) := by decide
  obtain ⟨w, hw, hs⟩ := Option.map_eq_some_iff.mp hs
  simp only [Prod.mk.injEq] at hs
  exact ⟨w, hw, hs.1, hs.2, stragglers_accounted (run_iff_exec.mpr hw)⟩

end GoMqtt.Circuit
