import Mathlib.Logic.Function.Basic
import GoMqtt.Lib.Run
import GoMqtt.Reconnect.Backoff

/-! # Whose drop a flap is

The reconnect loop over a `TCPClient`. A dropped session clears the link pointer
first and raises the lost token later, and the token waits in a channel with one
slot; the loop can reconnect on its timer at any point in between. A token it then
takes for a flap of the new session was raised by the one before. Here each token
carries the session that raised it. -/
namespace GoMqtt.Reconnect
open GoMqtt.Lib

/-- Where `Start` and then the loop it spawns stand. `select` and `flap` wait with a
deadline for their timer. -/
inductive LoopPc
  | idle
  | drain
  | firstConnect
  | firstCallbacks
  | begin
  | arm
  | select (deadline : Int)
  | flap (deadline : Int)
  | reconnect
  | callbacks
  deriving DecidableEq, Repr

/-- A session `Start` or the loop has established is behind. -/
def LoopPc.looping : LoopPc → Bool
  | .idle | .drain | .firstConnect => false
  | _ => true

/-- `lastSuccess` is set for the last session established. -/
def LoopPc.timed : LoopPc → Bool
  | .arm | .select _ | .flap _ | .reconnect => true
  | _ => false

/-- How far the teardown of a session has come: `cleared` is where the pointer is nil and
the token not yet raised. -/
inductive Drop
  | up
  | cleared
  | done
  deriving DecidableEq, Repr

/-- A flap the loop counted: the session that raised its token, the one established
last, and the one `lastSuccess` is of. -/
structure Flap where
  token : Nat
  current : Option Nat
  since : Option Nat
  deriving DecidableEq, Repr

/-- The loop's variables, the client's link pointer, its lost channel with the session
that raised the token, and the teardown of each session. -/
structure Keeper where
  cfg : LifecycleConfig
  clock : Int := 0
  pc : LoopPc := .idle
  backoff : Int := 0
  lastSuccess : Int := 0
  flapStreak : Nat := 0
  link : Option Nat := none
  drops : Nat → Drop := fun _ => .up
  nextSession : Nat := 0
  lost : Option Nat := none
  current : Option Nat := none
  since : Option Nat := none
  flaps : List Flap := []

/-- `Start` is called or the next step taken, with what Connect answers and what the
jitter draws if it comes to that; a branch of the loop's `select` is taken, or the end of
its context found; a session drops, raises its token, time passes. -/
inductive Event
  | start
  | go (answer : Bool) (draw : Int)
  | lost (draw : Int)
  | timer
  | ctxDone
  | drop (graceful : Bool)
  | signal (session : Nat)
  | tick (now : Int)
  deriving DecidableEq, Repr

/-- A lifecycle over a client that may have been connected before. -/
def Keeper.init (cfg : LifecycleConfig) (adopted : Bool) : Keeper :=
  { cfg := newLifecycle cfg
    link := if adopted then some 0 else none
    nextSession := if adopted then 1 else 0 }

inductive ConnectError
  | alreadyConnected
  | failed
  deriving DecidableEq, Repr

def Keeper.connect (k : Keeper) (answer : Bool) : Except ConnectError Keeper :=
  if k.link.isSome then .error .alreadyConnected
  else if answer then
    .ok { k with
      link := some k.nextSession
      nextSession := k.nextSession + 1
      current := some k.nextSession }
  else .error .failed

/-- `lastSuccess` and the back-off once a session is established. -/
def Keeper.succeed (k : Keeper) : Keeper :=
  { k with lastSuccess := k.clock, since := k.current, backoff := k.cfg.initialBackoff, pc := .arm }

/-- The steps that wait for nothing. -/
def Keeper.go (k : Keeper) (answer : Bool) (draw : Int) : Option Keeper :=
  match k.pc with
  | .drain => some { k with lost := none, pc := .firstConnect }
  | .firstConnect =>
    match k.connect answer with
    | .ok k => some { k with pc := .firstCallbacks }
    | .error _ => some { k with pc := .idle }
  | .firstCallbacks => some { k with pc := .begin }
  | .begin => some { k.succeed with flapStreak := 0 }
  | .arm =>
    if k.cfg.draws draw then
      some { k with pc := .select (k.clock + k.cfg.jittered k.backoff draw) }
    else none
  | .reconnect =>
    match k.connect answer with
    | .ok k => some { k with pc := .callbacks }
    | .error .alreadyConnected => some { k with backoff := k.cfg.maxBackoff, pc := .arm }
    | .error .failed => some { k with backoff := k.cfg.nextBackoff k.backoff, pc := .arm }
  | .callbacks => some k.succeed
  | .idle | .select _ | .flap _ => none

/-- The lost branch, with the session the token is of. -/
def Keeper.takeLost (k : Keeper) (token : Nat) (draw : Int) : Keeper :=
  if 0 < k.cfg.flapWindow && k.clock - k.lastSuccess < k.cfg.flapWindow then
    let delay := k.cfg.flapDelay (k.flapStreak + 1)
    { k with
      lost := none
      flapStreak := k.flapStreak + 1
      flaps := k.flaps ++ [⟨token, k.current, k.since⟩]
      pc := .flap (k.clock + k.cfg.jittered delay draw) }
  else
    { k with lost := none, flapStreak := 0, backoff := k.cfg.initialBackoff, pc := .reconnect }

def keep (k : Keeper) : Event → Option Keeper
  | .start => if k.pc = .idle then some { k with pc := .drain } else none
  | .go answer draw => k.go answer draw
  | .lost draw =>
    match k.pc, k.lost with
    | .select _, some token => if k.cfg.draws draw then some (k.takeLost token draw) else none
    | _, _ => none
  | .timer =>
    match k.pc with
    | .select deadline | .flap deadline =>
      if deadline ≤ k.clock then some { k with pc := .reconnect } else none
    | _ => none
  | .ctxDone =>
    match k.pc with
    | .begin | .select _ | .flap _ => some { k with pc := .idle }
    | _ => none
  | .drop graceful =>
    match k.link with
    | some i =>
      some { k with
        link := none
        drops := Function.update k.drops i (if graceful then .done else .cleared) }
    | none => none
  | .signal i =>
    if k.drops i = .cleared then
      some { k with
        drops := Function.update k.drops i .done
        lost := if k.lost.isNone then some i else k.lost }
    else none
  | .tick now => if k.clock ≤ now then some { k with clock := now } else none

/-! ## What a step does -/

/-- The steps of `Keeper.go`, each with where it is taken and where it leads. -/
inductive Goes (k : Keeper) (answer : Bool) (draw : Int) : Keeper → Prop
  | drained (hpc : k.pc = .drain) : Goes k answer draw { k with lost := none, pc := .firstConnect }
  | established {pc : LoopPc} (hl : k.link = none) (ha : answer = true)
      (hpc : k.pc = .firstConnect ∧ pc = .firstCallbacks ∨ k.pc = .reconnect ∧ pc = .callbacks) :
      Goes k answer draw { k with
        link := some k.nextSession
        nextSession := k.nextSession + 1
        current := some k.nextSession
        pc := pc }
  | refused (hpc : k.pc = .firstConnect) : Goes k answer draw { k with pc := .idle }
  | spawned (hpc : k.pc = .firstCallbacks) : Goes k answer draw { k with pc := .begin }
  | begun (hpc : k.pc = .begin) : Goes k answer draw { k.succeed with flapStreak := 0 }
  | armed (hpc : k.pc = .arm) :
      Goes k answer draw { k with pc := .select (k.clock + k.cfg.jittered k.backoff draw) }
  | stillUp (hpc : k.pc = .reconnect) (hl : k.link ≠ none) :
      Goes k answer draw { k with backoff := k.cfg.maxBackoff, pc := .arm }
  | failed (hpc : k.pc = .reconnect) (hl : k.link = none) (ha : answer = false) :
      Goes k answer draw { k with backoff := k.cfg.nextBackoff k.backoff, pc := .arm }
  | succeeded (hpc : k.pc = .callbacks) : Goes k answer draw k.succeed

theorem connect_cases (k : Keeper) (answer : Bool) :
    (k.link ≠ none ∧ k.connect answer = .error .alreadyConnected) ∨
    (k.link = none ∧ answer = true ∧ k.connect answer = .ok { k with
      link := some k.nextSession
      nextSession := k.nextSession + 1
      current := some k.nextSession }) ∨
    (k.link = none ∧ answer = false ∧ k.connect answer = .error .failed) := by
  unfold Keeper.connect
  cases hl : k.link with
  | some i => exact .inl ⟨by simp, by simp⟩
  | none =>
    cases answer with
    | true => exact .inr (.inl ⟨rfl, rfl, by simp⟩)
    | false => exact .inr (.inr ⟨rfl, rfl, by simp⟩)

theorem goes {k k' : Keeper} {answer : Bool} {draw : Int} (h : k.go answer draw = some k') :
    Goes k answer draw k' := by
  unfold Keeper.go at h
  cases hpc : k.pc with
  | drain =>
    simp only [hpc] at h
    cases h
    exact .drained hpc
  | firstConnect =>
    simp only [hpc] at h
    rcases connect_cases k answer with ⟨-, hc⟩ | ⟨hl, ha, hc⟩ | ⟨-, -, hc⟩
    · rw [hc] at h
      cases h
      exact .refused hpc
    · rw [hc] at h
      cases h
      exact .established hl ha (.inl ⟨hpc, rfl⟩)
    · rw [hc] at h
      cases h
      exact .refused hpc
  | firstCallbacks =>
    simp only [hpc] at h
    cases h
    exact .spawned hpc
  | begin =>
    simp only [hpc] at h
    cases h
    exact .begun hpc
  | arm =>
    simp only [hpc] at h
    split at h
    · cases h
      exact .armed hpc
    · cases h
  | reconnect =>
    simp only [hpc] at h
    rcases connect_cases k answer with ⟨hl, hc⟩ | ⟨hl, ha, hc⟩ | ⟨hl, ha, hc⟩
    · rw [hc] at h
      cases h
      exact .stillUp hpc hl
    · rw [hc] at h
      cases h
      exact .established hl ha (.inr ⟨hpc, rfl⟩)
    · rw [hc] at h
      cases h
      exact .failed hpc hl ha
  | callbacks =>
    simp only [hpc] at h
    cases h
    exact .succeeded hpc
  | idle | select | flap =>
    simp only [hpc] at h
    cases h

/-- The steps of `keep`. -/
inductive Keeps (k : Keeper) : Event → Keeper → Prop
  | started (hpc : k.pc = .idle) : Keeps k .start { k with pc := .drain }
  | went {answer : Bool} {draw : Int} {k' : Keeper} (h : Goes k answer draw k') :
      Keeps k (.go answer draw) k'
  | lost {draw deadline : Int} {token : Nat} (hpc : k.pc = .select deadline)
      (hl : k.lost = some token) : Keeps k (.lost draw) (k.takeLost token draw)
  | expired {deadline : Int} (hpc : k.pc = .select deadline ∨ k.pc = .flap deadline) :
      Keeps k .timer { k with pc := .reconnect }
  | ended : Keeps k .ctxDone { k with pc := .idle }
  | dropped {i : Nat} (graceful : Bool) (hl : k.link = some i) : Keeps k (.drop graceful) { k with
      link := none
      drops := Function.update k.drops i (if graceful then .done else .cleared) }
  | signalled {i : Nat} (hd : k.drops i = .cleared) : Keeps k (.signal i) { k with
      drops := Function.update k.drops i .done
      lost := if k.lost.isNone then some i else k.lost }
  | ticked (now : Int) : Keeps k (.tick now) { k with clock := now }

theorem keeps {k k' : Keeper} {e : Event} (h : keep k e = some k') : Keeps k e k' := by
  cases e with
  | start =>
    simp only [keep] at h
    split at h
    · rename_i hpc
      cases h
      exact .started hpc
    · cases h
  | go answer draw => exact .went (goes h)
  | lost draw =>
    simp only [keep] at h
    split at h
    · rename_i hpc hl
      split at h
      · cases h
        exact .lost hpc hl
      · cases h
    · cases h
  | timer =>
    simp only [keep] at h
    split at h
    · rename_i hpc
      split at h
      · cases h
        exact .expired (.inl hpc)
      · cases h
    · rename_i hpc
      split at h
      · cases h
        exact .expired (.inr hpc)
      · cases h
    · cases h
  | ctxDone =>
    simp only [keep] at h
    split at h
    case h_4 => cases h
    all_goals
      cases h
      exact .ended
  | drop graceful =>
    simp only [keep] at h
    split at h
    · rename_i hl
      cases h
      exact .dropped graceful hl
    · cases h
  | signal i =>
    simp only [keep] at h
    split at h
    · rename_i hd
      cases h
      exact .signalled hd
    · cases h
  | tick now =>
    simp only [keep] at h
    split at h
    · cases h
      exact .ticked now
    · cases h

/-! ## Sessions that leave nothing behind -/

/-- A step that is a successful Connect. -/
def Keeper.establishes (k : Keeper) : Event → Bool
  | .go answer _ => answer && k.link.isNone && (k.pc = .firstConnect || k.pc = .reconnect)
  | _ => false

/-- Where a Connect succeeds, every session before it has raised its token, and no token
is left in the channel. -/
def Repaired (k : Keeper) (e : Event) : Prop :=
  k.establishes e = true → k.lost = none ∧ ∀ i < k.nextSession, k.drops i ≠ .cleared

instance (k : Keeper) (e : Event) : Decidable (Repaired k e) :=
  inferInstanceAs (Decidable
    (k.establishes e = true → k.lost = none ∧ ∀ i < k.nextSession, k.drops i ≠ .cleared))

/-- What is on its way belongs to the session established last. -/
structure Attributed (k : Keeper) : Prop where
  fresh : ∀ i, k.nextSession ≤ i → k.drops i = .up
  known : ∀ i, k.link = some i → i < k.nextSession
  link : k.pc.looping = true → ∀ i, k.link = some i → k.current = some i
  dropped : k.pc.looping = true → ∀ i, k.drops i = .cleared → k.current = some i
  token : k.pc.looping = true → ∀ i, k.lost = some i → k.current = some i
  timed : k.pc.timed = true → k.since = k.current
  flaps : ∀ f ∈ k.flaps, f.current = some f.token ∧ f.since = some f.token

theorem attributed_init (cfg : LifecycleConfig) (adopted : Bool) :
    Attributed (Keeper.init cfg adopted) where
  fresh i _ := rfl
  known i h := by
    cases adopted with
    | false => cases h
    | true =>
      cases h
      exact Nat.one_pos
  link h := by cases h
  dropped h := by cases h
  token h := by cases h
  timed h := by cases h
  flaps f h := by cases h

section steps

variable {k k' : Keeper}

/-- A step that establishes nothing and drops nothing. -/
theorem Attributed.keep (h : Attributed k) (hnext : k'.nextSession = k.nextSession)
    (hlink : k'.link = k.link) (hdrops : k'.drops = k.drops) (hcur : k'.current = k.current)
    (hlost : k'.lost = k.lost ∨ k'.lost = none)
    (hloop : k'.pc.looping = true → k.pc.looping = true)
    (htimed : k'.pc.timed = true → k'.since = k'.current)
    (hflaps : ∀ f ∈ k'.flaps, f.current = some f.token ∧ f.since = some f.token) :
    Attributed k' := by
  refine ⟨?_, ?_, ?_, ?_, ?_, htimed, hflaps⟩
  · rw [hnext, hdrops]
    exact h.fresh
  · rw [hnext, hlink]
    exact h.known
  · intro hl
    rw [hlink, hcur]
    exact h.link (hloop hl)
  · intro hl
    rw [hdrops, hcur]
    exact h.dropped (hloop hl)
  · intro hl i hi
    rcases hlost with hlost | hlost
    · rw [hcur]
      exact h.token (hloop hl) i (hlost ▸ hi)
    · rw [hlost] at hi
      cases hi

/-- A step out of the loop, or before it. -/
theorem Attributed.outside (h : Attributed k) {pc : LoopPc} (hl : pc.looping = false)
    (ht : pc.timed = false) : Attributed { k with pc := pc } :=
  h.keep rfl rfl rfl rfl (.inl rfl) (fun h => by cases hl.symm.trans h)
    (fun h => by cases ht.symm.trans h) h.flaps

/-- A session is established with nothing of the others on its way. -/
theorem Attributed.establish (h : Attributed k) (hlost : k.lost = none)
    (hdone : ∀ i < k.nextSession, k.drops i ≠ .cleared) {pc : LoopPc} (hpc : pc.timed = false) :
    Attributed { k with
      link := some k.nextSession
      nextSession := k.nextSession + 1
      current := some k.nextSession
      pc := pc } := by
  refine ⟨fun i hi => h.fresh i (Nat.le_of_succ_le hi), ?_, ?_, ?_, ?_, ?_, h.flaps⟩
  · intro i hi
    cases hi
    exact Nat.lt_succ_self _
  · intro _ i hi
    exact hi
  · intro _ i hi
    rcases Nat.lt_or_ge i k.nextSession with hlt | hge
    · exact absurd hi (hdone i hlt)
    · cases (h.fresh i hge).symm.trans hi
  · intro _ i hi
    cases hlost.symm.trans hi
  · intro ht
    cases hpc.symm.trans ht

theorem Attributed.go (h : Attributed k) {answer : Bool} {draw : Int}
    (hr : Repaired k (.go answer draw)) (hg : Goes k answer draw k') : Attributed k' := by
  cases hg with
  | drained =>
    exact h.keep rfl rfl rfl rfl (.inr rfl) (fun hl => by cases hl) (fun ht => by cases ht) h.flaps
  | established hl ha hpc =>
    obtain ⟨hlost, hdone⟩ := hr (by
      rcases hpc with ⟨hpc, -⟩ | ⟨hpc, -⟩
      · simp [Keeper.establishes, hl, ha, hpc]
      · simp [Keeper.establishes, hl, ha, hpc])
    refine h.establish hlost hdone ?_
    rcases hpc with ⟨-, rfl⟩ | ⟨-, rfl⟩
    · rfl
    · rfl
  | refused => exact h.outside rfl rfl
  | spawned hpc =>
    exact h.keep rfl rfl rfl rfl (.inl rfl) (fun _ => by rw [hpc]; rfl) (fun ht => by cases ht)
      h.flaps
  | begun hpc | succeeded hpc =>
    exact h.keep rfl rfl rfl rfl (.inl rfl) (fun _ => by rw [hpc]; rfl) (fun _ => rfl) h.flaps
  | armed hpc | stillUp hpc _ | failed hpc _ _ =>
    exact h.keep rfl rfl rfl rfl (.inl rfl) (fun _ => by rw [hpc]; rfl)
      (fun _ => h.timed (by rw [hpc]; rfl)) h.flaps

/-- The token the loop takes is the last session's. -/
theorem Attributed.takeLost (h : Attributed k) {deadline : Int} {token : Nat} (draw : Int)
    (hpc : k.pc = .select deadline) (hl : k.lost = some token) :
    Attributed (k.takeLost token draw) := by
  have hloop : k.pc.looping = true := by rw [hpc]; rfl
  have htimed : k.since = k.current := h.timed (by rw [hpc]; rfl)
  have htoken : k.current = some token := h.token hloop token hl
  unfold Keeper.takeLost
  split
  · refine h.keep rfl rfl rfl rfl (.inr rfl) (fun _ => hloop) (fun _ => htimed) ?_
    intro f hf
    rcases List.mem_append.mp hf with hf | hf
    · exact h.flaps f hf
    · rw [List.mem_singleton.mp hf]
      exact ⟨htoken, htimed.trans htoken⟩
  · exact h.keep rfl rfl rfl rfl (.inr rfl) (fun _ => hloop) (fun _ => htimed) h.flaps

theorem Attributed.drop (h : Attributed k) {i : Nat} (d : Drop) (hi : k.link = some i) :
    Attributed { k with link := none, drops := Function.update k.drops i d } := by
  have hold : ∀ j, j ≠ i → Function.update k.drops i d j = k.drops j :=
    fun j hj => Function.update_of_ne hj _ _
  refine ⟨?_, ?_, ?_, ?_, h.token, h.timed, h.flaps⟩
  · intro j hj
    have hj : k.nextSession ≤ j := hj
    have hlt := h.known i hi
    show Function.update k.drops i d j = .up
    rw [hold j (by omega)]
    exact h.fresh j hj
  · intro j hj
    cases hj
  · intro _ j hj
    cases hj
  · intro hl j hj
    by_cases hji : j = i
    · subst hji
      exact h.link hl j hi
    · have hj : Function.update k.drops i d j = .cleared := hj
      rw [hold j hji] at hj
      exact h.dropped hl j hj

theorem Attributed.signal (h : Attributed k) {i : Nat} (hi : k.drops i = .cleared) :
    Attributed { k with
      drops := Function.update k.drops i .done
      lost := if k.lost.isNone then some i else k.lost } := by
  have hold : ∀ j, j ≠ i → Function.update k.drops i .done j = k.drops j :=
    fun j hj => Function.update_of_ne hj _ _
  refine ⟨?_, h.known, h.link, ?_, ?_, h.timed, h.flaps⟩
  · intro j hj
    have hup := h.fresh j hj
    have hne : j ≠ i := by
      rintro rfl
      cases hup.symm.trans hi
    exact (hold j hne).trans hup
  · intro hl j hj
    have hj : Function.update k.drops i .done j = .cleared := hj
    have hne : j ≠ i := by
      rintro rfl
      rw [Function.update_self] at hj
      cases hj
    rw [hold j hne] at hj
    exact h.dropped hl j hj
  · intro hl j hj
    have hj : (if k.lost.isNone then some i else k.lost) = some j := hj
    split at hj
    · cases hj
      exact h.dropped hl i hi
    · exact h.token hl j hj

end steps

theorem attributed_keep {k k' : Keeper} {e : Event} (h : Attributed k) (hr : Repaired k e)
    (hs : keep k e = some k') : Attributed k' := by
  cases keeps hs with
  | started | ended => exact h.outside rfl rfl
  | went hg => exact h.go hr hg
  | lost hpc hl => exact h.takeLost _ hpc hl
  | expired hpc =>
    rcases hpc with hpc | hpc
    all_goals
      exact h.keep rfl rfl rfl rfl (.inl rfl) (fun _ => by rw [hpc]; rfl)
        (fun _ => h.timed (by rw [hpc]; rfl)) h.flaps
  | dropped _ hl => exact h.drop _ hl
  | signalled hd => exact h.signal hd
  | ticked => exact h.keep rfl rfl rfl rfl (.inl rfl) id h.timed h.flaps

/-- Where no session leaves a token behind, every flap is the last session's own. -/
theorem flaps_attributed {cfg : LifecycleConfig} {adopted : Bool} {es : List Event} {k : Keeper}
    (h : Run keep Repaired (Keeper.init cfg adopted) es k) :
    ∀ f ∈ k.flaps, f.current = some f.token ∧ f.since = some f.token := by
  have hinv : Attributed k := h.invariant (attributed_init cfg adopted)
    fun _ _ _ hi hr hs => attributed_keep hi hr hs
  exact hinv.flaps

/-- The next `n` steps, with a connector that answers well. -/
def onward (n : Nat) : List Event := List.replicate n (.go true 0)

/-- A client is adopted after its session has dropped, and two sessions in a row drop
half a second after they came up. -/
def twoFlaps : List Event :=
  .drop false :: .signal 0 :: .start :: (onward 5 ++
    Event.tick 500000000 :: .drop false :: .signal 1 :: .lost 0 :: .tick 1500000000 :: .timer ::
    (onward 3 ++ [Event.tick 2000000000, .drop false, .signal 2, .lost 0]))

theorem flaps_attributed_twoFlaps : ∃ k, exec keep (Keeper.init {} true) twoFlaps = some k ∧
    k.flapStreak = 2 ∧ k.flaps.map Flap.token = [1, 2] ∧
    ∀ f ∈ k.flaps, f.current = some f.token ∧ f.since = some f.token := by
  have hview : (execOk keep Repaired (Keeper.init {} true) twoFlaps).map (fun k =>
      (k.flapStreak, k.flaps.map Flap.token)) = some (2, [1, 2]) := by decide +kernel
  obtain ⟨k, hk, hview⟩ := Option.map_eq_some_iff.mp hview
  rw [Prod.mk.injEq] at hview
  have hr := Run.of_execOk hk
  exact ⟨k, run_iff_exec.mp hr.any, hview.1, hview.2, flaps_attributed hr⟩

/-- The session drops as the timer fires, and raises its token when the next session is
up already. -/
def lateToken : List Event :=
  .start :: (onward 5 ++ Event.tick 1000000000 :: .drop false :: .timer :: (onward 3 ++
    Event.signal 0 :: .lost 0 :: .tick 2000000000 :: .timer :: onward 1))

/-- The token is in the channel, and `select` takes the timer. -/
def tokenLeft : List Event :=
  .start :: (onward 5 ++ Event.tick 1000000000 :: .drop false :: .signal 0 :: .timer :: (onward 3 ++
    Event.lost 0 :: .tick 2000000000 :: .timer :: onward 1))

/-- Either way the drop of the first session is a flap of the second, which is up all
along, and the back-off ends at its maximum. -/
theorem flap_of_earlier_session :
    (∃ k, exec keep (Keeper.init {} false) lateToken = some k ∧ k.flapStreak = 1 ∧
      k.flaps = [⟨0, some 1, some 1⟩] ∧ k.link = some 1 ∧ k.backoff = k.cfg.maxBackoff) ∧
    ∃ k, exec keep (Keeper.init {} false) tokenLeft = some k ∧ k.flapStreak = 1 ∧
      k.flaps = [⟨0, some 1, some 1⟩] ∧ k.link = some 1 ∧ k.backoff = k.cfg.maxBackoff := by
  have hview : ∀ es ∈ [lateToken, tokenLeft], (exec keep (Keeper.init {} false) es).map (fun k =>
      (k.flapStreak, k.flaps, k.link, decide (k.backoff = k.cfg.maxBackoff))) =
      some (1, [⟨0, some 1, some 1⟩], some 1, true) := by decide +kernel
  refine ⟨?_, ?_⟩
  · obtain ⟨k, hk, hv⟩ := Option.map_eq_some_iff.mp (hview lateToken (by simp))
    rw [Prod.mk.injEq, Prod.mk.injEq, Prod.mk.injEq, decide_eq_true_eq] at hv
    exact ⟨k, hk, hv⟩
  · obtain ⟨k, hk, hv⟩ := Option.map_eq_some_iff.mp (hview tokenLeft (by simp))
    rw [Prod.mk.injEq, Prod.mk.injEq, Prod.mk.injEq, decide_eq_true_eq] at hv
    exact ⟨k, hk, hv⟩

end GoMqtt.Reconnect
