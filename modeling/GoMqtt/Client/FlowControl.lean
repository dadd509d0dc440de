import GoMqtt.Client.Events
import GoMqtt.Client.Refinement

/-! # Flow control

How many exchanges may be unfinished when a permit is granted. The ledger says
that free permits and unfinished exchanges add up to what the last connect
applied. That is the negotiated size as long as no session is resumed with more
unfinished exchanges than the new size: `applySession` then seeds zero permits,
and every acknowledgement that brings the excess down gives one back. -/
namespace GoMqtt.Client
open GoMqtt.Protocol GoMqtt.Session GoMqtt.Lib

/-- No connect resumes more unfinished exchanges than the negotiated size. -/
def Fits (s : State) : Action → Prop
  | .connect h _ =>
    match s.link, State.negotiate s.cfg h with
    | none, .ok result => discards s.cfg result = true ∨
        (State.inflightPermits s.store : Int) ≤ quotaSize s.cfg result
    | _, _ => True
  | _ => True

instance (s : State) (a : Action) : Decidable (Fits s a) := by
  unfold Fits
  split
  · split <;> infer_instance
  · infer_instance

/-! ## Permits are never overdrawn -/

theorem Session.Move.permits_nonneg {ok : Session → Frame → Prop}
    {roll : Subscription → Subscription → Prop} {v w : Session} (h : 0 ≤ v.permits)
    (hm : Session.Move ok roll v w) : 0 ≤ w.permits := by
  cases hm with
  | send _ _ _ hp => exact Int.le_sub_one_of_lt hp
  | ended => exact Int.add_nonneg h (by decide)
  | resume => exact le_max_right _ _
  | restart => exact le_max_right _ _
  | subscribeFailed => rw [Session.withdraw_eq]; exact h
  | requestFailed => rw [Session.withdraw_eq, Session.unhold_eq]; exact h
  | requestDone => rw [Session.confirm_eq, Session.unhold_eq]; exact h
  | resubscribed => rw [Session.unhold_eq]; exact h
  | _ => exact h

/-! ## The seed of the live link -/

/-- The history up to the replay of a connect. -/
theorem hist_opened (s : State) (result : ConnectResult) :
    ∃ es n, (opened s result).hist = s.hist ++ es ++ [Event.applied result n] ∧
      (∀ e ∈ es, e = .discarded) ∧
      (discards s.cfg result = true → n = 0) ∧
      (discards s.cfg result = false → n = State.inflightPermits s.store) := by
  unfold opened State.applySession
  dsimp only
  split
  · rename_i hd
    exact ⟨[.discarded], _, rfl, by simp, fun _ => rfl, fun h => absurd (hd.symm.trans h) (by simp)⟩
  · rename_i hd
    exact ⟨[], _, by simp [State.log, State.setLink], by simp, fun h => absurd h hd, fun _ => rfl⟩

theorem Logs.replayed (s : State) (result : ConnectResult) (n : Nat) :
    Logs [.transport] (opened s result) (replayed s result n) := by
  have ht : Admits (fun e => e.origin ∈ [Origin.transport]) .transport := admits_of_mem (by simp)
  have hopened : Moves .outboundMax (fun e => e.origin ∈ [Origin.transport]) (fun _ _ => True)
      (opened s result) (opened s result) := .refl _
  have hent := hopened.replayEntries ht s.nextLink (opened s result).store.all n
    fun _ _ _ _ _ _ _ => by simp [Event.origin]
  exact (hent.resubscribeAll ht _ _ _ _).logs

/-- What the free permits and the unfinished exchanges add up to is the size
negotiated for the live link. -/
structure Seeded (s : State) : Prop where
  known : ∀ l result, .connected l result ∈ s.hist → l < s.nextLink
  seed : ∀ l result, s.link = some l → .connected l result ∈ s.hist →
    Session.ceiling s.cfg s.hist = quotaSize s.cfg result

theorem neutral_of_origin {e : Event} (h : e.origin ≠ .connect) : Session.Neutral e := by
  rintro result n rfl
  exact h rfl

theorem Seeded.logs {s t : State} (h : Seeded s)
    (ht : Logs [.call, .transport, .frame, .grant] s t) : Seeded t := by
  obtain ⟨⟨es, he, hes⟩, hl, hn, hc⟩ := ht
  have hold : ∀ l result, .connected l result ∈ t.hist → .connected l result ∈ s.hist := by
    intro l result hm
    rw [he] at hm
    rcases List.mem_append.mp hm with hm | hm
    · exact hm
    · exact absurd (hes _ hm) (by simp [Event.origin])
  refine ⟨fun l result hm => ?_, fun l result hl' hm => ?_⟩
  · rw [hn]
    exact h.known l result (hold l result hm)
  · have hs : s.link = some l := by
      rcases hl with hl | hl
      · exact hl ▸ hl'
      · rw [hl] at hl'; cases hl'
    rw [hc, he, Session.ceiling_append]
    · exact h.seed l result hs (hold l result hm)
    · intro e hm
      refine neutral_of_origin fun heq => ?_
      have := hes e hm
      rw [heq] at this
      simp at this

/-- The frames of `applySession` and of the replay, and nothing of a CONNACK. -/
theorem hist_replayed (s : State) (result : ConnectResult) (n : Nat) :
    ∃ es es' k, (replayed s result n).hist = s.hist ++ es ++ [Event.applied result k] ++ es' ∧
      (∀ e ∈ es, e = .discarded) ∧ (∀ e ∈ es', e.origin = .transport) ∧
      (discards s.cfg result = true → k = 0) ∧
      (discards s.cfg result = false → k = State.inflightPermits s.store) := by
  obtain ⟨es, k, he, hes, hk⟩ := hist_opened s result
  obtain ⟨⟨es', he', hes'⟩, -⟩ := Logs.replayed s result n
  exact ⟨es, es', k, by rw [he', he], hes, fun e hm => by simpa using hes' e hm, hk⟩

theorem cfg_opened (s : State) (result : ConnectResult) : (opened s result).cfg = s.cfg := by
  unfold opened State.applySession
  dsimp only
  split <;> rfl

theorem cfg_establish (s : State) (result : ConnectResult) (n : Nat) :
    (s.establish result n).cfg = s.cfg := by
  have hreplayed : (replayed s result n).cfg = s.cfg :=
    (Logs.replayed s result n).2.2.2.trans (cfg_opened s result)
  rw [establish_eq]
  split <;> exact hreplayed

theorem cfg_step (s : State) (a : Action) : (s.step a).cfg = s.cfg := by
  by_cases hc : a.connects = true
  · cases a with
    | connect hd n =>
      show (s.connect hd n).cfg = s.cfg
      unfold State.connect
      split
      · rfl
      · rfl
      · exact cfg_establish s _ n
    | _ => cases hc
  · obtain ⟨-, -, -, hcfg⟩ := Logs.any_step (s := s) (a := a) (by simpa using hc)
    exact hcfg

theorem Reach.cfg_eq {ok : State → Action → Prop} {cfg : TCPConfig} {as : List Action} {s : State}
    (h : Reach ok cfg as s) : s.cfg = cfg := by
  refine Run.invariant (P := fun s => s.cfg = cfg) h rfl ?_
  rintro t a _ ht - ⟨⟩
  rw [cfg_step, ht]

theorem Seeded.establish {s : State} (h : Seeded s) (result : ConnectResult) (n : Nat)
    (hlink : s.link = none)
    (hfits : discards s.cfg result = true ∨
      (State.inflightPermits s.store : Int) ≤ quotaSize s.cfg result) :
    Seeded (s.establish result n) := by
  obtain ⟨es, es', k, hhist, hes, hes', hzero, hcount⟩ := hist_replayed s result n
  obtain ⟨-, hl, hn, hc⟩ := Logs.replayed s result n
  obtain ⟨hol, -, hon, -⟩ := applySession_frame { s with nextLink := s.nextLink + 1 } result
  have hnext : (replayed s result n).nextLink = s.nextLink + 1 := hn.trans hon
  have hnone : (replayed s result n).link = none := by
    rcases hl with hl | hl
    · exact hl.trans (hol.trans hlink)
    · exact hl
  have hcfg : (replayed s result n).cfg = s.cfg := hc.trans (cfg_opened s result)
  -- The new link is the only one that can have been announced since.
  have hold : ∀ l r, .connected l r ∈ (replayed s result n).hist → l < s.nextLink := by
    intro l r hm
    rw [hhist] at hm
    simp only [List.mem_append, List.mem_singleton] at hm
    rcases hm with ((hm | hm) | hm) | hm
    · exact h.known l r hm
    · cases hes _ hm
    · cases hm
    · cases hes' _ hm
  have hk : (k : Int) ≤ quotaSize s.cfg result := by
    rcases Bool.eq_false_or_eq_true (discards s.cfg result) with hd | hd
    · rw [hzero hd]
      exact quotaSize_nonneg s.cfg result
    · rw [hcount hd]
      exact hfits.resolve_left (by simp [hd])
  have hseed : Session.ceiling s.cfg
      ((replayed s result n).hist ++ [Event.connected s.nextLink result]) =
      quotaSize s.cfg result := by
    rw [hhist, List.append_assoc, Session.ceiling_append, Session.ceiling_applied, max_eq_left hk]
    intro e hm
    rcases List.mem_append.mp hm with hm | hm
    · exact neutral_of_origin (by simp [hes' e hm])
    · rw [List.mem_singleton.mp hm]
      exact fun _ _ heq => by cases heq
  rw [establish_eq]
  generalize replayed s result n = t at hnext hnone hcfg hold hseed ⊢
  split
  · refine ⟨fun l r hm => ?_, fun l r hl' => ?_⟩
    · rw [hnext]
      exact Nat.lt_succ_of_lt (hold l r hm)
    · rw [hnone] at hl'
      cases hl'
  · refine ⟨fun l r hm => ?_, fun l r hl' hm => ?_⟩
    all_goals
      rw [State.log, List.mem_append, List.mem_singleton] at hm
    · show l < t.nextLink
      rw [hnext]
      rcases hm with hm | hm
      · exact Nat.lt_succ_of_lt (hold l r hm)
      · cases hm
        exact Nat.lt_succ_self _
    · cases hl'
      have hr : r = result := by
        rcases hm with hm | hm
        · exact absurd (hold _ r hm) (Nat.lt_irrefl _)
        · cases hm; rfl
      rw [hr]
      show Session.ceiling t.cfg _ = quotaSize t.cfg result
      rw [hcfg]
      exact hseed

theorem Reach.seeded {cfg : TCPConfig} {as : List Action} {s : State}
    (h : Reach Fits cfg as s) : Seeded s := by
  refine Run.invariant (P := Seeded) h ⟨by simp [newTCPClient], by simp [newTCPClient]⟩ ?_
  rintro t a _ hs ha ⟨⟩
  by_cases hc : a.connects = true
  · cases a with
    | connect hd n =>
      show Seeded (t.connect hd n)
      unfold State.connect
      split
      · exact hs
      · exact hs
      · rename_i hl hneg
        simp only [Fits, hl, hneg] at ha
        exact hs.establish _ n hl ha
    | _ => cases hc
  · exact hs.logs (Logs.any_step (by simpa using hc))

/-! ## Grants -/

/-- The transport below the session reseeds nothing. -/
theorem ceiling_view (s : State) :
    Session.ceiling s.cfg (view s).hist = Session.ceiling s.cfg s.hist := by
  unfold Session.ceiling view
  rw [List.foldl_filter]
  congr 1
  funext n e
  cases e <;> rfl

theorem ledger_state {s : State} (h : (view s).Inv) :
    s.quota.avail + (State.inflightPermits s.store : Int) = Session.ceiling s.cfg s.hist := by
  rw [← ceiling_view, inflightPermits_eq]
  exact h.ledger

/-- In a state reached, the unfinished exchanges do not exceed what was applied
last, and a free permit leaves room for one more. -/
theorem Reach.inflight_le {ok : State → Action → Prop} {cfg : TCPConfig} {as : List Action}
    {s : State} (h : Reach ok cfg as s) :
    (State.inflightPermits s.store : Int) ≤ Session.ceiling s.cfg s.hist ∧
      (0 < s.quota.avail →
        (State.inflightPermits s.store : Int) + 1 ≤ Session.ceiling s.cfg s.hist) := by
  obtain ⟨-, hi, hp⟩ := h.session (fun _ _ => True) anyRoll (P := fun v => 0 ≤ v.permits)
    (fun s a _ => allowed_of_frame fun _ _ _ _ => trivial) le_rfl
    fun _ _ _ hp hm => hm.permits_nonneg hp
  have hledger := ledger_state hi
  have hp' : 0 ≤ s.quota.avail := hp
  omega

/-- When a permit is granted on the live link, the unfinished exchanges, the new
one included, are within the size negotiated for that link, provided no connect
resumed more than its size. -/
theorem granted_within_quotaSize {cfg : TCPConfig} {as : List Action} {s : State} {a : Action}
    {c : CallId} {l : LinkId} {result : ConnectResult} (hrun : Reach Fits cfg as s)
    (hl : s.link = some l) (hres : .connected l result ∈ s.hist)
    (hg : .granted c l ∈ (s.step a).hist.drop s.hist.length) :
    (State.inflightPermits s.store : Int) + 1 ≤ quotaSize cfg result ∧
      (State.inflightPermits (s.step a).store : Int) ≤ quotaSize cfg result := by
  obtain rfl := hrun.cfg_eq
  have hceil := hrun.seeded.seed l result hl hres
  by_cases hc : a.connects = true
  · -- A connect finds the link live and does nothing.
    cases a with
    | connect h n => simp [State.step, State.connect, hl] at hg
    | _ => cases hc
  · have hc' : a.connects = false := by simpa using hc
    constructor
    · rw [← hceil]
      refine hrun.inflight_le.2 ?_
      by_contra hav
      obtain ⟨⟨es, he, hes⟩, -⟩ : Logs [.call, .transport, .frame] s (s.step a) :=
        Logs.step hc' (by simp) (by simp) (by simp) (fun h => absurd h hav)
      rw [he, List.drop_left] at hg
      exact absurd (hes _ hg) (by simp [Event.origin])
    · obtain ⟨⟨es, he, hes⟩, -, -, hcfg⟩ := Logs.any_step (s := s) hc'
      have hnext : Reach Fits s.cfg (as ++ [a]) (s.step a) := by
        refine .snoc hrun ?_ rfl
        cases a with
        | connect => cases hc rfl
        | _ => trivial
      have hsame : Session.ceiling (s.step a).cfg (s.step a).hist = Session.ceiling s.cfg s.hist := by
        rw [hcfg, he, Session.ceiling_append]
        intro e hm
        refine neutral_of_origin fun heq => ?_
        have := hes e hm
        rw [heq] at this
        simp at this
      rw [← hceil, ← hsame]
      exact hnext.inflight_le.1

/-! ## A resume that does not fit -/

/-- One of three permits is taken when the link goes down, and the session is resumed
with two. -/
def resumedWithin : List Action :=
  [.connect (accept (receiveMax 3) false) 9, .publish 0 (message 1) true, .readError,
    .connect (accept (receiveMax 2) true) 9]

theorem granted_within_quotaSize_resumed :
    let s := runActions durable resumedWithin
    State.inflightPermits s.store = 1 ∧
    (State.inflightPermits s.store : Int) + 1 ≤ quotaSize durable (negotiated 2 true) ∧
    (State.inflightPermits (s.step (.publish 1 (message 1) true)).store : Int) ≤
      quotaSize durable (negotiated 2 true) :=
  ⟨by decide +kernel, granted_within_quotaSize (c := .api 1) (l := 1)
    (Reach.of_okAlong (by decide +kernel)) (by decide +kernel) (by decide +kernel)
    (by decide +kernel)⟩

/-- Two unfinished exchanges are resumed on a link that allows one. The PUBACK of
the first frees a permit while the second is unfinished, and a third is sent. -/
theorem resumed_grant_exceeds_quotaSize :
    let s := runActions durable [.connect (accept (receiveMax 2) false) 9,
      .publish 0 (message 1) true, .publish 1 (message 1) true, .readError,
      .connect (accept (receiveMax 1) true) 9,
      .frame (.puback { packetID := 1 }) false true]
    s.link = some 1 ∧
      .connected 1 (negotiated 1 true) ∈ s.hist ∧
      .granted (.api 2) 1 ∈ (s.step (.publish 2 (message 1) true)).hist.drop s.hist.length ∧
      State.inflightPermits (s.step (.publish 2 (message 1) true)).store = 2 ∧
      quotaSize durable (negotiated 1 true) = 1 := by
  decide +kernel

end GoMqtt.Client
