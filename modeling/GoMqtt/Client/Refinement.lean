import GoMqtt.Client.CallRefinement
import GoMqtt.Client.FrameRefinement

/-! # The client refines the abstract session

`Connect` applies the session decision, replays on the link it is building and
publishes that link. With it every step of the client is a sequence of moves,
and what the moves keep, the client keeps in every run. -/
namespace GoMqtt.Client
open GoMqtt.Protocol GoMqtt.Session GoMqtt.Lib

variable {ok : Session → Frame → Prop} {roll : Subscription → Subscription → Prop}

/-! ## Connect -/

section connect

variable {s t : State} {l : LinkId}

theorem view_discard (s : State) :
    view ({ s with store := s.store.reset, ids := s.ids.reset }.log .discarded) =
      (view s).discard := by
  rw [view_log rfl]
  have huse : s.ids.reset.inUse = fun _ => false := funext fun _ => IdAllocator.inUse_reset _ _
  simp only [Session.discard, view, huse]
  rfl

theorem view_applySession (s : State) (result : ConnectResult) :
    view (s.applySession result) =
      (if discards s.cfg result then (view s).discard else view s).reseed result := by
  have hseed : ∀ k : State,
      view ({ k with quota := k.quota.reset (max (quotaSize k.cfg result -
        State.inflightPermits k.store) 0) }.log (.applied result (State.inflightPermits k.store))) =
      (view k).reseed result := by
    intro k
    rw [view_log rfl]
    simp only [inflightPermits_eq]
    rfl
  unfold State.applySession
  dsimp only
  split
  · rw [hseed, view_discard]
  · rw [hseed]

/-- `applySession` is about the session, not about links and calls. -/
theorem applySession_frame (s : State) (result : ConnectResult) :
    (s.applySession result).link = s.link ∧ (s.applySession result).links = s.links ∧
      (s.applySession result).nextLink = s.nextLink ∧ (s.applySession result).calls = s.calls ∧
      (s.applySession result).waiters = s.waiters ∧
      (s.applySession result).quota.failed = false := by
  unfold State.applySession
  dsimp only
  split <;> exact ⟨rfl, rfl, rfl, rfl, rfl, rfl⟩

/-- The state in which the replay starts, the link being built. -/
def opened (s : State) (result : ConnectResult) : State :=
  let t := { s with nextLink := s.nextLink + 1 }.applySession result
  t.setLink s.nextLink fun _ => t.newLink result

theorem Wired.opened (h : Wired none s) (hlink : s.link = none) (result : ConnectResult) :
    Wired (some s.nextLink) (opened s result) := by
  obtain ⟨hl, hls, hn, hc, hws, hf⟩ :=
    applySession_frame { s with nextLink := s.nextLink + 1 } result
  unfold Client.opened
  dsimp only
  generalize { s with nextLink := s.nextLink + 1 }.applySession result = t at *
  dsimp only at hl hls hn hc hws
  refine ⟨⟨?_, ?_, ?_, ?_, ?_⟩, h.toWaits.congr hc fun id w hw => ?_⟩
  · intro l hl'
    rw [show (t.setLink _ _).link = t.link from rfl, hl, hlink] at hl'
    cases hl'
  · rintro l ⟨⟩
    refine ⟨⟨?_, ?_, ?_, hf⟩, hl.trans hlink⟩
    · show s.nextLink < t.nextLink
      rw [hn]
      exact Nat.lt_succ_self _
    · simp [State.setLink, State.newLink, Quota.generation]
    · simp [State.setLink, State.newLink, IdAllocator.generation]
  · intro l hlt _ hb
    have hne : l ≠ s.nextLink := fun heq => hb (congrArg some heq.symm)
    have hlt' : l < s.nextLink + 1 := hn ▸ hlt
    have hdead := h.dead l (Nat.lt_of_le_of_ne (Nat.le_of_lt_succ hlt') hne) (by simp [hlink])
      (by simp)
    simpa [State.setLink, hne, hls] using hdead
  · intro l k hle
    have hle' : s.nextLink + 1 ≤ l := hn ▸ hle
    show t.calls _ = _
    rw [hc]
    exact h.fresh l k (Nat.le_of_succ_le hle')
  · intro c l pkt hcall
    rw [show (t.setLink _ _).calls = t.calls from rfl, hc] at hcall
    obtain ⟨hlt, hq⟩ := h.parked c l pkt hcall
    refine ⟨?_, hq⟩
    show l < t.nextLink
    rw [hn]
    exact Nat.lt_succ_of_lt hlt
  · rw [← hws]
    exact hw

/-- What holds of the states in which `l` is being built: nothing was published,
and the goroutines of its SUBSCRIBEs from position `k` on have not begun. -/
structure Replaying (ok : Session → Frame → Prop) (roll : Subscription → Subscription → Prop)
    (s : State) (l : LinkId) (k : Nat) (t : State) : Prop where
  wired : Wired (some l) t
  moves : Session.Moves ok roll (view s) (view t)
  idle : ∀ i, k ≤ i → t.calls (.resubscribe l i) = .idle

theorem Replaying.replayWrite {k : Nat} (h : Replaying ok roll s l k t) (p : Packet) (io : Bool) :
    Replaying ok roll s l k (t.replayWrite l p io) := by
  obtain ⟨hw, hv⟩ := h.wired.writeFrame l p io
  have hcalls := (Keeps.writeFrame t l p io).calls
  have hwrite : Replaying ok roll s l k (t.writeFrame l p io).2 :=
    ⟨hw, h.moves.tearing hv, by rw [hcalls]; exact h.idle⟩
  unfold State.replayWrite
  split <;> rename_i hr <;> rw [hr] at hwrite
  · refine ⟨hwrite.wired.log _, ?_, hwrite.idle⟩
    rw [view_log_transport rfl]
    exact hwrite.moves
  · exact hwrite

theorem Replaying.replayEntries {k : Nat} (ms : List StoredMessage) (n : Nat)
    (h : Replaying ok roll s l k t) : Replaying ok roll s l k (State.replayEntries l ms n t).2 := by
  induction ms generalizing n t with
  | nil => exact h
  | cons m rest ih =>
    unfold State.replayEntries
    split
    · exact ih n h
    · exact ih (n - 1) (h.replayWrite _ _)

theorem Replaying.resubscribe {k : Nat} (h : Replaying ok roll s l k t) (hi : (view s).Inv)
    (sub : Subscription) (io : Bool) :
    Replaying ok roll s l (k + 1) (t.resubscribe l k sub io) := by
  have hit : (view t).Inv := h.moves.inv hi
  have hidle := h.idle k le_rfl
  have hlt : l < t.nextLink := (h.wired.built l rfl).1.1
  unfold State.resubscribe
  split
  · rename_i ids hid
    refine ⟨(h.wired.exhausted hid).log _, ?_, fun i hk => h.idle i (Nat.le_of_succ_le hk)⟩
    rw [view_log_transport rfl, view_exhausted hid]
    exact h.moves
  · rename_i id gen ids hid
    dsimp only
    split
    · rename_i e u hr
      obtain ⟨hw, hcalls, -, hv⟩ := request_unsent h.wired hit (by simp [hidle]) hid hr
      refine ⟨hw.log _, ?_, fun i hk => ?_⟩
      · rw [view_log_transport rfl]
        exact h.moves.tearing hv
      · show (u.requestAborted _ id gen).calls _ = _
        rw [hcalls]
        exact h.idle i (Nat.le_of_succ_le hk)
    · rename_i u hr
      obtain ⟨hw, hv, hfree, h0, hgen⟩ := request_sent
        (k := .resubscribing l sub.filter id gen) h.wired hit hidle
        (by rintro l' i ⟨⟩; exact hlt) (by simp) rfl hid hr
      refine ⟨hw, ?_, fun i hk => ?_⟩
      · rw [hv, hgen]
        exact h.moves.tail (.resubscribe hidle hfree h0)
      · have hne : CallId.resubscribe l i ≠ .resubscribe l k := by
          rintro ⟨⟩
          exact absurd hk (Nat.not_succ_le_self _)
        obtain ⟨rfl, -⟩ := attempt_sent hr
        simpa [State.setCall, State.log, State.registerWaiter, hne] using
          h.idle i (Nat.le_of_succ_le hk)

theorem Replaying.resubscribeAll (subs : List Subscription) {k : Nat} (n : Nat)
    (h : Replaying ok roll s l k t) (hi : (view s).Inv) :
    Wired (some l) (State.resubscribeAll l subs k n t) ∧
      Session.Moves ok roll (view s) (view (State.resubscribeAll l subs k n t)) := by
  induction subs generalizing k n t with
  | nil => exact ⟨h.wired, h.moves⟩
  | cons sub rest ih => exact ih (n - 1) (h.resubscribe hi sub _)

/-- The replay is over and the link not yet published. -/
def replayed (s : State) (result : ConnectResult) (n : Nat) : State :=
  let (n, t) := (opened s result).replaySession s.nextLink n
  t.replaySubscriptions s.nextLink n

theorem establish_eq (s : State) (result : ConnectResult) (n : Nat) :
    s.establish result n =
      if ((replayed s result n).links s.nextLink).stop then replayed s result n
      else { replayed s result n with result := some result, link := some s.nextLink }.log
        (.connected s.nextLink result) := rfl

/-- A link torn down before it was published. -/
theorem Wired.unpublished (h : Wired (some l) s) (hstop : (s.links l).stop = true) :
    Wired none s := by
  refine ⟨⟨h.live, by simp, fun l' hlt hne _ => ?_, h.fresh, h.parked⟩, h.toWaits⟩
  by_cases hl : l' = l
  · rw [hl]; exact hstop
  · exact h.dead l' hlt hne fun heq => hl (Option.some.inj heq).symm

theorem Wired.published (h : Wired (some l) s) (result : Option ConnectResult)
    (hstop : (s.links l).stop = false) : Wired none { s with result, link := some l } := by
  obtain ⟨hcur, hlink⟩ := h.built l rfl
  refine ⟨⟨?_, by simp, fun l' hlt hne _ => ?_, h.fresh, h.parked⟩, h.toWaits.congr rfl
    fun _ _ hw => hw⟩
  · rintro l' ⟨⟩
    exact ⟨hcur, hstop⟩
  · exact h.dead l' hlt (by simp [hlink]) hne

theorem establish_refines (result : ConnectResult) (n : Nat) (hw : Wired none s)
    (hi : (view s).Inv) (hlink : s.link = none) : Refines ok roll s (s.establish result n) := by
  have hlive : (view s).live = false := by simp [view, hlink]
  have hopen : Replaying ok roll s s.nextLink 0 (opened s result) := by
    refine ⟨hw.opened hlink result, ?_, fun i _ => ?_⟩
    · unfold opened
      dsimp only
      rw [view_setLink, view_applySession]
      by_cases hd : discards s.cfg result
      · rw [if_pos hd]
        exact .single (.restart hlive hd)
      · rw [if_neg hd]
        exact .single (.resume hlive (Bool.eq_false_iff.mpr hd))
    · have hc := (applySession_frame { s with nextLink := s.nextLink + 1 } result).2.2.2.1
      exact (congrFun hc _).trans (hw.fresh _ i le_rfl)
  obtain ⟨hwired, hmoves⟩ : Wired (some s.nextLink) (replayed s result n) ∧
      Session.Moves ok roll (view s) (view (replayed s result n)) :=
    (hopen.replayEntries (opened s result).store.all n).resubscribeAll _ _ hi
  rw [establish_eq]
  -- what the replay made of the state is no longer looked into
  generalize replayed s result n = r at hwired hmoves ⊢
  split
  · rename_i hstop
    exact ⟨hwired.unpublished hstop, hmoves⟩
  · rename_i hstop
    refine ⟨(hwired.published _ (by simpa using hstop)).log _, hmoves.tail ?_⟩
    rw [view_log rfl]
    refine .establish (l := s.nextLink) ?_
    simp [view, (hwired.built _ rfl).2]

theorem connect_refines (h : State.Handshake) (n : Nat) (hw : Wired none s) (hi : (view s).Inv) :
    Refines ok roll s (s.connect h n) := by
  unfold State.connect
  split
  · exact ⟨hw, .refl⟩
  · exact ⟨hw, .refl⟩
  · rename_i hlink _
    exact establish_refines _ n hw hi hlink

end connect

/-! ## Every step -/

/-- The actions a run restricted to `ok` and `roll` may take. -/
def Allowed (ok : Session → Frame → Prop) (roll : Subscription → Subscription → Prop) (s : State) :
    Action → Prop
  | .frame f _ _ => ok (view s) f
  | .subscribe n req io => ∀ prev, s.subs.snapshot req.filter = some prev →
      roll (registration s req) prev ∨
        ∃ r id gen, (s.subscribe (.api n) req io).calls (.api n) = .requesting r id gen
  | .giveUp c _ => ∀ r id gen, s.calls c = .requesting r id gen → (view s).RollsBack roll r
  | .collect c => ∀ r id gen res, s.calls c = .requesting r id gen → s.inbox c = some res →
      res.failure r.packetType ≠ none → (view s).RollsBack roll r
  | _ => True

theorem begin_refines {s : State} {n : Nat} {f : State → CallId → State} (hw : Wired none s)
    (h : s.calls (.api n) = .idle → Refines ok roll s (f s (.api n))) :
    Refines ok roll s (s.begin n f) := by
  unfold State.begin
  split
  · exact h ‹_›
  · exact ⟨hw, .refl⟩

theorem onLink_refines {s : State} {f : State → LinkId → State} (hw : Wired none s)
    (h : ∀ l, s.link = some l → Refines ok roll s (f s l)) : Refines ok roll s (s.onLink f) := by
  unfold State.onLink
  split
  · exact ⟨hw, .refl⟩
  · exact h _ ‹_›

theorem step_refines {s : State} {a : Action} (hw : Wired none s) (hi : (view s).Inv)
    (ha : Allowed ok roll s a) : Refines ok roll s (s.step a) := by
  cases a with
  | publish n req io =>
    exact begin_refines (f := fun s c => s.publish c req io) hw (publish_refines req io hw hi)
  | subscribe n req io =>
    exact begin_refines (f := fun s c => s.subscribe c req io) hw fun hc =>
      subscribe_refines req io hw hi hc ha
  | unsubscribe n filter io =>
    exact begin_refines (f := fun s c => s.unsubscribe c filter io) hw
      (unsubscribe_refines filter io hw hi)
  | wake c io => exact wake_refines io hw hi c
  | giveUp c timeout => exact giveUp_refines timeout hw hi ha
  | collect c => exact collect_refines hw hi ha
  | frame f torn io =>
    exact onLink_refines (f := fun s l => (s.log (.received l f)).handleFrame l f torn io) hw
      fun _ hl => handleFrame_refines torn io hw hi hl ha
  | readError =>
    have hrefl : Refines ok roll s s := ⟨hw, .refl⟩
    exact onLink_refines (f := fun s l => s.teardownLink l (s.links l).graceful) hw fun _ _ =>
      hrefl.teardownLink _ _
  | tick io => exact onLink_refines (f := fun s l => s.tick l io) hw fun l _ => tick_refines l io hw
  | connect h n => exact connect_refines h n hw hi
  | disconnect io => exact disconnect_refines io hw

/-! ## Every run -/

theorem Wired.init (cfg : TCPConfig) : Wired none (newTCPClient cfg) :=
  ⟨⟨by simp [newTCPClient], by simp, by simp [newTCPClient], by simp [newTCPClient],
    by simp [newTCPClient]⟩, ⟨by simp [newTCPClient], by simp [newTCPClient]⟩⟩

theorem inv_init (cfg : TCPConfig) : (view (newTCPClient cfg)).Inv := by
  constructor <;> simp [view, newTCPClient, outbound, Call.held, Session.ceiling, Quota.new,
    publisher]

/-- What holds at the start and survives every allowed move holds of the session
in every state reached. -/
theorem Reach.session (ok : Session → Frame → Prop) (roll : Subscription → Subscription → Prop)
    {P : Session → Prop} {allowed : State → Action → Prop} {cfg : TCPConfig} {as : List Action}
    {s : State} (hrun : Reach allowed cfg as s)
    (hallowed : ∀ s a, allowed s a → Allowed ok roll s a) (h0 : P (view (newTCPClient cfg)))
    (hmove : ∀ v w, v.Inv → P v → Session.Move ok roll v w → P w) :
    Wired none s ∧ (view s).Inv ∧ P (view s) := by
  refine Run.invariant (P := fun s => Wired none s ∧ (view s).Inv ∧ P (view s)) hrun
    ⟨.init cfg, inv_init cfg, h0⟩ ?_
  rintro t a _ ⟨hw, hi, hp⟩ ha ⟨⟩
  obtain ⟨hw', hm⟩ := step_refines hw hi (hallowed t a ha)
  exact ⟨hw', Session.Moves.invariant hm hi hp hmove⟩

/-- Any rollback at all. -/
def anyRoll (_ _ : Subscription) : Prop := True

/-- Where nothing is asked of the registrations, only the frames matter. -/
theorem allowed_of_frame {s : State} {a : Action}
    (h : ∀ f torn io, a = .frame f torn io → ok (view s) f) : Allowed ok anyRoll s a := by
  have hroll : ∀ r, (view s).RollsBack anyRoll r := by
    intro r
    cases r with
    | subscribe _ prev _ => cases prev <;> simp [Session.RollsBack, anyRoll]
    | unsubscribe _ _ => trivial
  cases a with
  | frame f torn io => exact h f torn io rfl
  | subscribe => exact fun _ _ => .inl trivial
  | giveUp => exact fun r _ _ _ => hroll r
  | collect => exact fun r _ _ _ _ _ _ => hroll r
  | _ => trivial

/-- In every run the client is wired up and the session's accounts add up. -/
theorem Reach.wired {allowed : State → Action → Prop} {cfg : TCPConfig} {as : List Action}
    {s : State} (h : Reach allowed cfg as s) : Wired none s ∧ (view s).Inv := by
  obtain ⟨hw, hi, -⟩ := h.session (fun _ _ => True) anyRoll (P := fun _ => True)
    (fun s a _ => allowed_of_frame fun _ _ _ _ => trivial) trivial fun _ _ _ _ _ => trivial
  exact ⟨hw, hi⟩

end GoMqtt.Client
