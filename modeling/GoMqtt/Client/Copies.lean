import GoMqtt.Client.Outbox

/-! # First copies and repeated ones

Above QoS 0 a call sends its PUBLISH once. Whatever goes out for it later is sent by
a connect from the store and says so in its DUP flag. So the copies on the wire that
claim to be the first are no more than the calls. -/
namespace GoMqtt.Client
open GoMqtt.Protocol GoMqtt.Session GoMqtt.Lib
open scoped List

/-! ## One first copy for each call -/

/-- The call has not sent its PUBLISH. -/
def Call.unsent : Call → Bool
  | .idle | .parked .. => true
  | _ => false

/-- The call that is told that its PUBLISH was sent. -/
def Event.sender : Event → Option CallId
  | .sent c _ _ => some c
  | _ => none

namespace Session

/-- No call has sent twice, and a call that has sent does not do so again. -/
structure SendsOnce (v : Session) : Prop where
  once : (v.hist.filterMap Event.sender).Nodup
  unsent : ∀ c, (v.calls c).unsent = true → c ∉ v.hist.filterMap Event.sender

namespace SendsOnce

variable {v w : Session}

/-- No call sends, and none that has sent is as if it had not. -/
theorem grow (h : SendsOnce v) {es : List Event} (he : w.hist = v.hist ++ es)
    (hes : ∀ e ∈ es, e.sender = none)
    (hcalls : ∀ c, (w.calls c).unsent = true → (v.calls c).unsent = true) : SendsOnce w := by
  have hsame : w.hist.filterMap Event.sender = v.hist.filterMap Event.sender := by
    rw [he, List.filterMap_append, List.filterMap_eq_nil_iff.mpr hes, List.append_nil]
  exact ⟨hsame ▸ h.once, fun c hc => hsame ▸ h.unsent c (hcalls c hc)⟩

theorem notes (h : SendsOnce v) {es : List Event} (hes : ∀ e ∈ es, e.sender = none) :
    SendsOnce (v.notes es) := h.grow rfl hes fun _ hc => hc

theorem setCall (h : SendsOnce v) (c : CallId) {k : Call}
    (hk : k.unsent = true → (v.calls c).unsent = true) : SendsOnce (v.setCall c k) := by
  refine h.grow (List.append_nil _).symm (by simp) fun c' hc => ?_
  by_cases hcc : c' = c
  · subst hcc
    exact hk (by simpa [Session.setCall] using hc)
  · simpa [Session.setCall, hcc] using hc

theorem finish (h : SendsOnce v) (c : CallId) (r : Return) : SendsOnce (v.finish c r) :=
  (h.setCall c (by simp [Call.unsent])).notes (by simp [Event.sender])

theorem register (h : SendsOnce v) (s : Subscription) : SendsOnce (v.register s) :=
  h.grow rfl (by simp [Event.sender]) fun _ hc => hc

theorem hold (h : SendsOnce v) (c : CallId) (id : UInt16) {k : Call} (hk : k.held ≠ none) :
    SendsOnce (v.hold c id k) := by
  have hset : SendsOnce (v.setCall c k) := by
    refine h.setCall c fun hk' => ?_
    cases k with
    | idle => exact absurd rfl hk
    | parked => exact absurd rfl hk
    | _ => cases hk'
  exact ⟨hset.once, hset.unsent⟩

theorem unhold (h : SendsOnce v) (id : UInt16) (gen : Nat) : SendsOnce (v.unhold id gen) := by
  rw [unhold_eq]
  exact ⟨h.once, h.unsent⟩

theorem withdraw (h : SendsOnce v) (r : Request) : SendsOnce (v.withdraw r) := by
  rw [withdraw_eq]
  exact ⟨h.once, h.unsent⟩

theorem confirm (h : SendsOnce v) (r : Request) : SendsOnce (v.confirm r) := by
  rw [confirm_eq]
  exact ⟨h.once, h.unsent⟩

/-- A call that opens has not sent. -/
theorem opens (h : SendsOnce v) {c : CallId} {qos : UInt8} {pre : List Event}
    (ho : v.Opens c qos pre) :
    SendsOnce (v.notes pre) ∧ ((v.notes pre).calls c).unsent = true := by
  rcases ho with ⟨hc, req, rfl, -⟩ | ⟨rfl, l, pkt, hc, -⟩
  · exact ⟨h.notes (by simp [Event.sender]), by simp [Session.notes, hc, Call.unsent]⟩
  · exact ⟨h.notes (by simp), by simp [Session.notes, hc, Call.unsent]⟩

theorem send (h : SendsOnce v) {c : CallId} (hc : (v.calls c).unsent = true) (l : LinkId)
    (p : PublishPacket) : SendsOnce (v.send c l p) := by
  have hnew : (v.send c l p).hist.filterMap Event.sender = v.hist.filterMap Event.sender ++ [c] := by
    simp [Session.send, Event.sender]
  constructor
  · rw [hnew]
    exact List.nodup_append.mpr ⟨h.once, List.nodup_singleton c, fun a ha b hb heq =>
      h.unsent c hc (by rw [← List.mem_singleton.mp hb, ← heq]; exact ha)⟩
  · intro c' hc'
    have hne : c' ≠ c := by
      intro heq
      subst heq
      simp [Session.send, Session.setCall, Call.unsent] at hc'
    rw [hnew, List.mem_append, List.mem_singleton, not_or]
    exact ⟨h.unsent c' (by simpa [Session.send, Session.setCall, hne] using hc'), hne⟩

theorem move {ok : Session → Frame → Prop} {roll : Subscription → Subscription → Prop}
    (h : SendsOnce v) (hm : Move ok roll v w) : SendsOnce w := by
  cases hm with
  | @refuse c _ pre g e ho hg =>
    have hw : v.notes (pre ++ g) = (v.notes pre).notes g := by simp [Session.notes]
    rw [hw]
    refine ((h.opens ho).1.notes fun x hx => ?_).finish _ _
    obtain ⟨l, rfl⟩ := hg x hx
    rfl
  | shoot ho => exact (h.opens ho).1.finish _ _
  | park ho => exact (h.opens ho).1.setCall _ fun _ => (h.opens ho).2
  | @send c l p pre ho =>
    have hw : v.notes (pre ++ [.granted c l]) = (v.notes pre).notes [.granted c l] := by
      simp [Session.notes]
    rw [hw]
    exact ((h.opens ho).1.notes (by simp [Event.sender])).send (h.opens ho).2 l p
  | abandon => exact finish (v := v.drop _ _) ⟨h.once, h.unsent⟩ _ _
  | answer => exact h.finish _ _
  | reject => exact h.finish _ _
  | subscribe => exact (h.register _).hold _ _ (by simp [Call.held])
  | subscribeFailed => exact ((h.register _).withdraw _).finish _ _
  | unsubscribe => exact h.hold _ _ (by simp [Call.held])
  | resubscribe => exact h.hold _ _ (by simp [Call.held])
  | requestFailed => exact ((h.unhold _ _).withdraw _).finish _ _
  | requestDone => exact ((h.unhold _ _).confirm _).finish _ _
  | resubscribed => exact (h.unhold _ _).setCall _ (by simp [Call.unsent])
  | @heard l f es _ _ hes =>
    refine h.notes fun e he => ?_
    rcases List.mem_cons.mp he with rfl | he
    · rfl
    · obtain ⟨p, hs, torn, rfl, -⟩ := hes e he
      rfl
  | ended => exact h.grow rfl (by simp [Event.sender]) fun _ hc => hc
  | promoted => exact h.grow rfl (by simp [Event.sender]) fun _ hc => hc
  | delivered => exact h.grow rfl (by simp [Event.sender]) fun _ hc => hc
  | released => exact h.grow rfl (by simp [Event.sender]) fun _ hc => hc
  | tear => exact ⟨h.once, h.unsent⟩
  | resume => exact h.grow rfl (by simp [Event.sender]) fun _ hc => hc
  | restart =>
    have hdiscard : SendsOnce v.discard := h.grow rfl (by simp [Event.sender]) fun _ hc => hc
    exact hdiscard.grow rfl (by simp [Event.sender]) fun _ hc => hc
  | establish => exact h.grow rfl (by simp [Event.sender]) fun _ hc => hc

end SendsOnce
end Session

/-! ## What a step writes above QoS 0 -/

/-- Nothing but repetitions of what a call has sent, marked as such. -/
def Repeats (hist es : List Event) : Prop :=
  (∀ c l p, .sent c l p ∉ es) ∧ ∀ l p, .wrote l (.publish p) ∈ es → p.qos ≠ 0 →
    p.dup = true ∧ ∃ c l' q, .sent c l' q ∈ hist ∧ p = { q with dup := true }

/-- One PUBLISH goes out, and a call is told so. -/
def Sent (es : List Event) : Prop :=
  ∃ pre c l p, es = pre ++ [.wrote l (.publish p), .sent c l p] ∧ ∀ e ∈ pre, e.bears = false

theorem Repeats.of_quiet {hist es : List Event} (h : ∀ e ∈ es, e.bears = false) :
    Repeats hist es := by
  refine ⟨not_sent_of_bears h, fun l p hm hq => ?_⟩
  have hbears := h _ hm
  simp [Event.bears, leg, hq] at hbears

/-- What a connect writes for the exchanges it has kept. -/
theorem Reconnects.repeats {result : ConnectResult} {s t : State} (h : Reconnects result s t)
    (hs : Genuine s) : ∃ es, t.hist = s.hist ++ es ∧ Repeats s.hist es := by
  obtain ⟨es, he, horigin, honly, hsub, -⟩ := h.wire
  refine ⟨es, he, fun c l p hm => horigin _ hm rfl, fun l p hm hq => ?_⟩
  have hleg : Packet.publish p ∈ legsOn l es :=
    List.mem_filter.mpr ⟨mem_sentOn.mpr hm, by simp [leg, hq]⟩
  have hl : l = s.nextLink := by
    by_contra hne
    rw [honly l hne] at hleg
    cases hleg
  subst hl
  obtain ⟨m, hmem, hreplay⟩ := List.mem_filterMap.mp (hsub.subset hleg)
  have hstored : m ∈ outbound s.store := by
    rw [h.out] at hmem
    split at hmem
    · cases hmem
    · exact hmem
  have hkind : m.kind = .publish := by
    cases hk : m.kind <;> simp [State.replayPacket, hk] at hreplay
    rfl
  obtain ⟨c, l', q, rfl, hsent, -⟩ := hs.stored m hstored hkind
  obtain ⟨q', hq', rfl⟩ := replayPacket_publish hreplay
  cases hq'
  exact ⟨rfl, c, l', q, hsent, rfl⟩

theorem step_copies {s : State} (h : Sane s) (a : Action) :
    ∃ es, (s.step a).hist = s.hist ++ es ∧ (Repeats s.hist es ∨ Sent es) := by
  by_cases hframe : ∃ f torn io, a = .frame f torn io
  · obtain ⟨f, torn, io, rfl⟩ := hframe
    cases hl : s.link with
    | none =>
      rw [State.step, State.onLink, hl]
      exact ⟨[], by simp, .inl (.of_quiet (by simp))⟩
    | some l =>
      rw [State.step_frame hl]
      obtain ⟨es, he, hsent⟩ := (frame_tame f torn io h.inv (h.wired.live l hl).2).wire
      obtain ⟨es', he', hnone⟩ := frame_publishes_nothing s l f torn io
      obtain rfl : es' = es := List.append_cancel_left (he'.symm.trans he)
      exact ⟨es', he, .inl ⟨hsent, fun l' p hm => by cases hnone _ hm⟩⟩
  by_cases hconnect : a.connects = true
  · cases a with
    | connect hs n =>
      rcases connect_traffic hs n h.toGenuine.sendable with heq | ⟨result, -, hre⟩
      · rw [heq]
        exact ⟨[], by simp, .inl (.of_quiet (by simp))⟩
      · obtain ⟨es, he, hes⟩ := hre.repeats h.toGenuine
        exact ⟨es, he, .inl hes⟩
    | _ => cases hconnect
  rcases call_traffic h.wired h.inv (by simpa using hconnect)
      (fun f torn io heq => hframe ⟨f, torn, io, heq⟩) with hq | ⟨c, req, l, -, heq⟩ |
      ⟨c, l, p, hsends, -⟩
  · obtain ⟨es, he, hes⟩ := hq.wire
    exact ⟨es, he, .inl (.of_quiet hes)⟩
  · rw [heq]
    exact ⟨[.invoked c req], rfl, .inl (.of_quiet (by simp [Event.bears]))⟩
  · obtain ⟨es, he, hes⟩ := hsends.wire
    exact ⟨_, he, .inr ⟨es, c, l, p, rfl, hes⟩⟩

/-! ## Counting the copies -/

/-- A kind of PUBLISH that goes by the content only, above QoS 0 and without DUP. -/
structure FirstKind (P : PublishPacket → Bool) : Prop where
  qos : ∀ p, P p = true → p.qos ≠ 0
  dup : ∀ p, P p = true → p.dup = false
  content : ∀ p id, P { p with packetID := id } = P p

/-- A PUBLISH of this kind goes out. -/
def Event.writes (P : PublishPacket → Bool) : Event → Bool
  | .wrote _ (.publish p) => P p
  | _ => false

/-- A call is told that a PUBLISH of this kind was sent. -/
def Event.sends (P : PublishPacket → Bool) : Event → Bool
  | .sent _ _ p => P p
  | _ => false

/-- A call asks for a PUBLISH of this kind. -/
def Event.asks (s : State) (P : PublishPacket → Bool) : Event → Bool
  | .invoked _ req => P (s.publishPacket req)
  | _ => false

/-- Every copy is one of a PUBLISH that was sent, and every first copy was sent by a call
of its own. -/
structure Copied (s : State) : Prop extends Sane s where
  once : (view s).SendsOnce
  copies : ∀ l p, .wrote l (.publish p) ∈ s.hist → p.qos ≠ 0 →
    ∃ c l' q, .sent c l' q ∈ s.hist ∧ p = { q with dup := p.dup }
  firsts : ∀ P, FirstKind P → s.hist.countP (Event.writes P) = s.hist.countP (Event.sends P)

theorem countP_eq_zero_of {P : Event → Bool} {es : List Event} (h : ∀ e ∈ es, P e = false) :
    es.countP P = 0 := List.countP_eq_zero.mpr fun e he => by simp [h e he]

/-- Repetitions count on neither side. -/
theorem Repeats.counts {hist es : List Event} (h : Repeats hist es) {P : PublishPacket → Bool}
    (hP : FirstKind P) : es.countP (Event.writes P) = 0 ∧ es.countP (Event.sends P) = 0 := by
  refine ⟨countP_eq_zero_of fun e he => ?_, countP_eq_zero_of fun e he => ?_⟩
  · cases e with
    | wrote l p =>
      cases p with
      | publish p =>
        by_contra hne
        have hp : P p = true := by simpa [Event.writes] using hne
        have hdup := (h.2 l p he (hP.qos p hp)).1
        rw [hP.dup p hp] at hdup
        cases hdup
      | _ => rfl
    | _ => rfl
  · cases e with
    | sent c l p => exact absurd he (h.1 c l p)
    | _ => rfl

/-- A PUBLISH that goes out for a call counts on both. -/
theorem Sent.counts {es : List Event} (h : Sent es) {P : PublishPacket → Bool}
    (hP : FirstKind P) : es.countP (Event.writes P) = es.countP (Event.sends P) := by
  obtain ⟨pre, c, l, p, rfl, hpre⟩ := h
  obtain ⟨hwrites, hsends⟩ := (Repeats.of_quiet hpre : Repeats [] pre).counts hP
  rw [List.countP_append, List.countP_append, hwrites, hsends]
  cases hp : P p <;> simp [Event.writes, Event.sends, hp]

theorem Copied.step {s : State} (h : Copied s) (a : Action) : Copied (s.step a) := by
  have hrefines : Refines (fun _ _ => True) anyRoll s (s.step a) :=
    step_refines h.wired h.inv (allowed_of_frame fun _ _ _ _ => trivial)
  obtain ⟨-, honce⟩ := Session.Moves.invariant hrefines.2 h.inv h.once
    fun v w _ hv hm => hv.move hm
  obtain ⟨es, he, hes⟩ := step_copies h.toSane a
  refine ⟨h.toSane.step a, honce, fun l p hm hq => ?_, fun P hP => ?_⟩
  · rw [he] at hm ⊢
    rcases List.mem_append.mp hm with hm | hm
    · obtain ⟨c, l', q, hs, hp⟩ := h.copies l p hm hq
      exact ⟨c, l', q, List.mem_append_left _ hs, hp⟩
    rcases hes with hrep | ⟨pre, c, l', q, rfl, hpre⟩
    · obtain ⟨hdup, c, l', q, hs, hp⟩ := hrep.2 l p hm hq
      exact ⟨c, l', q, List.mem_append_left _ hs, by rw [hdup]; exact hp⟩
    · rcases List.mem_append.mp hm with hm | hm
      · have hbears := hpre _ hm
        simp [Event.bears, leg, hq] at hbears
      · have hpq : p = q := by
          simp at hm
          exact hm.2
        subst hpq
        exact ⟨c, l', p, by simp, rfl⟩
  · rw [he, List.countP_append, List.countP_append, h.firsts P hP]
    rcases hes with hrep | hsent
    · obtain ⟨hwrites, hsends⟩ := hrep.counts hP
      rw [hwrites, hsends]
    · rw [hsent.counts hP]

theorem copied_init (cfg : TCPConfig) : Copied (newTCPClient cfg) := by
  refine ⟨sane_init cfg, ⟨?_, ?_⟩, ?_, ?_⟩ <;> simp [view, newTCPClient]

/-- The call that asks for a PUBLISH. -/
def Event.caller : Event → Option CallId
  | .invoked c _ => some c
  | _ => none

theorem senders_view (s : State) :
    (view s).hist.filterMap Event.sender = s.hist.filterMap Event.sender := by
  rw [view, List.filterMap_filter]
  refine List.filterMap_congr fun e _ => ?_
  cases e <;> rfl

theorem length_filterMap_filter {f : Event → Option CallId} {P : Event → Bool}
    (h : ∀ e, P e = true → (f e).isSome) (es : List Event) :
    ((es.filter P).filterMap f).length = es.countP P := by
  rw [List.filterMap_length_eq_length.mpr fun e he => h e (List.mem_filter.mp he).2,
    List.countP_eq_length_filter]

/-- The calls that were told are among those that asked, and each was told once. -/
theorem Copied.sends_le_asks {s : State} (h : Copied s) {P : PublishPacket → Bool}
    (hP : FirstKind P) : s.hist.countP (Event.sends P) ≤ s.hist.countP (Event.asks s P) := by
  have hnodup : ((s.hist.filter (Event.sends P)).filterMap Event.sender).Nodup := by
    refine h.once.once.sublist ?_
    rw [senders_view]
    exact List.filter_sublist.filterMap _
  have hsub : (s.hist.filter (Event.sends P)).filterMap Event.sender ⊆
      (s.hist.filter (Event.asks s P)).filterMap Event.caller := by
    intro c hc
    obtain ⟨e, he, hsender⟩ := List.mem_filterMap.mp hc
    obtain ⟨hmem, hsends⟩ := List.mem_filter.mp he
    cases e with
    | sent c' l p =>
      cases hsender
      obtain ⟨req, hinv, -, hp⟩ := h.sent c l p hmem
      refine List.mem_filterMap.mpr ⟨.invoked c req, List.mem_filter.mpr ⟨hinv, ?_⟩, rfl⟩
      replace hsends : P p = true := hsends
      rw [hp, hP.content] at hsends
      exact hsends
    | _ => cases hsender
  have hle := (List.subperm_of_subset hnodup hsub).length_le
  rwa [length_filterMap_filter (fun e he => ?_), length_filterMap_filter (fun e he => ?_)] at hle
  · cases e with
    | invoked c req => rfl
    | _ => cases he
  · cases e with
    | sent c l p => rfl
    | _ => cases he

/-- The first copies of a kind that have gone out are no more than the calls that asked. -/
theorem Copied.writes_le_asks {s : State} (h : Copied s) {P : PublishPacket → Bool}
    (hP : FirstKind P) : s.hist.countP (Event.writes P) ≤ s.hist.countP (Event.asks s P) := by
  rw [h.firsts P hP]
  exact h.sends_le_asks hP

end GoMqtt.Client
