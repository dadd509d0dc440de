import GoMqtt.Client.Acknowledgement

/-! # Who vouches for a Publish that returned nil

`R` stands for what is known of a PUBLISH at its far end, say that it has arrived. If
every acknowledgement that comes in vouches for the last PUBLISH under its identifier,
then `R` holds of the PUBLISH of every call that returned nil above QoS 0. -/
namespace GoMqtt.Client
open GoMqtt.Protocol GoMqtt.Session

/-- The identifier an acknowledgement of an outbound exchange carries. -/
def Frame.acked : Frame → Option UInt16
  | .puback a | .pubrec a | .pubcomp a => some a.packetID
  | _ => none

/-- The acknowledgement vouches for the last PUBLISH under its identifier. -/
def Vouches (R : PublishPacket → Prop) (hist : List Event) (f : Frame) : Prop :=
  ∀ id ∈ f.acked, ∀ p ∈ lastSent hist id, R p

theorem Vouches.mono {R R' : PublishPacket → Prop} {hist : List Event} {f : Frame}
    (h : Vouches R hist f) (hR : ∀ p, R p → R' p) : Vouches R' hist f :=
  fun id hid p hp => hR p (h id hid p hp)

/-- A PUBLISH is sent, or a Publish returns nil. -/
def Event.voiced : Event → Bool
  | .sent .. | .returned _ (.published none) => true
  | _ => false

namespace Session

variable {ok ok' : Session → Frame → Prop} {roll : Subscription → Subscription → Prop}

/-- A weaker condition on the frames allows every move of a stronger one. -/
theorem Move.mono {v w : Session} (h : ∀ v f, ok v f → ok' v f) (hm : Move ok roll v w) :
    Move ok' roll v w := by
  cases hm with
  | refuse h₁ h₂ => exact .refuse h₁ h₂
  | shoot h₁ => exact .shoot h₁
  | park h₁ h₂ => exact .park h₁ h₂
  | send h₁ h₂ h₃ h₄ h₅ h₆ => exact .send h₁ h₂ h₃ h₄ h₅ h₆
  | abandon h₁ => exact .abandon h₁
  | answer h₁ h₂ => exact .answer h₁ h₂
  | reject h₁ h₂ => exact .reject h₁ h₂
  | subscribe h₁ h₂ h₃ h₄ => exact .subscribe h₁ h₂ h₃ h₄
  | subscribeFailed h₁ h₂ h₃ h₄ => exact .subscribeFailed h₁ h₂ h₃ h₄
  | unsubscribe h₁ h₂ h₃ => exact .unsubscribe h₁ h₂ h₃
  | resubscribe h₁ h₂ h₃ => exact .resubscribe h₁ h₂ h₃
  | requestFailed h₁ h₂ h₃ => exact .requestFailed h₁ h₂ h₃
  | requestDone h₁ h₂ => exact .requestDone h₁ h₂
  | resubscribed h₁ => exact .resubscribed h₁
  | heard h₁ h₂ h₃ => exact .heard (h _ _ h₁) h₂ h₃
  | ended h₁ h₂ h₃ => exact .ended (h _ _ h₁) h₂ h₃
  | promoted h₁ h₂ h₃ => exact .promoted (h _ _ h₁) h₂ h₃
  | delivered h₁ h₂ h₃ => exact .delivered (h _ _ h₁) h₂ h₃
  | released h₁ => exact .released (h _ _ h₁)
  | tear => exact .tear
  | resume h₁ h₂ => exact .resume h₁ h₂
  | restart h₁ h₂ => exact .restart h₁ h₂
  | establish h₁ => exact .establish h₁

/-- What the history says about the PUBLISHes that got through. -/
structure Vouched (R : PublishPacket → Prop) (v : Session) : Prop where
  exchange : ∀ m ∈ v.out, m.kind = .pubrel → ∀ p ∈ lastSent v.hist m.id, R p
  inbox : ∀ c id res, v.calls c = .publishing id → v.inbox c = some res →
    res.failure .publish = none → ∃ l p, .sent c l p ∈ v.hist ∧ R p
  succeeded : ∀ c, .returned c (.published none) ∈ v.hist →
    (∃ req, .invoked c req ∈ v.hist ∧ req.qos = 0) ∨ ∃ l p, .sent c l p ∈ v.hist ∧ R p

namespace Vouched

variable {R R' : PublishPacket → Prop} {v w : Session}

theorem mono (h : Vouched R v) (hR : ∀ p, R p → R' p) : Vouched R' v := by
  refine ⟨fun m hm hk p hp => hR p (h.exchange m hm hk p hp), fun c id res hc hr hf => ?_,
    fun c hret => ?_⟩
  · obtain ⟨l, p, hs, hp⟩ := h.inbox c id res hc hr hf
    exact ⟨l, p, hs, hR p hp⟩
  · rcases h.succeeded c hret with hz | ⟨l, p, hs, hp⟩
    · exact .inl hz
    · exact .inr ⟨l, p, hs, hR p hp⟩

/-- Nothing is sent, no Publish returns nil, no exchange is new and no result good. -/
theorem bland (h : Vouched R v) {es : List Event} (he : w.hist = v.hist ++ es)
    (hes : ∀ e ∈ es, e.voiced = false) (hout : ∀ m ∈ w.out, m ∈ v.out)
    (hbox : ∀ c res, w.inbox c = some res → v.inbox c = some res ∨ res.err ≠ none)
    (hcalls : ∀ c id, w.calls c = .publishing id → v.calls c = .publishing id) : Vouched R w := by
  have hold : ∀ e : Event, e ∈ v.hist → e ∈ w.hist := fun e hm => he ▸ List.mem_append_left _ hm
  have hsent : ∀ c l p, .sent c l p ∉ es := by
    intro c l p hm
    cases hes _ hm
  refine ⟨fun m hm hk p hp => ?_, fun c id res hc hr hf => ?_, fun c hret => ?_⟩
  · rw [he, lastSent_append hsent] at hp
    exact h.exchange m (hout m hm) hk p hp
  · rcases hbox c res hr with hr | hr
    · obtain ⟨l, p, hs, hp⟩ := h.inbox c id res (hcalls c id hc) hr hf
      exact ⟨l, p, hold _ hs, hp⟩
    · unfold AckResult.failure at hf
      cases herr : res.err with
      | none => exact absurd herr hr
      | some e => simp [herr] at hf
  · have hret' : .returned c (.published none) ∈ v.hist := by
      rw [he] at hret
      refine (List.mem_append.mp hret).resolve_right fun hm => ?_
      cases hes _ hm
    rcases h.succeeded c hret' with ⟨req, hinv, hq⟩ | ⟨l, p, hs, hp⟩
    · exact .inl ⟨req, hold _ hinv, hq⟩
    · exact .inr ⟨l, p, hold _ hs, hp⟩

theorem notes (h : Vouched R v) {es : List Event} (hes : ∀ e ∈ es, e.voiced = false) :
    Vouched R (v.notes es) :=
  h.bland rfl hes (fun _ hm => hm) (fun _ _ hr => .inl hr) fun _ _ hc => hc

theorem mild (h : Vouched R v) (hm : Mild v w) : Vouched R w := by
  obtain ⟨⟨es, he, hes⟩, hout, -, hbox, hcall⟩ := hm
  refine h.bland he (fun e hm => ?_) hout hbox fun c id hc => ?_
  · have hsilent := hes e hm
    match e with
    | .sent .. | .returned _ (.published none) => cases hsilent
    | .returned _ (.published (some _)) | .returned _ (.subscribed ..)
    | .returned _ (.unsubscribed _) => rfl
    | .wrote .. | .received .. | .invoked .. | .granted .. | .dispatched .. | .recorded ..
    | .registered _ | .discarded | .applied .. | .replayFailed _ | .connected .. | .tornDown _ => rfl
  · rcases hcall c with heq | heq | heq
    · exact heq ▸ hc
    · rw [hc] at heq
      exact absurd rfl heq
    · rw [hc] at heq
      cases heq

theorem setCall (h : Vouched R v) (c : CallId) {k : Call} (hk : ∀ id, k ≠ .publishing id) :
    Vouched R (v.setCall c k) := by
  refine h.bland (List.append_nil v.hist).symm (by simp) (fun _ hm => hm) (fun c' res hr => ?_)
    fun c' id hc => ?_
  · by_cases hcc : c' = c
    · subst hcc
      simp [Session.setCall] at hr
    · exact .inl (by simpa [Session.setCall, hcc] using hr)
  · by_cases hcc : c' = c
    · subst hcc
      exact absurd (by simpa [Session.setCall] using hc) (hk id)
    · simpa [Session.setCall, hcc] using hc

/-- A Publish returns nil for a reason. -/
theorem returns {c : CallId} (h : Vouched R v)
    (hr : (∃ req, .invoked c req ∈ v.hist ∧ req.qos = 0) ∨ ∃ l p, .sent c l p ∈ v.hist ∧ R p) :
    Vouched R (v.finish c (.published none)) := by
  have hdone : Vouched R (v.setCall c .done) := h.setCall c (by simp)
  have hold : ∀ e : Event, e ∈ v.hist → e ∈ (v.finish c (.published none)).hist :=
    fun e hm => List.mem_append_left _ hm
  refine ⟨fun m hm hk p hp => ?_, fun c' id res hc hr' hf => ?_, fun c' hret => ?_⟩
  · replace hp : p ∈ lastSent (v.hist ++ [.returned c (.published none)]) m.id := hp
    rw [lastSent_append (by simp)] at hp
    exact hdone.exchange m hm hk p hp
  · obtain ⟨l, p, hs, hp⟩ := hdone.inbox c' id res hc hr' hf
    exact ⟨l, p, hold _ hs, hp⟩
  · have hcase : (∃ req, .invoked c' req ∈ v.hist ∧ req.qos = 0) ∨
        ∃ l p, .sent c' l p ∈ v.hist ∧ R p := by
      rcases List.mem_append.mp hret with hret | hret
      · exact h.succeeded c' hret
      · cases List.mem_singleton.mp hret
        exact hr
    rcases hcase with ⟨req, hinv, hq⟩ | ⟨l, p, hs, hp⟩
    · exact .inl ⟨req, hold _ hinv, hq⟩
    · exact .inr ⟨l, p, hold _ hs, hp⟩

/-- A PUBLISH goes out under an identifier that no exchange holds. -/
theorem send (h : Vouched R v) {c : CallId} {l : LinkId} {p : PublishPacket}
    (hfree : p.packetID ∉ v.out.map StoredMessage.id) : Vouched R (v.send c l p) := by
  have hhist : (v.send c l p).hist = v.hist ++ [Event.sent c l p] := rfl
  have hold : ∀ e : Event, e ∈ v.hist → e ∈ (v.send c l p).hist :=
    fun e hm => List.mem_append_left _ hm
  refine ⟨fun m hm hk q hq => ?_, fun c' id res hc hr hf => ?_, fun c' hret => ?_⟩
  · rcases List.mem_append.mp hm with hm | hm
    · have hne : p.packetID ≠ m.id := fun heq => hfree (heq ▸ List.mem_map_of_mem hm)
      rw [hhist, lastSent_sent, if_neg hne] at hq
      exact h.exchange m hm hk q hq
    · rw [List.mem_singleton.mp hm] at hk
      cases hk
  · by_cases hcc : c' = c
    · subst hcc
      simp [Session.send, Session.setCall] at hr
    · obtain ⟨l', q, hs, hq⟩ := h.inbox c' id res
        (by simpa [Session.send, Session.setCall, hcc] using hc)
        (by simpa [Session.send, Session.setCall, hcc] using hr) hf
      exact ⟨l', q, hold _ hs, hq⟩
  · have hret' : .returned c' (.published none) ∈ v.hist := by
      rw [hhist] at hret
      exact (List.mem_append.mp hret).resolve_right (by simp)
    rcases h.succeeded c' hret' with ⟨req, hinv, hq⟩ | ⟨l', q, hs, hq⟩
    · exact .inl ⟨req, hold _ hinv, hq⟩
    · exact .inr ⟨l', q, hold _ hs, hq⟩

/-- An exchange ends, and whoever waits has been vouched for. -/
theorem settle {l : LinkId} {f : Frame} {id : UInt16} {kind : StoredKind} {res : AckResult}
    (h : Vouched R v) (ha : Audit v) (hok : Vouches R v.hist f)
    (hf : f.ends = some (id, kind, res)) :
    Vouched R ((v.notes [.received l f]).settle id kind res) := by
  have hheard : Vouched R (v.notes [.received l f]) := h.notes (by simp [Event.voiced])
  have hacked : f.acked = some id := by
    cases f with
    | puback a | pubcomp a =>
      cases hf
      rfl
    | pubrec a =>
      simp only [Frame.ends] at hf
      split at hf
      · cases hf
        rfl
      · cases hf
    | _ => cases hf
  refine ⟨fun m hm => hheard.exchange m (Inv.mem_without.mp hm).1, fun c i r hc hr hfail => ?_,
    hheard.succeeded⟩
  cases hw : v.waiting id with
  | none =>
    refine hheard.inbox c i r hc ?_ hfail
    simpa [Session.settle, Session.notes, hw] using hr
  | some c₀ =>
    by_cases hcc : c = c₀
    · subst hcc
      obtain ⟨l', p, -, hp, hs, -⟩ := ha.waiting id c hw
      exact ⟨l', p, List.mem_append_left _ hs, hok id hacked p hp⟩
    · refine hheard.inbox c i r hc ?_ hfail
      simpa [Session.settle, Session.notes, hw, hcc] using hr

/-- An exchange moves to its PUBREL leg. -/
theorem promote {l : LinkId} {f : Frame} {id : UInt16} (h : Vouched R v)
    (hok : Vouches R v.hist f) (hf : f.promotes = some id) :
    Vouched R ((v.notes [.received l f]).promote id) := by
  have hheard : Vouched R (v.notes [.received l f]) := h.notes (by simp [Event.voiced])
  have hacked : f.acked = some id := by
    cases f with
    | pubrec a =>
      simp only [Frame.promotes] at hf
      split at hf
      · cases hf
      · exact hf
    | _ => cases hf
  refine ⟨fun m hm hk p hp => ?_, hheard.inbox, hheard.succeeded⟩
  rcases List.mem_append.mp hm with hm | hm
  · exact hheard.exchange m (Inv.mem_without.mp hm).1 hk p hp
  · rw [List.mem_singleton.mp hm] at hp
    replace hp : p ∈ lastSent (v.hist ++ [.received l f]) id := hp
    rw [lastSent_append (by simp)] at hp
    exact hok id hacked p hp

theorem opens {c : CallId} {qos : UInt8} {pre : List Event} (h : Vouched R v)
    (ho : v.Opens c qos pre) : Vouched R (v.notes pre) := by
  rcases ho with ⟨-, req, rfl, -⟩ | ⟨rfl, -⟩
  · exact h.notes (by simp [Event.voiced])
  · exact h.notes (by simp)

theorem move (hi : Inv v) (ha : Audit v) (h : Vouched R v)
    (hm : Move (fun v f => Vouches R v.hist f) roll v w) : Vouched R w := by
  cases hm with
  | @refuse c _ pre g e ho hg =>
    have hw : (v.notes (pre ++ g)).finish c (.published (some e)) =
        ((v.notes pre).notes g).finish c (.published (some e)) := by
      simp [Session.notes]
    rw [hw]
    have hgrant : Vouched R ((v.notes pre).notes g) := by
      refine (h.opens ho).notes fun x hx => ?_
      obtain ⟨l, rfl⟩ := hg x hx
      rfl
    exact (hgrant.setCall c (by simp)).notes (by simp [Event.voiced])
  | @shoot c pre err ho =>
    obtain ⟨-, hzero, -⟩ := ha.opens ho
    cases err with
    | some e => exact ((h.opens ho).setCall c (by simp)).notes (by simp [Event.voiced])
    | none => exact (h.opens ho).returns (.inl (hzero rfl))
  | park ho => exact (h.opens ho).setCall _ (by simp)
  | @send c l p pre ho _ _ _ hused _ =>
    have hw : v.notes (pre ++ [Event.granted c l]) = (v.notes pre).notes [.granted c l] := by
      simp [Session.notes]
    rw [hw]
    exact ((h.opens ho).notes (by simp [Event.voiced])).send (hi.not_out hused)
  | abandon => exact h.mild ((Mild.drop v _ _).trans (.finish _ _ (by simp)))
  | @answer c id res hc hr =>
    cases hf : res.failure .publish with
    | some e => exact h.mild (.finish v c (by simp))
    | none => exact h.returns (.inr (h.inbox c id res hc hr hf))
  | reject _ hr => exact h.mild (.finish v _ (by intro heq; subst heq; exact hr))
  | subscribe => exact h.mild ((Mild.register v _).trans (.hold _ _ _ (by simp [Call.held])))
  | subscribeFailed _ hr =>
    exact h.mild (((Mild.register v _).trans (.withdraw _ _)).trans
      (.finish _ _ (by intro heq; subst heq; exact hr)))
  | unsubscribe => exact h.mild (.hold v _ _ (by simp [Call.held]))
  | resubscribe => exact h.mild (.hold v _ _ (by simp [Call.held]))
  | requestFailed _ hr =>
    exact h.mild (((Mild.unhold v _ _).trans (.withdraw _ _)).trans
      (.finish _ _ (by intro heq; subst heq; exact hr)))
  | requestDone _ hr =>
    exact h.mild (((Mild.unhold v _ _).trans (.confirm _ _)).trans
      (.finish _ _ (by intro heq; subst heq; exact hr)))
  | resubscribed => exact h.mild ((Mild.unhold v _ _).trans (.setCall _ _ (.inr rfl)))
  | heard _ _ hes =>
    refine h.notes fun e he => ?_
    rcases List.mem_cons.mp he with rfl | he
    · rfl
    · obtain ⟨p, hs, torn, rfl, -⟩ := hes e he
      rfl
  | ended hok hf _ => exact h.settle ha hok hf
  | promoted hok hf _ => exact h.promote hok hf
  | delivered => exact h.mild (.notes v (by simp [Event.silent]))
  | released => exact h.mild (.notes v (by simp [Event.silent]))
  | tear => exact h.mild (.tear v)
  | resume => exact h.mild (.notes v (by simp [Event.silent]))
  | restart => exact h.mild ((Mild.discard v).trans (.notes _ (by simp [Event.silent])))
  | establish => exact h.mild (.notes v (by simp [Event.silent]))

end Vouched
end Session

theorem vouches_view {R : PublishPacket → Prop} (s : State) (f : Frame) :
    Vouches R (view s).hist f ↔ Vouches R s.hist f := by
  simp [Vouches, lastSent_view]

/-- A step of a client that gets acknowledgements of the right kind, which vouch. -/
theorem Vouched.step {R : PublishPacket → Prop} {s : State} {a : Action} (hw : Wired none s)
    (hi : (view s).Inv) (ha : (view s).Audit) (h : (view s).Vouched R)
    (hok : ∀ f torn io, a = .frame f torn io → InKind (outbound s.store) f ∧ Vouches R s.hist f) :
    (view (s.step a)).Vouched R := by
  have hrefines : Refines (fun v f => InKind v.out f ∧ Vouches R v.hist f) anyRoll s (s.step a) :=
    step_refines hw hi (allowed_of_frame fun f torn io heq =>
      ⟨(hok f torn io heq).1, (vouches_view s f).mpr (hok f torn io heq).2⟩)
  refine (Session.Moves.invariant (P := fun v => v.Audit ∧ v.Vouched R) hrefines.2 hi ⟨ha, h⟩
    fun v w hv hboth hm => ⟨?_, ?_⟩).2.2
  · exact hboth.1.move hv (hm.mono fun _ _ hf => hf.1)
  · exact hboth.2.move hv hboth.1 (hm.mono fun _ _ hf => hf.2)

end GoMqtt.Client
