import GoMqtt.Client.Traffic

/-! # Where the stored PUBLISHes come from

A PUBLISH gets into the store by a Publish that has passed its checks and has
written it, and stays there as it was sent until it goes. In every run a stored
PUBLISH is therefore the packet of some call's request, encodes, and carries a
valid topic. Frames only take entries away. -/
namespace GoMqtt.Client
open GoMqtt.Protocol GoMqtt.Session GoMqtt.Lib

/-- No PUBLISH is stored, sent or parked. -/
structure Tame (s t : State) : Prop where
  out : ∀ m ∈ outbound t.store, m.kind = .publish → m ∈ outbound s.store
  wire : ∃ es, t.hist = s.hist ++ es ∧ ∀ c l p, .sent c l p ∉ es
  parks : ∀ c l pkt, t.calls c = .parked l pkt → s.calls c = .parked l pkt

section tame

variable {s t : State} {l : LinkId}

theorem not_sent_of_bears {es : List Event} (h : ∀ e ∈ es, e.bears = false) (c : CallId) (l : LinkId)
    (p : PublishPacket) : .sent c l p ∉ es := by
  intro hm
  cases h _ hm

theorem mem_of_without {out : List StoredMessage} {id : UInt16} {kind : StoredKind}
    {m : StoredMessage} (h : m ∈ Session.without out id kind) : m ∈ out := (List.mem_filter.mp h).1

theorem Quiet.tame (h : Quiet s t) : Tame s t := by
  obtain ⟨es, he, hes⟩ := h.wire
  exact ⟨fun m hm _ => h.out ▸ hm, ⟨es, he, not_sent_of_bears hes⟩, h.parks⟩

theorem Ends.tame {id : UInt16} {kind : StoredKind} (h : Ends id kind s t) : Tame s t := by
  obtain ⟨es, he, hes⟩ := h.wire
  exact ⟨fun m hm _ => mem_of_without (h.out ▸ hm), ⟨es, he, not_sent_of_bears hes⟩, h.parks⟩

theorem Promotes.tame {id : UInt16} (h : Promotes l id s t) : Tame s t := by
  obtain ⟨es, he, hes, -⟩ := h.wire
  refine ⟨fun m hm hk => ?_, ⟨es, he, hes⟩, h.parks⟩
  rw [h.out] at hm
  rcases List.mem_append.mp hm with hm | hm
  · exact mem_of_without hm
  · rw [List.mem_singleton.mp hm] at hk
    cases hk

theorem Reconnects.tame {result : ConnectResult} (h : Reconnects result s t) : Tame s t := by
  obtain ⟨es, he, hes, -⟩ := h.wire
  refine ⟨fun m hm _ => ?_, ⟨es, he, fun c l p hm => hes _ hm rfl⟩, h.parks⟩
  rw [h.out] at hm
  split at hm
  · cases hm
  · exact hm

/-- A PUBREL without a change to the store. -/
theorem pubrel_tame (f : Frame) (id : UInt16) (reason : ReasonCode) (io : Bool) :
    Tame s ((s.log (.received l f)).sendAckReason l .pubrel id reason io) := by
  have hkeeps := Keeps.writeFrame (s.log (.received l f)) l
    (.ack ⟨s.cfg.protocolVersion, .pubrel, id, reason, none⟩) io
  refine ⟨fun m hm _ => ?_, ?_, fun c l' pkt hc => ?_⟩
  · unfold State.sendAckReason at hm
    rwa [show (s.log (.received l f)).cfg = s.cfg from rfl, hkeeps.store] at hm
  · unfold State.sendAckReason
    rcases writeFrame_cases (s.log (.received l f)) l
      (.ack ⟨(s.log (.received l f)).cfg.protocolVersion, .pubrel, id, reason, none⟩) io with
      ⟨e, hr⟩ | hr | ⟨hr, -⟩ <;> rw [hr]
    · exact ⟨[.received l f], rfl, by simp⟩
    · obtain ⟨es, he, hes⟩ := (((Quiet.refl s).log (e := .received l f) rfl).teardownLink l
        ((s.log (.received l f)).links l).graceful).wire
      exact ⟨es, he, not_sent_of_bears hes⟩
    · exact ⟨[.received l f, .wrote l _], by simp [State.log]; rfl, by simp⟩
  · unfold State.sendAckReason at hc
    rwa [show (s.log (.received l f)).cfg = s.cfg from rfl, hkeeps.calls] at hc

theorem completeOutbound_tame (f : Frame) (id : UInt16) (kind : StoredKind) (res : AckResult) :
    Tame s ((s.log (.received l f)).completeOutbound l id kind res) := by
  by_cases hc : s.store.contains id kind = true
  · exact (completeOutbound_traffic f res hc).tame
  · unfold State.completeOutbound
    rw [if_neg (show ¬ (s.log (.received l f)).store.contains id kind = true from hc)]
    exact ((Quiet.refl s).log rfl).tame

/-- No frame adds a PUBLISH. -/
theorem frame_tame (f : Frame) (torn io : Bool) (hi : (view s).Inv)
    (hstop : (s.links l).stop = false) :
    Tame s ((s.log (.received l f)).handleFrame l f torn io) := by
  by_cases hf : f.unrelated = true
  · exact (((Quiet.refl s).log rfl).handleFrame l hf torn io).tame
  cases f with
  | puback a => exact completeOutbound_tame _ _ _ _
  | pubcomp a => exact completeOutbound_tame _ _ _ _
  | pubrec a =>
    by_cases hc : s.store.contains a.packetID .publish = true
    · by_cases herr : a.reasonCode.isError = true
      · rw [State.handleFrame, handlePubrec_error _ _ io hc herr]
        exact completeOutbound_tame _ _ _ _
      · exact (handlePubrec_traffic _ io hi hstop hc (by simpa using herr)).tame
    · unfold State.handleFrame State.handlePubrec State.sendAck
      dsimp only
      rw [if_neg (show ¬ (s.log (.received l (.pubrec a))).store.contains a.packetID .publish = true
        from hc)]
      split <;> exact pubrel_tame _ _ _ io
  | _ => exact absurd rfl hf

/-- No frame makes the client write a PUBLISH. -/
theorem frame_publishes_nothing (s : State) (l : LinkId) (f : Frame) (torn io : Bool) :
    ∃ es, ((s.log (.received l f)).handleFrame l f torn io).hist = s.hist ++ es ∧
      ∀ e ∈ es, e.publishes = false := by
  have hany : ∀ o, Admits (fun e => e.publishes = false) o := fun _ _ _ he => he
  have hlog : Moves .outboundMax (fun e => e.publishes = false) (fun _ _ => False) s
      (s.log (.received l f)) := (Moves.refl s).log rfl
  by_cases hpub : ∃ p, f = .publish p
  · obtain ⟨p, rfl⟩ := hpub
    exact (hlog.handlePublish (hany _) (hany _) (fun _ _ => rfl) l p.pkt torn io).1
  · exact (hlog.handleOther (hany _) l (fun p heq => hpub ⟨p, heq⟩) torn io).1

end tame

/-! ## Genuine packets -/

/-- The request passes the checks on its topic and its QoS asks for an exchange. -/
structure Sound (req : PublishRequest) : Prop where
  topic : validateTopicName req.topic = .ok ()
  qos : req.qos ≠ 0

/-- Whatever is parked, was sent or is stored is the packet of a call's request. -/
structure Genuine (s : State) : Prop where
  parked : ∀ c l pkt, s.calls c = .parked l pkt →
    ∃ req, .invoked c req ∈ s.hist ∧ Sound req ∧ pkt = s.publishPacket req
  sent : ∀ c l p, .sent c l p ∈ s.hist → ∃ req, .invoked c req ∈ s.hist ∧ Sound req ∧
    p = { s.publishPacket req with packetID := p.packetID }
  stored : ∀ m ∈ outbound s.store, m.kind = .publish → ∃ c l p, m = storedPublish p ∧
    .sent c l p ∈ s.hist ∧ ∃ b, p.encode = .ok b

theorem publishChecks_topic {s : State} {req : PublishRequest} {l : LinkId}
    (h : s.publishChecks req = .ok l) : validateTopicName req.topic = .ok () := by
  unfold State.publishChecks at h
  cases ht : validateTopicName req.topic with
  | error e => rw [ht] at h; cases h
  | ok u => rfl

theorem Genuine.sendable {s : State} (h : Genuine s) : Sendable (outbound s.store) := by
  intro m hm hk
  obtain ⟨c, l, p, rfl, hsent, -⟩ := h.stored m hm hk
  obtain ⟨req, -, hsound, hp⟩ := h.sent c l p hsent
  refine ⟨p, rfl, ?_⟩
  rw [hp]
  exact hsound.qos

theorem Genuine.tame {s t : State} (h : Genuine s) (hcfg : t.cfg = s.cfg) (ht : Tame s t) :
    Genuine t := by
  obtain ⟨es, he, hes⟩ := ht.wire
  have hpkt : ∀ req, t.publishPacket req = s.publishPacket req := by
    intro req
    simp only [State.publishPacket, hcfg]
  have hold : ∀ e, e ∈ s.hist → e ∈ t.hist := fun e hm => he ▸ List.mem_append_left _ hm
  refine ⟨fun c l pkt hc => ?_, fun c l p hm => ?_, fun m hm hk => ?_⟩
  · obtain ⟨req, hinv, hsound, hp⟩ := h.parked c l pkt (ht.parks c l pkt hc)
    exact ⟨req, hold _ hinv, hsound, by rw [hpkt]; exact hp⟩
  · rw [he] at hm
    obtain ⟨req, hinv, hsound, hp⟩ := h.sent c l p ((List.mem_append.mp hm).resolve_right (hes c l p))
    exact ⟨req, hold _ hinv, hsound, by rw [hpkt]; exact hp⟩
  · obtain ⟨c, l, p, hp, hsent, hb⟩ := h.stored m (ht.out m hm hk) hk
    exact ⟨c, l, p, hp, hold _ hsent, hb⟩

theorem Genuine.sends {s t : State} {c : CallId} {l : LinkId} {p : PublishPacket} (h : Genuine s)
    (hcfg : t.cfg = s.cfg) (hsends : Sends c l p s t) (hasked : Asked c l p s t) : Genuine t := by
  obtain ⟨es, he, hes⟩ := hsends.wire
  have hpkt : ∀ req, t.publishPacket req = s.publishPacket req := by
    intro req
    simp only [State.publishPacket, hcfg]
  have hold : ∀ e, e ∈ s.hist → e ∈ t.hist := fun e hm => he ▸ List.mem_append_left _ hm
  have hnew : .sent c l p ∈ t.hist := by
    rw [he]
    simp
  refine ⟨fun c' l' pkt hc => ?_, fun c' l' p' hm => ?_, fun m hm hk => ?_⟩
  · obtain ⟨req, hinv, hsound, hp⟩ := h.parked c' l' pkt (hsends.parks c' l' pkt hc)
    exact ⟨req, hold _ hinv, hsound, by rw [hpkt]; exact hp⟩
  · rw [he] at hm
    simp only [List.mem_append, List.mem_cons, reduceCtorEq, Event.sent.injEq, List.not_mem_nil,
      or_false, false_or] at hm
    rcases hm with hm | hm | ⟨rfl, rfl, rfl⟩
    · obtain ⟨req, hinv, hsound, hp⟩ := h.sent c' l' p' hm
      exact ⟨req, hold _ hinv, hsound, by rw [hpkt]; exact hp⟩
    · exact absurd hm (not_sent_of_bears hes c' l' p')
    · rcases hasked with ⟨pkt, hc, hp⟩ | ⟨req, hinv, hchecks, hp⟩
      · obtain ⟨req, hinv, hsound, rfl⟩ := h.parked _ _ pkt hc
        exact ⟨req, hold _ hinv, hsound, by rw [hpkt]; exact hp⟩
      · refine ⟨req, hinv, ⟨publishChecks_topic hchecks, ?_⟩, by rw [hpkt]; exact hp⟩
        have hq := hsends.qos
        rw [hp] at hq
        exact hq
  · rw [hsends.out] at hm
    rcases List.mem_append.mp hm with hm | hm
    · obtain ⟨c', l', p', hp, hsent, hb⟩ := h.stored m hm hk
      exact ⟨c', l', p', hp, hold _ hsent, hb⟩
    · obtain ⟨b, hb, -⟩ := hsends.fits
      exact ⟨c, l, p, List.mem_singleton.mp hm, hnew, b, hb⟩

theorem Genuine.parks {s : State} {c : CallId} {req : PublishRequest} {l : LinkId} (h : Genuine s)
    (hchecks : s.publishChecks req = .ok l) (hq : req.qos ≠ 0) :
    Genuine ((s.log (.invoked c req)).setCall c (.parked l (s.publishPacket req))) := by
  have hold : ∀ e, e ∈ s.hist → e ∈ s.hist ++ [Event.invoked c req] :=
    fun e hm => List.mem_append_left _ hm
  refine ⟨fun c' l' pkt hc => ?_, fun c' l' p hm => ?_, fun m hm hk => ?_⟩
  · by_cases hcc : c' = c
    · subst hcc
      have heq : Call.parked l (s.publishPacket req) = .parked l' pkt := by
        simpa [State.setCall] using hc
      cases heq
      exact ⟨req, by simp [State.setCall, State.log], ⟨publishChecks_topic hchecks, hq⟩, rfl⟩
    · obtain ⟨req', hinv, hsound, hp⟩ := h.parked c' l' pkt
        (by simpa [State.setCall, State.log, hcc] using hc)
      exact ⟨req', hold _ hinv, hsound, hp⟩
  · obtain ⟨req', hinv, hsound, hp⟩ := h.sent c' l' p (by simpa [State.setCall, State.log] using hm)
    exact ⟨req', hold _ hinv, hsound, hp⟩
  · obtain ⟨c', l', p, hp, hsent, hb⟩ := h.stored m hm hk
    exact ⟨c', l', p, hp, hold _ hsent, hb⟩

theorem Genuine.step {s : State} {a : Action} (hw : Wired none s) (hi : (view s).Inv)
    (h : Genuine s) : Genuine (s.step a) := by
  have hcfg := cfg_step s a
  by_cases hframe : ∃ f torn io, a = .frame f torn io
  · obtain ⟨f, torn, io, rfl⟩ := hframe
    cases hl : s.link with
    | none =>
      rw [State.step, State.onLink, hl]
      exact h
    | some l =>
      rw [State.step_frame hl] at hcfg ⊢
      exact h.tame hcfg (frame_tame f torn io hi (hw.live l hl).2)
  by_cases hconnect : a.connects = true
  · cases a with
    | connect hs n =>
      rcases connect_traffic hs n h.sendable with heq | ⟨result, -, hre⟩
      · rw [heq]
        exact h
      · exact h.tame hcfg hre.tame
    | _ => cases hconnect
  rcases call_traffic hw hi (by simpa using hconnect)
      (fun f torn io heq => hframe ⟨f, torn, io, heq⟩) with hq | ⟨c, req, l, hchecks, heq⟩ |
      ⟨c, l, p, hsends, hasked⟩
  · exact h.tame hcfg hq.tame
  · have hrefines : Refines (fun _ _ => True) anyRoll s (s.step a) :=
      step_refines hw hi (allowed_of_frame fun _ _ _ _ => trivial)
    have hw' := hrefines.1
    rw [heq] at hw' ⊢
    exact h.parks hchecks (hw'.parked c l (s.publishPacket req) (by simp [State.setCall])).2
  · exact h.sends hcfg hsends hasked

/-! ## Who waits -/

namespace Session

/-- A Publish whose PUBLISH is out has its result or is told when it comes. -/
def Attended (v : Session) : Prop :=
  ∀ c id, v.calls c = .publishing id → v.inbox c ≠ none ∨ v.waiting id = some c

namespace Attended

variable {v w : Session}

/-- No call starts to wait, no result is taken away, nobody is forgotten. -/
theorem mono (h : Attended v)
    (hcalls : ∀ c id, w.calls c = .publishing id → v.calls c = .publishing id ∧
      (v.inbox c ≠ none → w.inbox c ≠ none) ∧
      (v.waiting id = some c → w.inbox c ≠ none ∨ w.waiting id = some c)) : Attended w := by
  intro c id hc
  obtain ⟨hv, hbox, hwait⟩ := hcalls c id hc
  rcases h c id hv with hin | hw
  · exact .inl (hbox hin)
  · exact hwait hw

theorem notes (h : Attended v) (es : List Event) : Attended (v.notes es) := h

theorem setCall (h : Attended v) (c : CallId) {k : Call} (hk : ∀ id, k ≠ .publishing id) :
    Attended (v.setCall c k) := by
  refine h.mono fun c' id hc => ?_
  have hne : c' ≠ c := by
    intro heq
    subst heq
    exact hk id (by simpa [Session.setCall] using hc)
  have hsame : (v.setCall c k).inbox c' = v.inbox c' := by simp [Session.setCall, hne]
  exact ⟨by simpa [Session.setCall, hne] using hc, by rw [hsame]; exact fun h => h, .inr⟩

theorem finish (h : Attended v) (c : CallId) (r : Return) : Attended (v.finish c r) :=
  h.setCall c (by simp)

theorem register (h : Attended v) (s : Subscription) : Attended (v.register s) := h

theorem unhold (h : Attended v) (id : UInt16) (gen : Nat) : Attended (v.unhold id gen) := by
  rw [unhold_eq]
  exact h

theorem withdraw (h : Attended v) (r : Request) : Attended (v.withdraw r) := by
  rw [withdraw_eq]
  exact h

theorem confirm (h : Attended v) (r : Request) : Attended (v.confirm r) := by
  rw [confirm_eq]
  exact h

theorem send (h : Attended v) (hused : ∀ id c, v.waiting id = some c → v.used id = true)
    {c : CallId} {l : LinkId} {p : PublishPacket} (hfree : v.used p.packetID = false) :
    Attended (v.send c l p) := by
  intro c' id hc
  by_cases hcc : c' = c
  · subst hcc
    have hid : Call.publishing p.packetID = .publishing id := by
      simpa [Session.send, Session.setCall] using hc
    cases hid
    exact .inr (by simp [Session.send])
  · have hv : v.calls c' = .publishing id := by simpa [Session.send, Session.setCall, hcc] using hc
    rcases h c' id hv with hin | hw
    · exact .inl (by simpa [Session.send, Session.setCall, hcc] using hin)
    · have hne : id ≠ p.packetID := by
        intro heq
        have htrue := hused id c' hw
        rw [heq, hfree] at htrue
        cases htrue
      exact .inr (by simpa [Session.send, hne] using hw)

theorem drop (h : Attended v) {id : UInt16} {c : CallId} (r : Return) :
    Attended ((v.drop id c).finish c r) := by
  refine h.mono fun c' id' hc => ?_
  have hne : c' ≠ c := by
    intro heq
    subst heq
    simp [Session.finish, Session.setCall, Session.notes] at hc
  have hsame : ((v.drop id c).finish c r).inbox c' = v.inbox c' := by
    simp [Session.finish, Session.setCall, Session.notes, Session.drop, hne]
  refine ⟨by simpa [Session.finish, Session.setCall, Session.notes, Session.drop, hne] using hc,
    by rw [hsame]; exact fun h => h, fun hw => .inr ?_⟩
  have hother : ¬ (id' = id ∧ v.waiting id' = some c) := by
    rw [hw]
    exact fun hx => hne (Option.some.inj hx.2)
  show (if id' = id ∧ v.waiting id' = some c then none else v.waiting id') = some c'
  rw [if_neg hother]
  exact hw

theorem settle (h : Attended v) (id : UInt16) (kind : StoredKind) (res : AckResult) :
    Attended (v.settle id kind res) := by
  refine h.mono fun c id' hc => ⟨hc, fun hin => ?_, fun hw => ?_⟩
  · unfold Session.settle
    cases hwait : v.waiting id with
    | none => exact hin
    | some c' =>
      by_cases hcc : c = c'
      · subst hcc
        simp
      · simpa [hcc] using hin
  · by_cases hid : id' = id
    · subst hid
      exact .inl (by simp [Session.settle, hw])
    · exact .inr (by simpa [Session.settle, hid] using hw)

theorem tear (h : Attended v) : Attended v.tear := by
  refine h.mono fun c id hc => ⟨hc, fun hin => ?_, fun hw => .inl ?_⟩
  all_goals
    replace hc : v.calls c = .publishing id := hc
    simp only [Session.tear, hc]
  · split
    · simp
    · exact hin
  · simp [hw]

theorem move {ok : Session → Frame → Prop} {roll : Subscription → Subscription → Prop} (hi : v.Inv)
    (h : Attended v) (hm : Move ok roll v w) : Attended w := by
  have hused : ∀ id c, v.waiting id = some c → v.used id = true := by
    intro id c hw
    obtain ⟨m, hm, rfl⟩ := List.mem_map.mp (hi.waiter id c hw).2.2
    exact hi.used_out m hm
  cases hm with
  | refuse => exact (h.notes _).finish _ _
  | shoot => exact (h.notes _).finish _ _
  | park => exact (h.notes _).setCall _ (by simp)
  | send _ _ _ _ hfree => exact (h.notes _).send hused hfree
  | abandon => exact h.drop _
  | answer => exact h.finish _ _
  | reject => exact h.finish _ _
  | subscribe => exact (h.register _).setCall _ (by simp)
  | subscribeFailed => exact ((h.register _).withdraw _).finish _ _
  | unsubscribe => exact h.setCall _ (by simp)
  | resubscribe => exact h.setCall _ (by simp)
  | requestFailed => exact ((h.unhold _ _).withdraw _).finish _ _
  | requestDone => exact ((h.unhold _ _).confirm _).finish _ _
  | resubscribed => exact (h.unhold _ _).setCall _ (by simp)
  | heard => exact h.notes _
  | ended => exact (h.notes _).settle _ _ _
  | promoted => exact h
  | delivered => exact h
  | released => exact h
  | tear => exact h.tear
  | resume => exact h
  | restart => exact h
  | establish => exact h

end Attended
end Session

/-- What holds of the client in every run, whatever it is sent. -/
structure Sane (s : State) : Prop extends Genuine s where
  wired : Wired none s
  inv : (view s).Inv
  attended : (view s).Attended

theorem Sane.step {s : State} (h : Sane s) (a : Action) : Sane (s.step a) := by
  have hrefines : Refines (fun _ _ => True) anyRoll s (s.step a) :=
    step_refines h.wired h.inv (allowed_of_frame fun _ _ _ _ => trivial)
  obtain ⟨hinv, hattended⟩ := Session.Moves.invariant hrefines.2 h.inv h.attended
    fun v w hi hv hm => hv.move hi hm
  exact ⟨h.toGenuine.step h.wired h.inv, hrefines.1, hinv, hattended⟩

theorem sane_init (cfg : TCPConfig) : Sane (newTCPClient cfg) := by
  refine ⟨?_, .init cfg, inv_init cfg, by simp [Session.Attended, view, newTCPClient]⟩
  constructor <;> simp [newTCPClient, outbound]

end GoMqtt.Client
