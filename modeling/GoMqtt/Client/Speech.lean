import GoMqtt.Client.Outbox

/-! # What the client writes

Every packet that goes out encodes and is of the client's own version, a PUBLISH
names a valid topic, and the link it goes out on has been made. Whoever reads the
other end of a link can therefore decode all of it. -/
namespace GoMqtt.Client
open GoMqtt.Protocol GoMqtt.Session GoMqtt.Lib

/-- The packet is of version `v`, and a PUBLISH names a valid topic. -/
def Proper (v : Version) : Packet → Prop
  | .publish p => p.version = v ∧ validateTopicName p.topic = .ok ()
  | .ack p => p.version = v
  | .subscribe p => p.version = v
  | .unsubscribe p => p.version = v
  | .pingreq => True
  | .disconnect p => p.version = v

/-- A peer of version `v` can decode the packet. -/
def Legible (v : Version) (p : Packet) : Prop := Proper v p ∧ ∃ b, p.encode = .ok b

/-- Only legible packets go out, and only on links below `n`. -/
structure Speaks (n : LinkId) (s t : State) : Prop where
  cfg : t.cfg = s.cfg
  wire : ∃ es, t.hist = s.hist ++ es ∧
    ∀ l p, .wrote l p ∈ es → l < n ∧ Legible s.cfg.protocolVersion p

namespace Speaks

variable {n : LinkId} {s t u : State} {l : LinkId}

theorem refl (n : LinkId) (s : State) : Speaks n s s := ⟨rfl, [], by simp, by simp⟩

/-- Only the configuration and the history are looked at. -/
theorem congr (h : Speaks n s t) (hcfg : u.cfg = t.cfg) (hhist : u.hist = t.hist) :
    Speaks n s u := ⟨hcfg.trans h.cfg, hhist ▸ h.wire⟩

theorem append (h : Speaks n s t) {es : List Event} (hcfg : u.cfg = t.cfg)
    (hhist : u.hist = t.hist ++ es)
    (hes : ∀ l p, .wrote l p ∈ es → l < n ∧ Legible s.cfg.protocolVersion p) : Speaks n s u := by
  obtain ⟨es', he, hes'⟩ := h.wire
  refine ⟨hcfg.trans h.cfg, es' ++ es, by rw [hhist, he, List.append_assoc], fun l p hm => ?_⟩
  rcases List.mem_append.mp hm with hm | hm
  · exact hes' l p hm
  · exact hes l p hm

theorem log (h : Speaks n s t) {e : Event} (he : ∀ l p, e ≠ .wrote l p) : Speaks n s (t.log e) :=
  h.append rfl rfl fun l p hm => absurd (List.mem_singleton.mp hm).symm (he l p)

theorem setCall (h : Speaks n s t) (c : CallId) (k : Call) : Speaks n s (t.setCall c k) :=
  h.congr rfl rfl

theorem setLink (h : Speaks n s t) (l : LinkId) (f : Link → Link) : Speaks n s (t.setLink l f) :=
  h.congr rfl rfl

theorem finish (h : Speaks n s t) (c : CallId) (r : Return) : Speaks n s (t.finish c r) :=
  (h.setCall c .done).log (by simp)

theorem removeWaiter (h : Speaks n s t) (id : UInt16) (c : CallId) :
    Speaks n s (t.removeWaiter id c) := by
  unfold State.removeWaiter
  split
  · split <;> exact h.congr rfl rfl
  · exact h

theorem signalWaiter (h : Speaks n s t) (id : UInt16) (got : AckClass) (res : AckResult) :
    Speaks n s (t.signalWaiter id got res) := by
  unfold State.signalWaiter
  split
  · split <;> exact h.congr rfl rfl
  · exact h

theorem teardownLink (h : Speaks n s t) (l : LinkId) (g : Bool) :
    Speaks n s (t.teardownLink l g) := by
  have hdown : Speaks n s ((t.setLink l fun k => { k with stop := true }).log (.tornDown l)) := by
    exact (h.setLink l _).log (by simp)
  unfold State.teardownLink
  split
  · exact h
  · dsimp only
    split
    · exact hdown
    · split <;> exact hdown.congr rfl rfl

theorem writeFrame (h : Speaks n s t) (hl : l < n) {p : Packet}
    (hp : Proper s.cfg.protocolVersion p) (io : Bool) : Speaks n s (t.writeFrame l p io).2 := by
  rcases writeFrame_outcome t l p io with ⟨-, e, hr⟩ | ⟨-, hr⟩ | ⟨⟨-, b, hb, -⟩, hr⟩ <;> rw [hr]
  · exact h
  · exact h.teardownLink l _
  · refine h.append rfl rfl fun l' p' hm => ?_
    cases List.mem_singleton.mp hm
    exact ⟨hl, hp, b, hb⟩

/-! ## Calls -/

theorem sendAcked (h : Speaks n s t) (hl : l < n) {pkt : PublishPacket}
    (hp : Proper s.cfg.protocolVersion (.publish pkt)) (c : CallId) (quotaGen : Nat) (io : Bool) :
    Speaks n s (t.sendAcked c l pkt quotaGen io) := by
  unfold State.sendAcked
  split
  · refine Speaks.finish ?_ c _
    exact h.congr rfl rfl
  · rename_i id idGen ids hid
    have hsaved : Speaks n s ({ t with
        ids, store := t.store.save (storedPublish { pkt with packetID := id }) }.registerWaiter id c
          .publish) := h.congr rfl rfl
    have hwrite := hsaved.writeFrame (p := .publish { pkt with packetID := id }) hl hp io
    dsimp only
    split <;> rename_i hr <;> rw [hr] at hwrite
    · refine Speaks.finish ?_ c _
      split <;> exact (hwrite.removeWaiter id c).congr rfl rfl
    · exact (hwrite.log (by simp)).setCall c _

theorem publishAcked (h : Speaks n s t) (hl : l < n) {pkt : PublishPacket}
    (hp : Proper s.cfg.protocolVersion (.publish pkt)) (c : CallId) (io : Bool) :
    Speaks n s (t.publishAcked c l pkt io) := by
  unfold State.publishAcked
  split
  · exact h.finish c _
  · exact h.setCall c _
  · refine Speaks.sendAcked (Speaks.log ?_ (by simp)) hl hp c _ io
    exact h.congr rfl rfl

theorem publish (hlive : ∀ l, s.link = some l → l < n) (c : CallId) (req : PublishRequest)
    (io : Bool) : Speaks n s (s.publish c req io) := by
  have hlog : Speaks n s (s.log (.invoked c req)) := (refl n s).log (by simp)
  unfold State.publish
  dsimp only
  split
  · exact hlog.finish c _
  · rename_i l hchecks
    have hl := hlive l (State.publishChecks_ok hchecks)
    have hp : Proper s.cfg.protocolVersion (.publish (s.publishPacket req)) :=
      ⟨rfl, publishChecks_topic hchecks⟩
    split
    · exact (hlog.writeFrame hl hp io).finish c _
    · exact hlog.publishAcked hl hp c io

theorem failRequest (h : Speaks n s t) (c : CallId) (r : Request) (e : ClientError) :
    Speaks n s (t.failRequest c r e) := by
  cases r with
  | subscribe filter prev token =>
    refine Speaks.finish ?_ c _
    exact h.congr rfl rfl
  | unsubscribe filter snap => exact h.finish c _

theorem completeRequest (h : Speaks n s t) (c : CallId) (r : Request) (code : ReasonCode) :
    Speaks n s (t.completeRequest c r code) := by
  match r with
  | .subscribe .. => exact h.finish c _
  | .unsubscribe _ none => exact h.finish c _
  | .unsubscribe _ (some _) =>
    refine Speaks.finish ?_ c _
    exact h.congr rfl rfl

theorem requestAborted (h : Speaks n s t) (c : CallId) (id : UInt16) (gen : Nat) :
    Speaks n s (t.requestAborted c id gen) := (h.removeWaiter id c).congr rfl rfl

theorem requestAck (h : Speaks n s t) (hl : l < n) (c : CallId) (r : Request) (want : AckClass)
    {mk : UInt16 → Packet} (hmk : ∀ id, Proper s.cfg.protocolVersion (mk id)) (io : Bool) :
    Speaks n s (t.requestAck c l r want mk io) := by
  unfold State.requestAck
  split
  · refine Speaks.failRequest ?_ c r _
    exact h.congr rfl rfl
  · rename_i id gen ids hid
    have hheld : Speaks n s ({ t with ids }.registerWaiter id c want) := h.congr rfl rfl
    have hwrite := hheld.writeFrame hl (hmk id) io
    dsimp only
    split <;> rename_i hr <;> rw [hr] at hwrite
    · exact (hwrite.requestAborted c id gen).failRequest c r _
    · exact hwrite.setCall c _

theorem subscribe (hlive : ∀ l, s.link = some l → l < n) (c : CallId) (req : SubscribeRequest)
    (io : Bool) : Speaks n s (s.subscribe c req io) := by
  unfold State.subscribe
  split
  · exact (refl n s).finish c _
  · rename_i l hchecks
    have hl : s.link = some l := by
      unfold State.subscribeChecks at hchecks
      cases hs : s.link with
      | none =>
        simp only [hs, bind, Except.bind, throw, throwThe, MonadExceptOf.throw] at hchecks
        repeat' split at hchecks
        all_goals cases hchecks
      | some l' =>
        simp only [hs, bind, Except.bind, pure, Except.pure, throw, throwThe,
          MonadExceptOf.throw] at hchecks
        repeat' split at hchecks
        all_goals cases hchecks
        all_goals rfl
    refine Speaks.requestAck (Speaks.log ?_ (by simp)) (hlive l hl) c _ _ ?_ io
    · exact (refl n s).congr rfl rfl
    · exact fun _ => rfl

theorem unsubscribe (hlive : ∀ l, s.link = some l → l < n) (c : CallId) (filter : Bytes)
    (io : Bool) : Speaks n s (s.unsubscribe c filter io) := by
  unfold State.unsubscribe
  split
  · exact (refl n s).finish c _
  · exact (refl n s).finish c _
  · rename_i l _ hl
    refine (refl n s).requestAck (hlive l hl) c _ _ ?_ io
    exact fun _ => rfl

theorem giveUp (h : Speaks n s t) (c : CallId) (timeout : Bool) :
    Speaks n s (t.giveUp c timeout) := by
  unfold State.giveUp
  dsimp only
  split
  · split
    · exact h
    · exact h.finish c _
  · exact (h.removeWaiter _ c).finish c _
  · exact (h.requestAborted c _ _).failRequest c _ _
  · split
    · exact (h.requestAborted c _ _).setCall c _
    · exact h
  · exact h

theorem collect (h : Speaks n s t) (c : CallId) : Speaks n s (t.collect c) := by
  unfold State.collect
  split
  · exact h
  · split
    · exact h.finish c _
    · rename_i r id gen _
      have hfree : Speaks n s { t with ids := t.ids.releaseAt id gen } := h.congr rfl rfl
      dsimp only
      split
      · exact hfree.failRequest c r _
      · exact hfree.completeRequest c r _
    · refine Speaks.setCall ?_ c _
      exact h.congr rfl rfl
    · exact h

/-! ## The loops of a link -/

theorem tick (h : Speaks n s t) (hl : l < n) (io : Bool) : Speaks n s (t.tick l io) := by
  unfold State.tick
  split
  · exact h.teardownLink l _
  · have hset : Speaks n s
        (t.setLink l fun k => { k with outstandingPings := k.outstandingPings + 1 }) :=
      h.setLink l _
    have hwrite := hset.writeFrame (p := .pingreq) hl trivial io
    dsimp only
    split <;> rename_i hr <;> rw [hr] at hwrite
    · exact hwrite.teardownLink l _
    · exact hwrite

theorem disconnect (hlive : ∀ l, s.link = some l → l < n) (io : Bool) :
    Speaks n s (s.disconnect io) := by
  unfold State.disconnect
  split
  · exact refl n s
  · rename_i l hl
    refine Speaks.teardownLink (((refl n s).setLink l _).writeFrame (hlive l hl) ?_ io) _ true
    rfl

theorem sendAckReason (h : Speaks n s t) (hl : l < n) (ty : PacketType) (id : UInt16)
    (reason : ReasonCode) (io : Bool) : Speaks n s (t.sendAckReason l ty id reason io) := by
  refine h.writeFrame hl ?_ io
  show t.cfg.protocolVersion = _
  rw [h.cfg]

theorem protocolError (h : Speaks n s t) (hl : l < n) (reason : ReasonCode) (io : Bool) :
    Speaks n s (t.protocolError l reason io) := by
  unfold State.protocolError
  dsimp only
  split
  · refine Speaks.teardownLink (h.writeFrame hl ?_ io) l _
    show t.cfg.protocolVersion = _
    rw [h.cfg]
  · exact h.teardownLink l _

theorem dispatch (h : Speaks n s t) (l : LinkId) (p : PublishPacket) (torn : Bool) :
    Speaks n s (t.dispatch l p torn) := by
  have hlog : Speaks n s (t.log (.dispatched l p (State.handlersFor t.subs.subs p) torn)) :=
    h.log (by simp)
  unfold State.dispatch
  dsimp only
  split
  · exact hlog.teardownLink l _
  · exact hlog

theorem resolveTopicAlias (h : Speaks n s t) (l : LinkId) (p : PublishPacket) :
    Speaks n s (t.resolveTopicAlias l p).2 := by
  rcases resolveTopicAlias_cases t l p with hr | ⟨f, -, -, hr⟩ <;> rw [hr]
  · exact h
  · exact h.setLink l f

theorem handlePublish (h : Speaks n s t) (hl : l < n) (p : PublishPacket) (torn io : Bool) :
    Speaks n s (t.handlePublish l p torn io) := by
  have hres := h.resolveTopicAlias l p
  unfold State.handlePublish
  split <;> rename_i hr <;> rw [hr] at hres
  · exact hres.protocolError hl _ io
  · dsimp only
    split
    · exact hres.dispatch l _ torn
    · split
      · split
        · exact hres.dispatch l _ torn
        · exact (hres.dispatch l _ torn).sendAckReason hl _ _ _ io
      · unfold State.handleInboundQoS2
        split
        · exact hres.sendAckReason hl _ _ _ io
        · dsimp only
          split
          · exact hres.dispatch l _ torn
          · refine Speaks.sendAckReason (Speaks.log ?_ (by simp)) hl _ _ _ io
            exact (hres.dispatch l _ torn).congr rfl rfl

theorem release (h : Speaks n s t) (l : LinkId) (id : UInt16) (kind : StoredKind)
    (res : AckResult) : Speaks n s (t.release l id kind res) := by
  refine Speaks.signalWaiter ?_ id .publish res
  exact h.congr rfl rfl

theorem completeOutbound (h : Speaks n s t) (l : LinkId) (id : UInt16) (kind : StoredKind)
    (res : AckResult) : Speaks n s (t.completeOutbound l id kind res) := by
  unfold State.completeOutbound
  split
  · exact h.release l id kind res
  · exact h

theorem handlePubrec (h : Speaks n s t) (hl : l < n) (a : InboundAck) (reason : Bytes)
    (io : Bool) : Speaks n s (t.handlePubrec l a reason io) := by
  unfold State.handlePubrec
  dsimp only
  split
  · split
    · exact h.release l _ _ _
    · refine Speaks.sendAckReason ?_ hl _ _ _ io
      exact h.congr rfl rfl
  · split <;> exact h.sendAckReason hl _ _ _ io

theorem handleInboundPubrel (h : Speaks n s t) (hl : l < n) (a : InboundAck) (io : Bool) :
    Speaks n s (t.handleInboundPubrel l a io) := by
  unfold State.handleInboundPubrel
  split
  · exact h.sendAckReason hl _ _ _ io
  · refine Speaks.sendAckReason ?_ hl _ _ _ io
    exact h.congr rfl rfl

theorem handleFrame (h : Speaks n s t) (hl : l < n) (f : Frame) (torn io : Bool) :
    Speaks n s (t.handleFrame l f torn io) := by
  cases f with
  | publish p => exact h.handlePublish hl p.pkt torn io
  | puback a => exact h.completeOutbound l _ _ _
  | pubrec a => exact h.handlePubrec hl a _ io
  | pubrel a => exact h.handleInboundPubrel hl a io
  | pubcomp a => exact h.completeOutbound l _ _ _
  | suback p => exact h.signalWaiter _ _ _
  | unsuback p => exact h.signalWaiter _ _ _
  | pingresp => exact h.setLink l fun k => { k with outstandingPings := 0 }
  | disconnect => exact h.teardownLink l _
  | unexpected ty => exact h.protocolError hl _ io
  | malformed => exact h.protocolError hl _ io

/-! ## The replay of a connect -/

theorem replayWrite (h : Speaks n s t) (hl : l < n) {p : Packet}
    (hp : Proper s.cfg.protocolVersion p) (io : Bool) : Speaks n s (t.replayWrite l p io) := by
  have hwrite := h.writeFrame hl hp io
  unfold State.replayWrite
  split <;> rename_i hr <;> rw [hr] at hwrite
  · exact hwrite.log (by simp)
  · exact hwrite

theorem replayEntries (h : Speaks n s t) (hl : l < n) (ms : List StoredMessage) (k : Nat)
    (hms : ∀ m ∈ ms, ∀ p, State.replayPacket s.cfg.protocolVersion m = some p →
      Proper s.cfg.protocolVersion p) : Speaks n s (State.replayEntries l ms k t).2 := by
  induction ms generalizing k t with
  | nil => exact h
  | cons m rest ih =>
    have hrest := fun m' hm => hms m' (List.mem_cons_of_mem _ hm)
    unfold State.replayEntries
    split
    · exact ih h k hrest
    · rename_i p hm
      rw [h.cfg] at hm
      exact ih (h.replayWrite hl (hms m List.mem_cons_self p hm) _) (k - 1) hrest

theorem resubscribe (h : Speaks n s t) (hl : l < n) (k : Nat) (sub : Subscription) (io : Bool) :
    Speaks n s (t.resubscribe l k sub io) := by
  unfold State.resubscribe
  split
  · refine Speaks.log ?_ (by simp)
    exact h.congr rfl rfl
  · rename_i id gen ids hid
    have hheld : Speaks n s ({ t with ids }.registerWaiter id (.resubscribe l k) .suback) :=
      h.congr rfl rfl
    have hwrite := hheld.writeFrame (p := .subscribe (State.subscribePacket t.cfg.protocolVersion
      sub.filter sub.options sub.subID id)) hl (by rw [h.cfg]; rfl) io
    dsimp only
    split <;> rename_i hr <;> rw [hr] at hwrite
    · exact (hwrite.requestAborted _ id gen).log (by simp)
    · exact hwrite.setCall _ _

theorem resubscribeAll (h : Speaks n s t) (hl : l < n) (subs : List Subscription) (k m : Nat) :
    Speaks n s (State.resubscribeAll l subs k m t) := by
  induction subs generalizing k m t with
  | nil => exact h
  | cons sub rest ih => exact ih (h.resubscribe hl k sub _) (k + 1) (m - 1)

theorem applySession (h : Speaks n s t) (result : ConnectResult) :
    Speaks n s (t.applySession result) := by
  unfold State.applySession
  dsimp only
  split
  · have hreset : Speaks n s ({ t with store := t.store.reset, ids := t.ids.reset }.log
        .discarded) := by
      refine Speaks.log ?_ (by simp)
      exact h.congr rfl rfl
    refine Speaks.log ?_ (by simp)
    exact hreset.congr rfl rfl
  · refine Speaks.log ?_ (by simp)
    exact h.congr rfl rfl

end Speaks

/-! ## Every step -/

section step

variable {s : State}

/-- What a genuine entry is replayed as. -/
theorem Genuine.replay_proper (h : Genuine s) {m : StoredMessage} (hm : m ∈ outbound s.store)
    {p : Packet} (hp : State.replayPacket s.cfg.protocolVersion m = some p) :
    Proper s.cfg.protocolVersion p := by
  unfold State.replayPacket at hp
  split at hp
  · rename_i hk
    obtain ⟨c, l, q, rfl, hsent, -⟩ := h.stored m hm hk
    obtain ⟨req, -, hsound, hq⟩ := h.sent c l q hsent
    cases hp
    rw [hq]
    exact ⟨rfl, hsound.topic⟩
  · cases hp
    rfl
  · cases hp

theorem replayed_speaks (h : Genuine s) (result : ConnectResult) (n : Nat) :
    Speaks (s.nextLink + 1) s (replayed s result n) := by
  have hopened : Speaks (s.nextLink + 1) s (opened s result) := by
    have hnext : Speaks (s.nextLink + 1) s { s with nextLink := s.nextLink + 1 } :=
      (Speaks.refl _ s).congr rfl rfl
    exact (hnext.applySession result).congr rfl rfl
  have hentries : Speaks (s.nextLink + 1) s ((opened s result).replaySession s.nextLink n).2 := by
    refine hopened.replayEntries (Nat.lt_succ_self _) _ n fun m hm p hp => ?_
    have hkind : m.kind.outbound = true := by
      cases hk : m.kind <;> simp [State.replayPacket, hk] at hp <;> rfl
    have hmem : { m with seq := 0 } ∈ outbound (opened s result).store :=
      List.mem_map_of_mem (List.mem_filter.mpr ⟨hm, hkind⟩)
    rw [outbound_opened] at hmem
    split at hmem
    · cases hmem
    · refine h.replay_proper hmem ?_
      rw [← hp]
      cases hk : m.kind <;> simp [State.replayPacket, hk]
  exact hentries.resubscribeAll (Nat.lt_succ_self _) _ 0 _

/-- A connect that is accepted makes one link. -/
theorem connect_nextLink {hs : State.Handshake} {result : ConnectResult} (n : Nat)
    (hlink : s.link = none) (hneg : State.negotiate s.cfg hs = .ok result) :
    (s.step (.connect hs n)).nextLink = s.nextLink + 1 := by
  have hnew : (replayed s result n).nextLink = s.nextLink + 1 := by
    obtain ⟨-, -, hnext, -⟩ := Logs.replayed s result n
    rw [hnext]
    exact (applySession_frame { s with nextLink := s.nextLink + 1 } result).2.2.1
  rw [State.step_connect n hlink hneg, establish_eq]
  split
  · exact hnew
  · exact hnew

/-- What a step writes is legible, and goes to a link that was made. -/
theorem step_speaks (hw : Wired none s) (h : Genuine s) (a : Action) :
    Speaks (s.step a).nextLink s (s.step a) := by
  by_cases hconnect : a.connects = true
  · cases a with
    | connect hs n =>
      cases hlink : s.link with
      | some l =>
        simp only [State.step, State.connect, hlink]
        exact .refl _ s
      | none =>
        cases hneg : State.negotiate s.cfg hs with
        | error e =>
          simp only [State.step, State.connect, hlink, hneg]
          exact .refl _ s
        | ok result =>
          have hre := replayed_speaks h result n
          rw [connect_nextLink n hlink hneg, State.step_connect n hlink hneg, establish_eq]
          split
          · exact hre
          · refine Speaks.log ?_ (by simp)
            exact hre.congr rfl rfl
    | _ => cases hconnect
  have hsame : (s.step a).nextLink = s.nextLink :=
    (Logs.any_step (s := s) (a := a) (by simpa using hconnect)).2.2.1
  have hlive : ∀ l, s.link = some l → l < s.nextLink := fun l hl => (hw.live l hl).1.1
  have hloop : ∀ f : State → LinkId → State,
      (∀ l, l < s.nextLink → Speaks s.nextLink s (f s l)) → Speaks s.nextLink s (s.onLink f) := by
    intro f hf
    unfold State.onLink
    split
    · exact .refl _ s
    · rename_i l hl
      exact hf l (hlive l hl)
  have hbegin : ∀ n (f : State → CallId → State), Speaks s.nextLink s (f s (.api n)) →
      Speaks s.nextLink s (s.begin n f) := by
    intro n f hf
    unfold State.begin
    split
    · exact hf
    · exact .refl _ s
  rw [hsame]
  cases a with
  | publish n req io =>
    exact hbegin n (fun s c => s.publish c req io) (Speaks.publish hlive _ req io)
  | subscribe n req io =>
    exact hbegin n (fun s c => s.subscribe c req io) (Speaks.subscribe hlive _ req io)
  | unsubscribe n filter io =>
    exact hbegin n (fun s c => s.unsubscribe c filter io) (Speaks.unsubscribe hlive _ filter io)
  | wake c io =>
    show Speaks s.nextLink s (s.wake c io)
    unfold State.wake
    split
    · rename_i l pkt hc
      obtain ⟨req, -, hsound, hp⟩ := h.parked c l pkt hc
      refine (Speaks.refl _ s).publishAcked (hw.parked c l pkt hc).1 ?_ c io
      rw [hp]
      exact ⟨rfl, hsound.topic⟩
    · exact .refl _ s
  | giveUp c timeout => exact (Speaks.refl _ s).giveUp c timeout
  | collect c => exact (Speaks.refl _ s).collect c
  | frame f torn io =>
    refine hloop (fun s l => (s.log (.received l f)).handleFrame l f torn io) fun l hl => ?_
    exact ((Speaks.refl _ s).log (by simp)).handleFrame hl f torn io
  | readError =>
    exact hloop (fun s l => s.teardownLink l (s.links l).graceful) fun l hl =>
      (Speaks.refl _ s).teardownLink l _
  | tick io => exact hloop (fun s l => s.tick l io) fun l hl => (Speaks.refl _ s).tick hl io
  | connect hs n => exact absurd rfl hconnect
  | disconnect io => exact Speaks.disconnect hlive io

end step

end GoMqtt.Client
