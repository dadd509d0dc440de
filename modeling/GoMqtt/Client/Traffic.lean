import GoMqtt.Client.Limits
import GoMqtt.Client.Replay

/-! # What a step puts on the wire

An outbound exchange is on the wire as a PUBLISH and, at QoS 2, as a PUBREL after
it. This is what a step does to the stored exchanges together with the legs it
writes: most steps do nothing to either (`Quiet`), a Publish with a permit stores
and writes one PUBLISH under a free identifier (`Sends`), the acknowledgements take
an exchange away or move it on, and a connect writes one leg for each exchange it
has kept. -/
namespace GoMqtt.Client
open GoMqtt.Protocol GoMqtt.Session
open scoped List

/-- The leg of an outbound exchange that a packet is. -/
def leg : Packet → Option (UInt16 × StoredKind)
  | .publish p => if p.qos = 0 then none else some (p.packetID, .publish)
  | .ack a => if a.type = .pubrel then some (a.packetID, .pubrel) else none
  | _ => none

/-- A leg goes out, or a Publish is told that it was sent. -/
def Event.bears : Event → Bool
  | .wrote _ p => (leg p).isSome
  | .sent .. => true
  | _ => false

/-- The packets that were written on `l`, in order. -/
def sentOn (l : LinkId) (es : List Event) : List Packet := es.filterMap fun
  | .wrote l' p => if l' = l then some p else none
  | _ => none

/-- The legs among them. -/
def legsOn (l : LinkId) (es : List Event) : List Packet :=
  (sentOn l es).filter fun p => (leg p).isSome

theorem sentOn_append (l : LinkId) (es es' : List Event) :
    sentOn l (es ++ es') = sentOn l es ++ sentOn l es' := List.filterMap_append

theorem mem_sentOn {l : LinkId} {es : List Event} {p : Packet} :
    p ∈ sentOn l es ↔ .wrote l p ∈ es := by
  unfold sentOn
  rw [List.mem_filterMap]
  constructor
  · intro h
    obtain ⟨e, he, h⟩ := h
    cases e with
    | wrote l' q =>
      dsimp only at h
      split at h
      · rename_i hl
        cases h
        exact hl ▸ he
      · cases h
    | _ => cases h
  · intro h
    exact ⟨_, h, if_pos rfl⟩

theorem legsOn_append (l : LinkId) (es es' : List Event) :
    legsOn l (es ++ es') = legsOn l es ++ legsOn l es' := by
  rw [legsOn, sentOn_append, List.filter_append]
  rfl

theorem legsOn_eq_nil {l : LinkId} {es : List Event} (h : ∀ e ∈ es, e.bears = false) :
    legsOn l es = [] := by
  refine List.filter_eq_nil_iff.mpr fun p hp => ?_
  have hbears := h _ (mem_sentOn.mp hp)
  simpa [Event.bears] using hbears

/-- No leg goes out on another link. -/
def OnlyOn (l : LinkId) (es : List Event) : Prop := ∀ l', l' ≠ l → legsOn l' es = []

theorem OnlyOn.of_quiet {l : LinkId} {es : List Event} (h : ∀ e ∈ es, e.bears = false) :
    OnlyOn l es := fun _ _ => legsOn_eq_nil h

theorem OnlyOn.append {l : LinkId} {es es' : List Event} (h : OnlyOn l es) (h' : OnlyOn l es') :
    OnlyOn l (es ++ es') := by
  intro l' hne
  rw [legsOn_append, h l' hne, h' l' hne]
  rfl

theorem OnlyOn.wrote (l : LinkId) (p : Packet) : OnlyOn l [.wrote l p] := by
  intro l' hne
  simp [legsOn, sentOn, Ne.symm hne]

/-- No exchange changes, no leg goes out, and no Publish is parked. -/
structure Quiet (s t : State) : Prop where
  out : outbound t.store = outbound s.store
  wire : ∃ es, t.hist = s.hist ++ es ∧ ∀ e ∈ es, e.bears = false
  parks : ∀ c l pkt, t.calls c = .parked l pkt → s.calls c = .parked l pkt

namespace Quiet

variable {s t u : State}

theorem refl (s : State) : Quiet s s := ⟨rfl, ⟨[], by simp, by simp⟩, fun _ _ _ h => h⟩

theorem trans (h : Quiet s t) (h' : Quiet t u) : Quiet s u := by
  obtain ⟨es, he, hes⟩ := h.wire
  obtain ⟨es', he', hes'⟩ := h'.wire
  refine ⟨h'.out.trans h.out, ⟨es ++ es', by rw [he', he, List.append_assoc], fun e hm => ?_⟩,
    fun c l pkt hc => h.parks c l pkt (h'.parks c l pkt hc)⟩
  rcases List.mem_append.mp hm with hm | hm
  · exact hes e hm
  · exact hes' e hm

/-- Only the store, the history and the calls are looked at. -/
theorem congr (h : Quiet s t) (hstore : u.store = t.store) (hhist : u.hist = t.hist)
    (hcalls : u.calls = t.calls) : Quiet s u :=
  ⟨hstore ▸ h.out, hhist ▸ h.wire, hcalls ▸ h.parks⟩

theorem log (h : Quiet s t) {e : Event} (he : e.bears = false) : Quiet s (t.log e) :=
  h.trans ⟨rfl, ⟨[e], rfl, by simpa using he⟩, fun _ _ _ hc => hc⟩

theorem setCall (h : Quiet s t) (c : CallId) {k : Call}
    (hk : ∀ l pkt, k = .parked l pkt → s.calls c = .parked l pkt) : Quiet s (t.setCall c k) := by
  refine ⟨h.out, h.wire, fun c' l pkt hc => ?_⟩
  by_cases hcc : c' = c
  · subst hcc
    exact hk l pkt (by simpa [State.setCall] using hc)
  · exact h.parks c' l pkt (by simpa [State.setCall, hcc] using hc)

theorem finish (h : Quiet s t) (c : CallId) (r : Return) : Quiet s (t.finish c r) :=
  (h.setCall c (by simp)).log rfl

theorem removeWaiter (h : Quiet s t) (id : UInt16) (c : CallId) : Quiet s (t.removeWaiter id c) := by
  unfold State.removeWaiter
  split
  · split <;> exact h.congr rfl rfl rfl
  · exact h

theorem signalWaiter (h : Quiet s t) (id : UInt16) (got : AckClass) (res : AckResult) :
    Quiet s (t.signalWaiter id got res) := by
  unfold State.signalWaiter
  split
  · split <;> exact h.congr rfl rfl rfl
  · exact h

theorem teardownLink (h : Quiet s t) (l : LinkId) (g : Bool) : Quiet s (t.teardownLink l g) := by
  have hdown : Quiet s ((t.setLink l fun k => { k with stop := true }).log (.tornDown l)) := by
    refine Quiet.log ?_ rfl
    exact h.congr rfl rfl rfl
  unfold State.teardownLink
  split
  · exact h
  · dsimp only
    split
    · exact hdown
    · split <;> exact hdown.congr rfl rfl rfl

/-- A packet that is no leg, or a write that does not go through. -/
theorem writeFrame (h : Quiet s t) (l : LinkId) {p : Packet} (hp : leg p = none) (io : Bool) :
    Quiet s (t.writeFrame l p io).2 := by
  rcases writeFrame_cases t l p io with ⟨e, hr⟩ | hr | ⟨hr, -⟩ <;> rw [hr]
  · exact h
  · exact h.teardownLink l _
  · exact h.log (by simp [Event.bears, hp])

/-! ## Requests, and the ends of calls -/

theorem requestAborted (h : Quiet s t) (c : CallId) (id : UInt16) (gen : Nat) :
    Quiet s (t.requestAborted c id gen) := (h.removeWaiter id c).congr rfl rfl rfl

theorem failRequest (h : Quiet s t) (c : CallId) (r : Request) (err : ClientError) :
    Quiet s (t.failRequest c r err) := by
  cases r with
  | subscribe filter prev token =>
    refine Quiet.finish ?_ c _
    exact h.congr rfl rfl rfl
  | unsubscribe filter snap => exact h.finish c _

theorem completeRequest (h : Quiet s t) (c : CallId) (r : Request) (code : ReasonCode) :
    Quiet s (t.completeRequest c r code) := by
  match r with
  | .subscribe _ _ _ => exact h.finish c _
  | .unsubscribe _ none => exact h.finish c _
  | .unsubscribe _ (some _) =>
    refine Quiet.finish ?_ c _
    exact h.congr rfl rfl rfl

theorem requestAck (h : Quiet s t) (c : CallId) (l : LinkId) (r : Request) (want : AckClass)
    {mk : UInt16 → Packet} (hmk : ∀ id, leg (mk id) = none) (io : Bool) :
    Quiet s (t.requestAck c l r want mk io) := by
  unfold State.requestAck
  split
  · refine Quiet.failRequest ?_ c r _
    exact h.congr rfl rfl rfl
  · rename_i id gen ids hid
    have hheld : Quiet s ({ t with ids }.registerWaiter id c want) := h.congr rfl rfl rfl
    have hwrite := hheld.writeFrame l (hmk id) io
    dsimp only
    split <;> rename_i hr <;> rw [hr] at hwrite
    · exact (hwrite.requestAborted c id gen).failRequest c r _
    · exact hwrite.setCall c (by simp)

theorem subscribe (h : Quiet s t) (c : CallId) (req : SubscribeRequest) (io : Bool) :
    Quiet s (t.subscribe c req io) := by
  unfold State.subscribe
  split
  · exact h.finish c _
  · refine Quiet.requestAck (Quiet.log ?_ rfl) c _ _ _ (fun _ => rfl) io
    exact h.congr rfl rfl rfl

theorem unsubscribe (h : Quiet s t) (c : CallId) (filter : Bytes) (io : Bool) :
    Quiet s (t.unsubscribe c filter io) := by
  unfold State.unsubscribe
  split
  · exact h.finish c _
  · exact h.finish c _
  · exact h.requestAck c _ _ _ (fun _ => rfl) io

theorem giveUp (h : Quiet s t) (c : CallId) (timeout : Bool) : Quiet s (t.giveUp c timeout) := by
  unfold State.giveUp
  dsimp only
  split
  · split
    · exact h
    · exact h.finish c _
  · exact (h.removeWaiter _ c).finish c _
  · exact (h.requestAborted c _ _).failRequest c _ _
  · split
    · exact (h.requestAborted c _ _).setCall c (by simp)
    · exact h
  · exact h

theorem collect (h : Quiet s t) (c : CallId) : Quiet s (t.collect c) := by
  unfold State.collect
  split
  · exact h
  · split
    · exact h.finish c _
    · rename_i r id gen _
      have hfree : Quiet s { t with ids := t.ids.releaseAt id gen } := h.congr rfl rfl rfl
      dsimp only
      split
      · exact hfree.failRequest c r _
      · exact hfree.completeRequest c r _
    · refine Quiet.setCall ?_ c (by simp)
      exact h.congr rfl rfl rfl
    · exact h

/-! ## The loops of a link -/

theorem setLink (h : Quiet s t) (l : LinkId) (f : Link → Link) : Quiet s (t.setLink l f) :=
  h.congr rfl rfl rfl

theorem tick (h : Quiet s t) (l : LinkId) (io : Bool) : Quiet s (t.tick l io) := by
  unfold State.tick
  split
  · exact h.teardownLink l _
  · have hwrite := (h.setLink l fun k => { k with outstandingPings := k.outstandingPings + 1 }).writeFrame
      l (p := .pingreq) rfl io
    dsimp only
    split <;> rename_i hr <;> rw [hr] at hwrite
    · exact hwrite.teardownLink l _
    · exact hwrite

theorem disconnect (h : Quiet s t) (io : Bool) : Quiet s (t.disconnect io) := by
  unfold State.disconnect
  split
  · exact h
  · exact ((h.setLink _ _).writeFrame _ rfl io).teardownLink _ true

theorem protocolError (h : Quiet s t) (l : LinkId) (reason : ReasonCode) (io : Bool) :
    Quiet s (t.protocolError l reason io) := by
  unfold State.protocolError
  dsimp only
  split
  · exact (h.writeFrame l rfl io).teardownLink l _
  · exact h.teardownLink l _

theorem dispatch (h : Quiet s t) (l : LinkId) (p : PublishPacket) (torn : Bool) :
    Quiet s (t.dispatch l p torn) := by
  have hlog : Quiet s (t.log (.dispatched l p (State.handlersFor t.subs.subs p) torn)) := h.log rfl
  unfold State.dispatch
  dsimp only
  split
  · exact hlog.teardownLink l _
  · exact hlog

theorem resolveTopicAlias (h : Quiet s t) (l : LinkId) (p : PublishPacket) :
    Quiet s (t.resolveTopicAlias l p).2 := by
  rcases resolveTopicAlias_cases t l p with hr | ⟨f, -, -, hr⟩ <;> rw [hr]
  · exact h
  · exact h.setLink l f

/-- An acknowledgement other than a PUBREL. -/
theorem sendAckReason (h : Quiet s t) (l : LinkId) {ty : PacketType} (hty : ty ≠ .pubrel)
    (id : UInt16) (reason : ReasonCode) (io : Bool) :
    Quiet s (t.sendAckReason l ty id reason io) :=
  h.writeFrame l (by simp [leg, hty]) io

theorem handleInboundQoS2 (h : Quiet s t) (l : LinkId) (p : PublishPacket) (torn io : Bool) :
    Quiet s (t.handleInboundQoS2 l p torn io) := by
  unfold State.handleInboundQoS2
  split
  · exact h.sendAckReason l (by decide) _ _ io
  · rename_i hnew
    have hd := h.dispatch l p torn
    dsimp only
    split
    · exact hd
    · have hstore : (t.dispatch l p torn).store = t.store := by
        unfold State.dispatch
        dsimp only
        split
        · exact (Keeps.teardownLink _ l _).store
        · rfl
      have hrecord : Quiet s { t.dispatch l p torn with
          store := (t.dispatch l p torn).store.save { id := p.packetID, kind := .inboundID } } := by
        refine ⟨(outbound_record ?_).trans hd.out, hd.wire, hd.parks⟩
        rw [hstore]
        exact Bool.not_eq_true _ ▸ hnew
      refine Quiet.sendAckReason (hrecord.log ?_) l ?_ _ _ io
      · rfl
      · decide

theorem handlePublish (h : Quiet s t) (l : LinkId) (p : PublishPacket) (torn io : Bool) :
    Quiet s (t.handlePublish l p torn io) := by
  have hres := h.resolveTopicAlias l p
  unfold State.handlePublish
  split <;> rename_i hr <;> rw [hr] at hres
  · exact hres.protocolError l _ io
  · dsimp only
    split
    · exact hres.dispatch l _ torn
    · split
      · split
        · exact hres.dispatch l _ torn
        · exact (hres.dispatch l _ torn).sendAckReason l (by decide) _ _ io
      · exact hres.handleInboundQoS2 l _ torn io

theorem handleInboundPubrel (h : Quiet s t) (l : LinkId) (a : InboundAck) (io : Bool) :
    Quiet s (t.handleInboundPubrel l a io) := by
  unfold State.handleInboundPubrel
  split
  · exact h.sendAckReason l (by decide) _ _ io
  · have hreleased : Quiet s { t with store := t.store.delete a.packetID .inboundID } :=
      ⟨(outbound_delete _ _ _).trans ((without_inboundID _ _).trans h.out), h.wire, h.parks⟩
    refine hreleased.sendAckReason l ?_ _ _ io
    decide

end Quiet

/-- A frame that is no acknowledgement of an outbound exchange. -/
def Frame.unrelated : Frame → Bool
  | .puback _ | .pubrec _ | .pubcomp _ => false
  | _ => true

theorem Quiet.handleFrame {s t : State} (h : Quiet s t) (l : LinkId) {f : Frame}
    (hf : f.unrelated = true) (torn io : Bool) : Quiet s (t.handleFrame l f torn io) := by
  cases f with
  | publish p => exact h.handlePublish l p.pkt torn io
  | puback a => cases hf
  | pubrec a => cases hf
  | pubrel a => exact h.handleInboundPubrel l a io
  | pubcomp a => cases hf
  | suback p => exact h.signalWaiter _ _ _
  | unsuback p => exact h.signalWaiter _ _ _
  | pingresp => exact h.setLink l fun k => { k with outstandingPings := 0 }
  | disconnect => exact h.teardownLink l _
  | unexpected ty => exact h.protocolError l _ io
  | malformed => exact h.protocolError l _ io

/-! ## A Publish goes out -/

/-- `p` is stored and goes out on the live link, under an identifier that was free. -/
structure Sends (c : CallId) (l : LinkId) (p : PublishPacket) (s t : State) : Prop where
  live : s.link = some l
  link : t.link = some l
  free : s.ids.inUse p.packetID = false
  qos : p.qos ≠ 0
  fits : (s.links l).fits (.publish p)
  out : outbound t.store = outbound s.store ++ [storedPublish p]
  wire : ∃ es, t.hist = s.hist ++ (es ++ [.wrote l (.publish p), .sent c l p]) ∧
    ∀ e ∈ es, e.bears = false
  parks : ∀ c' l' pkt, t.calls c' = .parked l' pkt → s.calls c' = .parked l' pkt

/-- What goes before is quiet and leaves the identifiers and the links alone. -/
theorem Sends.after {c : CallId} {l : LinkId} {p : PublishPacket} {s s₁ t : State}
    (h : Sends c l p s₁ t) (hquiet : Quiet s s₁) (hids : s₁.ids = s.ids) (hlink : s₁.link = s.link)
    (hlinks : s₁.links = s.links) : Sends c l p s t := by
  obtain ⟨es, he, hes⟩ := hquiet.wire
  obtain ⟨es', he', hes'⟩ := h.wire
  refine ⟨hlink ▸ h.live, h.link, hids ▸ h.free, h.qos, hlinks ▸ h.fits, hquiet.out ▸ h.out,
    ⟨es ++ es', ?_, ?_⟩, fun c' l' pkt hc => hquiet.parks c' l' pkt (h.parks c' l' pkt hc)⟩
  · rw [he', he]
    simp
  · intro e hm
    rcases List.mem_append.mp hm with hm | hm
    · exact hes e hm
    · exact hes' e hm

section publish

variable {s : State} {c : CallId} {l : LinkId} {pkt : PublishPacket}

/-- What `unsend` takes back is all that was saved. -/
theorem unsend_quiet {t : State} {ids : IdAllocator} {m : StoredMessage} {quotaGen idGen : Nat}
    {err : ClientError} (hkind : m.kind = .publish) (habs : s.store.contains m.id .publish = false)
    (hgen : s.quota.gen = quotaGen)
    (hk : Keeps { s with ids, store := s.store.save m } t)
    (hwire : ∃ es, t.hist = s.hist ++ es ∧ ∀ e ∈ es, e.bears = false) :
    Quiet s (t.unsend c m.id quotaGen idGen err) := by
  have hk' := hk.trans (Keeps.removeWaiter t m.id c)
  have hquiet : Quiet t (t.removeWaiter m.id c) := (Quiet.refl t).removeWaiter m.id c
  have hsame : (t.removeWaiter m.id c).quota.generation = quotaGen := by
    rw [Quota.generation, hk'.gen]
    exact hgen
  unfold State.unsend
  dsimp only
  rw [if_pos hsame]
  refine Quiet.finish ⟨?_, ?_, ?_⟩ c _
  · show outbound ((t.removeWaiter m.id c).store.delete m.id .publish) = outbound s.store
    rw [hk'.store, ← hkind]
    exact outbound_save_delete (by rw [hkind]; rfl) (by rw [hkind]; exact habs)
  · obtain ⟨es, he, hes⟩ := hwire
    obtain ⟨es', he', hes'⟩ := hquiet.wire
    refine ⟨es ++ es', ?_, fun e hm => ?_⟩
    · show (t.removeWaiter m.id c).hist = _
      rw [he', he, List.append_assoc]
    · rcases List.mem_append.mp hm with hm | hm
      · exact hes e hm
      · exact hes' e hm
  · intro c' l' pkt' hc
    have hcalls : (t.removeWaiter m.id c).calls = s.calls := hk'.calls
    rw [← hcalls]
    exact hc

/-- With a permit a Publish is sent, or it leaves nothing behind. -/
theorem sendAcked_traffic (quotaGen : Nat) (io : Bool) (hw : Wired none s)
    (hfresh : ∀ id, s.ids.inUse id = false → s.store.contains id .publish = false)
    (hl : l < s.nextLink) (hq : pkt.qos ≠ 0) (hgen : s.quota.gen = quotaGen) :
    Quiet s (s.sendAcked c l pkt quotaGen io) ∨
      ∃ id, Sends c l { pkt with packetID := id } s (s.sendAcked c l pkt quotaGen io) := by
  unfold State.sendAcked
  split
  · refine .inl (Quiet.finish ?_ c _)
    exact (Quiet.refl s).congr rfl rfl rfl
  · rename_i id idGen ids hid
    obtain ⟨-, -, -, hfree, -⟩ := IdAllocator.acquire_some hid
    have habs := hfresh id hfree
    dsimp only
    rcases writeFrame_outcome ({ s with
        ids, store := s.store.save (storedPublish { pkt with packetID := id }) }.registerWaiter id c
          .publish) l (.publish { pkt with packetID := id }) io with
        ⟨-, e, hr⟩ | ⟨-, hr⟩ | ⟨⟨hstop, hfits⟩, hr⟩ <;> rw [hr]
    · left
      exact unsend_quiet (m := storedPublish { pkt with packetID := id }) rfl habs hgen
        ⟨rfl, rfl, rfl, rfl, rfl, rfl, rfl, rfl⟩ ⟨[], by simp [State.registerWaiter], by simp⟩
    · left
      refine unsend_quiet (m := storedPublish { pkt with packetID := id }) rfl habs hgen
        ((Keeps.registerWaiter _ id c .publish).trans (Keeps.teardownLink _ l _)) ?_
      exact ((Quiet.refl _).teardownLink l _).wire
    · right
      have hlive : s.link = some l := by
        by_contra hne
        have hdead := hw.dead l hl hne (by simp)
        rw [show (s.links l).stop = false from hstop] at hdead
        cases hdead
      refine ⟨id, hlive, hlive, hfree, hq, hfits, outbound_save rfl habs, ⟨[], ?_, by simp⟩, ?_⟩
      · simp [State.log, State.setCall, State.registerWaiter]
      · intro c' l' pkt' hc
        by_cases hcc : c' = c
        · subst hcc
          simp [State.setCall, State.log, State.registerWaiter] at hc
        · simpa [State.setCall, State.log, State.registerWaiter, hcc] using hc

/-- `publishAcked` parks, sends, or leaves nothing behind. -/
theorem publishAcked_traffic (io : Bool) (hw : Wired none s) (hi : (view s).Inv)
    (hl : l < s.nextLink) (hq : pkt.qos ≠ 0) :
    s.publishAcked c l pkt io = s.setCall c (.parked l pkt) ∨
      Quiet s (s.publishAcked c l pkt io) ∨
      ∃ id, Sends c l { pkt with packetID := id } s (s.publishAcked c l pkt io) := by
  unfold State.publishAcked
  split
  · exact .inr (.inl ((Quiet.refl s).finish c _))
  · exact .inl rfl
  · rename_i gen quota hacq
    obtain ⟨-, -, hgen, hquota⟩ := Quota.acquire_granted hacq
    have hquiet : Quiet s ({ s with quota }.log (.granted c l)) := by
      refine Quiet.log ?_ rfl
      exact (Quiet.refl s).congr rfl rfl rfl
    have hw' : Wired none { s with quota } :=
      ⟨hw.toLinked.congr rfl rfl rfl (fun _ => ⟨rfl, rfl, rfl⟩) (by simp [hquota]) rfl,
        hw.toWaits.congr rfl fun _ _ h => h⟩
    right
    rcases sendAcked_traffic (c := c) gen io (hw'.log (.granted c l))
        (fun id hid => absent_of_free hi hid rfl) hl hq (by rw [hgen, hquota]; rfl) with h | ⟨id, h⟩
    · exact .inl (hquiet.trans h)
    · exact .inr ⟨id, h.after hquiet rfl rfl rfl⟩

/-- Where the PUBLISH that `c` sends comes from: its request, or where it was parked. -/
def Asked (c : CallId) (l : LinkId) (p : PublishPacket) (s t : State) : Prop :=
  (∃ pkt, s.calls c = .parked l pkt ∧ p = { pkt with packetID := p.packetID }) ∨
  ∃ req, .invoked c req ∈ t.hist ∧ s.publishChecks req = .ok l ∧
    p = { s.publishPacket req with packetID := p.packetID }

theorem publish_traffic (req : PublishRequest) (io : Bool) (hw : Wired none s)
    (hi : (view s).Inv) :
    Quiet s (s.publish c req io) ∨
    (∃ l, s.publishChecks req = .ok l ∧ s.publish c req io =
      (s.log (.invoked c req)).setCall c (.parked l (s.publishPacket req))) ∨
    ∃ l p, Sends c l p s (s.publish c req io) ∧ Asked c l p s (s.publish c req io) := by
  have hlog : Quiet s (s.log (.invoked c req)) := (Quiet.refl s).log rfl
  have hi' : (view (s.log (.invoked c req))).Inv := by
    rw [view_log rfl]
    exact hi.notes (by simp [Session.Neutral])
  unfold State.publish
  dsimp only
  split
  · exact .inl (hlog.finish c _)
  · rename_i l hchecks
    have hl : l < s.nextLink := (hw.live l (State.publishChecks_ok hchecks)).1.1
    split
    · rename_i hzero
      refine .inl ((hlog.writeFrame l ?_ io).finish c _)
      exact if_pos hzero
    · rename_i hq
      rcases publishAcked_traffic (c := c) io (hw.log (.invoked c req))
        hi' hl (show (s.publishPacket req).qos ≠ 0 from hq) with h | h | ⟨id, h⟩
      · exact .inr (.inl ⟨l, hchecks, h⟩)
      · exact .inl (hlog.trans h)
      · obtain ⟨es, hes, -⟩ := h.wire
        refine .inr (.inr ⟨l, _, h.after hlog rfl rfl rfl, .inr ⟨req, ?_, hchecks, rfl⟩⟩)
        exact hes ▸ List.mem_append_left _ (by simp [State.log])

theorem wake_traffic (io : Bool) (hw : Wired none s) (hi : (view s).Inv) :
    Quiet s (s.wake c io) ∨
    ∃ l p, Sends c l p s (s.wake c io) ∧ Asked c l p s (s.wake c io) := by
  unfold State.wake
  split
  · rename_i l pkt hc
    obtain ⟨hl, hq⟩ := hw.parked c l pkt hc
    rcases publishAcked_traffic (c := c) io hw hi hl hq with h | h | ⟨id, h⟩
    · left
      rw [h]
      refine (Quiet.refl s).setCall c fun l' pkt' heq => ?_
      rw [hc, heq]
    · exact .inl h
    · exact .inr ⟨l, _, h, .inl ⟨pkt, hc, rfl⟩⟩
  · exact .inl (.refl s)

/-- A step that handles no frame and connects nothing is quiet, or parks a Publish, or
sends the PUBLISH of one. -/
theorem call_traffic {a : Action} (hw : Wired none s) (hi : (view s).Inv)
    (hconnect : a.connects = false) (hframe : ∀ f torn io, a ≠ .frame f torn io) :
    Quiet s (s.step a) ∨
    (∃ c req l, s.publishChecks req = .ok l ∧ s.step a =
      (s.log (.invoked c req)).setCall c (.parked l (s.publishPacket req))) ∨
    ∃ c l p, Sends c l p s (s.step a) ∧ Asked c l p s (s.step a) := by
  have hrefl : Quiet s s := .refl s
  have hlink : ∀ f : State → LinkId → State, (∀ l, Quiet s (f s l)) → Quiet s (s.onLink f) := by
    intro f h
    unfold State.onLink
    split
    · exact hrefl
    · exact h _
  cases a with
  | publish n req io =>
    unfold State.step State.begin
    dsimp only
    split
    · rcases publish_traffic (c := .api n) req io hw hi with h | ⟨l, h⟩ | ⟨l, p, h⟩
      · exact .inl h
      · exact .inr (.inl ⟨_, req, l, h⟩)
      · exact .inr (.inr ⟨_, l, p, h⟩)
    · exact .inl hrefl
  | subscribe n req io =>
    unfold State.step State.begin
    dsimp only
    split
    · exact .inl (hrefl.subscribe _ req io)
    · exact .inl hrefl
  | unsubscribe n filter io =>
    unfold State.step State.begin
    dsimp only
    split
    · exact .inl (hrefl.unsubscribe _ filter io)
    · exact .inl hrefl
  | wake c io =>
    rcases wake_traffic (c := c) io hw hi with h | ⟨l, p, h⟩
    · exact .inl h
    · exact .inr (.inr ⟨c, l, p, h⟩)
  | giveUp c timeout => exact .inl (hrefl.giveUp c timeout)
  | collect c => exact .inl (hrefl.collect c)
  | frame f torn io => exact absurd rfl (hframe f torn io)
  | readError =>
    exact .inl (hlink (fun s l => s.teardownLink l (s.links l).graceful) fun l =>
      hrefl.teardownLink l _)
  | tick io => exact .inl (hlink (fun s l => s.tick l io) fun l => hrefl.tick l io)
  | connect h n => cases hconnect
  | disconnect io => exact .inl (hrefl.disconnect io)

end publish

/-! ## The broker acknowledges -/

section frames

variable {s : State} {l : LinkId}

/-- The exchange goes, and no leg is written. -/
structure Ends (id : UInt16) (kind : StoredKind) (s t : State) : Prop where
  out : outbound t.store = Session.without (outbound s.store) id kind
  wire : ∃ es, t.hist = s.hist ++ es ∧ ∀ e ∈ es, e.bears = false
  parks : ∀ c l pkt, t.calls c = .parked l pkt → s.calls c = .parked l pkt

theorem completeOutbound_traffic {id : UInt16} {kind : StoredKind} (f : Frame) (res : AckResult)
    (hc : s.store.contains id kind = true) :
    Ends id kind s ((s.log (.received l f)).completeOutbound l id kind res) := by
  unfold State.completeOutbound
  rw [if_pos (show (s.log (.received l f)).store.contains id kind = true from hc)]
  have hsignal := (Quiet.refl { s.log (.received l f) with
    store := s.store.delete id kind
    ids := s.ids.releaseAt id (s.links l).idGen
    quota := s.quota.releaseAt (s.links l).quotaGen }).signalWaiter id .publish res
  obtain ⟨es, he, hes⟩ := hsignal.wire
  refine ⟨hsignal.out.trans (outbound_delete _ _ _), ⟨.received l f :: es, ?_, ?_⟩, hsignal.parks⟩
  · refine he.trans ?_
    simp [State.log]
  · intro e hm
    rcases List.mem_cons.mp hm with rfl | hm
    · rfl
    · exact hes e hm

/-- The PUBREL the client answers a PUBREC with. -/
def pubrel (s : State) (id : UInt16) : Packet :=
  .ack ⟨s.cfg.protocolVersion, .pubrel, id, .success, none⟩

/-- The PUBLISH is superseded by its PUBREL leg. On a link that stays up the PUBREL is
written if it fits. -/
structure Promotes (l : LinkId) (id : UInt16) (s t : State) : Prop where
  out : outbound t.store =
    Session.without (outbound s.store) id .publish ++ [{ id, kind := .pubrel }]
  wire : ∃ es, t.hist = s.hist ++ es ∧ (∀ c l' p, .sent c l' p ∉ es) ∧ OnlyOn l es ∧
    (t.link = some l → legsOn l es = [pubrel s id] ∨
      legsOn l es = [] ∧ ¬ (s.links l).fits (pubrel s id))
  parks : ∀ c l pkt, t.calls c = .parked l pkt → s.calls c = .parked l pkt

theorem link_teardownLink (s : State) (l : LinkId) (g : Bool) (hstop : (s.links l).stop = false) :
    (s.teardownLink l g).link ≠ some l := by
  unfold State.teardownLink
  rw [if_neg (by simp [hstop])]
  dsimp only
  split
  · assumption
  · split <;> simp

/-- The write of the PUBREL, from the state in which the entry has moved on. -/
theorem pubrel_traffic {k : State} {id : UInt16} {e : Event} (io : Bool) (he : e.bears = false)
    (hstop : (s.links l).stop = false)
    (hout : outbound k.store =
      Session.without (outbound s.store) id .publish ++ [{ id, kind := .pubrel }])
    (hhist : k.hist = s.hist ++ [e]) (hcalls : k.calls = s.calls) (hlinks : k.links = s.links) :
    Promotes l id s (k.writeFrame l (pubrel s id) io).2 := by
  have hkeeps := Keeps.writeFrame k l (pubrel s id) io
  refine ⟨by rw [hkeeps.store, hout], ?_, by rw [hkeeps.calls, hcalls]; exact fun _ _ _ h => h⟩
  have hsent : ∀ e : Event, e.bears = false → ∀ c l' p, e ≠ .sent c l' p := by
    intro e he c l' p heq
    rw [heq] at he
    cases he
  rcases writeFrame_outcome k l (pubrel s id) io with ⟨hno, err, hr⟩ | ⟨-, hr⟩ | ⟨-, hr⟩ <;> rw [hr]
  · refine ⟨[e], hhist, ?_, .of_quiet (by simpa using he),
      fun _ => .inr ⟨legsOn_eq_nil (by simpa using he), hlinks ▸ hno⟩⟩
    intro c l' p hm
    exact hsent e he c l' p (List.mem_singleton.mp hm).symm
  · obtain ⟨es, hes, hquiet⟩ := ((Quiet.refl k).teardownLink l (k.links l).graceful).wire
    refine ⟨e :: es, by rw [hes, hhist]; simp, ?_, .of_quiet ?_, fun hlive => ?_⟩
    · intro c l' p hm
      rcases List.mem_cons.mp hm with hm | hm
      · exact hsent e he c l' p hm.symm
      · exact hsent _ (hquiet _ hm) c l' p rfl
    · intro e' hm
      rcases List.mem_cons.mp hm with rfl | hm
      · exact he
      · exact hquiet e' hm
    · exact absurd hlive (link_teardownLink k l _ (by rw [hlinks]; exact hstop))
  · refine ⟨[e] ++ [.wrote l (pubrel s id)], by simp [State.log, hhist], ?_,
      (OnlyOn.of_quiet (by simpa using he)).append (.wrote l _), fun _ => .inl ?_⟩
    · intro c l' p hm
      simp only [List.cons_append, List.nil_append, List.mem_cons, reduceCtorEq, List.not_mem_nil,
        or_false] at hm
      exact hsent e he c l' p hm.symm
    · have hfirst : legsOn l [e] = [] := legsOn_eq_nil (by simpa using he)
      rw [legsOn_append, hfirst]
      simp [legsOn, sentOn, leg, pubrel]

/-- A PUBREC with an error ends the exchange as a PUBACK does. -/
theorem handlePubrec_error {a : InboundAck} (e : Event) (reason : Bytes) (io : Bool)
    (hc : s.store.contains a.packetID .publish = true) (herr : a.reasonCode.isError = true) :
    (s.log e).handlePubrec l a reason io =
      (s.log e).completeOutbound l a.packetID .publish { code := a.reasonCode, reason } := by
  have hc' : (s.log e).store.contains a.packetID .publish = true := hc
  unfold State.handlePubrec State.completeOutbound
  dsimp only
  rw [if_pos hc', if_pos herr, if_pos hc']

theorem handlePubrec_traffic {a : InboundAck} (reason : Bytes) (io : Bool) (hi : (view s).Inv)
    (hstop : (s.links l).stop = false) (hc : s.store.contains a.packetID .publish = true)
    (hok : a.reasonCode.isError = false) :
    Promotes l a.packetID s
      ((s.log (.received l (.pubrec a))).handlePubrec l a reason io) := by
  unfold State.handlePubrec State.sendAck State.sendAckReason
  dsimp only
  rw [if_pos (show ((s.log (.received l (.pubrec a))).store.contains a.packetID .publish) = true
    from hc), if_neg (by simp [hok])]
  refine pubrel_traffic (e := .received l (.pubrec a)) io rfl hstop ?_ rfl rfl rfl
  exact congrArg Session.out (view_promote hi hc)

end frames

/-! ## A connect replays -/

section replay

variable {s t u : State} {l : LinkId}

/-- Of the legs `ps` some went out on `l` in this order, and nothing else; on a link
that is still up all of them, if all of them fit. -/
structure Resends (l : LinkId) (ps : List Packet) (s t : State) : Prop where
  out : outbound t.store = outbound s.store
  limit : (t.links l).outboundMax = (s.links l).outboundMax
  up : (t.links l).stop = false → (s.links l).stop = false
  wire : ∃ es, t.hist = s.hist ++ es ∧ OnlyOn l es ∧ legsOn l es <+ ps ∧
    ((t.links l).stop = false → (∀ p ∈ ps, (s.links l).fits p) → legsOn l es = ps)
  parks : ∀ c l pkt, t.calls c = .parked l pkt → s.calls c = .parked l pkt

theorem Resends.trans {ps qs : List Packet} (h : Resends l ps s t) (h' : Resends l qs t u) :
    Resends l (ps ++ qs) s u := by
  obtain ⟨es, he, honly, hsub, hall⟩ := h.wire
  obtain ⟨es', he', honly', hsub', hall'⟩ := h'.wire
  refine ⟨h'.out.trans h.out, h'.limit.trans h.limit, fun hu => h.up (h'.up hu),
    ⟨es ++ es', by rw [he', he, List.append_assoc], honly.append honly', ?_, fun hu hfits => ?_⟩,
    fun c l pkt hc => h.parks c l pkt (h'.parks c l pkt hc)⟩
  · rw [legsOn_append]
    exact hsub.append hsub'
  · rw [legsOn_append, hall (h'.up hu) fun p hp => hfits p (List.mem_append_left _ hp),
      hall' hu fun p hp => (fits_congr h.limit p).mpr (hfits p (List.mem_append_right _ hp))]

/-- What is quiet resends nothing. -/
theorem Resends.of_quiet (h : Quiet s t)
    (hlimit : (t.links l).outboundMax = (s.links l).outboundMax)
    (hup : (t.links l).stop = false → (s.links l).stop = false) : Resends l [] s t := by
  obtain ⟨es, he, hes⟩ := h.wire
  have hnone : legsOn l es = [] := legsOn_eq_nil hes
  exact ⟨h.out, hlimit, hup, ⟨es, he, .of_quiet hes, by rw [hnone], fun _ _ => hnone⟩, h.parks⟩

theorem replayWrite_resends (s : State) (l : LinkId) {p : Packet} (hp : (leg p).isSome)
    (io : Bool) : Resends l [p] s (s.replayWrite l p io) := by
  have hquiet : ∀ t, Quiet s t → Quiet s (t.log (.replayFailed l)) := fun t h => h.log rfl
  obtain ⟨hlimit, hup, -⟩ := replayWrite_tried s l p io
  unfold State.replayWrite at hlimit hup ⊢
  rcases writeFrame_outcome s l p io with ⟨hno, e, hr⟩ | ⟨-, hr⟩ | ⟨-, hr⟩ <;>
    rw [hr] at hlimit hup ⊢
  · have hq := hquiet s (.refl s)
    obtain ⟨es, he, hes⟩ := hq.wire
    have hnone : legsOn l es = [] := legsOn_eq_nil hes
    exact ⟨hq.out, hlimit, hup, ⟨es, he, .of_quiet hes, by rw [hnone]; simp, fun _ hfits =>
      absurd (hfits p (by simp)) hno⟩, hq.parks⟩
  · have hq := hquiet _ ((Quiet.refl s).teardownLink l (s.links l).graceful)
    obtain ⟨es, he, hes⟩ := hq.wire
    have hnone : legsOn l es = [] := legsOn_eq_nil hes
    refine ⟨hq.out, hlimit, hup, ⟨es, he, .of_quiet hes, by rw [hnone]; simp, fun hlive => ?_⟩,
      hq.parks⟩
    have hstop := stop_teardownLink s l (s.links l).graceful
    rw [show ((s.teardownLink l (s.links l).graceful).links l).stop = false from hlive] at hstop
    cases hstop
  · have hone : legsOn l [.wrote l p] = [p] := by simp [legsOn, sentOn, hp]
    exact ⟨rfl, hlimit, hup, ⟨[.wrote l p], rfl, .wrote l p, by rw [hone], fun _ _ => hone⟩,
      fun _ _ _ h => h⟩

theorem replayEntries_resends (l : LinkId) (ms : List StoredMessage) (n : Nat) (s : State)
    (hms : ∀ m ∈ ms, ∀ p, State.replayPacket s.cfg.protocolVersion m = some p → (leg p).isSome) :
    Resends l (ms.filterMap (State.replayPacket s.cfg.protocolVersion)) s
      (State.replayEntries l ms n s).2 := by
  induction ms generalizing n s with
  | nil => exact .of_quiet (.refl s) rfl id
  | cons m rest ih =>
    have hrest := fun m' hm' => hms m' (List.mem_cons_of_mem _ hm')
    unfold State.replayEntries
    split
    · rename_i hp
      rw [List.filterMap_cons_none hp]
      exact ih n s hrest
    · rename_i p hp
      have hcfg := cfg_replayWrite s l p (0 < n)
      have hwrite := replayWrite_resends s l (hms m List.mem_cons_self p hp) (0 < n)
      have hnext := ih (n - 1) (s.replayWrite l p (0 < n)) (by rw [hcfg]; exact hrest)
      rw [hcfg] at hnext
      rw [List.filterMap_cons_some hp]
      exact hwrite.trans hnext

theorem Quiet.resubscribe (h : Quiet s t) (l : LinkId) (k : Nat) (sub : Subscription) (io : Bool) :
    Quiet s (t.resubscribe l k sub io) := by
  unfold State.resubscribe
  split
  · refine Quiet.log ?_ rfl
    exact h.congr rfl rfl rfl
  · rename_i id gen ids hid
    have hheld : Quiet s ({ t with ids }.registerWaiter id (.resubscribe l k) .suback) :=
      h.congr rfl rfl rfl
    have hwrite := hheld.writeFrame l (p := .subscribe (State.subscribePacket
      t.cfg.protocolVersion sub.filter sub.options sub.subID id)) rfl io
    dsimp only
    split <;> rename_i hr <;> rw [hr] at hwrite
    · exact (hwrite.requestAborted _ id gen).log rfl
    · exact hwrite.setCall _ (by simp)

theorem Quiet.resubscribeAll (h : Quiet s t) (l : LinkId) (subs : List Subscription) (k n : Nat) :
    Quiet s (State.resubscribeAll l subs k n t) := by
  induction subs generalizing k n t with
  | nil => exact h
  | cons sub rest ih => exact ih (h.resubscribe l k sub _) (k + 1) (n - 1)

/-- Every stored PUBLISH is there and was sent above QoS 0. -/
def Sendable (out : List StoredMessage) : Prop :=
  ∀ m ∈ out, m.kind = .publish → ∃ p, m.publish = some p ∧ p.qos ≠ 0

theorem Sendable.leg {out : List StoredMessage} (h : Sendable out) {v : Version}
    {m : StoredMessage} (hm : m ∈ out) {p : Packet} (hp : State.replayPacket v m = some p) :
    (leg p).isSome := by
  unfold State.replayPacket at hp
  split at hp
  · rename_i hkind
    obtain ⟨q, hq, hqos⟩ := h m hm hkind
    rw [hq] at hp
    cases hp
    simp [Client.leg, hqos]
  · cases hp
    simp [Client.leg]
  · cases hp

/-- The exchanges are kept or discarded, and what is kept is sent again on the new
link, which then is the live one or down. -/
structure Reconnects (result : ConnectResult) (s t : State) : Prop where
  down : s.link = none
  link : t.link = none ∨ t.link = some s.nextLink
  next : t.nextLink = s.nextLink + 1
  limit : (t.links s.nextLink).outboundMax = result.maximumPacketSize
  out : outbound t.store = if discards s.cfg result then [] else outbound s.store
  wire : ∃ es, t.hist = s.hist ++ es ∧ (∀ e ∈ es, e.origin ≠ .call) ∧ OnlyOn s.nextLink es ∧
    legsOn s.nextLink es <+
      (outbound t.store).filterMap (State.replayPacket s.cfg.protocolVersion) ∧
    (t.link = some s.nextLink →
      (∀ m ∈ outbound t.store, ∀ p, State.replayPacket s.cfg.protocolVersion m = some p →
        FitsSize result p) →
      legsOn s.nextLink es =
        (outbound t.store).filterMap (State.replayPacket s.cfg.protocolVersion))
  parks : ∀ c l pkt, t.calls c = .parked l pkt → s.calls c = .parked l pkt

theorem outbound_opened (s : State) (result : ConnectResult) :
    outbound (opened s result).store = if discards s.cfg result then [] else outbound s.store := by
  unfold opened State.applySession
  dsimp only
  split
  · simp [outbound, State.setLink, State.log]
  · rfl

theorem replayed_resends (result : ConnectResult) (n : Nat) (hout : Sendable (outbound s.store)) :
    Resends s.nextLink ((outbound (opened s result).store).filterMap
      (State.replayPacket s.cfg.protocolVersion)) (opened s result) (replayed s result n) := by
  have hkept : Sendable (outbound (opened s result).store) := by
    rw [outbound_opened]
    split
    · intro m hm
      cases hm
    · exact hout
  have hlegs : ∀ m ∈ (opened s result).store.all, ∀ p,
      State.replayPacket (opened s result).cfg.protocolVersion m = some p → (leg p).isSome := by
    intro m hm p hp
    have hkind : m.kind.outbound = true := by
      cases hk : m.kind <;> simp [State.replayPacket, hk] at hp <;> rfl
    refine hkept.leg (List.mem_map_of_mem (List.mem_filter.mpr ⟨hm, hkind⟩)) (p := p)
      (v := (opened s result).cfg.protocolVersion) ?_
    rw [← hp]
    cases hk : m.kind <;> simp [State.replayPacket, hk]
  have hent := replayEntries_resends s.nextLink (opened s result).store.all n (opened s result) hlegs
  rw [cfg_opened, replayPackets_eq] at hent
  have htried := resubscribeAll_tried s.nextLink
    ((opened s result).replaySession s.nextLink n).2.subs.subs 0
    ((opened s result).replaySession s.nextLink n).1
    ((opened s result).replaySession s.nextLink n).2
  have hsub : Resends s.nextLink [] ((opened s result).replaySession s.nextLink n).2
      (replayed s result n) :=
    .of_quiet ((Quiet.refl _).resubscribeAll s.nextLink _ 0 _) htried.1 htried.2.1
  have hall := Resends.trans (show Resends s.nextLink _ (opened s result)
    ((opened s result).replaySession s.nextLink n).2 from hent) hsub
  rwa [List.append_nil] at hall

/-- A connect that is refused changes nothing. -/
theorem connect_traffic (h : State.Handshake) (n : Nat) (hout : Sendable (outbound s.store)) :
    s.step (.connect h n) = s ∨
    ∃ result, State.negotiate s.cfg h = .ok result ∧
      Reconnects result s (s.step (.connect h n)) := by
  cases hlink : s.link with
  | some l =>
    left
    simp only [State.step, State.connect, hlink]
  | none =>
    cases hneg : State.negotiate s.cfg h with
    | error e =>
      left
      simp only [State.step, State.connect, hlink, hneg]
    | ok result =>
      refine .inr ⟨result, rfl, ?_⟩
      obtain ⟨hl, -, hn, hc, -⟩ :=
        applySession_frame { s with nextLink := s.nextLink + 1 } result
      have hre := replayed_resends result n hout
      obtain ⟨pre, k, hopen, hpre, -⟩ := hist_opened s result
      obtain ⟨es, hhist, honly, hsub, hall⟩ := hre.wire
      obtain ⟨⟨es', hhist', hes⟩, hlink', hnext, -⟩ := Logs.replayed s result n
      obtain rfl : es' = es := List.append_cancel_left (hhist'.symm.trans hhist)
      have hdown : (replayed s result n).link = none := by
        rcases hlink' with heq | heq
        · exact heq.trans (hl.trans hlink)
        · exact heq
      have hout' := hre.out.trans (outbound_opened s result)
      rw [← hre.out] at hsub hall
      have hlimit : ((opened s result).links s.nextLink).outboundMax = result.maximumPacketSize := by
        simp [opened, State.setLink, State.newLink]
      have hcalls : ∀ c l pkt, (replayed s result n).calls c = .parked l pkt →
          s.calls c = .parked l pkt := by
        intro c l pkt hp
        have hp' := hre.parks c l pkt hp
        rwa [show (opened s result).calls = s.calls from hc] at hp'
      -- `applySession` writes nothing, so the legs of the connect are those of the replay.
      have hlegs : ∀ (l : LinkId) (post : List Event), (∀ e ∈ post, e.bears = false) →
          legsOn l (pre ++ [Event.applied result k] ++ es' ++ post) = legsOn l es' := by
        intro l post hpost
        have hfirst : legsOn l (pre ++ [Event.applied result k]) = [] := by
          refine legsOn_eq_nil fun e he => ?_
          rcases List.mem_append.mp he with he | he
          · rw [hpre e he]
            rfl
          · rw [List.mem_singleton.mp he]
            rfl
        rw [legsOn_append, legsOn_append, hfirst, legsOn_eq_nil hpost]
        simp
      have horigin : ∀ post : List Event, (∀ e ∈ post, e.origin ≠ .call) →
          ∀ e ∈ pre ++ [Event.applied result k] ++ es' ++ post, e.origin ≠ .call := by
        intro post hpost e he
        simp only [List.mem_append, List.mem_singleton] at he
        rcases he with ((he | he) | he) | he
        · rw [hpre e he]
          decide
        · rw [he]
          simp [Event.origin]
        · have htr := hes e he
          simp only [List.mem_singleton] at htr
          rw [htr]
          decide
        · exact hpost e he
      rw [State.step_connect n hlink hneg, establish_eq]
      split
      · refine ⟨hlink, .inl hdown, hnext.trans hn, hre.limit.trans hlimit, hout',
          ⟨pre ++ [Event.applied result k] ++ es' ++ [], ?_, horigin [] (by simp), ?_, ?_, ?_⟩,
          hcalls⟩
        · rw [hhist, hopen]
          simp
        · intro l hne
          rw [hlegs l [] (by simp)]
          exact honly l hne
        · rw [hlegs _ [] (by simp)]
          exact hsub
        · intro hlive
          rw [hdown] at hlive
          cases hlive
      · rename_i hstop
        have hconnected : ∀ e ∈ [Event.connected s.nextLink result], e.bears = false := by
          simp [Event.bears]
        refine ⟨hlink, .inr rfl, hnext.trans hn, hre.limit.trans hlimit, hout',
          ⟨pre ++ [Event.applied result k] ++ es' ++ [.connected s.nextLink result], ?_,
            horigin _ (by simp [Event.origin]), ?_, ?_, ?_⟩, hcalls⟩
        · simp [State.log, hhist, hopen]
        · intro l hne
          rw [hlegs l _ hconnected]
          exact honly l hne
        · rw [hlegs _ _ hconnected]
          exact hsub
        · intro _ hfits
          rw [hlegs _ _ hconnected]
          refine hall (by simpa using hstop) fun p hp => ?_
          obtain ⟨m, hm, hmp⟩ := List.mem_filterMap.mp hp
          exact (fits_iff hlimit p).mpr (hfits m hm p hmp)

end replay

end GoMqtt.Client
