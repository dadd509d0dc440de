import GoMqtt.Client.Run

/-! # What each step logs

A step appends to the history and takes nothing back. `Moves` says which events
it appends, which PUBLISHes it leaves parked and what it keeps of every link, and
that only a connect makes a link. `Emits` is the case of the limit of a link, and
`Logs` the coarser bound by the part of the client an event comes from. -/
namespace GoMqtt.Client
open GoMqtt.Protocol GoMqtt.Session

/-- The part of the client an event comes from. -/
inductive Origin
  | transport
  | grant
  | call
  | frame
  | connect
  deriving DecidableEq, Repr

def Event.origin : Event → Origin
  | .wrote .. | .tornDown .. | .replayFailed .. => .transport
  | .granted .. => .grant
  | .invoked .. | .sent .. | .returned .. | .registered .. => .call
  | .received .. | .dispatched .. | .recorded .. => .frame
  | .discarded | .applied .. | .connected .. => .connect

/-- A PUBLISH goes out. -/
def Event.publishes : Event → Bool
  | .wrote _ (.publish _) => true
  | _ => false

/-- The packet encodes within the limit of the link. -/
def Link.fits (k : Link) (p : Packet) : Prop :=
  ∃ bytes, p.encode = .ok bytes ∧ (k.outboundMax = 0 ∨ bytes.length.toUInt32 ≤ k.outboundMax)

/-- The link would take the packet: it is up and the packet fits. -/
def Link.takes (k : Link) (p : Packet) : Prop := k.stop = false ∧ k.fits p

/-- A packet that does not fit leaves the link alone, one that fits goes out or
takes the link down. -/
theorem writeFrame_outcome (s : State) (l : LinkId) (p : Packet) (io : Bool) :
    (¬(s.links l).fits p ∧ ∃ e, s.writeFrame l p io = (some e, s)) ∨
    ((s.links l).fits p ∧
      s.writeFrame l p io = (some .socket, s.teardownLink l (s.links l).graceful)) ∨
    ((s.links l).takes p ∧ s.writeFrame l p io = (none, s.log (.wrote l p))) := by
  unfold State.writeFrame Link.takes Link.fits
  dsimp only
  split
  · rename_i e henc
    refine .inl ⟨?_, _, rfl⟩
    rintro ⟨bytes, hb, -⟩
    cases henc.symm.trans hb
  · rename_i bytes henc
    split
    · rename_i hmax
      refine .inl ⟨?_, _, rfl⟩
      rintro ⟨bytes', hb, hle⟩
      cases henc.symm.trans hb
      exact absurd (hle.resolve_left hmax.1) (UInt32.not_le.mpr hmax.2)
    · rename_i hmax
      rw [not_and_or, not_not, gt_iff_lt, UInt32.not_lt] at hmax
      split
      · exact .inr (.inl ⟨⟨bytes, henc, hmax⟩, rfl⟩)
      · rename_i hstop
        simp only [Bool.or_eq_true, not_or] at hstop
        exact .inr (.inr ⟨⟨by simpa using hstop.1, bytes, henc, hmax⟩, rfl⟩)

/-- Every event of this origin, apart from a PUBLISH that goes out. -/
def Admits (P : Event → Prop) (o : Origin) : Prop :=
  ∀ e : Event, e.origin = o → e.publishes = false → P e

/-- Only events meeting `P` are appended and only PUBLISHes meeting `Q` are parked;
no link is made or published, and no limit changes. -/
def Emits (P : Event → Prop) (Q : LinkId → PublishPacket → Prop) (s t : State) : Prop :=
  (∃ es, t.hist = s.hist ++ es ∧ ∀ e ∈ es, P e) ∧ (t.link = s.link ∨ t.link = none) ∧
    t.nextLink = s.nextLink ∧ t.cfg = s.cfg ∧ t.result = s.result ∧
    (∀ l, (t.links l).outboundMax = (s.links l).outboundMax) ∧
    ∀ c l pkt, t.calls c = .parked l pkt → s.calls c = .parked l pkt ∨ Q l pkt

/-- What is read off a link and stays while the link is used and when it goes down. -/
structure Kept (κ : Type) where
  read : Link → κ
  stop (k : Link) : read { k with stop := true } = read k
  graceful (k : Link) : read { k with graceful := true } = read k
  outstandingPings (k : Link) (n : Nat) : read { k with outstandingPings := n } = read k

/-- Only events meeting `P` are appended and only PUBLISHes meeting `Q` are parked;
no link is made or published, and `K` is kept of every link. -/
def Moves {κ : Type} (K : Kept κ) (P : Event → Prop) (Q : LinkId → PublishPacket → Prop)
    (s t : State) : Prop :=
  (∃ es, t.hist = s.hist ++ es ∧ ∀ e ∈ es, P e) ∧ (t.link = s.link ∨ t.link = none) ∧
    t.nextLink = s.nextLink ∧ t.cfg = s.cfg ∧ t.result = s.result ∧
    (∀ l, K.read (t.links l) = K.read (s.links l)) ∧
    ∀ c l pkt, t.calls c = .parked l pkt → s.calls c = .parked l pkt ∨ Q l pkt

namespace Moves

variable {κ : Type} {K : Kept κ} {P : Event → Prop} {Q : LinkId → PublishPacket → Prop}
  {s t u : State} {l : LinkId}

theorem refl (s : State) : Moves K P Q s s :=
  ⟨⟨[], by simp, by simp⟩, .inl rfl, rfl, rfl, rfl, fun _ => rfl, fun _ _ _ h => .inl h⟩

theorem trans (h : Moves K P Q s t) (h' : Moves K P Q t u) : Moves K P Q s u := by
  obtain ⟨⟨es, he, hes⟩, hl, hn, hc, hr, hm, hp⟩ := h
  obtain ⟨⟨es', he', hes'⟩, hl', hn', hc', hr', hm', hp'⟩ := h'
  refine ⟨⟨es ++ es', ?_, ?_⟩, ?_, hn'.trans hn, hc'.trans hc, hr'.trans hr,
    fun l => (hm' l).trans (hm l), fun c l pkt hk => ?_⟩
  · rw [he', he, List.append_assoc]
  · intro e hm
    rcases List.mem_append.mp hm with hm | hm
    · exact hes e hm
    · exact hes' e hm
  · rcases hl' with hl' | hl'
    · rw [hl']; exact hl
    · exact .inr hl'
  · rcases hp' c l pkt hk with hk | hq
    · exact hp c l pkt hk
    · exact .inr hq

theorem log (h : Moves K P Q s t) {e : Event} (he : P e) : Moves K P Q s (t.log e) :=
  h.trans ⟨⟨[e], rfl, by simpa using he⟩, .inl rfl, rfl, rfl, rfl, fun _ => rfl,
    fun _ _ _ hk => .inl hk⟩

theorem setCall (h : Moves K P Q s t) (c : CallId) {k : Call}
    (hk : ∀ l pkt, k = .parked l pkt → s.calls c = .parked l pkt ∨ Q l pkt) :
    Moves K P Q s (t.setCall c k) := by
  obtain ⟨he, hl, hn, hc, hr, hm, hp⟩ := h
  refine ⟨he, hl, hn, hc, hr, hm, fun d l pkt hd => ?_⟩
  by_cases hdc : d = c
  · subst hdc
    exact hk l pkt (by simpa [State.setCall] using hd)
  · exact hp d l pkt (by simpa [State.setCall, hdc] using hd)

theorem setLink (h : Moves K P Q s t) (l : LinkId) {f : Link → Link}
    (hf : ∀ k, K.read (f k) = K.read k) : Moves K P Q s (t.setLink l f) := by
  obtain ⟨he, hl, hn, hc, hr, hm, hp⟩ := h
  refine ⟨he, hl, hn, hc, hr, fun l' => ?_, hp⟩
  rw [← hm l']
  by_cases hll : l' = l
  · subst hll
    simp [State.setLink, hf]
  · simp [State.setLink, hll]

theorem finish (h : Moves K P Q s t) (hk : Admits P .call) (c : CallId) (r : Return) :
    Moves K P Q s (t.finish c r) :=
  (h.setCall c (by simp)).log (hk _ rfl rfl)

theorem removeWaiter (h : Moves K P Q s t) (id : UInt16) (c : CallId) :
    Moves K P Q s (t.removeWaiter id c) := by
  unfold State.removeWaiter
  split
  · split <;> exact h
  · exact h

theorem signalWaiter (h : Moves K P Q s t) (id : UInt16) (got : AckClass) (res : AckResult) :
    Moves K P Q s (t.signalWaiter id got res) := by
  unfold State.signalWaiter
  split
  · split <;> exact h
  · exact h

theorem teardownLink (h : Moves K P Q s t) (hk : Admits P .transport) (l : LinkId) (g : Bool) :
    Moves K P Q s (t.teardownLink l g) := by
  have hdown : Moves K P Q s ((t.setLink l fun k => { k with stop := true }).log (.tornDown l)) := by
    refine Moves.log ?_ (hk _ rfl rfl)
    exact h.setLink l K.stop
  unfold State.teardownLink
  split
  · exact h
  · dsimp only
    split
    · exact hdown
    · split <;> exact ⟨hdown.1, .inr rfl, hdown.2.2⟩

/-- A packet is written only where the link takes it. -/
theorem writeFrame (h : Moves K P Q s t) (hk : Admits P .transport) (l : LinkId) (p : Packet)
    (io : Bool) (hp : (t.links l).takes p → P (.wrote l p)) :
    Moves K P Q s (t.writeFrame l p io).2 := by
  rcases writeFrame_outcome t l p io with ⟨-, e, hr⟩ | ⟨-, hr⟩ | ⟨htakes, hr⟩ <;> rw [hr]
  · exact h
  · exact h.teardownLink hk l _
  · exact h.log (hp htakes)

/-- A packet other than a PUBLISH. -/
theorem writeOther (h : Moves K P Q s t) (hk : Admits P .transport) (l : LinkId) {p : Packet}
    (io : Bool) (hp : (Event.wrote l p).publishes = false) : Moves K P Q s (t.writeFrame l p io).2 :=
  h.writeFrame hk l p io fun _ => hk _ rfl hp

/-! ## Calls -/

theorem unsend (h : Moves K P Q s t) (hk : Admits P .call) (c : CallId) (id : UInt16)
    (quotaGen idGen : Nat) (err : ClientError) :
    Moves K P Q s (t.unsend c id quotaGen idGen err) := by
  refine Moves.finish ?_ hk c _
  split <;> exact h.removeWaiter id c

theorem sendAcked (h : Moves K P Q s t) (hk : Admits P .call) (ht : Admits P .transport)
    (c : CallId) (l : LinkId) (pkt : PublishPacket) (quotaGen : Nat) (io : Bool)
    (hp : ∀ id, (t.links l).takes (.publish { pkt with packetID := id }) →
      P (.wrote l (.publish { pkt with packetID := id }))) :
    Moves K P Q s (t.sendAcked c l pkt quotaGen io) := by
  unfold State.sendAcked
  split
  · exact h.finish hk c _
  · rename_i id idGen ids hid
    have hsaved : Moves K P Q s ({ t with
        ids, store := t.store.save (storedPublish { pkt with packetID := id }) }.registerWaiter id c
          .publish) := h
    have hwrite := hsaved.writeFrame ht l (.publish { pkt with packetID := id }) io (hp id)
    dsimp only
    split <;> rename_i hr <;> rw [hr] at hwrite
    · exact hwrite.unsend hk c id quotaGen idGen _
    · exact (hwrite.log (hk _ rfl rfl)).setCall c (by simp)

theorem publishAcked (h : Moves K P Q s t) (hk : Admits P .call) (ht : Admits P .transport)
    (hg : 0 < t.quota.avail → Admits P .grant) (c : CallId) (l : LinkId) (pkt : PublishPacket)
    (io : Bool) (hq : s.calls c = .parked l pkt ∨ Q l pkt)
    (hp : ∀ id, (t.links l).takes (.publish { pkt with packetID := id }) →
      P (.wrote l (.publish { pkt with packetID := id }))) :
    Moves K P Q s (t.publishAcked c l pkt io) := by
  unfold State.publishAcked
  split
  · exact h.finish hk c _
  · refine h.setCall c ?_
    rintro _ _ ⟨⟩
    exact hq
  · rename_i hacq
    have hgrant := hg (Quota.acquire_granted hacq).2.1
    refine Moves.sendAcked (Moves.log ?_ (hgrant _ rfl rfl)) hk ht c l pkt _ io hp
    exact h

theorem publish (h : Moves K P Q s t) (hk : Admits P .call) (ht : Admits P .transport)
    (hg : 0 < t.quota.avail → Admits P .grant) (c : CallId) (req : PublishRequest) (io : Bool)
    (hq : ∀ l, t.publishChecks req = .ok l → Q l (t.publishPacket req))
    (hp : ∀ l id, t.publishChecks req = .ok l →
      (t.links l).takes (.publish { t.publishPacket req with packetID := id }) →
      P (.wrote l (.publish { t.publishPacket req with packetID := id }))) :
    Moves K P Q s (t.publish c req io) := by
  have hlog : Moves K P Q s (t.log (.invoked c req)) := h.log (hk _ rfl rfl)
  unfold State.publish
  dsimp only
  split
  · exact hlog.finish hk c _
  · rename_i l hl
    split
    · exact (hlog.writeFrame ht l _ io (hp l 0 hl)).finish hk c _
    · exact hlog.publishAcked hk ht hg c l _ io (.inr (hq l hl)) fun id => hp l id hl

theorem wake (h : Moves K P Q s s) (hk : Admits P .call) (ht : Admits P .transport)
    (hg : 0 < s.quota.avail → Admits P .grant) (c : CallId) (io : Bool)
    (hp : ∀ l pkt id, s.calls c = .parked l pkt →
      (s.links l).takes (.publish { pkt with packetID := id }) →
      P (.wrote l (.publish { pkt with packetID := id }))) :
    Moves K P Q s (s.wake c io) := by
  unfold State.wake
  split
  · rename_i l pkt hc
    exact h.publishAcked hk ht hg c l pkt io (.inl hc) fun id => hp l pkt id hc
  · exact h

theorem failRequest (h : Moves K P Q s t) (hk : Admits P .call) (c : CallId) (r : Request)
    (e : ClientError) : Moves K P Q s (t.failRequest c r e) := by
  cases r <;> exact h.finish hk c _

theorem completeRequest (h : Moves K P Q s t) (hk : Admits P .call) (c : CallId) (r : Request)
    (code : ReasonCode) : Moves K P Q s (t.completeRequest c r code) := by
  match r with
  | .subscribe .. => exact h.finish hk c _
  | .unsubscribe _ none => exact h.finish hk c _
  | .unsubscribe _ (some _) => exact h.finish hk c _

theorem requestAck (h : Moves K P Q s t) (hk : Admits P .call) (ht : Admits P .transport)
    (c : CallId) (l : LinkId) (r : Request) (want : AckClass) (mk : UInt16 → Packet) (io : Bool)
    (hmk : ∀ id, (Event.wrote l (mk id)).publishes = false) :
    Moves K P Q s (t.requestAck c l r want mk io) := by
  unfold State.requestAck
  split
  · refine Moves.failRequest ?_ hk c r _
    exact h
  · rename_i id gen ids hid
    have hheld : Moves K P Q s ({ t with ids }.registerWaiter id c want) := h
    have hwrite := hheld.writeOther ht l io (hmk id)
    dsimp only
    split <;> rename_i hr <;> rw [hr] at hwrite
    · refine Moves.failRequest ?_ hk c r _
      exact hwrite.removeWaiter id c
    · exact hwrite.setCall c (by simp)

theorem subscribe (h : Moves K P Q s t) (hk : Admits P .call) (ht : Admits P .transport)
    (c : CallId) (req : SubscribeRequest) (io : Bool) : Moves K P Q s (t.subscribe c req io) := by
  unfold State.subscribe
  split
  · exact h.finish hk c _
  · refine Moves.requestAck (Moves.log ?_ (hk _ rfl rfl)) hk ht c _ _ _ _ io fun _ => rfl
    exact h

theorem unsubscribe (h : Moves K P Q s t) (hk : Admits P .call) (ht : Admits P .transport)
    (c : CallId) (filter : Bytes) (io : Bool) : Moves K P Q s (t.unsubscribe c filter io) := by
  unfold State.unsubscribe
  split
  · exact h.finish hk c _
  · exact h.finish hk c _
  · exact h.requestAck hk ht c _ _ _ _ io fun _ => rfl

theorem giveUp (h : Moves K P Q s t) (hk : Admits P .call) (c : CallId) (timeout : Bool) :
    Moves K P Q s (t.giveUp c timeout) := by
  unfold State.giveUp
  dsimp only
  split
  · split
    · exact h
    · exact h.finish hk c _
  · exact (h.removeWaiter _ c).finish hk c _
  · refine Moves.failRequest ?_ hk c _ _
    exact h.removeWaiter _ c
  · split
    · exact (h.removeWaiter _ c).setCall c (by simp)
    · exact h
  · exact h

theorem collect (h : Moves K P Q s t) (hk : Admits P .call) (c : CallId) :
    Moves K P Q s (t.collect c) := by
  unfold State.collect
  split
  · exact h
  · split
    · exact h.finish hk c _
    · dsimp only
      split
      · refine Moves.failRequest ?_ hk c _ _
        exact h
      · refine Moves.completeRequest ?_ hk c _ _
        exact h
    · refine Moves.setCall ?_ c (by simp)
      exact h
    · exact h

/-! ## The loops of a link -/

theorem protocolError (h : Moves K P Q s t) (hk : Admits P .transport) (l : LinkId)
    (reason : ReasonCode) (io : Bool) : Moves K P Q s (t.protocolError l reason io) := by
  unfold State.protocolError
  dsimp only
  split
  · exact (h.writeOther hk l io rfl).teardownLink hk l _
  · exact h.teardownLink hk l _

theorem dispatch (h : Moves K P Q s t) (hk : Admits P .transport) (hf : Admits P .frame)
    (l : LinkId) (p : PublishPacket) (torn : Bool) : Moves K P Q s (t.dispatch l p torn) := by
  have hlog : Moves K P Q s (t.log (.dispatched l p (State.handlersFor t.subs.subs p) torn)) := by
    exact h.log (hf _ rfl rfl)
  unfold State.dispatch
  dsimp only
  split
  · exact hlog.teardownLink hk l _
  · exact hlog

theorem resolveTopicAlias (h : Moves K P Q s t)
    (hK : ∀ k a, K.read { k with aliases := a } = K.read k) (l : LinkId) (p : PublishPacket) :
    Moves K P Q s (t.resolveTopicAlias l p).2 := by
  unfold State.resolveTopicAlias
  split
  · exact h
  · split
    · exact h
    · split
      · exact h
      · exact h.setLink l fun k => hK k _

theorem handleInboundQoS2 (h : Moves K P Q s t) (hk : Admits P .transport) (hf : Admits P .frame)
    (l : LinkId) (p : PublishPacket) (torn io : Bool) :
    Moves K P Q s (t.handleInboundQoS2 l p torn io) := by
  have hd := h.dispatch hk hf l p torn
  unfold State.handleInboundQoS2
  split
  · exact h.writeOther hk l io rfl
  · dsimp only
    split
    · exact hd
    · refine Moves.writeOther (Moves.log ?_ (hf _ rfl rfl)) hk l io rfl
      exact hd

theorem handlePublish (h : Moves K P Q s t) (hk : Admits P .transport) (hf : Admits P .frame)
    (hK : ∀ k a, K.read { k with aliases := a } = K.read k) (l : LinkId) (p : PublishPacket)
    (torn io : Bool) : Moves K P Q s (t.handlePublish l p torn io) := by
  have hres := h.resolveTopicAlias hK l p
  unfold State.handlePublish
  split <;> rename_i hr <;> rw [hr] at hres
  · exact hres.protocolError hk l _ io
  · dsimp only
    split
    · exact hres.dispatch hk hf l _ torn
    · split
      · split
        · exact hres.dispatch hk hf l _ torn
        · exact (hres.dispatch hk hf l _ torn).writeOther hk l io rfl
      · exact hres.handleInboundQoS2 hk hf l _ torn io

theorem handleInboundPubrel (h : Moves K P Q s t) (hk : Admits P .transport) (l : LinkId)
    (a : InboundAck) (io : Bool) : Moves K P Q s (t.handleInboundPubrel l a io) := by
  unfold State.handleInboundPubrel
  split
  · exact h.writeOther hk l io rfl
  · refine Moves.writeOther ?_ hk l io rfl
    exact h

theorem release (h : Moves K P Q s t) (l : LinkId) (id : UInt16) (kind : StoredKind)
    (res : AckResult) : Moves K P Q s (t.release l id kind res) := by
  refine Moves.signalWaiter ?_ id .publish res
  exact h

theorem completeOutbound (h : Moves K P Q s t) (l : LinkId) (id : UInt16) (kind : StoredKind)
    (res : AckResult) : Moves K P Q s (t.completeOutbound l id kind res) := by
  unfold State.completeOutbound
  split
  · exact h.release l id kind res
  · exact h

theorem handlePubrec (h : Moves K P Q s t) (hk : Admits P .transport) (l : LinkId) (a : InboundAck)
    (reason : Bytes) (io : Bool) : Moves K P Q s (t.handlePubrec l a reason io) := by
  unfold State.handlePubrec
  dsimp only
  split
  · split
    · exact h.release l _ _ _
    · refine Moves.writeOther ?_ hk l io rfl
      exact h
  · split <;> exact h.writeOther hk l io rfl

/-- A frame that is no PUBLISH. -/
theorem handleOther (h : Moves K P Q s t) (hk : Admits P .transport) (l : LinkId) {f : Frame}
    (hf : ∀ p, f ≠ .publish p) (torn io : Bool) : Moves K P Q s (t.handleFrame l f torn io) := by
  cases f with
  | publish p => exact absurd rfl (hf p)
  | puback a => exact h.completeOutbound l _ _ _
  | pubrec a => exact h.handlePubrec hk l a _ io
  | pubrel a => exact h.handleInboundPubrel hk l a io
  | pubcomp a => exact h.completeOutbound l _ _ _
  | suback p => exact h.signalWaiter _ _ _
  | unsuback p => exact h.signalWaiter _ _ _
  | pingresp => exact h.setLink l fun k => K.outstandingPings k _
  | disconnect => exact h.teardownLink hk l _
  | unexpected ty => exact h.protocolError hk l _ io
  | malformed => exact h.protocolError hk l _ io

theorem tick (h : Moves K P Q s t) (hk : Admits P .transport) (l : LinkId) (io : Bool) :
    Moves K P Q s (t.tick l io) := by
  unfold State.tick
  split
  · exact h.teardownLink hk l _
  · have hset : Moves K P Q s
        (t.setLink l fun k => { k with outstandingPings := k.outstandingPings + 1 }) :=
      h.setLink l fun k => K.outstandingPings k _
    have hwrite := hset.writeOther (p := .pingreq) hk l io rfl
    dsimp only
    split <;> rename_i hr <;> rw [hr] at hwrite
    · exact hwrite.teardownLink hk l _
    · exact hwrite

theorem disconnect (h : Moves K P Q s t) (hk : Admits P .transport) (io : Bool) :
    Moves K P Q s (t.disconnect io) := by
  unfold State.disconnect
  split
  · exact h
  · refine Moves.teardownLink (Moves.writeOther ?_ hk _ io rfl) hk _ true
    exact h.setLink _ K.graceful

/-! ## The replay of a connect -/

theorem replayWrite (h : Moves K P Q s t) (hk : Admits P .transport) (l : LinkId) (p : Packet)
    (io : Bool) (hp : (t.links l).takes p → P (.wrote l p)) :
    Moves K P Q s (t.replayWrite l p io) := by
  have hwrite := h.writeFrame hk l p io hp
  unfold State.replayWrite
  split <;> rename_i hr <;> rw [hr] at hwrite
  · exact hwrite.log (hk _ rfl rfl)
  · exact hwrite

/-- What is replayed is written to a link that has kept what it had. -/
theorem replayEntries (h : Moves K P Q s t) (hk : Admits P .transport) (l : LinkId)
    (ms : List StoredMessage) (n : Nat)
    (hp : ∀ k : Link, K.read k = K.read (s.links l) → ∀ m ∈ ms, ∀ p,
      State.replayPacket s.cfg.protocolVersion m = some p → k.takes p → P (.wrote l p)) :
    Moves K P Q s (State.replayEntries l ms n t).2 := by
  induction ms generalizing n t with
  | nil => exact h
  | cons m rest ih =>
    have hrest := fun k hmax m' hm => hp k hmax m' (List.mem_cons_of_mem _ hm)
    unfold State.replayEntries
    split
    · exact ih h n hrest
    · rename_i p hm
      rw [h.2.2.2.1] at hm
      refine ih (h.replayWrite hk l p _ ?_) (n - 1) hrest
      exact hp _ (h.2.2.2.2.2.1 l) m List.mem_cons_self p hm

theorem resubscribe (h : Moves K P Q s t) (hk : Admits P .transport) (l : LinkId) (k : Nat)
    (sub : Subscription) (io : Bool) : Moves K P Q s (t.resubscribe l k sub io) := by
  unfold State.resubscribe
  split
  · refine Moves.log ?_ (hk _ rfl rfl)
    exact h
  · rename_i id gen ids hid
    have hheld : Moves K P Q s ({ t with ids }.registerWaiter id (.resubscribe l k) .suback) := h
    have hwrite := hheld.writeOther (p := .subscribe (State.subscribePacket
      t.cfg.protocolVersion sub.filter sub.options sub.subID id)) hk l io rfl
    dsimp only
    split <;> rename_i hr <;> rw [hr] at hwrite
    · refine Moves.log ?_ (hk _ rfl rfl)
      exact hwrite.removeWaiter id _
    · exact hwrite.setCall _ (by simp)

theorem resubscribeAll (h : Moves K P Q s t) (hk : Admits P .transport) (l : LinkId)
    (subs : List Subscription) (k n : Nat) :
    Moves K P Q s (State.resubscribeAll l subs k n t) := by
  induction subs generalizing k n t with
  | nil => exact h
  | cons sub rest ih => exact ih (h.resubscribe hk l k sub _) (k + 1) (n - 1)

end Moves

/-! ## Every step -/

def Action.connects : Action → Bool
  | .connect .. => true
  | _ => false

/-- A step that is no connect makes no link, grants a permit only where one is free,
and sends or parks only what a Publish passed. -/
theorem Moves.step {κ : Type} {K : Kept κ} {P : Event → Prop} {Q : LinkId → PublishPacket → Prop}
    {s : State} {a : Action} (ha : a.connects = false) (hk : Admits P .call)
    (ht : Admits P .transport) (hg : 0 < s.quota.avail → Admits P .grant)
    (hf : ∀ l f torn io, a = .frame f torn io →
      Moves K P Q s ((s.log (.received l f)).handleFrame l f torn io))
    (hq : ∀ req l, s.publishChecks req = .ok l → Q l (s.publishPacket req))
    (hp : ∀ l pkt id, ((∃ req, s.publishChecks req = .ok l ∧ pkt = s.publishPacket req) ∨
        ∃ c, s.calls c = .parked l pkt) →
      (s.links l).takes (.publish { pkt with packetID := id }) →
      P (.wrote l (.publish { pkt with packetID := id }))) : Moves K P Q s (s.step a) := by
  have hrefl : Moves K P Q s s := .refl s
  have hbegin : ∀ n f, Moves K P Q s (f s (.api n)) → Moves K P Q s (s.begin n f) := by
    intro n f h
    unfold State.begin
    split
    · exact h
    · exact hrefl
  have hlink : ∀ f, (∀ l, Moves K P Q s (f s l)) → Moves K P Q s (s.onLink f) := by
    intro f h
    unfold State.onLink
    split
    · exact hrefl
    · exact h _
  cases a with
  | publish n req io =>
    exact hbegin n _ (hrefl.publish hk ht hg _ req io (hq req) fun l id hl =>
      hp l _ id (.inl ⟨req, hl, rfl⟩))
  | subscribe n req io => exact hbegin n _ (hrefl.subscribe hk ht _ req io)
  | unsubscribe n filter io => exact hbegin n _ (hrefl.unsubscribe hk ht _ filter io)
  | wake c io => exact hrefl.wake hk ht hg c io fun l pkt id hc => hp l pkt id (.inr ⟨c, hc⟩)
  | giveUp c timeout => exact hrefl.giveUp hk c timeout
  | collect c => exact hrefl.collect hk c
  | frame f torn io => exact hlink _ fun l => hf l f torn io rfl
  | readError => exact hlink _ fun l => hrefl.teardownLink ht l _
  | tick io => exact hlink _ fun l => hrefl.tick ht l io
  | connect h n => cases ha
  | disconnect io => exact hrefl.disconnect ht io

/-- The limit of a link. -/
def Kept.outboundMax : Kept UInt32 :=
  ⟨Link.outboundMax, fun _ => rfl, fun _ => rfl, fun _ _ => rfl⟩

/-- A step that is no connect changes no limit. -/
theorem Emits.step {P : Event → Prop} {Q : LinkId → PublishPacket → Prop} {s : State} {a : Action}
    (ha : a.connects = false) (hk : Admits P .call) (ht : Admits P .transport)
    (hf : Admits P .frame) (hg : 0 < s.quota.avail → Admits P .grant)
    (hq : ∀ req l, s.publishChecks req = .ok l → Q l (s.publishPacket req))
    (hp : ∀ l pkt id, ((∃ req, s.publishChecks req = .ok l ∧ pkt = s.publishPacket req) ∨
        ∃ c, s.calls c = .parked l pkt) →
      (s.links l).takes (.publish { pkt with packetID := id }) →
      P (.wrote l (.publish { pkt with packetID := id }))) : Emits P Q s (s.step a) := by
  refine Moves.step (K := .outboundMax) ha hk ht hg (fun l f torn io _ => ?_) hq hp
  have hlog : Moves .outboundMax P Q s (s.log (.received l f)) := (Moves.refl s).log (hf _ rfl rfl)
  by_cases hpub : ∃ p, f = .publish p
  · obtain ⟨p, rfl⟩ := hpub
    exact hlog.handlePublish ht hf (fun _ _ => rfl) l p.pkt torn io
  · exact hlog.handleOther ht l (fun p heq => hpub ⟨p, heq⟩) torn io

/-! ## Events by origin -/

/-- Only events from `ks` are appended, and no link is made or published. -/
def Logs (ks : List Origin) (s t : State) : Prop :=
  (∃ es, t.hist = s.hist ++ es ∧ ∀ e ∈ es, e.origin ∈ ks) ∧ (t.link = s.link ∨ t.link = none) ∧
    t.nextLink = s.nextLink ∧ t.cfg = s.cfg

theorem Moves.logs {κ : Type} {K : Kept κ} {ks : List Origin} {s t : State}
    (h : Moves K (fun e => e.origin ∈ ks) (fun _ _ => True) s t) : Logs ks s t :=
  ⟨h.1, h.2.1, h.2.2.1, h.2.2.2.1⟩

theorem admits_of_mem {ks : List Origin} {o : Origin} (h : o ∈ ks) :
    Admits (fun e => e.origin ∈ ks) o := by
  intro e he _
  rw [he]
  exact h

/-- A step that is no connect makes no link and reports nothing a connect would,
and a permit is granted only where one is free. -/
theorem Logs.step {ks : List Origin} {s : State} {a : Action} (ha : a.connects = false)
    (hk : Origin.call ∈ ks) (ht : Origin.transport ∈ ks) (hf : Origin.frame ∈ ks)
    (hg : 0 < s.quota.avail → Origin.grant ∈ ks) : Logs ks s (s.step a) :=
  Moves.logs (K := .outboundMax) (Emits.step ha (admits_of_mem hk) (admits_of_mem ht)
    (admits_of_mem hf) (fun h => admits_of_mem (hg h)) (fun _ _ _ => trivial) fun _ _ _ _ _ => ht)

theorem Logs.any_step {s : State} {a : Action} (ha : a.connects = false) :
    Logs [.call, .transport, .frame, .grant] s (s.step a) :=
  Logs.step ha (by simp) (by simp) (by simp) (by simp)

end GoMqtt.Client
