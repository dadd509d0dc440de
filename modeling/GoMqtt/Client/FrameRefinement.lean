import GoMqtt.Client.CallRefinement

/-! # What the loops of a link do to the abstract session

An inbound frame is one move: it ends an exchange, moves it to its PUBREL leg,
records or releases an inbound identifier, or is only heard. A failing socket
adds a teardown. -/
namespace GoMqtt.Client
open GoMqtt.Protocol GoMqtt.Session GoMqtt.Lib

variable {ok : Session → Frame → Prop} {roll : Subscription → Subscription → Prop}

/-! ## Losing the connection -/

namespace Refines

variable {s t : State}

theorem teardownLink (h : Refines ok roll s t) (l : LinkId) (g : Bool) :
    Refines ok roll s (t.teardownLink l g) :=
  ⟨h.1.teardownLink l g, h.2.tearing (view_teardownLink l g fun _ _ _ => h.1.own)⟩

theorem writeFrame (h : Refines ok roll s t) (l : LinkId) (p : Packet) (io : Bool) :
    Refines ok roll s (t.writeFrame l p io).2 :=
  ⟨(h.1.writeFrame l p io).1, h.2.tearing (h.1.writeFrame l p io).2⟩

theorem setLink (h : Refines ok roll s t) (l : LinkId) {f : Link → Link}
    (hf : ∀ k, (f k).stop = k.stop ∧ (f k).quotaGen = k.quotaGen ∧ (f k).idGen = k.idGen) :
    Refines ok roll s (t.setLink l f) :=
  ⟨⟨h.1.toLinked.setLink l hf, h.1.toWaits.congr rfl fun _ _ hw => hw⟩, h.2⟩

theorem protocolError (h : Refines ok roll s t) (l : LinkId) (reason : ReasonCode) (io : Bool) :
    Refines ok roll s (t.protocolError l reason io) := by
  unfold State.protocolError
  dsimp only
  split
  · exact (h.writeFrame l _ io).teardownLink l _
  · exact h.teardownLink l _

end Refines

theorem tick_refines {s : State} (l : LinkId) (io : Bool) (hw : Wired none s) :
    Refines ok roll s (s.tick l io) := by
  have hrefl : Refines ok roll s s := ⟨hw, .refl⟩
  unfold State.tick
  split
  · exact hrefl.teardownLink l _
  · have hset : Refines ok roll s
        (s.setLink l fun k => { k with outstandingPings := k.outstandingPings + 1 }) :=
      hrefl.setLink l fun _ => ⟨rfl, rfl, rfl⟩
    have hwrite := hset.writeFrame l .pingreq io
    dsimp only
    split <;> rename_i hr <;> rw [hr] at hwrite
    · exact hwrite.teardownLink l _
    · exact hwrite

theorem disconnect_refines {s : State} (io : Bool) (hw : Wired none s) :
    Refines ok roll s (s.disconnect io) := by
  have hrefl : Refines ok roll s s := ⟨hw, .refl⟩
  unfold State.disconnect
  split
  · exact hrefl
  · exact ((hrefl.setLink _ (by intro k; exact ⟨rfl, rfl, rfl⟩)).writeFrame _ _ io).teardownLink _ _

/-! ## Inbound messages -/

section frames

variable {s t : State} {l : LinkId}

/-- A frame that moves nothing, and the messages handed on because of it. -/
theorem heard_refines {f : Frame} (es : List Event) (ht : Wired none t)
    (hv : view t = (view s).notes (.received l f :: es)) (hok : ok (view s) f)
    (hf : (view s).Inert f) (hes : ∀ e ∈ es, (view s).Unrecorded l e) : Refines ok roll s t := by
  refine ⟨ht, ?_⟩
  rw [hv]
  exact .single (.heard hok hf hes)

/-- The view of a state with another store. -/
theorem view_stored (s : State) (store : MemStore) :
    view { s with store } = { view s with
      out := outbound store
      inbound := fun id => store.contains id .inboundID } := rfl

theorem view_record {s : State} {id : UInt16} (h : s.store.contains id .inboundID = false) :
    view { s with store := s.store.save { id, kind := .inboundID } } = (view s).record id := by
  rw [view_stored, outbound_record h]
  simp only [Session.record, Session.mk.injEq, true_and, and_true]
  refine ⟨rfl, ?_⟩
  funext i
  by_cases hi : i = id
  · simp [hi]
  · simp [hi, view]

theorem view_unrecord (s : State) (id : UInt16) :
    view { s with store := s.store.delete id .inboundID } = (view s).unrecord id := by
  rw [view_stored, outbound_delete, without_inboundID]
  simp only [Session.unrecord, Session.mk.injEq, true_and, and_true]
  refine ⟨rfl, ?_⟩
  funext i
  by_cases hi : i = id
  · simp [hi]
  · simp [hi, view]

theorem view_received (s : State) (l : LinkId) (f : Frame) :
    view (s.log (.received l f)) = (view s).notes [.received l f] := view_log rfl

theorem inert_publish (v : Session) (p : InboundPublish) : v.Inert (.publish p) :=
  ⟨fun _ _ _ h => (by cases h), fun _ h => (by cases h), fun _ h => (by cases h)⟩

theorem view_dispatched (s : State) (l : LinkId) (p : InboundPublish) (q : PublishPacket)
    (hs : List Handler) (torn : Bool) (k : State)
    (hk : view k = (view s).notes [.received l (.publish p)]) :
    view (k.log (.dispatched l q hs torn)) =
      (view s).notes [.received l (.publish p), .dispatched l q hs torn] := by
  rw [view_log rfl, hk]
  simp [Session.notes]

/-- Handing a message on that is not recorded. -/
theorem dispatch_refines {p : InboundPublish} {q : PublishPacket} (torn : Bool) (hk : Wired none t)
    (hv : view t = (view s).notes [.received l (.publish p)]) (hok : ok (view s) (.publish p))
    (hq : q.qos = 2 → torn = true ∧ (view s).inbound q.packetID = false) :
    Refines ok roll s (t.dispatch l q torn) := by
  have hheard : Refines ok roll s
      (t.log (.dispatched l q (State.handlersFor t.subs.subs q) torn)) := by
    refine heard_refines _ (hk.log _) (view_dispatched s l p q _ torn t hv) hok (inert_publish _ p) ?_
    rintro e he
    rw [List.mem_singleton] at he
    exact ⟨q, _, torn, he, hq⟩
  unfold State.dispatch
  dsimp only
  split
  · exact hheard.teardownLink l _
  · exact hheard

theorem stop_teardownLink (s : State) (l : LinkId) (g : Bool) :
    ((s.teardownLink l g).links l).stop = true := by
  unfold State.teardownLink
  split
  · assumption
  · dsimp only
    split
    · simp [State.log, State.setLink]
    · split <;> simp [State.failAllWaiters, State.log, State.setLink]

theorem handleInboundQoS2_refines {p : InboundPublish} {q : PublishPacket} (torn io : Bool)
    (hk : Wired none t) (hlive : (t.links l).stop = false)
    (hv : view t = (view s).notes [.received l (.publish p)]) (hok : ok (view s) (.publish p))
    (hq : q.qos = 2) : Refines ok roll s (t.handleInboundQoS2 l q torn io) := by
  have hinbound : (view s).inbound q.packetID = t.store.contains q.packetID .inboundID :=
    (congrFun (congrArg Session.inbound hv) q.packetID).symm
  unfold State.handleInboundQoS2 State.sendAck State.sendAckReason
  split
  · refine Refines.writeFrame ?_ l _ io
    exact heard_refines [] hk hv hok (inert_publish _ p) (by simp)
  · rename_i hnew
    rw [Bool.not_eq_true] at hnew
    rw [hnew] at hinbound
    dsimp only
    cases torn with
    | true =>
      rw [if_pos]
      · exact dispatch_refines true hk hv hok fun _ => ⟨rfl, hinbound⟩
      · simp only [State.dispatch, if_true]
        exact stop_teardownLink _ l _
    | false =>
      have hdisp : t.dispatch l q false =
          t.log (.dispatched l q (State.handlersFor t.subs.subs q) false) := rfl
      rw [hdisp, if_neg (by simpa [State.log] using hlive)]
      refine Refines.writeFrame ⟨?_, ?_⟩ l _ io
      · exact ((hk.log _).store _).log _
      · rw [view_log rfl, view_record (by exact hnew), view_log rfl, hv]
        have hmove : Session.Move ok roll (view s) (((view s).notes [.received l (.publish p),
            .dispatched l q (State.handlersFor t.subs.subs q) false,
            .recorded l q.packetID]).record q.packetID) := .delivered hok hq hinbound
        simpa [Session.notes, Session.record] using Relation.ReflTransGen.single hmove

/-- A resolved alias changes the link's alias table only. -/
theorem resolveTopicAlias_cases (s : State) (l : LinkId) (p : PublishPacket) :
    (s.resolveTopicAlias l p).2 = s ∨ ∃ f : Link → Link,
      (∀ k, (f k).stop = k.stop ∧ (f k).quotaGen = k.quotaGen ∧ (f k).idGen = k.idGen) ∧
      (∀ k, (f k).outboundMax = k.outboundMax) ∧
      (s.resolveTopicAlias l p).2 = s.setLink l f := by
  unfold State.resolveTopicAlias
  split
  · exact .inl rfl
  · split
    · exact .inl rfl
    · split
      · exact .inl rfl
      · refine .inr ⟨fun k => { k with aliases := Function.update k.aliases _ (some p.topic) },
          fun _ => ⟨rfl, rfl, rfl⟩, fun _ => rfl, rfl⟩

theorem handlePublish_refines {p : InboundPublish} (torn io : Bool) (hk : Wired none t)
    (hlive : (t.links l).stop = false)
    (hv : view t = (view s).notes [.received l (.publish p)]) (hok : ok (view s) (.publish p)) :
    Refines ok roll s (t.handlePublish l p.pkt torn io) := by
  obtain ⟨hk', hv', hlive'⟩ : Wired none (t.resolveTopicAlias l p.pkt).2 ∧
      view (t.resolveTopicAlias l p.pkt).2 = (view s).notes [.received l (.publish p)] ∧
      ((t.resolveTopicAlias l p.pkt).2.links l).stop = false := by
    rcases resolveTopicAlias_cases t l p.pkt with hr | ⟨f, hf, -, hr⟩ <;> rw [hr]
    · exact ⟨hk, hv, hlive⟩
    · refine ⟨⟨hk.toLinked.setLink l hf, hk.toWaits.congr rfl fun _ _ h => h⟩, hv, ?_⟩
      simpa [State.setLink, (hf _).1] using hlive
  unfold State.handlePublish
  split
  · rename_i t' hr
    rw [hr] at hk' hv'
    exact (heard_refines [] hk' hv' hok (inert_publish _ p) (by simp)).protocolError l _ io
  · rename_i topic t' hr
    rw [hr] at hk' hv' hlive'
    dsimp only at hk' hv' hlive' ⊢
    split
    · rename_i h0
      exact dispatch_refines torn hk' hv' hok fun h2 => absurd (h0.symm.trans h2) (by decide)
    · split
      · rename_i h1
        have hd : Refines ok roll s (t'.dispatch l { p.pkt with topic } torn) :=
          dispatch_refines torn hk' hv' hok fun h2 => absurd (h1.symm.trans h2) (by decide)
        split
        · exact hd
        · exact hd.writeFrame l _ io
      · rename_i h0 h1
        refine handleInboundQoS2_refines torn io hk' hlive' hv' hok ?_
        have hle : p.pkt.qos.toNat ≤ 2 := UInt8.le_iff_toNat_le.mp p.qos_le
        have hn0 : p.pkt.qos.toNat ≠ 0 := fun h => h0 (UInt8.toNat_inj.mp h)
        have hn1 : p.pkt.qos.toNat ≠ 1 := fun h => h1 (UInt8.toNat_inj.mp h)
        exact UInt8.toNat_inj.mp (show p.pkt.qos.toNat = 2 by omega)

theorem handleInboundPubrel_refines {a : InboundAck} (io : Bool) (hk : Wired none t)
    (hv : view t = (view s).notes [.received l (.pubrel a)]) (hok : ok (view s) (.pubrel a)) :
    Refines ok roll s (t.handleInboundPubrel l a io) := by
  have hmove : Session.Move ok roll (view s) ((view t).unrecord a.packetID) := by
    rw [hv]
    exact .released hok
  unfold State.handleInboundPubrel State.sendAck State.sendAckReason
  split
  · rename_i hnone
    refine Refines.writeFrame ⟨hk, .single ?_⟩ l _ io
    have hsame : (view t).unrecord a.packetID = view t := by
      have hfalse : (view t).inbound a.packetID = false := by simpa [view] using hnone
      simp only [Session.unrecord, ← hfalse, Function.update_eq_self]
    rwa [hsame] at hmove
  · refine Refines.writeFrame ⟨hk.store _, .single ?_⟩ l _ io
    rw [view_unrecord]
    exact hmove

/-! ## Acknowledgements -/

theorem lookup_of_publisher_none {ws : AList fun _ : UInt16 => Waiter} {id : UInt16} {w : Waiter}
    (hw : ws.lookup id = some w) (hwant : w.want ≠ .publish) : publisher ws id = none := by
  simp [publisher, hw, hwant]

/-- Telling whoever waits for an exchange. -/
theorem view_signalPublish (h : Waits s) (id : UInt16) (res : AckResult) :
    view (s.signalWaiter id .publish res) = { view s with
      waiting := Function.update (view s).waiting id none
      inbox := match (view s).waiting id with
        | some c => Function.update (view s).inbox c (some (((view s).inbox c).getD res))
        | none => (view s).inbox } := by
  have hnone : publisher s.waiters id = none → view s = { view s with
      waiting := Function.update (view s).waiting id none
      inbox := match (view s).waiting id with
        | some c => Function.update (view s).inbox c (some (((view s).inbox c).getD res))
        | none => (view s).inbox } := by
    intro hp
    have hp' : (view s).waiting id = none := hp
    simp only [hp']
    rw [← hp', Function.update_eq_self]
  unfold State.signalWaiter
  split
  · rename_i w hw
    split
    · rename_i hwant
      have hp : (view s).waiting id = some w.ch := by simp [view, publisher, hw, hwant]
      have hc : s.calls w.ch = .publishing id :=
        h.publish id w.ch (by rw [hw, ← hwant])
      simp only [hp, State.deliver]
      simp only [view, publisher_erase, Session.mk.injEq, true_and, and_true]
      funext c
      by_cases hcc : c = w.ch
      · subst hcc; simp [hc]
      · simp [hcc]
    · rename_i hwant
      exact hnone (lookup_of_publisher_none hw hwant)
  · rename_i hw
    exact hnone (by simp [publisher, hw])

/-- A SUBACK or UNSUBACK is of no concern to the exchanges. -/
theorem view_signalRequest (h : Waits s) (id : UInt16) {got : AckClass} (hgot : got ≠ .publish)
    (res : AckResult) : view (s.signalWaiter id got res) = view s := by
  unfold State.signalWaiter
  split
  · rename_i w hw
    split
    · rename_i hwant
      have hne : w.want ≠ .publish := by rw [hwant]; exact hgot
      have hreq := h.request id w hw hne
      have hp : (view s).waiting id = none := lookup_of_publisher_none hw hne
      have hwait : publisher (s.waiters.erase id) = (view s).waiting := by
        rw [publisher_erase, ← hp]
        exact Function.update_eq_self _ _
      simp only [State.deliver, view, hwait, Session.mk.injEq, true_and, and_true]
      funext c
      by_cases hcc : c = w.ch
      · subst hcc
        cases hcall : s.calls w.ch <;> simp_all [Call.requests]
      · simp [hcc]
    · rfl
  · rfl

theorem Wired.signalWaiter {b : Option LinkId} (h : Wired b s) (id : UInt16) (got : AckClass)
    (res : AckResult) : Wired b (s.signalWaiter id got res) := by
  unfold State.signalWaiter
  split
  · split
    · refine ⟨h.toLinked.congr rfl rfl rfl (fun _ => ⟨rfl, rfl, rfl⟩) ⟨rfl, rfl⟩ rfl,
        h.toWaits.congr rfl fun i w hw => ?_⟩
      by_cases hi : i = id
      · subst hi; simp [State.deliver] at hw
      · simpa [State.deliver, hi] using hw
    · exact h
  · exact h

/-- The end of an exchange, seen from outside. -/
theorem view_ended {id : UInt16} {kind : StoredKind} (res : AckResult) (hw : Wired none s)
    (hl : s.Current l) (h0 : id ≠ 0) (hk : kind.outbound = true) :
    Wired none (s.release l id kind res) ∧
      view (s.release l id kind res) = (view s).settle id kind res := by
  obtain ⟨-, hq, hid, -⟩ := hl
  have hw' : Wired none { s with
      store := s.store.delete id kind
      ids := s.ids.releaseAt id (s.links l).idGen
      quota := s.quota.releaseAt (s.links l).quotaGen } :=
    ⟨hw.toLinked.congr rfl rfl rfl (fun _ => ⟨rfl, rfl, rfl⟩)
      ⟨Quota.gen_releaseAt _ _, Quota.failed_releaseAt _ _⟩ (IdAllocator.gen_releaseAt _ _ _),
      hw.toWaits.congr rfl fun _ _ h => h⟩
  refine ⟨hw'.signalWaiter _ _ _, ?_⟩
  unfold State.release
  dsimp only
  rw [view_signalPublish hw'.toWaits, view_session]
  have huse : (s.ids.releaseAt id (s.links l).idGen).inUse =
      Function.update s.ids.inUse id false := by
    funext j
    rw [IdAllocator.inUse_releaseAt, hid]
    by_cases hj : j = id <;> simp [hj, h0]
  have hin : (fun i => (s.store.delete id kind).contains i .inboundID) = (view s).inbound := by
    have hne : kind ≠ .inboundID := by rintro rfl; cases hk
    funext i
    simp [view, hne.symm]
  have hav : (s.quota.releaseAt (s.links l).quotaGen).avail = s.quota.avail + 1 := by
    rw [Quota.avail_releaseAt, if_pos hq]
  simp only [outbound_delete, huse, hin, hav, IdAllocator.gen_releaseAt]
  rfl

theorem completeOutbound_refines {f : Frame} {id : UInt16} {kind : StoredKind} {res : AckResult}
    (hk : Wired none t) (hl : t.Current l) (hv : view t = (view s).notes [.received l f])
    (hok : ok (view s) f) (hf : f.ends = some (id, kind, res)) (h0 : id ≠ 0)
    (hout : kind.outbound = true) (hpub : f.promotes = none) (hrel : ∀ a, f ≠ .pubrel a) :
    Refines ok roll s (t.completeOutbound l id kind res) := by
  have hhas : (view s).Has id kind ↔ t.store.contains id kind = true := by
    rw [← has_iff hout, hv]
    rfl
  unfold State.completeOutbound
  split
  · rename_i hc
    obtain ⟨hw', hv'⟩ := view_ended res hk hl h0 hout
    refine ⟨hw', .single ?_⟩
    rw [hv', hv]
    exact .ended hok hf (hhas.mpr hc)
  · rename_i hc
    refine heard_refines [] hk hv hok ⟨?_, ?_, hrel⟩ (by simp)
    · intro id' kind' res' hf'
      rw [hf] at hf'
      cases hf'
      exact fun h => hc (hhas.mp h)
    · intro id' hp
      rw [hpub] at hp
      cases hp

/-- The entry of an exchange that moves on is replaced by its PUBREL leg. -/
theorem view_promote (hi : (view s).Inv) {id : UInt16}
    (hc : s.store.contains id .publish = true) :
    view { s with store := (s.store.save { id, kind := .pubrel }).delete id .publish } =
      (view s).promote id := by
  have habsent : s.store.contains id .pubrel = false := by
    by_contra hrel
    obtain ⟨m, hm, hid, hkind⟩ := (has_iff rfl).mpr hc
    obtain ⟨m', hm', hid', hkind'⟩ := (has_iff rfl).mpr (Bool.not_eq_false _ ▸ hrel)
    have heq : m = m' := Session.Inv.eq_of_id hi.nodup hm hm' (hid.trans hid'.symm)
    rw [heq, hkind'] at hkind
    cases hkind
  rw [view_stored, outbound_delete, outbound_save rfl habsent]
  simp only [Session.promote, Session.mk.injEq, true_and, and_true]
  refine ⟨?_, ?_⟩
  · rw [Session.without, List.filter_append, List.filter_cons_of_pos (by simp), List.filter_nil]
    rfl
  · funext i
    simp [view]

theorem handlePubrec_refines {a : InboundAck} (io : Bool) (hk : Wired none t) (hl : t.Current l)
    (hi : (view t).Inv) (hv : view t = (view s).notes [.received l (.pubrec a)])
    (hok : ok (view s) (.pubrec a)) :
    Refines ok roll s (t.handlePubrec l a (reasonStringOf a.properties) io) := by
  have hhas : (view s).Has a.packetID .publish ↔ t.store.contains a.packetID .publish = true := by
    rw [← has_iff rfl, hv]
    rfl
  unfold State.handlePubrec State.sendAck State.sendAckReason
  dsimp only
  split
  · rename_i hc
    split
    · rename_i herr
      have hout : StoredKind.outbound .publish = true := rfl
      obtain ⟨hw', hv'⟩ := view_ended
        { code := a.reasonCode, reason := reasonStringOf a.properties } hk hl a.id_ne hout
      refine ⟨hw', .single ?_⟩
      rw [hv', hv]
      exact .ended hok (by simp [Frame.ends, herr]) (hhas.mpr hc)
    · rename_i herr
      refine Refines.writeFrame ⟨hk.store _, .single ?_⟩ l _ io
      rw [view_promote hi hc, hv]
      exact .promoted hok (by simp [Frame.promotes, herr]) (hhas.mpr hc)
  · rename_i hc
    have hheard : Refines ok roll s t := by
      refine heard_refines [] hk hv hok ⟨?_, ?_, by simp⟩ (by simp)
      · intro id kind res hf
        simp only [Frame.ends] at hf
        split at hf <;> cases hf
        exact fun h => hc (hhas.mp h)
      · intro id hf
        simp only [Frame.promotes] at hf
        split at hf <;> cases hf
        exact fun h => hc (hhas.mp h)
    split
    · exact hheard.writeFrame l _ io
    · exact hheard.writeFrame l _ io

theorem handleFrame_refines {f : Frame} (torn io : Bool) (hw : Wired none s) (hi : (view s).Inv)
    (hl : s.link = some l) (hok : ok (view s) f) :
    Refines ok roll s ((s.log (.received l f)).handleFrame l f torn io) := by
  have hk : Wired none (s.log (.received l f)) := hw.log _
  have hv := view_received s l f
  obtain ⟨hcur, hstop⟩ := hw.live l hl
  have hik : (view (s.log (.received l f))).Inv := by
    rw [hv]
    exact hi.notes (by simp [Session.Neutral])
  have hrequest : ∀ (p : SubackPacket) (got : AckClass), got ≠ .publish → (view s).Inert f →
      Refines ok roll s ((s.log (.received l f)).handleRequestAck p got) := by
    intro p got hgot hf
    refine heard_refines (l := l) [] (hk.signalWaiter _ _ _) ?_ hok hf (by simp)
    rw [← hv]
    exact view_signalRequest hk.toWaits _ hgot _
  have hheard : (view s).Inert f → Refines ok roll s (s.log (.received l f)) := fun hf =>
    heard_refines [] hk hv hok hf (by simp)
  have hinert : f.ends = none → f.promotes = none → (∀ a, f ≠ .pubrel a) → (view s).Inert f :=
    fun he hp hr => ⟨by simp [he], by simp [hp], hr⟩
  cases f with
  | publish p => exact handlePublish_refines torn io hk hstop hv hok
  | puback a =>
    exact completeOutbound_refines hk hcur hv hok rfl a.id_ne rfl rfl (by simp)
  | pubrec a => exact handlePubrec_refines io hk hcur hik hv hok
  | pubrel a => exact handleInboundPubrel_refines io hk hv hok
  | pubcomp a =>
    exact completeOutbound_refines hk hcur hv hok rfl a.id_ne rfl rfl (by simp)
  | suback p => exact hrequest p .suback (by simp) (hinert rfl rfl (by simp))
  | unsuback p => exact hrequest p .unsuback (by simp) (hinert rfl rfl (by simp))
  | pingresp =>
    exact (hheard (hinert rfl rfl (by simp))).setLink l (f := fun k => { k with outstandingPings := 0 })
      fun _ => ⟨rfl, rfl, rfl⟩
  | disconnect => exact (hheard (hinert rfl rfl (by simp))).teardownLink l _
  | unexpected ty => exact (hheard (hinert rfl rfl (by simp))).protocolError l _ io
  | malformed => exact (hheard (hinert rfl rfl (by simp))).protocolError l _ io

end frames

end GoMqtt.Client
