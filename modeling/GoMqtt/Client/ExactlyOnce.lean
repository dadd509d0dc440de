import GoMqtt.Client.Events
import GoMqtt.Client.Refinement

/-! # Receiving exactly once

Method A of the QoS 2 receiver: a message is handed on when its identifier is
new, the identifier is recorded until the PUBREL, and every PUBLISH and PUBREL is
answered. The recorded identifiers are a function of the history, so two
messages under one identifier are handed on only with a PUBREL or a discarded
session in between. An answer is written if it fits the broker's Maximum Packet
Size; `writeFrame` drops it otherwise and leaves the link up. -/
namespace GoMqtt.Client
open GoMqtt.Protocol GoMqtt.Session GoMqtt.Lib

/-! ## The identifiers awaiting release -/

/-- What one event says about `id`. -/
def awaitsAfter (id : UInt16) (b : Bool) : Event → Bool
  | .recorded _ i => if i = id then true else b
  | .received _ (.pubrel a) => if a.packetID = id then false else b
  | .discarded => false
  | _ => b

/-- Whether `id` was recorded and neither released nor discarded since. -/
def awaitsRelease (hist : List Event) (id : UInt16) : Bool := hist.foldl (awaitsAfter id) false

theorem awaitsRelease_snoc (hist : List Event) (e : Event) (id : UInt16) :
    awaitsRelease (hist ++ [e]) id = awaitsAfter id (awaitsRelease hist id) e := by
  simp [awaitsRelease]

/-- A PUBREL for `id`, or the end of the session. -/
def Releases (id : UInt16) (e : Event) : Prop :=
  e = .discarded ∨ ∃ l a, e = .received l (.pubrel a) ∧ a.packetID = id

/-- An event the receiver has no part in. -/
def Event.dry : Event → Bool
  | .recorded .. | .received _ (.pubrel _) | .discarded | .dispatched .. => false
  | _ => true

theorem awaitsRelease_append {hist es : List Event} (id : UInt16)
    (h : ∀ e ∈ es, e.dry = true ∨ ∃ l p hs torn, e = .dispatched l p hs torn) :
    awaitsRelease (hist ++ es) id = awaitsRelease hist id := by
  induction es using List.reverseRecOn with
  | nil => simp
  | append_singleton es e ih =>
    have ih := ih fun e hm => h e (by simp [hm])
    rw [← List.append_assoc, awaitsRelease_snoc, ih]
    rcases h e (by simp) with hd | ⟨l, p, hs, torn, rfl⟩
    · cases e with
      | received l f => cases f <;> first | rfl | cases hd
      | recorded | discarded | dispatched => cases hd
      | _ => rfl
    · rfl

/-- Whoever was waiting for release and is no longer was released on the way. -/
theorem released_between {id : UInt16} (xs ys : List Event) (hx : awaitsRelease xs id = true)
    (hy : awaitsRelease (xs ++ ys) id = false) : ∃ e ∈ ys, Releases id e := by
  induction ys generalizing xs with
  | nil => rw [List.append_nil, hx] at hy; cases hy
  | cons e ys ih =>
    by_cases hr : Releases id e
    · exact ⟨e, List.mem_cons_self, hr⟩
    · have hstep : awaitsRelease (xs ++ [e]) id = true := by
        rw [awaitsRelease_snoc, hx]
        cases e with
        | discarded => exact absurd (.inl rfl) hr
        | received l f =>
          cases f with
          | pubrel a =>
            have hne : a.packetID ≠ id := fun h => hr (.inr ⟨l, a, rfl, h⟩)
            simp [awaitsAfter, hne]
          | _ => rfl
        | recorded l i => simp [awaitsAfter]
        | _ => rfl
      obtain ⟨x, hx, hrel⟩ := ih (xs ++ [e]) hstep (by simpa using hy)
      exact ⟨x, List.mem_cons_of_mem _ hx, hrel⟩

namespace Session

/-! ## The receiver's record -/

structure Receiver (v : Session) : Prop where
  recorded : ∀ id, v.inbound id = awaitsRelease v.hist id
  fresh : ∀ before l p hs torn after, v.hist = before ++ .dispatched l p hs torn :: after →
    p.qos = 2 → awaitsRelease before p.packetID = false ∧
      (torn = false → ∃ rest, after = .recorded l p.packetID :: rest)
  handed : ∀ before l id after, v.hist = before ++ .recorded l id :: after →
    ∃ rest p hs, before = rest ++ [.dispatched l p hs false] ∧ p.qos = 2 ∧ p.packetID = id

/-- A change the receiver has no part in. -/
def Dry (v w : Session) : Prop :=
  w.inbound = v.inbound ∧ ∃ es, w.hist = v.hist ++ es ∧ ∀ e ∈ es, e.dry = true

theorem Dry.refl (v : Session) : Dry v v := ⟨rfl, [], by simp, by simp⟩

theorem Dry.notes (v : Session) {es : List Event} (h : ∀ e ∈ es, e.dry = true) :
    Dry v (v.notes es) := ⟨rfl, es, rfl, h⟩

theorem Dry.trans {v w x : Session} (h : Dry v w) (h' : Dry w x) : Dry v x := by
  obtain ⟨hin, es, he, hes⟩ := h
  obtain ⟨hin', es', he', hes'⟩ := h'
  refine ⟨hin'.trans hin, es ++ es', by rw [he', he, List.append_assoc], fun e hm => ?_⟩
  rcases List.mem_append.mp hm with hm | hm
  · exact hes e hm
  · exact hes' e hm

/-- An element of a longer list is in the old part or in the new one. -/
theorem split_append {hist es before after : List Event} {e : Event}
    (h : hist ++ es = before ++ e :: after) :
    (∃ mid, hist = before ++ e :: mid ∧ after = mid ++ es) ∨
      ∃ mid, before = hist ++ mid ∧ es = mid ++ e :: after := by
  rcases List.append_eq_append_iff.mp h with ⟨mid, hb, he⟩ | ⟨mid, hh, ha⟩
  · exact .inr ⟨mid, hb, he⟩
  · cases mid with
    | nil => exact .inr ⟨[], by simpa using hh.symm, by simpa using ha.symm⟩
    | cons x mid =>
      cases ha
      exact .inl ⟨mid, hh, rfl⟩

namespace Receiver

variable {v w : Session}

theorem dry (h : Receiver v) (hd : Dry v w) : Receiver w := by
  obtain ⟨hin, es, he, hes⟩ := hd
  refine ⟨fun id => ?_, fun before l p hs torn after heq hq => ?_, fun before l id after heq => ?_⟩
  · rw [hin, he, awaitsRelease_append id fun e hm => .inl (hes e hm)]
    exact h.recorded id
  · rw [he] at heq
    rcases split_append heq with ⟨mid, hh, rfl⟩ | ⟨mid, -, hm⟩
    · obtain ⟨hnew, hrec⟩ := h.fresh before l p hs torn mid hh hq
      refine ⟨hnew, fun ht => ?_⟩
      obtain ⟨rest, rfl⟩ := hrec ht
      exact ⟨rest ++ es, rfl⟩
    · have := hes (.dispatched l p hs torn) (by rw [hm]; simp)
      cases this
  · rw [he] at heq
    rcases split_append heq with ⟨mid, hh, rfl⟩ | ⟨mid, -, hm⟩
    · exact h.handed before l id mid hh
    · have := hes (.recorded l id) (by rw [hm]; simp)
      cases this

/-- A message is handed on without being recorded. -/
theorem unrecorded {l : LinkId} {f : Frame} {es : List Event} (h : Receiver v) (hf : v.Inert f)
    (hes : ∀ e ∈ es, v.Unrecorded l e) : Receiver (v.notes (.received l f :: es)) := by
  have hdisp : ∀ e ∈ (.received l f :: es : List Event),
      e.dry = true ∨ ∃ l p hs torn, e = .dispatched l p hs torn := by
    intro e hm
    rcases List.mem_cons.mp hm with rfl | hm
    · left
      cases f with
      | pubrel a => exact absurd rfl (hf.2.2 a)
      | _ => rfl
    · obtain ⟨p, hs, torn, rfl, -⟩ := hes e hm
      exact .inr ⟨_, _, _, _, rfl⟩
  refine ⟨fun id => ?_, fun before l' p hs torn after heq hq => ?_,
    fun before l' id after heq => ?_⟩
  · show v.inbound id = _
    rw [Session.notes, awaitsRelease_append id hdisp]
    exact h.recorded id
  · rcases split_append heq with ⟨mid, hh, rfl⟩ | ⟨mid, rfl, hm⟩
    · obtain ⟨hnew, hrec⟩ := h.fresh before l' p hs torn mid hh hq
      refine ⟨hnew, fun ht => ?_⟩
      obtain ⟨rest, rfl⟩ := hrec ht
      exact ⟨rest ++ _, rfl⟩
    · have hmem : Event.dispatched l' p hs torn ∈ es := by
        have : Event.dispatched l' p hs torn ∈ (.received l f :: es : List Event) := by
          rw [hm]; simp
        simpa using this
      obtain ⟨p', hs', torn', heq', hun⟩ := hes _ hmem
      cases heq'
      obtain ⟨ht, hfalse⟩ := hun hq
      refine ⟨?_, fun hff => absurd (ht.symm.trans hff) (by simp)⟩
      rw [awaitsRelease_append p.packetID fun e he => hdisp e (by rw [hm]; simp [he]),
        ← h.recorded]
      exact hfalse
  · rcases split_append heq with ⟨mid, hh, rfl⟩ | ⟨mid, -, hm⟩
    · exact h.handed before l' id mid hh
    · rcases hdisp (.recorded l' id) (by rw [hm]; simp) with hd | ⟨_, _, _, _, hd⟩ <;> cases hd

/-- A new message is handed on and recorded. -/
theorem delivered {l : LinkId} {f : InboundPublish} {p : PublishPacket} {hs : List Handler}
    (h : Receiver v) (hq : p.qos = 2) (hnew : v.inbound p.packetID = false) :
    Receiver ((v.notes [.received l (.publish f), .dispatched l p hs false,
      .recorded l p.packetID]).record p.packetID) := by
  have hhist : ((v.notes [.received l (.publish f), .dispatched l p hs false,
      .recorded l p.packetID]).record p.packetID).hist = (v.hist ++ [Event.received l (.publish f),
        .dispatched l p hs false]) ++ [Event.recorded l p.packetID] := by
    simp [Session.notes, Session.record]
  have hsame : ∀ id, awaitsRelease (v.hist ++ [Event.received l (.publish f),
      .dispatched l p hs false]) id = awaitsRelease v.hist id := fun id =>
    awaitsRelease_append id (by simp [Event.dry])
  refine ⟨fun id => ?_, fun before l' q hs' torn after heq hq' => ?_,
    fun before l' id after heq => ?_⟩
  · rw [hhist, awaitsRelease_snoc, hsame, ← h.recorded]
    by_cases hid : id = p.packetID
    · simp [Session.record, Session.notes, awaitsAfter, hid]
    · simp [Session.record, Session.notes, awaitsAfter, hid, Ne.symm hid]
  · rcases split_append (show v.hist ++ _ = _ from heq) with ⟨mid, hh, rfl⟩ | ⟨mid, rfl, hm⟩
    · obtain ⟨hold, hrec⟩ := h.fresh before l' q hs' torn mid hh hq'
      refine ⟨hold, fun ht => ?_⟩
      obtain ⟨rest, rfl⟩ := hrec ht
      exact ⟨rest ++ _, rfl⟩
    · rcases mid with _ | ⟨x, _ | ⟨y, _ | ⟨z, mid⟩⟩⟩ <;> simp at hm
      obtain ⟨rfl, ⟨rfl, rfl, rfl, rfl⟩, rfl⟩ := hm
      refine ⟨?_, fun _ => ⟨[], rfl⟩⟩
      rw [awaitsRelease_append p.packetID (by simp [Event.dry]), ← h.recorded]
      exact hnew
  · rcases split_append (show v.hist ++ _ = _ from heq) with ⟨mid, hh, rfl⟩ | ⟨mid, rfl, hm⟩
    · exact h.handed before l' id mid hh
    · rcases mid with _ | ⟨x, _ | ⟨y, _ | ⟨z, mid⟩⟩⟩ <;> simp at hm
      obtain ⟨rfl, rfl, ⟨rfl, rfl⟩, rfl⟩ := hm
      exact ⟨v.hist ++ [Event.received l (.publish f)], p, hs, by simp, hq, rfl⟩

/-- An event that is no message and no record, and what it does to the record. -/
theorem step {e : Event} (h : Receiver v) (hd : ∀ l p hs torn, e ≠ .dispatched l p hs torn)
    (hr : ∀ l id, e ≠ .recorded l id) (hhist : w.hist = v.hist ++ [e])
    (hin : ∀ id, w.inbound id = awaitsAfter id (v.inbound id) e) : Receiver w := by
  refine ⟨fun id => ?_, fun before l p hs torn after heq hq => ?_, fun before l id after heq => ?_⟩
  · rw [hhist, awaitsRelease_snoc, ← h.recorded, hin]
  · rw [hhist] at heq
    rcases split_append heq with ⟨mid, hh, rfl⟩ | ⟨mid, -, hm⟩
    · obtain ⟨hold, hrec⟩ := h.fresh before l p hs torn mid hh hq
      refine ⟨hold, fun ht => ?_⟩
      obtain ⟨rest, rfl⟩ := hrec ht
      exact ⟨rest ++ _, rfl⟩
    · have : Event.dispatched l p hs torn ∈ [e] := by rw [hm]; simp
      exact absurd (List.mem_singleton.mp this).symm (hd _ _ _ _)
  · rw [hhist] at heq
    rcases split_append heq with ⟨mid, hh, rfl⟩ | ⟨mid, -, hm⟩
    · exact h.handed before l id mid hh
    · have : Event.recorded l id ∈ [e] := by rw [hm]; simp
      exact absurd (List.mem_singleton.mp this).symm (hr _ _)

theorem opens_dry {c : CallId} {qos : UInt8} {pre : List Event} (ho : v.Opens c qos pre) :
    ∀ e ∈ pre, e.dry = true := by
  rcases ho with ⟨-, req, rfl, -⟩ | ⟨rfl, -⟩ <;> simp [Event.dry]

theorem move {ok : Session → Frame → Prop} {roll : Subscription → Subscription → Prop}
    (h : Receiver v) (hm : Move ok roll v w) : Receiver w := by
  cases hm with
  | @refuse c _ pre g e ho hg =>
    have hpre : Dry v (v.notes (pre ++ g)) := by
      refine .notes v fun x hx => ?_
      rcases List.mem_append.mp hx with hx | hx
      · exact opens_dry ho x hx
      · obtain ⟨l, rfl⟩ := hg x hx
        rfl
    exact h.dry (hpre.trans (.notes _ (by simp [Event.dry])))
  | @shoot c pre err ho =>
    exact h.dry ((Dry.notes v (opens_dry ho)).trans (.notes _ (by simp [Event.dry])))
  | @park c pre l pkt ho _ => exact h.dry (Dry.notes v (opens_dry ho))
  | @send c l p pre ho _ _ _ _ _ =>
    have hpre : Dry v (v.notes (pre ++ [Event.granted c l])) := by
      refine .notes v fun x hx => ?_
      rcases List.mem_append.mp hx with hx | hx
      · exact opens_dry ho x hx
      · rw [List.mem_singleton.mp hx]
        rfl
    exact h.dry (hpre.trans (.notes _ (by simp [Event.dry])))
  | abandon => exact h.dry (Dry.notes v (by simp [Event.dry]))
  | answer => exact h.dry (Dry.notes v (by simp [Event.dry]))
  | reject => exact h.dry (Dry.notes v (by simp [Event.dry]))
  | subscribe => exact h.dry (Dry.notes v (by simp [Event.dry]))
  | subscribeFailed =>
    rw [withdraw_eq]
    exact h.dry ((Dry.notes v (by simp [Event.dry])).trans (.notes _ (by simp [Event.dry])))
  | unsubscribe => exact h.dry (Dry.refl v)
  | resubscribe => exact h.dry (Dry.refl v)
  | requestFailed =>
    rw [withdraw_eq, unhold_eq]
    exact h.dry (Dry.notes v (by simp [Event.dry]))
  | requestDone =>
    rw [confirm_eq, unhold_eq]
    exact h.dry (Dry.notes v (by simp [Event.dry]))
  | resubscribed =>
    rw [unhold_eq]
    exact h.dry (Dry.refl v)
  | heard _ hf hes => exact h.unrecorded hf hes
  | @ended l f _ _ _ _ hf _ =>
    have hdry : (Event.received l f).dry = true := by cases f <;> first | rfl | cases hf
    exact h.dry (Dry.notes v (by simpa using hdry))
  | @promoted l f _ _ hf _ =>
    have hdry : (Event.received l f).dry = true := by cases f <;> first | rfl | cases hf
    exact h.dry (Dry.notes v (by simpa using hdry))
  | delivered _ hq hnew => exact h.delivered hq hnew
  | @released l a _ =>
    refine h.step (e := .received l (.pubrel a)) (by simp) (by simp) rfl fun id => ?_
    by_cases hid : id = a.packetID
    · simp [unrecord, notes, awaitsAfter, hid]
    · simp [unrecord, notes, awaitsAfter, hid, Ne.symm hid]
  | tear => exact h.dry (Dry.refl v)
  | resume => exact h.dry (Dry.notes v (by simp [Event.dry]))
  | restart =>
    have hdiscard : Receiver v.discard :=
      h.step (e := .discarded) (by simp) (by simp) rfl fun _ => rfl
    exact hdiscard.dry (Dry.notes _ (by simp [Event.dry]))
  | establish => exact h.dry (Dry.notes v (by simp [Event.dry]))

end Receiver

end Session

/-! ## The client -/

theorem awaitsRelease_view (s : State) (id : UInt16) :
    awaitsRelease (view s).hist id = awaitsRelease s.hist id := by
  unfold awaitsRelease view
  rw [List.foldl_filter]
  congr 1
  funext b e
  cases e <;> rfl

theorem Reach.receiver {ok : State → Action → Prop} {cfg : TCPConfig} {as : List Action}
    {s : State} (h : Reach ok cfg as s) : (view s).Receiver :=
  (h.session (fun _ _ => True) anyRoll (P := Session.Receiver)
    (fun s a _ => allowed_of_frame fun _ _ _ _ => trivial)
    ⟨by simp [view, newTCPClient, awaitsRelease], by simp [view, newTCPClient],
      by simp [view, newTCPClient]⟩ fun _ _ _ hr hm => hr.move hm).2.2

/-- What the step from `s` to `t` wrote, and on which link. -/
def written (s t : State) : List (LinkId × Packet) :=
  (t.hist.drop s.hist.length).filterMap fun
    | .wrote l p => some (l, p)
    | _ => none

theorem written_append {s t : State} {es : List Event} (h : t.hist = s.hist ++ es) :
    written s t = es.filterMap fun
      | .wrote l p => some (l, p)
      | _ => none := by
  unfold written
  rw [h, List.drop_left]

theorem writeFrame_fits {s : State} {l : LinkId} {p : Packet} (h : (s.links l).fits p)
    (hstop : (s.links l).stop = false) : s.writeFrame l p true = (none, s.log (.wrote l p)) := by
  obtain ⟨bytes, henc, hmax⟩ := h
  unfold State.writeFrame
  rw [henc]
  dsimp only
  rw [if_neg, if_neg]
  · simp [hstop]
  · rintro ⟨h0, hgt⟩
    exact absurd (hmax.resolve_left h0) (UInt32.not_le.mpr hgt)

def pubrec (s : State) (id : UInt16) : Packet :=
  .ack ⟨s.cfg.protocolVersion, .pubrec, id, .success, none⟩

/-- The PUBCOMP that is due: the broker is told when there was nothing to release. -/
def pubcomp (s : State) (id : UInt16) : Packet :=
  .ack ⟨s.cfg.protocolVersion, .pubcomp, id,
    if awaitsRelease s.hist id then .success else .packetIdentifierNotFound, none⟩

/-- One answer after events that write nothing. -/
theorem written_answer {s t : State} {l : LinkId} {p : Packet} (es : List Event)
    (h : t.hist = s.hist ++ (es ++ [Event.wrote l p])) (hes : ∀ e ∈ es, e.origin ≠ .transport) :
    written s t = [(l, p)] := by
  rw [written_append h, List.filterMap_append, List.filterMap_eq_nil_iff.mpr]
  · rfl
  · intro e he
    cases e with
    | wrote => exact absurd rfl (hes _ he)
    | _ => rfl

theorem sendAckReason_fits {s t : State} {l : LinkId} {ty : PacketType} {id : UInt16}
    {reason : ReasonCode} (hcfg : t.cfg = s.cfg) (hstop : (t.links l).stop = false)
    (hfits : (t.links l).fits (.ack ⟨s.cfg.protocolVersion, ty, id, reason, none⟩)) :
    t.sendAckReason l ty id reason true =
      t.log (.wrote l (.ack ⟨s.cfg.protocolVersion, ty, id, reason, none⟩)) := by
  unfold State.sendAckReason
  rw [hcfg]
  exact congrArg Prod.snd (writeFrame_fits hfits hstop)

theorem inboundQoS2_written {s t : State} {l : LinkId} {p : PublishPacket} {torn : Bool}
    (es : List Event) (hcfg : t.cfg = s.cfg) (hhist : t.hist = s.hist ++ es)
    (hes : ∀ e ∈ es, e.origin ≠ .transport) (hstop : (t.links l).stop = false)
    (hfits : (t.links l).fits (pubrec s p.packetID))
    (htorn : torn = false ∨ t.store.contains p.packetID .inboundID = true) :
    written s (t.handleInboundQoS2 l p torn true) = [(l, pubrec s p.packetID)] := by
  unfold State.handleInboundQoS2 State.sendAck
  split
  · rw [sendAckReason_fits hcfg hstop hfits]
    exact written_answer es (by simp [State.log, hhist, pubrec]) hes
  · rename_i hnew
    obtain rfl : torn = false := htorn.resolve_right hnew
    have hdisp : t.dispatch l p false =
        t.log (.dispatched l p (State.handlersFor t.subs.subs p) false) := rfl
    dsimp only
    rw [hdisp, if_neg (by simpa [State.log] using hstop), sendAckReason_fits (s := s)]
    · have hnew : ∀ e ∈ es ++ [Event.dispatched l p (State.handlersFor t.subs.subs p) false,
          .recorded l p.packetID], e.origin ≠ .transport := by
        intro e he
        rcases List.mem_append.mp he with he | he
        · exact hes e he
        · simp only [List.mem_cons, List.not_mem_nil, or_false] at he
          rcases he with rfl | rfl <;> simp [Event.origin]
      exact written_answer _ (by simp [State.log, hhist, pubrec]) hnew
    · exact hcfg
    · exact hstop
    · exact hfits

theorem publish_answered {s : State} {l : LinkId} {p : InboundPublish} {torn : Bool}
    (hw : Wired none s) (hl : s.link = some l) (hq : p.pkt.qos = 2)
    (halias : (s.resolveTopicAlias l p.pkt).1 ≠ none)
    (hfits : (s.links l).fits (pubrec s p.pkt.packetID))
    (htorn : torn = false ∨ s.store.contains p.pkt.packetID .inboundID = true) :
    written s (s.step (.frame (.publish p) torn true)) = [(l, pubrec s p.pkt.packetID)] := by
  have hstop := (hw.live l hl).2
  have hfst : ((s.log (.received l (.publish p))).resolveTopicAlias l p.pkt).1 =
      (s.resolveTopicAlias l p.pkt).1 := by
    unfold State.resolveTopicAlias
    cases p.pkt.properties.bind Properties.topicAlias with
    | none => rfl
    | some a =>
      by_cases hrange : a = 0 ∨ a > s.cfg.topicAliasMaximum
      · simp [State.log, hrange]
      · by_cases hempty : p.pkt.topic = [] <;> simp [State.log, hrange, hempty]
  rw [State.step_frame hl]
  show written s ((s.log (.received l (.publish p))).handlePublish l p.pkt torn true) = _
  unfold State.handlePublish
  split <;> rename_i hr
  · rw [hr] at hfst
    exact absurd hfst.symm halias
  · rename_i topic u
    have h0 : p.pkt.qos ≠ 0 := by rw [hq]; decide
    have h1 : p.pkt.qos ≠ 1 := by rw [hq]; decide
    dsimp only
    rw [if_neg h0, if_neg h1]
    have hu := resolveTopicAlias_cases (s.log (.received l (.publish p))) l p.pkt
    rw [hr] at hu
    rcases hu with rfl | ⟨f, hf, hmax, rfl⟩
    · exact inboundQoS2_written (p := { p.pkt with topic }) [.received l (.publish p)] rfl rfl
        (by simp [Event.origin]) hstop hfits htorn
    · refine inboundQoS2_written (p := { p.pkt with topic }) [.received l (.publish p)] rfl rfl
        (by simp [Event.origin]) ?_ ?_ htorn
      · simpa [State.setLink, State.log, (hf _).1] using hstop
      · obtain ⟨bytes, henc, hsize⟩ := hfits
        exact ⟨bytes, henc, by simpa [State.setLink, State.log, hmax] using hsize⟩

theorem pubrel_answered {s : State} {l : LinkId} {a : InboundAck} (torn : Bool)
    (hw : Wired none s) (hr : (view s).Receiver) (hl : s.link = some l)
    (hfits : (s.links l).fits (pubcomp s a.packetID)) :
    written s (s.step (.frame (.pubrel a) torn true)) = [(l, pubcomp s a.packetID)] := by
  have hstop := (hw.live l hl).2
  have hrec : s.store.contains a.packetID .inboundID = awaitsRelease s.hist a.packetID := by
    rw [← awaitsRelease_view]
    exact hr.recorded a.packetID
  have hanswer : ∀ (u : State) (reason : ReasonCode), u.cfg = s.cfg → u.links = s.links →
      u.hist = s.hist ++ [Event.received l (.pubrel a)] →
      pubcomp s a.packetID = .ack ⟨s.cfg.protocolVersion, .pubcomp, a.packetID, reason, none⟩ →
      written s (u.sendAckReason l .pubcomp a.packetID reason true) =
        [(l, pubcomp s a.packetID)] := by
    intro u reason hcfg hlinks hhist hpkt
    rw [sendAckReason_fits hcfg (by rw [hlinks]; exact hstop), ← hpkt]
    · exact written_answer [.received l (.pubrel a)] (by simp [State.log, hhist])
        (by simp [Event.origin])
    · rw [← hpkt]
      rw [hlinks]
      exact hfits
  rw [State.step_frame hl]
  show written s ((s.log (.received l (.pubrel a))).handleInboundPubrel l a true) = _
  unfold State.handleInboundPubrel State.sendAck
  split <;> rename_i hc
  · have hfalse : awaitsRelease s.hist a.packetID = false := by
      rw [← hrec]
      simpa [State.log] using hc
    exact hanswer _ _ rfl rfl rfl (by simp [pubcomp, hfalse])
  · have htrue : awaitsRelease s.hist a.packetID = true := by
      rw [← hrec]
      simpa [State.log] using hc
    exact hanswer _ _ rfl rfl rfl (by simp [pubcomp, htrue])

/-! ## Exactly once -/

/-- Between two messages under one identifier there was a release. -/
theorem Session.Receiver.released {v : Session} (h : v.Receiver) {before mid after : List Event}
    {l₁ l₂ : LinkId} {p₁ p₂ : PublishPacket} {hs₁ hs₂ : List Handler} {torn₂ : Bool}
    (hhist : v.hist = before ++ Event.dispatched l₁ p₁ hs₁ false ::
      (mid ++ Event.dispatched l₂ p₂ hs₂ torn₂ :: after)) (h₁ : p₁.qos = 2) (h₂ : p₂.qos = 2)
    (hid : p₁.packetID = p₂.packetID) : ∃ e ∈ mid, Releases p₁.packetID e := by
  obtain ⟨rest, hrest⟩ := (h.fresh before l₁ p₁ hs₁ false _ hhist h₁).2 rfl
  have hsecond : v.hist = (before ++ Event.dispatched l₁ p₁ hs₁ false :: mid) ++
      .dispatched l₂ p₂ hs₂ torn₂ :: after := by simpa using hhist
  have hfree := (h.fresh _ l₂ p₂ hs₂ torn₂ after hsecond h₂).1
  cases mid with
  | nil => cases hrest
  | cons e mid =>
    cases hrest
    have hsplit : before ++ Event.dispatched l₁ p₁ hs₁ false :: .recorded l₁ p₁.packetID :: mid =
        (before ++ [Event.dispatched l₁ p₁ hs₁ false] ++ [Event.recorded l₁ p₁.packetID]) ++ mid := by
      simp
    rw [hsplit, ← hid] at hfree
    obtain ⟨e, he, hrel⟩ := released_between _ mid
      (by rw [awaitsRelease_snoc]; simp [awaitsAfter]) hfree
    exact ⟨e, List.mem_cons_of_mem _ he, hrel⟩

/-- Two QoS 2 messages under one identifier are handed on only with a PUBREL or a
discarded session in between, unless the link went down under the first handler;
what is recorded was handed on; a PUBLISH and a PUBREL are answered once, where
the answer fits the link and the socket takes it. -/
theorem received_exactly_once {cfg : TCPConfig} {as : List Action} {s : State}
    (hrun : Reach anyStep cfg as s) :
    (∀ before l₁ p₁ hs₁ mid l₂ p₂ hs₂ torn₂ after,
      s.hist = before ++ .dispatched l₁ p₁ hs₁ false ::
        (mid ++ .dispatched l₂ p₂ hs₂ torn₂ :: after) →
      p₁.qos = 2 → p₂.qos = 2 → p₁.packetID = p₂.packetID →
      ∃ e ∈ mid, Releases p₁.packetID e) ∧
    (∀ before l id after, s.hist = before ++ .recorded l id :: after →
      ∃ p hs, .dispatched l p hs false ∈ before ∧ p.qos = 2 ∧ p.packetID = id) ∧
    (∀ l p torn, s.link = some l → p.pkt.qos = 2 → (s.resolveTopicAlias l p.pkt).1 ≠ none →
      (s.links l).fits (pubrec s p.pkt.packetID) →
      torn = false ∨ s.store.contains p.pkt.packetID .inboundID = true →
      written s (s.step (.frame (.publish p) torn true)) = [(l, pubrec s p.pkt.packetID)]) ∧
    ∀ l a torn, s.link = some l → (s.links l).fits (pubcomp s a.packetID) →
      written s (s.step (.frame (.pubrel a) torn true)) = [(l, pubcomp s a.packetID)] := by
  have hr := hrun.receiver
  obtain ⟨hw, -⟩ := hrun.wired
  refine ⟨fun before l₁ p₁ hs₁ mid l₂ p₂ hs₂ torn₂ after hhist h₁ h₂ hid => ?_,
    fun before l id after hhist => ?_, fun l p torn hl hq ha hf ht => publish_answered hw hl hq ha hf ht,
    fun l a torn hl hf => pubrel_answered torn hw hr hl hf⟩
  · have hview : (view s).hist = before.filter Event.session ++ Event.dispatched l₁ p₁ hs₁ false ::
        (mid.filter Event.session ++ Event.dispatched l₂ p₂ hs₂ torn₂ ::
          after.filter Event.session) := by
      show s.hist.filter Event.session = _
      rw [hhist, List.filter_append, List.filter_cons_of_pos rfl, List.filter_append,
        List.filter_cons_of_pos rfl]
    obtain ⟨e, he, hrel⟩ := hr.released hview h₁ h₂ hid
    exact ⟨e, (List.mem_filter.mp he).1, hrel⟩
  · have hview : (view s).hist = before.filter Event.session ++ Event.recorded l id ::
        after.filter Event.session := by
      show s.hist.filter Event.session = _
      rw [hhist, List.filter_append, List.filter_cons_of_pos rfl]
    obtain ⟨rest, p, hs, hb, hq, hid⟩ := hr.handed _ l id _ hview
    have hmem : Event.dispatched l p hs false ∈ before.filter Event.session := by rw [hb]; simp
    exact ⟨p, hs, (List.mem_filter.mp hmem).1, hq, hid⟩

/-- An inbound QoS 2 message. -/
def inbound2 : InboundPublish where
  pkt := { version := .v50, topic := [0x74], qos := 2, packetID := 5 }

theorem received_exactly_once_once :
    let s := runActions durable [.connect (accept (receiveMax 5) false) 9]
    written s (s.step (.frame (.publish inbound2) false true)) = [(0, pubrec s 5)] :=
  have hrun : Reach anyStep durable [.connect (accept (receiveMax 5) false) 9] _ :=
    Reach.of_okAlong (by decide +kernel)
  (received_exactly_once hrun).2.2.1 0 inbound2 false (by decide +kernel) rfl (by decide +kernel)
    ⟨_, rfl, .inl (by decide +kernel)⟩ (.inl rfl)

/-- A PUBREC of four bytes does not fit a Maximum Packet Size of three: the message
is handed on and recorded, the link stays up, and nothing is written. -/
theorem pubrec_dropped_by_size :
    let s := runActions durable [.connect (accept (maxPacket 3) false) 9]
    let t := s.step (.frame (.publish inbound2) false true)
    s.link = some 0 ∧ t.link = some 0 ∧ .recorded 0 5 ∈ t.hist ∧ written s t = [] := by
  decide +kernel

end GoMqtt.Client
