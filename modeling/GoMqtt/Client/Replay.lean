import GoMqtt.Client.Acknowledgement
import GoMqtt.Client.Events

/-! # What a resumed connection replays

The unfinished exchanges can be read off the history alone: what was sent, what
was acknowledged, when the session was discarded. A connect that resumes the
session writes exactly these, in order, and then one SUBSCRIBE for each
registration. The broker is taken to acknowledge in kind. A rejected Subscribe
that falls back to a registration with another subscription identifier leaves an
entry nobody asked for, so the registrations are as they were made only where
that does not happen. -/
namespace GoMqtt.Client
open GoMqtt.Protocol GoMqtt.Session GoMqtt.Lib
open scoped List

/-! ## The exchanges a history leaves unfinished -/

/-- An outbound exchange by the leg it is on. -/
inductive Exchange
  | publish (p : PublishPacket)
  | pubrel (id : UInt16)
  deriving DecidableEq, Repr

namespace Exchange

/-- The entry the client keeps for it. -/
def stored : Exchange → StoredMessage
  | .publish p => storedPublish p
  | .pubrel id => { id, kind := .pubrel }

/-- What it is resumed with: the PUBLISH again, marked as a duplicate, or a bare PUBREL. -/
def frame (v : Version) : Exchange → Packet
  | .publish p => .publish { p with dup := true }
  | .pubrel id => .ack ⟨v, .pubrel, id, .success, none⟩

/-- The frame acknowledges this exchange on the leg it is on. -/
def answeredBy (f : Frame) : Exchange → Bool
  | .publish p =>
    match f with
    | .puback a => p.packetID = a.packetID ∧ p.qos ≠ 2
    | .pubrec a => p.packetID = a.packetID ∧ p.qos ≠ 1
    | _ => false
  | .pubrel id =>
    match f with
    | .pubcomp a => id = a.packetID
    | _ => false

end Exchange

/-- What is unfinished after one more event. Only a PUBREC without an error keeps
an exchange it answers, on its next leg. -/
def unfinishedAfter (out : List Exchange) : Event → List Exchange
  | .sent _ _ p => out ++ [.publish p]
  | .received _ f =>
    let rest := out.filter fun x => !x.answeredBy f
    match f with
    | .pubrec a =>
      if a.reasonCode.isError = false ∧ out.any (Exchange.answeredBy f) then
        rest ++ [.pubrel a.packetID]
      else rest
    | _ => rest
  | .discarded => []
  | _ => out

/-- The unfinished exchanges in the order they are to be replayed. -/
def unfinished (hist : List Event) : List Exchange := hist.foldl unfinishedAfter []

/-- The filters in the order they were registered. -/
def registrations (hist : List Event) : List Bytes :=
  hist.filterMap fun
    | .registered s => some s.filter
    | _ => none

/-- An event that leaves every exchange as it is. -/
def Event.plain (e : Event) : Prop := ∀ out, unfinishedAfter out e = out

theorem unfinished_snoc (hist : List Event) (e : Event) :
    unfinished (hist ++ [e]) = unfinishedAfter (unfinished hist) e := by
  simp [unfinished]

theorem unfinished_append {hist es : List Event} (h : ∀ e ∈ es, e.plain) :
    unfinished (hist ++ es) = unfinished hist := by
  induction es using List.reverseRecOn with
  | nil => simp
  | append_singleton es e ih =>
    rw [← List.append_assoc, unfinished_snoc, h e (by simp), ih fun x hx => h x (by simp [hx])]

/-- A frame that answers none of them. -/
theorem unfinishedAfter_received {out : List Exchange} {f : Frame}
    (h : ∀ x ∈ out, x.answeredBy f = false) (l : LinkId) :
    unfinishedAfter out (.received l f) = out := by
  have hrest : (out.filter fun x => !x.answeredBy f) = out :=
    List.filter_eq_self.mpr fun x hx => by rw [h x hx]; rfl
  have hany : out.any (Exchange.answeredBy f) = false := by
    rw [List.any_eq_false]
    intro x hx
    simp [h x hx]
  cases f <;> simp [unfinishedAfter, hrest, hany]

theorem plain_publish (l : LinkId) (p : InboundPublish) : (Event.received l (.publish p)).plain :=
  fun _ => unfinishedAfter_received (fun x _ => by cases x <;> rfl) l

theorem plain_pubrel (l : LinkId) (a : InboundAck) : (Event.received l (.pubrel a)).plain :=
  fun _ => unfinishedAfter_received (fun x _ => by cases x <;> rfl) l

namespace Session

/-! ## The invariant -/

/-- The session as the history tells it. -/
structure Traced (v : Session) : Prop where
  out : v.out = (unfinished v.hist).map Exchange.stored
  registered : ∀ s ∈ v.subs.subs, .registered s ∈ v.hist
  order : v.subs.subs.map Subscription.filter <+ registrations v.hist
  undo : ∀ c filter prev token id gen,
    v.calls c = .requesting (.subscribe filter (some prev) token) id gen →
    .registered prev ∈ v.hist ∧ prev.filter = filter

/-- A rollback that gives the entry its old subscription identifier back. -/
def sameSubID (cur prev : Subscription) : Prop := cur.subID = prev.subID

instance (cur prev : Subscription) : Decidable (sameSubID cur prev) :=
  inferInstanceAs (Decidable (cur.subID = prev.subID))

namespace Traced

variable {v w : Session}

/-- The history grows, and the exchanges with it. -/
theorem grow (h : Traced v) (es : List Event) (he : w.hist = v.hist ++ es)
    (hout : w.out = (unfinished w.hist).map Exchange.stored) (hsubs : w.subs = v.subs)
    (hcalls : w.calls = v.calls) : Traced w where
  out := hout
  registered s hs := by
    rw [he]
    exact List.mem_append_left _ (h.registered s (hsubs ▸ hs))
  order := by
    rw [he, hsubs]
    unfold registrations
    rw [List.filterMap_append]
    exact h.order.trans (List.sublist_append_left _ _)
  undo c filter prev token id gen hc := by
    obtain ⟨hr, hf⟩ := h.undo c filter prev token id gen (hcalls ▸ hc)
    rw [he]
    exact ⟨List.mem_append_left _ hr, hf⟩

theorem plain (h : Traced v) (es : List Event) (hes : ∀ e ∈ es, e.plain)
    (he : w.hist = v.hist ++ es) (hout : w.out = v.out) (hsubs : w.subs = v.subs)
    (hcalls : w.calls = v.calls) : Traced w := by
  refine h.grow es he ?_ hsubs hcalls
  rw [hout, he, unfinished_append hes]
  exact h.out

theorem notes (h : Traced v) {es : List Event} (hes : ∀ e ∈ es, e.plain) : Traced (v.notes es) :=
  h.plain es hes rfl rfl rfl rfl

theorem setCall (h : Traced v) (c : CallId) {k : Call}
    (hk : ∀ filter prev token id gen,
      k = .requesting (.subscribe filter (some prev) token) id gen →
        .registered prev ∈ v.hist ∧ prev.filter = filter) : Traced (v.setCall c k) := by
  refine ⟨h.out, h.registered, h.order, fun d filter prev token id gen hd => ?_⟩
  by_cases hdc : d = c
  · subst hdc
    refine hk filter prev token id gen ?_
    simpa [Session.setCall] using hd
  · refine h.undo d filter prev token id gen ?_
    simpa [Session.setCall, hdc] using hd

theorem finish (h : Traced v) (c : CallId) (r : Return) : Traced (v.finish c r) :=
  (h.setCall c (by simp)).notes (by simp [Event.plain, unfinishedAfter])

theorem hold (h : Traced v) (c : CallId) (id : UInt16) {k : Call}
    (hk : ∀ filter prev token id gen,
      k = .requesting (.subscribe filter (some prev) token) id gen →
        .registered prev ∈ v.hist ∧ prev.filter = filter) : Traced (v.hold c id k) := by
  obtain ⟨hout, hreg, hord, hundo⟩ := h.setCall c hk
  exact ⟨hout, hreg, hord, hundo⟩

theorem unhold (h : Traced v) (id : UInt16) (gen : Nat) : Traced (v.unhold id gen) := by
  rw [unhold_eq]
  exact ⟨h.out, h.registered, h.order, h.undo⟩

/-- A registration is recorded under the token the table gives it. -/
theorem register (h : Traced v) {s : Subscription} (hs : s.token = v.subs.subSeq + 1) :
    Traced (v.register s) := by
  refine ⟨?_, fun x hx => ?_, ?_, fun c filter prev token id gen hc => ?_⟩
  · show v.out = (unfinished (v.hist ++ [Event.registered s])).map _
    rw [unfinished_snoc]
    exact h.out
  · show _ ∈ v.hist ++ [Event.registered s]
    rcases Subs.mem_add hx with rfl | hx
    · rw [← hs]
      simp
    · exact List.mem_append_left _ (h.registered x hx)
  · show _ <+ registrations (v.hist ++ [Event.registered s])
    have happ : registrations (v.hist ++ [Event.registered s]) =
        registrations v.hist ++ [s.filter] := by
      simp [registrations]
    rw [happ]
    rcases Subs.filters_add v.subs s.filter s.options s.handler s.subID with heq | heq <;>
      simp only [Session.register, Session.notes, heq]
    · exact h.order.trans (List.sublist_append_left _ _)
    · exact h.order.append (.refl _)
  · obtain ⟨hr, hf⟩ := h.undo c filter prev token id gen hc
    exact ⟨List.mem_append_left _ hr, hf⟩

/-- A failed Subscribe puts a registration back that was made as it stands. -/
theorem withdraw (h : Traced v) {r : Request} (hroll : v.RollsBack sameSubID r)
    (hr : ∀ filter prev token, r = .subscribe filter (some prev) token →
      .registered prev ∈ v.hist ∧ prev.filter = filter) : Traced (v.withdraw r) := by
  cases r with
  | unsubscribe filter snap => exact h
  | subscribe filter prev token =>
    refine ⟨h.out, fun x hx => ?_, (Subs.filters_restore ..).trans h.order, h.undo⟩
    rcases Subs.mem_restore hx with hx | ⟨cur, p, hcur, ht, rfl, rfl⟩
    · exact h.registered x hx
    · obtain ⟨hmem, hfil⟩ := hr filter p token rfl
      have hid : cur.subID = p.subID := hroll cur hcur ht
      have hf : cur.filter = p.filter := (findFilter_filter hcur).trans hfil.symm
      rw [hid, hf]
      exact hmem

theorem confirm (h : Traced v) (r : Request) : Traced (v.confirm r) := by
  match r with
  | .subscribe .. => exact h
  | .unsubscribe _ none => exact h
  | .unsubscribe filter (some snap) =>
    have hsub := Subs.removeIfCurrent_sublist v.subs filter snap.token
    exact ⟨h.out, fun x hx => h.registered x (hsub.subset hx), (hsub.map _).trans h.order, h.undo⟩

end Traced

/-! ## Acknowledgements -/

/-- The exchange and the leg an acknowledgement is for. -/
def target : Frame → Option (UInt16 × StoredKind)
  | .puback a | .pubrec a => some (a.packetID, .publish)
  | .pubcomp a => some (a.packetID, .pubrel)
  | _ => none

theorem target_of_ends {f : Frame} {id : UInt16} {kind : StoredKind} {res : AckResult}
    (h : f.ends = some (id, kind, res)) : target f = some (id, kind) := by
  unfold Frame.ends at h
  split at h
  · cases h; rfl
  · cases h; rfl
  · split at h <;> cases h
    rfl
  · cases h

theorem target_of_promotes {f : Frame} {id : UInt16} (h : f.promotes = some id) :
    target f = some (id, .publish) := by
  unfold Frame.promotes at h
  split at h
  · split at h <;> cases h
    rfl
  · cases h

theorem ends_or_promotes {f : Frame} {id : UInt16} {kind : StoredKind}
    (h : target f = some (id, kind)) :
    (∃ res, f.ends = some (id, kind, res)) ∨ (kind = .publish ∧ f.promotes = some id) := by
  unfold target at h
  split at h
  · cases h; exact .inl ⟨_, rfl⟩
  · rename_i a
    cases h
    by_cases herr : a.reasonCode.isError = true
    · exact .inl ⟨_, by rw [Frame.ends, if_pos herr]⟩
    · exact .inr ⟨rfl, by rw [Frame.promotes, if_neg herr]⟩
  · cases h; exact .inl ⟨_, rfl⟩
  · cases h

theorem publish_target_iff {i j : UInt16} {P : Prop} [Decidable P] (h : i = j → P) :
    decide (i = j ∧ P) = true ↔ some (j, StoredKind.publish) = some (i, StoredKind.publish) := by
  simp only [decide_eq_true_iff, Option.some.injEq, Prod.mk.injEq, and_true]
  exact ⟨fun hij => hij.1.symm, fun hij => ⟨hij.symm, h hij.symm⟩⟩

section acknowledgement

variable {v : Session} {f : Frame}

/-- From a broker that acknowledges in kind, a frame answers the exchange it is
addressed to. -/
theorem Traced.answeredBy_iff (h : Traced v) (hk : InKind v.out f) {x : Exchange}
    (hx : x ∈ unfinished v.hist) :
    x.answeredBy f = true ↔ target f = some (x.stored.id, x.stored.kind) := by
  have hmem : x.stored ∈ v.out := by
    rw [h.out]
    exact List.mem_map_of_mem hx
  cases x with
  | pubrel id => cases f <;> simp [Exchange.answeredBy, target, Exchange.stored, eq_comm]
  | publish q =>
    cases f with
    | puback a =>
      have hq : q.packetID = a.packetID → q.qos ≠ 2 := fun heq h2 =>
        hk _ hmem heq ⟨rfl, q, rfl, h2⟩
      exact publish_target_iff hq
    | pubrec a =>
      have hq : q.packetID = a.packetID → q.qos ≠ 1 := fun heq h1 =>
        hk _ hmem heq ⟨rfl, q, rfl, h1⟩
      exact publish_target_iff hq
    | _ => simp [Exchange.answeredBy, target, Exchange.stored]

/-- The entries left are those of the exchanges that were not answered. -/
theorem Traced.without_eq (h : Traced v) (hk : InKind v.out f) {id : UInt16}
    {kind : StoredKind} (ht : target f = some (id, kind)) :
    without v.out id kind =
      ((unfinished v.hist).filter fun x => !x.answeredBy f).map Exchange.stored := by
  unfold without
  rw [h.out, List.filter_map]
  congr 1
  refine List.filter_congr fun x hx => ?_
  have hiff := h.answeredBy_iff hk hx
  rw [ht, Option.some.injEq, Prod.mk.injEq, @eq_comm _ id, @eq_comm _ kind] at hiff
  show (!decide (x.stored.id = id ∧ x.stored.kind = kind)) = !x.answeredBy f
  rw [Bool.not_inj_iff, Bool.eq_iff_iff, hiff, decide_eq_true_iff]

theorem Traced.any_answeredBy (h : Traced v) (hk : InKind v.out f) {id : UInt16}
    {kind : StoredKind} (ht : target f = some (id, kind)) :
    (unfinished v.hist).any (Exchange.answeredBy f) = true ↔ v.Has id kind := by
  rw [List.any_eq_true]
  constructor
  · rintro ⟨x, hx, hans⟩
    have hxt := (h.answeredBy_iff hk hx).mp hans
    rw [ht] at hxt
    cases hxt
    exact ⟨x.stored, h.out ▸ List.mem_map_of_mem hx, rfl, rfl⟩
  · rintro ⟨m, hm, rfl, rfl⟩
    rw [h.out] at hm
    obtain ⟨x, hx, rfl⟩ := List.mem_map.mp hm
    exact ⟨x, hx, (h.answeredBy_iff hk hx).mpr ht⟩

/-- A frame that finds nothing to answer. -/
theorem Traced.inert (h : Traced v) (hk : InKind v.out f) (hf : v.Inert f)
    (l : LinkId) : Traced (v.notes [.received l f]) := by
  have hnone : ∀ x ∈ unfinished v.hist, x.answeredBy f = false := by
    intro x hx
    rw [Bool.eq_false_iff]
    intro hans
    have ht := (h.answeredBy_iff hk hx).mp hans
    have hhas : v.Has x.stored.id x.stored.kind := ⟨x.stored, h.out ▸ List.mem_map_of_mem hx, rfl, rfl⟩
    rcases ends_or_promotes ht with ⟨res, hends⟩ | ⟨hkind, hprom⟩
    · exact hf.1 _ _ res hends hhas
    · exact hf.2.1 _ hprom (hkind ▸ hhas)
  refine h.grow _ rfl ?_ rfl rfl
  show v.out = (unfinished (v.hist ++ [Event.received l f])).map _
  rw [unfinished_snoc, unfinishedAfter_received hnone]
  exact h.out

theorem Traced.ended (h : Traced v) (hk : InKind v.out f) {id : UInt16}
    {kind : StoredKind} {res : AckResult} (hends : f.ends = some (id, kind, res)) (l : LinkId) :
    Traced ((v.notes [.received l f]).settle id kind res) := by
  refine h.grow [.received l f] rfl ?_ rfl rfl
  show without v.out id kind = (unfinished (v.hist ++ [Event.received l f])).map _
  rw [unfinished_snoc, h.without_eq hk (target_of_ends hends)]
  congr 1
  cases f with
  | pubrec a =>
    have herr : a.reasonCode.isError = true := by
      by_contra hne
      simp [Frame.ends, hne] at hends
    simp [unfinishedAfter, herr]
  | _ => rfl

theorem Traced.promoted (h : Traced v) (hk : InKind v.out f) {id : UInt16}
    (hprom : f.promotes = some id) (hhas : v.Has id .publish) (l : LinkId) :
    Traced ((v.notes [.received l f]).promote id) := by
  refine h.grow [.received l f] rfl ?_ rfl rfl
  show without v.out id .publish ++ [{ id, kind := .pubrel }] =
    (unfinished (v.hist ++ [Event.received l f])).map _
  have ht := target_of_promotes hprom
  have hany := (h.any_answeredBy hk ht).mpr hhas
  rw [unfinished_snoc, h.without_eq hk ht]
  cases f with
  | pubrec a =>
    have hok : a.reasonCode.isError = false := by
      by_contra hne
      simp [Frame.promotes, hne] at hprom
    obtain rfl : a.packetID = id := by simpa [Frame.promotes, hok] using hprom
    simp only [unfinishedAfter, hok, hany, and_self, if_true, List.map_append]
    rfl
  | _ => cases hprom

end acknowledgement

/-! ## Every move keeps it -/

theorem Opens.plain {v : Session} {c : CallId} {qos : UInt8} {pre : List Event}
    (h : v.Opens c qos pre) : ∀ e ∈ pre, e.plain := by
  rcases h with ⟨-, req, rfl, -⟩ | ⟨rfl, -⟩ <;> simp [Event.plain, unfinishedAfter]

theorem Traced.send {v : Session} (h : Traced v) (c : CallId) (l : LinkId) (p : PublishPacket) :
    Traced (v.send c l p) := by
  have hcall : Traced (v.setCall c (.publishing p.packetID)) := h.setCall c (by simp)
  refine hcall.grow [.sent c l p] rfl ?_ rfl rfl
  show v.out ++ [storedPublish p] = (unfinished (v.hist ++ [Event.sent c l p])).map _
  rw [unfinished_snoc, h.out]
  simp [unfinishedAfter, Exchange.stored]

theorem Traced.discard {v : Session} (h : Traced v) : Traced v.discard := by
  refine h.grow [.discarded] rfl ?_ rfl rfl
  show [] = (unfinished (v.hist ++ [Event.discarded])).map _
  rw [unfinished_snoc]
  rfl

/-- The snapshot of a registration is a registration. -/
theorem Traced.snapshot {v : Session} (h : Traced v) {filter : Bytes} {prev : Subscription}
    (hp : v.subs.snapshot filter = some prev) :
    .registered prev ∈ v.hist ∧ prev.filter = filter :=
  ⟨h.registered prev (mem_of_findFilter hp), findFilter_filter hp⟩

theorem Traced.move {v w : Session} (h : Traced v)
    (hm : Move (fun v f => InKind v.out f) sameSubID v w) : Traced w := by
  have hgrant : ∀ c l, (Event.granted c l).plain := fun _ _ _ => rfl
  cases hm with
  | @refuse c qos pre g e ho hg =>
    refine (h.notes fun x hx => ?_).finish c _
    rcases List.mem_append.mp hx with hx | hx
    · exact ho.plain x hx
    · obtain ⟨l, rfl⟩ := hg x hx
      exact hgrant c l
  | shoot ho => exact (h.notes ho.plain).finish _ _
  | park ho _ => exact (h.notes ho.plain).setCall _ (by simp)
  | @send c l p pre ho =>
    refine (h.notes fun x hx => ?_).send c l p
    rcases List.mem_append.mp hx with hx | hx
    · exact ho.plain x hx
    · rw [List.mem_singleton.mp hx]
      exact hgrant c l
  | @abandon c id e hc =>
    have hd : Traced (v.drop id c) := h.plain [] (by simp) (by simp [drop]) rfl rfl rfl
    exact hd.finish c _
  | answer hc hres => exact h.finish _ _
  | reject hc hr => exact h.finish _ _
  | @subscribe c s id hc hid h0 hs =>
    refine (h.register hs).hold c id ?_
    intro filter prev token i gen heq
    injection heq with heq
    injection heq with hf hp
    obtain ⟨hr, hfil⟩ := h.snapshot hp
    exact ⟨List.mem_append_left _ hr, hfil.trans hf⟩
  | @subscribeFailed c s r hc hr hs hroll =>
    refine ((h.register hs).withdraw hroll ?_).finish c r
    intro filter prev token heq
    injection heq with hf hp
    obtain ⟨hr, hfil⟩ := h.snapshot hp
    exact ⟨List.mem_append_left _ hr, hfil.trans hf⟩
  | unsubscribe hc hid h0 => exact h.hold _ _ (by simp)
  | resubscribe hc hid h0 => exact h.hold _ _ (by simp)
  | @requestFailed c r id gen ret hc hr hroll =>
    refine ((h.unhold id gen).withdraw ?_ ?_).finish c ret
    · rw [unhold_eq]
      exact hroll
    · rintro filter prev token rfl
      rw [unhold_eq]
      exact h.undo c filter prev token id gen hc
  | requestDone hc hr => exact ((h.unhold _ _).confirm _).finish _ _
  | resubscribed hc => exact (h.unhold _ _).setCall _ (by simp)
  | @heard l f es hk hf hes =>
    have hsplit : v.notes (.received l f :: es) = (v.notes [.received l f]).notes es := by
      simp [Session.notes]
    rw [hsplit]
    refine (h.inert hk hf l).notes fun e he => ?_
    obtain ⟨p, hs, torn, rfl, -⟩ := hes e he
    exact fun _ => rfl
  | ended hk hends _ => exact h.ended hk hends _
  | promoted hk hprom hhas => exact h.promoted hk hprom hhas _
  | @delivered l f p hs hk hq hin =>
    refine h.plain [.received l (.publish f), .dispatched l p hs false, .recorded l p.packetID] ?_
      rfl rfl rfl rfl
    simp only [List.forall_mem_cons]
    exact ⟨plain_publish l f, fun _ => rfl, fun _ => rfl, by simp⟩
  | @released l a hk =>
    refine h.plain [.received l (.pubrel a)] ?_ rfl rfl rfl rfl
    simp [plain_pubrel]
  | tear => exact h.plain [] (by simp) (by simp [Session.tear]) rfl rfl rfl
  | @resume result hl hd =>
    exact h.plain [.applied result _] (by simp [Event.plain, unfinishedAfter]) rfl rfl rfl rfl
  | @restart result hl hd =>
    exact h.discard.plain [.applied result _] (by simp [Event.plain, unfinishedAfter])
      rfl rfl rfl rfl
  | @establish l result hl =>
    exact h.plain [.connected l result] (by simp [Event.plain, unfinishedAfter]) rfl rfl rfl rfl

end Session

/-! ## Every run keeps it -/

/-- The broker acknowledges in kind, and a Subscribe that fails while its
registration is the current one falls back to one with the same subscription
identifier. -/
def KeepsSubID (s : State) (a : Action) : Prop :=
  AnswersInKind s a ∧ Allowed (fun _ _ => True) Session.sameSubID s a

theorem requesting_iff {k : Call} : (¬ ∀ r id gen, k = .requesting r id gen → False) ↔
    ∃ r id gen, k = .requesting r id gen := by
  simp

theorem allowed_collect {ok : Session → Frame → Prop} {roll : Subscription → Subscription → Prop}
    {s : State} {c : CallId} :
    (∀ r id gen, s.calls c = .requesting r id gen → ∀ res ∈ s.inbox c,
      res.failure r.packetType ≠ none → (view s).RollsBack roll r) ↔
    Allowed ok roll s (.collect c) :=
  ⟨fun h r id gen res hc => h r id gen hc res, fun h r id gen hc res => h r id gen res hc⟩

section

variable (ok : Session → Frame → Prop) (roll : Subscription → Subscription → Prop)
  [∀ v f, Decidable (ok v f)] [∀ cur prev, Decidable (roll cur prev)]

instance (v : Session) (r : Request) : Decidable (v.RollsBack roll r) := by
  unfold Session.RollsBack
  split
  · rename_i filter prev token
    exact inferInstanceAs
      (Decidable (∀ cur ∈ v.subs.snapshot filter, cur.token = token → roll cur prev))
  · infer_instance

/-- Whether a request of a call meets a condition. -/
def decidableRequest (k : Call) (P : Request → Prop) [∀ r, Decidable (P r)] :
    Decidable (∀ r id gen, k = .requesting r id gen → P r) :=
  match k with
  | .requesting r _ _ => decidable_of_iff (P r) (by simp)
  | .idle | .parked .. | .publishing .. | .resubscribing .. | .done => .isTrue (by simp)

instance (s : State) (a : Action) : Decidable (Allowed ok roll s a) :=
  match a with
  | .frame f _ _ => inferInstanceAs (Decidable (ok (view s) f))
  | .subscribe n req io =>
    have : Decidable (∃ r id gen,
        (s.subscribe (.api n) req io).calls (.api n) = .requesting r id gen) :=
      @decidable_of_iff _ _ requesting_iff
        (@instDecidableNot _ (decidableRequest _ fun _ => False))
    inferInstanceAs (Decidable (∀ prev ∈ s.subs.snapshot req.filter, _ ∨ _))
  | .giveUp c _ => decidableRequest (s.calls c) fun r => (view s).RollsBack roll r
  | .collect c =>
    @decidable_of_iff _ _ allowed_collect (decidableRequest (s.calls c) fun r =>
      ∀ res ∈ s.inbox c, res.failure r.packetType ≠ none → (view s).RollsBack roll r)
  | .publish .. | .unsubscribe .. | .wake .. | .readError ..
  | .tick .. | .connect .. | .disconnect .. => .isTrue trivial

instance (s : State) (a : Action) : Decidable (KeepsSubID s a) :=
  inferInstanceAs (Decidable (_ ∧ _))

end

theorem unfinished_view (s : State) : unfinished (view s).hist = unfinished s.hist := by
  unfold unfinished view
  rw [List.foldl_filter]
  congr 1
  funext out e
  cases e <;> rfl

theorem registrations_view (s : State) : registrations (view s).hist = registrations s.hist := by
  unfold registrations view
  rw [List.filterMap_filter]
  congr 1
  funext e
  cases e <;> rfl

theorem Reach.traced {cfg : TCPConfig} {as : List Action} {s : State}
    (h : Reach KeepsSubID cfg as s) : (view s).Traced := by
  refine (h.session (fun v f => InKind v.out f) Session.sameSubID
    (P := Session.Traced) ?_ ?_ fun _ _ _ ht hm => ht.move hm).2.2
  · rintro t a ⟨hk, ha⟩
    cases a with
    | frame f torn io => exact hk
    | _ => exact ha
  · constructor <;> simp [view, newTCPClient, outbound, unfinished, registrations, Subs.empty]

/-! ## What a resuming connect writes -/

/-- The packets went out on `l` in this order, unless a write of the replay failed. -/
def Replays (l : LinkId) (ps : List Packet) (s t : State) : Prop :=
  t.cfg = s.cfg ∧ t.subs = s.subs ∧ ∃ es, t.hist = s.hist ++ es ∧
    (.replayFailed l ∈ es ∨ es = ps.map (.wrote l) ∧ t.links = s.links)

section replay

variable {s t u : State} {l : LinkId}

theorem Replays.refl (s : State) (l : LinkId) : Replays l [] s s :=
  ⟨rfl, rfl, [], by simp, .inr ⟨rfl, rfl⟩⟩

theorem Replays.trans {ps qs : List Packet} (h : Replays l ps s t) (h' : Replays l qs t u) :
    Replays l (ps ++ qs) s u := by
  obtain ⟨hc, hs, es, he, hes⟩ := h
  obtain ⟨hc', hs', es', he', hes'⟩ := h'
  refine ⟨hc'.trans hc, hs'.trans hs, es ++ es', by rw [he', he, List.append_assoc], ?_⟩
  rcases hes with hf | ⟨rfl, hl⟩
  · exact .inl (List.mem_append_left _ hf)
  · rcases hes' with hf | ⟨rfl, hl'⟩
    · exact .inl (List.mem_append_right _ hf)
    · exact .inr ⟨List.map_append.symm, hl'.trans hl⟩

/-- A step of the replay that logs a failure. -/
theorem Replays.failed {ps : List Packet} (h : Logs [.transport] s t) (hs : t.subs = s.subs) :
    Replays l ps s (t.log (.replayFailed l)) := by
  obtain ⟨⟨es, he, -⟩, -, -, hc⟩ := h
  exact ⟨hc, hs, es ++ [Event.replayFailed l], by simp [State.log, he], .inl (by simp)⟩

theorem replayWrite_replays (s : State) (l : LinkId) (p : Packet) (io : Bool) :
    Replays l [p] s (s.replayWrite l p io) := by
  have hlogs : Logs [.transport] s (s.writeFrame l p io).2 :=
    ((Moves.refl (K := .outboundMax) s).writeFrame (admits_of_mem (by simp)) l p io fun _ => by
      simp [Event.origin]).logs
  have hsubs := (Keeps.writeFrame s l p io).subs
  unfold State.replayWrite
  rcases writeFrame_cases s l p io with ⟨e, hr⟩ | hr | ⟨hr, -⟩ <;> rw [hr] at hlogs hsubs ⊢
  · exact .failed hlogs hsubs
  · exact .failed hlogs hsubs
  · exact ⟨rfl, rfl, [.wrote l p], rfl, .inr ⟨rfl, rfl⟩⟩

theorem replayEntries_replays (l : LinkId) (ms : List StoredMessage) (n : Nat) (s : State) :
    Replays l (ms.filterMap (State.replayPacket s.cfg.protocolVersion)) s
      (State.replayEntries l ms n s).2 := by
  induction ms generalizing n s with
  | nil => exact .refl s l
  | cons m rest ih =>
    unfold State.replayEntries
    split
    · rename_i hp
      rw [List.filterMap_cons_none hp]
      exact ih n s
    · rename_i p hp
      have hw := replayWrite_replays s l p (0 < n)
      rw [List.filterMap_cons_some hp, ← hw.1]
      exact hw.trans (ih (n - 1) _)

/-- The SUBSCRIBE that renews a registration. -/
def resubscription (v : Version) (sub : Subscription) (id : UInt16) : Packet :=
  .subscribe (State.subscribePacket v sub.filter sub.options sub.subID id)

theorem resubscribe_replays (s : State) (l : LinkId) (k : Nat) (sub : Subscription) (io : Bool) :
    ∃ id, Replays l [resubscription s.cfg.protocolVersion sub id] s (s.resubscribe l k sub io) := by
  unfold State.resubscribe
  split
  · exact ⟨0, .failed (Moves.refl (K := .outboundMax) s).logs rfl⟩
  · rename_i id gen ids hid
    refine ⟨id, ?_⟩
    dsimp only
    split <;> rename_i hr
    · have hheld : Moves .outboundMax (fun e => e.origin ∈ [Origin.transport]) (fun _ _ => True) s
          ({ s with ids }.registerWaiter id (.resubscribe l k) .suback) := .refl s
      have hwrite := hheld.writeOther (p := .subscribe (State.subscribePacket
        s.cfg.protocolVersion sub.filter sub.options sub.subID id)) (admits_of_mem (by simp)) l io rfl
      have hkeeps := Keeps.writeFrame ({ s with ids }.registerWaiter id (.resubscribe l k) .suback)
        l (.subscribe (State.subscribePacket s.cfg.protocolVersion sub.filter sub.options
          sub.subID id)) io
      rw [hr] at hwrite hkeeps
      refine .failed (hwrite.removeWaiter id _).logs ?_
      exact (Keeps.removeWaiter _ id _).subs.trans hkeeps.subs
    · obtain ⟨rfl, -⟩ := attempt_sent hr
      exact ⟨rfl, rfl, [_], rfl, .inr ⟨rfl, rfl⟩⟩

theorem resubscribeAll_replays (l : LinkId) (subs : List Subscription) (k n : Nat) (s : State) :
    ∃ ids : List UInt16, ids.length = subs.length ∧
      Replays l (List.zipWith (resubscription s.cfg.protocolVersion) subs ids) s
        (State.resubscribeAll l subs k n s) := by
  induction subs generalizing k n s with
  | nil => exact ⟨[], rfl, .refl s l⟩
  | cons sub rest ih =>
    obtain ⟨id, hid⟩ := resubscribe_replays s l k sub (0 < n)
    obtain ⟨ids, hlen, hrest⟩ := ih (k + 1) (n - 1) (s.resubscribe l k sub (0 < n))
    refine ⟨id :: ids, by simp [hlen], ?_⟩
    rw [hid.1] at hrest
    exact hid.trans hrest

/-- Replayed are the stored exchanges, the inbound identifiers are passed over. -/
theorem replayPackets_eq (v : Version) (store : MemStore) :
    store.all.filterMap (State.replayPacket v) = (outbound store).filterMap (State.replayPacket v) := by
  unfold outbound
  rw [List.filterMap_map, List.filterMap_filter]
  refine List.filterMap_congr fun m _ => ?_
  cases hk : m.kind <;> simp [StoredKind.outbound, State.replayPacket, hk]

theorem Session.Traced.replayPackets (h : (view s).Traced) (v : Version) :
    s.store.all.filterMap (State.replayPacket v) = (unfinished s.hist).map (Exchange.frame v) := by
  have hout : outbound s.store = (unfinished s.hist).map Exchange.stored := by
    rw [← unfinished_view]
    exact h.out
  rw [replayPackets_eq, hout, List.filterMap_map, ← List.filterMap_eq_map]
  refine List.filterMap_congr fun x _ => ?_
  cases x <;> rfl

/-- The state a resuming connect starts its replay in. -/
theorem opened_resumed (result : ConnectResult) (hd : discards s.cfg result = false) :
    (opened s result).hist = s.hist ++ [Event.applied result (State.inflightPermits s.store)] ∧
      (opened s result).store = s.store ∧ (opened s result).subs = s.subs ∧
      (opened s result).cfg = s.cfg ∧ ((opened s result).links s.nextLink).stop = false := by
  unfold opened State.applySession
  dsimp only
  rw [if_neg (by simp [hd])]
  exact ⟨rfl, rfl, rfl, rfl, by simp [State.setLink, State.newLink]⟩

/-- What the replay of a resumed session writes, unless a write fails. -/
theorem replayed_replays (result : ConnectResult) (n : Nat) (hd : discards s.cfg result = false)
    (h : (view s).Traced) :
    ∃ es, (replayed s result n).hist =
        s.hist ++ Event.applied result (unfinished s.hist).length :: es ∧
      (.replayFailed s.nextLink ∈ es ∨
        ((replayed s result n).links s.nextLink).stop = false ∧
        ∃ ids : List UInt16, ids.length = s.subs.subs.length ∧
          es = ((unfinished s.hist).map (Exchange.frame s.cfg.protocolVersion) ++
            List.zipWith (resubscription s.cfg.protocolVersion) s.subs.subs ids).map
              (.wrote s.nextLink)) := by
  obtain ⟨hhist, hstore, hsubs, hcfg, hstop⟩ := opened_resumed result hd
  have hcount : State.inflightPermits s.store = (unfinished s.hist).length := by
    have hout := congrArg List.length h.out
    rw [unfinished_view, List.length_map] at hout
    rw [inflightPermits_eq]
    exact hout
  have hent := replayEntries_replays s.nextLink (opened s result).store.all n (opened s result)
  obtain ⟨ids, hlen, hsub⟩ := resubscribeAll_replays s.nextLink
    ((opened s result).replaySession s.nextLink n).2.subs.subs 0
    ((opened s result).replaySession s.nextLink n).1 ((opened s result).replaySession s.nextLink n).2
  have hc := hent.1.trans hcfg
  have hs := hent.2.1.trans hsubs
  obtain ⟨-, -, es, he, hes⟩ := hent.trans hsub
  refine ⟨es, ?_, hes.imp id fun hsent => ⟨?_, ids, ?_, ?_⟩⟩
  · rw [← hcount]
    refine he.trans ?_
    rw [hhist, List.append_assoc]
    rfl
  · exact (congrArg (fun links => (links s.nextLink).stop) hsent.2).trans hstop
  · rw [hlen]
    exact congrArg (fun subs => subs.subs.length) hs
  · rw [hsent.1, hstore, hcfg, h.replayPackets]
    unfold State.replaySession
    rw [hc, hs]

end replay

/-- A connect that resumes the session, none of its replay writes failing, writes
on the link it is about to publish exactly the unfinished exchanges and then the
registrations; and these are as they were made, in the order they were made. -/
theorem resume_replays_unfinished {cfg : TCPConfig} {as : List Action} {s : State}
    (hrun : Reach KeepsSubID cfg as s) {h : State.Handshake} {n : Nat} {result : ConnectResult}
    (hlink : s.link = none) (hok : State.negotiate s.cfg h = .ok result)
    (hresume : discards s.cfg result = false)
    (hclean : .replayFailed s.nextLink ∉ (s.step (.connect h n)).hist.drop s.hist.length) :
    (∃ ids : List UInt16, ids.length = s.subs.subs.length ∧
      (s.step (.connect h n)).hist = s.hist ++ .applied result (unfinished s.hist).length ::
        ((unfinished s.hist).map (Exchange.frame s.cfg.protocolVersion) ++
          List.zipWith (resubscription s.cfg.protocolVersion) s.subs.subs ids).map
            (.wrote s.nextLink) ++ [.connected s.nextLink result]) ∧
    (∀ sub ∈ s.subs.subs, .registered sub ∈ s.hist) ∧
    s.subs.subs.map Subscription.filter <+ registrations s.hist := by
  have htraced := hrun.traced
  refine ⟨?_, fun sub hsub => ?_, ?_⟩
  · rw [State.step_connect n hlink hok, establish_eq] at hclean ⊢
    obtain ⟨es, hhist, hes⟩ := replayed_replays result n hresume htraced
    have hsent : .replayFailed s.nextLink ∉ es := by
      intro hm
      refine hclean ?_
      split <;> simp [State.log, hhist, hm]
    obtain ⟨hstop, ids, hlen, rfl⟩ := hes.resolve_left hsent
    refine ⟨ids, hlen, ?_⟩
    rw [if_neg (by simp [hstop])]
    simp [State.log, hhist]
  · exact (List.mem_filter.mp (htraced.registered sub hsub)).1
  · rw [← registrations_view]
    exact htraced.order

/-- A Subscribe for this filter, handler and subscription identifier. -/
def subscription (handler : Handler) (subscriptionID : UInt32) : SubscribeRequest where
  filter := [0x74]
  qos := 1
  handler := handler
  subscriptionID := subscriptionID

/-- A QoS 2 exchange on its second leg, one that was not acknowledged, and a
subscription, when the connection breaks. -/
def interrupted : List Action :=
  [.connect (accept (receiveMax 5) false) 9, .subscribe 0 (subscription 1 7) true,
    .frame (.suback { packetID := 1, reasonCodes := [⟨1⟩] }) false true, .collect (.api 0),
    .publish 1 (message 2) true, .publish 2 (message 1) true,
    .frame (.pubrec { packetID := 2 }) false true, .readError]

theorem resume_replays_unfinished_interrupted :
    let s := runActions durable interrupted
    ∃ ids : List UInt16, ids.length = s.subs.subs.length ∧
      (s.step (.connect (accept (receiveMax 5) true) 9)).hist =
        s.hist ++ .applied (negotiated 5 true) (unfinished s.hist).length ::
          ((unfinished s.hist).map (Exchange.frame .v50) ++
            List.zipWith (resubscription .v50) s.subs.subs ids).map (.wrote 1) ++
          [.connected 1 (negotiated 5 true)] :=
  have hrun : Reach KeepsSubID durable interrupted _ := Reach.of_okAlong (by decide +kernel)
  have hok : State.negotiate durable (accept (receiveMax 5) true) = .ok (negotiated 5 true) := by
    decide +kernel
  (resume_replays_unfinished (n := 9) hrun (by decide +kernel) hok (by decide +kernel)
    (by decide +kernel)).1

/-- The first Subscribe is accepted with subscription identifier 7, a second one for
the same filter with identifier 9 is rejected, and the resumed session is
subscribed with the handler of the first and the identifier of the second. -/
theorem resubscribed_with_rejected_identifier :
    let s := runActions durable [.connect (accept (receiveMax 5) false) 9,
      .subscribe 0 (subscription 1 7) true,
      .frame (.suback { packetID := 1, reasonCodes := [⟨1⟩] }) false true, .collect (.api 0),
      .subscribe 1 (subscription 2 9) true,
      .frame (.suback { packetID := 2, reasonCodes := [⟨0x80⟩] }) false true, .collect (.api 1),
      .readError]
    .registered ⟨[0x74], 1, { qos := 1 }, 1, 7⟩ ∈ s.hist ∧
      .returned (.api 0) (.subscribed ⟨1, ⟨1⟩⟩ none) ∈ s.hist ∧
      s.subs.subs = [⟨[0x74], 1, { qos := 1 }, 1, 9⟩] ∧
      .wrote 1 (resubscription .v50 ⟨[0x74], 1, { qos := 1 }, 1, 9⟩ 3) ∈
        (s.step (.connect (accept (receiveMax 5) true) 9)).hist ∧
      .replayFailed 1 ∉ (s.step (.connect (accept (receiveMax 5) true) 9)).hist := by
  decide +kernel

end GoMqtt.Client
