import GoMqtt.Broker.UnderWay
import GoMqtt.Client.Vouch

/-! # A Publish that returned nil has arrived

The broker acknowledges a PUBLISH after it has recorded it, and the PUBREL of an
exchange only goes out after a PUBREC. So the acknowledgements on the live link vouch
for the PUBLISHes they are for, and what a successful Publish was asked to send is
among the broker's records, whatever links were lost on the way. -/
namespace GoMqtt.Broker
open GoMqtt.Protocol GoMqtt.Session GoMqtt.Client GoMqtt.Lib
open scoped List

/-- What the broker records of a PUBLISH. -/
def recordOf (p : PublishPacket) : MockPublished :=
  ⟨p.topic, p.payload, p.qos, p.retain, p.dup, p.properties⟩

/-- The broker has the PUBLISH, as a first delivery or as a repeated one. -/
def Arrived (b : MockBroker) (p : PublishPacket) : Prop :=
  ∃ dup, recordOf { p.normalised with dup } ∈ b.published

/-! ## What the broker forgets -/

/-- No turn takes a record away, and a PUBLISH is recorded. -/
theorem published_respond (b : MockBroker) (v : Version) (req : MockRequest) :
    (b.respond v req).broker.published =
      b.published ++ (match req with
        | .publish p => [recordOf p]
        | _ => []) := by
  cases req with
  | publish p =>
    simp only [MockBroker.respond]
    split
    · unfold MockBroker.replyPuback
      dsimp only
      split
      · rfl
      · split <;> rfl
    · split
      · unfold MockBroker.replyPubrec
        dsimp only
        split <;> rfl
      · rfl
  | pubrel a =>
    simp only [MockBroker.respond, MockBroker.replyPubcomp, List.append_nil]
    split <;> rfl
  | pingreq =>
    simp only [MockBroker.respond, MockBroker.answerPing, List.append_nil]
    split
    · rfl
    · split <;> rfl
  | _ => simp [MockBroker.respond, MockBroker.answerConnect, MockBroker.recordConnect,
      MockBroker.recordSubscriptions, MockBroker.recordAck]

theorem published_script (b : MockBroker) (c : Script) : (b.script c).published = b.published := by
  cases c <;> rfl

theorem Arrived.mono {b b' : MockBroker} {p : PublishPacket} (h : Arrived b p)
    (hb : ∀ r ∈ b.published, r ∈ b'.published) : Arrived b' p := by
  obtain ⟨dup, hr⟩ := h
  exact ⟨dup, hb _ hr⟩

/-! ## The invariant -/

theorem awaits_publish_id {p : PublishPacket} {d : UInt16 × PacketType}
    (h : awaits (.publish p) = some d) : d.1 = p.packetID := by
  simp only [awaits] at h
  split at h
  · cases h
    rfl
  · split at h
    · cases h
      rfl
    · cases h

theorem awaits_ack {a : AckPacket} {d : UInt16 × PacketType} (h : awaits (.ack a) = some d) :
    d.2 = .pubcomp := by
  simp only [awaits] at h
  split at h
  · cases h
    rfl
  · cases h

theorem acked_eq (f : Client.Frame) : f.acked = (answers f).map Prod.fst := by cases f <;> rfl

/-- On the live link a PUBLISH on its way up is the last one under its identifier, and an
acknowledgement on its way down vouches for it. -/
structure Delivering (lossless : Bool) (x : System) : Prop where
  tracked : Tracked lossless x
  audit : (view x.client).Audit
  vouched : (view x.client).Vouched (Arrived x.broker)
  up : ∀ l, x.client.link = some l → ∀ p, .publish p ∈ x.up l → (awaits (.publish p)).isSome →
    ∃ q, lastSent x.client.hist p.packetID = some q ∧ p = { q with dup := p.dup }
  down : ∀ l, x.client.link = some l → ∀ f ∈ x.down l, Vouches (Arrived x.broker) x.client.hist f

section steps

variable {lossless : Bool} {x y : System}

/-- An identifier under way on the live link is in use. -/
theorem Tracked.inUse (h : Tracked lossless x) {l : LinkId} (hl : x.client.link = some l)
    {d : UInt16 × PacketType} (hd : d ∈ x.underWay l) : x.client.ids.inUse d.1 = true := by
  obtain ⟨m, hm, rfl⟩ := List.mem_map.mp ((h.covers l hl).mem hd)
  rw [due_id]
  exact h.sane.inv.used_out m hm

/-- What the client reads next is of the right kind and vouches. -/
theorem Delivering.reads (h : Delivering lossless x) {l : LinkId} (hl : x.client.link = some l)
    {f : Client.Frame} {rest : List Client.Frame} (hd : x.down l = f :: rest) :
    InKind (outbound x.client.store) f ∧ Vouches (Arrived x.broker) x.client.hist f :=
  ⟨h.tracked.inKind hl hd, h.down l hl f (hd ▸ List.mem_cons_self)⟩

/-- The session's side of a client step. -/
theorem Delivering.session (h : Delivering lossless x) {a : Action}
    (hframe : ∀ f torn io, a = .frame f torn io →
      ∃ l rest, x.client.link = some l ∧ x.down l = f :: rest) :
    (view (x.client.step a)).Audit ∧ (view (x.client.step a)).Vouched (Arrived x.broker) := by
  have hok : ∀ f torn io, a = .frame f torn io →
      InKind (outbound x.client.store) f ∧ Vouches (Arrived x.broker) x.client.hist f := by
    intro f torn io heq
    obtain ⟨l, rest, hl, hd⟩ := hframe f torn io heq
    exact h.reads hl hd
  refine ⟨?_, Vouched.step h.tracked.sane.wired h.tracked.sane.inv h.audit h.vouched hok⟩
  have hrefines : Refines (fun v f => InKind v.out f) anyRoll x.client (x.client.step a) :=
    step_refines h.tracked.sane.wired h.tracked.sane.inv (allowed_of_frame fun f torn io heq =>
      (hok f torn io heq).1)
  exact (Session.Moves.invariant hrefines.2 h.tracked.sane.inv h.audit
    fun v w hi ha hm => ha.move hi hm).2

/-- The client moves on without a connect; a PUBLISH it writes is the one it sent last. -/
theorem Delivering.moves {x' : System} (h : Delivering lossless x) {a : Action}
    (hup : x'.up = x.up) (hdown : ∀ l, ∀ f ∈ x'.down l, f ∈ x.down l)
    (hbroker : x'.broker = x.broker) (hclient : x'.client = x.client)
    (htracked : Tracked lossless (x'.carry (x.client.step a))) (ha : a.connects = false)
    (hframe : ∀ f torn io, a = .frame f torn io →
      ∃ l rest, x.client.link = some l ∧ x.down l = f :: rest) {es : List Event}
    (hes : (x.client.step a).hist = x.client.hist ++ es)
    (hlast : ∀ id, x.client.ids.inUse id = true →
      lastSent (x.client.step a).hist id = lastSent x.client.hist id)
    (hwrote : ∀ l p, .publish p ∈ sentOn l es → (awaits (.publish p)).isSome →
      lastSent (x.client.step a).hist p.packetID = some p) :
    Delivering lossless (x'.carry (x.client.step a)) := by
  obtain ⟨hlink, -, -⟩ := step_links (s := x.client) ha
  have hlive : ∀ l, (x.client.step a).link = some l → x.client.link = some l := by
    intro l hl
    rcases hlink with heq | heq
    · rw [← heq]
      exact hl
    · rw [heq] at hl
      cases hl
  obtain ⟨haudit, hvouched⟩ := h.session hframe
  refine ⟨htracked, haudit, hbroker ▸ hvouched, fun l hl p hp hawaits => ?_, fun l hl f hf => ?_⟩
  · have hl' := hlive l hl
    replace hp : .publish p ∈ x'.up l ++ sentOn l ((x.client.step a).hist.drop
      x'.client.hist.length) := hp
    rw [hclient, hes, List.drop_left, hup] at hp
    rcases List.mem_append.mp hp with hp | hp
    · obtain ⟨q, hq, hpq⟩ := h.up l hl' p hp hawaits
      refine ⟨q, ?_, hpq⟩
      obtain ⟨d, hd⟩ := Option.isSome_iff_exists.mp hawaits
      have huse := h.tracked.inUse hl'
        (List.mem_append_left _ (List.mem_filterMap.mpr ⟨_, hp, hd⟩))
      rw [awaits_publish_id hd] at huse
      rw [show (x'.carry (x.client.step a)).client.hist = (x.client.step a).hist from rfl,
        hlast _ huse]
      exact hq
    · exact ⟨p, hwrote l p hp hawaits, rfl⟩
  · have hl' := hlive l hl
    have hf' : f ∈ x.down l := hdown l f hf
    intro id hid p hp
    rw [acked_eq] at hid
    obtain ⟨d, hd, rfl⟩ := Option.map_eq_some_iff.mp hid
    have huse := h.tracked.inUse hl'
      (List.mem_append_right _ (List.mem_filterMap.mpr ⟨f, hf', hd⟩))
    rw [show (x'.carry (x.client.step a)).client.hist = (x.client.step a).hist from rfl,
      hlast _ huse] at hp
    have hold := h.down l hl' f hf' d.1 (by rw [acked_eq, hd]; rfl) p hp
    rw [show (x'.carry (x.client.step a)).broker = x.broker from hbroker]
    exact hold

/-- A PUBLISH that asks for an acknowledgement is a leg. -/
theorem mem_legsOn_of_awaits {l : LinkId} {es : List Event} {p : Packet} (hp : p ∈ sentOn l es)
    (hawaits : (awaits p).isSome) : p ∈ legsOn l es := by
  refine List.mem_filter.mpr ⟨hp, ?_⟩
  cases hleg : leg p with
  | none => simp [awaits_of_leg hleg] at hawaits
  | some d => rfl

/-- Whatever the client does other than read and connect. -/
theorem Delivering.call (h : Delivering lossless x) {a : Action} (ha : a.connects = false)
    (hframe : ∀ f torn io, a ≠ .frame f torn io) :
    Delivering lossless (x.carry (x.client.step a)) := by
  have hmoves := fun es (hes : (x.client.step a).hist = x.client.hist ++ es) =>
    h.moves rfl (fun _ _ hf => hf) rfl rfl (h.tracked.call ha hframe) ha
      (fun f torn io heq => absurd heq (hframe f torn io)) hes
  rcases call_traffic h.tracked.sane.wired h.tracked.sane.inv ha hframe with
      hq | ⟨c, req, l, -, heq⟩ | ⟨c, l, p, hs, -⟩
  · obtain ⟨es, hes, hbears⟩ := hq.wire
    refine hmoves _ hes (fun id _ => ?_) fun l p hp hawaits => ?_
    · rw [hes, lastSent_append (not_sent_of_bears hbears)]
    · have hmem := mem_legsOn_of_awaits hp hawaits
      rw [legsOn_eq_nil hbears] at hmem
      cases hmem
  · have hes : (x.client.step a).hist = x.client.hist ++ [.invoked c req] := by
      rw [heq]
      rfl
    refine hmoves _ hes (fun id _ => ?_) fun l p hp _ => ?_
    · rw [hes, lastSent_append (by simp)]
    · simp [sentOn] at hp
  · obtain ⟨es, hes, hbears⟩ := hs.wire
    have hlast : ∀ id, lastSent (x.client.step a).hist id =
        if p.packetID = id then some p else lastSent x.client.hist id := by
      intro id
      rw [hes, show x.client.hist ++ (es ++ [.wrote l (.publish p), .sent c l p]) =
        (x.client.hist ++ (es ++ [.wrote l (.publish p)])) ++ [.sent c l p] by simp, lastSent_sent,
        lastSent_append]
      intro c' l' p' hm
      rcases List.mem_append.mp hm with hm | hm
      · exact not_sent_of_bears hbears c' l' p' hm
      · simp at hm
    refine hmoves _ hes (fun id huse => ?_) fun l' p' hp hawaits => ?_
    · rw [hlast, if_neg]
      intro heq
      rw [← heq, hs.free] at huse
      cases huse
    · have hmem := mem_legsOn_of_awaits hp hawaits
      rw [legsOn_append, legsOn_eq_nil hbears] at hmem
      have hpp : p' = p := by
        have hin := (mem_sentOn.mp (List.mem_filter.mp hmem).1)
        simp at hin
        exact hin.2
      rw [hlast, hpp, if_pos rfl]

theorem Delivering.read {torn io : Bool} (h : Delivering lossless x)
    (hy : x.read torn io = some y) : Delivering lossless y := by
  have htracked := h.tracked.read hy
  obtain ⟨l, f, rest, hl, hd, rfl⟩ := System.read_some hy
  have htame := frame_tame f torn io h.tracked.sane.inv (h.tracked.sane.wired.live l hl).2
  rw [← State.step_frame hl f torn io] at htame
  obtain ⟨es, hes, hsent⟩ := htame.wire
  obtain ⟨es', hes', hnone⟩ := frame_publishes_nothing x.client l f torn io
  rw [← State.step_frame hl f torn io, hes] at hes'
  obtain rfl := List.append_cancel_left hes'
  refine h.moves (a := .frame f torn io) rfl (fun l' g hg => ?_) rfl rfl htracked rfl ?_ hes
    (fun id _ => by rw [hes, lastSent_append hsent]) fun l' p hp hawaits => ?_
  · by_cases hne : l' = l
    · subst hne
      rw [hd]
      refine List.mem_cons_of_mem _ ?_
      simpa [System.taken] using hg
    · simpa [System.taken, hne] using hg
  · intro f' torn' io' heq
    cases heq
    exact ⟨l, rest, hl, hd⟩
  · cases hnone _ (mem_sentOn.mp hp)

/-- A connect sends the stored PUBLISHes again, each the last one under its identifier. -/
theorem Delivering.connect (h : Delivering lossless x) (hs : State.Handshake) (n : Nat)
    (hcareful : lossless = true → Unlimited x.client.cfg hs) :
    Delivering lossless (x.carry (x.client.step (.connect hs n))) := by
  have htracked := h.tracked.connect hs n hcareful
  have hsession := h.session (a := .connect hs n) (by simp)
  rcases connect_traffic hs n h.tracked.sane.toGenuine.sendable with heq | ⟨result, -, hre⟩
  · have hsame : x.carry (x.client.step (.connect hs n)) = x := by
      rw [heq]
      simp [System.carry, sentOn]
    rw [hsame]
    exact h
  obtain ⟨es, hes, horigin, -, hsub, -⟩ := hre.wire
  have hlast : ∀ id, lastSent (x.client.step (.connect hs n)).hist id =
      lastSent x.client.hist id := by
    intro id
    rw [hes, lastSent_append fun c l p hm => horigin _ hm rfl]
  have hnew : ∀ l, (x.client.step (.connect hs n)).link = some l → l = x.client.nextLink := by
    intro l hl
    rcases hre.link with heq | heq <;> rw [heq] at hl
    · cases hl
    · exact (Option.some.inj hl).symm
  have hfresh := List.append_eq_nil_iff.mp (h.tracked.fresh x.client.nextLink le_rfl)
  refine ⟨htracked, hsession.1, hsession.2, fun l hl p hp hawaits => ?_, fun l hl f hf => ?_⟩
  · obtain rfl := hnew l hl
    replace hp : .publish p ∈ x.up x.client.nextLink ++ sentOn x.client.nextLink
      ((x.client.step (.connect hs n)).hist.drop x.client.hist.length) := hp
    rw [hes, List.drop_left] at hp
    rcases List.mem_append.mp hp with hp | hp
    · obtain ⟨d, hd⟩ := Option.isSome_iff_exists.mp hawaits
      have hmem : d ∈ (x.up x.client.nextLink).filterMap awaits :=
        List.mem_filterMap.mpr ⟨_, hp, hd⟩
      rw [hfresh.1] at hmem
      cases hmem
    · have hleg := hsub.subset (mem_legsOn_of_awaits hp hawaits)
      obtain ⟨m, hm, hreplay⟩ := List.mem_filterMap.mp hleg
      have hm' : m ∈ outbound x.client.store := by
        rw [hre.out] at hm
        split at hm
        · cases hm
        · exact hm
      obtain ⟨q, hq, hpub, -⟩ := h.audit.exchange m hm'
      rw [lastSent_view] at hq
      cases hk : m.kind with
      | publish =>
        obtain ⟨r, hr, hrid⟩ := h.tracked.sane.inv.packet m hm' hk
        obtain rfl : r = q := Option.some.inj (hr.symm.trans (hpub hk))
        simp only [State.replayPacket, hk, hr, Option.map_some, Option.some.injEq,
          Packet.publish.injEq] at hreplay
        subst hreplay
        refine ⟨r, ?_, rfl⟩
        show lastSent (x.client.step (.connect hs n)).hist r.packetID = some r
        rw [hlast, hrid]
        exact hq
      | pubrel => simp [State.replayPacket, hk] at hreplay
      | inboundID => simp [State.replayPacket, hk] at hreplay
  · obtain rfl := hnew l hl
    intro id hid
    rw [acked_eq] at hid
    obtain ⟨d, hd, -⟩ := Option.map_eq_some_iff.mp hid
    have hmem : d ∈ (x.down x.client.nextLink).filterMap answers :=
      List.mem_filterMap.mpr ⟨f, hf, hd⟩
    rw [hfresh.2] at hmem
    cases hmem

/-- The broker serves a request: what it acknowledges it has. -/
theorem Delivering.serve {l : LinkId} {io : Bool} (h : Delivering lossless x)
    (hy : x.serve l io = some y) (hio : lossless = true → io = true) : Delivering lossless y := by
  have htracked := h.tracked.serve hy hio
  obtain ⟨-, p, rest, turn, hu, hturn, rfl⟩ := System.serve_some hy
  have hacks := respond_acks h.tracked.broker x.client.cfg.protocolVersion p
  have hpublished := published_respond x.broker x.client.cfg.protocolVersion (heard p)
  rw [← hturn] at hacks hpublished
  have hgrow : ∀ q, Arrived x.broker q → Arrived turn.broker q := by
    intro q hq
    refine hq.mono fun r hr => ?_
    rw [hpublished]
    exact List.mem_append_left _ hr
  refine ⟨htracked, h.audit, h.vouched.mono hgrow, fun l' hl' q hq hawaits => ?_,
    fun l' hl' f hf => ?_⟩
  · refine h.up l' hl' q ?_ hawaits
    by_cases hne : l' = l
    · subst hne
      rw [hu]
      refine List.mem_cons_of_mem _ ?_
      simpa using hq
    · simpa [hne] using hq
  · by_cases hne : l' = l
    · subst hne
      simp only [Function.update_self] at hf
      rcases List.mem_append.mp hf with hf | hf
      · exact (h.down l' hl' f hf).mono hgrow
      -- a new reply: the acknowledgement of the packet just served
      intro id hid q hq
      rw [acked_eq] at hid
      obtain ⟨d, hd, rfl⟩ := Option.map_eq_some_iff.mp hid
      have hmem : d ∈ acksOf turn.replies := by
        split at hf
        · exact List.mem_filterMap.mpr ⟨f, hf, hd⟩
        · cases hf
      have hawaits : awaits p = some d := by
        rcases hacks.replies with hr | hr <;> rw [hr] at hmem
        · cases hmem
        · exact Option.mem_toList.mp hmem
      have htoken : d ∈ x.underWay l' := by
        refine List.mem_append_left _ (List.mem_filterMap.mpr ⟨p, ?_, hawaits⟩)
        rw [hu]
        exact List.mem_cons_self
      cases p with
      | publish p =>
        obtain ⟨r, hr, hpr⟩ := h.up l' hl' p (hu ▸ List.mem_cons_self) (by rw [hawaits]; rfl)
        rw [awaits_publish_id hawaits] at hq
        obtain rfl : r = q := Option.some.inj (hr.symm.trans hq)
        refine ⟨p.dup, ?_⟩
        rw [hpublished]
        refine List.mem_append_right _ (List.mem_singleton.mpr ?_)
        rw [hpr]
        rfl
      | ack a =>
        obtain ⟨m, hm, rfl⟩ := List.mem_map.mp ((h.tracked.covers l' hl').mem htoken)
        rcases due_kind (h.tracked.sane.inv.outbound m hm) with ⟨-, hne⟩ | ⟨hk, -⟩
        · exact absurd (awaits_ack hawaits) hne
        · refine hgrow q (h.vouched.exchange m hm hk q ?_)
          rw [lastSent_view, ← due_id]
          exact hq
      | _ => cases hawaits
    · exact (h.down l' hl' f (by simpa [hne] using hf)).mono hgrow

theorem Delivering.step {act : Act} (h : Delivering lossless x) (hok : Careful lossless x act)
    (hy : x.step act = some y) : Delivering lossless y := by
  cases act with
  | client a =>
    obtain ⟨hframe, rfl⟩ := System.client_some hy
    cases a with
    | connect hs n => exact h.connect hs n hok
    | _ => exact h.call rfl hframe
  | read torn io => exact h.read hy
  | serve l io => exact h.serve hy hok
  | script c =>
    have htracked := h.tracked.step hok hy
    cases hy
    have hgrow : ∀ q, Arrived x.broker q → Arrived (x.broker.script c) q := by
      intro q hq
      exact hq.mono fun r hr => published_script x.broker c ▸ hr
    exact ⟨htracked, h.audit, h.vouched.mono hgrow, h.up,
      fun l hl f hf => (h.down l hl f hf).mono hgrow⟩
  | inject l f =>
    have htracked := h.tracked.step hok hy
    obtain rfl := System.inject_some hy
    refine ⟨htracked, h.audit, h.vouched, h.up, fun l' hl' g hg => ?_⟩
    by_cases hne : l' = l
    · subst hne
      simp only [Function.update_self] at hg
      rcases List.mem_append.mp hg with hg | hg
      · exact h.down l' hl' g hg
      · intro id hid
        rw [List.mem_singleton.mp hg, acked_eq, answers_of_unrelated hok] at hid
        cases hid
    · exact h.down l' hl' g (by simpa [hne] using hg)
  | cut l =>
    have htracked := h.tracked.step hok hy
    cases hy
    exact ⟨htracked, h.audit, h.vouched, h.up, h.down⟩

end steps

/-! ## Whole runs -/

variable {lossless : Bool} {cfg : TCPConfig} {as : List Act} {x : System}

theorem Runs.delivering (h : Runs (Careful lossless) cfg as x) : Delivering lossless x := by
  refine Run.invariant h ?_ fun y act z hy hok hz => hy.step hok hz
  refine ⟨Runs.tracked .nil, audit_init cfg, ⟨?_, ?_, ?_⟩, ?_, ?_⟩ <;>
    simp [System.init, newTCPClient, view, outbound]

/-- The properties of a Publish go over the wire as they are. -/
theorem carries_buildPublishProps (v : Version) (req : PublishRequest) :
    v.carries (State.buildPublishProps v req) = State.buildPublishProps v req := by
  cases v with
  | v311 => simp [Version.carries, State.buildPublishProps]
  | v50 =>
    unfold Version.carries normalise
    dsimp only
    split
    · rename_i hempty
      rw [hempty]
      unfold State.buildPublishProps at hempty
      dsimp only at hempty
      split at hempty
      · cases hempty
      · rename_i hsome
        simp only [Option.some.injEq, Properties.mk.injEq, true_and, and_true, ite_eq_right_iff,
          reduceCtorEq, imp_false, Bool.not_eq_true] at hempty
        obtain ⟨hformat, hexpiry, htype, htopic, hdata, huser⟩ := hempty
        refine absurd (.inr ?_) hsome
        rw [hformat, hexpiry, htype, htopic, hdata, huser]
        rfl
    · rfl

end GoMqtt.Broker
