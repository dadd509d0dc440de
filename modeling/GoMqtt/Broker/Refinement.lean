import GoMqtt.Broker.Stream

/-! # The byte streams carry the packets

Whatever happens over byte streams happens in the system of packets: every move is
one act of it or none. The relation between the two says what a stream is at any
moment, the bytes of the packets that were written and not yet read, and that the
broker has never had a reason to complain. What the handshakes alone touch at the
broker is not compared. -/
namespace GoMqtt.Broker
open GoMqtt.Protocol GoMqtt.Protocol.Mock GoMqtt.Client GoMqtt.Inbound GoMqtt.Lib

/-! ## The broker, apart from the handshakes -/

def MockBroker.core (b : MockBroker) : MockBroker :=
  { b with rejectConnect := none, lastConnect := none, disconnectCount := 0 }

theorem core_script {b b' : MockBroker} (h : b.core = b'.core) (s : Script) :
    (b.script s).core = (b'.script s).core := by
  have hcore : ∀ b : MockBroker, (b.script s).core = (b.core.script s).core := by
    intro b
    cases s <;> rfl
  rw [hcore b, h, ← hcore b']

/-- Two turns that differ in what the handshakes touch at most. -/
structure Turn.Alike (t t' : Turn) : Prop where
  broker : t.broker.core = t'.broker.core
  replies : t.replies = t'.replies
  strict : t.strict = t'.strict
  leaves : t.leaves = t'.leaves

theorem replyPuback_core (b : MockBroker) (v : Version) (id : UInt16) :
    (b.replyPuback v id).Alike (b.core.replyPuback v id) := by
  dsimp only [MockBroker.replyPuback, MockBroker.core]
  cases (mockTakeCounter b.dropNextPuback).1 with
  | true => exact ⟨rfl, rfl, rfl, rfl⟩
  | false => cases hdup : b.dupNextPuback <;> exact ⟨rfl, rfl, rfl, rfl⟩

theorem replyPubrec_core (b : MockBroker) (v : Version) (id : UInt16) :
    (b.replyPubrec v id).Alike (b.core.replyPubrec v id) := by
  dsimp only [MockBroker.replyPubrec, MockBroker.core]
  cases (mockTakeCounter b.dropNextPubrec).1 <;> exact ⟨rfl, rfl, rfl, rfl⟩

theorem replyPubcomp_core (b : MockBroker) (v : Version) (id : UInt16) :
    (b.replyPubcomp v id).Alike (b.core.replyPubcomp v id) := by
  dsimp only [MockBroker.replyPubcomp, MockBroker.core]
  cases (mockTakeCounter b.dropNextPubcomp).1 <;> exact ⟨rfl, rfl, rfl, rfl⟩

theorem answerPing_core (b : MockBroker) : b.answerPing.Alike b.core.answerPing := by
  dsimp only [MockBroker.answerPing, MockBroker.core]
  cases hping : b.dropPings with
  | true => exact ⟨rfl, rfl, rfl, rfl⟩
  | false => cases (mockTakeCounter b.dropNextPings).1 <;> exact ⟨rfl, rfl, rfl, rfl⟩

theorem respond_core (b : MockBroker) (v : Version) {req : MockRequest}
    (h : ∀ info, req ≠ .connect info) : (b.respond v req).Alike (b.core.respond v req) := by
  cases req with
  | connect info => exact absurd rfl (h info)
  | publish p =>
    simp only [MockBroker.respond]
    split
    · exact replyPuback_core (b.recordPublished p) v p.packetID
    · split
      · exact replyPubrec_core (b.recordPublished p) v p.packetID
      · exact ⟨rfl, rfl, rfl, rfl⟩
  | pubrel a => exact replyPubcomp_core (b.recordAck a) v a.packetID
  | pingreq => exact answerPing_core b
  | _ => exact ⟨rfl, rfl, rfl, rfl⟩

theorem respond_alike {b b' : MockBroker} (h : b.core = b'.core) (v : Version) (p : Packet) :
    (b.respond v (heard p)).Alike (b'.respond v (heard p)) := by
  have hreq : ∀ info, heard p ≠ .connect info := by
    intro info
    cases p with
    | ack a => cases ht : a.type <;> simp [heard, ht]
    | _ => simp [heard]
  have hb := respond_core b v hreq
  have hb' := respond_core b' v hreq
  rw [h] at hb
  exact ⟨hb.broker.trans hb'.broker.symm, hb.replies.trans hb'.replies.symm,
    hb.strict.trans hb'.strict.symm, hb.leaves.trans hb'.leaves.symm⟩

/-! ## The relation -/

structure Sim (v : Version) (w : Net) (x : System) : Prop where
  client : x.client = w.client
  sane : Sane w.client
  speaks : w.client.cfg.protocolVersion = v
  broker : x.broker.core = w.broker.core
  closed : x.closed = w.closed
  version : ∀ l, l < w.client.nextLink → w.version l = some v
  cur : ∀ l, w.cur = some l → l < w.client.nextLink ∧ w.closed l = false
  fresh : ∀ l, w.client.nextLink ≤ l → x.up l = [] ∧ w.closed l = false
  up : ∀ l, w.up l = (x.up l).flatMap packetBytes
  legible : ∀ l, ∀ p ∈ x.up l, Legible v p
  down : ∀ l, Framed v (w.down l) (x.down l)
  complaints : w.complaints = []

theorem Sim.init (cfg : TCPConfig) :
    Sim cfg.protocolVersion (Net.init cfg) (System.init cfg) where
  client := rfl
  sane := sane_init cfg
  speaks := rfl
  broker := rfl
  closed := rfl
  version := fun l hl => absurd hl (Nat.not_lt_zero l)
  cur := fun l hl => absurd hl (by simp [Net.init])
  fresh := fun _ _ => ⟨rfl, rfl⟩
  up := fun _ => rfl
  legible := fun l p hp => absurd hp (by simp [System.init])
  down := fun _ => .nil
  complaints := rfl

section moves

variable {v : Version} {w : Net} {x : System}

/-- The client does something, whatever has become of the connection that injections go to
and of the frames it has read. -/
theorem Sim.carry (h : Sim v w x) (a : Action) (cur : Option LinkId) {down : LinkId → Bytes}
    {frames : LinkId → List Client.Frame} (hnext : w.client.nextLink ≤ (w.client.step a).nextLink)
    (hversion : ∀ l, l < (w.client.step a).nextLink → w.version l = some v)
    (hcur : ∀ l, cur = some l → l < (w.client.step a).nextLink ∧ w.closed l = false)
    (hdown : ∀ l, Framed v (down l) (frames l)) :
    Sim v ({ w with cur, down }.carry (w.client.step a))
      ({ x with down := frames }.carry (x.client.step a)) := by
  have hspeaks := step_speaks h.sane.wired h.sane.toGenuine a
  obtain ⟨es, hes, hwire⟩ := hspeaks.wire
  have hsent : (w.client.step a).hist.drop w.client.hist.length = es := by
    rw [hes, List.drop_left]
  have hcfg : (w.client.step a).cfg.protocolVersion = v := by rw [hspeaks.cfg, h.speaks]
  rw [h.speaks] at hwire
  rw [h.client]
  unfold Net.carry System.carry
  dsimp only
  rw [hsent]
  refine
    { client := rfl
      sane := h.sane.step a
      speaks := hcfg
      broker := h.broker
      closed := h.closed
      version := hversion
      cur := hcur
      fresh := fun l hl => ⟨?_, (h.fresh l (Nat.le_trans hnext hl)).2⟩
      up := fun l => by dsimp only; rw [h.up l, List.flatMap_append]
      legible := fun l p hp => ?_
      down := hdown
      complaints := h.complaints }
  · dsimp only
    rw [(h.fresh l (Nat.le_trans hnext hl)).1, List.nil_append, List.eq_nil_iff_forall_not_mem]
    intro p hp
    exact absurd (hwire l p (mem_sentOn.mp hp)).1 (Nat.not_lt.mpr hl)
  · rcases List.mem_append.mp hp with hp | hp
    · exact h.legible l p hp
    · exact (hwire l p (mem_sentOn.mp hp)).2

/-- A step that makes no link. -/
theorem Sim.calls (h : Sim v w x) {a : Action} (ha : a.connects = false)
    {down : LinkId → Bytes} {frames : LinkId → List Client.Frame}
    (hdown : ∀ l, Framed v (down l) (frames l)) :
    Sim v ({ w with down }.carry (w.client.step a))
      ({ x with down := frames }.carry (x.client.step a)) := by
  have hnext : (w.client.step a).nextLink = w.client.nextLink :=
    (Logs.any_step (s := w.client) (a := a) ha).2.2.1
  refine h.carry a w.cur ?_ ?_ ?_ hdown
  · exact hnext.ge
  · rw [hnext]
    exact h.version
  · rw [hnext]
    exact h.cur

/-- `serve` returns. -/
theorem Sim.leave (h : Sim v w x) {l : LinkId} (hl : l < w.client.nextLink) :
    Sim v (w.leave l) { x with closed := Function.update x.closed l true } where
  client := h.client
  sane := h.sane
  speaks := h.speaks
  broker := h.broker
  closed := by rw [h.closed]; rfl
  version := h.version
  cur := by
    intro l' hl'
    simp only [Net.leave] at hl'
    split at hl'
    · cases hl'
    · rename_i hne
      obtain ⟨hlt, hopen⟩ := h.cur l' hl'
      have hll : l' ≠ l := fun heq => hne (heq ▸ hl')
      exact ⟨hlt, by simpa [Net.leave, hll] using hopen⟩
  fresh := by
    intro l' hl'
    obtain ⟨hup, hopen⟩ := h.fresh l' hl'
    have hll : l' ≠ l := fun heq => absurd hl (Nat.not_lt.mpr (heq ▸ hl'))
    exact ⟨hup, by simpa [Net.leave, hll] using hopen⟩
  up := h.up
  legible := h.legible
  down := h.down
  complaints := h.complaints

/-- What a connection that is not to be does to the broker. -/
theorem Sim.hear (h : Sim v w x) {p : Packet} (hp : Legible v p)
    (hcore : ∀ b : MockBroker, (b.respond v (heard p)).broker.core = b.core) :
    Sim v (w.hear (some v) (packetBytes p)) x := by
  have hround := round_legible hp w.broker []
  rw [List.append_nil] at hround
  unfold Net.hear
  rcases hround with hround | hround <;> rw [hround]
  · exact h
  · exact { h with broker := h.broker.trans (hcore w.broker).symm }

theorem Sim.refuseConnack (h : Sim v w x) (n : Nat) : Sim v (w.refuseConnack n) x := by
  unfold Net.refuseConnack
  split
  · rename_i hv
    obtain rfl : v = .v50 := h.speaks.symm.trans hv.1
    exact h.hear (p := .disconnect ⟨.v50, .protocolErrorReason, none⟩) ⟨rfl, _, rfl⟩ fun _ => rfl
  · exact h

/-- The handshake touches nothing that is compared, and leaves the version of the next
link if the client gets its CONNACK. -/
theorem Sim.meet (h : Sim v w x) (c : ConnectConfig) (contact : Contact) :
    Sim v (w.meet c contact).2 x ∧ (w.meet c contact).2.client = w.client ∧
    ((w.meet c contact).1 ≠ .failed → (w.meet c contact).2.version w.client.nextLink = some v) := by
  have hdropped : Sim v { w with cur := none } x := { h with cur := nofun }
  have hanswer : ∀ info, Sim v { w with
      cur := none
      broker := (w.broker.answerConnect info).broker
      version := Function.update w.version w.client.nextLink (some v) } x := by
    intro info
    refine { hdropped with broker := h.broker, version := fun l hl => ?_ }
    exact (Function.update_of_ne (Nat.ne_of_lt hl) _ _).trans (h.version l hl)
  unfold Net.meet
  split
  · exact ⟨h, rfl, fun hne => absurd rfl hne⟩
  rename_i bytes hbytes
  split
  · exact ⟨h, rfl, fun hne => absurd rfl hne⟩
  rcases round_connect hbytes w.broker with ⟨-, hround⟩ | hround
  · dsimp only
    rw [hround]
    exact ⟨hdropped, rfl, fun hne => absurd rfl hne⟩
  · dsimp only
    rw [hround, h.speaks]
    dsimp only
    split
    · exact ⟨hanswer _, rfl, fun hne => absurd rfl hne⟩
    · exact ⟨hanswer _, rfl, fun _ => Function.update_self ..⟩

/-- The broker has taken a packet off a link and sent its replies. -/
theorem Sim.served (h : Sim v w x) {l : LinkId} (hl : l < w.client.nextLink) {p : Packet}
    {rest : List Packet} (hup : x.up l = p :: rest) {b b' : MockBroker} (hb : b.core = b'.core)
    {bytes : Bytes} {frames : List Client.Frame} (hsent : Framed v bytes frames) :
    Sim v
      { w with
        broker := b'
        version := Function.update w.version l (some v)
        up := Function.update w.up l (rest.flatMap packetBytes)
        down := Function.update w.down l (w.down l ++ bytes) }
      { x with
        broker := b
        up := Function.update x.up l rest
        down := Function.update x.down l (x.down l ++ frames) } := by
  refine { h with broker := hb, version := ?_, fresh := ?_, up := ?_, legible := ?_, down := ?_ }
  all_goals intro l'
  · intro hl'
    by_cases hll : l' = l
    · subst hll
      exact Function.update_self ..
    · exact (Function.update_of_ne hll _ _).trans (h.version l' hl')
  · intro hl'
    have hll : l' ≠ l := fun heq => absurd hl (Nat.not_lt.mpr (heq ▸ hl'))
    exact ⟨(Function.update_of_ne hll _ _).trans (h.fresh l' hl').1, (h.fresh l' hl').2⟩
  · by_cases hll : l' = l
    · subst hll
      simp
    · simpa [hll] using h.up l'
  · intro q hq
    by_cases hll : l' = l
    · subst hll
      refine h.legible l' q ?_
      rw [hup]
      exact List.mem_cons_of_mem _ (by simpa using hq)
    · exact h.legible l' q (by simpa [hll] using hq)
  · by_cases hll : l' = l
    · subst hll
      simpa using (h.down l').append hsent
    · simpa [hll] using h.down l'

end moves

/-! ## Every move -/

section steps

variable {v : Version} {w w' : Net} {x : System} {c : ConnectConfig} {care : Bool → Prop}

/-- Every move heeds `Prudent` for the flags in `care`. -/
def Minds (care : Bool → Prop) (c : ConnectConfig) (w : Net) (m : Move) : Prop :=
  ∀ lossless, care lossless → Prudent lossless c w m

/-- Every act heeds `Careful` for the flags in `care`. -/
def Heeds (care : Bool → Prop) (x : System) (a : Act) : Prop :=
  ∀ lossless, care lossless → Careful lossless x a

/-- What a move leads to is matched by some acts. -/
def Matched (care : Bool → Prop) (v : Version) (x : System) (w' : Net) : Prop :=
  ∃ as x', Run System.step (Heeds care) x as x' ∧ Sim v w' x'

theorem Sim.stays (h : Sim v w' x) : Matched care v x w' := ⟨[], x, .nil, h⟩

theorem Sim.acts {x' : System} (act : Act) (h : Sim v w' x') (hok : Heeds care x act)
    (hact : x.step act = some x') : Matched care v x w' := ⟨[act], x', .single hok hact, h⟩

theorem Net.client_some (care : Bool → Prop) (x : System) {a : Action}
    (h : w.step c (.client a) = some w') :
    a.connects = false ∧ w' = w.carry (w.client.step a) ∧
    x.step (.client a) = some (x.carry (x.client.step a)) ∧ Heeds care x (.client a) := by
  cases a with
  | frame => cases h
  | connect => cases h
  | _ =>
    cases h
    exact ⟨rfl, rfl, rfl, fun _ _ => trivial⟩

theorem Sim.matchClient (h : Sim v w x) {a : Action} (hs : w.step c (.client a) = some w') :
    Matched care v x w' := by
  obtain ⟨ha, rfl, hact, hok⟩ := Net.client_some care x hs
  exact (h.calls ha h.down).acts _ hok hact

theorem Sim.matchDial (h : Sim v w x) {contact : Contact} {n : Nat}
    (hok : Minds care c w (.dial contact n)) : Matched care v x (w.dial c contact n) := by
  obtain ⟨hmeet, hclient, hversion⟩ := h.meet c contact
  unfold Net.dial
  split
  · exact h.stays
  rename_i hlink
  simp only [Minds, Prudent] at hok
  generalize hm : w.meet c contact = met at hmeet hclient hversion hok ⊢
  obtain ⟨hs, w₁⟩ := met
  dsimp only at hmeet hclient hversion hok ⊢
  rw [← hclient] at hlink hversion hok
  cases hneg : State.negotiate w₁.client.cfg hs with
  | ok result =>
    have hnext := connect_nextLink n hlink hneg
    have hne : hs ≠ .failed := fun hf => by
      rw [hf] at hneg
      cases hneg
    refine Sim.acts (.client (.connect hs n)) (hmeet.carry (.connect hs n) _ ?_ ?_ ?_ hmeet.down) ?_ rfl
    · rw [hnext]
      exact Nat.le_succ _
    · intro l hl
      rw [hnext] at hl
      rcases Nat.lt_succ_iff_lt_or_eq.mp hl with hl | rfl
      · exact hmeet.version l hl
      · exact hversion hne
    · intro l hl
      cases hl
      rw [hnext]
      exact ⟨Nat.lt_succ_self _, (hmeet.fresh _ (Nat.le_refl _)).2⟩
    · intro lossless hcare hless
      rw [hmeet.client]
      exact hok lossless hcare hless
  | error e =>
    cases e with
    | wire e => exact (hmeet.refuseConnack n).stays
    | _ => exact hmeet.stays

theorem Sim.matchRead (h : Sim v w x) {torn io : Bool} (hs : w.read c torn io = some w') :
    Matched care v x w' := by
  unfold Net.read at hs
  split at hs
  · cases hs
  rename_i l hl
  rcases (h.down l).readFrame c.inboundMax with ⟨-, hread⟩ | ⟨e, rest, -, hread⟩ |
    ⟨f, rest, fs, hfs, hread, hrest⟩ <;> rw [hread] at hs
  · cases hs
  · cases hs
    exact (h.calls (a := .readError) rfl h.down).acts (.client .readError) (fun _ _ => trivial) rfl
  · cases hs
    have hdown : ∀ l', Framed v (Function.update w.down l rest l') (Function.update x.down l fs l') := by
      intro l'
      by_cases hll : l' = l
      · subst hll
        simpa using hrest
      · simpa [hll] using h.down l'
    have hact : x.step (.read torn io) = some ((x.taken l fs).carry
        (x.client.step (.frame (decodeFrame v f) torn io))) := by
      simp only [System.step, System.read, h.client, hl, Option.bind_eq_bind, Option.bind_some, hfs]
    rw [h.speaks]
    exact (h.calls (a := .frame (decodeFrame v f) torn io) rfl hdown).acts (.read torn io)
      (fun _ _ => trivial) hact

theorem Sim.matchServe (h : Sim v w x) {l : LinkId} {io : Bool}
    (hok : Minds care c w (.serve l io)) (hs : w.serve l io = some w') : Matched care v x w' := by
  unfold Net.serve at hs
  split at hs
  · cases hs
  rename_i hopen
  cases hup : x.up l with
  | nil =>
    rw [h.up l, hup] at hs
    cases hs
  | cons p rest =>
    have hl : l < w.client.nextLink := by
      refine Nat.lt_of_not_le fun hle => ?_
      rw [(h.fresh l hle).1] at hup
      cases hup
    have hp : Legible v p := h.legible l p (by rw [hup]; exact List.mem_cons_self)
    rw [h.up l, hup, List.flatMap_cons, h.version l hl] at hs
    rcases round_legible hp w.broker (rest.flatMap packetBytes) with hround | hround <;>
      rw [hround] at hs
    · cases hs
      exact (h.leave hl).acts (.cut l) (fun _ _ => trivial) rfl
    · have halike := respond_alike h.broker v p
      have hserve : x.step (.serve l io) = some { x with
          broker := (x.broker.respond v (heard p)).broker
          up := Function.update x.up l rest
          down := Function.update x.down l (x.down l ++
            if io then (x.broker.respond v (heard p)).replies.map MockReply.frame else [])
          closed := Function.update x.closed l ((x.broker.respond v (heard p)).leaves ||
            ((x.broker.respond v (heard p)).strict && !io)) } := by
        simp only [System.step, System.serve, h.closed, hopen, hup, h.client, h.speaks]
        rfl
      obtain ⟨bs, hbs, hframed⟩ := framed_replies fun r => respond_sends hp w.broker (r := r)
      have hsent : ∃ sent, (w.broker.respond v (heard p)).sent io = sent ∧ sent.isNone = !io ∧
          Framed v (sent.getD []) (if io then
            (x.broker.respond v (heard p)).replies.map MockReply.frame else []) := by
        unfold Turn.sent
        rw [halike.replies, hbs]
        cases io with
        | true => exact ⟨_, rfl, rfl, hframed⟩
        | false => exact ⟨_, rfl, rfl, .nil⟩
      obtain ⟨sent, hsent, hnone, hframed⟩ := hsent
      have hserved := h.served hl hup halike.broker hframed
      rw [halike.leaves, halike.strict] at hserve
      dsimp only at hs
      rw [hsent, hnone] at hs
      cases hs
      cases hleaves : (w.broker.respond v (heard p)).leaves ||
          ((w.broker.respond v (heard p)).strict && !io) with
      | true =>
        rw [hleaves] at hserve
        exact (hserved.leave hl).acts (.serve l io) hok hserve
      | false =>
        rw [hleaves, ← show x.closed l = false by rw [h.closed]; simpa using hopen,
          Function.update_eq_self] at hserve
        exact hserved.acts (.serve l io) hok hserve

theorem publish_whole {p : PublishPacket} {b : Bytes} (h : p.encode = .ok b) :
    ∃ f, Whole b f ∧ f.packetType = some .publish := by
  obtain ⟨hqos, -, -, topic, block, -, -, hw⟩ := PublishPacket.encode_ok.mp h
  have hwhole : Whole b ⟨p.header, topic ++ p.idBytes ++ block ++ p.payload⟩ := hw
  obtain ⟨-, -, -, htype⟩ := PublishPacket.header_flags hqos
  refine ⟨_, hwhole, ?_⟩
  rw [Frame.packetType, htype]
  rfl

theorem decodeFrame_publish_unrelated (v : Version) {f : Protocol.Frame}
    (h : f.packetType = some .publish) : (decodeFrame v f).unrelated = true := by
  unfold decodeFrame
  split
  · rfl
  · rw [h]
    dsimp only
    split <;> rfl

/-- What a test injects is a frame, and an acknowledgement only if injected as bytes. -/
theorem injected_whole {i : Injection} {id : UInt16} {b : Bytes} (h : i.encode v id = .ok b)
    (hraw : ∀ b, i = .raw b → oneFrame b = true) :
    ∃ f, Whole b f ∧
      ((∀ b, i = .raw b → noAcknowledgement v b = true) → (decodeFrame v f).unrelated = true) := by
  cases i with
  | publish topic payload qos retain props =>
    obtain ⟨f, hf, htype⟩ := publish_whole h
    exact ⟨f, hf, fun _ => decodeFrame_publish_unrelated v htype⟩
  | disconnect reason =>
    have hflags := disconnect_flags
    rcases DisconnectPacket.encode_ok.mp h with ⟨-, hw⟩ | ⟨-, -, block, -, hw⟩
    · refine ⟨⟨_, _⟩, hw, fun _ => ?_⟩
      simp only [decodeFrame, (hflags _).1, (hflags _).2]
      rfl
    · refine ⟨⟨_, _⟩, hw, fun _ => ?_⟩
      simp only [decodeFrame, (hflags _).1, (hflags _).2]
      rfl
  | auth =>
    cases h
    exact ⟨_, whole_of_mock (by decide), fun _ => rfl⟩
  | raw b' =>
    cases h
    have hone := hraw b rfl
    unfold oneFrame at hone
    split at hone
    · rename_i f _ hread
      rw [decide_eq_true_eq] at hone
      refine ⟨f, hone, fun hack => ?_⟩
      have hack := hack b rfl
      rw [noAcknowledgement, hread] at hack
      exact hack
    · cases hone

theorem Sim.matchInject (h : Sim v w x) {i : Injection} (hone : Framing w (.inject i))
    (hok : Minds care c w (.inject i)) : Matched care v x (w.inject i) := by
  unfold Net.inject
  split
  · exact h.stays
  rename_i l hl
  obtain ⟨hlt, hopen⟩ := h.cur l hl
  have h₁ : Sim v (w.spend l i) x := by
    unfold Net.spend
    split
    · exact { h with }
    · exact h
  rw [h.version l hlt, Option.getD_some]
  split
  · exact h₁.stays
  rename_i b hb
  obtain ⟨f, hf, hunrelated⟩ := injected_whole hb fun b' hi => by
    subst hi
    exact hone
  have hact : x.step (.inject l (decodeFrame v f)) = some
      { x with down := Function.update x.down l (x.down l ++ [decodeFrame v f]) } := by
    simp only [System.step, System.inject, h.closed, hopen, h.client]
    rw [if_neg (by simpa using hlt)]
  have hsim : Sim v { w.spend l i with down := Function.update w.down l (w.down l ++ b) }
      { x with down := Function.update x.down l (x.down l ++ [decodeFrame v f]) } := by
    refine { h₁ with down := fun l' => ?_ }
    by_cases hll : l' = l
    · subst hll
      simpa using (h.down l').append (.one hf)
    · simpa [hll] using h.down l'
  refine hsim.acts (.inject l (decodeFrame v f)) (fun lossless hcare => ?_) hact
  refine hunrelated fun b' hi => ?_
  subst hi
  rw [← h.speaks]
  exact hok lossless hcare

/-- Every move is matched. -/
theorem Sim.step (h : Sim v w x) {m : Move} (hone : Framing w m) (hok : Minds care c w m)
    (hs : w.step c m = some w') : Matched care v x w' := by
  cases m with
  | client a => exact h.matchClient hs
  | dial contact n =>
    cases hs
    exact h.matchDial hok
  | read torn io => exact h.matchRead hs
  | serve l io => exact h.matchServe hok hs
  | script s =>
    cases hs
    have hscript : Sim v { w with broker := w.broker.script s }
        { x with broker := x.broker.script s } := { h with broker := core_script h.broker s }
    refine hscript.acts (.script s) (fun lossless hcare => ?_) rfl
    have hok := hok lossless hcare
    cases s <;> exact hok
  | inject i =>
    cases hs
    exact h.matchInject hone hok
  | cut l =>
    simp only [Net.step] at hs
    split at hs
    · rename_i hl
      cases hs
      exact (h.leave hl).acts (.cut l) (fun _ _ => trivial) rfl
    · cases hs

end steps

/-- A run over byte streams from its start. -/
def Net.Runs (ok : Net → Move → Prop) (c : ConnectConfig) (cfg : TCPConfig) (ms : List Move)
    (w : Net) : Prop := Run (Net.step c) ok (Net.init cfg) ms w

/-- Over byte streams nothing happens that does not happen with packets: where what is
injected as bytes is one frame, some run of the system of packets ends with the same client
and a broker with the same records, each stream holds the bytes of the packets on that
channel, one after the other, and the broker has had nothing to complain of. A run that is
prudent over the streams is careful with the packets. -/
theorem streams_carry_packets {c : ConnectConfig} {cfg : TCPConfig} {ms : List Move} {w : Net}
    (h : Net.Runs Framing c cfg ms w) :
    ∃ as x, Runs anyStep cfg as x ∧
      (∀ lossless, Net.Runs (Prudent lossless c) c cfg ms w → Runs (Careful lossless) cfg as x) ∧
      x.client = w.client ∧ x.broker.core = w.broker.core ∧ w.complaints = [] ∧
      ∀ l, w.up l = (x.up l).flatMap packetBytes ∧
        Framed cfg.protocolVersion (w.down l) (x.down l) := by
  let care lossless := Net.Runs (Prudent lossless c) c cfg ms w
  have hminds : Run (Net.step c) (fun w m => Framing w m ∧ Minds care c w m) (Net.init cfg) ms w :=
    Run.inter h fun _ hprudent => hprudent
  obtain ⟨as, x, hrun, hsim⟩ := hminds.simulated (Sim.init cfg) fun t m u y hy hok hs =>
    hy.step hok.1 hok.2 hs
  exact ⟨as, x, hrun.any, fun lossless hprudent => hrun.mono fun _ _ hheeds => hheeds lossless hprudent,
    hsim.client, hsim.broker, hsim.complaints, fun l => ⟨hsim.up l, hsim.down l⟩⟩

/-- A client that asks to keep its session. -/
def lasting : TCPConfig := { protocolVersion := .v311 }

def named : ConnectConfig := { clientID := [0x63] }

/-- A connect that resumes a session, and two messages of which the broker has served one. -/
def overStreams : List Move :=
  [.script (.setSessionPresent true), .dial .answered 2, .client (.publish 0 (message 2) true),
    .client (.publish 1 (message 1) true), .serve 0 true]

theorem streams_carry_packets_overStreams :
    ∃ w as x, Net.Runs Framing named lasting overStreams w ∧
      Net.Runs (Prudent true named) named lasting overStreams w ∧
      Runs (Careful true) lasting as x ∧ x.client.link = some 0 ∧
      w.up 0 = [0x32, 0x05, 0x00, 0x01, 0x74, 0x00, 0x02] ∧ w.down 0 = [0x50, 0x02, 0x00, 0x01] ∧
      w.up 0 = (x.up 0).flatMap packetBytes ∧ Framed .v311 (w.down 0) (x.down 0) := by
  have hview : (execOk (Net.step named) (fun w m => Framing w m ∧ Prudent true named w m)
      (Net.init lasting) overStreams).map (fun w => (w.client.link, w.up 0, w.down 0)) =
      some (some 0, [0x32, 0x05, 0x00, 0x01, 0x74, 0x00, 0x02], [0x50, 0x02, 0x00, 0x01]) := by
    decide +kernel
  obtain ⟨w, hw, hview⟩ := Option.map_eq_some_iff.mp hview
  simp only [Prod.mk.injEq] at hview
  obtain ⟨hlink, hup, hdown⟩ := hview
  have hrun := Run.of_execOk hw
  have hframing : Net.Runs Framing named lasting overStreams w := hrun.mono fun _ _ => And.left
  have hprudent : Net.Runs (Prudent true named) named lasting overStreams w :=
    hrun.mono fun _ _ => And.right
  obtain ⟨as, x, -, hcareful, hclient, -, -, hstreams⟩ := streams_carry_packets hframing
  exact ⟨w, as, x, hframing, hprudent, hcareful true hprudent, by rw [hclient, hlink], hup, hdown,
    hstreams 0⟩

end GoMqtt.Broker
