import GoMqtt.Broker.System
import GoMqtt.Client.Outbox
import GoMqtt.Lib.Flight

/-! # One packet per exchange under way

An unfinished outbound exchange waits for one acknowledgement. On the live link the
packet that asks for it and the acknowledgement itself are one token: the PUBLISH or
the PUBREL on its way up, then the PUBACK, PUBREC or PUBCOMP on its way down. No
exchange has two tokens and no token is without its exchange; where the broker drops
nothing and every packet fits the link, each exchange has one. -/
namespace GoMqtt.Broker
open GoMqtt.Protocol GoMqtt.Session GoMqtt.Client GoMqtt.Lib
open scoped List

/-! ## Tokens and dues -/

/-- The acknowledgement that a packet of an outbound exchange asks for. -/
def awaits : Packet → Option (UInt16 × PacketType)
  | .publish p =>
    if p.qos = 1 then some (p.packetID, .puback)
    else if p.qos = 2 then some (p.packetID, .pubrec) else none
  | .ack a => if a.type = .pubrel then some (a.packetID, .pubcomp) else none
  | _ => none

/-- The acknowledgement that a frame is. -/
def answers : Client.Frame → Option (UInt16 × PacketType)
  | .puback a => some (a.packetID, .puback)
  | .pubrec a => some (a.packetID, .pubrec)
  | .pubcomp a => some (a.packetID, .pubcomp)
  | _ => none

/-- The acknowledgement that a stored exchange is waiting for. -/
def due (m : StoredMessage) : UInt16 × PacketType :=
  match m.kind, m.publish with
  | .publish, some p => (m.id, if p.qos = 1 then .puback else .pubrec)
  | .publish, none => (m.id, .pubrec)
  | _, _ => (m.id, .pubcomp)

/-- The tokens on a link. -/
def System.underWay (x : System) (l : LinkId) : List (UInt16 × PacketType) :=
  (x.up l).filterMap awaits ++ (x.down l).filterMap answers

theorem awaits_of_leg {p : Packet} (h : leg p = none) : awaits p = none := by
  cases p with
  | publish p =>
    have hq : p.qos = 0 := by simpa [leg] using h
    simp [awaits, hq]
  | ack a =>
    have ht : a.type ≠ .pubrel := by simpa [leg] using h
    simp [awaits, ht]
  | _ => rfl

theorem answers_of_unrelated {f : Client.Frame} (h : f.unrelated = true) : answers f = none := by
  cases f with
  | puback | pubrec | pubcomp => cases h
  | _ => rfl

theorem filterMap_legsOn (l : LinkId) (es : List Event) :
    (sentOn l es).filterMap awaits = (legsOn l es).filterMap awaits := by
  unfold legsOn
  induction sentOn l es with
  | nil => rfl
  | cons p ps ih =>
    cases hp : leg p with
    | none => simp [hp, awaits_of_leg hp, ih]
    | some d => simp [hp, List.filterMap_cons, ih]

/-- What the client writes adds to what is under way. -/
theorem underWay_carry {x : System} {t : State} {es : List Event}
    (h : t.hist = x.client.hist ++ es) (l : LinkId) :
    (x.carry t).underWay l ~ (legsOn l es).filterMap awaits ++ x.underWay l := by
  have hdrop : t.hist.drop x.client.hist.length = es := by rw [h, List.drop_left]
  unfold System.underWay System.carry
  dsimp only
  rw [hdrop, List.filterMap_append, filterMap_legsOn, ← List.append_assoc]
  exact List.Perm.append_right _ List.perm_append_comm

theorem underWay_carry_quiet {x : System} {t : State} {es : List Event}
    (h : t.hist = x.client.hist ++ es) (hes : ∀ e ∈ es, e.bears = false) (l : LinkId) :
    (x.carry t).underWay l ~ x.underWay l := by
  have hperm := underWay_carry h l
  rwa [legsOn_eq_nil hes, List.filterMap_nil, List.nil_append] at hperm

/-! ## Dues -/

theorem due_id (m : StoredMessage) : (due m).1 = m.id := by
  unfold due
  split <;> rfl

/-- Which leg an entry is on shows in what it waits for. -/
theorem due_kind {m : StoredMessage} (hk : m.kind.outbound = true) :
    (m.kind = .publish ∧ (due m).2 ≠ .pubcomp) ∨ (m.kind = .pubrel ∧ (due m).2 = .pubcomp) := by
  cases hkind : m.kind with
  | publish =>
    refine .inl ⟨rfl, ?_⟩
    cases hp : m.publish with
    | none => simp [due, hkind, hp]
    | some p => by_cases hq : p.qos = 1 <;> simp [due, hkind, hp, hq]
  | pubrel => exact .inr ⟨rfl, by simp [due, hkind]⟩
  | inboundID =>
    rw [hkind] at hk
    cases hk

/-- A PUBLISH that encodes asks for what its entry waits for. -/
theorem awaits_publish {p : PublishPacket} {b : Bytes} (hq : p.qos ≠ 0) (hb : p.encode = .ok b)
    (dup : Bool) : awaits (.publish { p with dup }) = some (due (storedPublish p)) := by
  obtain ⟨hle, -⟩ := PublishPacket.encode_ok.mp hb
  rcases qos_cases hle with h | h | h
  · exact absurd h hq
  · simp [awaits, due, storedPublish, h]
  · simp [awaits, due, storedPublish, h]

theorem due_ne_zero {p : PublishPacket} {b : Bytes} (hq : p.qos ≠ 0) (hb : p.encode = .ok b) :
    p.packetID ≠ 0 :=
  (PublishPacket.encode_ok.mp hb).2.1 (UInt8.pos_iff_ne_zero.mpr hq)

/-- The DUP flag does not decide whether a PUBLISH encodes. -/
theorem encode_dup {p : PublishPacket} {b : Bytes} (hq : p.qos ≠ 0) (hb : p.encode = .ok b) :
    ∃ b', PublishPacket.encode { p with dup := true } = .ok b' := by
  obtain ⟨hle, hid, -, topic, block, htopic, hblock, hw⟩ := PublishPacket.encode_ok.mp hb
  obtain ⟨hlen, -⟩ := writePacket_ok.mp hw
  exact ⟨_, PublishPacket.encode_ok.mpr ⟨hle, hid, fun h0 => absurd h0 hq, topic, block, htopic,
    hblock, writePacket_ok.mpr ⟨hlen, rfl⟩⟩⟩

/-- An acknowledgement without a reason is always encodable. -/
theorem encode_plainAck {t : PacketType} {target : PropTarget} {id : UInt16} (v : Version)
    (ht : ackTarget t = some target) (hid : id ≠ 0) :
    ∃ b, AckPacket.encodeAck ⟨v, t, id, .success, none⟩ = .ok b := by
  refine ⟨_, AckPacket.encodeAck_ok.mpr ⟨target, ht, hid, [], ?_, writePacket_ok.mpr ⟨?_, rfl⟩⟩⟩
  · cases v <;> rfl
  · simp [putUint16, maxVarint]

/-- An entry apart from the others. -/
theorem perm_without {out : List StoredMessage} {m : StoredMessage}
    (hnd : (out.map StoredMessage.id).Nodup) (hm : m ∈ out) :
    out ~ m :: Session.without out m.id m.kind := by
  induction out with
  | nil => cases hm
  | cons m' rest ih =>
    rw [List.map_cons, List.nodup_cons] at hnd
    by_cases heq : m' = m
    · subst heq
      have hrest : Session.without rest m'.id m'.kind = rest := by
        refine List.filter_eq_self.mpr fun k hk => ?_
        have hne : k.id ≠ m'.id := fun h => hnd.1 (h ▸ List.mem_map_of_mem hk)
        simp [hne]
      have hself : Session.without (m' :: rest) m'.id m'.kind = rest := by
        rw [← hrest]
        simp [Session.without]
      rw [hself]
    · have hmem : m ∈ rest := (List.mem_cons.mp hm).resolve_left (Ne.symm heq)
      have hne : m'.id ≠ m.id := fun h => hnd.1 (h ▸ List.mem_map_of_mem hmem)
      have hkeep : Session.without (m' :: rest) m.id m.kind =
          m' :: Session.without rest m.id m.kind := by
        simp [Session.without, hne]
      rw [hkeep]
      exact ((ih hnd.2 hmem).cons m').trans (.swap _ _ _)

/-! ## What the broker answers -/

/-- The broker acknowledges nothing twice and, where nothing is to get lost, drops
no acknowledgement. -/
structure Truthful (lossless : Bool) (b : MockBroker) : Prop where
  once : b.dupNextPuback = false
  puback : lossless = true → b.dropNextPuback ≤ 0
  pubrec : lossless = true → b.dropNextPubrec ≤ 0
  pubcomp : lossless = true → b.dropNextPubcomp ≤ 0

/-- The acknowledgements among some replies. -/
def acksOf (replies : List MockReply) : List (UInt16 × PacketType) :=
  (replies.map MockReply.frame).filterMap answers

/-- A turn that answers with `ack` at most, and does so where nothing gets lost. -/
structure Acks (lossless : Bool) (ack : Option (UInt16 × PacketType)) (t : Turn) : Prop where
  truthful : Truthful lossless t.broker
  replies : acksOf t.replies = [] ∨ acksOf t.replies = ack.toList
  all : lossless = true → (∀ d ∈ ack, d.1 ≠ 0) → acksOf t.replies = ack.toList

theorem mockTakeCounter_snd {lossless : Bool} {n : Int} (h : lossless = true → n ≤ 0) :
    lossless = true → (mockTakeCounter n).1 = false ∧ (mockTakeCounter n).2 ≤ 0 := by
  intro hl
  simp [mockTakeCounter, h hl]

/-- The acknowledgement the broker sends is heard as what it is. -/
theorem acksOf_ack (v : Version) {t : PacketType} (id : UInt16)
    (ht : t = .puback ∨ t = .pubrec ∨ t = .pubcomp) :
    acksOf [.ack ⟨v, t, id, .success, none⟩] = if id = 0 then [] else [(id, t)] := by
  have hn : (AckPacket.mk v t id .success none).normalised = ⟨v, t, id, .success, none⟩ := by
    cases v <;> rfl
  unfold acksOf
  simp only [List.map_cons, List.map_nil, MockReply.frame, hn]
  by_cases h0 : id = 0
  · simp [ackFrame, h0, answers]
  · rcases ht with rfl | rfl | rfl <;> simp [ackFrame, h0, answers]

section replies

variable {lossless : Bool} {b : MockBroker} {v : Version} {id : UInt16}

/-- The three replies have one shape: a counter, and the acknowledgement unless it is
dropped. -/
theorem acks_of_counter {b' : MockBroker} {ty : PacketType} {n : Int}
    (ht : ty = .puback ∨ ty = .pubrec ∨ ty = .pubcomp) (hb : Truthful lossless b')
    (hn : lossless = true → n ≤ 0) {t : Turn} (hbroker : t.broker = b')
    (hreplies : t.replies =
      if (mockTakeCounter n).1 then [] else [.ack ⟨v, ty, id, .success, none⟩]) :
    Acks lossless (some (id, ty)) t := by
  refine ⟨hbroker ▸ hb, ?_, fun hl hid => ?_⟩
  · rw [hreplies]
    split
    · exact .inl rfl
    · rw [acksOf_ack v id ht]
      split
      · exact .inl rfl
      · exact .inr rfl
  · rw [hreplies, (mockTakeCounter_snd hn hl).1, if_neg (by simp), acksOf_ack v id ht,
      if_neg (hid _ rfl)]
    rfl

theorem replyPuback_acks (h : Truthful lossless b) :
    Acks lossless (some (id, .puback)) (b.replyPuback v id) := by
  have hn := mockTakeCounter_snd h.puback
  have hb : Truthful lossless
      { b with dropNextPuback := (mockTakeCounter b.dropNextPuback).2 } :=
    ⟨h.once, fun hl => (hn hl).2, h.pubrec, h.pubcomp⟩
  refine acks_of_counter (v := v) (n := b.dropNextPuback) (.inl rfl) hb h.puback ?_ ?_
  · unfold MockBroker.replyPuback
    dsimp only
    rw [h.once]
    split <;> rfl
  · unfold MockBroker.replyPuback
    dsimp only
    rw [h.once]
    split <;> rfl

theorem replyPubrec_acks (h : Truthful lossless b) :
    Acks lossless (some (id, .pubrec)) (b.replyPubrec v id) := by
  have hn := mockTakeCounter_snd h.pubrec
  have hb : Truthful lossless
      { b with dropNextPubrec := (mockTakeCounter b.dropNextPubrec).2 } :=
    ⟨h.once, h.puback, fun hl => (hn hl).2, h.pubcomp⟩
  refine acks_of_counter (v := v) (n := b.dropNextPubrec) (.inr (.inl rfl)) hb h.pubrec ?_ ?_
  · unfold MockBroker.replyPubrec
    dsimp only
    split <;> rfl
  · unfold MockBroker.replyPubrec
    dsimp only
    split <;> rfl

theorem replyPubcomp_acks (h : Truthful lossless b) :
    Acks lossless (some (id, .pubcomp)) (b.replyPubcomp v id) := by
  have hn := mockTakeCounter_snd h.pubcomp
  have hb : Truthful lossless
      { b with dropNextPubcomp := (mockTakeCounter b.dropNextPubcomp).2 } :=
    ⟨h.once, h.puback, h.pubrec, fun hl => (hn hl).2⟩
  refine acks_of_counter (v := v) (n := b.dropNextPubcomp) (.inr (.inr rfl)) hb h.pubcomp ?_ ?_
  · unfold MockBroker.replyPubcomp
    dsimp only
    split <;> rfl
  · unfold MockBroker.replyPubcomp
    dsimp only
    split <;> rfl

/-- A turn without an acknowledgement of an outbound exchange. -/
theorem Acks.none {t : Turn} (hb : Truthful lossless t.broker) (hr : acksOf t.replies = []) :
    Acks lossless .none t := ⟨hb, .inl hr, fun _ _ => hr⟩

/-- The broker acknowledges a packet as the packet asks. -/
theorem respond_acks (h : Truthful lossless b) (v : Version) (p : Packet) :
    Acks lossless (awaits p) (b.respond v (heard p)) := by
  have hkeep : ∀ b' : MockBroker, b'.dupNextPuback = b.dupNextPuback →
      b'.dropNextPuback = b.dropNextPuback → b'.dropNextPubrec = b.dropNextPubrec →
      b'.dropNextPubcomp = b.dropNextPubcomp → Truthful lossless b' := by
    intro b' h₁ h₂ h₃ h₄
    exact ⟨h₁ ▸ h.once, h₂ ▸ h.puback, h₃ ▸ h.pubrec, h₄ ▸ h.pubcomp⟩
  cases p with
  | publish p =>
    have hrec : Truthful lossless (b.recordPublished p.normalised) := hkeep _ rfl rfl rfl rfl
    have hid : p.qos ≠ 0 → p.normalised.packetID = p.packetID := by
      intro hq
      simp [PublishPacket.normalised, hq]
    simp only [heard, MockBroker.respond, show p.normalised.qos = p.qos from rfl, awaits]
    split
    · rename_i hq
      rw [hid (by rw [hq]; decide)]
      exact replyPuback_acks hrec
    · split
      · rename_i hq
        rw [hid (by rw [hq]; decide)]
        exact replyPubrec_acks hrec
      · exact .none hrec rfl
  | ack a =>
    have hrec : Truthful lossless (b.recordAck a.normalised) := hkeep _ rfl rfl rfl rfl
    have hid : a.normalised.packetID = a.packetID := rfl
    cases ht : a.type with
    | pubrel =>
      simp only [heard, ht, MockBroker.respond, awaits, if_true, hid]
      exact replyPubcomp_acks hrec
    | puback | pubcomp =>
      simp only [heard, ht, MockBroker.respond, awaits, reduceCtorEq, if_false]
      exact .none hrec rfl
    | pubrec =>
      simp only [heard, ht, MockBroker.respond, awaits, reduceCtorEq, if_false]
      refine .none hrec ?_
      have hn : (AckPacket.mk v .pubrel a.normalised.packetID .success Option.none).normalised =
          ⟨v, .pubrel, a.normalised.packetID, .success, Option.none⟩ := by
        cases v <;> rfl
      simp only [acksOf, List.map_cons, List.map_nil, MockReply.frame, hn]
      unfold ackFrame
      split <;> rfl
    | _ =>
      simp only [heard, ht, MockBroker.respond, awaits, reduceCtorEq, if_false]
      exact .none h rfl
  | subscribe p =>
    refine .none (hkeep _ rfl rfl rfl rfl) ?_
    simp only [heard, MockBroker.respond, acksOf, List.map_cons, List.map_nil, MockReply.frame]
    split <;> rfl
  | unsubscribe p =>
    refine .none h ?_
    simp only [heard, MockBroker.respond, acksOf, List.map_cons, List.map_nil]
    cases v <;> simp only [MockReply.frame] <;> split <;> rfl
  | pingreq =>
    simp only [heard, MockBroker.respond, MockBroker.answerPing]
    split
    · exact .none (hkeep _ rfl rfl rfl rfl) rfl
    · split
      · exact .none (hkeep _ rfl rfl rfl rfl) rfl
      · exact .none (hkeep _ rfl rfl rfl rfl) rfl
  | disconnect p => exact .none (hkeep _ rfl rfl rfl rfl) rfl

end replies

/-! ## The invariant -/

/-- No connect sets a packet size. -/
def Unlimited (cfg : TCPConfig) (h : State.Handshake) : Prop :=
  match State.negotiate cfg h with
  | .ok result => result.maximumPacketSize = 0
  | .error _ => True

instance (cfg : TCPConfig) (h : State.Handshake) : Decidable (Unlimited cfg h) := by
  unfold Unlimited
  split <;> infer_instance

/-- The broker is not told to acknowledge twice, and no acknowledgement is injected. Where
nothing is to get lost, it is not told to drop an acknowledgement either, its replies can
be sent, and the links take packets of any size. -/
def Careful (lossless : Bool) (x : System) : Act → Prop
  | .script .duplicateNextPuback => False
  | .script (.dropNextPuback n) | .script (.dropNextPubrec n) | .script (.dropNextPubcomp n) =>
    lossless = true → n ≤ 0
  | .serve _ io => lossless = true → io = true
  | .client (.connect h _) => lossless = true → Unlimited x.client.cfg h
  | .inject _ f => f.unrelated = true
  | _ => True

instance (lossless : Bool) (x : System) (a : Act) : Decidable (Careful lossless x a) := by
  unfold Careful
  split <;> infer_instance

structure Tracked (lossless : Bool) (x : System) : Prop where
  sane : Sane x.client
  ids : ∀ m ∈ outbound x.client.store, m.id ≠ 0
  fresh : ∀ l, x.client.nextLink ≤ l → x.underWay l = []
  broker : Truthful lossless x.broker
  limit : lossless = true → ∀ l, x.client.link = some l → (x.client.links l).outboundMax = 0
  covers : ∀ l, x.client.link = some l →
    Covers (lossless = true) (x.underWay l) ((outbound x.client.store).map due)

section steps

variable {lossless : Bool} {x x' : System} {a : Action}

/-- A step that is no connect leaves the links and their limits alone, or the live link
goes down. -/
theorem step_links {s : State} (ha : a.connects = false) :
    ((s.step a).link = s.link ∨ (s.step a).link = none) ∧ (s.step a).nextLink = s.nextLink ∧
      ∀ l, ((s.step a).links l).outboundMax = (s.links l).outboundMax := by
  obtain ⟨-, hl, hn, -, -, hm, -⟩ : Emits (fun _ => True) (fun _ _ => True) s (s.step a) :=
    Emits.step ha (fun _ _ _ => trivial) (fun _ _ _ => trivial) (fun _ _ _ => trivial)
      (fun _ _ _ _ => trivial) (fun _ _ _ => trivial) fun _ _ _ _ _ => trivial
  exact ⟨hl, hn, hm⟩

/-- The client moves on without a connect: what is left to say is about the entries and
the tokens. -/
theorem Tracked.moves (h : Tracked lossless x) (hbroker : x'.broker = x.broker)
    (ha : a.connects = false)
    (hids : ∀ m ∈ outbound (x.client.step a).store, m.id ≠ 0)
    (hfresh : ∀ l, x.client.nextLink ≤ l → (x'.carry (x.client.step a)).underWay l = [])
    (hcovers : ∀ l, x.client.link = some l → (x.client.step a).link = some l →
      Covers (lossless = true) ((x'.carry (x.client.step a)).underWay l)
        ((outbound (x.client.step a).store).map due)) :
    Tracked lossless (x'.carry (x.client.step a)) := by
  obtain ⟨hlink, hnext, hlimit⟩ := step_links (s := x.client) ha
  have hlive : ∀ l, (x.client.step a).link = some l → x.client.link = some l := by
    intro l hl
    rcases hlink with heq | heq
    · rw [← heq]
      exact hl
    · rw [heq] at hl
      cases hl
  refine ⟨h.sane.step a, hids, fun l hle => hfresh l (hnext ▸ hle), hbroker ▸ h.broker, ?_,
    fun l hl => hcovers l (hlive l hl) hl⟩
  intro hless l hl
  show ((x.client.step a).links l).outboundMax = 0
  rw [hlimit]
  exact h.limit hless l (hlive l hl)

/-- A step that touches no exchange. -/
theorem Tracked.quiet (h : Tracked lossless x) (hclient : x'.client = x.client)
    (hbroker : x'.broker = x.broker) (ha : a.connects = false)
    (hout : outbound (x.client.step a).store = outbound x.client.store) {es : List Event}
    (hes : (x.client.step a).hist = x.client.hist ++ es) (hbears : ∀ e ∈ es, e.bears = false)
    (hway : ∀ l, x'.underWay l = x.underWay l) : Tracked lossless (x'.carry (x.client.step a)) := by
  have hperm : ∀ l, (x'.carry (x.client.step a)).underWay l ~ x.underWay l := by
    intro l
    rw [← hway l]
    exact underWay_carry_quiet (hclient ▸ hes) hbears l
  refine h.moves hbroker ha (by rw [hout]; exact h.ids) (fun l hle => ?_) fun l hl _ => ?_
  · have hnil := hperm l
    rw [h.fresh l hle] at hnil
    exact hnil.eq_nil
  · rw [hout]
    exact (h.covers l hl).perm (hperm l) (.refl _)

/-- A PUBLISH is stored and goes out. -/
theorem Tracked.sends (h : Tracked lossless x) (ha : a.connects = false) {c : CallId} {l : LinkId}
    {p : PublishPacket} (hs : Sends c l p x.client (x.client.step a)) :
    Tracked lossless (x.carry (x.client.step a)) := by
  obtain ⟨es, hes, hquiet⟩ := hs.wire
  obtain ⟨b, hb, -⟩ := hs.fits
  have hlegs : ∀ l', legsOn l' (es ++ [.wrote l (.publish p), .sent c l p]) =
      if l = l' then [.publish p] else [] := by
    intro l'
    have hleg : (leg (.publish p)).isSome := by simp [leg, hs.qos]
    rw [legsOn_append, legsOn_eq_nil hquiet]
    by_cases hl : l = l' <;> simp [legsOn, sentOn, hl, hleg]
  have hway := fun l' => underWay_carry (x := x) hes l'
  refine h.moves rfl ha ?_ (fun l' hle => ?_) fun l' hl' _ => ?_
  · intro m hm
    rw [hs.out] at hm
    rcases List.mem_append.mp hm with hm | hm
    · exact h.ids m hm
    · rw [List.mem_singleton.mp hm]
      exact due_ne_zero hs.qos hb
  · have hlt : l < x.client.nextLink := (h.sane.wired.live l hs.live).1.1
    have hperm := hway l'
    rw [hlegs, if_neg (Nat.ne_of_lt (Nat.lt_of_lt_of_le hlt hle)), h.fresh l' hle] at hperm
    exact hperm.eq_nil
  · obtain rfl : l = l' := Option.some.inj (hs.live.symm.trans hl')
    have hperm := hway l
    rw [hlegs, if_pos rfl, List.filterMap_cons_some (awaits_publish hs.qos hb p.dup),
      List.filterMap_nil] at hperm
    refine ((h.covers l hl').send (due (storedPublish p))).perm hperm ?_
    rw [hs.out, List.map_append]
    exact List.perm_append_comm

/-- Whatever the client does other than read and connect. -/
theorem Tracked.call (h : Tracked lossless x) (ha : a.connects = false)
    (hframe : ∀ f torn io, a ≠ .frame f torn io) :
    Tracked lossless (x.carry (x.client.step a)) := by
  rcases call_traffic h.sane.wired h.sane.inv ha hframe with hq | ⟨c, req, l, -, heq⟩ |
      ⟨c, l, p, hs, -⟩
  · obtain ⟨es, hes, hbears⟩ := hq.wire
    exact h.quiet rfl rfl ha hq.out hes hbears fun _ => rfl
  · have hes : (x.client.step a).hist = x.client.hist ++ [.invoked c req] := by
      rw [heq]
      rfl
    refine h.quiet rfl rfl ha ?_ hes ?_ fun _ => rfl
    · rw [heq]
      rfl
    · intro e he
      rw [List.mem_singleton.mp he]
      rfl
  · exact h.sends ha hs

theorem underWay_taken {l : LinkId} {f : Client.Frame} {rest : List Client.Frame}
    (hd : x.down l = f :: rest) :
    x.underWay l ~ (answers f).toList ++ (x.taken l rest).underWay l ∧
      ∀ l', l' ≠ l → (x.taken l rest).underWay l' = x.underWay l' := by
  constructor
  · unfold System.underWay System.taken
    dsimp only
    rw [hd, Function.update_self, List.filterMap_cons, ← List.append_assoc]
    cases answers f with
    | none => exact .refl _
    | some d => exact List.perm_middle
  · intro l' hne
    simp [System.underWay, System.taken, hne]

/-- The entry that an acknowledgement on the live link is for. -/
theorem Tracked.entry (h : Tracked lossless x) {l : LinkId} (hl : x.client.link = some l)
    {f : Client.Frame} {rest : List Client.Frame} (hd : x.down l = f :: rest)
    {d : UInt16 × PacketType} (hf : answers f = some d) :
    ∃ m ∈ outbound x.client.store, due m = d ∧ m.id = d.1 ∧
      m.kind = (if d.2 = .pubcomp then .pubrel else .publish) ∧
      x.client.store.contains m.id m.kind = true := by
  have hmem : d ∈ x.underWay l := by
    refine List.mem_append_right _ (List.mem_filterMap.mpr ⟨f, ?_, hf⟩)
    rw [hd]
    exact List.mem_cons_self
  obtain ⟨m, hm, hdue⟩ := List.mem_map.mp ((h.covers l hl).mem hmem)
  have hk := h.sane.inv.outbound m hm
  refine ⟨m, hm, hdue, by rw [← hdue, due_id], ?_, (has_iff hk).mp ⟨m, hm, rfl, rfl⟩⟩
  rcases due_kind hk with ⟨hkind, hne⟩ | ⟨hkind, heq⟩
  · rw [if_neg (hdue ▸ hne), hkind]
  · rw [if_pos (hdue ▸ heq), hkind]

/-- An acknowledgement ends its exchange. -/
theorem Tracked.ends (h : Tracked lossless x) {l : LinkId} (hl : x.client.link = some l)
    {f : Client.Frame} {rest : List Client.Frame} (hd : x.down l = f :: rest) {m : StoredMessage}
    (hf : answers f = some (due m)) (hm : m ∈ outbound x.client.store) (ha : a.connects = false)
    (he : Ends m.id m.kind x.client (x.client.step a)) :
    Tracked lossless ((x.taken l rest).carry (x.client.step a)) := by
  obtain ⟨es, hes, hquiet⟩ := he.wire
  obtain ⟨htoken, helse⟩ := underWay_taken hd
  rw [hf, Option.toList_some] at htoken
  have hway := fun l' => underWay_carry_quiet (x := x.taken l rest) hes hquiet l'
  have hlt : l < x.client.nextLink := (h.sane.wired.live l hl).1.1
  refine h.moves rfl ha ?_ (fun l' hle => ?_) fun l' hl' _ => ?_
  · intro k hk
    rw [he.out] at hk
    exact h.ids k (mem_of_without hk)
  · have hperm := hway l'
    rw [helse l' (Nat.ne_of_gt (Nat.lt_of_lt_of_le hlt hle)), h.fresh l' hle] at hperm
    exact hperm.eq_nil
  · obtain rfl : l = l' := Option.some.inj (hl.symm.trans hl')
    have hdues := (perm_without h.sane.inv.nodup hm).map due
    have hcov := ((h.covers l hl).perm htoken.symm hdues.symm).settle
    refine hcov.perm (hway l) ?_
    rw [he.out]
    exact .refl _

/-- A PUBREC moves its exchange on. -/
theorem Tracked.promotes (h : Tracked lossless x) {l : LinkId} (hl : x.client.link = some l)
    {f : Client.Frame} {rest : List Client.Frame} (hd : x.down l = f :: rest) {m : StoredMessage}
    (hf : answers f = some (due m)) (hm : m ∈ outbound x.client.store) (hkind : m.kind = .publish)
    (ha : a.connects = false) (hp : Promotes l m.id x.client (x.client.step a)) :
    Tracked lossless ((x.taken l rest).carry (x.client.step a)) := by
  obtain ⟨es, hes, -, honly, hlegs⟩ := hp.wire
  obtain ⟨htoken, helse⟩ := underWay_taken hd
  rw [hf, Option.toList_some] at htoken
  have hway := fun l' => underWay_carry (x := x.taken l rest) hes l'
  have hlt : l < x.client.nextLink := (h.sane.wired.live l hl).1.1
  have hid := h.ids m hm
  refine h.moves rfl ha ?_ (fun l' hle => ?_) fun l' hl' hlive => ?_
  · intro k hk
    rw [hp.out] at hk
    rcases List.mem_append.mp hk with hk | hk
    · exact h.ids k (mem_of_without hk)
    · rw [List.mem_singleton.mp hk]
      exact hid
  · have hne : l' ≠ l := Nat.ne_of_gt (Nat.lt_of_lt_of_le hlt hle)
    have hperm := hway l'
    rw [honly l' hne, helse l' hne, h.fresh l' hle] at hperm
    exact hperm.eq_nil
  · obtain rfl : l = l' := Option.some.inj (hl.symm.trans hl')
    have hdues := (perm_without h.sane.inv.nodup hm).map due
    rw [hkind] at hdues
    have hcov := (((h.covers l hl).perm htoken.symm hdues.symm).settle).send (m.id, .pubcomp)
    have hout : (outbound (x.client.step a).store).map due ~
        (m.id, .pubcomp) :: (Session.without (outbound x.client.store) m.id .publish).map due := by
      rw [hp.out, List.map_append]
      exact List.perm_append_comm
    rcases hlegs hlive with hone | ⟨hnone, hno⟩
    · have hperm := hway l
      have hawaits : awaits (pubrel x.client m.id) = some (m.id, .pubcomp) := rfl
      rw [hone, List.filterMap_cons_some hawaits, List.filterMap_nil] at hperm
      exact hcov.perm hperm hout
    · have hperm := hway l
      rw [hnone, List.filterMap_nil, List.nil_append] at hperm
      have hlossy : ¬ lossless = true := by
        intro hless
        refine hno ?_
        obtain ⟨bytes, hb⟩ := encode_plainAck (t := .pubrel) x.client.cfg.protocolVersion rfl hid
        exact ⟨bytes, hb, .inl (h.limit hless l hl)⟩
      exact (hcov.lose hlossy (List.sublist_cons_self _ _)).perm hperm hout

/-- The client reads a frame. -/
theorem Tracked.read {y : System} {torn io : Bool} (h : Tracked lossless x)
    (hy : x.read torn io = some y) : Tracked lossless y := by
  obtain ⟨l, f, rest, hl, hd, rfl⟩ := System.read_some hy
  have hstep := State.step_frame hl f torn io
  have hstop := (h.sane.wired.live l hl).2
  by_cases hf : f.unrelated = true
  · have hq := ((Quiet.refl x.client).log (e := .received l f) rfl).handleFrame l hf torn io
    rw [← hstep] at hq
    obtain ⟨es, hes, hbears⟩ := hq.wire
    refine h.quiet rfl rfl rfl hq.out hes hbears fun l' => ?_
    by_cases hne : l' = l
    · subst hne
      simp [System.underWay, System.taken, hd, answers_of_unrelated hf]
    · exact (underWay_taken hd).2 l' hne
  cases f with
  | puback a =>
    obtain ⟨m, hm, hdue, hid, hkind, hc⟩ := h.entry hl hd rfl
    refine h.ends hl hd (hdue ▸ rfl) hm rfl ?_
    rw [hid, show m.kind = .publish from hkind] at hc ⊢
    rw [hstep]
    exact completeOutbound_traffic _ _ hc
  | pubcomp a =>
    obtain ⟨m, hm, hdue, hid, hkind, hc⟩ := h.entry hl hd rfl
    refine h.ends hl hd (hdue ▸ rfl) hm rfl ?_
    rw [hid, show m.kind = .pubrel from hkind] at hc ⊢
    rw [hstep]
    exact completeOutbound_traffic _ _ hc
  | pubrec a =>
    obtain ⟨m, hm, hdue, hid, hkind, hc⟩ := h.entry hl hd rfl
    replace hkind : m.kind = .publish := hkind
    rw [hid, hkind] at hc
    by_cases herr : a.reasonCode.isError = true
    · refine h.ends hl hd (hdue ▸ rfl) hm rfl ?_
      rw [hid, hkind, hstep, State.handleFrame, handlePubrec_error _ _ io hc herr]
      exact completeOutbound_traffic _ _ hc
    · refine h.promotes hl hd (hdue ▸ rfl) hm hkind rfl ?_
      rw [hid, hstep]
      exact handlePubrec_traffic _ io h.sane.inv hstop hc (by simpa using herr)
  | _ => exact absurd rfl hf

/-- What a connect replays is what the kept entries wait for. -/
theorem filterMap_replay {s : State} (h : Sane s) (out : List StoredMessage)
    (hout : ∀ m ∈ out, m ∈ outbound s.store) :
    (out.filterMap (State.replayPacket s.cfg.protocolVersion)).filterMap awaits = out.map due := by
  induction out with
  | nil => rfl
  | cons m rest ih =>
    have hm := hout m List.mem_cons_self
    have hrest := ih fun k hk => hout k (List.mem_cons_of_mem _ hk)
    rcases due_kind (h.inv.outbound m hm) with ⟨hkind, -⟩ | ⟨hkind, -⟩
    · obtain ⟨c, l, p, rfl, hsent, b, hb⟩ := h.stored m hm hkind
      obtain ⟨q, hq, hqos⟩ := h.toGenuine.sendable _ hm hkind
      cases hq
      rw [List.filterMap_cons_some (show State.replayPacket _ (storedPublish p) = some _ from rfl),
        List.filterMap_cons_some (awaits_publish hqos hb true), hrest, List.map_cons]
    · rw [List.filterMap_cons_some (show State.replayPacket s.cfg.protocolVersion m =
        some (.ack ⟨s.cfg.protocolVersion, .pubrel, m.id, .success, none⟩) by
          simp [State.replayPacket, hkind]),
        List.filterMap_cons_some (show awaits (.ack ⟨s.cfg.protocolVersion, .pubrel, m.id, .success,
          none⟩) = some (m.id, .pubcomp) from rfl), hrest, List.map_cons]
      simp [due, hkind]

/-- What is stored fits a link without a limit. -/
theorem fits_replay {s : State} (h : Sane s) (hids : ∀ m ∈ outbound s.store, m.id ≠ 0)
    {result : ConnectResult} (hsize : result.maximumPacketSize = 0) {m : StoredMessage}
    (hm : m ∈ outbound s.store) {p : Packet}
    (hp : State.replayPacket s.cfg.protocolVersion m = some p) : FitsSize result p := by
  rcases due_kind (h.inv.outbound m hm) with ⟨hkind, -⟩ | ⟨hkind, -⟩
  · obtain ⟨c, l, q, rfl, -, b, hb⟩ := h.stored m hm hkind
    obtain ⟨r, hr, hqos⟩ := h.toGenuine.sendable _ hm hkind
    cases hr
    cases hp
    obtain ⟨b', hb'⟩ := encode_dup hqos hb
    exact ⟨b', hb', .inl hsize⟩
  · rw [show State.replayPacket s.cfg.protocolVersion m =
        some (.ack ⟨s.cfg.protocolVersion, .pubrel, m.id, .success, none⟩) by
          simp [State.replayPacket, hkind]] at hp
    cases hp
    obtain ⟨b, hb⟩ := encode_plainAck (t := .pubrel) s.cfg.protocolVersion rfl (hids m hm)
    exact ⟨b, hb, .inl hsize⟩

/-- A connect that replays puts one token on the new link for each entry. -/
theorem Tracked.connect (h : Tracked lossless x) (hs : State.Handshake) (n : Nat)
    (hcareful : lossless = true → Unlimited x.client.cfg hs) :
    Tracked lossless (x.carry (x.client.step (.connect hs n))) := by
  have hsane := h.sane.step (.connect hs n)
  rcases connect_traffic hs n h.sane.toGenuine.sendable with heq | ⟨result, hneg, hre⟩
  · have hsame : x.carry (x.client.step (.connect hs n)) = x := by
      rw [heq]
      simp [System.carry, sentOn]
    rw [hsame]
    exact h
  obtain ⟨es, hes, -, honly, hsub, hall⟩ := hre.wire
  have hkept : ∀ m ∈ outbound (x.client.step (.connect hs n)).store, m ∈ outbound x.client.store := by
    intro m hm
    rw [hre.out] at hm
    split at hm
    · cases hm
    · exact hm
  have hway := fun l => underWay_carry (x := x) hes l
  have hsize : lossless = true → result.maximumPacketSize = 0 := by
    intro hless
    have hu := hcareful hless
    unfold Unlimited at hu
    rwa [hneg] at hu
  have hnew : ∀ l, (x.client.step (.connect hs n)).link = some l → l = x.client.nextLink := by
    intro l hl
    rcases hre.link with heq | heq <;> rw [heq] at hl
    · cases hl
    · exact (Option.some.inj hl).symm
  refine ⟨hsane, fun m hm => h.ids m (hkept m hm), fun l hle => ?_, h.broker, fun hless l hl => ?_,
    fun l hl => ?_⟩
  · replace hle : (x.client.step (.connect hs n)).nextLink ≤ l := hle
    rw [hre.next] at hle
    have hperm := hway l
    rw [honly l (Nat.ne_of_gt hle), h.fresh l (Nat.le_of_succ_le hle)] at hperm
    exact hperm.eq_nil
  · rw [hnew l hl]
    exact hre.limit.trans (hsize hless)
  · obtain rfl := hnew l hl
    have hperm := hway x.client.nextLink
    rw [h.fresh _ le_rfl, List.append_nil] at hperm
    have hreplay := filterMap_replay h.sane _ hkept
    have htokens := hsub.filterMap awaits
    rw [hreplay] at htokens
    refine ⟨(hperm.subperm_right).mpr htokens.subperm, fun hless => ?_⟩
    have hevery := hall hl fun m hm p hp => fits_replay h.sane h.ids (hsize hless) (hkept m hm) hp
    rw [hperm.length_eq, hevery, hreplay]
    exact Nat.le_refl _

/-- The broker serves a request: its token, if it has one, turns round or gets lost. -/
theorem underWay_serve {y : System} {l : LinkId} {io : Bool} (h : Truthful lossless x.broker)
    (hy : x.serve l io = some y) (hio : lossless = true → io = true) :
    y.client = x.client ∧ Truthful lossless y.broker ∧
    (∀ l', l' ≠ l → y.underWay l' = x.underWay l') ∧
    ∃ ack base, x.underWay l ~ Option.toList ack ++ base ∧
      (y.underWay l ~ base ∨ y.underWay l ~ ack.toList ++ base) ∧
      (lossless = true → (∀ d ∈ ack, d.1 ≠ 0) → y.underWay l ~ ack.toList ++ base) := by
  obtain ⟨-, p, rest, turn, hu, hturn, rfl⟩ := System.serve_some hy
  have hacks := respond_acks h x.client.cfg.protocolVersion p
  rw [← hturn] at hacks
  have hbefore : x.underWay l ~
      (awaits p).toList ++ (rest.filterMap awaits ++ (x.down l).filterMap answers) := by
    unfold System.underWay
    rw [hu, List.filterMap_cons]
    cases awaits p <;> exact .refl _
  refine ⟨rfl, hacks.truthful, fun l' hne => by simp [System.underWay, hne], awaits p, _, hbefore, ?_⟩
  -- the replies go behind everything that is already on its way down
  simp only [System.underWay, Function.update_self, List.filterMap_append]
  rw [← List.append_assoc (rest.filterMap awaits)]
  generalize rest.filterMap awaits ++ (x.down l).filterMap answers = base
  have hturn : ∀ ack : List (UInt16 × PacketType), base ++ ack ~ ack ++ base :=
    fun _ => List.perm_append_comm
  constructor
  · cases io with
    | false => exact .inl (by simp)
    | true =>
      rw [if_pos rfl, ← acksOf]
      rcases hacks.replies with hr | hr <;> rw [hr]
      · exact .inl (by simp)
      · exact .inr (hturn _)
  · intro hless hids
    rw [if_pos (hio hless), ← acksOf, hacks.all hless hids]
    exact hturn _

theorem Tracked.serve {y : System} {l : LinkId} {io : Bool} (h : Tracked lossless x)
    (hy : x.serve l io = some y) (hio : lossless = true → io = true) : Tracked lossless y := by
  obtain ⟨hclient, hbroker, helse, ack, base, hbefore, hafter, hexact⟩ :=
    underWay_serve h.broker hy hio
  refine ⟨hclient ▸ h.sane, hclient ▸ h.ids, fun l' hle => ?_, hbroker, hclient ▸ h.limit,
    fun l' hl' => ?_⟩
  · rw [hclient] at hle
    by_cases hne : l' = l
    · subst hne
      rw [h.fresh l' hle] at hbefore
      obtain ⟨hack, hbase⟩ := List.append_eq_nil_iff.mp hbefore.symm.eq_nil
      rw [hack, hbase] at hafter
      rcases hafter with hperm | hperm <;> exact hperm.eq_nil
    · rw [helse l' hne, h.fresh l' hle]
  · rw [hclient] at hl' ⊢
    by_cases hne : l' = l
    · subst hne
      have hcov := (h.covers l' hl').perm hbefore.symm (.refl _)
      by_cases hless : lossless = true
      · refine hcov.perm (hexact hless fun d hd => ?_) (.refl _)
        have hmem : d ∈ ack.toList ++ base := List.mem_append_left _ (Option.mem_toList.mpr hd)
        obtain ⟨m, hm, rfl⟩ := List.mem_map.mp (hcov.mem hmem)
        rw [due_id]
        exact h.ids m hm
      · rcases hafter with hperm | hperm
        · exact (hcov.lose hless (List.sublist_append_right _ _)).perm hperm (.refl _)
        · exact hcov.perm hperm (.refl _)
    · rw [helse l' hne]
      exact h.covers l' hl'

/-- Only the client, the broker and the tokens matter. -/
theorem Tracked.congr {y : System} (h : Tracked lossless x) (hclient : y.client = x.client)
    (hbroker : Truthful lossless y.broker) (hway : ∀ l, y.underWay l = x.underWay l) :
    Tracked lossless y :=
  ⟨hclient ▸ h.sane, hclient ▸ h.ids, fun l hle => by rw [hway, h.fresh l (hclient ▸ hle)], hbroker,
    hclient ▸ h.limit, fun l hl => by rw [hway, hclient]; exact h.covers l (hclient ▸ hl)⟩

theorem Truthful.script {b : MockBroker} {c : Script} (h : Truthful lossless b)
    (hc : Careful lossless x (.script c)) : Truthful lossless (b.script c) := by
  cases c with
  | duplicateNextPuback => cases hc
  | dropNextPuback n => exact ⟨h.once, hc, h.pubrec, h.pubcomp⟩
  | dropNextPubrec n => exact ⟨h.once, h.puback, hc, h.pubcomp⟩
  | dropNextPubcomp n => exact ⟨h.once, h.puback, h.pubrec, hc⟩
  | _ => exact ⟨h.once, h.puback, h.pubrec, h.pubcomp⟩

theorem Tracked.step {y : System} {act : Act} (h : Tracked lossless x)
    (hok : Careful lossless x act) (hy : x.step act = some y) : Tracked lossless y := by
  cases act with
  | client a =>
    obtain ⟨hframe, rfl⟩ := System.client_some hy
    cases a with
    | connect hs n => exact h.connect hs n hok
    | _ => exact h.call rfl hframe
  | read torn io => exact h.read hy
  | serve l io => exact h.serve hy hok
  | script c =>
    cases hy
    exact h.congr rfl (h.broker.script hok) fun _ => rfl
  | inject l f =>
    obtain rfl := System.inject_some hy
    refine h.congr rfl h.broker fun l' => ?_
    by_cases hne : l' = l
    · subst hne
      simp [System.underWay, answers_of_unrelated hok]
    · simp [System.underWay, hne]
  | cut l =>
    cases hy
    exact h.congr rfl h.broker fun _ => rfl

end steps

/-! ## Whole runs -/

variable {lossless : Bool} {cfg : TCPConfig} {as : List Act} {x : System}

theorem Runs.tracked (h : Runs (Careful lossless) cfg as x) : Tracked lossless x := by
  refine Run.invariant h ?_ fun y act z hy hok hz => hy.step hok hz
  refine ⟨sane_init cfg, ?_, fun _ _ => rfl, ⟨rfl, fun _ => le_rfl, fun _ => le_rfl, fun _ => le_rfl⟩,
    ?_, ?_⟩ <;> simp [System.init, newTCPClient, outbound]

/-- An acknowledgement that arrives is the one a stored exchange is waiting for. -/
def AnswersDue (s : State) : Action → Prop
  | .frame f _ _ => ∀ d ∈ answers f, ∃ m ∈ outbound s.store, due m = d
  | _ => True

/-- So it is of the kind its PUBLISH asks for. -/
theorem inKind_of_due {s : State} {f : Client.Frame} (hi : (view s).Inv)
    (h : ∀ d ∈ answers f, ∃ m ∈ outbound s.store, due m = d) : InKind (outbound s.store) f := by
  have hone : ∀ d ∈ answers f, ∀ m ∈ outbound s.store, m.id = d.1 → due m = d := by
    intro d hd m hm hid
    obtain ⟨m', hm', rfl⟩ := h d hd
    rw [Session.Inv.eq_of_id hi.nodup hm hm' (hid.trans (due_id m'))]
  cases f with
  | puback a =>
    rintro m hm hid ⟨hk, p, hp, h2⟩
    have hdue := hone _ rfl m hm hid
    rw [due, hk, Option.mem_def.mp hp] at hdue
    simp [h2] at hdue
  | pubrec a =>
    rintro m hm hid ⟨hk, p, hp, h1⟩
    have hdue := hone _ rfl m hm hid
    rw [due, hk, Option.mem_def.mp hp] at hdue
    simp [h1] at hdue
  | _ => trivial

/-- The next frame on the live link is an acknowledgement that is due, or none at all. -/
theorem Tracked.answersDue (h : Tracked lossless x) {l : LinkId} (hl : x.client.link = some l)
    {f : Client.Frame} {rest : List Client.Frame} (hd : x.down l = f :: rest) :
    ∀ d ∈ answers f, ∃ m ∈ outbound x.client.store, due m = d := by
  intro d hf
  obtain ⟨m, hm, hdue, -⟩ := h.entry hl hd hf
  exact ⟨m, hm, hdue⟩

theorem Tracked.inKind (h : Tracked lossless x) {l : LinkId} (hl : x.client.link = some l)
    {f : Client.Frame} {rest : List Client.Frame} (hd : x.down l = f :: rest) :
    InKind (outbound x.client.store) f :=
  inKind_of_due h.sane.inv (h.answersDue hl hd)

/-- The client's side of the run, in which every acknowledgement is due. -/
theorem Runs.client (h : Runs (Careful lossless) cfg as x) :
    ∃ bs, Reach AnswersDue cfg bs x.client := by
  have hboth := Run.invariant (P := fun x => Tracked lossless x ∧
    ∃ bs, Reach AnswersDue cfg bs x.client) h ⟨Runs.tracked .nil, [], .nil⟩ ?_
  · exact hboth.2
  intro y act z hy hok hz
  obtain ⟨htracked, bs, hbs⟩ := hy
  refine ⟨htracked.step hok hz, ?_⟩
  rcases System.step_client hz with hsame | ⟨a, hstep, hframe⟩
  · rw [hsame]
    exact ⟨bs, hbs⟩
  · rw [hstep]
    refine ⟨bs ++ [a], hbs.snoc ?_ rfl⟩
    cases a with
    | frame f torn io =>
      obtain ⟨l, rest, hl, hd⟩ := hframe f torn io rfl
      exact htracked.answersDue hl hd
    | _ => trivial

/-- A message at QoS 2 and one at QoS 1, of which the broker has served the first. -/
def handover : List Act :=
  [.client (.connect (accept (receiveMax 10) true) 2), .client (.publish 0 (message 2) true),
    .client (.publish 1 (message 1) true), .serve 0 true]

/-- Where nothing gets lost, a quiet link means that every exchange is finished. -/
theorem Tracked.settled (h : Tracked true x) {l : LinkId} (hl : x.client.link = some l)
    (hup : x.up l = []) (hdown : x.down l = []) : outbound x.client.store = [] ∧
      ∀ c id, x.client.calls c = .publishing id → ∃ res, x.client.inbox c = some res := by
  have hnone : outbound x.client.store = [] := by
    have hsame := (h.covers l hl).same rfl
    rw [System.underWay, hup, hdown] at hsame
    exact List.map_eq_nil_iff.mp hsame.symm.eq_nil
  refine ⟨hnone, fun c id hc => ?_⟩
  rcases h.sane.attended c id hc with hin | hw
  · refine Option.ne_none_iff_exists'.mp ?_
    simpa [view, hc] using hin
  · have hmem := (h.sane.inv.waiter id c hw).2.2
    rw [show (view x.client).out = [] from hnone] at hmem
    cases hmem

/-- Both messages all the way. -/
def handshakes : List Act :=
  handover ++ [.serve 0 true, .read false true, .read false true, .serve 0 true, .read false true]

end GoMqtt.Broker
