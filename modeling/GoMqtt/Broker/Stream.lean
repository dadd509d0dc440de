import GoMqtt.Broker.Handshake
import GoMqtt.Broker.UnderWay

/-! # The client and the mock broker over byte streams

The same two parties, with nothing between them but bytes. A link is a pair of byte
strings; each end finds the packets in them by itself, with the limits it has for a
packet, and what it cannot decode it refuses in its own way. A connect is the whole
exchange of a CONNECT and a CONNACK, on a connection of its own. -/
namespace GoMqtt.Broker
open GoMqtt.Protocol GoMqtt.Protocol.Mock GoMqtt.Client GoMqtt.Inbound GoMqtt.Lib

/-! ## The broker's end -/

def mockMaxRemainingLength : UInt32 := 16 * 1024 * 1024

/-- One round of `serve`: nothing to read yet, a read that fails, a complaint to the
test, or a request that is served. -/
inductive Round
  | blocked
  | failed
  | complained (c : Complaint)
  | served (v : Version) (turn : Turn) (rest : Bytes)
  deriving DecidableEq, Repr

def MockBroker.round (b : MockBroker) (version : Option Version) (r : Bytes) : Round :=
  match readFrame r mockMaxRemainingLength with
  | (.error (.wire _), _) => .failed
  | (.error _, _) => .blocked
  | (.ok f, rest) => match decodeRequest version f with
    | .error c => .complained c
    | .ok (v, req) => .served v (b.respond v req) rest

def encodeAll : List MockReply → Except WireError Bytes
  | [] => .ok []
  | r :: rs => do
    let b ← r.encode
    let bs ← encodeAll rs
    return b ++ bs

/-- The bytes of the replies, if they can be encoded and sent. -/
def Turn.sent (t : Turn) (io : Bool) : Option Bytes :=
  if io then (encodeAll t.replies).toOption else none

/-- The frames that a test makes the broker send. -/
inductive Injection
  | publish (topic payload : Bytes) (qos : UInt8) (retain : Bool) (props : Option Properties)
  | disconnect (reason : ReasonCode)
  | auth
  | raw (b : Bytes)
  deriving DecidableEq, Repr

/-- The next identifier of a link; 0 is skipped. -/
def allocID (nextID : UInt16) : UInt16 := if nextID + 1 = 0 then 1 else nextID + 1

/-- Whether an injection takes an identifier. -/
def Injection.takesID : Injection → Bool
  | .publish _ _ qos .. => 0 < qos
  | _ => false

/-- `InjectPublish`, `InjectDisconnect`, `InjectAuth` and `InjectRawFrame`, up to what they
put on the wire. -/
def Injection.encode (v : Version) (id : UInt16) : Injection → Except WireError Bytes
  | .publish topic payload qos retain props =>
    PublishPacket.encode
      { version := v, topic, payload, qos, retain
        packetID := if 0 < qos then id else 0
        properties := props }
  | .disconnect reason => DisconnectPacket.encode ⟨v, reason, none⟩
  | .auth => .ok (writeMockFrame (PacketType.auth.code <<< 4) [0x18])
  | .raw b => .ok b

/-! ## Steps -/

/-- `cur` is the connection that injections go to, `version l` what the broker has read
in the CONNECT of `l`, and `complaints` what it has told the test. -/
structure Net where
  client : State
  broker : MockBroker
  cur : Option LinkId
  up : LinkId → Bytes
  down : LinkId → Bytes
  version : LinkId → Option Version
  nextID : LinkId → UInt16
  closed : LinkId → Bool
  complaints : List Complaint

def Net.init (cfg : TCPConfig) : Net where
  client := newTCPClient cfg
  broker := {}
  cur := none
  up := fun _ => []
  down := fun _ => []
  version := fun _ => none
  nextID := fun _ => 0
  closed := fun _ => false
  complaints := []

/-- How far the broker's side of a connect comes. -/
inductive Contact
  | unreached
  | unanswered
  | answered
  deriving DecidableEq, Repr

inductive Move
  | client (a : Action)
  | dial (contact : Contact) (n : Nat)
  | read (torn io : Bool)
  | serve (l : LinkId) (io : Bool)
  | script (c : Script)
  | inject (i : Injection)
  | cut (l : LinkId)
  deriving DecidableEq, Repr

/-- What a packet is on the wire. -/
def packetBytes (p : Packet) : Bytes := (p.encode).toOption.getD []

namespace Net

/-- The client has moved on; what it wrote meanwhile is on the links. -/
def carry (w : Net) (t : State) : Net :=
  { w with
    client := t
    up := fun l => w.up l ++ (sentOn l (t.hist.drop w.client.hist.length)).flatMap packetBytes }

/-- `serve` returns on a link. -/
def leave (w : Net) (l : LinkId) : Net :=
  { w with
    cur := if w.cur = some l then none else w.cur
    closed := Function.update w.closed l true }

def complain (w : Net) (c : Complaint) : Net := { w with complaints := w.complaints ++ [c] }

def serve (w : Net) (l : LinkId) (io : Bool) : Option Net :=
  if w.closed l then none
  else match w.broker.round (w.version l) (w.up l) with
    | .blocked => none
    | .failed => some (w.leave l)
    | .complained c => some ((w.leave l).complain c)
    | .served v turn rest =>
      let sent := turn.sent io
      let w := { w with
        broker := turn.broker
        version := Function.update w.version l (some v)
        up := Function.update w.up l rest
        down := Function.update w.down l (w.down l ++ sent.getD []) }
      some (if turn.leaves || (turn.strict && sent.isNone) then w.leave l else w)

/-- The broker reads the first packet of a connection that is not to be. -/
def hear (w : Net) (version : Option Version) (b : Bytes) : Net :=
  match w.broker.round version b with
  | .blocked | .failed => w
  | .complained c => w.complain c
  | .served _ turn _ => { w with broker := turn.broker }

variable (c : ConnectConfig)

/-- The part of `readLoop` that reads the next frame. -/
def read (w : Net) (torn io : Bool) : Option Net :=
  match w.client.link with
  | none => none
  | some l => match readFrame (w.down l) c.inboundMax with
    | (.error (.wire _), _) => some (w.carry (w.client.step .readError))
    | (.error _, _) => none
    | (.ok f, rest) =>
      some ({ w with down := Function.update w.down l rest }.carry
        (w.client.step (.frame (decodeFrame w.client.cfg.protocolVersion f) torn io)))

/-- `Connect` up to the CONNACK, on the connection that may become the next link. -/
def meet (w : Net) (contact : Contact) : State.Handshake × Net :=
  match connectRequest w.client.cfg c with
  | .error _ => (.failed, w)
  | .ok b =>
    if contact = .unreached then (.failed, w)
    else
      let w := { w with cur := none }
      match w.broker.round none b with
      | .blocked | .failed => (.failed, w)
      | .complained e => (.failed, w.complain e)
      | .served v turn _ =>
        let w := { w with
          broker := turn.broker
          version := Function.update w.version w.client.nextLink (some v) }
        match turn.sent (contact = .answered) with
        | none => (.failed, w)
        | some r => (readConnack w.client.cfg.protocolVersion c.inboundMax r, w)

/-- The DISCONNECT that goes out if the connection takes a write. -/
def refuseConnack (w : Net) (n : Nat) : Net :=
  if w.client.cfg.protocolVersion = .v50 ∧ 0 < n then
    w.hear (some .v50) (packetBytes (.disconnect ⟨.v50, .protocolErrorReason, none⟩))
  else w

def dial (w : Net) (contact : Contact) (n : Nat) : Net :=
  match w.client.link with
  | some _ => w
  | none =>
    let (h, w) := w.meet c contact
    match State.negotiate w.client.cfg h with
    | .ok _ => { w with cur := some w.client.nextLink }.carry (w.client.step (.connect h n))
    | .error (.wire _) => w.refuseConnack n
    | .error _ => w

/-- The identifier of an injection is spent, whatever comes of it. -/
def spend (w : Net) (l : LinkId) (i : Injection) : Net :=
  if i.takesID then { w with nextID := Function.update w.nextID l (allocID (w.nextID l)) } else w

def inject (w : Net) (i : Injection) : Net :=
  match w.cur with
  | none => w
  | some l => match i.encode ((w.version l).getD .v311) (allocID (w.nextID l)) with
    | .error _ => w.spend l i
    | .ok b => { w.spend l i with down := Function.update w.down l (w.down l ++ b) }

def step (w : Net) : Move → Option Net
  | .client (.frame ..) | .client (.connect ..) => none
  | .client a => some (w.carry (w.client.step a))
  | .dial contact n => some (w.dial c contact n)
  | .read torn io => w.read c torn io
  | .serve l io => w.serve l io
  | .script s => some { w with broker := w.broker.script s }
  | .inject i => some (w.inject i)
  | .cut l => if l < w.client.nextLink then some (w.leave l) else none

end Net

/-- The bytes are one frame. -/
def oneFrame (b : Bytes) : Bool :=
  match readFrame b 0xFFFFFFFF with
  | (.ok f, _) => decide (writePacket f.header f.body = .ok b)
  | (.error _, _) => false

/-- The first frame of the bytes is no acknowledgement. -/
def noAcknowledgement (v : Version) (b : Bytes) : Bool :=
  match readFrame b 0xFFFFFFFF with
  | (.ok f, _) => (decodeFrame v f).unrelated
  | (.error _, _) => false

/-- What is injected as bytes is one frame, of whatever kind. -/
def Framing (_ : Net) : Move → Prop
  | .inject (.raw b) => oneFrame b = true
  | _ => True

instance (w : Net) (m : Move) : Decidable (Framing w m) := by
  unfold Framing
  split <;> infer_instance

/-- The discipline of `Careful` over byte streams. -/
def Prudent (lossless : Bool) (c : ConnectConfig) (w : Net) : Move → Prop
  | .script .duplicateNextPuback => False
  | .script (.dropNextPuback n) | .script (.dropNextPubrec n) | .script (.dropNextPubcomp n) =>
    lossless = true → n ≤ 0
  | .serve _ io => lossless = true → io = true
  | .dial contact _ => lossless = true → Unlimited w.client.cfg (w.meet c contact).1
  | .inject (.raw b) => noAcknowledgement w.client.cfg.protocolVersion b = true
  | _ => True

instance (lossless : Bool) (c : ConnectConfig) (w : Net) (m : Move) :
    Decidable (Prudent lossless c w m) := by
  unfold Prudent
  split <;> infer_instance

/-! ## A stream of frames -/

/-- The bytes are these frames, one after the other. -/
inductive Framed (v : Version) : Bytes → List Client.Frame → Prop
  | nil : Framed v [] []
  | cons {b r : Bytes} {f : Protocol.Frame} {fs : List Client.Frame} :
      Whole b f → Framed v r fs → Framed v (b ++ r) (decodeFrame v f :: fs)

theorem Framed.append {v : Version} {r r' : Bytes} {fs fs' : List Client.Frame}
    (h : Framed v r fs) (h' : Framed v r' fs') : Framed v (r ++ r') (fs ++ fs') := by
  induction h with
  | nil => exact h'
  | cons hw _ ih =>
    rw [List.append_assoc]
    exact .cons hw ih

theorem Framed.one {v : Version} {b : Bytes} {f : Protocol.Frame} (h : Whole b f) :
    Framed v b [decodeFrame v f] := by
  simpa using Framed.cons h .nil

/-- The next frame of a stream is read, unless it is too large. -/
theorem Framed.readFrame {v : Version} {r : Bytes} {fs : List Client.Frame} (h : Framed v r fs)
    (limit : UInt32) :
    (fs = [] ∧ Protocol.readFrame r limit = (.error .eof, [])) ∨
    (∃ e rest, fs ≠ [] ∧ Protocol.readFrame r limit = (.error (.wire e), rest)) ∨
    ∃ f rest fs', fs = decodeFrame v f :: fs' ∧ Protocol.readFrame r limit = (.ok f, rest) ∧
      Framed v rest fs' := by
  cases h with
  | nil => exact .inl ⟨rfl, rfl⟩
  | cons hw hrest =>
    rcases hw.readFrame _ limit with ⟨-, hread⟩ | ⟨-, why, rest, hread⟩
    · exact .inr (.inr ⟨_, _, _, rfl, hread, hrest⟩)
    · exact .inr (.inl ⟨_, rest, by simp, hread⟩)

/-! ## The broker's replies -/

theorem subscriptionLoop_length {v : Version} {c : Bytes} {subs : List Protocol.Subscription}
    (h : subscriptionLoop v c = .ok subs) : subs.length ≤ c.length := by
  fun_induction subscriptionLoop v c generalizing subs with
  | case1 c hempty =>
    cases h
    exact Nat.zero_le _
  | case2 => cases h
  | case3 => cases h
  | case4 c hne filter c' hread opt c'' hopt ih =>
    obtain ⟨rest, hrest, h⟩ := bind_eq_ok.mp h
    cases h
    have := ih hrest
    have := readField_shrinks_lt hread
    have := readByte_shrinks _ _ _ hopt
    rw [List.length_cons]
    omega

theorem filterLoop_length {c : Bytes} {filters : List Bytes} (h : filterLoop c = .ok filters) :
    filters.length ≤ c.length := by
  fun_induction filterLoop c generalizing filters with
  | case1 c hempty =>
    cases h
    exact Nat.zero_le _
  | case2 => cases h
  | case3 c hne filter c' hread ih =>
    obtain ⟨rest, hrest, h⟩ := bind_eq_ok.mp h
    cases h
    have := ih hrest
    have := readField_shrinks_lt hread
    rw [List.length_cons]
    omega

theorem emptyBlock_length_le {v : Version} {p : Option Properties} {target : PropTarget}
    {block : Bytes} (h : writeBlock v p target = .ok block) :
    (emptyBlock v).length ≤ block.length := by
  cases v with
  | v311 => exact Nat.zero_le _
  | v50 =>
    cases block with
    | nil => cases readBlock_writeBlock h []
    | cons => exact Nat.succ_le_succ (Nat.zero_le _)

/-- A reply that can be sent. -/
def Sends (v : Version) (r : MockReply) : Prop := r.Sendable v ∧ ∃ b, r.encode = .ok b

/-- A reply that the mock assembles by hand is no longer than the request it answers. -/
theorem sends_suback {p : SubscribePacket} {b : Bytes} (h : p.encode = .ok b) (codes : List UInt8)
    (hcodes : codes.length = p.normalised.subscriptions.length) :
    Sends p.version (.suback p.version p.packetID codes) := by
  obtain ⟨-, block, payload, hblock, hloop, hw⟩ := SubscribePacket.encode_ok h
  have hlen := (writePacket_ok.mp hw).1
  have hblock := emptyBlock_length_le hblock
  have hloop := subscriptionLoop_length hloop
  refine ⟨⟨rfl, ?_⟩, _, rfl⟩
  rw [List.length_append, List.length_append] at hlen
  rw [buildSuback, List.length_append, List.length_append]
  omega

theorem sends_unsuback {p : UnsubscribePacket} {b : Bytes} (h : p.encode = .ok b) :
    Sends p.version (.unsuback p.version p.packetID p.filters.length) := by
  obtain ⟨-, block, payload, hblock, hloop, hw⟩ := UnsubscribePacket.encode_ok h
  have hlen := (writePacket_ok.mp hw).1
  have hblock := emptyBlock_length_le hblock
  have hloop := filterLoop_length hloop
  refine ⟨⟨rfl, ?_⟩, _, rfl⟩
  rw [List.length_append, List.length_append] at hlen
  unfold buildMockUnsuback
  rw [List.length_append]
  cases hv : p.version with
  | v311 =>
    simp only [List.length_nil]
    omega
  | v50 =>
    rw [hv] at hblock
    simp only [emptyBlock, List.length_cons, List.length_nil, List.length_replicate] at hblock ⊢
    omega

theorem sends_ack {t : PacketType} {target : PropTarget} {id : UInt16} (v : Version)
    (ht : ackTarget t = some target) (hid : id ≠ 0) : Sends v (.ack ⟨v, t, id, .success, none⟩) :=
  ⟨rfl, encode_plainAck v ht hid⟩

theorem mem_replyPuback {b : MockBroker} {v : Version} {id : UInt16} {r : MockReply}
    (h : r ∈ (b.replyPuback v id).replies) : r = .ack ⟨v, .puback, id, .success, none⟩ := by
  dsimp only [MockBroker.replyPuback] at h
  split at h
  · cases h
  · split at h <;> simpa using h

theorem mem_replyPubrec {b : MockBroker} {v : Version} {id : UInt16} {r : MockReply}
    (h : r ∈ (b.replyPubrec v id).replies) : r = .ack ⟨v, .pubrec, id, .success, none⟩ := by
  dsimp only [MockBroker.replyPubrec] at h
  split at h
  · cases h
  · exact List.mem_singleton.mp h

theorem mem_replyPubcomp {b : MockBroker} {v : Version} {id : UInt16} {r : MockReply}
    (h : r ∈ (b.replyPubcomp v id).replies) : r = .ack ⟨v, .pubcomp, id, .success, none⟩ := by
  dsimp only [MockBroker.replyPubcomp] at h
  split at h
  · cases h
  · exact List.mem_singleton.mp h

theorem mem_answerPing {b : MockBroker} {r : MockReply} (h : r ∈ b.answerPing.replies) :
    r = .pingresp := by
  dsimp only [MockBroker.answerPing] at h
  split at h
  · cases h
  · split at h
    · cases h
    · exact List.mem_singleton.mp h

/-- Every reply to a legible packet can be sent. -/
theorem respond_sends {v : Version} {p : Packet} (h : Legible v p) (b : MockBroker) {r : MockReply}
    (hr : r ∈ (b.respond v (heard p)).replies) : Sends v r := by
  obtain ⟨hproper, bytes, hb⟩ := h
  cases p with
  | publish p =>
    obtain ⟨-, hid, -⟩ := PublishPacket.encode_ok.mp hb
    have hnonzero : p.qos ≠ 0 → p.normalised.packetID ≠ 0 := by
      intro hq
      rw [show p.normalised.packetID = p.packetID by simp [PublishPacket.normalised, hq]]
      exact hid (UInt8.pos_iff_ne_zero.mpr hq)
    simp only [heard, MockBroker.respond] at hr
    split at hr
    · rename_i hq
      cases mem_replyPuback hr
      exact sends_ack v rfl (hnonzero fun h0 => by cases h0.symm.trans hq)
    · split at hr
      · rename_i hq
        cases mem_replyPubrec hr
        exact sends_ack v rfl (hnonzero fun h0 => by cases h0.symm.trans hq)
      · cases hr
  | ack a =>
    obtain ⟨-, -, hid, -⟩ := AckPacket.encodeAck_ok.mp hb
    simp only [heard] at hr
    split at hr
    · cases hr
    · cases List.mem_singleton.mp hr
      exact sends_ack v rfl hid
    · cases mem_replyPubcomp hr
      exact sends_ack v rfl hid
    · cases hr
    · cases hr
  | subscribe p =>
    obtain rfl : p.version = v := hproper
    cases List.mem_singleton.mp hr
    exact sends_suback hb _ (by simp)
  | unsubscribe p =>
    obtain rfl : p.version = v := hproper
    cases List.mem_singleton.mp hr
    exact sends_unsuback hb
  | pingreq =>
    cases mem_answerPing hr
    exact ⟨trivial, _, rfl⟩
  | disconnect p => cases hr

theorem framed_replies {v : Version} {rs : List MockReply} (h : ∀ r ∈ rs, Sends v r) :
    ∃ bs, encodeAll rs = .ok bs ∧ Framed v bs (rs.map MockReply.frame) := by
  induction rs with
  | nil => exact ⟨[], rfl, .nil⟩
  | cons r rs ih =>
    obtain ⟨hr, b, hb⟩ := h r List.mem_cons_self
    obtain ⟨bs, hbs, hrest⟩ := ih fun r' hr' => h r' (List.mem_cons_of_mem _ hr')
    obtain ⟨f, hf, hdec⟩ := decodeFrame_reply hr hb
    refine ⟨b ++ bs, by rw [encodeAll, hb, bind_ok, hbs, bind_ok]; rfl, ?_⟩
    rw [List.map_cons, ← hdec]
    exact .cons hf hrest

/-! ## Rounds -/

/-- The packet at the head of a stream is served, unless it is too large for the mock. -/
theorem round_legible {v : Version} {p : Packet} (h : Legible v p) (b : MockBroker) (r : Bytes) :
    b.round (some v) (packetBytes p ++ r) = .failed ∨
    b.round (some v) (packetBytes p ++ r) = .served v (b.respond v (heard p)) r := by
  obtain ⟨bytes, f, hb, hf, hdec⟩ := decodeRequest_legible h
  have hbytes : packetBytes p = bytes := by rw [packetBytes, hb]; rfl
  unfold MockBroker.round
  rw [hbytes]
  rcases hf.readFrame r mockMaxRemainingLength with ⟨-, hread⟩ | ⟨-, why, rest, hread⟩
  · rw [hread]
    dsimp only
    rw [hdec]
    exact .inr rfl
  · rw [hread]
    exact .inl rfl

/-- What the broker records of a CONNECT. -/
def connectInfo (cfg : TCPConfig) (c : ConnectConfig) : MockConnectInfo :=
  ⟨cfg.protocolVersion, cfg.cleanStart,
    cfg.protocolVersion.carries (buildConnectPacket cfg c).properties⟩

theorem round_connect {cfg : TCPConfig} {c : ConnectConfig} {bytes : Bytes}
    (h : connectRequest cfg c = .ok bytes) (b : MockBroker) :
    (mockMaxRemainingLength.toNat < bytes.length ∧ b.round none bytes = .failed) ∨
    b.round none bytes = .served cfg.protocolVersion (b.answerConnect (connectInfo cfg c)) [] := by
  obtain ⟨body, hf, hdec⟩ := decodeMockConnect_encode (connectRequest_ok h)
  have htype : Frame.packetType ⟨PacketType.connect.code <<< 4, body⟩ = some .connect :=
    (flags_of_header (by decide) (by decide) body).1
  have hreq : decodeRequest none ⟨PacketType.connect.code <<< 4, body⟩ =
      .ok (cfg.protocolVersion, .connect (connectInfo cfg c)) := by
    rw [decodeRequest, if_pos htype]
    dsimp only
    rw [hdec]
    rfl
  have hread := hf.readFrame [] mockMaxRemainingLength
  rw [List.append_nil] at hread
  unfold MockBroker.round
  rcases hread with ⟨-, hread⟩ | ⟨hlt, why, rest, hread⟩
  · rw [hread]
    dsimp only
    rw [hreq]
    exact .inr rfl
  · rw [hread]
    exact .inl ⟨hlt, rfl⟩

/-! ## The handshake -/

/-- The client reads the CONNACK that the mock has sent. -/
theorem readConnack_build {v : Version} {sessionPresent : Bool} {reason : UInt8}
    {props : Option Properties} (hsession : sessionPresent = true → reason = 0)
    (hprops : Grantable (props.getD {})) {limit : UInt32}
    (hlimit : (writeMockFrame (PacketType.connack.code <<< 4)
      (buildConnack v sessionPresent reason props)).length ≤ limit.toNat) :
    readConnack v limit (writeMockFrame (PacketType.connack.code <<< 4)
      (buildConnack v sessionPresent reason props)) =
      .connack (granted v sessionPresent reason props) := by
  have hlen : (buildConnack v sessionPresent reason props).length ≤ maxVarint := by
    cases v with
    | v311 => simp [buildConnack, maxVarint]
    | v50 =>
      have hblock := hprops.block_length_le
      simp only [buildConnack, List.length_append, List.length_cons, List.length_nil]
      unfold maxVarint
      omega
  obtain ⟨htype, -⟩ := reply_flags (.inl rfl) (buildConnack v sessionPresent reason props)
  have hwhole : Whole _ ⟨PacketType.connack.code <<< 4, _⟩ := whole_of_mock hlen
  have hread := hwhole.readFrame [] limit
  rw [List.append_nil] at hread
  rcases hread with ⟨-, hread⟩ | ⟨hlt, -⟩
  · rw [readConnack, hread]
    dsimp only
    rw [if_pos htype, decodeConnack_build hsession hprops]
  · exact absurd hlimit (Nat.not_le.mpr hlt)

/-- The limits that a script grants. -/
def scriptedLimits (v : Version) (b : MockBroker) : ConnectResult :=
  match v with
  | .v311 => ⟨b.sessionPresent, defaultReceiveMaximum, 2, true, 0⟩
  | .v50 =>
    let p := b.connackProps.getD {}
    ⟨b.sessionPresent, p.receiveMaximum.getD defaultReceiveMaximum, p.maximumQoS.getD 2,
      p.retainAvailable.getD 1 != 0, p.maximumPacketSize.getD 0⟩

theorem normalise_getD (p : Option Properties) : (normalise p).getD {} = p.getD {} := by
  unfold normalise
  split
  · rename_i hp
    rw [hp]
    rfl
  · rfl

theorem buildConnectResult_granted (v : Version) (b : MockBroker) (reason : UInt8) :
    buildConnectResult (granted v b.sessionPresent reason b.connackProps) = scriptedLimits v b := by
  cases v with
  | v311 => rfl
  | v50 =>
    simp only [buildConnectResult, granted, normalise_getD, scriptedLimits]
    cases b.connackProps <;> rfl

theorem granted_limits {props : Option Properties} (h : Grantable (props.getD {})) (v : Version)
    (sessionPresent : Bool) (reason : UInt8) :
    LimitsInRange ((granted v sessionPresent reason props).properties.getD {}) := by
  cases v with
  | v311 => exact ⟨nofun, nofun, nofun⟩
  | v50 =>
    simp only [granted, normalise_getD]
    cases props with
    | none => exact ⟨nofun, nofun, nofun⟩
    | some p => exact ⟨h.limits.receiveMaximum, h.limits.maximumPacketSize, h.limits.maximumQoS⟩

/-- A CONNECT that can be encoded and is within what the mock reads, and a CONNACK that the
specification allows and is within what the client reads, go over the wire as they are. The
broker records the version, the Clean Start bit and the
properties that were configured, whatever else the CONNECT holds; the client gets the
session bit, the reason and the properties that were scripted, as far as the mock writes
them, and unless it is refused the limits it goes by are the scripted ones. -/
theorem handshake_as_scripted {w : Net} {c : ConnectConfig} {bytes : Bytes}
    (hrequest : connectRequest w.client.cfg c = .ok bytes)
    (hfits : bytes.length ≤ mockMaxRemainingLength.toNat)
    (hsession : w.broker.sessionPresent = true → w.broker.rejectConnect.getD 0 = 0)
    (hgrant : Grantable (w.broker.connackProps.getD {}))
    (hlimit : (writeMockFrame (PacketType.connack.code <<< 4)
      (buildConnack w.client.cfg.protocolVersion w.broker.sessionPresent
        (w.broker.rejectConnect.getD 0) w.broker.connackProps)).length ≤ c.inboundMax.toNat) :
    (w.meet c .answered).2.broker.lastConnect = some (connectInfo w.client.cfg c) ∧
    (w.meet c .answered).2.complaints = w.complaints ∧
    ∃ ack, (w.meet c .answered).1 = .connack ack ∧
      ack = granted w.client.cfg.protocolVersion w.broker.sessionPresent
        (w.broker.rejectConnect.getD 0) w.broker.connackProps ∧
      (ack.reasonCode.isError = false → (w.client.cfg.cleanStart && ack.sessionPresent) = false →
        State.negotiate w.client.cfg (.connack ack) =
          .ok (scriptedLimits w.client.cfg.protocolVersion w.broker)) := by
  have hround : w.broker.round none bytes = .served w.client.cfg.protocolVersion
      (w.broker.answerConnect (connectInfo w.client.cfg c)) [] := by
    rcases round_connect hrequest w.broker with ⟨hlt, -⟩ | hround
    · exact absurd hfits (Nat.not_le.mpr hlt)
    · exact hround
  have hmeet : w.meet c .answered = (.connack (granted w.client.cfg.protocolVersion
      w.broker.sessionPresent (w.broker.rejectConnect.getD 0) w.broker.connackProps),
      { w with
        cur := none
        broker := (w.broker.answerConnect (connectInfo w.client.cfg c)).broker
        version := Function.update w.version w.client.nextLink
          (some w.client.cfg.protocolVersion) }) := by
    have hread := readConnack_build hsession hgrant hlimit
    unfold Net.meet
    rw [hrequest]
    dsimp only
    rw [if_neg (by decide), hround]
    have hsent : (w.broker.answerConnect (connectInfo w.client.cfg c)).sent true =
        some (writeMockFrame (PacketType.connack.code <<< 4)
          (buildConnack w.client.cfg.protocolVersion w.broker.sessionPresent
            (w.broker.rejectConnect.getD 0) w.broker.connackProps)) := by
      simp [Turn.sent, MockBroker.answerConnect, encodeAll, MockReply.encode, connectInfo]
      rfl
    simp only [decide_true, hsent, hread]
  rw [hmeet]
  refine ⟨rfl, rfl, _, rfl, rfl, fun hreason hclean => ?_⟩
  have hvalid := validateConnackLimits_ok (granted_limits hgrant w.client.cfg.protocolVersion
    w.broker.sessionPresent (w.broker.rejectConnect.getD 0)) w.client.cfg.protocolVersion
  simp only [State.negotiate, hreason, hvalid, hclean, buildConnectResult_granted]
  rfl

/-- A client that asks for a session of a minute, with a will and a password. -/
def guarded : ConnectConfig where
  clientID := [0x63]
  username := [0x75]
  password := [0x70]
  will := some { topic := [0x64], qos := 1 }

/-- A broker told to resume the session and to grant five messages at a time. -/
def generous : MockBroker :=
  { sessionPresent := true, connackProps := some { receiveMaximum := some 5 } }

theorem handshake_as_scripted_generous :
    let w := { Net.init durable with broker := generous }
    (w.meet guarded .answered).2.broker.lastConnect = some ⟨.v50, false, some
      { sessionExpiryInterval := some 60, maximumPacketSize := some 1048576 }⟩ ∧
    State.negotiate durable (w.meet guarded .answered).1 = .ok ⟨true, 5, 2, true, 0⟩ := by
  have hgrant : Grantable (generous.connackProps.getD {}) :=
    ⟨⟨by decide, by decide, nofun⟩, nofun, by decide, by decide, by decide⟩
  obtain ⟨bytes, hbytes⟩ : ∃ bytes, connectRequest durable guarded = .ok bytes := ⟨_, rfl⟩
  have hfits : bytes.length ≤ mockMaxRemainingLength.toNat := by
    cases hbytes
    decide
  obtain ⟨hinfo, -, ack, hack, rfl, hlimits⟩ := handshake_as_scripted
    (w := { Net.init durable with broker := generous }) (c := guarded) hbytes hfits
    (fun _ => rfl) hgrant (by decide)
  refine ⟨hinfo, ?_⟩
  dsimp only
  rw [hack]
  exact hlimits rfl rfl

end GoMqtt.Broker
