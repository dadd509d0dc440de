import GoMqtt.Broker.System
import GoMqtt.Client.Speech

/-! # What the two ends make of each other's bytes

The read loop of the client turns a frame into what `handleFrame` acts on, and the
loop of the mock broker turns one into a request or into a complaint to the test
that runs it. Each end undoes the encoder of the other: a legible packet of the
client is the request it stands for, and the bytes the mock assembles by hand are
the reply they stand for. -/
namespace GoMqtt.Broker
open GoMqtt.Protocol GoMqtt.Protocol.Mock GoMqtt.Client GoMqtt.Inbound GoMqtt.Lib

/-! ## The client's end -/

/-- A PUBLISH that decodes has a QoS and, where it needs one, an identifier. -/
theorem decodePublish_bounds {v : Version} {header : UInt8} {body : Bytes} {p : PublishPacket}
    (h : decodePublish v header body = .ok p) : p.qos ≤ 2 ∧ (p.qos ≠ 0 → p.packetID ≠ 0) := by
  obtain ⟨⟨hqos, hthree⟩, -, -, -, -, -, -, c, c', -, hid, -⟩ := decodePublish_ok.mp h
  have hle : p.qos ≤ 3 := by
    rw [← hqos, UInt8.le_iff_toNat_le, UInt8.toNat_and]
    exact Nat.and_le_right
  constructor
  · rw [UInt8.le_iff_toNat_le] at hle ⊢
    rw [ne_eq, ← UInt8.toNat_inj] at hthree
    exact Nat.le_of_lt_succ (Nat.lt_of_le_of_ne hle hthree)
  · intro hne
    rcases readPacketID_ok.mp hid with ⟨-, hid, -⟩ | ⟨hzero, -⟩
    · exact hid
    · exact absurd hzero hne

def readAck (v : Version) (t : PacketType) (body : Bytes) : Client.Frame :=
  match decodeAck v t body with
  | .ok a => ackFrame a
  | .error _ => .malformed

/-- What `readLoop` and the handlers below it make of a frame before they act on it. -/
def decodeFrame (v : Version) (f : Protocol.Frame) : Client.Frame :=
  match f.validateFlags with
  | .error _ => .malformed
  | .ok () => match f.packetType with
    | some .publish => match h : decodePublish v f.header f.body with
      | .ok p => .publish ⟨p, (decodePublish_bounds h).1, (decodePublish_bounds h).2⟩
      | .error _ => .malformed
    | some .puback => readAck v .puback f.body
    | some .pubrec => readAck v .pubrec f.body
    | some .pubrel => readAck v .pubrel f.body
    | some .pubcomp => readAck v .pubcomp f.body
    | some .suback => match decodeSuback v f.body with
      | .ok p => .suback p
      | .error _ => .malformed
    | some .unsuback => match decodeUnsuback v f.body with
      | .ok p => .unsuback p
      | .error _ => .malformed
    | some .pingresp => .pingresp
    | some .disconnect => .disconnect
    | some t => .unexpected t
    | none => .malformed

/-! ## The broker's end: requests -/

/-- A field that cannot be read, or a protocol level nobody speaks. -/
inductive MockConnectError
  | field (e : MockError)
  | unsupportedLevel (level : UInt8)
  deriving DecidableEq, Repr

/-- `Version(level)`, if it is valid. -/
def validVersion (level : UInt8) : Option Version :=
  if level == 4 then some .v311 else if level == 5 then some .v50 else none

/-- The property block of a CONNECT or of its will. -/
def readConnectProperties (v : Version) (c : Bytes) :
    Except MockError (Option Properties × Bytes) :=
  match v with
  | .v311 => .ok (none, c)
  | .v50 => decodeMockProperties c

/-- The will, of which nothing is recorded. -/
def skipWill (v : Version) (c : Bytes) : Except MockError Bytes := do
  let (_, c) ← readConnectProperties v c
  let (_, c) ← Mock.readString c
  let (_, c) ← Mock.readBinary c
  return c

/-- A part that a flag announces. -/
def skipIf (there : Bool) (skip : Bytes → Except MockError Bytes) (c : Bytes) :
    Except MockError Bytes := if there then skip c else .ok c

/-- What follows the client identifier. -/
def skipConnectPayload (v : Version) (flags : UInt8) (c : Bytes) : Except MockError Bytes := do
  let c ← skipIf (flags &&& 0x04 != 0) (skipWill v) c
  let c ← skipIf (flags &&& 0x80 != 0) (fun c => (Mock.readString c).map Prod.snd) c
  skipIf (flags &&& 0x40 != 0) (fun c => (Mock.readBinary c).map Prod.snd) c

def decodeMockConnect (body : Bytes) : Except MockConnectError MockConnectInfo := do
  let (_, c) ← (Mock.readString body).mapError .field
  let (level, c) ← (Mock.readByte c).mapError .field
  let some v := validVersion level | throw (.unsupportedLevel level)
  let (flags, c) ← (Mock.readByte c).mapError .field
  let (_, c) ← (Mock.readUint16 c).mapError .field
  let (properties, c) ← (readConnectProperties v c).mapError .field
  let (_, c) ← (Mock.readString c).mapError .field
  let _ ← (skipConnectPayload v flags c).mapError .field
  return ⟨v, flags &&& 0x02 != 0, properties⟩

/-- What `serve` reports to the test. -/
inductive Complaint
  | expectedConnect (got : Option PacketType)
  | connect (e : MockConnectError)
  | request (t : PacketType) (e : MockError)
  | packet (t : PacketType) (e : WireError)
  deriving DecidableEq, Repr

/-- The decoding part of `serve` on a link whose CONNECT was read. -/
def decodeSession (v : Version) (f : Protocol.Frame) : Except Complaint MockRequest :=
  match f.packetType with
  | some .subscribe => (decodeMockSubscribe v f.body).mapError (.request .subscribe) |>.map .subscribe
  | some .unsubscribe =>
    (decodeMockUnsubscribe v f.body).mapError (.request .unsubscribe) |>.map .unsubscribe
  | some .publish => (decodePublish v f.header f.body).mapError (.packet .publish) |>.map .publish
  | some .pubrel => (decodeAck v .pubrel f.body).mapError (.packet .pubrel) |>.map .pubrel
  | some .puback => (decodeAck v .puback f.body).mapError (.packet .puback) |>.map .puback
  | some .pubrec => (decodeAck v .pubrec f.body).mapError (.packet .pubrec) |>.map .pubrec
  | some .pubcomp => (decodeAck v .pubcomp f.body).mapError (.packet .pubcomp) |>.map .pubcomp
  | some .pingreq => .ok .pingreq
  | some .disconnect => .ok .disconnect
  | _ => .ok .unhandled

/-- The decoding part of `serve`, and the version of the link after it: a link has one
once its CONNECT was read. -/
def decodeRequest (version : Option Version) (f : Protocol.Frame) :
    Except Complaint (Version × MockRequest) :=
  if f.packetType = some .connect then
    (decodeMockConnect f.body).mapError .connect |>.map fun info => (info.version, .connect info)
  else match version with
    | none => .error (.expectedConnect f.packetType)
    | some v => (decodeSession v f).map (v, ·)

/-! ## The broker's end: replies -/

/-- The loop is the one of `appendVarint`. -/
def encodeMockVarint (n : Nat) : Bytes := appendVarint n.toUInt32

def writeMockFrame (header : UInt8) (body : Bytes) : Bytes :=
  header :: (encodeMockVarint body.length ++ body)

/-- No check of the length: a string that is too long gets a prefix that is too small. -/
def writeMockString (s : Bytes) : Bytes := putUint16 s.length.toUInt16 ++ s

/-- A property that is written if it is set. -/
def mockProp {ν : Type} (id : UInt8) (put : ν → Bytes) : Option ν → Bytes
  | some n => id :: put n
  | none => []

def appendMockConnackProps (p : Option Properties) : Bytes :=
  let props : Bytes := match p with
    | none => []
    | some p =>
      mockProp 0x21 putUint16 p.receiveMaximum ++
      mockProp 0x13 putUint16 p.serverKeepAlive ++
      (if p.assignedClientID.isEmpty then [] else 0x12 :: writeMockString p.assignedClientID) ++
      mockProp 0x22 putUint16 p.topicAliasMaximum ++
      mockProp 0x24 (fun q => [q]) p.maximumQoS ++
      mockProp 0x25 (fun r => [r]) p.retainAvailable ++
      mockProp 0x27 putUint32 p.maximumPacketSize
  encodeMockVarint props.length ++ props

def buildConnack (v : Version) (sessionPresent : Bool) (reason : UInt8)
    (props : Option Properties) : Bytes :=
  [if sessionPresent then 0x01 else 0x00, reason] ++
    match v with
    | .v50 => appendMockConnackProps props
    | .v311 => []

/-- A property block with nothing in it, where the version has one. -/
def emptyBlock : Version → Bytes
  | .v50 => [0x00]
  | .v311 => []

/-- The codes are the ones `resolve` has picked. -/
def buildSuback (v : Version) (pid : UInt16) (codes : List UInt8) : Bytes :=
  putUint16 pid ++ emptyBlock v ++ codes

def buildMockUnsuback (v : Version) (pid : UInt16) (filterCount : Nat) : Bytes :=
  putUint16 pid ++ match v with
    | .v50 => 0x00 :: List.replicate filterCount ReasonCode.success.byte
    | .v311 => []

def encodePingResp : Except WireError Bytes := writePacket (PacketType.pingresp.code <<< 4) []

def MockReply.encode : MockReply → Except WireError Bytes
  | .connack v sessionPresent reason props =>
    .ok (writeMockFrame (PacketType.connack.code <<< 4) (buildConnack v sessionPresent reason props))
  | .suback v pid codes =>
    .ok (writeMockFrame (PacketType.suback.code <<< 4) (buildSuback v pid codes))
  | .unsuback v pid filterCount =>
    .ok (writeMockFrame (PacketType.unsuback.code <<< 4) (buildMockUnsuback v pid filterCount))
  | .ack p => p.encodeAck
  | .pingresp => encodePingResp

/-! ## Frames on a stream -/

/-- The bytes of one packet with this header and body. -/
def Whole (b : Bytes) (f : Protocol.Frame) : Prop := writePacket f.header f.body = .ok b

theorem Whole.layout {b : Bytes} {f : Protocol.Frame} (h : Whole b f) :
    f.body.length ≤ maxVarint ∧ ∃ bs, b = f.header :: (bs ++ f.body) ∧
      IsVarint bs f.body.length ∧ bs.length ≤ 4 := by
  obtain ⟨hlen, hb⟩ := writePacket_ok.mp h
  have hv := appendVarint_isVarint f.body.length.toUInt32
  have hn : f.body.length.toUInt32.toNat = f.body.length := by
    unfold maxVarint at hlen
    rw [Nat.toUInt32_eq, UInt32.toNat_ofNat']
    omega
  rw [hn] at hv
  refine ⟨hlen, _, hb, hv, (hv.length_le_iff 4 (by omega)).mpr ?_⟩
  unfold maxVarint at hlen
  omega

theorem Whole.length_le {b : Bytes} {f : Protocol.Frame} (h : Whole b f) :
    b.length ≤ (0xFFFFFFFF : UInt32).toNat := by
  obtain ⟨hlen, bs, rfl, -, hfour⟩ := h.layout
  unfold maxVarint at hlen
  rw [List.length_cons, List.length_append]
  show _ ≤ 4294967295
  omega

/-- A packet on a stream is read, or refused as too large. -/
theorem Whole.readFrame {b : Bytes} {f : Protocol.Frame} (h : Whole b f) (r : Bytes)
    (limit : UInt32) :
    (b.length ≤ limit.toNat ∧ readFrame (b ++ r) limit = (.ok f, r)) ∨
    (limit.toNat < b.length ∧ ∃ why rest,
      Protocol.readFrame (b ++ r) limit = (.error (.wire (.frameTooLarge why)), rest)) := by
  by_cases hle : b.length ≤ limit.toNat
  · exact .inl ⟨hle, readFrame_writePacket h r hle⟩
  · obtain ⟨-, bs, rfl, hv, hfour⟩ := h.layout
    refine .inr ⟨Nat.lt_of_not_le hle, ?_⟩
    rw [List.length_cons, List.length_append] at hle
    obtain ⟨why, hwhy⟩ := readFrame_tooLarge.mpr
      ⟨f.header, bs, f.body.length, rfl, hv, hfour, (by omega : limit.toNat < _)⟩
    refine ⟨why, f.body ++ r, ?_⟩
    rw [← hwhy]
    simp

/-- The frame of a packet that is read back is decoded as that packet. -/
theorem decode_of_readsBack {α : Type} {b : Bytes} {t : PacketType}
    {decode : UInt8 → Bytes → Except WireError α} {q : α} (h : ReadsBack b t decode q)
    {f : Protocol.Frame} (hf : Whole b f) :
    f.packetType = some t ∧ f.validateFlags = .ok () ∧ decode f.header f.body = .ok q := by
  obtain ⟨g, hread, hall⟩ := h [] 0xFFFFFFFF hf.length_le
  rw [readFrame_writePacket hf [] hf.length_le] at hread
  cases hread
  exact hall

theorem whole_of_mock {header : UInt8} {body : Bytes} (h : body.length ≤ maxVarint) :
    Whole (writeMockFrame header body) ⟨header, body⟩ := writePacket_ok.mpr ⟨h, rfl⟩

/-! ## The broker hears what the client has written -/

theorem subscribe_flags (body : Bytes) : Frame.packetType
    ⟨(PacketType.subscribe.code <<< 4) ||| 0x02, body⟩ = some .subscribe :=
  (flags_of_header (by decide) (by decide) body).1

theorem unsubscribe_flags (body : Bytes) : Frame.packetType
    ⟨(PacketType.unsubscribe.code <<< 4) ||| 0x02, body⟩ = some .unsubscribe :=
  (flags_of_header (by decide) (by decide) body).1

/-- A legible packet is decoded as the request it stands for. -/
theorem decodeSession_legible {v : Version} {p : Packet} (h : Legible v p) :
    ∃ b f, p.encode = .ok b ∧ Whole b f ∧ f.packetType ≠ some .connect ∧ decodeSession v f = .ok (heard p) := by
  obtain ⟨hproper, b, hb⟩ := h
  cases p with
  | publish p =>
    obtain ⟨rfl, htopic⟩ := hproper
    obtain ⟨-, -, -, topic, block, -, -, hw⟩ := PublishPacket.encode_ok.mp hb
    have hwhole : Whole b ⟨p.header, topic ++ p.idBytes ++ block ++ p.payload⟩ := hw
    obtain ⟨htype, -, hdec⟩ := decode_of_readsBack (publish_reads_back (.inl htopic) hb) hwhole
    refine ⟨b, _, hb, hwhole, by rw [htype]; decide, ?_⟩
    simp only [decodeSession, htype, hdec]
    rfl
  | ack a =>
    obtain rfl : a.version = v := hproper
    obtain ⟨target, htarget, -, tail, -, hw⟩ := AckPacket.encodeAck_ok.mp hb
    have hwhole : Whole b ⟨a.header, putUint16 a.packetID ++ tail⟩ := hw
    obtain ⟨htype, -, hdec⟩ := decode_of_readsBack (ack_reads_back hb) hwhole
    refine ⟨b, _, hb, hwhole, ?_⟩
    cases ht : a.type <;> rw [ht] at htarget htype hdec <;> first
      | (refine ⟨by rw [htype]; decide, ?_⟩
         simp only [decodeSession, htype, hdec, heard, ht, Except.mapError, Except.map]; done)
      | cases htarget
  | subscribe p =>
    obtain rfl : p.version = v := hproper
    obtain ⟨body, hw, hdec⟩ := decodeMockSubscribe_encode hb
    refine ⟨b, ⟨_, body⟩, hb, hw, by simp [subscribe_flags], ?_⟩
    simp only [decodeSession, subscribe_flags, hdec, heard, Except.mapError, Except.map]
  | unsubscribe p =>
    obtain rfl : p.version = v := hproper
    obtain ⟨body, hw, hdec⟩ := decodeMockUnsubscribe_encode hb
    refine ⟨b, ⟨_, body⟩, hb, hw, by simp [unsubscribe_flags], ?_⟩
    simp only [decodeSession, unsubscribe_flags, hdec, heard, Except.mapError, Except.map]
  | pingreq => exact ⟨b, ⟨_, []⟩, hb, hb, by decide, rfl⟩
  | disconnect p =>
    rcases DisconnectPacket.encode_ok.mp hb with ⟨-, hw⟩ | ⟨-, -, block, -, hw⟩
    · exact ⟨b, ⟨_, []⟩, hb, hw, by simp [(disconnect_flags _).1],
        by simp only [decodeSession, (disconnect_flags _).1, heard]⟩
    · exact ⟨b, ⟨_, _⟩, hb, hw, by simp [(disconnect_flags _).1],
        by simp only [decodeSession, (disconnect_flags _).1, heard]⟩

theorem decodeRequest_legible {v : Version} {p : Packet} (h : Legible v p) :
    ∃ b f, p.encode = .ok b ∧ Whole b f ∧ decodeRequest (some v) f = .ok (v, heard p) := by
  obtain ⟨b, f, hb, hf, htype, hdec⟩ := decodeSession_legible h
  refine ⟨b, f, hb, hf, ?_⟩
  rw [decodeRequest, if_neg htype, hdec]
  rfl

/-! ## The client hears what the broker has sent -/

/-- A reply of version `v` whose length can be written. -/
def MockReply.Sendable (v : Version) : MockReply → Prop
  | .connack v' sessionPresent reason props =>
    v' = v ∧ (buildConnack v sessionPresent reason props).length ≤ maxVarint
  | .suback v' pid codes => v' = v ∧ (buildSuback v pid codes).length ≤ maxVarint
  | .unsuback v' pid n => v' = v ∧ (buildMockUnsuback v pid n).length ≤ maxVarint
  | .ack a => a.version = v
  | .pingresp => True

theorem readReasonCodes_all {allowed : List UInt8} (undefined : UInt8 → String) {codes : List UInt8}
    (h : codes.all allowed.contains = true) :
    readReasonCodes allowed undefined codes = .ok (codes.map ReasonCode.mk) :=
  readReasonCodes_ok.mpr ⟨by simpa using h, rfl⟩

/-- An empty block is read as none. -/
theorem decodeProperties_empty (target : PropTarget) (c : Bytes) :
    decodeProperties (0x00 :: c) target = .ok (none, c) :=
  decodeProperties_ok.mpr ⟨[], by decide, by simp [wire]; rfl, by simp, by simp [Once], by simp⟩

theorem readBlock_empty (v : Version) (target : PropTarget) (c : Bytes) :
    readBlock v target (emptyBlock v ++ c) = .ok (none, c) := by
  cases v with
  | v311 => rfl
  | v50 => exact decodeProperties_empty target c

theorem suback_of_codes (pid : UInt16) (codes allowed : List UInt8) (undefined : UInt8 → String) :
    (match (do
        let reasonCodes ← readReasonCodes allowed undefined codes
        .ok { packetID := pid, reasonCodes } : Except WireError SubackPacket) with
      | .ok p => Client.Frame.suback p
      | .error _ => .malformed) =
    if codes.all allowed.contains then .suback ⟨pid, codes.map ReasonCode.mk, none⟩
    else .malformed := by
  by_cases hall : codes.all allowed.contains = true
  · rw [readReasonCodes_all undefined hall, if_pos hall]
    rfl
  · rw [if_neg hall]
    cases hread : readReasonCodes allowed undefined codes with
    | ok rcs => exact absurd (by simpa using (readReasonCodes_ok.mp hread).1) hall
    | error e => rfl

theorem decodeSuback_build (v : Version) (pid : UInt16) (codes : List UInt8) :
    (match decodeSuback v (buildSuback v pid codes) with
      | .ok p => Client.Frame.suback p
      | .error _ => .malformed) = (MockReply.suback v pid codes).frame := by
  have hid : ∀ rest, Protocol.readUint16 (putUint16 pid ++ rest) = .ok (pid, rest) :=
    fun rest => readUint16_ok.mpr rfl
  unfold decodeSuback buildSuback
  rw [List.append_assoc, hid, bind_ok]
  dsimp only
  by_cases hzero : pid = 0
  · rw [if_pos (by simpa using hzero), MockReply.frame, if_pos (.inl hzero)]
  rw [if_neg (by simpa using hzero), readBlock_empty, bind_ok]
  dsimp only
  by_cases hnone : codes = []
  · rw [if_pos (by simpa using hnone), MockReply.frame, if_pos (.inr (.inl hnone))]
  have hframe : (MockReply.suback v pid codes).frame =
      if codes.all (subackReasons v).contains then .suback ⟨pid, codes.map ReasonCode.mk, none⟩
      else .malformed := by
    rw [MockReply.frame]
    by_cases hall : codes.all (subackReasons v).contains = true
    · rw [if_pos hall, if_neg (not_or.mpr ⟨hzero, not_or.mpr ⟨hnone, not_not.mpr hall⟩⟩)]
    · rw [if_neg hall, if_pos (.inr (.inr hall))]
  rw [if_neg (by simpa using hnone), hframe]
  cases v <;> exact suback_of_codes pid codes _ _

theorem decodeUnsuback_build (v : Version) (pid : UInt16) (n : Nat) :
    (match decodeUnsuback v (buildMockUnsuback v pid n) with
      | .ok p => Client.Frame.unsuback p
      | .error _ => .malformed) = (MockReply.unsuback v pid n).frame := by
  have hid : ∀ rest, Protocol.readUint16 (putUint16 pid ++ rest) = .ok (pid, rest) :=
    fun rest => readUint16_ok.mpr rfl
  unfold decodeUnsuback buildMockUnsuback
  rw [hid, bind_ok]
  dsimp only
  by_cases hzero : pid = 0
  · rw [if_pos (by simpa using hzero)]
    cases v <;> simp [MockReply.frame, hzero]
  rw [if_neg (by simpa using hzero)]
  cases v with
  | v311 => simp [MockReply.frame, hzero]
  | v50 =>
    dsimp only
    rw [decodeProperties_empty, bind_ok]
    dsimp only
    by_cases hn : n = 0
    · subst hn
      simp [MockReply.frame]
    · have hall : (List.replicate n ReasonCode.success.byte).all unsubackReasonV50.contains = true := by
        rw [List.all_replicate]
        simp [hn, ReasonCode.success, unsubackReasonV50]
      rw [if_neg (by simp [hn]), readReasonCodes_all _ hall, bind_ok]
      simp [MockReply.frame, hzero, hn]

/-- The packets that the mock assembles by hand have no flags. -/
theorem reply_flags {t : PacketType} (ht : t = .connack ∨ t = .suback ∨ t = .unsuback)
    (body : Bytes) : Frame.packetType ⟨t.code <<< 4, body⟩ = some t ∧
      Frame.validateFlags ⟨t.code <<< 4, body⟩ = .ok () := by
  rcases ht with rfl | rfl | rfl <;> exact flags_of_header (by decide) (by decide) body

/-- What the broker sends is decoded as the reply it stands for. -/
theorem decodeFrame_reply {v : Version} {r : MockReply} {b : Bytes} (hr : r.Sendable v)
    (h : r.encode = .ok b) : ∃ f, Whole b f ∧ decodeFrame v f = r.frame := by
  cases r with
  | connack v' sessionPresent reason props =>
    obtain ⟨rfl, hlen⟩ := hr
    cases h
    refine ⟨_, whole_of_mock hlen, ?_⟩
    obtain ⟨htype, hflags⟩ := reply_flags (.inl rfl) (buildConnack v' sessionPresent reason props)
    simp only [decodeFrame, hflags, htype, MockReply.frame]
  | suback v' pid codes =>
    obtain ⟨rfl, hlen⟩ := hr
    cases h
    refine ⟨_, whole_of_mock hlen, ?_⟩
    obtain ⟨htype, hflags⟩ := reply_flags (.inr (.inl rfl)) (buildSuback v' pid codes)
    rw [← decodeSuback_build]
    simp only [decodeFrame, hflags, htype]
  | unsuback v' pid n =>
    obtain ⟨rfl, hlen⟩ := hr
    cases h
    refine ⟨_, whole_of_mock hlen, ?_⟩
    obtain ⟨htype, hflags⟩ := reply_flags (.inr (.inr rfl)) (buildMockUnsuback v' pid n)
    rw [← decodeUnsuback_build]
    simp only [decodeFrame, hflags, htype]
  | ack a =>
    obtain rfl : a.version = v := hr
    obtain ⟨target, htarget, -, tail, -, hw⟩ := AckPacket.encodeAck_ok.mp h
    have hwhole : Whole b ⟨a.header, putUint16 a.packetID ++ tail⟩ := hw
    obtain ⟨htype, hflags, hdec⟩ := decode_of_readsBack (ack_reads_back h) hwhole
    refine ⟨_, hwhole, ?_⟩
    cases ht : a.type <;> rw [ht] at htarget htype hdec <;> first
      | (simp only [decodeFrame, htype, hflags, readAck, hdec, MockReply.frame]; done)
      | cases htarget
  | pingresp => exact ⟨⟨_, []⟩, h, rfl⟩

end GoMqtt.Broker
