import GoMqtt.Protocol.Frame
import GoMqtt.Protocol.Packet
import GoMqtt.Protocol.PropertyRoundTrip
import GoMqtt.Protocol.Topic

/-! # Packets there and back

The decoders of PUBLISH, the acknowledgements and DISCONNECT, and their round
trips through framing. What an encoder writes is read back as one frame whose
flags are valid and whose body decodes to the packet; what a decoder accepts can
be encoded, and comes back the same. A packet comes back normalised: without what
its version or its QoS keeps off the wire. -/
namespace GoMqtt.Protocol

/-! ## The decoders -/

/-- The packet identifier, present from QoS 1 on. -/
def readPacketID (qos : UInt8) (c : Bytes) : Except WireError (UInt16 × Bytes) :=
  if qos > 0 then do
    let (id, c) ← readUint16 c
    if id == 0 then .error (.malformedPacket "PUBLISH QoS >0 with zero packet identifier")
    else .ok (id, c)
  else .ok (0, c)

/-- The property block, which MQTT 3.1.1 does not have. -/
def readBlock (v : Version) (target : PropTarget) (c : Bytes) :
    Except WireError (Option Properties × Bytes) :=
  match v with
  | .v311 => .ok (none, c)
  | .v50 => decodeProperties c target

def decodePublish (v : Version) (header : UInt8) (body : Bytes) : Except WireError PublishPacket :=
  let flags := header &&& 0x0F
  let qos := (flags >>> 1) &&& 0x03
  if qos == 3 then .error (.malformedPacket "PUBLISH with QoS 3")
  else if qos == 0 && flags &&& 0x08 != 0 then
    .error (.malformedPacket "PUBLISH with DUP set at QoS 0")
  else do
    let (topic, c) ← readString body
    if containsWildcard topic then
      .error (.malformedPacket "PUBLISH topic contains a wildcard character")
    else
      let (packetID, c) ← readPacketID qos c
      let (properties, c) ← readBlock v tgPublish c
      if topic.isEmpty && (v != .v50 || (properties.bind Properties.topicAlias).isNone) then
        .error (.malformedPacket "PUBLISH with empty topic and no topic alias")
      else
        .ok { version := v, topic, payload := c, qos, retain := flags &&& 0x01 != 0,
              dup := flags &&& 0x08 != 0, packetID, properties }

/-- What follows the identifier of an acknowledgement, and all of a DISCONNECT:
nothing, a reason code, or a reason code and a property block. -/
def decodeReason (target : PropTarget) (trailing : String) (c : Bytes) :
    Except WireError (ReasonCode × Option Properties) :=
  if c.isEmpty then .ok (.success, none)
  else do
    let (rc, c) ← readByte c
    if c.isEmpty then .ok (⟨rc⟩, none)
    else
      let (properties, c) ← decodeProperties c target
      if !c.isEmpty then .error (.malformedPacket trailing)
      else .ok (⟨rc⟩, properties)

def decodeAck (v : Version) (t : PacketType) (body : Bytes) : Except WireError AckPacket :=
  match ackTarget t with
  | none => .error (.malformedPacket (t.string ++ " is not an acknowledgement packet"))
  | some target => do
    let (pid, c) ← readUint16 body
    if pid == 0 then .error (.malformedPacket "acknowledgement with zero packet identifier")
    else
      match v with
      | .v311 =>
        if !c.isEmpty then .error (.malformedPacket "trailing bytes after v3 acknowledgement")
        else .ok ⟨v, t, pid, .success, none⟩
      | .v50 => do
        let (rc, properties) ← decodeReason target
          "trailing bytes after acknowledgement properties" c
        .ok ⟨v, t, pid, rc, properties⟩

def decodeDisconnect (v : Version) (body : Bytes) : Except WireError DisconnectPacket :=
  match v with
  | .v311 =>
    if !body.isEmpty then .error (.malformedPacket "v3 DISCONNECT with non-empty body")
    else .ok ⟨v, .normalDisconnection, none⟩
  | .v50 => do
    let (rc, properties) ← decodeReason tgDisconnect "trailing bytes after DISCONNECT properties" body
    .ok ⟨v, rc, properties⟩

/-! ## Packets as they come back -/

/-- The properties a version carries. -/
def Version.carries (v : Version) (p : Option Properties) : Option Properties :=
  match v with
  | .v311 => none
  | .v50 => normalise p

def PublishPacket.normalised (p : PublishPacket) : PublishPacket :=
  { p with
    packetID := if p.qos == 0 then 0 else p.packetID
    properties := p.version.carries p.properties }

def AckPacket.normalised (p : AckPacket) : AckPacket :=
  { p with
    reasonCode := if p.version = .v311 then .success else p.reasonCode
    properties := p.version.carries p.properties }

def DisconnectPacket.normalised (p : DisconnectPacket) : DisconnectPacket :=
  { p with
    reasonCode := if p.version = .v311 then .success else p.reasonCode
    properties := p.version.carries p.properties }

/-- The bytes `b` are read off any stream as one valid frame of type `t`, whose
header and body `decode` turns into `q`. -/
def ReadsBack (b : Bytes) (t : PacketType) {α : Type}
    (decode : UInt8 → Bytes → Except WireError α) (q : α) : Prop :=
  ∀ (r : Bytes) (maxPacketSize : UInt32), b.length ≤ maxPacketSize.toNat →
    ∃ f, readFrame (b ++ r) maxPacketSize = (.ok f, r) ∧ f.packetType = some t ∧
      f.validateFlags = .ok () ∧ decode f.header f.body = .ok q

theorem ReadsBack.intro {α : Type} {header : UInt8} {body b : Bytes} {t : PacketType}
    {decode : UInt8 → Bytes → Except WireError α} {q : α} (hw : writePacket header body = .ok b)
    (ht : Frame.packetType ⟨header, body⟩ = some t)
    (hf : Frame.validateFlags ⟨header, body⟩ = .ok ()) (hd : decode header body = .ok q) :
    ReadsBack b t decode q :=
  fun r _ hle => ⟨_, readFrame_writePacket hw r hle, ht, hf, hd⟩

/-! ## PUBLISH -/

/-- The block a PUBLISH carries in its version. -/
def writeBlock (v : Version) (p : Option Properties) (target : PropTarget) :
    Except WireError Bytes :=
  match v with
  | .v50 => encodeProperties p target
  | .v311 => .ok []

/-- What a PUBLISH puts after its topic. -/
def PublishPacket.idBytes (p : PublishPacket) : Bytes :=
  if p.qos > 0 then putUint16 p.packetID else []

theorem PublishPacket.encode_ok {p : PublishPacket} {b : Bytes} : p.encode = .ok b ↔
    p.qos ≤ 2 ∧ (p.qos > 0 → p.packetID ≠ 0) ∧ (p.qos = 0 → p.dup = false) ∧
    ∃ topic block, appendString p.topic = .ok topic ∧
      writeBlock p.version p.properties tgPublish = .ok block ∧
      writePacket p.header (topic ++ p.idBytes ++ block ++ p.payload) = .ok b := by
  unfold PublishPacket.encode
  dsimp only
  by_cases h1 : p.qos > 2
  · rw [if_pos h1]
    constructor
    · intro h
      cases h
    · rintro ⟨hle, -⟩
      exact absurd h1 (UInt8.not_lt.mpr hle)
  by_cases h2 : (p.qos > 0 && p.packetID == 0) = true
  · rw [if_neg h1, if_pos h2]
    simp only [Bool.and_eq_true, decide_eq_true_eq, beq_iff_eq] at h2
    constructor
    · intro h
      cases h
    · rintro ⟨-, hid, -⟩
      exact absurd h2.2 (hid h2.1)
  by_cases h3 : (p.qos == 0 && p.dup) = true
  · rw [if_neg h1, if_neg h2, if_pos h3]
    simp only [Bool.and_eq_true, beq_iff_eq] at h3
    constructor
    · intro h
      cases h
    · rintro ⟨-, -, hdup, -⟩
      simp [hdup h3.1] at h3
  rw [if_neg h1, if_neg h2, if_neg h3, bind_eq_ok]
  have h2' : p.qos > 0 → p.packetID ≠ 0 := by simpa using h2
  have h3' : p.qos = 0 → p.dup = false := by simpa using h3
  constructor
  · rintro ⟨topic, ht, h⟩
    refine ⟨UInt8.not_lt.mp h1, h2', h3', topic, ?_⟩
    cases hv : p.version <;> simp only [hv] at h <;> obtain ⟨block, hb, h⟩ := bind_eq_ok.mp h <;>
      exact ⟨block, ht, hb, h⟩
  · rintro ⟨-, -, -, topic, block, ht, hb, h⟩
    refine ⟨topic, ht, ?_⟩
    cases hv : p.version <;> rw [hv] at hb <;> exact bind_eq_ok.mpr ⟨block, hb, h⟩

theorem qos_cases {q : UInt8} (h : q ≤ 2) : q = 0 ∨ q = 1 ∨ q = 2 := by
  rw [UInt8.le_iff_toNat_le] at h
  simp only [← UInt8.toNat_inj]
  simp at h ⊢
  omega

/-- The flags of the header byte are the packet's. -/
theorem PublishPacket.header_flags {p : PublishPacket} (h : p.qos ≤ 2) :
    (p.header &&& 0x0F) >>> 1 &&& 0x03 = p.qos ∧
    ((p.header &&& 0x0F) &&& 0x08 != 0) = p.dup ∧
    ((p.header &&& 0x0F) &&& 0x01 != 0) = p.retain ∧
    p.header >>> 4 = 3 := by
  unfold PublishPacket.header
  rcases qos_cases h with hq | hq | hq <;> rw [hq] <;> cases p.dup <;> cases p.retain <;> decide

theorem publish_validateFlags {header : UInt8} {body : Bytes} (ht : header >>> 4 = 3)
    (h3 : ((header &&& 0x0F) >>> 1 &&& 0x03 == 3) = false)
    (hd : ((header &&& 0x0F) >>> 1 &&& 0x03 == 0 && (header &&& 0x0F) &&& 0x08 != 0) = false) :
    Frame.packetType ⟨header, body⟩ = some .publish ∧
      Frame.validateFlags ⟨header, body⟩ = .ok () := by
  have htype : Frame.packetType ⟨header, body⟩ = some .publish := by
    rw [Frame.packetType, ht]
    rfl
  refine ⟨htype, ?_⟩
  rw [Frame.validateFlags, htype]
  simp only [h3, hd]
  rfl

/-- A topic a PUBLISH may carry: a valid name, or none where an alias stands for it. -/
def PublishPacket.Addressed (p : PublishPacket) : Prop :=
  validateTopicName p.topic = .ok () ∨
  (p.topic = [] ∧ p.version = .v50 ∧ (p.properties.bind Properties.topicAlias).isSome)

theorem validateTopicName_ok {s : Bytes} : validateTopicName s = .ok () ↔
    s ≠ [] ∧ WellFormed s ∧ containsWildcard s = false := by
  unfold validateTopicName WellFormed
  rw [show maxTopicLen = maxStringLen from rfl]
  simp only [guard_eq_ok, List.isEmpty_iff, Nat.not_lt, gt_iff_lt, Bool.not_eq_true',
    Bool.not_eq_true, Bool.not_eq_false, and_true, and_assoc]

theorem readBlock_writeBlock {v : Version} {p : Option Properties} {target : PropTarget}
    {block : Bytes} (h : writeBlock v p target = .ok block) (r : Bytes) :
    readBlock v target (block ++ r) = .ok (v.carries p, r) := by
  cases v with
  | v311 =>
    cases h
    rfl
  | v50 => exact decodeProperties_encodeProperties h r

theorem writeBlock_readBlock {v : Version} {q : Option Properties} {target : PropTarget}
    (ht : target ∈ contexts) {s r : Bytes} (h : readBlock v target s = .ok (q, r)) :
    ∃ block, writeBlock v q target = .ok block ∧ block.length + r.length ≤ s.length := by
  cases v with
  | v311 =>
    cases h
    exact ⟨[], rfl, by simp⟩
  | v50 => exact encodeProperties_decodeProperties ht h

theorem readPacketID_ok {qos : UInt8} {c r : Bytes} {id : UInt16} :
    readPacketID qos c = .ok (id, r) ↔
      (qos > 0 ∧ id ≠ 0 ∧ c = putUint16 id ++ r) ∨ (qos = 0 ∧ id = 0 ∧ c = r) := by
  unfold readPacketID
  by_cases hq : qos > 0
  · have hne : qos ≠ 0 := by
      rintro rfl
      exact absurd hq (by decide)
    simp only [hq, if_true, hne, false_and, or_false, true_and, bind_eq_ok, Prod.exists,
      readUint16_ok]
    constructor
    · rintro ⟨id', c', rfl, h⟩
      split at h
      · cases h
      · rename_i h0
        cases h
        exact ⟨by simpa using h0, rfl⟩
    · rintro ⟨h0, rfl⟩
      exact ⟨id, r, rfl, by rw [if_neg (by simpa using h0)]⟩
  · have heq : qos = 0 := by
      rw [← UInt8.toNat_inj]
      simpa [UInt8.lt_iff_toNat_lt] using hq
    rw [if_neg hq]
    constructor
    · intro h
      cases h
      exact .inr ⟨heq, rfl, rfl⟩
    · rintro (⟨hpos, -⟩ | ⟨-, rfl, rfl⟩)
      · exact absurd hpos hq
      · rfl

theorem decodePublish_ok {v : Version} {header : UInt8} {body : Bytes} {q : PublishPacket} :
    decodePublish v header body = .ok q ↔
      ((header &&& 0x0F) >>> 1 &&& 0x03 = q.qos ∧ q.qos ≠ 3) ∧
      ((header &&& 0x0F) &&& 0x08 != 0) = q.dup ∧ (q.qos = 0 → q.dup = false) ∧
      ((header &&& 0x0F) &&& 0x01 != 0) = q.retain ∧ q.version = v ∧
      containsWildcard q.topic = false ∧
      (q.topic = [] → v = .v50 ∧ (q.properties.bind Properties.topicAlias).isSome) ∧
      ∃ c c', readString body = .ok (q.topic, c) ∧ readPacketID q.qos c = .ok (q.packetID, c') ∧
        readBlock v tgPublish c' = .ok (q.properties, q.payload) := by
  unfold decodePublish
  dsimp only
  generalize header &&& 0x0F = flags
  generalize hqos : (flags >>> 1) &&& 0x03 = qos
  constructor
  · intro h
    split at h
    · cases h
    rename_i h3
    split at h
    · cases h
    rename_i hdup
    obtain ⟨⟨topic, c⟩, ht, h⟩ := bind_eq_ok.mp h
    dsimp only at h
    split at h
    · cases h
    rename_i hwild
    obtain ⟨⟨packetID, c'⟩, hid, h⟩ := bind_eq_ok.mp h
    obtain ⟨⟨properties, payload⟩, hb, h⟩ := bind_eq_ok.mp h
    dsimp only at h
    split at h
    · cases h
    rename_i halias
    cases h
    refine ⟨⟨rfl, by simpa using h3⟩, rfl, ?_, rfl, rfl, by simpa using hwild, ?_, c, c', ht, hid, hb⟩
    · simpa using hdup
    · simpa [Option.isSome_iff_ne_none] using halias
  · rintro ⟨⟨rfl, h3⟩, hdup, hzero, hretain, rfl, hwild, halias, c, c', ht, hid, hb⟩
    have h1 : ¬ (q.qos == 3) = true := by simpa using h3
    have h2 : ¬ (q.qos == 0 && flags &&& 0x08 != 0) = true := by
      simp only [Bool.and_eq_true, beq_iff_eq, not_and, hdup]
      intro h0
      simp [hzero h0]
    have h4 : ¬ (q.topic.isEmpty && (q.version != .v50 ||
        (q.properties.bind Properties.topicAlias).isNone)) = true := by
      simp only [Bool.and_eq_true, List.isEmpty_iff, not_and]
      intro hempty
      obtain ⟨hv, hs⟩ := halias hempty
      simp [hv, Option.isSome_iff_ne_none.mp hs]
    rw [if_neg h1, if_neg h2, ht]
    simp only [bind_ok, hwild, Bool.false_eq_true, if_false, hid, hb]
    rw [if_neg h4, hdup, hretain]

/-- A block with a topic alias is not an empty one. -/
theorem alias_normalise {p : Option Properties} (h : (p.bind Properties.topicAlias).isSome) :
    ((normalise p).bind Properties.topicAlias).isSome := by
  unfold normalise
  split
  · subst_vars
    cases h
  · exact h

theorem publish_reads_back {p : PublishPacket} {b : Bytes} (ht : p.Addressed)
    (h : p.encode = .ok b) : ReadsBack b .publish (decodePublish p.version) p.normalised := by
  obtain ⟨hqos, hid, hdup, topic, block, htopic, hblock, hw⟩ := PublishPacket.encode_ok.mp h
  obtain ⟨hq, hd, hr, htype⟩ := PublishPacket.header_flags hqos
  have hne : p.qos ≠ 3 := by
    intro h3
    rw [h3] at hqos
    exact absurd hqos (by decide)
  obtain ⟨hpt, hflags⟩ := publish_validateFlags htype (by simpa [hq] using hne) (by
    rw [hq, hd]
    by_cases h0 : p.qos = 0 <;> simp [h0, hdup])
  refine .intro hw hpt hflags (decodePublish_ok.mpr ?_)
  have hwild : containsWildcard p.topic = false := by
    rcases ht with ht | ⟨ht, -⟩
    · exact (validateTopicName_ok.mp ht).2.2
    · rw [ht]
      rfl
  refine ⟨⟨hq, hne⟩, hd, hdup, hr, rfl, hwild, ?_, p.idBytes ++ (block ++ p.payload),
    block ++ p.payload, readString_ok.mpr ⟨topic, htopic, by simp⟩, readPacketID_ok.mpr ?_,
    readBlock_writeBlock hblock _⟩
  · intro hempty
    rcases ht with ht | ⟨-, hv, hs⟩
    · exact absurd hempty (validateTopicName_ok.mp ht).1
    · refine ⟨hv, ?_⟩
      rw [PublishPacket.normalised, hv]
      exact alias_normalise hs
  · by_cases h0 : p.qos = 0
    · exact .inr ⟨h0, by simp [PublishPacket.normalised, h0], by simp [PublishPacket.idBytes, h0]⟩
    · have hpos : p.qos > 0 := UInt8.pos_iff_ne_zero.mpr h0
      refine .inl ⟨hpos, ?_, ?_⟩
      · simpa [PublishPacket.normalised, h0] using hid hpos
      · simp [PublishPacket.normalised, PublishPacket.idBytes, h0, hpos]

theorem publish_encodes {v : Version} {header : UInt8} {body : Bytes} {q : PublishPacket}
    (hlen : body.length ≤ maxVarint) (h : decodePublish v header body = .ok q) :
    q.version = v ∧ q.Addressed ∧ ∃ b, q.encode = .ok b := by
  obtain ⟨⟨hq, hne⟩, -, hdup, -, rfl, hwild, halias, c, c', ht, hid, hb⟩ := decodePublish_ok.mp h
  obtain ⟨topic, htopic, rfl⟩ := readString_ok.mp ht
  obtain ⟨block, hblock, hle⟩ := writeBlock_readBlock (by decide) hb
  have hwf := (appendString_ok.mp htopic).1
  have hqos : q.qos ≤ 2 := by
    have hmod : q.qos.toNat ≤ 3 := by
      rw [← hq, UInt8.toNat_and]
      exact Nat.and_le_right
    have hne : q.qos.toNat ≠ 3 := fun h => hne (UInt8.toNat_inj.mp h)
    rw [UInt8.le_iff_toNat_le]
    exact Nat.le_of_lt_succ (lt_of_le_of_ne hmod hne)
  refine ⟨rfl, ?_, ?_⟩
  · by_cases hempty : q.topic = []
    · exact .inr ⟨hempty, halias hempty⟩
    · exact .inl (validateTopicName_ok.mpr ⟨hempty, hwf, hwild⟩)
  · -- re-encoded, the body is no longer than the one received
    have hbody : (topic ++ q.idBytes ++ block ++ q.payload).length ≤ maxVarint := by
      rcases readPacketID_ok.mp hid with ⟨hpos, -, rfl⟩ | ⟨h0, -, rfl⟩
      · simp only [PublishPacket.idBytes, hpos, if_true, List.length_append] at hlen hle ⊢
        omega
      · simp only [PublishPacket.idBytes, h0, List.length_append] at hlen hle ⊢
        simp
        omega
    refine ⟨_, PublishPacket.encode_ok.mpr ⟨hqos, ?_, hdup, topic, block, htopic, hblock,
      writePacket_ok.mpr ⟨hbody, rfl⟩⟩⟩
    intro hpos
    rcases readPacketID_ok.mp hid with ⟨-, h0, -⟩ | ⟨h0, -⟩
    · exact h0
    · rw [h0] at hpos
      exact absurd hpos (by decide)

/-- A PUBLISH comes back from the wire as it was sent, in both versions; one that
was received can be sent on, and comes back the same. -/
theorem publish_round_trip :
    (∀ (p : PublishPacket) (b : Bytes), p.Addressed → p.encode = .ok b →
      ReadsBack b .publish (decodePublish p.version) p.normalised) ∧
    ∀ (v : Version) (header : UInt8) (body : Bytes) (q : PublishPacket),
      body.length ≤ maxVarint → decodePublish v header body = .ok q →
      ∃ b, q.encode = .ok b ∧ ReadsBack b .publish (decodePublish v) q.normalised := by
  refine ⟨fun p b ht h => publish_reads_back ht h, fun v header body q hlen h => ?_⟩
  obtain ⟨rfl, ht, b, hb⟩ := publish_encodes hlen h
  exact ⟨b, hb, publish_reads_back ht hb⟩

/-- A QoS 1 message sent by alias alone. -/
def aliasedPublish : PublishPacket where
  version := .v50
  topic := []
  payload := [0x6F, 0x6E]
  qos := 1
  packetID := 7
  properties := some aliased

theorem publish_round_trip_aliased : ∃ b, aliasedPublish.encode = .ok b ∧
    ReadsBack b .publish (decodePublish .v50) aliasedPublish := by
  refine ⟨_, rfl, ?_⟩
  exact publish_round_trip.1 aliasedPublish _ (.inr ⟨rfl, rfl, rfl⟩) rfl

/-! ## Acknowledgements and DISCONNECT -/

theorem decodeReason_ok {target : PropTarget} {trailing : String} {c : Bytes} {rc : ReasonCode}
    {q : Option Properties} : decodeReason target trailing c = .ok (rc, q) ↔
      (c = [] ∧ rc = .success ∧ q = none) ∨ (c = [rc.byte] ∧ q = none) ∨
      ∃ c', c = rc.byte :: c' ∧ c' ≠ [] ∧ decodeProperties c' target = .ok (q, []) := by
  unfold decodeReason
  rcases c with _ | ⟨b, _ | ⟨b', c⟩⟩
  · simp [eq_comm]
  · simp only [List.isEmpty_cons, Bool.false_eq_true, if_false, readByte, bind_ok,
      List.isEmpty_nil, if_true, Except.ok.injEq, Prod.mk.injEq]
    constructor
    · rintro ⟨rfl, rfl⟩
      exact .inr (.inl ⟨rfl, rfl⟩)
    · rintro (⟨h, -⟩ | ⟨h, rfl⟩ | ⟨c', h, hne, -⟩)
      · cases h
      · cases h
        exact ⟨rfl, rfl⟩
      · cases h
        exact absurd rfl hne
  · simp only [List.isEmpty_cons, Bool.false_eq_true, if_false, readByte, bind_ok, bind_eq_ok,
      Prod.exists]
    constructor
    · rintro ⟨q', c', hd, h⟩
      split at h
      · cases h
      · rename_i hempty
        cases h
        obtain rfl : c' = [] := by simpa using hempty
        exact .inr (.inr ⟨_, rfl, by simp, hd⟩)
    · rintro (⟨h, -⟩ | ⟨h, -⟩ | ⟨c', h, -, hd⟩)
      · cases h
      · cases h
      · cases h
        exact ⟨q, [], hd, rfl⟩

/-- A reason with its block is read back, whatever the block holds. -/
theorem decodeReason_block {target : PropTarget} {trailing : String} {rc : ReasonCode}
    {p : Option Properties} {block : Bytes} (h : encodeProperties p target = .ok block) :
    decodeReason target trailing (rc.byte :: block) = .ok (rc, normalise p) := by
  have hd := decodeProperties_encodeProperties h []
  rw [List.append_nil] at hd
  have hne : block ≠ [] := by
    rintro rfl
    cases hd
  exact decodeReason_ok.mpr (.inr (.inr ⟨block, rfl, hne, hd⟩))

theorem AckPacket.encodeAck_ok {p : AckPacket} {b : Bytes} : p.encodeAck = .ok b ↔
    ∃ target, ackTarget p.type = some target ∧ p.packetID ≠ 0 ∧
      ∃ tail, p.tail target = .ok tail ∧
        writePacket p.header (putUint16 p.packetID ++ tail) = .ok b := by
  unfold AckPacket.encodeAck
  cases ht : ackTarget p.type with
  | none =>
    constructor
    · intro h
      cases h
    · rintro ⟨_, h, -⟩
      cases h
  | some target =>
    dsimp only
    by_cases h0 : (p.packetID == 0) = true
    · rw [if_pos h0]
      constructor
      · intro h
        cases h
      · rintro ⟨_, -, hne, -⟩
        exact absurd (beq_iff_eq.mp h0) hne
    · rw [if_neg h0, bind_eq_ok]
      constructor
      · rintro ⟨tail, hw⟩
        exact ⟨target, rfl, by simpa using h0, tail, hw⟩
      · rintro ⟨_, h, -, tail, hw⟩
        cases h
        exact ⟨tail, hw⟩

/-- The type and the flags of a frame are those of its header. -/
theorem flags_of_header {header : UInt8} {t : PacketType}
    (ht : Frame.packetType ⟨header, []⟩ = some t)
    (hf : (Frame.validateFlags ⟨header, []⟩).toBool = true) (body : Bytes) :
    Frame.packetType ⟨header, body⟩ = some t ∧ Frame.validateFlags ⟨header, body⟩ = .ok () := by
  refine ⟨ht, ?_⟩
  have hsame : Frame.validateFlags ⟨header, body⟩ = Frame.validateFlags ⟨header, []⟩ := rfl
  rw [hsame]
  revert hf
  generalize Frame.validateFlags ⟨header, []⟩ = e
  cases e with
  | error e => exact fun h => by cases h
  | ok u => exact fun _ => rfl

theorem ack_flags {p : AckPacket} {target : PropTarget} (h : ackTarget p.type = some target)
    (body : Bytes) : Frame.packetType ⟨p.header, body⟩ = some p.type ∧
      Frame.validateFlags ⟨p.header, body⟩ = .ok () := by
  unfold AckPacket.header
  cases ht : p.type <;> rw [ht] at h <;> first
    | exact flags_of_header (by decide) (by decide) body
    | cases h

theorem ack_reads_back {p : AckPacket} {b : Bytes} (h : p.encodeAck = .ok b) :
    ReadsBack b p.type (fun _ => decodeAck p.version p.type) p.normalised := by
  obtain ⟨target, ht, hid, tail, htail, hw⟩ := AckPacket.encodeAck_ok.mp h
  obtain ⟨hpt, hflags⟩ := ack_flags ht (putUint16 p.packetID ++ tail)
  refine .intro hw hpt hflags ?_
  have hread : readUint16 (putUint16 p.packetID ++ tail) = .ok (p.packetID, tail) :=
    readUint16_ok.mpr rfl
  simp only [decodeAck, ht, hread, bind_ok]
  rw [if_neg (by simpa using hid)]
  cases hv : p.version with
  | v311 =>
    obtain rfl : tail = [] := by
      simpa [AckPacket.tail, hv, eq_comm] using htail
    simp [AckPacket.normalised, hv, Version.carries]
  | v50 =>
    have hreason : decodeReason target "trailing bytes after acknowledgement properties" tail =
        .ok (p.reasonCode, normalise p.properties) := by
      unfold AckPacket.tail at htail
      split at htail
      · cases hp : p.properties with
        | none =>
          simp only [hp] at htail
          cases htail
          exact decodeReason_ok.mpr (.inr (.inl ⟨rfl, rfl⟩))
        | some props =>
          simp only [hp] at htail
          obtain ⟨block, hblock, rfl⟩ := map_eq_ok.mp htail
          exact decodeReason_block hblock
      · rename_i hshort
        cases htail
        have hshort : p.reasonCode.byte = 0 ∧ p.properties = none := by
          simpa [hv] using hshort
        rw [hshort.2]
        exact decodeReason_ok.mpr (.inl ⟨rfl, congrArg ReasonCode.mk hshort.1, rfl⟩)
    simp [hreason, bind_ok, AckPacket.normalised, hv, Version.carries]

/-- Whatever form a reason was read in, the acknowledgement writes no more. -/
theorem tail_of_decodeReason {p : AckPacket} {target : PropTarget} {trailing : String} {c : Bytes}
    (hmem : target ∈ contexts)
    (h : decodeReason target trailing c = .ok (p.reasonCode, p.properties)) :
    ∃ tail, p.tail target = .ok tail ∧ tail.length ≤ c.length := by
  unfold AckPacket.tail
  rcases decodeReason_ok.mp h with ⟨rfl, hrc, hp⟩ | ⟨rfl, hp⟩ | ⟨c', rfl, -, hd⟩
  · exact ⟨[], by simp [hrc, hp, ReasonCode.success], by simp⟩
  · simp only [hp]
    split
    · exact ⟨_, rfl, by simp⟩
    · exact ⟨_, rfl, by simp⟩
  · obtain ⟨block, hb, hle⟩ := encodeProperties_decodeProperties hmem hd
    split
    · cases hp : p.properties with
      | none => exact ⟨_, rfl, by simp⟩
      | some props =>
        rw [hp] at hb
        exact ⟨p.reasonCode.byte :: block, map_eq_ok.mpr ⟨block, hb, rfl⟩, by simpa using hle⟩
    · exact ⟨_, rfl, by simp⟩

theorem ackTarget_mem {t : PacketType} {target : PropTarget} (h : ackTarget t = some target) :
    target ∈ contexts := by
  cases t <;> cases h <;> decide

theorem ack_encodes {v : Version} {t : PacketType} {body : Bytes} {q : AckPacket}
    (hlen : body.length ≤ maxVarint) (h : decodeAck v t body = .ok q) :
    q.version = v ∧ q.type = t ∧ ∃ b, q.encodeAck = .ok b := by
  unfold decodeAck at h
  split at h
  · cases h
  rename_i target ht
  obtain ⟨⟨pid, c⟩, hpid, hrest⟩ := bind_eq_ok.mp h
  clear h
  obtain rfl := readUint16_ok.mp hpid
  dsimp only at hrest
  by_cases h0 : (pid == 0) = true
  · rw [if_pos h0] at hrest
    cases hrest
  rw [if_neg h0] at hrest
  have h0 : pid ≠ 0 := by simpa using h0
  rw [List.length_append] at hlen
  cases v with
  | v311 =>
    dsimp only at hrest
    split at hrest
    · cases hrest
    cases hrest
    have hsmall : (putUint16 pid ++ []).length ≤ maxVarint := by simp [putUint16, maxVarint]
    exact ⟨rfl, rfl, _, AckPacket.encodeAck_ok.mpr ⟨target, ht, h0, [], rfl,
      writePacket_ok.mpr ⟨hsmall, rfl⟩⟩⟩
  | v50 =>
    obtain ⟨⟨rc, properties⟩, hr, h⟩ := bind_eq_ok.mp hrest
    cases h
    obtain ⟨tail, htail, hle⟩ := tail_of_decodeReason (p := ⟨.v50, t, pid, rc, properties⟩)
      (ackTarget_mem ht) hr
    have hbody : (putUint16 pid ++ tail).length ≤ maxVarint := by
      rw [List.length_append]
      omega
    exact ⟨rfl, rfl, _, AckPacket.encodeAck_ok.mpr ⟨target, ht, h0, tail, htail,
      writePacket_ok.mpr ⟨hbody, rfl⟩⟩⟩

theorem DisconnectPacket.encode_ok {p : DisconnectPacket} {b : Bytes} : p.encode = .ok b ↔
    (p.version = .v311 ∨ p.reasonCode = .success ∧ p.properties = none) ∧
      writePacket (PacketType.disconnect.code <<< 4) [] = .ok b ∨
    p.version = .v50 ∧ ¬(p.reasonCode = .success ∧ p.properties = none) ∧
      ∃ block, encodeProperties p.properties tgDisconnect = .ok block ∧
        writePacket (PacketType.disconnect.code <<< 4) (p.reasonCode.byte :: block) = .ok b := by
  have hcond : (p.reasonCode.byte == 0 && p.properties.isNone) = true ↔
      p.reasonCode = .success ∧ p.properties = none := by
    obtain ⟨v, ⟨c⟩, props⟩ := p
    simp [ReasonCode.success]
  unfold DisconnectPacket.encode
  cases hv : p.version with
  | v311 => simp
  | v50 =>
    by_cases hc : p.reasonCode = .success ∧ p.properties = none
    · dsimp only
      rw [if_pos (hcond.mpr hc)]
      simp [hc]
    · dsimp only
      rw [if_neg (mt hcond.mp hc), bind_eq_ok]
      simp [hc]

theorem disconnect_flags (body : Bytes) :
    Frame.packetType ⟨PacketType.disconnect.code <<< 4, body⟩ = some .disconnect ∧
      Frame.validateFlags ⟨PacketType.disconnect.code <<< 4, body⟩ = .ok () :=
  flags_of_header (by decide) (by decide) body

theorem disconnect_reads_back {p : DisconnectPacket} {b : Bytes} (h : p.encode = .ok b) :
    ReadsBack b .disconnect (fun _ => decodeDisconnect p.version) p.normalised := by
  rcases DisconnectPacket.encode_ok.mp h with ⟨hshort, hw⟩ | ⟨hv, -, block, hb, hw⟩
  · refine .intro hw (disconnect_flags _).1 (disconnect_flags _).2 ?_
    cases hv : p.version with
    | v311 => simp [decodeDisconnect, DisconnectPacket.normalised, hv, Version.carries,
        ReasonCode.normalDisconnection, ReasonCode.success]
    | v50 =>
      obtain ⟨hrc, hp⟩ : p.reasonCode = .success ∧ p.properties = none := by simpa [hv] using hshort
      simp only [decodeDisconnect, decodeReason_ok.mpr (.inl ⟨rfl, rfl, rfl⟩), bind_ok]
      simp [DisconnectPacket.normalised, hv, hrc, hp, Version.carries, normalise]
  · refine .intro hw (disconnect_flags _).1 (disconnect_flags _).2 ?_
    simp only [hv, decodeDisconnect, decodeReason_block hb, bind_ok]
    simp [DisconnectPacket.normalised, hv, Version.carries]

theorem disconnect_encodes {v : Version} {body : Bytes} {q : DisconnectPacket}
    (hlen : body.length ≤ maxVarint) (h : decodeDisconnect v body = .ok q) :
    q.version = v ∧ ∃ b, q.encode = .ok b := by
  have hshort : ∃ b, writePacket (PacketType.disconnect.code <<< 4) [] = .ok b := ⟨_, rfl⟩
  cases v with
  | v311 =>
    simp only [decodeDisconnect] at h
    split at h
    · cases h
    cases h
    exact ⟨rfl, hshort.imp fun b hb => DisconnectPacket.encode_ok.mpr (.inl ⟨.inl rfl, hb⟩)⟩
  | v50 =>
    obtain ⟨⟨rc, properties⟩, hr, h⟩ := bind_eq_ok.mp h
    cases h
    refine ⟨rfl, ?_⟩
    by_cases hc : rc = .success ∧ properties = none
    · exact hshort.imp fun b hb => DisconnectPacket.encode_ok.mpr (.inl ⟨.inr hc, hb⟩)
    obtain ⟨block, hb, hle⟩ : ∃ block, encodeProperties properties tgDisconnect = .ok block ∧
        (rc.byte :: block).length ≤ maxVarint := by
      rcases decodeReason_ok.mp hr with ⟨-, hrc, hp⟩ | ⟨-, rfl⟩ | ⟨c', rfl, -, hd⟩
      · exact absurd ⟨hrc, hp⟩ hc
      · exact ⟨[0], rfl, by simp [maxVarint]⟩
      · obtain ⟨block, hb, hle⟩ := encodeProperties_decodeProperties (by decide) hd
        simp only [List.length_cons, List.length_nil] at hlen hle ⊢
        exact ⟨block, hb, by omega⟩
    exact ⟨_, DisconnectPacket.encode_ok.mpr (.inr ⟨rfl, hc, block, hb,
      writePacket_ok.mpr ⟨hle, rfl⟩⟩)⟩

/-- Acknowledgements and DISCONNECTs come back from the wire as they were sent,
whichever of the forms was written, and what was received can be sent on. -/
theorem reason_packets_round_trip :
    (∀ (p : AckPacket) (b : Bytes), p.encodeAck = .ok b →
      ReadsBack b p.type (fun _ => decodeAck p.version p.type) p.normalised) ∧
    (∀ (v : Version) (t : PacketType) (body : Bytes) (q : AckPacket),
      body.length ≤ maxVarint → decodeAck v t body = .ok q →
      ∃ b, q.encodeAck = .ok b ∧ ReadsBack b t (fun _ => decodeAck v t) q.normalised) ∧
    (∀ (p : DisconnectPacket) (b : Bytes), p.encode = .ok b →
      ReadsBack b .disconnect (fun _ => decodeDisconnect p.version) p.normalised) ∧
    ∀ (v : Version) (body : Bytes) (q : DisconnectPacket),
      body.length ≤ maxVarint → decodeDisconnect v body = .ok q →
      ∃ b, q.encode = .ok b ∧ ReadsBack b .disconnect (fun _ => decodeDisconnect v) q.normalised := by
  refine ⟨fun p b h => ack_reads_back h, fun v t body q hlen h => ?_,
    fun p b h => disconnect_reads_back h, fun v body q hlen h => ?_⟩
  · obtain ⟨rfl, rfl, b, hb⟩ := ack_encodes hlen h
    exact ⟨b, hb, ack_reads_back hb⟩
  · obtain ⟨rfl, b, hb⟩ := disconnect_encodes hlen h
    exact ⟨b, hb, disconnect_reads_back hb⟩

/-- A PUBCOMP with a reason string, in the full form. -/
def explained : AckPacket where
  version := .v50
  type := .pubcomp
  packetID := 7
  reasonCode := .packetIdentifierNotFound
  properties := some { reasonString := [0x61] }

theorem reason_packets_round_trip_explained :
    (∃ b, explained.encodeAck = .ok b ∧
      ReadsBack b .pubcomp (fun _ => decodeAck .v50 .pubcomp) explained) ∧
    ∃ b, DisconnectPacket.encode ⟨.v50, .protocolErrorReason, none⟩ = .ok b ∧
      ReadsBack b .disconnect (fun _ => decodeDisconnect .v50) ⟨.v50, .protocolErrorReason, none⟩ := by
  obtain ⟨hack, -, hdisc, -⟩ := reason_packets_round_trip
  exact ⟨⟨_, rfl, hack explained _ rfl⟩, ⟨_, rfl, hdisc ⟨.v50, .protocolErrorReason, none⟩ _ rfl⟩⟩

end GoMqtt.Protocol
