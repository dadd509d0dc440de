import GoMqtt.Broker.Codec
import GoMqtt.Client.KeepAlive
import GoMqtt.Inbound.Connack

/-! # The handshake, in bytes

`Connect` writes one packet, made of the configuration, and reads one back. The
broker finds in the CONNECT what was configured, and the client finds in the
CONNACK what the broker was told to grant: as far as the mock writes it, and as
long as the specification allows it. -/
namespace GoMqtt.Client
open GoMqtt.Protocol GoMqtt.Inbound

/-! ## What the client asks for -/

/-- The Last Will of the configuration. -/
structure Will where
  topic : Bytes
  contentType : Bytes := []
  responseTopic : Bytes := []
  payload : Bytes := []
  correlationData : Bytes := []
  qos : UInt8 := 0
  retain : Bool := false
  payloadFormatUTF8 : Bool := false
  delayIntervalSeconds : UInt32 := 0
  messageExpirySeconds : UInt32 := 0
  userProperties : List UserProperty := []
  deriving DecidableEq, Repr

/-- The fields of `TCPConfig` that only the handshake reads. -/
structure ConnectConfig where
  clientID : Bytes
  username : Bytes := []
  password : Bytes := []
  receiveMaximum : UInt16 := 0
  maximumPacketSize : UInt32 := 0
  userProperties : List UserProperty := []
  keepAlive : Int := 0
  will : Option Will := none
  deriving DecidableEq, Repr

def defaultMaxPacketSize : UInt32 := (1 : UInt32) <<< 20

/-- The part of `NewTCPClient` that sets the largest packet the client reads. -/
def ConnectConfig.inboundMax (c : ConnectConfig) : UInt32 :=
  if c.maximumPacketSize == 0 then defaultMaxPacketSize else c.maximumPacketSize

/-- A property that the value 0 leaves out. -/
def unlessZero {ν : Type} [BEq ν] [OfNat ν 0] (n : ν) : Option ν := if n == 0 then none else some n

def buildWill (v : Version) (w : Will) : Protocol.Will where
  topic := w.topic
  payload := w.payload
  qos := w.qos
  retain := w.retain
  properties := match v with
    | .v311 => none
    | .v50 => some
      { contentType := w.contentType
        responseTopic := w.responseTopic
        correlationData := w.correlationData
        userProperties := w.userProperties
        payloadFormat := if w.payloadFormatUTF8 then some 1 else none
        messageExpiryInterval := unlessZero w.messageExpirySeconds
        willDelayInterval := unlessZero w.delayIntervalSeconds }

def buildConnectPacket (cfg : TCPConfig) (c : ConnectConfig) : ConnectPacket where
  version := cfg.protocolVersion
  clientID := c.clientID
  keepAlive := keepAliveSeconds (defaultedKeepAlive c.keepAlive)
  username := c.username
  password := c.password
  cleanStart := cfg.cleanStart
  will := c.will.map (buildWill cfg.protocolVersion)
  properties := match cfg.protocolVersion with
    | .v311 => none
    | .v50 => some
      { sessionExpiryInterval := unlessZero cfg.sessionExpirySeconds
        receiveMaximum := unlessZero c.receiveMaximum
        maximumPacketSize := some c.inboundMax
        topicAliasMaximum := unlessZero cfg.topicAliasMaximum
        userProperties := c.userProperties }

/-- The part of `Connect` that ends with the CONNECT on the wire. -/
def connectRequest (cfg : TCPConfig) (c : ConnectConfig) : Except ClientError Bytes := do
  if let some w := c.will then
    match validateTopicName w.topic with
    | .error e => throw (.wire e)
    | .ok () => pure ()
    if cfg.protocolVersion = .v50 && !w.responseTopic.isEmpty then
      match validateTopicName w.responseTopic with
      | .error e => throw (.responseTopic e)
      | .ok () => pure ()
  match (buildConnectPacket cfg c).encode with
  | .error e => throw (.wire e)
  | .ok b => return b

/-- The part of `Connect` that reads the CONNACK. -/
def readConnack (v : Version) (limit : UInt32) (r : Bytes) : State.Handshake :=
  match readFrame r limit with
  | (.ok f, _) =>
    if f.packetType = some .connack then
      match decodeConnack v f.body with
      | .ok ack => .connack ack
      | .error _ => .failed
    else .failed
  | (.error _, _) => .failed

theorem connectRequest_ok {cfg : TCPConfig} {c : ConnectConfig} {b : Bytes}
    (h : connectRequest cfg c = .ok b) : (buildConnectPacket cfg c).encode = .ok b := by
  unfold connectRequest at h
  cases henc : (buildConnectPacket cfg c).encode with
  | error e =>
    simp only [henc, bind, Except.bind, throw, throwThe, MonadExceptOf.throw] at h
    repeat' split at h
    all_goals cases h
  | ok b' =>
    simp only [henc, bind, Except.bind, pure, Except.pure, throw, throwThe,
      MonadExceptOf.throw] at h
    repeat' split at h
    all_goals cases h
    all_goals rfl

end GoMqtt.Client

namespace GoMqtt.Broker
open GoMqtt.Protocol GoMqtt.Protocol.Mock GoMqtt.Client GoMqtt.Inbound GoMqtt.Lib

/-! ## What the broker reads -/

/-- What the flags of a CONNECT say when they are read back. -/
theorem flags_read {p : ConnectPacket} {flags : UInt8} (h : p.flags = .ok flags) :
    (flags &&& 0x80 != 0) = !p.username.isEmpty ∧ (flags &&& 0x40 != 0) = !p.password.isEmpty ∧
    (flags &&& 0x02 != 0) = p.cleanStart ∧ (flags &&& 0x04 != 0) = p.will.isSome := by
  obtain ⟨hqos, hflags⟩ := ConnectPacket.flags_ok h
  have hle : ∀ q ∈ p.willBits, q.1 ≤ 2 := by
    intro q hq
    obtain ⟨w, hw, rfl⟩ := Option.map_eq_some_iff.mp hq
    exact hqos w hw
  have hparse : parseFlags flags = _ := (congrArg parseFlags hflags).trans (parseFlags_flagBits hle)
  obtain ⟨huser, hpass, hclean, hwill⟩ : _ ∧ _ ∧ _ ∧ _ := by
    simpa only [parseFlags, Prod.mk.injEq] using hparse
  refine ⟨huser, hpass, hclean, ?_⟩
  have hsome := congrArg Option.isSome hwill
  rw [ConnectPacket.willBits, Option.isSome_map] at hsome
  rw [← hsome]
  cases flags &&& 0x04 != 0 <;> rfl

theorem readString_append {s b : Bytes} (h : appendString s = .ok b) (r : Bytes) :
    Mock.readString (b ++ r) = .ok (s, r) :=
  readString_agrees _ _ (readString_ok.mpr ⟨b, h, rfl⟩)

theorem readBinary_append {s b : Bytes} (h : appendBinary s = .ok b) (r : Bytes) :
    Mock.readBinary (b ++ r) = .ok (s, r) :=
  readBinary_agrees _ _ (readBinary_ok.mpr ⟨b, h, rfl⟩)

theorem readConnectProperties_writeBlock {v : Version} {p : Option Properties} {target : PropTarget}
    {block : Bytes} (h : writeBlock v p target = .ok block) (r : Bytes) :
    readConnectProperties v (block ++ r) = .ok (v.carries p, r) := by
  have hread := readBlock_writeBlock h r
  cases v with
  | v311 =>
    cases h
    rfl
  | v50 => exact decodeMockProperties_agrees _ _ _ hread

/-- A part that is left out where it is empty is skipped where it is there. -/
theorem skip_unlessEmpty {append : Bytes → Except WireError Bytes}
    {read : Bytes → Except MockError (Bytes × Bytes)}
    (hread : ∀ {s b}, append s = .ok b → ∀ r, read (b ++ r) = .ok (s, r)) {s b : Bytes}
    (h : appendUnlessEmpty append s = .ok b) {there : Bool} (hthere : there = !s.isEmpty) (r : Bytes) :
    skipIf there (fun c => (read c).map Prod.snd) (b ++ r) = .ok r := by
  unfold appendUnlessEmpty at h
  unfold skipIf
  cases hs : s.isEmpty with
  | true =>
    rw [hs] at h
    cases h
    rw [hthere, hs]
    rfl
  | false =>
    rw [hs] at h
    rw [hthere, hs]
    show (read (b ++ r)).map Prod.snd = .ok r
    rw [hread h r]
    rfl

theorem skipConnectPayload_payload {p : ConnectPacket} {flags : UInt8} {will user pass : Bytes}
    (hflags : p.flags = .ok flags) (hwill : willPayload p.version p.will = .ok will)
    (huser : appendUnlessEmpty appendString p.username = .ok user)
    (hpass : appendUnlessEmpty appendBinary p.password = .ok pass) :
    skipConnectPayload p.version flags (will ++ (user ++ (pass ++ []))) = .ok [] := by
  obtain ⟨hu, hp, -, hw⟩ := flags_read hflags
  have hskip : skipIf p.will.isSome (skipWill p.version) (will ++ (user ++ (pass ++ []))) =
      .ok (user ++ (pass ++ [])) := by
    cases hsome : p.will with
    | none =>
      rw [hsome] at hwill
      cases hwill
      rfl
    | some w =>
      rw [hsome] at hwill
      obtain ⟨block, _, hblock, h₁, rfl⟩ := appendAll_cons_ok.mp hwill
      obtain ⟨topic, _, htopic, h₂, rfl⟩ := appendAll_cons_ok.mp h₁
      obtain ⟨payload, _, hpayload, h₃, rfl⟩ := appendAll_cons_ok.mp h₂
      cases h₃
      simp only [skipIf, skipWill, Option.isSome_some, if_true, List.append_assoc, List.nil_append,
        readConnectProperties_writeBlock hblock, bind_ok, readString_append htopic,
        readBinary_append hpayload]
      rfl
  unfold skipConnectPayload
  rw [hw]
  rw [hskip, bind_ok, skip_unlessEmpty readString_append huser hu, bind_ok,
    skip_unlessEmpty readBinary_append hpass hp]

/-- The broker recovers the version, the Clean Start bit and the properties of a CONNECT. -/
theorem decodeMockConnect_encode {p : ConnectPacket} {b : Bytes} (h : p.encode = .ok b) :
    ∃ body, Whole b ⟨PacketType.connect.code <<< 4, body⟩ ∧
      decodeMockConnect body = .ok ⟨p.version, p.cleanStart, p.version.carries p.properties⟩ := by
  obtain ⟨name, flags, payload, hname, hflags, hpayload, hw⟩ := ConnectPacket.encode_ok h
  refine ⟨_, hw, ?_⟩
  obtain ⟨block, _, hblock, h₁, rfl⟩ := appendAll_cons_ok.mp hpayload
  obtain ⟨client, _, hclient, h₂, rfl⟩ := appendAll_cons_ok.mp h₁
  obtain ⟨will, _, hwill, h₃, rfl⟩ := appendAll_cons_ok.mp h₂
  obtain ⟨user, _, huser, h₄, rfl⟩ := appendAll_cons_ok.mp h₃
  obtain ⟨pass, _, hpass, h₅, rfl⟩ := appendAll_cons_ok.mp h₄
  cases h₅
  have hkeep : ∀ r, Mock.readUint16 (putUint16 p.keepAlive ++ r) = .ok (p.keepAlive, r) :=
    fun r => readUint16_agrees _ _ (readUint16_ok.mpr rfl)
  have hversion : validVersion p.version.level = some p.version := by cases p.version <;> rfl
  obtain ⟨-, -, hclean, -⟩ := flags_read hflags
  unfold decodeMockConnect
  simp only [List.append_assoc, List.cons_append, List.nil_append, readString_append hname,
    Except.mapError, bind_ok, Mock.readByte, hversion, hkeep,
    readConnectProperties_writeBlock hblock, readString_append hclient,
    skipConnectPayload_payload hflags hwill huser hpass, hclean]
  rfl

/-! ## What the client reads -/

/-- The properties that the mock writes, in its order. -/
def connackGroups (p : Properties) : List (List Entry) :=
  [numEntries 0x21 .u16 p.receiveMaximum, numEntries 0x13 .u16 p.serverKeepAlive,
    dataEntries 0x12 .str p.assignedClientID, numEntries 0x22 .u16 p.topicAliasMaximum,
    numEntries 0x24 .byte p.maximumQoS, numEntries 0x25 .byte p.retainAvailable,
    numEntries 0x27 .u32 p.maximumPacketSize]

def connackEntries (p : Properties) : List Entry := (connackGroups p).flatten

/-- What they stand for: the other properties of the script are not written. -/
def connackSubset (p : Properties) : Properties where
  receiveMaximum := p.receiveMaximum
  serverKeepAlive := p.serverKeepAlive
  assignedClientID := p.assignedClientID
  topicAliasMaximum := p.topicAliasMaximum
  maximumQoS := p.maximumQoS
  retainAvailable := p.retainAvailable
  maximumPacketSize := p.maximumPacketSize

theorem connackEntries_put (p : Properties) :
    (connackEntries p).foldl Properties.put {} = connackSubset p := by
  unfold connackEntries connackGroups
  simp only [List.flatten_cons, List.flatten_nil, List.foldl_append]
  rw [foldl_num 0x21 (fun q o => { q with receiveMaximum := o }) (fun _ _ => rfl),
    foldl_num 0x13 (fun q o => { q with serverKeepAlive := o }) (fun _ _ => rfl),
    foldl_data 0x12 (fun q s => { q with assignedClientID := s }) (fun _ _ => rfl),
    foldl_num 0x22 (fun q o => { q with topicAliasMaximum := o }) (fun _ _ => rfl),
    foldl_num 0x24 (fun q o => { q with maximumQoS := o }) (fun _ _ => rfl),
    foldl_num 0x25 (fun q o => { q with retainAvailable := o }) (fun _ _ => rfl),
    foldl_num 0x27 (fun q o => { q with maximumPacketSize := o }) (fun _ _ => rfl)]
  all_goals rfl

theorem wire_num {ν : Type} (id : UInt8) (wrap : ν → Value) (o : Option ν) :
    wire (numEntries id wrap o) = mockProp id (fun n => (wrap n).bytes) o := by
  cases o <;> simp [numEntries, wire, Entry.bytes, mockProp]

theorem wire_str (id : UInt8) (s : Bytes) :
    wire (dataEntries id .str s) = if s.isEmpty then [] else id :: writeMockString s := by
  unfold dataEntries
  split <;> simp [wire, Entry.bytes, Value.bytes, writeMockString]

theorem appendMockConnackProps_some (p : Properties) : appendMockConnackProps (some p) =
    appendVarint (wire (connackEntries p)).length.toUInt32 ++ wire (connackEntries p) := by
  unfold connackEntries connackGroups
  simp only [List.flatten_cons, List.flatten_nil, wire_append, wire_num, wire_str]
  simp only [appendMockConnackProps, encodeMockVarint, List.append_assoc, Value.bytes]
  simp [wire]

/-- The block is none where nothing of it was written. -/
theorem connackEntries_normalise (p : Properties) :
    (if connackEntries p = [] then none else some ((connackEntries p).foldl Properties.put {})) =
      normalise (some (connackSubset p)) := by
  rw [connackEntries_put, normalise]
  by_cases hnil : connackEntries p = []
  · have hempty := connackEntries_put p
    rw [hnil, List.foldl_nil] at hempty
    rw [if_pos hnil, ← hempty, if_pos rfl]
  · rw [if_neg hnil, if_neg]
    intro heq
    refine hnil ?_
    simp only [connackSubset, Option.some.injEq, Properties.mk.injEq, true_and, and_true] at heq
    obtain ⟨hid, hkeep, hreceive, halias, hqos, hretain, hsize⟩ := heq
    simp [connackEntries, connackGroups, hid, hkeep, hreceive, halias, hqos, hretain, hsize, numEntries,
      dataEntries]

theorem connackEntries_once (p : Properties) : Once tgConnack (connackEntries p) := by
  have hids : [(0x21 : UInt8), 0x13, 0x12, 0x22, 0x24, 0x25, 0x27].Nodup := by decide
  refine once_flatten hids ?_
  exact .cons (group_num _ _) <| .cons (group_num _ _) <| .cons (group_data _ _) <|
    .cons (group_num _ _) <| .cons (group_num _ _) <| .cons (group_num _ _) <|
    .cons (group_num _ _) .nil

/-- Properties that the specification allows in a CONNACK, as far as the mock writes them. -/
structure Grantable (p : Properties) : Prop where
  limits : LimitsInRange p
  retain : ∀ r, p.retainAvailable = some r → r ≤ 1
  clientID : WellFormed p.assignedClientID

theorem legal_num {ν : Type} {id : UInt8} {target : PropTarget} {wrap : ν → Value} {o : Option ν}
    {e : Entry} (he : e ∈ numEntries id wrap o) (hspec : propertySpec id &&& target ≠ 0)
    (hval : ∀ n, o = some n → (wrap n).Legal id) : e.Legal target := by
  cases o with
  | none => cases he
  | some n =>
    cases List.mem_singleton.mp he
    exact ⟨hspec, hval n rfl⟩

theorem legal_str {id : UInt8} {target : PropTarget} {s : Bytes} {e : Entry}
    (he : e ∈ dataEntries id .str s) (hspec : propertySpec id &&& target ≠ 0)
    (hval : (Value.str s).Legal id) : e.Legal target := by
  unfold dataEntries at he
  split at he
  · cases he
  · cases List.mem_singleton.mp he
    exact ⟨hspec, hval⟩

/-- A flag is in its range. -/
theorem flag_in_range {id v : UInt8}
    (hid : [0x01, 0x17, 0x19, 0x24, 0x25, 0x28, 0x29, 0x2A].contains id = true) (hv : v ≤ 1) :
    propertyValueViolation id v.toUInt32 = none := by
  rw [propertyValueViolation, if_pos hid, if_neg]
  simpa [UInt8.le_iff_toNat_le, UInt32.lt_iff_toNat_lt] using hv

theorem Grantable.legal {p : Properties} (h : Grantable p) :
    ∀ e ∈ connackEntries p, e.Legal tgConnack := by
  intro e he
  simp only [connackEntries, connackGroups, List.flatten_cons, List.flatten_nil,
    List.mem_append, List.not_mem_nil, or_false] at he
  rcases he with he | he | he | he | he | he | he
  · refine legal_num he (by decide) fun n hn => ⟨rfl, ?_⟩
    have hne : n ≠ 0 := fun h0 => h.limits.receiveMaximum (by rw [hn, h0])
    rw [propertyValueViolation, if_neg (by decide), if_pos (by decide), if_neg]
    simpa [← UInt32.toNat_inj, ← UInt16.toNat_inj] using hne
  · exact legal_num he (by decide) fun _ _ => ⟨rfl, rfl⟩
  · exact legal_str he (by decide) ⟨rfl, h.clientID⟩
  · exact legal_num he (by decide) fun _ _ => ⟨rfl, rfl⟩
  · exact legal_num he (by decide) fun q hq =>
      ⟨rfl, flag_in_range (by decide) (h.limits.maximumQoS q hq)⟩
  · exact legal_num he (by decide) fun r hr =>
      ⟨rfl, flag_in_range (by decide) (h.retain r hr)⟩
  · refine legal_num he (by decide) fun n hn => ⟨rfl, ?_⟩
    have hne : n ≠ 0 := fun h0 => h.limits.maximumPacketSize (by rw [hn, h0])
    rw [propertyValueViolation, if_neg (by decide), if_pos (by decide), if_neg]
    simpa using hne

theorem length_wire_num {ν : Type} (id : UInt8) (wrap : ν → Value) {k : Nat}
    (hk : ∀ n, (wrap n).bytes.length ≤ k) (o : Option ν) :
    (wire (numEntries id wrap o)).length ≤ k + 1 := by
  cases o with
  | none => exact Nat.zero_le _
  | some n => simpa [numEntries, wire, Entry.bytes] using hk n

/-- The block is small next to what the varint of a length can say. -/
theorem Grantable.length_le {p : Properties} (h : Grantable p) :
    (wire (connackEntries p)).length ≤ 65560 := by
  have hid : (wire (dataEntries 0x12 .str p.assignedClientID)).length ≤ 65538 := by
    have hlen : p.assignedClientID.length ≤ 65535 := h.clientID.1
    unfold dataEntries
    split
    · exact Nat.zero_le _
    · simp only [wire, List.flatMap_singleton, Entry.bytes, Value.bytes, putUint16,
        List.length_cons, List.length_append, List.length_nil]
      omega
  have hu16 := fun id => length_wire_num id .u16 fun _ => Nat.le_refl 2
  have hbyte := fun id => length_wire_num id .byte fun _ => Nat.le_refl 1
  have hsize := length_wire_num 0x27 .u32 (fun _ => Nat.le_refl 4) p.maximumPacketSize
  have hreceive := hu16 0x21 p.receiveMaximum
  have hkeep := hu16 0x13 p.serverKeepAlive
  have halias := hu16 0x22 p.topicAliasMaximum
  have hqos := hbyte 0x24 p.maximumQoS
  have hretain := hbyte 0x25 p.retainAvailable
  simp only [connackEntries, connackGroups, List.flatten_cons, List.flatten_nil, wire_append,
    List.length_append]
  have hnil : (wire []).length = 0 := rfl
  omega

theorem Grantable.block_length_le {props : Option Properties} (h : Grantable (props.getD {})) :
    (appendMockConnackProps props).length ≤ 65570 := by
  cases props with
  | none => decide
  | some p =>
    have hlen := Grantable.length_le (p := p) h
    have hprefix : (appendVarint (wire (connackEntries p)).length.toUInt32).length ≤ 3 := by
      have hle : (wire (connackEntries p)).length.toUInt32.toNat ≤ (65560 : UInt32).toNat := by
        rw [Nat.toUInt32_eq, UInt32.toNat_ofNat']
        exact Nat.le_trans (Nat.mod_le _ _) hlen
      exact Nat.le_trans (length_appendVarint_le hle) (by decide)
    rw [appendMockConnackProps_some, List.length_append]
    omega

/-- The block of a CONNACK is read as the subset of the script that was written. -/
theorem decodeProperties_connack {props : Option Properties} (h : Grantable (props.getD {})) :
    decodeProperties (appendMockConnackProps props) tgConnack =
      .ok (normalise (props.map connackSubset), []) := by
  cases props with
  | none => exact decodeProperties_empty tgConnack []
  | some p =>
    have hlen := Grantable.length_le (p := p) h
    refine decodeProperties_ok.mpr ⟨connackEntries p, by unfold maxVarint; omega, ?_, h.legal,
      connackEntries_once p, (connackEntries_normalise p).symm⟩
    rw [appendMockConnackProps_some, List.append_nil]

/-- What the client finds in a CONNACK of the mock. -/
def granted (v : Version) (sessionPresent : Bool) (reason : UInt8) (props : Option Properties) :
    ConnackPacket :=
  match v with
  | .v311 =>
    { sessionPresent
      reasonCode := if reason == 0 then .success
        else (v3ConnackReason reason).getD unspecifiedError }
  | .v50 =>
    { sessionPresent
      reasonCode := ⟨reason⟩
      properties := normalise (props.map connackSubset) }

theorem decodeConnack_build {sessionPresent : Bool} {reason : UInt8} {props : Option Properties}
    (hsession : sessionPresent = true → reason = 0) (hprops : Grantable (props.getD {}))
    (v : Version) : decodeConnack v (buildConnack v sessionPresent reason props) =
      .ok (granted v sessionPresent reason props) := by
  have hflag : ((if sessionPresent then 0x01 else 0x00 : UInt8) &&& 0xFE != 0) = false ∧
      ((if sessionPresent then 0x01 else 0x00 : UInt8) &&& 0x01 != 0) = sessionPresent := by
    cases sessionPresent <;> decide
  have hrefused : (sessionPresent && reason != 0) = false := by
    cases hs : sessionPresent with
    | false => rfl
    | true => simp [hsession hs]
  unfold decodeConnack buildConnack
  cases v with
  | v311 =>
    simp only [List.cons_append, List.nil_append, Protocol.readByte, bind_ok, hflag.1, hflag.2, hrefused]
    rfl
  | v50 =>
    simp only [List.cons_append, List.nil_append, Protocol.readByte, bind_ok, hflag.1, hflag.2, hrefused,
      decodeProperties_connack hprops]
    rfl

end GoMqtt.Broker
