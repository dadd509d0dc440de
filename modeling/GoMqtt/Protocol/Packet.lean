import GoMqtt.Protocol.Properties

/-! # The packets the client puts on the wire

PUBLISH, the four acknowledgements, SUBSCRIBE, UNSUBSCRIBE, PINGREQ and
DISCONNECT with their encoders, and `Packet`, which is any one of them. -/
namespace GoMqtt.Protocol

structure PublishPacket where
  version : Version
  topic : Bytes
  payload : Bytes := []
  qos : UInt8 := 0
  retain : Bool := false
  dup : Bool := false
  packetID : UInt16 := 0
  properties : Option Properties := none
  deriving DecidableEq, Repr

/-- The fixed-header byte of a PUBLISH: type, DUP, QoS, RETAIN. -/
def PublishPacket.header (p : PublishPacket) : UInt8 :=
  let h := PacketType.publish.code <<< 4
  let h := if p.dup then h ||| 0x08 else h
  let h := h ||| (p.qos <<< 1)
  if p.retain then h ||| 0x01 else h

/-- The version is always supported here, so the encoder's first check, on it,
has no counterpart. -/
def PublishPacket.encode (p : PublishPacket) : Except WireError Bytes := do
  if p.qos > 2 then
    throw (.protocolViolation s!"PUBLISH QoS {p.qos}")
  if p.qos > 0 && p.packetID == 0 then
    throw (.protocolViolation s!"PUBLISH QoS {p.qos} with zero packet identifier")
  if p.qos == 0 && p.dup then
    throw (.protocolViolation "PUBLISH with DUP set at QoS 0")
  let topic ← appendString p.topic
  let id := if p.qos > 0 then putUint16 p.packetID else []
  let props ← match p.version with
    | .v50 => encodeProperties p.properties tgPublish
    | .v311 => .ok []
  writePacket p.header (topic ++ id ++ props ++ p.payload)

structure AckPacket where
  version : Version
  type : PacketType
  packetID : UInt16
  reasonCode : ReasonCode := .success
  properties : Option Properties := none
  deriving DecidableEq, Repr

/-- The property target of an acknowledgement type; no other type has one. -/
def ackTarget : PacketType → Option PropTarget
  | .puback => some tgPuback
  | .pubrec => some tgPubrec
  | .pubrel => some tgPubrel
  | .pubcomp => some tgPubcomp
  | _ => none

/-- What follows the packet identifier: nothing in the short form, else the reason
code, and the property block where there is one. -/
def AckPacket.tail (p : AckPacket) (target : PropTarget) : Except WireError Bytes :=
  if p.version = .v50 && (p.reasonCode.byte != 0 || p.properties.isSome) then
    match p.properties with
    | none => .ok [p.reasonCode.byte]
    | some props => (encodeProperties (some props) target).map (p.reasonCode.byte :: ·)
  else .ok []

def AckPacket.header (p : AckPacket) : UInt8 :=
  let header := p.type.code <<< 4
  if p.type = .pubrel then header ||| 0x02 else header

def AckPacket.encodeAck (p : AckPacket) : Except WireError Bytes := do
  let some target := ackTarget p.type
    | throw (.protocolViolation (p.type.string ++ " is not an acknowledgement packet"))
  if p.packetID == 0 then
    throw (.protocolViolation (p.type.string ++ " with zero packet identifier"))
  let tail ← p.tail target
  writePacket p.header (putUint16 p.packetID ++ tail)

structure SubscribeOptions where
  qos : UInt8 := 0
  noLocal : Bool := false
  retainAsPublished : Bool := false
  retainHandling : UInt8 := 0
  deriving DecidableEq, Repr

def subscribeOptionsByte (v : Version) (o : SubscribeOptions) : Except WireError UInt8 := do
  if o.qos > 2 then
    throw (.protocolViolation s!"subscription QoS {o.qos}")
  match v with
  | .v311 => return o.qos
  | .v50 =>
    let b := o.qos
    let b := if o.noLocal then b ||| 0x04 else b
    let b := if o.retainAsPublished then b ||| 0x08 else b
    if o.retainHandling > 2 then
      throw (.protocolViolation s!"retain handling {o.retainHandling}")
    return b ||| (o.retainHandling <<< 4)

structure Subscription where
  filter : Bytes
  options : SubscribeOptions
  deriving DecidableEq, Repr

structure SubscribePacket where
  version : Version
  packetID : UInt16
  subscriptions : List Subscription
  properties : Option Properties := none
  deriving DecidableEq, Repr

def SubscribePacket.encode (p : SubscribePacket) : Except WireError Bytes := do
  if p.packetID == 0 then
    throw (.protocolViolation "SUBSCRIBE with zero packet identifier")
  if p.subscriptions.isEmpty then
    throw (.protocolViolation "SUBSCRIBE with no subscriptions")
  let props ← match p.version with
    | .v50 => encodeProperties p.properties tgSubscribe
    | .v311 => .ok []
  let payload ← appendAll (p.subscriptions.map fun sub => do
    let filter ← appendString sub.filter
    let opt ← subscribeOptionsByte p.version sub.options
    return filter ++ [opt])
  writePacket ((PacketType.subscribe.code <<< 4) ||| 0x02)
    (putUint16 p.packetID ++ props ++ payload)

structure UnsubscribePacket where
  version : Version
  packetID : UInt16
  filters : List Bytes
  properties : Option Properties := none
  deriving DecidableEq, Repr

def UnsubscribePacket.encode (p : UnsubscribePacket) : Except WireError Bytes := do
  if p.packetID == 0 then
    throw (.protocolViolation "UNSUBSCRIBE with zero packet identifier")
  if p.filters.isEmpty then
    throw (.protocolViolation "UNSUBSCRIBE with no filters")
  let props ← match p.version with
    | .v50 => encodeProperties p.properties tgUnsubscribe
    | .v311 => .ok []
  let payload ← appendAll (p.filters.map appendString)
  writePacket ((PacketType.unsubscribe.code <<< 4) ||| 0x02)
    (putUint16 p.packetID ++ props ++ payload)

structure DisconnectPacket where
  version : Version
  reasonCode : ReasonCode
  properties : Option Properties := none
  deriving DecidableEq, Repr

def DisconnectPacket.encode (p : DisconnectPacket) : Except WireError Bytes :=
  let header := PacketType.disconnect.code <<< 4
  match p.version with
  | .v311 => writePacket header []
  | .v50 =>
    if p.reasonCode.byte == 0 && p.properties.isNone then writePacket header []
    else do
      let block ← encodeProperties p.properties tgDisconnect
      writePacket header (p.reasonCode.byte :: block)

def encodePingReq : Except WireError Bytes := writePacket (PacketType.pingreq.code <<< 4) []

/-- Anything `writeFrame` is asked to encode. -/
inductive Packet
  | publish (p : PublishPacket)
  | ack (p : AckPacket)
  | subscribe (p : SubscribePacket)
  | unsubscribe (p : UnsubscribePacket)
  | pingreq
  | disconnect (p : DisconnectPacket)
  deriving DecidableEq, Repr

def Packet.encode : Packet → Except WireError Bytes
  | .publish p => p.encode
  | .ack p => p.encodeAck
  | .subscribe p => p.encode
  | .unsubscribe p => p.encode
  | .pingreq => encodePingReq
  | .disconnect p => p.encode

end GoMqtt.Protocol
