import GoMqtt.Protocol.Wire

/-! # The MQTT 5.0 property block

`Properties` holds every property the client encodes or decodes. An absent
numeric property is `none`; an empty string or binary is an absent one. Which
property may stand in which packet is decided by `propertySpec` alone, and the
value ranges by `propertyValueViolation` alone. -/
namespace GoMqtt.Protocol

structure UserProperty where
  key : Bytes
  value : Bytes
  deriving DecidableEq, Repr

structure Properties where
  payloadFormat : Option UInt8 := none
  messageExpiryInterval : Option UInt32 := none
  contentType : Bytes := []
  responseTopic : Bytes := []
  correlationData : Bytes := []
  subscriptionIdentifiers : List UInt32 := []
  sessionExpiryInterval : Option UInt32 := none
  assignedClientID : Bytes := []
  serverKeepAlive : Option UInt16 := none
  authMethod : Bytes := []
  authData : Bytes := []
  requestProblemInfo : Option UInt8 := none
  willDelayInterval : Option UInt32 := none
  requestResponseInfo : Option UInt8 := none
  responseInfo : Bytes := []
  serverReference : Bytes := []
  reasonString : Bytes := []
  receiveMaximum : Option UInt16 := none
  topicAliasMaximum : Option UInt16 := none
  topicAlias : Option UInt16 := none
  maximumQoS : Option UInt8 := none
  retainAvailable : Option UInt8 := none
  userProperties : List UserProperty := []
  maximumPacketSize : Option UInt32 := none
  wildcardSubAvailable : Option UInt8 := none
  subIDAvailable : Option UInt8 := none
  sharedSubAvailable : Option UInt8 := none
  deriving DecidableEq, Repr

/-- A set of contexts, bit `i` standing for packet type `i`. -/
abbrev PropTarget := UInt32

def bitOf (t : PacketType) : PropTarget := (1 : UInt32) <<< t.code.toUInt32

def tgConnect : PropTarget := bitOf .connect
def tgConnack : PropTarget := bitOf .connack
def tgPublish : PropTarget := bitOf .publish
def tgPuback : PropTarget := bitOf .puback
def tgPubrec : PropTarget := bitOf .pubrec
def tgPubrel : PropTarget := bitOf .pubrel
def tgPubcomp : PropTarget := bitOf .pubcomp
def tgSubscribe : PropTarget := bitOf .subscribe
def tgSuback : PropTarget := bitOf .suback
def tgUnsubscribe : PropTarget := bitOf .unsubscribe
def tgUnsuback : PropTarget := bitOf .unsuback
def tgDisconnect : PropTarget := bitOf .disconnect
def tgAuth : PropTarget := bitOf .auth

/-- The pseudo-slot for the CONNECT Will Properties block. -/
def willBit : PropTarget := (1 : UInt32) <<< 16

def userPropTargets : PropTarget :=
  tgConnect ||| tgConnack ||| tgPublish ||| willBit ||| tgPuback ||| tgPubrec ||| tgPubrel |||
  tgPubcomp ||| tgSubscribe ||| tgSuback ||| tgUnsubscribe ||| tgUnsuback ||| tgDisconnect |||
  tgAuth

/-- Where each property identifier is legal; an unknown one is legal nowhere. -/
def propertySpec (id : UInt8) : PropTarget :=
  if id == 0x01 then tgPublish ||| willBit
  else if id == 0x02 then tgPublish ||| willBit
  else if id == 0x03 then tgPublish ||| willBit
  else if id == 0x08 then tgPublish ||| willBit
  else if id == 0x09 then tgPublish ||| willBit
  else if id == 0x0B then tgPublish ||| tgSubscribe
  else if id == 0x11 then tgConnect ||| tgConnack ||| tgDisconnect
  else if id == 0x12 then tgConnack
  else if id == 0x13 then tgConnack
  else if id == 0x15 then tgConnect ||| tgConnack ||| tgAuth
  else if id == 0x16 then tgConnect ||| tgConnack ||| tgAuth
  else if id == 0x17 then tgConnect
  else if id == 0x18 then willBit
  else if id == 0x19 then tgConnect
  else if id == 0x1A then tgConnack
  else if id == 0x1C then tgConnack ||| tgDisconnect
  else if id == 0x1F then tgConnack ||| tgPuback ||| tgPubrec ||| tgPubrel ||| tgPubcomp |||
    tgSuback ||| tgUnsuback ||| tgDisconnect ||| tgAuth
  else if id == 0x21 then tgConnect ||| tgConnack
  else if id == 0x22 then tgConnect ||| tgConnack
  else if id == 0x23 then tgPublish
  else if id == 0x24 then tgConnack
  else if id == 0x25 then tgConnack
  else if id == 0x26 then userPropTargets
  else if id == 0x27 then tgConnect ||| tgConnack
  else if id == 0x28 then tgConnack
  else if id == 0x29 then tgConnack
  else if id == 0x2A then tgConnack
  else 0

def hexDigit (n : UInt8) : Char :=
  if n < 10 then Char.ofNat (48 + n.toNat) else Char.ofNat (55 + n.toNat)

/-- `%02X`. -/
def hex2 (b : UInt8) : String := String.ofList [hexDigit (b >>> 4), hexDigit (b &&& 0x0F)]

def checkEncodeAllowed (id : UInt8) (target : PropTarget) : Except WireError Unit :=
  if propertySpec id &&& target == 0 then
    .error (.protocolViolation ("property 0x" ++ hex2 id ++ " illegal in this packet"))
  else .ok ()

/-- Why `v` is out of range for property `id`, if it is. -/
def propertyValueViolation (id : UInt8) (v : UInt32) : Option String :=
  if [0x01, 0x17, 0x19, 0x24, 0x25, 0x28, 0x29, 0x2A].contains id then
    if v > 1 then some "value must be 0 or 1" else none
  else if [0x21, 0x23, 0x27].contains id then
    if v == 0 then some "value must not be 0" else none
  else none

def checkEncodeValue (id : UInt8) (v : UInt32) : Except WireError Unit :=
  match propertyValueViolation id v with
  | some why => .error (.protocolViolation ("property 0x" ++ hex2 id ++ " " ++ why))
  | none => .ok ()

/-- A numeric property: nothing when absent, else placement, range, then the
identifier and the value's bytes. -/
def writeNumProp {ν : Type} (widen : ν → UInt32) (put : ν → Bytes) (target : PropTarget)
    (id : UInt8) : Option ν → Except WireError Bytes
  | none => .ok []
  | some v => do
    checkEncodeAllowed id target
    checkEncodeValue id (widen v)
    return id :: put v

def writeByteProp : PropTarget → UInt8 → Option UInt8 → Except WireError Bytes :=
  writeNumProp UInt8.toUInt32 fun v => [v]

def writeU16Prop : PropTarget → UInt8 → Option UInt16 → Except WireError Bytes :=
  writeNumProp UInt16.toUInt32 putUint16

def writeU32Prop : PropTarget → UInt8 → Option UInt32 → Except WireError Bytes :=
  writeNumProp id putUint32

/-- A string or binary property: nothing when empty. -/
def writeDataProp (append : Bytes → Except WireError Bytes) (target : PropTarget) (id : UInt8)
    (s : Bytes) : Except WireError Bytes :=
  if s.isEmpty then .ok []
  else do
    checkEncodeAllowed id target
    let b ← append s
    return id :: b

def writeStrProp : PropTarget → UInt8 → Bytes → Except WireError Bytes :=
  writeDataProp appendString

def writeBinProp : PropTarget → UInt8 → Bytes → Except WireError Bytes :=
  writeDataProp appendBinary

/-- Subscription Identifiers (0x0B). A SUBSCRIBE carries at most one. -/
def writeSubIDs (target : PropTarget) (ids : List UInt32) : Except WireError Bytes :=
  if ids.isEmpty then .ok []
  else do
    checkEncodeAllowed 0x0B target
    if target &&& tgSubscribe != 0 && ids.length > 1 then
      throw (.protocolViolation s!"SUBSCRIBE with {ids.length} subscription identifiers")
    appendAll (ids.map fun id =>
      if id == 0 || id.toNat > maxVarint then
        .error (.protocolViolation s!"subscription identifier {id} out of range")
      else .ok (0x0B :: appendVarint id))

/-- User Properties (0x26), each a string pair, in order. -/
def writeUserProps (target : PropTarget) (ups : List UserProperty) : Except WireError Bytes :=
  if ups.isEmpty then .ok []
  else do
    checkEncodeAllowed 0x26 target
    appendAll (ups.map fun up => do
      let k ← appendString up.key
      let v ← appendString up.value
      return 0x26 :: k ++ v)

/-- The property bytes, in ascending identifier order. -/
def Properties.body (p : Properties) (target : PropTarget) : Except WireError Bytes :=
  appendAll
    [ writeByteProp target 0x01 p.payloadFormat
    , writeU32Prop target 0x02 p.messageExpiryInterval
    , writeStrProp target 0x03 p.contentType
    , writeStrProp target 0x08 p.responseTopic
    , writeBinProp target 0x09 p.correlationData
    , writeSubIDs target p.subscriptionIdentifiers
    , writeU32Prop target 0x11 p.sessionExpiryInterval
    , writeStrProp target 0x12 p.assignedClientID
    , writeU16Prop target 0x13 p.serverKeepAlive
    , writeStrProp target 0x15 p.authMethod
    , writeBinProp target 0x16 p.authData
    , writeByteProp target 0x17 p.requestProblemInfo
    , writeU32Prop target 0x18 p.willDelayInterval
    , writeByteProp target 0x19 p.requestResponseInfo
    , writeStrProp target 0x1A p.responseInfo
    , writeStrProp target 0x1C p.serverReference
    , writeStrProp target 0x1F p.reasonString
    , writeU16Prop target 0x21 p.receiveMaximum
    , writeU16Prop target 0x22 p.topicAliasMaximum
    , writeU16Prop target 0x23 p.topicAlias
    , writeByteProp target 0x24 p.maximumQoS
    , writeByteProp target 0x25 p.retainAvailable
    , writeUserProps target p.userProperties
    , writeU32Prop target 0x27 p.maximumPacketSize
    , writeByteProp target 0x28 p.wildcardSubAvailable
    , writeByteProp target 0x29 p.subIDAvailable
    , writeByteProp target 0x2A p.sharedSubAvailable ]

/-- `(*Properties).encode`: the length prefix and the properties; `none` is the
nil receiver, one zero byte. -/
def encodeProperties (p : Option Properties) (target : PropTarget) : Except WireError Bytes :=
  match p with
  | none => .ok [0x00]
  | some p => do
    let body ← p.body target
    if body.length > maxVarint then
      throw (.frameTooLarge s!"property block {body.length} bytes")
    return appendVarint body.length.toUInt32 ++ body

end GoMqtt.Protocol
