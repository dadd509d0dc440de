import GoMqtt.Inbound.Decode

/-! # Decoding by index

The decoders once more, with the cursor the source has: a buffer and a position in it.
Every index, every slice and every move of the position is checked against the length
of the buffer, and a run in which one of them is outside ends with a fault that is no
error of the decoder. So do the default branch of `decodeOne` and a loop that takes more
rounds than it is given. -/
namespace GoMqtt.Inbound.Indexed
open GoMqtt.Protocol GoMqtt.Client

/-! ## Outcomes -/

/-- What must not happen while a body is decoded. -/
inductive Fault
  | indexOutOfRange
  | sliceOutOfRange
  | makeLenOutOfRange
  | cursorPastEnd
  | unhandledProperty (id : UInt8)
  | outOfRounds
  deriving DecidableEq, Repr

/-- How a decoder ends without a packet: with the error it returns or with a fault. -/
inductive Stop
  | failed (e : WireError)
  | fault (f : Fault)
  deriving DecidableEq, Repr

abbrev Outcome (α : Type) := Except Stop α

def wrapMalformed {α : Type} (why : String) : Outcome α := .error (.failed (.malformedPacket why))

/-- `b[i]`. -/
def index (b : Bytes) (i : Nat) : Outcome UInt8 :=
  match b[i]? with
  | some v => .ok v
  | none => .error (.fault .indexOutOfRange)

/-- `b[lo:hi]`, held to the length of `b` where Go holds it to the capacity. -/
def slice (b : Bytes) (lo hi : Nat) : Outcome Bytes :=
  if lo ≤ hi ∧ hi ≤ b.length then .ok ((b.take hi).drop lo)
  else .error (.fault .sliceOutOfRange)

/-- `make([]byte, n)`; what it makes is overwritten at once. -/
def makeBytes (n : Int) : Outcome Unit :=
  if n < 0 then .error (.fault .makeLenOutOfRange) else .ok ()

/-! ## The cursor -/

structure Cursor where
  buf : Bytes
  pos : Nat
  deriving DecidableEq, Repr

def newCursor (b : Bytes) : Cursor := ⟨b, 0⟩

def Cursor.remaining (c : Cursor) : Int := c.buf.length - c.pos

/-- `c.pos += n`. -/
def Cursor.advance (c : Cursor) (n : Nat) : Outcome Cursor :=
  if c.pos + n ≤ c.buf.length then .ok { c with pos := c.pos + n }
  else .error (.fault .cursorPastEnd)

def readByte (c : Cursor) : Outcome (UInt8 × Cursor) :=
  if c.remaining < 1 then wrapMalformed "truncated byte"
  else do
    let b ← index c.buf c.pos
    let c ← c.advance 1
    return (b, c)

/-- `binary.BigEndian.Uint16`. -/
def bigEndianUint16 (b : Bytes) : Outcome UInt16 := do
  let b1 ← index b 1
  let b0 ← index b 0
  return beUint16 b0 b1

/-- `binary.BigEndian.Uint32`. -/
def bigEndianUint32 (b : Bytes) : Outcome UInt32 := do
  let b3 ← index b 3
  let b2 ← index b 2
  let b1 ← index b 1
  let b0 ← index b 0
  return beUint32 b0 b1 b2 b3

def readUint16 (c : Cursor) : Outcome (UInt16 × Cursor) :=
  if c.remaining < 2 then wrapMalformed "truncated uint16"
  else do
    let b ← slice c.buf c.pos (c.pos + 2)
    let v ← bigEndianUint16 b
    let c ← c.advance 2
    return (v, c)

def readUint32 (c : Cursor) : Outcome (UInt32 × Cursor) :=
  if c.remaining < 4 then wrapMalformed "truncated uint32"
  else do
    let b ← slice c.buf c.pos (c.pos + 4)
    let v ← bigEndianUint32 b
    let c ← c.advance 4
    return (v, c)

/-- The loop of `readVarint`, from byte `i` on. -/
def readVarintLoop : Nat → Nat → UInt32 → Cursor → Outcome (UInt32 × Cursor)
  | 0, _, _, _ => wrapMalformed "variable byte integer too long"
  | k + 1, i, value, c => do
    let (b, c) ← readByte c
    let value := value ||| ((b &&& 0x7F).toUInt32 <<< (7 * i).toUInt32)
    if b &&& 0x80 == 0 then
      if nonMinimalVarint i b then wrapMalformed "non-minimal variable byte integer"
      else return (value, c)
    else readVarintLoop k (i + 1) value c

def readVarint (c : Cursor) : Outcome (UInt32 × Cursor) := readVarintLoop 4 0 0 c

def readString (c : Cursor) : Outcome (Bytes × Cursor) := do
  let (n, c) ← readUint16 c
  if c.remaining < n.toNat then wrapMalformed "truncated string"
  else
    let s ← slice c.buf c.pos (c.pos + n.toNat)
    let c ← c.advance n.toNat
    if !utf8ValidString s then wrapMalformed "string is not well-formed UTF-8"
    else if s.contains 0 then wrapMalformed "string contains U+0000"
    else return (s, c)

def readBinary (c : Cursor) : Outcome (Bytes × Cursor) := do
  let (n, c) ← readUint16 c
  if c.remaining < n.toNat then wrapMalformed "truncated binary data"
  else
    makeBytes n.toNat
    let out ← slice c.buf c.pos (c.pos + n.toNat)
    let c ← c.advance n.toNat
    return (out, c)

def readRest (c : Cursor) : Outcome (Bytes × Cursor) := do
  makeBytes c.remaining
  let out ← slice c.buf c.pos c.buf.length
  return (out, { c with pos := c.buf.length })

/-! ## The property block -/

/-- A numeric property value, in the range `propertyValueViolation` leaves it. -/
def readNumProp {ν : Type} (widen : ν → UInt32) (read : Cursor → Outcome (ν × Cursor)) (c : Cursor)
    (id : UInt8) : Outcome (ν × Cursor) := do
  let (v, c) ← read c
  match propertyValueViolation id (widen v) with
  | some why => wrapMalformed ("property 0x" ++ hex2 id ++ " " ++ why)
  | none => return (v, c)

def readPropByte : Cursor → UInt8 → Outcome (UInt8 × Cursor) :=
  readNumProp UInt8.toUInt32 readByte

def readPropUint16 : Cursor → UInt8 → Outcome (UInt16 × Cursor) :=
  readNumProp UInt16.toUInt32 readUint16

def readPropUint32 : Cursor → UInt8 → Outcome (UInt32 × Cursor) :=
  readNumProp id readUint32

/-- Store the value that was read. -/
def store {ν : Type} (x : Outcome (ν × Cursor)) (set : ν → Properties) :
    Outcome (Properties × Cursor) := do
  let (v, c) ← x
  return (set v, c)

def decodeOne (p : Properties) (c : Cursor) (id : UInt8) : Outcome (Properties × Cursor) :=
  if id == 0x01 then store (readPropByte c id) fun v => { p with payloadFormat := some v }
  else if id == 0x02 then
    store (readPropUint32 c id) fun v => { p with messageExpiryInterval := some v }
  else if id == 0x03 then store (readString c) fun s => { p with contentType := s }
  else if id == 0x08 then store (readString c) fun s => { p with responseTopic := s }
  else if id == 0x09 then store (readBinary c) fun b => { p with correlationData := b }
  else if id == 0x0B then do
    let (v, c) ← readVarint c
    if v == 0 then wrapMalformed "subscription identifier 0"
    else return ({ p with subscriptionIdentifiers := p.subscriptionIdentifiers ++ [v] }, c)
  else if id == 0x11 then
    store (readPropUint32 c id) fun v => { p with sessionExpiryInterval := some v }
  else if id == 0x12 then store (readString c) fun s => { p with assignedClientID := s }
  else if id == 0x13 then store (readPropUint16 c id) fun v => { p with serverKeepAlive := some v }
  else if id == 0x15 then store (readString c) fun s => { p with authMethod := s }
  else if id == 0x16 then store (readBinary c) fun b => { p with authData := b }
  else if id == 0x17 then store (readPropByte c id) fun v => { p with requestProblemInfo := some v }
  else if id == 0x18 then store (readPropUint32 c id) fun v => { p with willDelayInterval := some v }
  else if id == 0x19 then
    store (readPropByte c id) fun v => { p with requestResponseInfo := some v }
  else if id == 0x1A then store (readString c) fun s => { p with responseInfo := s }
  else if id == 0x1C then store (readString c) fun s => { p with serverReference := s }
  else if id == 0x1F then store (readString c) fun s => { p with reasonString := s }
  else if id == 0x21 then store (readPropUint16 c id) fun v => { p with receiveMaximum := some v }
  else if id == 0x22 then store (readPropUint16 c id) fun v => { p with topicAliasMaximum := some v }
  else if id == 0x23 then store (readPropUint16 c id) fun v => { p with topicAlias := some v }
  else if id == 0x24 then store (readPropByte c id) fun v => { p with maximumQoS := some v }
  else if id == 0x25 then store (readPropByte c id) fun v => { p with retainAvailable := some v }
  else if id == 0x26 then do
    let (k, c) ← readString c
    let (val, c) ← readString c
    return ({ p with userProperties := p.userProperties ++ [⟨k, val⟩] }, c)
  else if id == 0x27 then store (readPropUint32 c id) fun v => { p with maximumPacketSize := some v }
  else if id == 0x28 then
    store (readPropByte c id) fun v => { p with wildcardSubAvailable := some v }
  else if id == 0x29 then store (readPropByte c id) fun v => { p with subIDAvailable := some v }
  else if id == 0x2A then store (readPropByte c id) fun v => { p with sharedSubAvailable := some v }
  -- the source returns the malformed packet "unhandled property"
  else .error (.fault (.unhandledProperty id))

/-- The loop of `decodeProperties`, of so many rounds at most. -/
def decodeLoop (target : PropTarget) :
    Nat → Properties → UInt64 → Cursor → Outcome Properties
  | rounds, p, seen, sub =>
    if sub.remaining > 0 then
      match rounds with
      | 0 => .error (.fault .outOfRounds)
      | rounds + 1 => do
        let (id, sub) ← readByte sub
        if propertySpec id = 0 then wrapMalformed ("unknown property 0x" ++ hex2 id)
        else if propertySpec id &&& target = 0 then
          wrapMalformed ("property 0x" ++ hex2 id ++ " illegal in this packet")
        else if !repeatableProperty id target && seen &&& seenBit id != 0 then
          wrapMalformed ("duplicate property 0x" ++ hex2 id)
        else
          let (p, sub) ← decodeOne p sub id
          decodeLoop target rounds p (markSeen target seen id) sub
    else return p

def decodeProperties (rounds : Nat) (c : Cursor) (target : PropTarget) :
    Outcome (Option Properties × Cursor) := do
  let (length, c) ← readVarint c
  let n := length.toNat
  if n > c.remaining then wrapMalformed "property length overruns packet"
  else
    let b ← slice c.buf c.pos (c.pos + n)
    let sub := newCursor b
    let c ← c.advance n
    if n = 0 then return (none, c)
    else
      let p ← decodeLoop target rounds {} 0 sub
      return (some p, c)

/-! ## Packets -/

/-- The packet identifier of a PUBLISH, present from QoS 1 on. -/
def readPacketID (qos : UInt8) (c : Cursor) : Outcome (UInt16 × Cursor) :=
  if qos > 0 then do
    let (id, c) ← readUint16 c
    if id == 0 then wrapMalformed "PUBLISH QoS >0 with zero packet identifier"
    else return (id, c)
  else return (0, c)

/-- The property block, which MQTT 3.1.1 does not have. -/
def readBlock (rounds : Nat) (v : Version) (target : PropTarget) (c : Cursor) :
    Outcome (Option Properties × Cursor) :=
  match v with
  | .v311 => return (none, c)
  | .v50 => decodeProperties rounds c target

def decodePublish (rounds : Nat) (v : Version) (header : UInt8) (body : Bytes) :
    Outcome PublishPacket :=
  let flags := header &&& 0x0F
  let qos := (flags >>> 1) &&& 0x03
  if qos == 3 then wrapMalformed "PUBLISH with QoS 3"
  else if qos == 0 && flags &&& 0x08 != 0 then wrapMalformed "PUBLISH with DUP set at QoS 0"
  else do
    let (topic, c) ← readString (newCursor body)
    if containsWildcard topic then wrapMalformed "PUBLISH topic contains a wildcard character"
    else
      let (packetID, c) ← readPacketID qos c
      let (properties, c) ← readBlock rounds v tgPublish c
      if topic.isEmpty && (v != .v50 || (properties.bind Properties.topicAlias).isNone) then
        wrapMalformed "PUBLISH with empty topic and no topic alias"
      else
        let (payload, _) ← readRest c
        return { version := v, topic, payload, qos, retain := flags &&& 0x01 != 0,
                 dup := flags &&& 0x08 != 0, packetID, properties }

/-- What follows the identifier of an acknowledgement, and all of a DISCONNECT. -/
def decodeReason (rounds : Nat) (target : PropTarget) (trailing : String) (c : Cursor) :
    Outcome (ReasonCode × Option Properties) :=
  if c.remaining == 0 then return (.success, none)
  else do
    let (rc, c) ← readByte c
    if c.remaining == 0 then return (⟨rc⟩, none)
    else
      let (properties, c) ← decodeProperties rounds c target
      if c.remaining != 0 then wrapMalformed trailing
      else return (⟨rc⟩, properties)

def decodeAck (rounds : Nat) (v : Version) (t : PacketType) (body : Bytes) : Outcome AckPacket :=
  match ackTarget t with
  | none => wrapMalformed (t.string ++ " is not an acknowledgement packet")
  | some target => do
    let (pid, c) ← readUint16 (newCursor body)
    if pid == 0 then wrapMalformed "acknowledgement with zero packet identifier"
    else
      match v with
      | .v311 =>
        if c.remaining != 0 then wrapMalformed "trailing bytes after v3 acknowledgement"
        else return ⟨v, t, pid, .success, none⟩
      | .v50 => do
        let (rc, properties) ← decodeReason rounds target
          "trailing bytes after acknowledgement properties" c
        return ⟨v, t, pid, rc, properties⟩

def decodeConnack (rounds : Nat) (v : Version) (body : Bytes) : Outcome ConnackPacket := do
  let (ackFlags, c) ← readByte (newCursor body)
  if ackFlags &&& 0xFE != 0 then wrapMalformed "CONNACK reserved acknowledge-flag bits set"
  else
    let sessionPresent := ackFlags &&& 0x01 != 0
    let (rc, c) ← readByte c
    if sessionPresent && rc != 0 then
      wrapMalformed "CONNACK with Session Present and a non-zero reason code"
    else
      match v with
      | .v311 =>
        let reasonCode := if rc == 0 then .success else (v3ConnackReason rc).getD unspecifiedError
        if c.remaining != 0 then wrapMalformed "trailing bytes after v3 CONNACK"
        else return { sessionPresent, reasonCode }
      | .v50 =>
        let (properties, c) ← decodeProperties rounds c tgConnack
        if c.remaining != 0 then wrapMalformed "trailing bytes after CONNACK properties"
        else return { sessionPresent, reasonCode := ⟨rc⟩, properties }

/-- The loop over the reason codes, of so many rounds at most. -/
def readReasonCodes (allowed : List UInt8) (undefined : UInt8 → String) :
    Nat → Cursor → Outcome (List ReasonCode)
  | rounds, c =>
    if c.remaining > 0 then
      match rounds with
      | 0 => .error (.fault .outOfRounds)
      | rounds + 1 => do
        let (rc, c) ← readByte c
        if !allowed.contains rc then wrapMalformed (undefined rc)
        else
          let rest ← readReasonCodes allowed undefined rounds c
          return ⟨rc⟩ :: rest
    else return []

def decodeSuback (rounds : Nat) (v : Version) (body : Bytes) : Outcome SubackPacket := do
  let (packetID, c) ← readUint16 (newCursor body)
  if packetID == 0 then wrapMalformed "SUBACK with zero packet identifier"
  else
    let (properties, c) ← readBlock rounds v tgSuback c
    if c.remaining == 0 then wrapMalformed "SUBACK with no reason codes"
    else
      let allowed := match v with
        | .v311 => subackReasonV311
        | .v50 => subackReasonV50
      let reasonCodes ← readReasonCodes allowed (fun rc =>
        "SUBACK reason code 0x" ++ hex2 rc ++ " undefined for " ++ versionString v) rounds c
      return { packetID, reasonCodes, properties }

def decodeUnsuback (rounds : Nat) (v : Version) (body : Bytes) : Outcome SubackPacket := do
  let (packetID, c) ← readUint16 (newCursor body)
  if packetID == 0 then wrapMalformed "UNSUBACK with zero packet identifier"
  else
    match v with
    | .v311 =>
      if c.remaining != 0 then wrapMalformed "trailing bytes after v3 UNSUBACK"
      else return { packetID }
    | .v50 =>
      let (properties, c) ← decodeProperties rounds c tgUnsuback
      if c.remaining == 0 then wrapMalformed "UNSUBACK with no reason codes"
      else
        let reasonCodes ← readReasonCodes unsubackReasonV50 (fun rc =>
          "UNSUBACK reason code 0x" ++ hex2 rc ++ " undefined") rounds c
        return { packetID, reasonCodes, properties }

def decodeDisconnect (rounds : Nat) (v : Version) (body : Bytes) : Outcome DisconnectPacket :=
  match v with
  | .v311 =>
    if body.length != 0 then wrapMalformed "v3 DISCONNECT with non-empty body"
    else return ⟨v, .normalDisconnection, none⟩
  | .v50 => do
    let (rc, properties) ← decodeReason rounds tgDisconnect
      "trailing bytes after DISCONNECT properties" (newCursor body)
    return ⟨v, rc, properties⟩

def decodeAuth (rounds : Nat) (body : Bytes) : Outcome AuthPacket := do
  let (reasonCode, properties) ← decodeReason rounds tgAuth
    "trailing bytes after AUTH properties" (newCursor body)
  return ⟨reasonCode, properties⟩

end GoMqtt.Inbound.Indexed
