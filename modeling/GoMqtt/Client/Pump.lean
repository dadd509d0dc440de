import GoMqtt.Client.State
import GoMqtt.Protocol.Topic

/-! # The read loop

What `handleFrame` does with each decoded frame, and the keep-alive tick. The
read loop's check of the stop channel comes before: a frame of a stopped link is
dropped. `torn` says that the link is torn down while a message handler runs. -/
namespace GoMqtt.Client
open GoMqtt.Protocol GoMqtt.Session

/-! ## Routing -/

/-- What a message handler is given. -/
structure Message where
  topic : Bytes
  payload : Bytes
  qos : UInt8
  retain : Bool
  dup : Bool
  contentType : Bytes := []
  responseTopic : Bytes := []
  correlationData : Bytes := []
  messageExpirySeconds : UInt32 := 0
  payloadFormatUTF8 : Bool := false
  subscriptionIdentifiers : List UInt32 := []
  userProperties : List UserProperty := []
  deriving DecidableEq, Repr

def toMessage (p : PublishPacket) : Message :=
  let m : Message :=
    { topic := p.topic, payload := p.payload, qos := p.qos, retain := p.retain, dup := p.dup }
  match p.properties with
  | none => m
  | some pr =>
    { m with
      contentType := pr.contentType
      responseTopic := pr.responseTopic
      correlationData := pr.correlationData
      subscriptionIdentifiers := pr.subscriptionIdentifiers
      userProperties := pr.userProperties
      messageExpirySeconds := pr.messageExpiryInterval.getD 0
      payloadFormatUTF8 := pr.payloadFormat == some 1 }

/-- The entries of the table whose handlers `dispatch` runs, in table order: by
subscription identifier where the message carries any, else by topic among the
subscriptions without one. -/
def routed (subs : List Subscription) (m : Message) : List Subscription :=
  if m.subscriptionIdentifiers ≠ [] then
    subs.filter fun s => s.subID != 0 && m.subscriptionIdentifiers.contains s.subID
  else
    subs.filter fun s => s.subID == 0 && matchTopic s.filter m.topic

namespace State

/-- `protocolError`: MQTT 3.1.1 has no reason to send. -/
def protocolError (s : State) (l : LinkId) (reason : ReasonCode) (io : Bool) : State :=
  let s := match s.cfg.protocolVersion with
    | .v50 => (s.writeFrame l (.disconnect ⟨s.cfg.protocolVersion, reason, none⟩) io).2
    | .v311 => s
  s.teardownLink l (s.links l).graceful

/-! ## Inbound messages -/

/-- The handlers `dispatch` picks. -/
def handlersFor (subs : List Subscription) (p : PublishPacket) : List Handler :=
  (routed subs (toMessage p)).map Subscription.handler

/-- `dispatch`, during which the link may be torn down. -/
def dispatch (s : State) (l : LinkId) (p : PublishPacket) (torn : Bool) : State :=
  let s := s.log (.dispatched l p (handlersFor s.subs.subs p) torn)
  if torn then s.teardownLink l (s.links l).graceful else s

/-- `resolveTopicAlias`: the topic, or nothing on a violation. -/
def resolveTopicAlias (s : State) (l : LinkId) (p : PublishPacket) : Option Bytes × State :=
  match p.properties.bind Properties.topicAlias with
  | none => (some p.topic, s)
  | some a =>
    if a = 0 ∨ a > s.cfg.topicAliasMaximum then (none, s)
    else if p.topic = [] then ((s.links l).aliases a, s)
    else (some p.topic,
      s.setLink l fun k => { k with aliases := Function.update k.aliases a (some p.topic) })

/-- Exactly-once receiver, method A. -/
def handleInboundQoS2 (s : State) (l : LinkId) (p : PublishPacket) (torn io : Bool) : State :=
  if s.store.contains p.packetID .inboundID then s.sendAck l .pubrec p.packetID io
  else
    let s := s.dispatch l p torn
    if (s.links l).stop then s
    else
      let s := { s with store := s.store.save { id := p.packetID, kind := .inboundID } }
      (s.log (.recorded l p.packetID)).sendAck l .pubrec p.packetID io

def handlePublish (s : State) (l : LinkId) (p : PublishPacket) (torn io : Bool) : State :=
  match s.resolveTopicAlias l p with
  | (none, s) => s.protocolError l .topicAliasInvalid io
  | (some topic, s) =>
    let p := { p with topic }
    if p.qos = 0 then s.dispatch l p torn
    else if p.qos = 1 then
      let s := s.dispatch l p torn
      if (s.links l).stop then s else s.sendAck l .puback p.packetID io
    else s.handleInboundQoS2 l p torn io

def handleInboundPubrel (s : State) (l : LinkId) (ack : InboundAck) (io : Bool) : State :=
  if !s.store.contains ack.packetID .inboundID then
    s.sendAckReason l .pubcomp ack.packetID .packetIdentifierNotFound io
  else
    let s := { s with store := s.store.delete ack.packetID .inboundID }
    s.sendAck l .pubcomp ack.packetID io

/-! ## Acknowledgements of outbound messages -/

/-- The end of an exchange: entry, identifier and permit go, the waiter is told. -/
def release (s : State) (l : LinkId) (id : UInt16) (kind : StoredKind) (res : AckResult) : State :=
  let k := s.links l
  { s with
    store := s.store.delete id kind
    ids := s.ids.releaseAt id k.idGen
    quota := s.quota.releaseAt k.quotaGen }.signalWaiter id .publish res

def completeOutbound (s : State) (l : LinkId) (id : UInt16) (kind : StoredKind) (res : AckResult) :
    State :=
  if s.store.contains id kind then s.release l id kind res else s

def handlePubrec (s : State) (l : LinkId) (ack : InboundAck) (reason : Bytes) (io : Bool) : State :=
  let id := ack.packetID
  if s.store.contains id .publish then
    if ack.reasonCode.isError then s.release l id .publish { code := ack.reasonCode, reason }
    else
      let s := { s with store := (s.store.save { id, kind := .pubrel }).delete id .publish }
      s.sendAck l .pubrel id io
  else if s.store.contains id .pubrel then s.sendAck l .pubrel id io
  else s.sendAckReason l .pubrel id .packetIdentifierNotFound io

/-- `handleSuback` and `handleUnsuback`, which differ in the class they signal. -/
def handleRequestAck (s : State) (p : SubackPacket) (got : AckClass) : State :=
  s.signalWaiter p.packetID got
    { reason := reasonStringOf p.properties, code := p.reasonCodes.head?.getD .success }

def handleSuback (s : State) (p : SubackPacket) : State := s.handleRequestAck p .suback

def handleUnsuback (s : State) (p : SubackPacket) : State := s.handleRequestAck p .unsuback

/-- `handleFrame`. -/
def handleFrame (s : State) (l : LinkId) (f : Frame) (torn io : Bool) : State :=
  match f with
  | .publish p => s.handlePublish l p.pkt torn io
  | .puback ack => s.completeOutbound l ack.packetID .publish
      { code := ack.reasonCode, reason := reasonStringOf ack.properties }
  | .pubrec ack => s.handlePubrec l ack (reasonStringOf ack.properties) io
  | .pubrel ack => s.handleInboundPubrel l ack io
  | .pubcomp ack => s.completeOutbound l ack.packetID .pubrel
      { code := ack.reasonCode, reason := reasonStringOf ack.properties }
  | .suback p => s.handleSuback p
  | .unsuback p => s.handleUnsuback p
  | .pingresp => s.setLink l fun k => { k with outstandingPings := 0 }
  | .disconnect => s.teardownLink l (s.links l).graceful
  | .unexpected _ => s.protocolError l .protocolErrorReason io
  | .malformed => s.protocolError l .malformedPacketReason io

/-! ## Keep-alive -/

def pingTimeoutThreshold : Nat := 2

/-- One tick of `keepAliveLoop`. -/
def tick (s : State) (l : LinkId) (io : Bool) : State :=
  if (s.links l).outstandingPings ≥ pingTimeoutThreshold then
    s.teardownLink l (s.links l).graceful
  else
    let s := s.setLink l fun k => { k with outstandingPings := k.outstandingPings + 1 }
    match s.writeFrame l .pingreq io with
    | (some _, s) => s.teardownLink l (s.links l).graceful
    | (none, s) => s

end State
end GoMqtt.Client
