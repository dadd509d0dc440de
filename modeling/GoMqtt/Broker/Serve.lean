import GoMqtt.Protocol.MockBroker

/-! # The mock broker

The scripted broker of the test suite, from a request it has decoded to the
replies it sends. It records what the client asks for and answers with what the
script says; there is no session behind it. A reply is what its bytes stand for,
and the counters are atomic in the source, so that one request is one step. -/
namespace GoMqtt.Broker
open GoMqtt.Protocol GoMqtt.Protocol.Mock

/-! ## What it records and what scripts it -/

structure MockAck where
  type : PacketType
  packetID : UInt16
  reasonCode : ReasonCode
  deriving DecidableEq, Repr

structure MockPublished where
  topic : Bytes
  payload : Bytes
  qos : UInt8
  retain : Bool
  dup : Bool
  properties : Option Properties
  deriving DecidableEq, Repr

structure MockConnectInfo where
  version : Version
  cleanStart : Bool
  properties : Option Properties
  deriving DecidableEq, Repr

structure MockSubAckPolicy where
  reject : Bool := false
  reason : UInt8 := 0
  override : Bool := false
  qos : UInt8 := 0
  deriving DecidableEq, Repr

namespace MockSubAckPolicy

def setReject (p : MockSubAckPolicy) (reason : UInt8) : MockSubAckPolicy :=
  { p with reject := true, reason, override := false }

def setGrant (p : MockSubAckPolicy) (qos : UInt8) : MockSubAckPolicy :=
  { p with override := true, qos, reject := false }

def resolve (p : MockSubAckPolicy) (requested : UInt8) : UInt8 :=
  if p.reject then p.reason else if p.override then p.qos else requested

end MockSubAckPolicy

/-- `rejectConnect` is armed where it holds a code. -/
structure MockBroker where
  rejectConnect : Option UInt8 := none
  sessionPresent : Bool := false
  connackProps : Option Properties := none
  lastConnect : Option MockConnectInfo := none
  subAck : MockSubAckPolicy := {}
  subFrames : Nat := 0
  subs : List Subscription := []
  acks : List MockAck := []
  published : List MockPublished := []
  dropNextPuback : Int := 0
  dupNextPuback : Bool := false
  dropNextPubrec : Int := 0
  dropNextPubcomp : Int := 0
  dropPings : Bool := false
  dropNextPings : Int := 0
  pingCount : Nat := 0
  disconnectCount : Nat := 0
  deriving DecidableEq, Repr

/-- Whether to skip the normal action once, and the counter after that. -/
def mockTakeCounter (n : Int) : Bool × Int := if n ≤ 0 then (false, n) else (true, n - 1)

/-- The calls by which a test scripts the broker. -/
inductive Script
  | rejectNextConnect (reason : UInt8)
  | setSessionPresent (v : Bool)
  | setConnackProperties (p : Option Properties)
  | rejectSubscribe (reason : UInt8)
  | grantQoS (qos : UInt8)
  | dropNextPuback (n : Int)
  | duplicateNextPuback
  | dropNextPubrec (n : Int)
  | dropNextPubcomp (n : Int)
  | dropPings (v : Bool)
  | dropNextPings (n : Int)
  deriving DecidableEq, Repr

def MockBroker.script (b : MockBroker) : Script → MockBroker
  | .rejectNextConnect reason => { b with rejectConnect := some reason }
  | .setSessionPresent v => { b with sessionPresent := v }
  | .setConnackProperties p => { b with connackProps := p }
  | .rejectSubscribe reason => { b with subAck := b.subAck.setReject reason }
  | .grantQoS qos => { b with subAck := b.subAck.setGrant qos }
  | .dropNextPuback n => { b with dropNextPuback := n }
  | .duplicateNextPuback => { b with dupNextPuback := true }
  | .dropNextPubrec n => { b with dropNextPubrec := n }
  | .dropNextPubcomp n => { b with dropNextPubcomp := n }
  | .dropPings v => { b with dropPings := v }
  | .dropNextPings n => { b with dropNextPings := n }

/-! ## Requests and replies -/

/-- A frame of the client after decoding. -/
inductive MockRequest
  | connect (info : MockConnectInfo)
  | subscribe (info : MockSubscribeInfo)
  | unsubscribe (info : MockUnsubscribeInfo)
  | publish (p : PublishPacket)
  | pubrel (a : AckPacket)
  | puback (a : AckPacket)
  | pubrec (a : AckPacket)
  | pubcomp (a : AckPacket)
  | pingreq
  | disconnect
  | unhandled
  deriving DecidableEq, Repr

inductive MockReply
  | connack (v : Version) (sessionPresent : Bool) (reason : UInt8) (props : Option Properties)
  | suback (v : Version) (pid : UInt16) (codes : List UInt8)
  | unsuback (v : Version) (pid : UInt16) (filterCount : Nat)
  | ack (p : AckPacket)
  | pingresp
  deriving DecidableEq, Repr

/-- What `serve` does with one request. `strict` says that a reply which cannot be
sent ends the loop, `leaves` that the request itself does. -/
structure Turn where
  broker : MockBroker
  replies : List MockReply := []
  strict : Bool := false
  leaves : Bool := false
  deriving DecidableEq, Repr

namespace MockBroker

variable (b : MockBroker) (v : Version)

def recordConnect (info : MockConnectInfo) : MockBroker := { b with lastConnect := some info }

def recordSubscriptions (subs : List Subscription) : MockBroker :=
  { b with subFrames := b.subFrames + 1, subs := b.subs ++ subs }

def recordPublished (p : PublishPacket) : MockBroker :=
  { b with published := b.published ++ [⟨p.topic, p.payload, p.qos, p.retain, p.dup, p.properties⟩] }

def recordAck (a : AckPacket) : MockBroker :=
  { b with acks := b.acks ++ [⟨a.type, a.packetID, a.reasonCode⟩] }

/-- The reply to a CONNECT; the one-shot rejection is spent on it. -/
def answerConnect (info : MockConnectInfo) : Turn where
  broker := { b.recordConnect info with rejectConnect := none }
  replies := [.connack info.version b.sessionPresent (b.rejectConnect.getD 0) b.connackProps]
  strict := true

def replyPuback (id : UInt16) : Turn :=
  let (drop, n) := mockTakeCounter b.dropNextPuback
  let b := { b with dropNextPuback := n }
  let ack := MockReply.ack ⟨v, .puback, id, .success, none⟩
  if drop then { broker := b }
  else if b.dupNextPuback then { broker := { b with dupNextPuback := false }, replies := [ack, ack] }
  else { broker := b, replies := [ack] }

def replyPubrec (id : UInt16) : Turn :=
  let (drop, n) := mockTakeCounter b.dropNextPubrec
  let b := { b with dropNextPubrec := n }
  if drop then { broker := b } else { broker := b, replies := [.ack ⟨v, .pubrec, id, .success, none⟩] }

def replyPubcomp (id : UInt16) : Turn :=
  let (drop, n) := mockTakeCounter b.dropNextPubcomp
  let b := { b with dropNextPubcomp := n }
  if drop then { broker := b } else { broker := b, replies := [.ack ⟨v, .pubcomp, id, .success, none⟩] }

def answerPing : Turn :=
  let b := { b with pingCount := b.pingCount + 1 }
  if b.dropPings then { broker := b }
  else
    let (drop, n) := mockTakeCounter b.dropNextPings
    let b := { b with dropNextPings := n }
    if drop then { broker := b } else { broker := b, replies := [.pingresp], strict := true }

/-- The switch of `serve` on a link of version `v`. What `resolve` does with a PUBACK
or a PUBCOMP decides when an injection returns and is left out. -/
def respond : MockRequest → Turn
  | .connect info => b.answerConnect info
  | .subscribe info =>
    { broker := b.recordSubscriptions info.subs
      replies := [.suback v info.packetID (info.subs.map fun s => b.subAck.resolve s.options.qos)]
      strict := true }
  | .unsubscribe info =>
    { broker := b, replies := [.unsuback v info.packetID info.filters.length], strict := true }
  | .publish p =>
    let b := b.recordPublished p
    if p.qos = 1 then b.replyPuback v p.packetID
    else if p.qos = 2 then b.replyPubrec v p.packetID
    else { broker := b }
  | .pubrel a => (b.recordAck a).replyPubcomp v a.packetID
  | .puback a => { broker := b.recordAck a }
  | .pubrec a =>
    { broker := b.recordAck a
      replies := [.ack ⟨v, .pubrel, a.packetID, .success, none⟩]
      strict := true }
  | .pubcomp a => { broker := b.recordAck a }
  | .pingreq => b.answerPing
  | .disconnect => { broker := { b with disconnectCount := b.disconnectCount + 1 }, leaves := true }
  | .unhandled => { broker := b }

end MockBroker

end GoMqtt.Broker
