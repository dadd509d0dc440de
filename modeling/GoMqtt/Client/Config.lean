import Mathlib.Algebra.Order.Ring.Int
import GoMqtt.Protocol.Packet

/-! # Configuration and negotiated limits

The configuration fields the session logic reads, the CONNACK the broker
answers with, and the limits negotiated from it. -/
namespace GoMqtt.Client
open GoMqtt.Protocol

/-- The fields of `TCPConfig` that the session logic reads. -/
structure TCPConfig where
  protocolVersion : Version
  cleanStart : Bool := false
  sessionExpirySeconds : UInt32 := 0
  maxInflight : UInt16 := 0
  topicAliasMaximum : UInt16 := 0
  deriving DecidableEq, Repr

structure ConnackPacket where
  sessionPresent : Bool
  reasonCode : ReasonCode := .success
  properties : Option Properties := none
  deriving DecidableEq, Repr

/-- The fields of `ConnectResult` that the session logic reads. -/
structure ConnectResult where
  sessionPresent : Bool
  receiveMaximum : UInt16
  maximumQoS : UInt8
  retainAvailable : Bool
  maximumPacketSize : UInt32
  deriving DecidableEq, Repr

/-- What the client's calls fail with: the sentinels, a codec error, a broken
socket, the caller's context, and the broker's own reason. -/
inductive ClientError
  | notConnected
  | alreadyConnected
  | connectionLost
  | packetTooLarge
  | packetIDExhausted
  | ackTimeout
  | contextDone
  | handshake
  | socket
  | wire (e : WireError)
  | responseTopic (e : WireError)
  | reason (packet : PacketType) (code : ReasonCode) (text : Bytes)
  deriving DecidableEq, Repr

def defaultReceiveMaximum : UInt16 := 65535

/-- Refuse a Receive Maximum or a Maximum Packet Size of 0. -/
def validateConnackLimits (v : Version) (ack : ConnackPacket) : Except ClientError Unit :=
  match v, ack.properties with
  | .v50, some p =>
    if p.receiveMaximum = some 0 then
      .error (.wire (.protocolViolation "broker CONNACK Receive Maximum is 0"))
    else if p.maximumPacketSize = some 0 then
      .error (.wire (.protocolViolation "broker CONNACK Maximum Packet Size is 0"))
    else .ok ()
  | _, _ => .ok ()

/-- Every limit the broker left unset takes the default of the specification. -/
def buildConnectResult (ack : ConnackPacket) : ConnectResult :=
  let p := ack.properties.getD {}
  { sessionPresent := ack.sessionPresent
    receiveMaximum := p.receiveMaximum.getD defaultReceiveMaximum
    maximumQoS := p.maximumQoS.getD 2
    retainAvailable := (p.retainAvailable.getD 1) != 0
    maximumPacketSize := p.maximumPacketSize.getD 0 }

/-- The number of QoS>0 sends the broker permits at once. -/
def quotaSize (cfg : TCPConfig) (result : ConnectResult) : Int :=
  match cfg.protocolVersion with
  | .v50 => result.receiveMaximum.toNat
  | .v311 =>
    if cfg.maxInflight != 0 then cfg.maxInflight.toNat else defaultReceiveMaximum.toNat

/-- The part of `applySession` that decides whether stored state is discarded. -/
def discards (cfg : TCPConfig) (result : ConnectResult) : Bool :=
  cfg.cleanStart || (cfg.protocolVersion == .v50 && cfg.sessionExpirySeconds == 0) ||
    !result.sessionPresent

def reasonStringOf (p : Option Properties) : Bytes := (p.getD {}).reasonString

theorem quotaSize_nonneg (cfg : TCPConfig) (result : ConnectResult) : 0 ≤ quotaSize cfg result := by
  unfold quotaSize
  split
  · exact Int.natCast_nonneg _
  · split <;> exact Int.natCast_nonneg _

end GoMqtt.Client
