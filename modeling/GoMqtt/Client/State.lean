import Mathlib.Data.List.AList
import Mathlib.Logic.Function.Basic
import GoMqtt.Client.Config
import GoMqtt.Client.Subscriptions
import GoMqtt.Session.IdAllocator
import GoMqtt.Session.Quota
import GoMqtt.Session.Store

/-! # The client's state

The fields of `TCPClient`, the links it has made, and the calls that are under
way. A Go pointer to a link is the link's number, and the result channel a call
waits on is known by the call. `hist` records what happened in order; no
definition reads it. -/
namespace GoMqtt.Client
open GoMqtt.Protocol GoMqtt.Session

/-- A link, known by its number. Numbers are never reused. -/
abbrev LinkId := Nat

/-- Whoever waits on a result channel: an API call, or the goroutine awaiting
the `k`-th replayed SUBSCRIBE of a link. -/
inductive CallId
  | api (n : Nat)
  | resubscribe (l : LinkId) (k : Nat)
  deriving DecidableEq, Repr

/-- `ackClass`. -/
inductive AckClass
  | publish
  | suback
  | unsuback
  deriving DecidableEq, Repr

structure AckResult where
  err : Option ClientError := none
  reason : Bytes := []
  code : ReasonCode := .success
  deriving DecidableEq, Repr

/-- What a delivered result makes a call on `packet` fail with, if anything: the
lost connection, or the broker's reason. -/
def AckResult.failure (packet : PacketType) (res : AckResult) : Option ClientError :=
  match res.err with
  | some e => some e
  | none => if res.code.isError then some (.reason packet res.code res.reason) else none

structure Waiter where
  ch : CallId
  want : AckClass
  deriving DecidableEq, Repr

/-- Per-connection state. `stop` says the stop channel is closed, and with it
the socket. -/
structure Link where
  stop : Bool := false
  graceful : Bool := false
  quotaGen : Nat := 0
  idGen : Nat := 0
  aliases : UInt16 → Option Bytes := fun _ => none
  outboundMax : UInt32 := 0
  outstandingPings : Nat := 0

/-- The replay entry of an outbound PUBLISH. Values share no memory here, so
`storedCopy` is the packet itself. -/
def storedPublish (p : PublishPacket) : StoredMessage where
  id := p.packetID
  kind := .publish
  publish := some p

@[simp] theorem storedPublish_id (p : PublishPacket) : (storedPublish p).id = p.packetID := rfl
@[simp] theorem storedPublish_kind (p : PublishPacket) : (storedPublish p).kind = .publish := rfl

/-! ## Calls and frames -/

/-- The arguments of `Publish`, its options resolved. -/
structure PublishRequest where
  topic : Bytes
  payload : Bytes := []
  qos : UInt8
  retain : Bool := false
  messageExpiry : Option UInt32 := none
  contentType : Bytes := []
  responseTopic : Bytes := []
  correlationData : Bytes := []
  payloadFormatUTF8 : Bool := false
  userProperties : List UserProperty := []
  deriving DecidableEq, Repr

/-- The arguments of `Subscribe`, its options resolved. -/
structure SubscribeRequest where
  filter : Bytes
  qos : UInt8
  handler : Handler
  noLocal : Bool := false
  retainAsPublished : Bool := false
  retainHandling : UInt8 := 0
  subscriptionID : UInt32 := 0
  deriving DecidableEq, Repr

structure SubscribeResult where
  grantedQoS : UInt8 := 0
  reasonCode : ReasonCode := .success
  deriving DecidableEq, Repr

/-- What a call returned. -/
inductive Return
  | published (err : Option ClientError)
  | subscribed (res : SubscribeResult) (err : Option ClientError)
  | unsubscribed (err : Option ClientError)
  deriving DecidableEq, Repr

/-- A SUBSCRIBE or UNSUBSCRIBE under way, with what its return needs: the undo
state of the provisional registration, or the snapshot to remove. -/
inductive Request
  | subscribe (filter : Bytes) (prev : Option Subscription) (token : Nat)
  | unsubscribe (filter : Bytes) (snap : Option Subscription)
  deriving DecidableEq, Repr

def Request.packetType : Request → PacketType
  | .subscribe _ _ _ => .subscribe
  | .unsubscribe _ _ => .unsubscribe

/-- Where a call stands between its steps: parked in `quota.acquire`, or waiting
for its acknowledgement. -/
inductive Call
  | idle
  | parked (l : LinkId) (pkt : PublishPacket)
  | publishing (id : UInt16)
  | requesting (r : Request) (id : UInt16) (gen : Nat)
  | resubscribing (l : LinkId) (filter : Bytes) (id : UInt16) (gen : Nat)
  | done
  deriving DecidableEq, Repr

/-- A PUBLISH as the decoder passes it on: no QoS 3, no zero identifier. -/
structure InboundPublish where
  pkt : PublishPacket
  qos_le : pkt.qos ≤ 2 := by decide
  id_ne : pkt.qos ≠ 0 → pkt.packetID ≠ 0 := by decide
  deriving DecidableEq, Repr

/-- An acknowledgement as the decoder passes it on. -/
structure InboundAck where
  packetID : UInt16
  reasonCode : ReasonCode := .success
  properties : Option Properties := none
  id_ne : packetID ≠ 0 := by decide
  deriving DecidableEq, Repr

/-- A SUBACK or an UNSUBACK. -/
structure SubackPacket where
  packetID : UInt16
  reasonCodes : List ReasonCode := []
  properties : Option Properties := none
  deriving DecidableEq, Repr

/-- One inbound frame after decoding. `unexpected` is a packet type a server
must not send, `malformed` any frame that does not decode. -/
inductive Frame
  | publish (p : InboundPublish)
  | puback (a : InboundAck)
  | pubrec (a : InboundAck)
  | pubrel (a : InboundAck)
  | pubcomp (a : InboundAck)
  | suback (p : SubackPacket)
  | unsuback (p : SubackPacket)
  | pingresp
  | disconnect
  | unexpected (t : PacketType)
  | malformed
  deriving DecidableEq, Repr

/-- What can be observed of a run. -/
inductive Event
  | wrote (l : LinkId) (p : Packet)
  | received (l : LinkId) (f : Frame)
  | invoked (c : CallId) (req : PublishRequest)
  | granted (c : CallId) (l : LinkId)
  | sent (c : CallId) (l : LinkId) (pkt : PublishPacket)
  | returned (c : CallId) (r : Return)
  | dispatched (l : LinkId) (pkt : PublishPacket) (handlers : List Handler) (torn : Bool)
  | recorded (l : LinkId) (id : UInt16)
  | registered (s : Subscription)
  | discarded
  | applied (result : ConnectResult) (inflight : Nat)
  | replayFailed (l : LinkId)
  | connected (l : LinkId) (result : ConnectResult)
  | tornDown (l : LinkId)
  deriving DecidableEq, Repr

structure State where
  cfg : TCPConfig
  link : Option LinkId
  links : LinkId → Link
  nextLink : LinkId
  ids : IdAllocator
  store : MemStore
  quota : Quota
  subs : Subs
  waiters : AList fun _ : UInt16 => Waiter
  inbox : CallId → Option AckResult
  result : Option ConnectResult
  lostCh : Bool
  calls : CallId → Call
  hist : List Event

/-- `NewTCPClient`. -/
def newTCPClient (cfg : TCPConfig) : State where
  cfg := cfg
  link := none
  links := fun _ => {}
  nextLink := 0
  ids := .init
  store := .empty
  quota := .new 0
  subs := .empty
  waiters := ∅
  inbox := fun _ => none
  result := none
  lostCh := false
  calls := fun _ => .idle
  hist := []

namespace State

def log (s : State) (e : Event) : State := { s with hist := s.hist ++ [e] }

def setLink (s : State) (l : LinkId) (f : Link → Link) : State :=
  { s with links := Function.update s.links l (f (s.links l)) }

def setCall (s : State) (c : CallId) (k : Call) : State :=
  { s with calls := Function.update s.calls c k }

/-- A call returns. -/
def finish (s : State) (c : CallId) (r : Return) : State := (s.setCall c .done).log (.returned c r)

/-! ## Waiters -/

/-- A new channel, empty, under the identifier. -/
def registerWaiter (s : State) (id : UInt16) (c : CallId) (want : AckClass) : State :=
  { s with
    waiters := s.waiters.insert id ⟨c, want⟩
    inbox := Function.update s.inbox c none }

def removeWaiter (s : State) (id : UInt16) (c : CallId) : State :=
  match s.waiters.lookup id with
  | some w => if w.ch = c then { s with waiters := s.waiters.erase id } else s
  | none => s

/-- The non-blocking send on a channel that holds one result. -/
def deliver (s : State) (c : CallId) (res : AckResult) : State :=
  { s with inbox := Function.update s.inbox c (some ((s.inbox c).getD res)) }

/-- `signalWaiter`; whether a waiter was there decides a log line only. -/
def signalWaiter (s : State) (id : UInt16) (got : AckClass) (res : AckResult) : State :=
  match s.waiters.lookup id with
  | some w =>
    if w.want = got then { s with waiters := s.waiters.erase id }.deliver w.ch res else s
  | none => s

/-- Whether some waiter's channel is the one of `c`. -/
def awaited (s : State) (c : CallId) : Bool := s.waiters.entries.any fun e => e.2.ch = c

/-- `failAllWaiters`: every registered channel gets the result if it is empty. -/
def failAllWaiters (s : State) : State :=
  { s with
    waiters := ∅
    inbox := fun c =>
      if s.awaited c then some ((s.inbox c).getD { err := some .connectionLost }) else s.inbox c }

/-! ## Tearing a link down, and writing to it -/

/-- `teardownLink`, whose body runs once per link. -/
def teardownLink (s : State) (l : LinkId) (graceful : Bool) : State :=
  if (s.links l).stop then s
  else
    let s := (s.setLink l fun k => { k with stop := true }).log (.tornDown l)
    if s.link ≠ some l then s
    else
      let s := s.failAllWaiters
      let s := { s with quota := s.quota.fail, link := none }
      if graceful then s else { s with lostCh := true }

/-- `writeFrame`: the error, if any. A frame that fails before the socket leaves
the link intact, a failing socket tears it down. `io` is whether the socket
takes the frame; a closed one never does. -/
def writeFrame (s : State) (l : LinkId) (p : Packet) (io : Bool) : Option ClientError × State :=
  let k := s.links l
  match p.encode with
  | .error e => (some (.wire e), s)
  | .ok bytes =>
    if k.outboundMax ≠ 0 ∧ bytes.length.toUInt32 > k.outboundMax then (some .packetTooLarge, s)
    else if k.stop || !io then (some .socket, s.teardownLink l k.graceful)
    else (none, s.log (.wrote l p))

/-- `sendAckReason`. The write's error is logged only. -/
def sendAckReason (s : State) (l : LinkId) (t : PacketType) (id : UInt16) (reason : ReasonCode)
    (io : Bool) : State :=
  (s.writeFrame l (.ack ⟨s.cfg.protocolVersion, t, id, reason, none⟩) io).2

def sendAck (s : State) (l : LinkId) (t : PacketType) (id : UInt16) (io : Bool) : State :=
  s.sendAckReason l t id .success io

end State
end GoMqtt.Client
