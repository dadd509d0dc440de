import GoMqtt.Broker.Serve
import GoMqtt.Client.Traffic
import GoMqtt.Inbound.Decode

/-! # The client and the mock broker as one system

A link is a pair of channels that keep their order: what the client has written
and the broker has not read, and what the broker has sent and the client has not
read. Either side may stop at any point, a link may go down with packets on it,
and the broker goes on reading a link the client has given up. The handshake of a
connect is any handshake. -/
namespace GoMqtt.Broker
open GoMqtt.Protocol GoMqtt.Protocol.Mock GoMqtt.Client GoMqtt.Lib

/-! ## What each side makes of a packet of the other -/

/-- The request that the broker decodes from a packet. -/
def heard : Packet → MockRequest
  | .publish p => .publish p.normalised
  | .ack a => match a.type with
    | .puback => .puback a.normalised
    | .pubrec => .pubrec a.normalised
    | .pubrel => .pubrel a.normalised
    | .pubcomp => .pubcomp a.normalised
    | _ => .unhandled
  | .subscribe p => .subscribe ⟨p.packetID, p.normalised.subscriptions⟩
  | .unsubscribe p => .unsubscribe ⟨p.packetID, p.filters⟩
  | .pingreq => .pingreq
  | .disconnect _ => .disconnect

/-- The frame that the client decodes from an acknowledgement. -/
def ackFrame (a : AckPacket) : Client.Frame :=
  if h : a.packetID = 0 then .malformed
  else match a.type with
    | .puback => .puback ⟨a.packetID, a.reasonCode, a.properties, h⟩
    | .pubrec => .pubrec ⟨a.packetID, a.reasonCode, a.properties, h⟩
    | .pubrel => .pubrel ⟨a.packetID, a.reasonCode, a.properties, h⟩
    | .pubcomp => .pubcomp ⟨a.packetID, a.reasonCode, a.properties, h⟩
    | t => .unexpected t

/-- The reason codes a SUBACK may carry. -/
def subackReasons : Version → List UInt8
  | .v311 => Inbound.subackReasonV311
  | .v50 => Inbound.subackReasonV50

/-- The frame that the client decodes from a reply. -/
def MockReply.frame : MockReply → Client.Frame
  | .connack .. => .unexpected .connack
  | .suback v pid codes =>
    if pid = 0 ∨ codes = [] ∨ ¬ codes.all (subackReasons v).contains then .malformed
    else .suback ⟨pid, codes.map ReasonCode.mk, none⟩
  | .unsuback .v311 pid _ => if pid = 0 then .malformed else .unsuback ⟨pid, [], none⟩
  | .unsuback .v50 pid n =>
    if pid = 0 ∨ n = 0 then .malformed
    else .unsuback ⟨pid, List.replicate n .success, none⟩
  | .ack a => ackFrame a.normalised
  | .pingresp => .pingresp

/-! ## Steps -/

/-- `closed l` says that `serve` has returned on `l`. -/
structure System where
  client : State
  broker : MockBroker
  up : LinkId → List Packet
  down : LinkId → List Client.Frame
  closed : LinkId → Bool

def System.init (cfg : TCPConfig) : System where
  client := newTCPClient cfg
  broker := {}
  up := fun _ => []
  down := fun _ => []
  closed := fun _ => false

/-- What can happen: the client does something other than read, or it reads the next
frame; the broker serves the next request of a link, with `io` whether its replies
can be sent; a test scripts the broker, sends a frame of its own or cuts a link. -/
inductive Act
  | client (a : Action)
  | read (torn io : Bool)
  | serve (l : LinkId) (io : Bool)
  | script (c : Script)
  | inject (l : LinkId) (f : Client.Frame)
  | cut (l : LinkId)
  deriving DecidableEq, Repr

namespace System

/-- The client has moved on; what it wrote meanwhile is on the links. -/
def carry (x : System) (t : State) : System :=
  { x with
    client := t
    up := fun l => x.up l ++ sentOn l (t.hist.drop x.client.hist.length) }

/-- The client takes a frame off the live link. -/
def taken (x : System) (l : LinkId) (rest : List Client.Frame) : System :=
  { x with down := Function.update x.down l rest }

def read (x : System) (torn io : Bool) : Option System := do
  let l ← x.client.link
  match x.down l with
  | [] => none
  | f :: rest => some ((x.taken l rest).carry (x.client.step (.frame f torn io)))

/-- One round of `serve`. -/
def serve (x : System) (l : LinkId) (io : Bool) : Option System :=
  if x.closed l then none
  else match x.up l with
    | [] => none
    | p :: rest =>
      let turn := x.broker.respond x.client.cfg.protocolVersion (heard p)
      let replies := if io then turn.replies.map MockReply.frame else []
      some { x with
        broker := turn.broker
        up := Function.update x.up l rest
        down := Function.update x.down l (x.down l ++ replies)
        closed := Function.update x.closed l (turn.leaves || (turn.strict && !io)) }

/-- A frame of its own that the broker sends on a link that was made. -/
def inject (x : System) (l : LinkId) (f : Client.Frame) : Option System :=
  if x.closed l || x.client.nextLink ≤ l then none
  else some { x with down := Function.update x.down l (x.down l ++ [f]) }

def step (x : System) : Act → Option System
  | .client (.frame ..) => none
  | .client a => some (x.carry (x.client.step a))
  | .read torn io => x.read torn io
  | .serve l io => x.serve l io
  | .script c => some { x with broker := x.broker.script c }
  | .inject l f => x.inject l f
  | .cut l => some { x with closed := Function.update x.closed l true }

theorem client_some {x y : System} {a : Action} (h : x.step (.client a) = some y) :
    (∀ f torn io, a ≠ .frame f torn io) ∧ y = x.carry (x.client.step a) := by
  cases a with
  | frame => cases h
  | _ =>
    cases h
    exact ⟨by simp, rfl⟩

theorem read_some {x y : System} {torn io : Bool} (h : x.read torn io = some y) :
    ∃ l f rest, x.client.link = some l ∧ x.down l = f :: rest ∧
      y = (x.taken l rest).carry (x.client.step (.frame f torn io)) := by
  unfold read at h
  obtain ⟨l, hl, h⟩ := Option.bind_eq_some_iff.mp h
  cases hd : x.down l with
  | nil =>
    rw [hd] at h
    cases h
  | cons f rest =>
    rw [hd] at h
    cases h
    exact ⟨l, f, rest, hl, hd, rfl⟩

theorem serve_some {x y : System} {l : LinkId} {io : Bool} (h : x.serve l io = some y) :
    x.closed l = false ∧ ∃ p rest turn, x.up l = p :: rest ∧
      turn = x.broker.respond x.client.cfg.protocolVersion (heard p) ∧
      y = { x with
        broker := turn.broker
        up := Function.update x.up l rest
        down := Function.update x.down l
          (x.down l ++ if io then turn.replies.map MockReply.frame else [])
        closed := Function.update x.closed l (turn.leaves || (turn.strict && !io)) } := by
  unfold serve at h
  split at h
  · cases h
  rename_i hopen
  cases hu : x.up l with
  | nil =>
    rw [hu] at h
    cases h
  | cons p rest =>
    rw [hu] at h
    cases h
    exact ⟨by simpa using hopen, p, rest, _, rfl, rfl, rfl⟩

theorem inject_some {x y : System} {l : LinkId} {f : Client.Frame} (h : x.inject l f = some y) :
    y = { x with down := Function.update x.down l (x.down l ++ [f]) } := by
  unfold inject at h
  split at h <;> cases h
  rfl

/-- A step of the system is a step of the client or none; a frame that the client
handles is the next one on the live link. -/
theorem step_client {x y : System} {act : Act} (h : x.step act = some y) :
    y.client = x.client ∨ ∃ a, y.client = x.client.step a ∧
      ∀ f torn io, a = .frame f torn io → ∃ l rest, x.client.link = some l ∧ x.down l = f :: rest := by
  cases act with
  | client a =>
    obtain ⟨hframe, rfl⟩ := client_some h
    exact .inr ⟨a, rfl, fun f torn io heq => absurd heq (hframe f torn io)⟩
  | read torn io =>
    obtain ⟨l, f, rest, hl, hd, rfl⟩ := read_some h
    refine .inr ⟨.frame f torn io, rfl, fun f' torn' io' heq => ?_⟩
    cases heq
    exact ⟨l, rest, hl, hd⟩
  | serve l io =>
    obtain ⟨-, p, rest, turn, -, -, rfl⟩ := serve_some h
    exact .inl rfl
  | script c =>
    cases h
    exact .inl rfl
  | inject l f =>
    obtain rfl := inject_some h
    exact .inl rfl
  | cut l =>
    cases h
    exact .inl rfl

end System

/-- A run of the system from its start, each step meeting `ok`. -/
def Runs (ok : System → Act → Prop) (cfg : TCPConfig) (as : List Act) (x : System) : Prop :=
  Run System.step ok (System.init cfg) as x

end GoMqtt.Broker
