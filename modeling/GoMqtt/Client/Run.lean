import GoMqtt.Client.Connect
import GoMqtt.Client.Pump
import GoMqtt.Lib.Run

/-! # Runs of the client

One step is the part of an API call up to its wait, its return, one inbound
frame, a connect, or the loss of the connection. An action that does not apply
leaves the state as it is. -/
namespace GoMqtt.Client
open GoMqtt.Protocol GoMqtt.Session GoMqtt.Lib

inductive Action
  | publish (n : Nat) (req : PublishRequest) (io : Bool)
  | subscribe (n : Nat) (req : SubscribeRequest) (io : Bool)
  | unsubscribe (n : Nat) (filter : Bytes) (io : Bool)
  | wake (c : CallId) (io : Bool)
  | giveUp (c : CallId) (timeout : Bool)
  | collect (c : CallId)
  | frame (f : Frame) (torn io : Bool)
  | readError
  | tick (io : Bool)
  | connect (h : State.Handshake) (writes : Nat)
  | disconnect (io : Bool)
  deriving DecidableEq, Repr

namespace State

/-- Begin an API call under a number not used before. -/
def begin (s : State) (n : Nat) (f : State → CallId → State) : State :=
  if s.calls (.api n) = .idle then f s (.api n) else s

/-- Something the loops of the live link do. -/
def onLink (s : State) (f : State → LinkId → State) : State :=
  match s.link with
  | none => s
  | some l => f s l

def step (s : State) : Action → State
  | .publish n req io => s.begin n fun s c => s.publish c req io
  | .subscribe n req io => s.begin n fun s c => s.subscribe c req io
  | .unsubscribe n filter io => s.begin n fun s c => s.unsubscribe c filter io
  | .wake c io => s.wake c io
  | .giveUp c timeout => s.giveUp c timeout
  | .collect c => s.collect c
  | .frame f torn io => s.onLink fun s l => (s.log (.received l f)).handleFrame l f torn io
  | .readError => s.onLink fun s l => s.teardownLink l (s.links l).graceful
  | .tick io => s.onLink fun s l => s.tick l io
  | .connect h n => s.connect h n
  | .disconnect io => s.disconnect io

theorem step_frame {s : State} {l : LinkId} (hl : s.link = some l) (f : Frame) (torn io : Bool) :
    s.step (.frame f torn io) = (s.log (.received l f)).handleFrame l f torn io := by
  simp only [step, onLink, hl]

theorem step_connect {s : State} {h : Handshake} {result : ConnectResult} (n : Nat)
    (hlink : s.link = none) (hok : negotiate s.cfg h = .ok result) :
    s.step (.connect h n) = s.establish result n := by
  simp only [step, connect, hlink, hok]

end State

/-- A run of the client from its construction, each step meeting `ok`. -/
def Reach (ok : State → Action → Prop) (cfg : TCPConfig) (as : List Action) (s : State) : Prop :=
  Run (fun s a => some (s.step a)) ok (newTCPClient cfg) as s

/-- The state a list of actions leads to. -/
def runActions (cfg : TCPConfig) (as : List Action) : State :=
  as.foldl State.step (newTCPClient cfg)

theorem Reach.of_okAlong {ok : State → Action → Prop} [∀ s a, Decidable (ok s a)]
    {cfg : TCPConfig} {as : List Action}
    (h : okAlong State.step ok (newTCPClient cfg) as = true) :
    Reach ok cfg as (runActions cfg as) := Run.of_okAlong h

/-! ## Inputs of the concrete runs -/

/-- An accepting CONNACK with these properties. -/
def accept (properties : Properties) (sessionPresent : Bool) : State.Handshake :=
  .connack { sessionPresent, properties := some properties }

def receiveMax (n : UInt16) : Properties := { receiveMaximum := some n }

def maxPacket (n : UInt32) : Properties := { maximumPacketSize := some n }

/-- What one with this Receive Maximum and nothing else negotiates. -/
def negotiated (receiveMaximum : UInt16) (sessionPresent : Bool) : ConnectResult where
  sessionPresent := sessionPresent
  receiveMaximum := receiveMaximum
  maximumQoS := 2
  retainAvailable := true
  maximumPacketSize := 0

/-- A client whose sessions survive the connection. -/
def durable : TCPConfig := { protocolVersion := .v50, sessionExpirySeconds := 60 }

/-- A message to send. -/
def message (qos : UInt8) : PublishRequest := { topic := [0x74], qos }

end GoMqtt.Client
