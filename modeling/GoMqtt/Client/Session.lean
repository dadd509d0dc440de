import Mathlib.Logic.Relation
import GoMqtt.Client.State

/-! # The session the client is meant to keep

An abstract view of the client: the unfinished outbound exchanges in replay
order, the inbound identifiers awaiting release, who holds which identifier,
how many permits are free, who waits for which exchange. There is no bitmap, no
sequence number, no link and no socket here. `Move` says every way the view can
change; `Client.Refinement` shows that each step of the client is a sequence of
such moves. Two parameters restrict a run: `ok` the frames that arrive, `roll`
the registrations a failed Subscribe may fall back to. -/
namespace GoMqtt.Client
open GoMqtt.Protocol GoMqtt.Session

/-- The identifier a request holds, with its generation. -/
def Call.held : Call → Option (UInt16 × Nat)
  | .requesting _ id gen | .resubscribing _ _ id gen => some (id, gen)
  | _ => none

structure Session where
  cfg : TCPConfig
  live : Bool
  out : List StoredMessage
  inbound : UInt16 → Bool
  used : UInt16 → Bool
  gen : Nat
  permits : Int
  subs : Subs
  waiting : UInt16 → Option CallId
  inbox : CallId → Option AckResult
  calls : CallId → Call
  hist : List Event

namespace Session

/-! ## The changes -/

def notes (v : Session) (es : List Event) : Session := { v with hist := v.hist ++ es }

/-- Move a call on. Only a call that waits for its PUBLISH has a result to take. -/
def setCall (v : Session) (c : CallId) (k : Call) : Session :=
  { v with calls := Function.update v.calls c k, inbox := Function.update v.inbox c none }

def finish (v : Session) (c : CallId) (r : Return) : Session :=
  (v.setCall c .done).notes [.returned c r]

/-- A PUBLISH goes out: one more exchange, one identifier and one permit taken. -/
def send (v : Session) (c : CallId) (l : LinkId) (p : PublishPacket) : Session :=
  { v.setCall c (.publishing p.packetID) with
    out := v.out ++ [storedPublish p]
    used := Function.update v.used p.packetID true
    permits := v.permits - 1
    waiting := Function.update v.waiting p.packetID (some c)
    hist := v.hist ++ [.sent c l p] }

/-- The entries left when the one under `(id, kind)` goes. -/
def without (out : List StoredMessage) (id : UInt16) (kind : StoredKind) : List StoredMessage :=
  out.filter fun m => !decide (m.id = id ∧ m.kind = kind)

/-- An exchange ends: entry, identifier and permit go, whoever waits is told. -/
def settle (v : Session) (id : UInt16) (kind : StoredKind) (res : AckResult) : Session :=
  { v with
    out := without v.out id kind
    used := Function.update v.used id false
    permits := v.permits + 1
    waiting := Function.update v.waiting id none
    inbox := match v.waiting id with
      | some c => Function.update v.inbox c (some ((v.inbox c).getD res))
      | none => v.inbox }

/-- A PUBLISH is superseded by its PUBREL leg, which goes to the back. -/
def promote (v : Session) (id : UInt16) : Session :=
  { v with out := without v.out id .publish ++ [{ id, kind := .pubrel }] }

def record (v : Session) (id : UInt16) : Session :=
  { v with inbound := Function.update v.inbound id true }

def unrecord (v : Session) (id : UInt16) : Session :=
  { v with inbound := Function.update v.inbound id false }

/-- A caller stops waiting. -/
def drop (v : Session) (id : UInt16) (c : CallId) : Session :=
  { v with waiting := fun i => if i = id ∧ v.waiting i = some c then none else v.waiting i }

/-- A request takes an identifier. -/
def hold (v : Session) (c : CallId) (id : UInt16) (k : Call) : Session :=
  { v.setCall c k with used := Function.update v.used id true }

/-- A request gives its identifier back, unless its session is gone. -/
def unhold (v : Session) (id : UInt16) (gen : Nat) : Session :=
  if gen = v.gen then { v with used := Function.update v.used id false } else v

/-- Register `s` for its filter. -/
def register (v : Session) (s : Subscription) : Session :=
  { v with subs := (v.subs.add s.filter s.options s.handler s.subID).2 }.notes [.registered s]

/-- What a failed request does to the registrations. -/
def withdraw (v : Session) : Request → Session
  | .subscribe filter prev token => { v with subs := v.subs.restore filter prev token }
  | .unsubscribe _ _ => v

/-- What an acknowledged one does. -/
def confirm (v : Session) : Request → Session
  | .subscribe _ _ _ => v
  | .unsubscribe _ none => v
  | .unsubscribe filter (some snap) =>
    { v with subs := v.subs.removeIfCurrent filter snap.token }

theorem unhold_eq (v : Session) (id : UInt16) (gen : Nat) :
    v.unhold id gen = { v with used := (v.unhold id gen).used } := by
  unfold unhold
  split <;> rfl

theorem withdraw_eq (v : Session) (r : Request) :
    v.withdraw r = { v with subs := (v.withdraw r).subs } := by cases r <;> rfl

theorem confirm_eq (v : Session) (r : Request) :
    v.confirm r = { v with subs := (v.confirm r).subs } := by
  match r with
  | .subscribe .. => rfl
  | .unsubscribe _ none => rfl
  | .unsubscribe _ (some _) => rfl

/-- The connection goes: everyone who waits is told so. -/
def tear (v : Session) : Session :=
  { v with
    live := false
    waiting := fun _ => none
    inbox := fun c => match v.calls c with
      | .publishing id =>
        if v.waiting id = some c then some ((v.inbox c).getD { err := some .connectionLost })
        else v.inbox c
      | _ => v.inbox c }

def discard (v : Session) : Session :=
  { v with
    out := []
    inbound := fun _ => false
    used := fun _ => false
    gen := v.gen + 1 }.notes [.discarded]

def reseed (v : Session) (result : ConnectResult) : Session :=
  { v with permits := max (quotaSize v.cfg result - v.out.length) 0 }.notes
    [.applied result v.out.length]

def establish (v : Session) (l : LinkId) (result : ConnectResult) : Session :=
  { v with live := true }.notes [.connected l result]

/-! ## Which changes happen -/

/-- A Publish at this QoS that has no permit yet: a new call, announced by its
event, or a parked one. -/
def Opens (v : Session) (c : CallId) (qos : UInt8) (pre : List Event) : Prop :=
  (v.calls c = .idle ∧ ∃ req : PublishRequest, pre = [.invoked c req] ∧ req.qos = qos) ∨
  (pre = [] ∧ ∃ l pkt, v.calls c = .parked l pkt ∧ pkt.qos = qos)

def Has (v : Session) (id : UInt16) (kind : StoredKind) : Prop :=
  ∃ m ∈ v.out, m.id = id ∧ m.kind = kind

end Session

/-- The exchange a frame ends, and the result it carries. -/
def Frame.ends : Frame → Option (UInt16 × StoredKind × AckResult)
  | .puback a =>
    some (a.packetID, .publish, { code := a.reasonCode, reason := reasonStringOf a.properties })
  | .pubcomp a =>
    some (a.packetID, .pubrel, { code := a.reasonCode, reason := reasonStringOf a.properties })
  | .pubrec a =>
    if a.reasonCode.isError then
      some (a.packetID, .publish, { code := a.reasonCode, reason := reasonStringOf a.properties })
    else none
  | _ => none

/-- The exchange a frame moves to its PUBREL leg. -/
def Frame.promotes : Frame → Option UInt16
  | .pubrec a => if a.reasonCode.isError then none else some a.packetID
  | _ => none

namespace Session

/-- A frame that touches no exchange and no inbound identifier. -/
def Inert (v : Session) (f : Frame) : Prop :=
  (∀ id kind res, f.ends = some (id, kind, res) → ¬v.Has id kind) ∧
  (∀ id, f.promotes = some id → ¬v.Has id .publish) ∧
  ∀ a, f ≠ .pubrel a

/-- A message handed on without being recorded: QoS 0 or 1, or QoS 2 on a link
that went down meanwhile. -/
def Unrecorded (v : Session) (l : LinkId) (e : Event) : Prop :=
  ∃ p hs torn, e = .dispatched l p hs torn ∧
    (p.qos = 2 → torn = true ∧ v.inbound p.packetID = false)

def Return.isRequest : Return → Prop
  | .published _ => False
  | _ => True

variable (ok : Session → Frame → Prop) (roll : Subscription → Subscription → Prop)

/-- The registration `r` falls back to when it is undone. -/
def RollsBack (v : Session) : Request → Prop
  | .subscribe filter (some prev) token =>
    ∀ cur, v.subs.snapshot filter = some cur → cur.token = token → roll cur prev
  | _ => True

inductive Move : Session → Session → Prop
  | refuse {v c qos pre g e} : v.Opens c qos pre → (∀ x ∈ g, ∃ l, x = Event.granted c l) →
      Move v ((v.notes (pre ++ g)).finish c (.published (some e)))
  | shoot {v c pre err} : v.Opens c 0 pre → Move v ((v.notes pre).finish c (.published err))
  | park {v c pre l pkt} : v.Opens c pkt.qos pre → pkt.qos ≠ 0 →
      Move v ((v.notes pre).setCall c (.parked l pkt))
  | send {v c l p pre} : v.Opens c p.qos pre → p.qos ≠ 0 → v.live = true → 0 < v.permits →
      v.used p.packetID = false → p.packetID ≠ 0 →
      Move v ((v.notes (pre ++ [.granted c l])).send c l p)
  | abandon {v c id e} : v.calls c = .publishing id →
      Move v ((v.drop id c).finish c (.published (some e)))
  | answer {v c id res} : v.calls c = .publishing id → v.inbox c = some res →
      Move v (v.finish c (.published (res.failure .publish)))
  | reject {v c r} : v.calls c = .idle → Return.isRequest r → Move v (v.finish c r)
  | subscribe {v c s id} : v.calls c = .idle → v.used id = false → id ≠ 0 →
      s.token = v.subs.subSeq + 1 →
      Move v ((v.register s).hold c id
        (.requesting (.subscribe s.filter (v.subs.snapshot s.filter) s.token) id v.gen))
  | subscribeFailed {v c s r} : v.calls c = .idle → Return.isRequest r →
      s.token = v.subs.subSeq + 1 →
      (v.register s).RollsBack roll (.subscribe s.filter (v.subs.snapshot s.filter) s.token) →
      Move v (((v.register s).withdraw
        (.subscribe s.filter (v.subs.snapshot s.filter) s.token)).finish c r)
  | unsubscribe {v c filter id} : v.calls c = .idle → v.used id = false → id ≠ 0 →
      Move v (v.hold c id (.requesting (.unsubscribe filter (v.subs.snapshot filter)) id v.gen))
  | resubscribe {v c l filter id} : v.calls c = .idle → v.used id = false → id ≠ 0 →
      Move v (v.hold c id (.resubscribing l filter id v.gen))
  | requestFailed {v c r id gen ret} : v.calls c = .requesting r id gen → Return.isRequest ret →
      v.RollsBack roll r → Move v (((v.unhold id gen).withdraw r).finish c ret)
  | requestDone {v c r id gen ret} : v.calls c = .requesting r id gen → Return.isRequest ret →
      Move v (((v.unhold id gen).confirm r).finish c ret)
  | resubscribed {v c l filter id gen} : v.calls c = .resubscribing l filter id gen →
      Move v ((v.unhold id gen).setCall c .done)
  | heard {v l f es} : ok v f → v.Inert f → (∀ e ∈ es, v.Unrecorded l e) →
      Move v (v.notes (.received l f :: es))
  | ended {v l f id kind res} : ok v f → f.ends = some (id, kind, res) → v.Has id kind →
      Move v ((v.notes [.received l f]).settle id kind res)
  | promoted {v l f id} : ok v f → f.promotes = some id → v.Has id .publish →
      Move v ((v.notes [.received l f]).promote id)
  | delivered {v l f p hs} : ok v (.publish f) → p.qos = 2 → v.inbound p.packetID = false →
      Move v ((v.notes [.received l (.publish f), .dispatched l p hs false,
        .recorded l p.packetID]).record p.packetID)
  | released {v l a} : ok v (.pubrel a) →
      Move v ((v.notes [.received l (.pubrel a)]).unrecord a.packetID)
  | tear {v} : Move v v.tear
  | resume {v result} : v.live = false → discards v.cfg result = false → Move v (v.reseed result)
  | restart {v result} : v.live = false → discards v.cfg result = true →
      Move v (v.discard.reseed result)
  | establish {v l result} : v.live = false → Move v (v.establish l result)

/-- Any number of moves. -/
abbrev Moves : Session → Session → Prop := Relation.ReflTransGen (Move ok roll)

end Session
end GoMqtt.Client
