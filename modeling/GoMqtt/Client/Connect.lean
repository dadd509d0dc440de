import GoMqtt.Client.Publish

/-! # Connect and Disconnect

The session decision on a CONNACK, the replay of stored exchanges and of
subscriptions on the unpublished link, and the publication of the link. The
writes of one connect succeed up to some number and then fail: a broken socket
stays broken. -/
namespace GoMqtt.Client.State
open GoMqtt.Protocol GoMqtt.Session

/-- `inflightPermits`. -/
def inflightPermits (store : MemStore) : Nat := (store.all.filter fun m => m.kind.outbound).length

/-- `applySession`. -/
def applySession (s : State) (result : ConnectResult) : State :=
  let s :=
    if discards s.cfg result then
      { s with store := s.store.reset, ids := s.ids.reset }.log .discarded
    else s
  let n := inflightPermits s.store
  let size := max (quotaSize s.cfg result - n) 0
  { s with quota := s.quota.reset size }.log (.applied result n)

/-- What one stored entry is replayed as. -/
def replayPacket (v : Version) (m : StoredMessage) : Option Packet :=
  match m.kind with
  | .publish => m.publish.map fun p => .publish { p with dup := true }
  | .pubrel => some (.ack ⟨v, .pubrel, m.id, .success, none⟩)
  | .inboundID => none

/-- One write of the replay; its error is logged only. -/
def replayWrite (s : State) (l : LinkId) (p : Packet) (io : Bool) : State :=
  match s.writeFrame l p io with
  | (some _, s) => s.log (.replayFailed l)
  | (none, s) => s

/-- The loop of `replaySession`, `n` being how many more writes succeed. -/
def replayEntries (l : LinkId) : List StoredMessage → Nat → State → Nat × State
  | [], n, s => (n, s)
  | m :: rest, n, s =>
    match replayPacket s.cfg.protocolVersion m with
    | none => replayEntries l rest n s
    | some p => replayEntries l rest (n - 1) (s.replayWrite l p (0 < n))

def replaySession (s : State) (l : LinkId) (n : Nat) : Nat × State :=
  replayEntries l s.store.all n s

/-- One round of `replaySubscriptions`. -/
def resubscribe (s : State) (l : LinkId) (k : Nat) (sub : Subscription) (io : Bool) : State :=
  match s.ids.acquire with
  | (none, ids) => { s with ids }.log (.replayFailed l)
  | (some (id, gen), ids) =>
    let c := CallId.resubscribe l k
    let pkt := subscribePacket s.cfg.protocolVersion sub.filter sub.options sub.subID id
    let s := { s with ids }.registerWaiter id c .suback
    match s.writeFrame l (.subscribe pkt) io with
    | (some _, s) => (s.requestAborted c id gen).log (.replayFailed l)
    | (none, s) => s.setCall c (.resubscribing l sub.filter id gen)

/-- The loop of `replaySubscriptions`, `k` being the position in the list. -/
def resubscribeAll (l : LinkId) : List Subscription → Nat → Nat → State → State
  | [], _, _, s => s
  | sub :: rest, k, n, s => resubscribeAll l rest (k + 1) (n - 1) (s.resubscribe l k sub (0 < n))

def replaySubscriptions (s : State) (l : LinkId) (n : Nat) : State :=
  resubscribeAll l s.subs.subs 0 n s

/-- The new link, with the generations of the session it was established under. -/
def newLink (s : State) (result : ConnectResult) : Link where
  quotaGen := s.quota.generation
  idGen := s.ids.generation
  outboundMax := result.maximumPacketSize

/-- `Connect` from an accepted CONNACK on. -/
def establish (s : State) (result : ConnectResult) (n : Nat) : State :=
  let l := s.nextLink
  let s := { s with nextLink := l + 1 }.applySession result
  let s := s.setLink l fun _ => s.newLink result
  let (n, s) := s.replaySession l n
  let s := s.replaySubscriptions l n
  -- A replay write that failed has torn the link down before it was published.
  if (s.links l).stop then s
  else { s with result := some result, link := some l }.log (.connected l result)

/-- How far the handshake came: not to a CONNACK, or to this one. -/
inductive Handshake
  | failed
  | connack (ack : ConnackPacket)
  deriving DecidableEq, Repr

/-- The negotiated limits, unless the handshake or the CONNACK is refused. -/
def negotiate (cfg : TCPConfig) : Handshake → Except ClientError ConnectResult
  | .failed => .error .handshake
  | .connack ack => do
    if ack.reasonCode.isError then
      throw (.reason .connect ack.reasonCode (reasonStringOf ack.properties))
    validateConnackLimits cfg.protocolVersion ack
    if cfg.cleanStart && ack.sessionPresent then
      throw (.wire (.protocolViolation "broker reported Session Present=1 for a Clean Start connect"))
    return buildConnectResult ack

/-- `Connect`: a live link makes it a no-op. -/
def connect (s : State) (h : Handshake) (n : Nat) : State :=
  match s.link, negotiate s.cfg h with
  | some _, _ => s
  | none, .error _ => s
  | none, .ok result => s.establish result n

/-- `Disconnect`. -/
def disconnect (s : State) (io : Bool) : State :=
  match s.link with
  | none => s
  | some l =>
    let s := s.setLink l fun k => { k with graceful := true }
    let s := (s.writeFrame l
      (.disconnect ⟨s.cfg.protocolVersion, .normalDisconnection, none⟩) io).2
    s.teardownLink l true

end GoMqtt.Client.State
