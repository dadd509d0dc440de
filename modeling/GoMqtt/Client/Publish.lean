import GoMqtt.Client.State
import GoMqtt.Protocol.Topic

/-! # Publish, Subscribe and Unsubscribe

Each call is cut where it blocks: the part up to the wait for a permit or for
an acknowledgement, and the part from there to its return. `io` says whether
the socket takes the frame the call writes. -/
namespace GoMqtt.Client.State
open GoMqtt.Protocol GoMqtt.Session

/-- `buildPublishProps`: no block at all on MQTT 3.1.1 or when nothing is set. -/
def buildPublishProps (v : Version) (po : PublishRequest) : Option Properties :=
  let empty := po.contentType.isEmpty && po.responseTopic.isEmpty && po.correlationData.isEmpty &&
    po.userProperties.isEmpty && po.messageExpiry.isNone && !po.payloadFormatUTF8
  if v ≠ .v50 ∨ empty then none
  else some
    { contentType := po.contentType
      responseTopic := po.responseTopic
      correlationData := po.correlationData
      userProperties := po.userProperties
      messageExpiryInterval := po.messageExpiry
      payloadFormat := if po.payloadFormatUTF8 then some 1 else none }

/-! ## Publish -/

/-- What `Publish` checks before it builds a packet: the topic, the QoS, the
response topic, the link, and the broker's limits. -/
def publishChecks (s : State) (req : PublishRequest) : Except ClientError LinkId := do
  match validateTopicName req.topic with
  | .error e => throw (.wire e)
  | .ok () => pure ()
  if req.qos > 2 then
    throw (.wire (.protocolViolation s!"unsupported QoS {req.qos}"))
  if s.cfg.protocolVersion = .v50 && !req.responseTopic.isEmpty then
    match validateTopicName req.responseTopic with
    | .error e => throw (.responseTopic e)
    | .ok () => pure ()
  let some l := s.link | throw .notConnected
  if let some res := s.result then
    if req.qos > res.maximumQoS then
      throw (.wire (.protocolViolation
        s!"QoS {req.qos} exceeds the broker's Maximum QoS {res.maximumQoS}"))
    if req.retain && !res.retainAvailable then
      throw (.wire (.protocolViolation "broker does not support retained messages"))
  return l

/-- A Publish that passes its checks goes to the live link. -/
theorem publishChecks_ok {s : State} {req : PublishRequest} {l : LinkId}
    (h : s.publishChecks req = .ok l) : s.link = some l := by
  unfold publishChecks at h
  cases hl : s.link with
  | none =>
    simp only [hl, bind, Except.bind, throw, throwThe, MonadExceptOf.throw] at h
    repeat' split at h
    all_goals cases h
  | some l' =>
    simp only [hl, bind, Except.bind, pure, Except.pure, throw, throwThe, MonadExceptOf.throw] at h
    repeat' split at h
    all_goals cases h
    all_goals rfl

def publishPacket (s : State) (req : PublishRequest) : PublishPacket where
  version := s.cfg.protocolVersion
  topic := req.topic
  payload := req.payload
  qos := req.qos
  retain := req.retain
  properties := buildPublishProps s.cfg.protocolVersion req

/-- The write-failure branch of `publishAcked`. The quota generation decides
whether this send still owns the entry, the identifier and the permit. -/
def unsend (s : State) (c : CallId) (id : UInt16) (quotaGen idGen : Nat) (err : ClientError) :
    State :=
  let s := s.removeWaiter id c
  let s :=
    if s.quota.generation = quotaGen then
      { s with
        store := s.store.delete id .publish
        ids := s.ids.releaseAt id idGen
        quota := s.quota.releaseAt quotaGen }
    else s
  s.finish c (.published (some err))

/-- `publishAcked` from the granted permit to the wait for the acknowledgement. -/
def sendAcked (s : State) (c : CallId) (l : LinkId) (pkt : PublishPacket) (quotaGen : Nat)
    (io : Bool) : State :=
  match s.ids.acquire with
  | (none, ids) =>
    { s with ids, quota := s.quota.releaseAt quotaGen }.finish c (.published (some .packetIDExhausted))
  | (some (id, idGen), ids) =>
    let pkt := { pkt with packetID := id }
    let s := { s with ids, store := s.store.save (storedPublish pkt) }
    let s := s.registerWaiter id c .publish
    match s.writeFrame l (.publish pkt) io with
    | (some err, s) => s.unsend c id quotaGen idGen err
    | (none, s) => (s.log (.sent c l pkt)).setCall c (.publishing id)

/-- `publishAcked` up to its first wait. A caller that finds no permit parks. -/
def publishAcked (s : State) (c : CallId) (l : LinkId) (pkt : PublishPacket) (io : Bool) : State :=
  match s.quota.acquire with
  | (.lost, _) => s.finish c (.published (some .connectionLost))
  | (.park _, _) => s.setCall c (.parked l pkt)
  | (.granted gen, quota) => ({ s with quota }.log (.granted c l)).sendAcked c l pkt gen io

/-- `Publish` up to its first wait. -/
def publish (s : State) (c : CallId) (req : PublishRequest) (io : Bool) : State :=
  let s := s.log (.invoked c req)
  match s.publishChecks req with
  | .error e => s.finish c (.published (some e))
  | .ok l =>
    let pkt := s.publishPacket req
    if req.qos = 0 then
      let (err, s) := s.writeFrame l (.publish pkt) io
      s.finish c (.published err)
    else s.publishAcked c l pkt io

/-! ## Subscribe and Unsubscribe -/

/-- A failed request: a SUBSCRIBE rolls its registration back. -/
def failRequest (s : State) (c : CallId) (r : Request) (err : ClientError) : State :=
  match r with
  | .subscribe filter prev token =>
    { s with subs := s.subs.restore filter prev token }.finish c (.subscribed {} (some err))
  | .unsubscribe _ _ => s.finish c (.unsubscribed (some err))

/-- An acknowledged request: an UNSUBSCRIBE drops the registration it saw. -/
def completeRequest (s : State) (c : CallId) (r : Request) (code : ReasonCode) : State :=
  match r with
  | .subscribe _ _ _ => s.finish c (.subscribed ⟨code.byte, code⟩ none)
  | .unsubscribe filter snap =>
    let s := match snap with
      | some snap => { s with subs := s.subs.removeIfCurrent filter snap.token }
      | none => s
    s.finish c (.unsubscribed none)

/-- Waiter first, identifier second: freed first, it could be handed to a request
whose waiter this removal would then delete. -/
def requestAborted (s : State) (c : CallId) (id : UInt16) (gen : Nat) : State :=
  let s := s.removeWaiter id c
  { s with ids := s.ids.releaseAt id gen }

/-- `requestAck` up to its wait. -/
def requestAck (s : State) (c : CallId) (l : LinkId) (r : Request) (want : AckClass)
    (mk : UInt16 → Packet) (io : Bool) : State :=
  match s.ids.acquire with
  | (none, ids) => { s with ids }.failRequest c r .packetIDExhausted
  | (some (id, gen), ids) =>
    let s := { s with ids }.registerWaiter id c want
    match s.writeFrame l (mk id) io with
    | (some err, s) => (s.requestAborted c id gen).failRequest c r err
    | (none, s) => s.setCall c (.requesting r id gen)

def maxSubscriptionID : UInt32 := 268435455

/-- The SUBSCRIBE for one registered filter. The identifier 0 stands for none. -/
def subscribePacket (v : Version) (filter : Bytes) (options : SubscribeOptions) (subID : UInt32)
    (id : UInt16) : SubscribePacket where
  version := v
  packetID := id
  subscriptions := [⟨filter, options⟩]
  properties := if subID ≠ 0 then some { subscriptionIdentifiers := [subID] } else none

def subscribeOptions (req : SubscribeRequest) : SubscribeOptions where
  qos := req.qos
  noLocal := req.noLocal
  retainAsPublished := req.retainAsPublished
  retainHandling := req.retainHandling

/-- What `Subscribe` checks before it registers. -/
def subscribeChecks (s : State) (req : SubscribeRequest) : Except ClientError LinkId := do
  match validateTopicFilter req.filter with
  | .error e => throw (.wire e)
  | .ok () => pure ()
  if req.qos > 2 then
    throw (.wire (.protocolViolation s!"unsupported QoS {req.qos}"))
  let some l := s.link | throw .notConnected
  if req.subscriptionID ≠ 0 then
    if req.subscriptionID > maxSubscriptionID then
      throw (.wire (.protocolViolation
        s!"subscription identifier {req.subscriptionID} out of range 1..{maxSubscriptionID}"))
    if s.cfg.protocolVersion ≠ .v50 then
      throw (.wire (.protocolViolation "subscription identifiers require MQTT 5.0"))
  return l

/-- `Subscribe` up to its wait: the handler is registered before the frame goes out. -/
def subscribe (s : State) (c : CallId) (req : SubscribeRequest) (io : Bool) : State :=
  match s.subscribeChecks req with
  | .error e => s.finish c (.subscribed {} (some e))
  | .ok l =>
    let options := subscribeOptions req
    let prev := s.subs.snapshot req.filter
    let (token, subs) := s.subs.add req.filter options req.handler req.subscriptionID
    let s := { s with subs }.log
      (.registered ⟨req.filter, req.handler, options, token, req.subscriptionID⟩)
    s.requestAck c l (.subscribe req.filter prev token) .suback
      (fun id => .subscribe
        (subscribePacket s.cfg.protocolVersion req.filter options req.subscriptionID id)) io

/-- `Unsubscribe` up to its wait. -/
def unsubscribe (s : State) (c : CallId) (filter : Bytes) (io : Bool) : State :=
  match validateTopicFilter filter, s.link with
  | .error e, _ => s.finish c (.unsubscribed (some (.wire e)))
  | .ok (), none => s.finish c (.unsubscribed (some .notConnected))
  | .ok (), some l =>
    s.requestAck c l (.unsubscribe filter (s.subs.snapshot filter)) .unsuback
      (fun id => .unsubscribe ⟨s.cfg.protocolVersion, id, [filter], none⟩) io

/-! ## From the wait to the return -/

/-- A parked `Publish` looks at the quota again. -/
def wake (s : State) (c : CallId) (io : Bool) : State :=
  match s.calls c with
  | .parked l pkt => s.publishAcked c l pkt io
  | _ => s

/-- The caller's context ends, or the acknowledgement timeout. A parked call
knows no timeout, and a replayed SUBSCRIBE is given up when its link stops. -/
def giveUp (s : State) (c : CallId) (timeout : Bool) : State :=
  let err : ClientError := if timeout then .ackTimeout else .contextDone
  match s.calls c with
  | .parked _ _ => if timeout then s else s.finish c (.published (some err))
  | .publishing id => (s.removeWaiter id c).finish c (.published (some err))
  | .requesting r id gen => (s.requestAborted c id gen).failRequest c r err
  | .resubscribing l _ id gen =>
    if (s.links l).stop then (s.requestAborted c id gen).setCall c .done else s
  | _ => s

/-- The call takes the result out of its channel and returns. -/
def collect (s : State) (c : CallId) : State :=
  match s.inbox c with
  | none => s
  | some res =>
    match s.calls c with
    | .publishing _ => s.finish c (.published (res.failure .publish))
    | .requesting r id gen =>
      let s := { s with ids := s.ids.releaseAt id gen }
      match res.failure r.packetType with
      | some e => s.failRequest c r e
      | none => s.completeRequest c r res.code
    | .resubscribing _ _ id gen => { s with ids := s.ids.releaseAt id gen }.setCall c .done
    | _ => s

end GoMqtt.Client.State
