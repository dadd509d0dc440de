import GoMqtt.Client.Connect
import GoMqtt.Lib.Run

/-! # The client, one critical section at a time

The calls, the read loops, the teardowns and `Connect`, interleaved at the
locks: one step is one operation on the shared memory. The memory is the client's
`State`; what a goroutine knows on its own stands in its program counter. A link
that is down can still have a read loop that is in the middle of a frame, and a
call can hold an identifier of a session that has since been discarded.

A reply of the read loop and a frame of the replay only touch the link's own
socket. A failing one tears the link down, and here a link may be torn down at
any time, so they are no steps of their own. `Book` is what a run is judged by:
whose entry, identifier and permit is whose. No step reads it. -/
namespace GoMqtt.Concurrent
open GoMqtt.Protocol GoMqtt.Session GoMqtt.Client GoMqtt.Lib

/-! ## The calls -/

/-- What a call is for: `publishAcked`, or `requestAck` and the resubscribes. -/
inductive Job
  | publish (pkt : PublishPacket)
  | request (want : AckClass)
  deriving DecidableEq, Repr

def Job.want : Job → AckClass
  | .publish _ => .publish
  | .request want => want

def Job.isPublish : Job → Bool
  | .publish _ => true
  | .request _ => false

/-- The next critical section of a call. -/
inductive CallPc
  | idle
  | acquire
  | acquireId
  | giveBack
  | save
  | register
  | write
  | tearing
  | unregister
  | checkGen
  | drop
  | freeId
  | freePermit
  | wait
  | leave
  | done
  deriving DecidableEq, Repr

/-- A call and its local variables. `failed` says that its `writeFrame` failed. -/
structure Proc where
  job : Job := .request .suback
  link : LinkId := 0
  pc : CallPc := .idle
  quotaGen : Nat := 0
  id : UInt16 := 0
  idGen : Nat := 0
  failed : Bool := false
  deriving DecidableEq, Repr

/-- How a step that can go two ways goes: a write is taken, refused before the
socket, or breaks the socket; a wait ends with a result or without one. -/
inductive Branch
  | go
  | fail
  | broken
  deriving DecidableEq, Repr

/-- Where a call goes on: a PUBLISH one way, a request the other. -/
def Proc.next (p : Proc) (publish request : CallPc) : Proc :=
  { p with pc := if p.job.isPublish then publish else request }

/-- The packet a publish sends. -/
def Proc.packet? (p : Proc) : Option PublishPacket :=
  match p.job with
  | .publish pkt => some { pkt with packetID := p.id }
  | .request _ => none

/-- `writeFrame` fails before the socket: the PUBLISH does not encode, or exceeds
the link's maximum. The frames of the other requests are left open. -/
def Proc.refused (p : Proc) (k : Link) : Bool :=
  match p.packet? with
  | some pkt =>
    match (Packet.publish pkt).encode with
    | .error _ => true
    | .ok bytes => k.outboundMax != 0 && bytes.length.toUInt32 > k.outboundMax
  | none => false

/-- One critical section of a call. `closed` says that the teardown of its link is
over, which a failed write waits for. -/
def callStep (m : State) (closed : Bool) (c : CallId) (p : Proc) (b : Branch) :
    Option (State × Proc) :=
  match p.pc, b with
  | .acquire, .go =>
    match m.quota.acquire with
    | (.granted gen, quota) => some ({ m with quota }, { p with pc := .acquireId, quotaGen := gen })
    | (.lost, _) => some (m, { p with pc := .done })
    | (.park _, _) => none
  | .acquire, .fail =>
    match m.quota.acquire with
    | (.park _, _) => some (m, { p with pc := .done })
    | _ => none
  | .acquireId, .go =>
    match m.ids.acquire with
    | (none, ids) => some ({ m with ids }, p.next .giveBack .done)
    | (some (id, gen), ids) =>
      some ({ m with ids }, { p with id, idGen := gen }.next .save .register)
  | .giveBack, .go =>
    some ({ m with quota := m.quota.releaseAt p.quotaGen }, { p with pc := .done })
  | .save, .go =>
    match p.packet? with
    | some pkt =>
      some ({ m with store := m.store.save (storedPublish pkt) }, { p with pc := .register })
    | none => none
  | .register, .go => some (m.registerWaiter p.id c p.job.want, { p with pc := .write })
  | .write, .go =>
    if (m.links p.link).stop || p.refused (m.links p.link) then none
    else some (m, { p with pc := .wait })
  | .write, .fail =>
    if p.job.isPublish && !p.refused (m.links p.link) then none
    else some (m, { p with pc := .unregister, failed := true })
  | .write, .broken =>
    if p.refused (m.links p.link) then none
    else some (m, { p with pc := .tearing, failed := true })
  | .tearing, .go => if closed then some (m, { p with pc := .unregister }) else none
  | .unregister, .go => some (m.removeWaiter p.id c, p.next .checkGen .freeId)
  | .checkGen, .go =>
    some (m, { p with pc := if m.quota.generation = p.quotaGen then .drop else .done })
  | .drop, .go => some ({ m with store := m.store.delete p.id .publish }, { p with pc := .freeId })
  | .freeId, .go => some ({ m with ids := m.ids.releaseAt p.id p.idGen }, p.next .freePermit .done)
  | .freePermit, .go =>
    some ({ m with quota := m.quota.releaseAt p.quotaGen }, { p with pc := .done })
  | .wait, .go =>
    match m.inbox c with
    | some _ => some (m, p.next .done .freeId)
    | none => none
  | .wait, .fail => some (m, { p with pc := .leave })
  | .leave, .go => some (m.removeWaiter p.id c, p.next .done .freeId)
  | _, _ => none

/-- What a critical section of a call can be, one case each. -/
inductive CallStep (m : State) (c : CallId) (p : Proc) : State → Proc → Prop
  | granted {gen : Nat} {quota : Quota} (hpc : p.pc = .acquire)
      (hq : m.quota.acquire = (.granted gen, quota)) :
      CallStep m c p { m with quota } { p with pc := .acquireId, quotaGen := gen }
  | turnedAway (hpc : p.pc = .acquire)
      (hq : ∀ gen quota, m.quota.acquire ≠ (.granted gen, quota)) :
      CallStep m c p m { p with pc := .done }
  | exhausted {ids : IdAllocator} (hpc : p.pc = .acquireId) (hi : m.ids.acquire = (none, ids)) :
      CallStep m c p { m with ids } (p.next .giveBack .done)
  | acquired {id : UInt16} {gen : Nat} {ids : IdAllocator} (hpc : p.pc = .acquireId)
      (hi : m.ids.acquire = (some (id, gen), ids)) :
      CallStep m c p { m with ids } ({ p with id, idGen := gen }.next .save .register)
  | giveBack (hpc : p.pc = .giveBack) :
      CallStep m c p { m with quota := m.quota.releaseAt p.quotaGen } { p with pc := .done }
  | save {pkt : PublishPacket} (hpc : p.pc = .save) (hpkt : p.packet? = some pkt) :
      CallStep m c p { m with store := m.store.save (storedPublish pkt) } { p with pc := .register }
  | register (hpc : p.pc = .register) :
      CallStep m c p (m.registerWaiter p.id c p.job.want) { p with pc := .write }
  | written (hpc : p.pc = .write) : CallStep m c p m { p with pc := .wait }
  | refused (hpc : p.pc = .write) : CallStep m c p m { p with pc := .unregister, failed := true }
  | broken (hpc : p.pc = .write) : CallStep m c p m { p with pc := .tearing, failed := true }
  | torn (hpc : p.pc = .tearing) : CallStep m c p m { p with pc := .unregister }
  | unregister (hpc : p.pc = .unregister) :
      CallStep m c p (m.removeWaiter p.id c) (p.next .checkGen .freeId)
  | owned (hpc : p.pc = .checkGen) (hg : m.quota.gen = p.quotaGen) :
      CallStep m c p m { p with pc := .drop }
  | adopted (hpc : p.pc = .checkGen) (hg : m.quota.gen ≠ p.quotaGen) :
      CallStep m c p m { p with pc := .done }
  | drop (hpc : p.pc = .drop) :
      CallStep m c p { m with store := m.store.delete p.id .publish } { p with pc := .freeId }
  | freeId (hpc : p.pc = .freeId) :
      CallStep m c p { m with ids := m.ids.releaseAt p.id p.idGen } (p.next .freePermit .done)
  | freePermit (hpc : p.pc = .freePermit) :
      CallStep m c p { m with quota := m.quota.releaseAt p.quotaGen } { p with pc := .done }
  | collect {res : AckResult} (hpc : p.pc = .wait) (hi : m.inbox c = some res) :
      CallStep m c p m (p.next .done .freeId)
  | giveUp (hpc : p.pc = .wait) : CallStep m c p m { p with pc := .leave }
  | leave (hpc : p.pc = .leave) : CallStep m c p (m.removeWaiter p.id c) (p.next .done .freeId)

theorem callStep_spec {m m' : State} {closed : Bool} {c : CallId} {p p' : Proc} {b : Branch}
    (h : callStep m closed c p b = some (m', p')) : CallStep m c p m' p' := by
  unfold callStep at h
  split at h
  · rename_i hpc
    split at h
    · rename_i gen quota hq
      cases h
      exact .granted hpc hq
    · rename_i hq
      cases h
      exact .turnedAway hpc (by simp [hq])
    · cases h
  · rename_i hpc
    split at h
    · rename_i hq
      cases h
      exact .turnedAway hpc (by simp [hq])
    · cases h
  · rename_i hpc
    split at h
    · rename_i hi
      cases h
      exact .exhausted hpc hi
    · rename_i hi
      cases h
      exact .acquired hpc hi
  · rename_i hpc
    cases h
    exact .giveBack hpc
  · rename_i hpc
    split at h
    · rename_i hpkt
      cases h
      exact .save hpc hpkt
    · cases h
  · rename_i hpc
    cases h
    exact .register hpc
  · rename_i hpc
    split at h
    · cases h
    · cases h
      exact .written hpc
  · rename_i hpc
    split at h
    · cases h
    · cases h
      exact .refused hpc
  · rename_i hpc
    split at h
    · cases h
    · cases h
      exact .broken hpc
  · rename_i hpc
    split at h
    · cases h
      exact .torn hpc
    · cases h
  · rename_i hpc
    cases h
    exact .unregister hpc
  · rename_i hpc
    cases h
    by_cases hg : m.quota.generation = p.quotaGen
    · rw [if_pos hg]
      exact .owned hpc hg
    · rw [if_neg hg]
      exact .adopted hpc hg
  · rename_i hpc
    cases h
    exact .drop hpc
  · rename_i hpc
    cases h
    exact .freeId hpc
  · rename_i hpc
    cases h
    exact .freePermit hpc
  · rename_i hpc
    split at h
    · rename_i hi
      cases h
      exact .collect hpc hi
    · cases h
  · rename_i hpc
    cases h
    exact .giveUp hpc
  · rename_i hpc
    cases h
    exact .leave hpc
  · cases h

/-! ## The read loops -/

/-- Where a read loop stands. From `ackContains` on it is past the stop check that
every frame begins with. -/
inductive ReadPc
  | off
  | reading
  | checkStop (f : Client.Frame)
  | ackContains (id : UInt16) (kind : StoredKind) (res : AckResult)
  | ackDelete (id : UInt16) (kind : StoredKind) (res : AckResult)
  | ackFreeId (id : UInt16) (res : AckResult)
  | ackFreePermit (id : UInt16) (res : AckResult)
  | recContains (ack : InboundAck)
  | recSave (id : UInt16)
  | recDelete (id : UInt16)
  | inContains (id : UInt16)
  | inDispatch (id : UInt16)
  | inSave (id : UInt16)
  | relContains (id : UInt16)
  | relDelete (id : UInt16)
  | signal (id : UInt16) (got : AckClass) (res : AckResult)
  | exited
  deriving DecidableEq, Repr

/-- Past the last stop check of its frame: the rest is done whatever has become of
the link. A QoS 2 message is checked again after its handlers have run. -/
def ReadPc.committed : ReadPc → Bool
  | .off | .reading | .checkStop _ | .inContains _ | .inDispatch _ | .exited => false
  | _ => true

/-- Past the deletion of an acknowledged entry, and not done with what it held. -/
def ReadPc.closing : ReadPc → Bool
  | .ackFreeId .. | .ackFreePermit .. => true
  | _ => false

/-- Where `handleFrame` sends a frame. Those that touch no shared memory are done
with at once. -/
def ReadPc.handle : Client.Frame → ReadPc
  | .publish p => if p.pkt.qos = 2 then .inContains p.pkt.packetID else .reading
  | .puback ack => .ackContains ack.packetID .publish
      { code := ack.reasonCode, reason := reasonStringOf ack.properties }
  | .pubrec ack => .recContains ack
  | .pubrel ack => .relContains ack.packetID
  | .pubcomp ack => .ackContains ack.packetID .pubrel
      { code := ack.reasonCode, reason := reasonStringOf ack.properties }
  | .suback p => .signal p.packetID .suback
      { reason := reasonStringOf p.properties, code := p.reasonCodes.head?.getD .success }
  | .unsuback p => .signal p.packetID .unsuback
      { reason := reasonStringOf p.properties, code := p.reasonCodes.head?.getD .success }
  | .pingresp => .reading
  | .disconnect | .unexpected _ | .malformed => .exited

/-- One critical section of the read loop of `l`. -/
def readStep (m : State) (l : LinkId) : ReadPc → Option (State × ReadPc)
  | .checkStop f => some (m, if (m.links l).stop then .exited else .handle f)
  | .ackContains id kind res =>
    some (m, if m.store.contains id kind then .ackDelete id kind res else .reading)
  | .ackDelete id kind res => some ({ m with store := m.store.delete id kind }, .ackFreeId id res)
  | .ackFreeId id res =>
    some ({ m with ids := m.ids.releaseAt id (m.links l).idGen }, .ackFreePermit id res)
  | .ackFreePermit id res =>
    some ({ m with quota := m.quota.releaseAt (m.links l).quotaGen }, .signal id .publish res)
  | .recContains ack =>
    some (m,
      if m.store.contains ack.packetID .publish then
        if ack.reasonCode.isError then .ackDelete ack.packetID .publish
          { code := ack.reasonCode, reason := reasonStringOf ack.properties }
        else .recSave ack.packetID
      else .reading)
  | .recSave id => some ({ m with store := m.store.save { id, kind := .pubrel } }, .recDelete id)
  | .recDelete id => some ({ m with store := m.store.delete id .publish }, .reading)
  | .inContains id =>
    some (m, if m.store.contains id .inboundID then .reading else .inDispatch id)
  | .inDispatch id => some (m, if (m.links l).stop then .exited else .inSave id)
  | .inSave id => some ({ m with store := m.store.save { id, kind := .inboundID } }, .reading)
  | .relContains id =>
    some (m, if m.store.contains id .inboundID then .relDelete id else .reading)
  | .relDelete id => some ({ m with store := m.store.delete id .inboundID }, .reading)
  | .signal id got res => some (m.signalWaiter id got res, .reading)
  | .off | .reading | .exited => none

/-! ## Teardown and Connect -/

/-- How far `teardownLink` has come. -/
inductive TearPc
  | intact
  | stopped
  | checked
  | waitersFailed
  | quotaFailed
  | closed
  deriving DecidableEq, Repr

/-- One critical section of `teardownLink`, whose body runs once per link. -/
def tearStep (m : State) (l : LinkId) : TearPc → Option (State × TearPc)
  | .intact => some (m.setLink l fun k => { k with stop := true }, .stopped)
  | .stopped => some (m, if m.link = some l then .checked else .closed)
  | .checked => some (m.failAllWaiters, .waitersFailed)
  | .waitersFailed => some ({ m with quota := m.quota.fail }, .quotaFailed)
  | .quotaFailed => some ({ m with link := none }, .closed)
  | .closed => none

/-- Where `Connect` stands once a CONNACK is accepted, and the new link. -/
inductive ConnPc
  | idle
  | storeReset (l : LinkId) (result : ConnectResult)
  | idsReset (l : LinkId) (result : ConnectResult)
  | count (l : LinkId) (result : ConnectResult)
  | quotaReset (l : LinkId) (result : ConnectResult) (n : Nat)
  | capture (l : LinkId) (result : ConnectResult)
  | load (l : LinkId) (result : ConnectResult)
  | resub (l : LinkId) (result : ConnectResult) (replay : List StoredMessage)
  deriving DecidableEq, Repr

/-- Inside `applySession`. -/
def ConnPc.applying : ConnPc → Bool
  | .storeReset .. | .idsReset .. | .count .. | .quotaReset .. => true
  | _ => false

/-- What a session is made of is all there, or all gone: no reset is half done and
no count is waiting to be applied. -/
def ConnPc.calm : ConnPc → Bool
  | .idsReset .. | .count .. | .quotaReset .. => false
  | _ => true

/-- The link being established. -/
def ConnPc.link : ConnPc → Option LinkId
  | .idle => none
  | .storeReset l _ | .idsReset l _ | .count l _ | .quotaReset l _ _ | .capture l _ | .load l _
  | .resub l _ _ => some l

/-- Writing on the new link, which until then no one else knows. -/
def ConnPc.replaying : ConnPc → Bool
  | .resub .. => true
  | _ => false

/-- One critical section of `Connect`. The generations are captured in one step:
no one else changes them. -/
def connStep (m : State) : ConnPc → Option (State × ConnPc)
  | .idle => none
  | .storeReset l r => some ({ m with store := m.store.reset }, .idsReset l r)
  | .idsReset l r => some ({ m with ids := m.ids.reset }, .count l r)
  | .count l r => some (m, .quotaReset l r (State.inflightPermits m.store))
  | .quotaReset l r n =>
    some ({ m with quota := m.quota.reset (max (quotaSize m.cfg r - n) 0) }, .capture l r)
  | .capture l r => some (m.setLink l fun _ => m.newLink r, .load l r)
  | .load l r => some (m, .resub l r m.store.all)
  | .resub l r _ =>
    if (m.links l).stop then some (m, .idle)
    else some ({ m with result := some r, link := some l }, .idle)

/-! ## The machine -/

/-- Whose is what. `calls` are the calls started, and `resetFor` is the link the
session was last reset for. `savedBy` and `heldBy` name the call that last saved a PUBLISH
under an identifier, and the one that last acquired it; `charged` are the calls
whose exchange holds a permit of the current generation, `counted` those a Connect
has just counted. `closing` is the exchange a read loop is ending. `credits` are
the permits given back, with their generation, and `frees` the calls whose
identifier was freed, each the last to have acquired it. `ceiling` is what the last
`quota.reset` set, plus what was subtracted for it. -/
structure Book where
  calls : List CallId := []
  resetFor : LinkId := 0
  savedBy : UInt16 → CallId := fun _ => .api 0
  heldBy : UInt16 → CallId := fun _ => .api 0
  charged : List CallId := []
  counted : List CallId := []
  closing : LinkId → CallId := fun _ => .api 0
  credits : List (CallId × Nat) := []
  frees : List CallId := []
  ceiling : Int := 0

structure World where
  mem : State
  procs : CallId → Proc
  readers : LinkId → ReadPc
  tears : LinkId → TearPc
  conn : ConnPc
  book : Book

inductive Act
  | start (c : CallId) (job : Job) (l : LinkId)
  | call (c : CallId) (b : Branch)
  | receive (l : LinkId) (f : Client.Frame)
  | read (l : LinkId)
  | teardown (l : LinkId)
  | connect (result : ConnectResult)
  | conn
  deriving DecidableEq, Repr

/-- A client that has not connected yet. -/
def init (cfg : TCPConfig) : World where
  mem := newTCPClient cfg
  procs := fun _ => {}
  readers := fun _ => .off
  tears := fun _ => .intact
  conn := .idle
  book := {}

/-! ### The book -/

/-- A permit of `c` is given back under `gen`. -/
def Book.credit (k : Book) (q : Quota) (c : CallId) (gen : Nat) : Book :=
  if gen = q.gen then { k with charged := k.charged.erase c, credits := (c, gen) :: k.credits } else k

/-- An identifier is freed under `gen`, whoever has it. -/
def Book.free (k : Book) (ids : IdAllocator) (id : UInt16) (gen : Nat) : Book :=
  if gen = ids.gen then { k with frees := k.heldBy id :: k.frees } else k

def Book.ofCall (k : Book) (m : State) (c : CallId) (p : Proc) : Book :=
  match p.pc with
  | .acquire =>
    match m.quota.acquire with
    | (.granted _, _) => { k with charged := c :: k.charged }
    | _ => k
  | .acquireId =>
    match m.ids.acquire with
    | (some (id, _), _) => { k with heldBy := Function.update k.heldBy id c }
    | (none, _) => k
  | .giveBack | .freePermit => k.credit m.quota c p.quotaGen
  | .save => { k with savedBy := Function.update k.savedBy p.id c }
  | .freeId => k.free m.ids p.id p.idGen
  | _ => k

def Book.ofRead (k : Book) (m : State) (l : LinkId) : ReadPc → Book
  | .ackDelete id _ _ => { k with closing := Function.update k.closing l (k.savedBy id) }
  | .ackFreeId id _ => k.free m.ids id (m.links l).idGen
  | .ackFreePermit _ _ => k.credit m.quota (k.closing l) (m.links l).quotaGen
  | _ => k

/-- The calls whose exchanges are counted. -/
def Book.inflight (k : Book) (store : MemStore) : List CallId :=
  (store.all.filter fun m => m.kind.outbound).map fun m => k.savedBy m.id

def Book.ofConn (k : Book) (m : State) : ConnPc → Book
  | .storeReset l _ => { k with resetFor := l }
  | .count _ _ => { k with counted := k.inflight m.store }
  | .quotaReset _ r n =>
    { k with charged := k.counted, ceiling := max (quotaSize m.cfg r - n) 0 + n }
  | _ => k

/-- Who may send on `l`: anyone once it is published, before that the resubscribes. -/
def World.sends (w : World) (l : LinkId) (job : Job) : Bool :=
  w.mem.link = some l ||
    (w.conn.replaying && w.conn.link = some l && job = .request .suback)

def World.setProc (w : World) (c : CallId) (p : Proc) : World :=
  { w with procs := Function.update w.procs c p }

def World.setReader (w : World) (l : LinkId) (pc : ReadPc) : World :=
  { w with readers := Function.update w.readers l pc }

def World.setTear (w : World) (l : LinkId) (pc : TearPc) : World :=
  { w with tears := Function.update w.tears l pc }

section

variable (w : World) (c : CallId) (l : LinkId)

@[simp] theorem setProc_mem (p : Proc) : (w.setProc c p).mem = w.mem := rfl
@[simp] theorem setProc_readers (p : Proc) : (w.setProc c p).readers = w.readers := rfl
@[simp] theorem setProc_tears (p : Proc) : (w.setProc c p).tears = w.tears := rfl
@[simp] theorem setProc_conn (p : Proc) : (w.setProc c p).conn = w.conn := rfl
@[simp] theorem setProc_book (p : Proc) : (w.setProc c p).book = w.book := rfl
@[simp] theorem setProc_procs (p : Proc) :
    (w.setProc c p).procs = Function.update w.procs c p := rfl
@[simp] theorem setReader_mem (pc : ReadPc) : (w.setReader l pc).mem = w.mem := rfl
@[simp] theorem setReader_procs (pc : ReadPc) : (w.setReader l pc).procs = w.procs := rfl
@[simp] theorem setReader_tears (pc : ReadPc) : (w.setReader l pc).tears = w.tears := rfl
@[simp] theorem setReader_conn (pc : ReadPc) : (w.setReader l pc).conn = w.conn := rfl
@[simp] theorem setReader_book (pc : ReadPc) : (w.setReader l pc).book = w.book := rfl
@[simp] theorem setReader_readers (pc : ReadPc) :
    (w.setReader l pc).readers = Function.update w.readers l pc := rfl
@[simp] theorem setTear_mem (pc : TearPc) : (w.setTear l pc).mem = w.mem := rfl
@[simp] theorem setTear_procs (pc : TearPc) : (w.setTear l pc).procs = w.procs := rfl
@[simp] theorem setTear_readers (pc : TearPc) : (w.setTear l pc).readers = w.readers := rfl
@[simp] theorem setTear_conn (pc : TearPc) : (w.setTear l pc).conn = w.conn := rfl
@[simp] theorem setTear_book (pc : TearPc) : (w.setTear l pc).book = w.book := rfl
@[simp] theorem setTear_tears (pc : TearPc) :
    (w.setTear l pc).tears = Function.update w.tears l pc := rfl

end

/-- A link that is published gets its read loop. -/
def World.spawn (w : World) : World :=
  match w.conn with
  | .resub l _ _ => if (w.mem.links l).stop then w else w.setReader l .reading
  | _ => w

theorem spawn_procs (w : World) : w.spawn.procs = w.procs := by
  unfold World.spawn
  split
  · split <;> rfl
  · rfl

/-- A read loop starts between two frames. -/
theorem spawn_committed {w : World} (h : ∀ l, (w.readers l).committed = false) (k : LinkId) :
    (w.spawn.readers k).committed = false := by
  unfold World.spawn
  split
  · split
    · exact h k
    · rename_i j r msgs hc hstop
      by_cases hk : k = j
      · subst hk
        rw [setReader_readers, Function.update_self]
        rfl
      · rw [setReader_readers, Function.update_of_ne hk]
        exact h k
  · exact h k

def World.begins (w : World) (c : CallId) : World :=
  { w with book := { w.book with calls := c :: w.book.calls } }

/-- A new link, and `applySession` on what the CONNACK says. -/
def World.begin (w : World) (r : ConnectResult) : World :=
  let l := w.mem.nextLink
  { w with
    mem := { w.mem with nextLink := l + 1 }
    conn := if discards w.mem.cfg r then .storeReset l r else .count l r }

/-- One critical section of one goroutine. -/
def step (w : World) : Act → Option World
  | .start c job l =>
    if (w.procs c).pc = .idle && w.sends l job then
      some (w.begins c |>.setProc c
        { job, link := l, pc := if job.isPublish then .acquire else .acquireId })
    else none
  | .call c b =>
    let p := w.procs c
    (callStep w.mem (w.tears p.link = .closed) c p b).map fun (mem, p') =>
      { w with mem, book := w.book.ofCall w.mem c p }.setProc c p'
  | .receive l f => if w.readers l = .reading then some (w.setReader l (.checkStop f)) else none
  | .read l =>
    let pc := w.readers l
    (readStep w.mem l pc).map fun (mem, pc') =>
      { w with mem, book := w.book.ofRead w.mem l pc }.setReader l pc'
  | .teardown l =>
    if l < w.mem.nextLink && (w.conn.link ≠ some l || w.conn.replaying) then
      (tearStep w.mem l (w.tears l)).map fun (mem, pc) => { w with mem }.setTear l pc
    else none
  | .connect r => if w.mem.link = none && w.conn = .idle then some (w.begin r) else none
  | .conn =>
    (connStep w.mem w.conn).map fun (mem, conn) =>
      { w.spawn with mem, conn, book := w.book.ofConn w.mem w.conn }

/-- The steps, each with its guard and the state it leads to. -/
inductive Steps (w : World) : Act → World → Prop
  | start {c : CallId} {job : Job} {l : LinkId} (hpc : (w.procs c).pc = .idle)
      (hsend : w.sends l job = true) :
      Steps w (.start c job l) (w.begins c |>.setProc c
        { job, link := l, pc := if job.isPublish then .acquire else .acquireId })
  | call {c : CallId} {b : Branch} {m : State} {p : Proc}
      (h : callStep w.mem (w.tears (w.procs c).link = .closed) c (w.procs c) b = some (m, p)) :
      Steps w (.call c b)
        ({ w with mem := m, book := w.book.ofCall w.mem c (w.procs c) }.setProc c p)
  | receive {l : LinkId} {f : Client.Frame} (hpc : w.readers l = .reading) :
      Steps w (.receive l f) (w.setReader l (.checkStop f))
  | read {l : LinkId} {m : State} {pc : ReadPc}
      (h : readStep w.mem l (w.readers l) = some (m, pc)) :
      Steps w (.read l)
        ({ w with mem := m, book := w.book.ofRead w.mem l (w.readers l) }.setReader l pc)
  | teardown {l : LinkId} {m : State} {pc : TearPc} (hlt : l < w.mem.nextLink)
      (hconn : w.conn.link ≠ some l ∨ w.conn.replaying = true)
      (h : tearStep w.mem l (w.tears l) = some (m, pc)) :
      Steps w (.teardown l) ({ w with mem := m }.setTear l pc)
  | connect {r : ConnectResult} (hlink : w.mem.link = none) (hidle : w.conn = .idle) :
      Steps w (.connect r) (w.begin r)
  | conn {m : State} {pc : ConnPc} (h : connStep w.mem w.conn = some (m, pc)) :
      Steps w .conn { w.spawn with mem := m, conn := pc, book := w.book.ofConn w.mem w.conn }

theorem steps {w w' : World} {a : Act} (h : step w a = some w') : Steps w a w' := by
  cases a with
  | start c job l =>
    simp only [step] at h
    split at h
    · rename_i hg
      cases h
      simp only [Bool.and_eq_true, decide_eq_true_eq] at hg
      exact .start hg.1 hg.2
    · cases h
  | call c b =>
    obtain ⟨⟨m, p⟩, hcall, rfl⟩ := Option.map_eq_some_iff.mp h
    exact .call hcall
  | receive l f =>
    simp only [step] at h
    split at h
    · rename_i hpc
      cases h
      exact .receive hpc
    · cases h
  | read l =>
    obtain ⟨⟨m, pc⟩, hread, rfl⟩ := Option.map_eq_some_iff.mp h
    exact .read hread
  | teardown l =>
    simp only [step] at h
    split at h
    · rename_i hg
      obtain ⟨⟨m, pc⟩, htear, rfl⟩ := Option.map_eq_some_iff.mp h
      simp only [Bool.and_eq_true, Bool.or_eq_true, decide_eq_true_eq] at hg
      exact .teardown hg.1 hg.2 htear
    · cases h
  | connect r =>
    simp only [step] at h
    split at h
    · rename_i hg
      cases h
      simp only [Bool.and_eq_true, decide_eq_true_eq] at hg
      exact .connect hg.1 hg.2
    · cases h
  | conn =>
    obtain ⟨⟨m, pc⟩, hconn, rfl⟩ := Option.map_eq_some_iff.mp h
    exact .conn hconn

end GoMqtt.Concurrent
