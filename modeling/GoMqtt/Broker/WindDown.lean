import GoMqtt.Broker.UnderWay

/-! # Traffic winds down

A packet on a link has a weight that is more than the weight of all it can bring
about: what the broker replies to it, or what the client writes when it reads it.
So once nobody starts anything new, a link goes quiet after a number of rounds
that can be read off it, in whatever order the two ends take them. -/
namespace GoMqtt.Broker
open GoMqtt.Protocol GoMqtt.Protocol.Mock GoMqtt.Client GoMqtt.Session GoMqtt.Lib

/-! ## Weights -/

def ackWeight : PacketType → Nat
  | .pubrel | .pubrec => 3
  | _ => 1

def packetWeight : Packet → Nat
  | .publish _ => 5
  | .ack a => ackWeight a.type
  | .subscribe _ | .unsubscribe _ => 3
  | .pingreq => 2
  | .disconnect _ => 1

def frameWeight : Client.Frame → Nat
  | .publish _ | .pubrec _ => 4
  | .pubrel _ | .unexpected _ | .malformed => 2
  | _ => 1

/-- What is on a link in either direction. -/
def System.load (x : System) (l : LinkId) : Nat :=
  ((x.up l).map packetWeight).sum + ((x.down l).map frameWeight).sum

theorem packetWeight_le (p : Packet) : packetWeight p ≤ 5 := by
  unfold packetWeight ackWeight
  repeat' split
  all_goals decide

theorem frameWeight_le (f : Client.Frame) : frameWeight f ≤ 4 := by
  unfold frameWeight
  split <;> decide

theorem sum_le_mul {α : Type} {weight : α → Nat} {k : Nat} (h : ∀ a, weight a ≤ k) (as : List α) :
    (as.map weight).sum ≤ k * as.length := by
  induction as with
  | nil => exact Nat.zero_le _
  | cons a as ih =>
    have ha := h a
    rw [List.map_cons, List.sum_cons, List.length_cons, Nat.mul_succ]
    omega

theorem load_le (x : System) (l : LinkId) :
    x.load l ≤ 5 * (x.up l).length + 4 * (x.down l).length :=
  Nat.add_le_add (sum_le_mul packetWeight_le _) (sum_le_mul frameWeight_le _)

/-! ## What the broker replies -/

theorem ackFrame_weight_le (a : AckPacket) :
    frameWeight (ackFrame a) ≤ if a.type = .pubrec then 4 else 2 := by
  unfold ackFrame
  split
  · split <;> decide
  · cases ht : a.type <;> exact Nat.le_of_ble_eq_true rfl

/-- What replies weigh where the client reads them. -/
def weigh (rs : List MockReply) : Nat := (rs.map fun r => frameWeight r.frame).sum

theorem weigh_single (r : MockReply) : weigh [r] = frameWeight r.frame := by simp [weigh]

theorem ack_weight_le {v : Version} {t : PacketType} (id : UInt16) (ht : t ≠ .pubrec) :
    frameWeight (MockReply.ack ⟨v, t, id, .success, none⟩).frame ≤ 2 := by
  have hle := ackFrame_weight_le (AckPacket.normalised ⟨v, t, id, .success, none⟩)
  rwa [if_neg (by exact ht)] at hle

theorem replyPuback_weight (b : MockBroker) (v : Version) (id : UInt16) :
    weigh (b.replyPuback v id).replies ≤ 4 := by
  have hle := ack_weight_le (v := v) (t := .puback) id (by decide)
  dsimp only [MockBroker.replyPuback]
  split
  · exact Nat.zero_le _
  · split
    · simp only [weigh, List.map_cons, List.map_nil, List.sum_cons, List.sum_nil]
      omega
    · rw [weigh_single]
      omega

theorem replyPubrec_weight (b : MockBroker) (v : Version) (id : UInt16) :
    weigh (b.replyPubrec v id).replies ≤ 4 := by
  dsimp only [MockBroker.replyPubrec]
  split
  · exact Nat.zero_le _
  · rw [weigh_single]
    exact frameWeight_le _

theorem replyPubcomp_weight (b : MockBroker) (v : Version) (id : UInt16) :
    weigh (b.replyPubcomp v id).replies ≤ 2 := by
  dsimp only [MockBroker.replyPubcomp]
  split
  · exact Nat.zero_le _
  · rw [weigh_single]
    exact ack_weight_le id (by decide)

theorem answerPing_weight (b : MockBroker) : weigh b.answerPing.replies ≤ 1 := by
  dsimp only [MockBroker.answerPing]
  split
  · exact Nat.zero_le _
  · split
    · exact Nat.zero_le _
    · exact Nat.le_refl 1

/-- The replies to a packet weigh less than it. -/
theorem respond_weight (b : MockBroker) (v : Version) (p : Packet) :
    weigh (b.respond v (heard p)).replies < packetWeight p := by
  cases p with
  | publish p =>
    refine Nat.lt_succ_of_le ?_
    simp only [heard, MockBroker.respond]
    split
    · exact replyPuback_weight _ v _
    · split
      · exact replyPubrec_weight _ v _
      · exact Nat.zero_le _
  | ack a =>
    cases ht : a.type <;> simp only [heard, packetWeight, ackWeight, ht]
    case pubrec =>
      refine Nat.lt_succ_of_le ?_
      rw [MockBroker.respond, weigh_single]
      exact ack_weight_le _ (by decide)
    case pubrel => exact Nat.lt_succ_of_le (replyPubcomp_weight _ v _)
    all_goals exact Nat.succ_pos _
  | subscribe p =>
    refine Nat.lt_succ_of_le ?_
    rw [heard, MockBroker.respond, weigh_single, MockReply.frame]
    split
    · exact Nat.le_refl 2
    · exact Nat.le_succ 1
  | unsubscribe p =>
    refine Nat.lt_succ_of_le ?_
    rw [heard, MockBroker.respond, weigh_single]
    cases v <;> simp only [MockReply.frame] <;> split
    all_goals first
      | exact Nat.le_refl 2
      | exact Nat.le_succ 1
  | pingreq => exact Nat.lt_succ_of_le (answerPing_weight b)
  | disconnect p => exact Nat.succ_pos _

/-- Serving a packet lightens its link. -/
theorem load_serve {x y : System} {l : LinkId} {io : Bool} (h : x.serve l io = some y) :
    y.load l < x.load l := by
  obtain ⟨-, p, rest, turn, hup, rfl, rfl⟩ := System.serve_some h
  have hreplies := respond_weight x.broker x.client.cfg.protocolVersion p
  have hsent : (((if io then (x.broker.respond x.client.cfg.protocolVersion (heard p)).replies.map
      MockReply.frame else []) : List Client.Frame).map frameWeight).sum ≤
      weigh (x.broker.respond x.client.cfg.protocolVersion (heard p)).replies := by
    cases io with
    | true => simp [weigh, List.map_map, Function.comp_def]
    | false => exact Nat.zero_le _
  simp only [System.load, Function.update_self, hup, List.map_cons, List.sum_cons, List.map_append,
    List.sum_append]
  omega

/-! ## What the client writes when it reads -/

/-- The packets written between two states weigh `k` at most on each link. -/
def Spends (k : Nat) (s t : State) : Prop :=
  ∃ es, t.hist = s.hist ++ es ∧ ∀ l, ((sentOn l es).map packetWeight).sum ≤ k

namespace Spends

variable {k : Nat} {s t u : State} {l : LinkId}

theorem refl (s : State) : Spends 0 s s := ⟨[], by simp, fun _ => Nat.le_refl 0⟩

theorem congr (h : Spends k s t) (hhist : u.hist = t.hist) : Spends k s u := by
  obtain ⟨es, hes, hle⟩ := h
  exact ⟨es, hhist.trans hes, hle⟩

theorem mono (h : Spends k s t) {k' : Nat} (hk : k ≤ k') : Spends k' s t := by
  obtain ⟨es, hes, hle⟩ := h
  exact ⟨es, hes, fun l => Nat.le_trans (hle l) hk⟩

theorem append (h : Spends k s t) {es : List Event} {j : Nat} (hhist : u.hist = t.hist ++ es)
    (hle : ∀ l, ((sentOn l es).map packetWeight).sum ≤ j) : Spends (k + j) s u := by
  obtain ⟨es', hes', hle'⟩ := h
  refine ⟨es' ++ es, by rw [hhist, hes', List.append_assoc], fun l => ?_⟩
  rw [sentOn_append, List.map_append, List.sum_append]
  exact Nat.add_le_add (hle' l) (hle l)

theorem log (h : Spends k s t) {e : Event} (he : ∀ l p, e ≠ .wrote l p) : Spends k s (t.log e) := by
  have hlog : (t.log e).hist = t.hist ++ [e] := rfl
  refine h.append (j := 0) hlog fun l => ?_
  have hnone : sentOn l [e] = [] := by
    rw [List.eq_nil_iff_forall_not_mem]
    intro p hp
    exact he l p (List.mem_singleton.mp (mem_sentOn.mp hp)).symm
  rw [hnone]
  exact Nat.le_refl 0

theorem teardownLink (h : Spends k s t) (l : LinkId) (g : Bool) :
    Spends k s (t.teardownLink l g) := by
  have hdown : Spends k s ((t.setLink l fun k => { k with stop := true }).log (.tornDown l)) := by
    refine log ?_ (by simp)
    exact h.congr rfl
  unfold State.teardownLink
  split
  · exact h
  · dsimp only
    split
    · exact hdown
    · split <;> exact hdown.congr rfl

theorem writeFrame (h : Spends k s t) (l : LinkId) (p : Packet) (io : Bool) :
    Spends (k + packetWeight p) s (t.writeFrame l p io).2 := by
  rcases writeFrame_outcome t l p io with ⟨-, e, hr⟩ | ⟨-, hr⟩ | ⟨-, hr⟩ <;> rw [hr]
  · exact h.mono (Nat.le_add_right _ _)
  · exact (h.teardownLink l _).mono (Nat.le_add_right _ _)
  · refine h.append rfl fun l' => ?_
    by_cases hll : l = l'
    · simp [sentOn, hll]
    · simp [sentOn, hll]

theorem sendAckReason (h : Spends k s t) (l : LinkId) (ty : PacketType) (id : UInt16)
    (reason : ReasonCode) (io : Bool) :
    Spends (k + ackWeight ty) s (t.sendAckReason l ty id reason io) := h.writeFrame l _ io

theorem protocolError (h : Spends k s t) (l : LinkId) (reason : ReasonCode) (io : Bool) :
    Spends (k + 1) s (t.protocolError l reason io) := by
  unfold State.protocolError
  dsimp only
  split
  · exact (h.writeFrame l _ io).teardownLink l _
  · exact (h.teardownLink l _).mono (Nat.le_succ k)

theorem signalWaiter (h : Spends k s t) (id : UInt16) (got : AckClass) (res : AckResult) :
    Spends k s (t.signalWaiter id got res) := by
  unfold State.signalWaiter
  split
  · split <;> exact h.congr rfl
  · exact h

theorem dispatch (h : Spends k s t) (l : LinkId) (p : PublishPacket) (torn : Bool) :
    Spends k s (t.dispatch l p torn) := by
  have hlog : Spends k s (t.log (.dispatched l p (State.handlersFor t.subs.subs p) torn)) :=
    h.log (by simp)
  unfold State.dispatch
  dsimp only
  split
  · exact hlog.teardownLink l _
  · exact hlog

theorem handlePublish (h : Spends 0 s t) (l : LinkId) (p : PublishPacket) (torn io : Bool) :
    Spends 3 s (t.handlePublish l p torn io) := by
  have hres : Spends 0 s (t.resolveTopicAlias l p).2 := by
    rcases resolveTopicAlias_cases t l p with hr | ⟨f, -, -, hr⟩ <;> rw [hr]
    · exact h
    · exact h.congr rfl
  unfold State.handlePublish
  split <;> rename_i hr <;> rw [hr] at hres
  · exact (hres.protocolError l _ io).mono (by decide)
  · dsimp only
    split
    · exact (hres.dispatch l _ torn).mono (by decide)
    · split
      · split
        · exact (hres.dispatch l _ torn).mono (by decide)
        · exact ((hres.dispatch l _ torn).sendAckReason l .puback _ _ io).mono (by decide)
      · unfold State.handleInboundQoS2
        split
        · exact hres.sendAckReason l .pubrec _ _ io
        · dsimp only
          split
          · exact (hres.dispatch l _ torn).mono (by decide)
          · refine sendAckReason (k := 0) (log ?_ (by simp)) l .pubrec _ _ io
            exact (hres.dispatch l _ torn).congr rfl

theorem release (h : Spends k s t) (l : LinkId) (id : UInt16) (kind : StoredKind)
    (res : AckResult) : Spends k s (t.release l id kind res) := by
  refine signalWaiter ?_ id .publish res
  exact h.congr rfl

theorem completeOutbound (h : Spends k s t) (l : LinkId) (id : UInt16) (kind : StoredKind)
    (res : AckResult) : Spends k s (t.completeOutbound l id kind res) := by
  unfold State.completeOutbound
  split
  · exact h.release l id kind res
  · exact h

theorem handlePubrec (h : Spends 0 s t) (l : LinkId) (a : InboundAck) (reason : Bytes) (io : Bool) :
    Spends 3 s (t.handlePubrec l a reason io) := by
  unfold State.handlePubrec
  dsimp only
  split
  · split
    · exact (h.release l _ _ _).mono (by decide)
    · refine sendAckReason (k := 0) ?_ l .pubrel _ _ io
      exact h.congr rfl
  · split <;> exact h.sendAckReason l .pubrel _ _ io

theorem handleInboundPubrel (h : Spends 0 s t) (l : LinkId) (a : InboundAck) (io : Bool) :
    Spends 1 s (t.handleInboundPubrel l a io) := by
  unfold State.handleInboundPubrel
  split
  · exact h.sendAckReason l .pubcomp _ _ io
  · refine sendAckReason (k := 0) ?_ l .pubcomp _ _ io
    exact h.congr rfl

/-- What the client writes when it handles a frame weighs less than the frame. -/
theorem handleFrame (h : Spends 0 s t) (l : LinkId) (f : Client.Frame) (torn io : Bool) :
    Spends (frameWeight f - 1) s (t.handleFrame l f torn io) := by
  cases f with
  | publish p => exact h.handlePublish l p.pkt torn io
  | puback a => exact h.completeOutbound l _ _ _
  | pubrec a => exact h.handlePubrec l a _ io
  | pubrel a => exact h.handleInboundPubrel l a io
  | pubcomp a => exact h.completeOutbound l _ _ _
  | suback p => exact h.signalWaiter _ _ _
  | unsuback p => exact h.signalWaiter _ _ _
  | pingresp => exact h.congr rfl
  | disconnect => exact h.teardownLink l _
  | unexpected ty => exact h.protocolError l _ io
  | malformed => exact h.protocolError l _ io

end Spends

/-- Reading a frame lightens the live link. -/
theorem load_read {x y : System} {l : LinkId} {torn io : Bool} (hl : x.client.link = some l)
    (h : x.read torn io = some y) : y.load l < x.load l := by
  obtain ⟨l', f, rest, hl', hdown, rfl⟩ := System.read_some h
  obtain rfl : l = l' := by simpa [hl] using hl'
  have hspends : Spends (frameWeight f - 1) x.client (x.client.step (.frame f torn io)) := by
    have hstep : x.client.step (.frame f torn io) =
        (x.client.log (.received l f)).handleFrame l f torn io := by
      simp only [State.step, State.onLink, hl]
    rw [hstep]
    exact ((Spends.refl _).log (by simp)).handleFrame l f torn io
  obtain ⟨es, hes, hle⟩ := hspends
  have hpos : 0 < frameWeight f := by
    unfold frameWeight
    split <;> decide
  have hles := hle l
  simp only [System.load, System.carry, System.taken, hes, List.drop_left, Function.update_self,
    hdown, List.map_cons, List.sum_cons, List.map_append, List.sum_append]
  omega

/-! ## The link goes quiet -/

/-- The two ends of a link go on, and nobody starts anything. -/
def Traffic (l : LinkId) (x : System) : Act → Prop
  | .serve l' io => l' = l ∧ io = true
  | .read _ _ => x.client.link = some l
  | _ => False

instance (l : LinkId) (x : System) : (a : Act) → Decidable (Traffic l x a)
  | .serve l' io => inferInstanceAs (Decidable (l' = l ∧ io = true))
  | .read _ _ => inferInstanceAs (Decidable (x.client.link = some l))
  | .client _ | .script _ | .inject _ _ | .cut _ => .isFalse id

theorem Traffic.load_lt {l : LinkId} {x y : System} {act : Act} (hok : Traffic l x act)
    (h : x.step act = some y) : y.load l < x.load l := by
  cases act with
  | serve l' io =>
    obtain ⟨rfl, -⟩ := hok
    exact load_serve h
  | read torn io => exact load_read hok h
  | _ => cases hok

theorem Traffic.careful {l : LinkId} {x : System} {act : Act} (h : Traffic l x act) :
    Careful true x act := by
  cases act with
  | serve l' io => exact fun _ => h.2
  | read torn io => trivial
  | _ => cases h

/-- A quiet link has nothing to go on with. -/
theorem traffic_stuck {x : System} {l : LinkId} (hl : x.client.link = some l) (hup : x.up l = [])
    (hdown : x.down l = []) (act : Act) (h : Traffic l x act) : x.step act = none := by
  cases act with
  | serve l' io =>
    obtain ⟨rfl, -⟩ := h
    simp [System.step, System.serve, hup]
  | read torn io => simp [System.step, System.read, hl, hdown]
  | _ => cases h

/-- What is left to do after the broker has served the first of two messages. -/
def remaining : List Act :=
  [.serve 0 true, .read false true, .read false true, .serve 0 true, .read false true]

end GoMqtt.Broker
