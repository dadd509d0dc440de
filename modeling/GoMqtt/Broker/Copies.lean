import GoMqtt.Broker.Delivery
import GoMqtt.Client.Copies
import GoMqtt.Client.Speech
import GoMqtt.Lib.Channels

/-! # Every record has its call

A PUBLISH that the client has written is on its link until the broker serves it, and
is recorded then; a link that is cut keeps what is on it for good. So the broker has
no record of a PUBLISH that was not written, and no more records than it was written
times. With what the client writes for its calls this bounds the first copies of a
message by the calls that asked for it. -/
namespace GoMqtt.Broker
open GoMqtt.Protocol GoMqtt.Session GoMqtt.Client GoMqtt.Lib

/-- The PUBLISH is recorded as `r`. -/
def copyOf (r : MockPublished) (p : PublishPacket) : Bool := recordOf p.normalised = r

/-- The packet is such a PUBLISH. -/
def carriesCopy (r : MockPublished) : Packet → Bool
  | .publish p => copyOf r p
  | _ => false

/-- What is written is on the links it was written to. -/
theorem pending_sentOn {n : Nat} {es : List Event} (r : MockPublished)
    (h : ∀ l p, .wrote l p ∈ es → l < n) :
    pending (carriesCopy r) n (fun l => sentOn l es) = es.countP (Event.writes (copyOf r)) := by
  induction es with
  | nil => exact pending_nil
  | cons e es ih =>
    have hrest := ih fun l p hm => h l p (List.mem_cons_of_mem _ hm)
    rw [List.countP_cons, ← hrest]
    by_cases he : ∃ l p, e = .wrote l p
    · obtain ⟨l, p, rfl⟩ := he
      have hsplit : (fun l' => sentOn l' (.wrote l p :: es)) =
          fun l' => (if l = l' then [p] else []) ++ sentOn l' es := by
        funext l'
        by_cases hl : l = l' <;> simp [sentOn, hl]
      rw [hsplit, pending_append, pending_single (h l p List.mem_cons_self), Nat.add_comm]
      congr 1
      cases p <;> rfl
    · have hsame : ∀ l', sentOn l' (e :: es) = sentOn l' es := by
        intro l'
        cases e with
        | wrote l p => exact absurd ⟨l, p, rfl⟩ he
        | _ => rfl
      have hnone : Event.writes (copyOf r) e = false := by
        cases e with
        | wrote l p => exact absurd ⟨l, p, rfl⟩ he
        | _ => rfl
      simp only [hsame, hnone, Bool.false_eq_true, if_false, Nat.add_zero]

/-- A PUBLISH that was written is recorded or still on a link. -/
structure Conserved (x : System) : Prop where
  copied : Copied x.client
  fresh : ∀ l, x.client.nextLink ≤ l → x.up l = []
  balance : ∀ r n, x.client.nextLink ≤ n →
    x.broker.published.count r + pending (carriesCopy r) n x.up =
      x.client.hist.countP (Event.writes (copyOf r))

theorem nextLink_le {s : State} (h : Sane s) (a : Action) : s.nextLink ≤ (s.step a).nextLink := by
  by_cases ha : a.connects = true
  · cases a with
    | connect hs n =>
      rcases connect_traffic hs n h.toGenuine.sendable with heq | ⟨result, -, hre⟩
      · rw [heq]
      · rw [hre.next]
        exact Nat.le_succ _
    | _ => cases ha
  · exact ((step_links (s := s) (by simpa using ha)).2.1).ge

/-- The client does something; its links may have lost frames meanwhile. -/
theorem Conserved.client {x : System} (h : Conserved x) (x' : System)
    (hclient : x'.client = x.client) (hup : x'.up = x.up) (hbroker : x'.broker = x.broker)
    (a : Action) :
    Conserved (x'.carry (x.client.step a)) := by
  obtain ⟨-, es, he, hes⟩ := step_speaks h.copied.wired h.copied.toGenuine a
  have hle := nextLink_le h.copied.toSane a
  have hups : (x'.carry (x.client.step a)).up = fun l => x.up l ++ sentOn l es := by
    simp only [System.carry, hclient, hup, he, List.drop_left]
  refine ⟨h.copied.step a, fun l hl => ?_, fun r n hn => ?_⟩
  · replace hl : (x.client.step a).nextLink ≤ l := hl
    rw [hups]
    dsimp only
    rw [h.fresh l (hle.trans hl), List.nil_append, List.eq_nil_iff_forall_not_mem]
    intro p hp
    exact absurd (hes l p (mem_sentOn.mp hp)).1 (Nat.not_lt.mpr hl)
  · replace hn : (x.client.step a).nextLink ≤ n := hn
    have hnew := pending_sentOn r fun l p hm => Nat.lt_of_lt_of_le (hes l p hm).1 hn
    have hold := h.balance r n (hle.trans hn)
    show x'.broker.published.count r + pending (carriesCopy r) n (x'.carry (x.client.step a)).up =
      (x.client.step a).hist.countP _
    rw [hups, pending_append, hnew, hbroker, he, List.countP_append, ← hold, Nat.add_assoc]

/-- The broker records what it takes off a link. -/
theorem Conserved.serve {x y : System} {l : LinkId} {io : Bool} (h : Conserved x)
    (hy : x.serve l io = some y) : Conserved y := by
  obtain ⟨-, p, rest, turn, hu, hturn, rfl⟩ := System.serve_some hy
  have hl : l < x.client.nextLink := by
    by_contra hge
    rw [h.fresh l (Nat.le_of_not_lt hge)] at hu
    cases hu
  refine ⟨h.copied, fun l' hl' => ?_, fun r n hn => ?_⟩
  · have hne : l' ≠ l := by
      intro heq
      subst heq
      exact absurd hl (Nat.not_lt.mpr hl')
    simpa [hne] using h.fresh l' hl'
  · have hold := h.balance r n hn
    rw [pending_take (Nat.lt_of_lt_of_le hl hn) hu] at hold
    have hrecord : turn.broker.published.count r =
        x.broker.published.count r + if carriesCopy r p then 1 else 0 := by
      rw [hturn, published_respond, List.count_append]
      congr 1
      cases p with
      | publish p => simp [heard, carriesCopy, copyOf, List.count_singleton]
      | ack a => cases hty : a.type <;> simp [heard, hty, carriesCopy]
      | _ => rfl
    show turn.broker.published.count r + pending (carriesCopy r) n (Function.update x.up l rest) = _
    rw [hrecord, ← hold]
    omega

theorem Conserved.step {x y : System} {act : Act} (h : Conserved x) (hy : x.step act = some y) :
    Conserved y := by
  cases act with
  | client a =>
    obtain ⟨-, rfl⟩ := System.client_some hy
    exact h.client x rfl rfl rfl a
  | read torn io =>
    obtain ⟨l, f, rest, -, -, rfl⟩ := System.read_some hy
    exact h.client (x.taken l rest) rfl rfl rfl _
  | serve l io => exact h.serve hy
  | script c =>
    cases hy
    exact ⟨h.copied, h.fresh, fun r n hn => by rw [published_script]; exact h.balance r n hn⟩
  | inject l f =>
    obtain rfl := System.inject_some hy
    exact ⟨h.copied, h.fresh, h.balance⟩
  | cut l =>
    cases hy
    exact ⟨h.copied, h.fresh, h.balance⟩

variable {cfg : TCPConfig} {as : List Act} {x : System}

theorem Runs.conserved (h : Runs anyStep cfg as x) : Conserved x := by
  refine Run.invariant h ?_ fun y act z hy _ hz => hy.step hz
  exact ⟨copied_init cfg, fun _ _ => rfl, fun r n _ => (Nat.zero_add _).trans pending_nil⟩

theorem Runs.cfg_eq (h : Runs anyStep cfg as x) : x.client.cfg = cfg := by
  refine Run.invariant (P := fun x => x.client.cfg = cfg) h rfl fun y act z hy _ hz => ?_
  rcases System.step_client hz with heq | ⟨a, heq, -⟩ <;> rw [heq]
  · exact hy
  · rw [cfg_step]
    exact hy

/-- What a Publish asks the broker to record. -/
def asked (cfg : TCPConfig) (req : PublishRequest) (dup : Bool) : MockPublished :=
  ⟨req.topic, req.payload, req.qos, req.retain, dup,
    State.buildPublishProps cfg.protocolVersion req⟩

/-- A call asks for just this record. -/
def asksFor (cfg : TCPConfig) (r : MockPublished) : Event → Bool
  | .invoked _ req => asked cfg req r.dup = r
  | _ => false

theorem recordOf_publishPacket {s : State} (hcfg : s.cfg = cfg) (req : PublishRequest) (id : UInt16)
    (dup : Bool) :
    recordOf ({ s.publishPacket req with packetID := id, dup } : PublishPacket).normalised =
      asked cfg req dup := by
  simp only [recordOf, PublishPacket.normalised, State.publishPacket, asked, hcfg,
    carries_buildPublishProps]

theorem firstKind_copyOf {r : MockPublished} (hqos : r.qos ≠ 0) (hdup : r.dup = false) :
    FirstKind (copyOf r) := by
  refine ⟨fun p hp => ?_, fun p hp => ?_, fun p id => rfl⟩
  · have heq : recordOf p.normalised = r := of_decide_eq_true hp
    rw [← heq] at hqos
    exact hqos
  · have heq : recordOf p.normalised = r := of_decide_eq_true hp
    rw [← heq] at hdup
    exact hdup

/-- Whatever is scripted, injected, lost and sent again: above QoS 0 every record at the
broker is of a message that some call asked for, and of those without DUP there are no more
than calls that asked for it. -/
theorem records_of_calls (h : Runs anyStep cfg as x) {r : MockPublished} (hqos : r.qos ≠ 0) :
    (r ∈ x.broker.published →
      ∃ c req, .invoked c req ∈ x.client.hist ∧ r = asked cfg req r.dup) ∧
    (r.dup = false →
      x.broker.published.count r ≤ x.client.hist.countP (asksFor cfg r)) := by
  have hcons := h.conserved
  have hbalance := hcons.balance r _ le_rfl
  constructor
  · intro hr
    have hwritten : 0 < x.client.hist.countP (Event.writes (copyOf r)) := by
      have hpos := List.count_pos_iff.mpr hr
      omega
    obtain ⟨e, he, hcopy⟩ := List.countP_pos_iff.mp hwritten
    obtain ⟨l, p, rfl, hp⟩ : ∃ l p, e = .wrote l (.publish p) ∧ copyOf r p = true := by
      cases e with
      | wrote l p =>
        cases p with
        | publish p => exact ⟨l, p, rfl, hcopy⟩
        | _ => cases hcopy
      | _ => cases hcopy
    have hrecord : recordOf p.normalised = r := of_decide_eq_true hp
    obtain ⟨c, l', q, hsent, hpq⟩ := hcons.copied.copies l p he (by rw [← hrecord] at hqos; exact hqos)
    obtain ⟨req, hinv, -, hq⟩ := hcons.copied.sent c l' q hsent
    refine ⟨c, req, hinv, ?_⟩
    rw [← recordOf_publishPacket h.cfg_eq req q.packetID, ← hrecord, hpq, hq]
    rfl
  · intro hdup
    have hasks : Event.asks x.client (copyOf r) = asksFor cfg r := by
      funext e
      cases e with
      | invoked c req =>
        have heq := recordOf_publishPacket h.cfg_eq req 0 false
        rw [← hdup] at heq
        simp only [Event.asks, asksFor, copyOf, ← heq]
        rw [hdup]
        rfl
      | _ => rfl
    have hle := hcons.copied.writes_le_asks (firstKind_copyOf hqos hdup)
    rw [hasks] at hle
    omega

/-- The acknowledgement gets lost with its link, and the message is sent again. -/
def recovered : List Act :=
  [.client (.connect (accept (receiveMax 10) true) 2), .client (.publish 0 (message 1) true),
    .serve 0 false, .client .readError, .client (.connect (accept (receiveMax 10) true) 2),
    .serve 1 true]

theorem records_of_calls_recovered : ∃ x, Runs anyStep durable recovered x ∧
    x.broker.published = [asked durable (message 1) false, asked durable (message 1) true] ∧
    (∃ c req, .invoked c req ∈ x.client.hist ∧
      asked durable (message 1) true = asked durable req true) ∧
    1 ≤ x.client.hist.countP (asksFor durable (asked durable (message 1) false)) := by
  have hview : (execOk System.step anyStep (System.init durable) recovered).map
      (fun x => x.broker.published) =
      some [asked durable (message 1) false, asked durable (message 1) true] := by decide +kernel
  obtain ⟨x, hx, hview⟩ := Option.map_eq_some_iff.mp hview
  obtain ⟨hcall, -⟩ := records_of_calls (Run.of_execOk hx)
    (by decide : (asked durable (message 1) true).qos ≠ 0)
  obtain ⟨-, hfirst⟩ := records_of_calls (Run.of_execOk hx)
    (by decide : (asked durable (message 1) false).qos ≠ 0)
  replace hfirst := hfirst rfl
  rw [hview] at hcall hfirst
  exact ⟨x, Run.of_execOk hx, hview, hcall (by simp), hfirst⟩

end GoMqtt.Broker
