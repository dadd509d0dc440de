import GoMqtt.Client.FlowControl

/-! # Who owns the identifiers and the permits of the client

The accounts of the abstract session, read off the client: an identifier is in
use for exactly one stored exchange or one pending request, and the free permits
and the stored exchanges add up to what the last connect allowed. -/
namespace GoMqtt.Client
open GoMqtt.Protocol GoMqtt.Session GoMqtt.Lib

/-! ## Identifiers -/

/-- The identifier belongs to a stored outbound exchange. -/
def InFlight (s : State) (id : UInt16) : Prop :=
  ∃ m ∈ s.store.all, m.kind.outbound = true ∧ m.id = id

/-- The identifier belongs to a request of the current allocator generation that
has not returned. -/
def Requested (s : State) (id : UInt16) : Prop :=
  ∃ c, (s.calls c).held = some (id, s.ids.generation)

theorem inFlight_view {s : State} {id : UInt16} :
    InFlight s id ↔ id ∈ (view s).out.map StoredMessage.id := by
  show _ ↔ id ∈ ((s.store.all.filter fun m => m.kind.outbound).map
    fun m => { m with seq := 0 }).map StoredMessage.id
  rw [List.map_map]
  constructor
  · rintro ⟨m, hm, hk, rfl⟩
    exact List.mem_map.mpr ⟨m, List.mem_filter.mpr ⟨hm, hk⟩, rfl⟩
  · intro h
    obtain ⟨m, hm, rfl⟩ := List.mem_map.mp h
    obtain ⟨hm, hk⟩ := List.mem_filter.mp hm
    exact ⟨m, hm, hk, rfl⟩

/-- Two stored exchanges have different identifiers. -/
theorem stored_injective {s : State} (h : (view s).Inv) {m m' : StoredMessage}
    (hm : m ∈ s.store.all) (hk : m.kind.outbound = true) (hm' : m' ∈ s.store.all)
    (hk' : m'.kind.outbound = true) (hid : m.id = m'.id) : m = m' := by
  have hnodup : ((s.store.all.filter fun m => m.kind.outbound).map StoredMessage.id).Nodup := by
    have hn := h.nodup
    change (((s.store.all.filter fun m => m.kind.outbound).map
      fun m => { m with seq := 0 }).map StoredMessage.id).Nodup at hn
    rwa [List.map_map] at hn
  exact List.inj_on_of_nodup_map hnodup (List.mem_filter.mpr ⟨hm, hk⟩)
    (List.mem_filter.mpr ⟨hm', hk'⟩) hid

/-- In every state reached the identifiers in use are those of the stored
exchanges and those of the pending requests, no identifier being both and none
belonging to two of either; so a new identifier is never one of an exchange in
flight. -/
theorem identifiers_owned {cfg : TCPConfig} {as : List Action} {s : State}
    (hrun : Reach anyStep cfg as s) :
    (∀ id, s.ids.inUse id = true ↔ InFlight s id ∨ Requested s id) ∧
    (∀ id, ¬(InFlight s id ∧ Requested s id)) ∧
    (∀ m ∈ s.store.all, ∀ m' ∈ s.store.all, m.kind.outbound = true → m'.kind.outbound = true →
      m.id = m'.id → m = m') ∧
    (∀ c c' id, (s.calls c).held = some (id, s.ids.generation) →
      (s.calls c').held = some (id, s.ids.generation) → c = c') ∧
    ∀ id gen ids, s.ids.acquire = (some (id, gen), ids) → ¬InFlight s id ∧ ¬Requested s id := by
  obtain ⟨-, hi⟩ := hrun.wired
  have hused : ∀ id, s.ids.inUse id = true ↔ InFlight s id ∨ Requested s id := by
    intro id
    rw [inFlight_view]
    constructor
    · exact hi.owned id
    · rintro (hid | ⟨c, hc⟩)
      · obtain ⟨m, hm, rfl⟩ := List.mem_map.mp hid
        exact hi.used_out m hm
      · exact (hi.used_held c id hc).1
  refine ⟨hused, ?_, ?_, fun c c' id => hi.held_once c c' id, ?_⟩
  · rintro id ⟨hid, c, hc⟩
    exact (hi.used_held c id hc).2 (inFlight_view.mp hid)
  · exact fun m hm m' hm' hk hk' => stored_injective hi hm hk hm' hk'
  · intro id gen ids hacq
    obtain ⟨-, -, -, hfree, -⟩ := IdAllocator.acquire_some hacq
    rw [← not_or, ← hused id, hfree]
    simp

theorem identifiers_owned_busy :
    let s := runActions durable [.connect (accept (receiveMax 5) false) 9,
      .unsubscribe 0 [0x74] true, .publish 1 (message 1) true]
    s.ids.inUse 2 = true ∧ (InFlight s 2 ∨ Requested s 2) :=
  have hrun : Reach anyStep durable [.connect (accept (receiveMax 5) false) 9,
      .unsubscribe 0 [0x74] true, .publish 1 (message 1) true] _ :=
    Reach.of_okAlong (by decide +kernel)
  have hused : (runActions durable [.connect (accept (receiveMax 5) false) 9,
      .unsubscribe 0 [0x74] true, .publish 1 (message 1) true]).ids.inUse 2 = true := by
    decide +kernel
  ⟨hused, ((identifiers_owned hrun).1 2).mp hused⟩

/-! ## Permits -/

/-- The action is a connect that applies a session. -/
def applies (s : State) : Action → Bool
  | .connect h _ =>
    match s.link, State.negotiate s.cfg h with
    | none, .ok _ => true
    | _, _ => false
  | _ => false

/-- What the session applied by a connect allows: its size, or what it resumed. -/
def allowance (s : State) (result : ConnectResult) : Int :=
  max (quotaSize s.cfg result)
    (if discards s.cfg result then 0 else State.inflightPermits s.store)

/-- A step that applies no session leaves the ceiling. -/
theorem ceiling_step {s : State} {a : Action} (h : applies s a = false) :
    Session.ceiling (s.step a).cfg (s.step a).hist = Session.ceiling s.cfg s.hist := by
  by_cases hc : a.connects = true
  · cases a with
    | connect hd n =>
      have hstay : s.step (.connect hd n) = s := by
        show s.connect hd n = s
        unfold State.connect
        split
        · rfl
        · rfl
        · rename_i hl hneg
          simp [applies, hl, hneg] at h
      rw [hstay]
    | _ => cases hc
  · obtain ⟨⟨es, he, hes⟩, -, -, hcfg⟩ := Logs.any_step (s := s) (a := a) (by simpa using hc)
    rw [hcfg, he]
    refine Session.ceiling_append fun e hm => neutral_of_origin ?_
    intro horigin
    simpa [horigin] using hes e hm

/-- A connect that applies a session sets the ceiling. -/
theorem ceiling_establish (s : State) (result : ConnectResult) (n : Nat) :
    Session.ceiling s.cfg (s.establish result n).hist = allowance s result := by
  obtain ⟨es, es', k, hhist, hes, hes', hzero, hcount⟩ := hist_replayed s result n
  have hk : max (quotaSize s.cfg result) (k : Int) = allowance s result := by
    unfold allowance
    cases hd : discards s.cfg result with
    | true => simp [hzero hd]
    | false => simp [hcount hd]
  have hneutral : ∀ e ∈ es', Session.Neutral e := fun e hm =>
    neutral_of_origin (by rw [hes' e hm]; simp)
  rw [establish_eq]
  generalize replayed s result n = t at hhist ⊢
  split
  · rw [hhist, Session.ceiling_append hneutral, Session.ceiling_applied, hk]
  · show Session.ceiling s.cfg (t.hist ++ [Event.connected s.nextLink result]) = _
    rw [Session.ceiling_append (by simp [Session.Neutral]), hhist,
      Session.ceiling_append hneutral, Session.ceiling_applied, hk]

/-- From the connect that applies a session to the next one that does, the free
permits and the stored exchanges add up to the same number in every state. -/
theorem permits_conserved {cfg : TCPConfig} {as bs : List Action} {s t : State}
    {h : State.Handshake} {n : Nat} {result : ConnectResult} (hrun : Reach anyStep cfg as s)
    (hlink : s.link = none) (hok : State.negotiate s.cfg h = .ok result)
    (hrest : Run (fun s a => some (s.step a)) (fun s a => applies s a = false)
      (s.step (.connect h n)) bs t) :
    t.quota.avail + State.inflightPermits t.store = allowance s result := by
  have hconn : Reach anyStep cfg (as ++ [Action.connect h n]) (s.step (.connect h n)) :=
    hrun.snoc trivial rfl
  have hreach : Reach anyStep cfg (as ++ [Action.connect h n] ++ bs) t := hconn.append hrest.any
  have hceil : Session.ceiling t.cfg t.hist = allowance s result := by
    refine Run.invariant (P := fun t => Session.ceiling t.cfg t.hist = allowance s result)
      hrest ?_ ?_
    · rw [State.step_connect n hlink hok, cfg_establish]
      exact ceiling_establish s result n
    · rintro t a _ heq ha ⟨⟩
      exact (ceiling_step ha).trans heq
  rw [ledger_state hreach.wired.2, hceil]

/-- A publish is acknowledged, another one times out, and the connection is lost. -/
theorem permits_conserved_timeout :
    let s := newTCPClient durable
    let t := [.publish 0 (message 1) true, .publish 1 (message 1) true,
      .frame (.puback { packetID := 1 }) false true, .giveUp (.api 1) true, .readError].foldl
        State.step (s.step (.connect (accept (receiveMax 5) false) 9))
    t.quota.avail + State.inflightPermits t.store = allowance s (negotiated 5 false) :=
  permits_conserved (n := 9) (h := accept (receiveMax 5) false) Run.nil rfl (by decide +kernel)
    (Run.of_okAlong (by decide +kernel))

end GoMqtt.Client
