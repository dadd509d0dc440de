import GoMqtt.Client.Accounting
import GoMqtt.Client.Run

/-! # The abstract session read off the client

`view` maps a state of the client to the abstract session. `Linked` and `Waits`
collect what the steps need to know about links, calls and waiters, and the
lemmas here say how the view moves under the elementary operations, teardown
and writing included. -/
namespace GoMqtt.Client
open GoMqtt.Protocol GoMqtt.Session

/-- The stored outbound exchanges in replay order, without their stamps. -/
def outbound (store : MemStore) : List StoredMessage :=
  (store.all.filter fun m => m.kind.outbound).map fun m => { m with seq := 0 }

/-- The events of the session, as opposed to those of the transport below it. -/
def Event.session : Event → Bool
  | .wrote .. | .tornDown .. | .replayFailed .. => false
  | _ => true

/-- Who waits for the exchange under `id`. -/
def publisher (waiters : AList fun _ : UInt16 => Waiter) (id : UInt16) : Option CallId :=
  (waiters.lookup id).bind fun w => if w.want = .publish then some w.ch else none

def view (s : State) : Session where
  cfg := s.cfg
  live := s.link.isSome
  out := outbound s.store
  inbound id := s.store.contains id .inboundID
  used := s.ids.inUse
  gen := s.ids.gen
  permits := s.quota.avail
  subs := s.subs
  waiting := publisher s.waiters
  inbox c := match s.calls c with
    | .publishing _ => s.inbox c
    | _ => none
  calls := s.calls
  hist := s.hist.filter Event.session

/-! ## The store seen as a list of exchanges -/

theorem inflightPermits_eq (store : MemStore) :
    State.inflightPermits store = (outbound store).length := by
  simp [State.inflightPermits, outbound]

theorem outbound_save {store : MemStore} {m : StoredMessage} (hk : m.kind.outbound = true)
    (h : store.contains m.id m.kind = false) :
    outbound (store.save m) = outbound store ++ [{ m with seq := 0 }] := by
  unfold outbound
  rw [MemStore.all_save_of_absent h, List.filter_append, List.map_append]
  simp [hk]

theorem outbound_record {store : MemStore} {id : UInt16} (h : store.contains id .inboundID = false) :
    outbound (store.save { id, kind := .inboundID }) = outbound store := by
  unfold outbound
  rw [MemStore.all_save_of_absent h, List.filter_append, List.map_append]
  simp [StoredKind.outbound]

theorem outbound_delete (store : MemStore) (id : UInt16) (kind : StoredKind) :
    outbound (store.delete id kind) = Session.without (outbound store) id kind := by
  unfold outbound Session.without
  rw [MemStore.all_delete, List.filter_map, List.filter_filter, List.filter_filter]
  congr 1
  refine List.filter_congr fun m _ => ?_
  exact Bool.and_comm _ _

theorem without_inboundID (store : MemStore) (id : UInt16) :
    Session.without (outbound store) id .inboundID = outbound store := by
  refine List.filter_eq_self.mpr fun m hm => ?_
  obtain ⟨x, hx, rfl⟩ := List.mem_map.mp hm
  have hk : x.kind.outbound = true := (List.mem_filter.mp hx).2
  have hne : x.kind ≠ .inboundID := by intro h; rw [h] at hk; cases hk
  simp [hne]

/-- The view has an exchange exactly where the store has an entry. -/
theorem has_iff {s : State} {id : UInt16} {kind : StoredKind} (hk : kind.outbound = true) :
    (view s).Has id kind ↔ s.store.contains id kind = true := by
  constructor
  · rintro ⟨m, hm, rfl, rfl⟩
    obtain ⟨x, hx, rfl⟩ := List.mem_map.mp hm
    exact MemStore.contains_iff.mpr ⟨x, MemStore.mem_all.mp (List.mem_filter.mp hx).1⟩
  · intro h
    obtain ⟨x, hx⟩ := MemStore.contains_iff.mp h
    obtain ⟨hid, hkind⟩ := MemStore.key_of_lookup hx
    subst hid hkind
    exact ⟨_, List.mem_map_of_mem (List.mem_filter.mpr ⟨MemStore.mem_all.mpr hx, hk⟩), rfl, rfl⟩

/-- A free identifier has no outbound entry. -/
theorem absent_of_free {s : State} (h : (view s).Inv) {id : UInt16} (hid : s.ids.inUse id = false)
    {kind : StoredKind} (hk : kind.outbound = true) : s.store.contains id kind = false := by
  by_contra hc
  obtain ⟨m, hm, rfl, -⟩ := (has_iff hk).mpr (by simpa using hc)
  exact h.not_out hid (List.mem_map_of_mem hm)

/-! ## How the view moves under the elementary operations -/

@[simp] theorem view_setLink (s : State) (l : LinkId) (f : Link → Link) :
    view (s.setLink l f) = view s := rfl

theorem view_log {s : State} {e : Event} (he : e.session = true) :
    view (s.log e) = (view s).notes [e] := by
  simp [view, State.log, Session.notes, he]

theorem view_log_transport {s : State} {e : Event} (he : e.session = false) :
    view (s.log e) = view s := by
  simp [view, State.log, he]

theorem view_setCall {s : State} {c : CallId} {k : Call} (hk : ∀ id, k ≠ .publishing id) :
    view (s.setCall c k) = (view s).setCall c k := by
  simp only [view, State.setCall, Session.setCall, Session.mk.injEq, true_and, and_true]
  funext c'
  by_cases hcc : c' = c
  · subst hcc
    rw [Function.update_self, Function.update_self]
    split
    · exact absurd rfl (hk _)
    · rfl
  · simp [hcc]

/-- A call begins to wait with an empty channel. -/
theorem view_setCall_publishing {s : State} {c : CallId} {id : UInt16} (h : s.inbox c = none) :
    view (s.setCall c (.publishing id)) = (view s).setCall c (.publishing id) := by
  simp only [view, State.setCall, Session.setCall, Session.mk.injEq, true_and, and_true]
  funext c'
  by_cases hcc : c' = c
  · subst hcc
    rw [Function.update_self, Function.update_self]
    exact h
  · simp [hcc]

theorem view_finish (s : State) (c : CallId) (r : Return) :
    view (s.finish c r) = (view s).finish c r := by
  unfold State.finish Session.finish
  rw [view_log rfl, view_setCall (by simp)]

theorem publisher_insert (ws : AList fun _ : UInt16 => Waiter) (id : UInt16) (w : Waiter) :
    publisher (ws.insert id w) =
      Function.update (publisher ws) id (if w.want = .publish then some w.ch else none) := by
  funext i
  by_cases hi : i = id
  · subst hi; simp [publisher]
  · simp [publisher, hi]

theorem publisher_erase (ws : AList fun _ : UInt16 => Waiter) (id : UInt16) :
    publisher (ws.erase id) = Function.update (publisher ws) id none := by
  funext i
  by_cases hi : i = id
  · subst hi; simp [publisher]
  · simp [publisher, hi]

theorem publisher_eq_some {ws : AList fun _ : UInt16 => Waiter} {id : UInt16} {c : CallId} :
    publisher ws id = some c ↔ ws.lookup id = some ⟨c, .publish⟩ := by
  unfold publisher
  cases h : ws.lookup id with
  | none => simp
  | some w =>
    obtain ⟨ch, want⟩ := w
    by_cases hw : want = .publish <;> simp [hw]

theorem view_removeWaiter (s : State) (id : UInt16) (c : CallId) :
    view (s.removeWaiter id c) = (view s).drop id c := by
  have key : ∀ ws : AList fun _ : UInt16 => Waiter,
      (publisher ws = fun i => if i = id ∧ publisher s.waiters i = some c then none
        else publisher s.waiters i) → view { s with waiters := ws } = (view s).drop id c := by
    intro ws h
    simp only [view, Session.drop, h]
    rfl
  unfold State.removeWaiter
  split
  · rename_i w hw
    split
    · rename_i hc
      refine key _ ?_
      rw [publisher_erase]
      funext i
      by_cases hi : i = id
      · subst hi
        by_cases hp : w.want = .publish <;> simp [publisher, hw, hp, hc]
      · simp [hi]
    · rename_i hc
      refine key s.waiters ?_
      funext i
      rw [if_neg]
      rintro ⟨rfl, hi⟩
      rw [publisher_eq_some, hw] at hi
      exact hc (by rw [Option.some.inj hi])
  · rename_i hw
    refine key s.waiters ?_
    funext i
    rw [if_neg]
    rintro ⟨rfl, hi⟩
    rw [publisher_eq_some, hw] at hi
    cases hi

/-! ## Links, waiters and calls -/

/-- A call on the far side of its registration: only these own a SUBACK or
UNSUBACK waiter. -/
def Call.requests : Call → Bool
  | .requesting .. | .resubscribing .. | .done => true
  | _ => false

/-- A link of the session the client is in. -/
def State.Current (s : State) (l : LinkId) : Prop :=
  l < s.nextLink ∧ (s.links l).quotaGen = s.quota.gen ∧ (s.links l).idGen = s.ids.gen ∧
    s.quota.failed = false

/-- `building` is the link a connect has made and not yet published. -/
structure Linked (building : Option LinkId) (s : State) : Prop where
  live : ∀ l, s.link = some l → s.Current l ∧ (s.links l).stop = false
  built : ∀ l, building = some l → s.Current l ∧ s.link = none
  dead : ∀ l, l < s.nextLink → s.link ≠ some l → building ≠ some l → (s.links l).stop = true
  fresh : ∀ l k, s.nextLink ≤ l → s.calls (.resubscribe l k) = .idle
  parked : ∀ c l pkt, s.calls c = .parked l pkt → l < s.nextLink ∧ pkt.qos ≠ 0

/-- Each waiter belongs to a call in the place it waits in. -/
structure Waits (s : State) : Prop where
  publish : ∀ id c, s.waiters.lookup id = some ⟨c, .publish⟩ → s.calls c = .publishing id
  request : ∀ id w, s.waiters.lookup id = some w → w.want ≠ .publish →
    (s.calls w.ch).requests = true

namespace Linked

variable {b : Option LinkId} {s t : State}

theorem congr (h : Linked b s) (hlink : t.link = s.link) (hnext : t.nextLink = s.nextLink)
    (hcalls : t.calls = s.calls)
    (hlinks : ∀ l, (t.links l).stop = (s.links l).stop ∧
      (t.links l).quotaGen = (s.links l).quotaGen ∧ (t.links l).idGen = (s.links l).idGen)
    (hquota : t.quota.gen = s.quota.gen ∧ t.quota.failed = s.quota.failed)
    (hids : t.ids.gen = s.ids.gen) : Linked b t where
  live l hl := by
    unfold State.Current
    rw [hnext, (hlinks l).1, (hlinks l).2.1, (hlinks l).2.2, hquota.1, hquota.2, hids]
    exact h.live l (hlink ▸ hl)
  built l hl := by
    unfold State.Current
    rw [hnext, (hlinks l).2.1, (hlinks l).2.2, hquota.1, hquota.2, hids, hlink]
    exact h.built l hl
  dead l hl hne hb := by
    rw [(hlinks l).1]
    exact h.dead l (hnext ▸ hl) (hlink ▸ hne) hb
  fresh := by rw [hnext, hcalls]; exact h.fresh
  parked := by rw [hnext, hcalls]; exact h.parked

theorem log (h : Linked b s) (e : Event) : Linked b (s.log e) :=
  h.congr rfl rfl rfl (fun _ => ⟨rfl, rfl, rfl⟩) ⟨rfl, rfl⟩ rfl

theorem setLink (h : Linked b s) (l : LinkId) {f : Link → Link}
    (hf : ∀ k, (f k).stop = k.stop ∧ (f k).quotaGen = k.quotaGen ∧ (f k).idGen = k.idGen) :
    Linked b (s.setLink l f) := by
  refine h.congr rfl rfl rfl (fun l' => ?_) ⟨rfl, rfl⟩ rfl
  by_cases hl : l' = l
  · subst hl; simpa [State.setLink] using hf (s.links l')
  · simp [State.setLink, hl]

theorem removeWaiter (h : Linked b s) (id : UInt16) (c : CallId) :
    Linked b (s.removeWaiter id c) := by
  unfold State.removeWaiter
  split
  · split
    · exact h.congr rfl rfl rfl (fun _ => ⟨rfl, rfl, rfl⟩) ⟨rfl, rfl⟩ rfl
    · exact h
  · exact h

theorem setCall (h : Linked b s) {c : CallId} {k : Call}
    (hfresh : ∀ l i, c = .resubscribe l i → l < s.nextLink)
    (hpark : ∀ l pkt, k = .parked l pkt → l < s.nextLink ∧ pkt.qos ≠ 0) :
    Linked b (s.setCall c k) where
  live := h.live
  built := h.built
  dead := h.dead
  fresh l i hl := by
    have hne : CallId.resubscribe l i ≠ c := fun heq => by
      have := hfresh l i heq.symm
      exact absurd hl (by simpa [State.setCall] using this)
    simpa [State.setCall, hne] using h.fresh l i hl
  parked c' l pkt hc' := by
    by_cases hcc : c' = c
    · subst hcc
      exact hpark l pkt (by simpa [State.setCall] using hc')
    · exact h.parked c' l pkt (by simpa [State.setCall, hcc] using hc')

theorem teardownLink (h : Linked b s) (l : LinkId) (g : Bool) : Linked b (s.teardownLink l g) := by
  unfold State.teardownLink
  split
  · exact h
  · -- A closed stop channel stays closed, and `l` is not the live link afterwards.
    have hmono : ∀ l', (s.links l').stop = true →
        ((s.setLink l fun k => { k with stop := true }).links l').stop = true := by
      intro l' hl'
      by_cases hl : l' = l
      · subst hl; simp [State.setLink]
      · simpa [State.setLink, hl] using hl'
    dsimp only
    split
    · rename_i hne
      have hcur : ∀ l', s.Current l' →
          (((s.setLink l fun k => { k with stop := true }).log (.tornDown l)).Current l') := by
        intro l' hl'
        by_cases hl : l' = l
        · subst hl; simpa [State.Current, State.setLink, State.log] using hl'
        · simpa [State.Current, State.setLink, State.log, hl] using hl'
      refine ⟨fun l' hl' => ⟨hcur l' (h.live l' hl').1, ?_⟩,
        fun l' hl' => ⟨hcur l' (h.built l' hl').1, (h.built l' hl').2⟩,
        fun l' hl' hn hb => hmono l' (h.dead l' hl' hn hb), h.fresh, h.parked⟩
      have hl : l' ≠ l := by rintro rfl; exact hne hl'
      simpa [State.setLink, State.log, hl] using (h.live l' hl').2
    · rename_i heq
      have hlink : s.link = some l := by simpa [State.setLink, State.log] using heq
      have hdead : ∀ l', l' < s.nextLink → b ≠ some l' →
          ((s.setLink l fun k => { k with stop := true }).links l').stop = true := by
        intro l' hl' hb
        by_cases hl : l' = l
        · subst hl; simp [State.setLink]
        · refine hmono l' (h.dead l' hl' ?_ hb)
          rw [hlink]
          simpa using Ne.symm hl
      have hbuilt : ∀ l', b ≠ some l' := by
        intro l' hb
        have := (h.built l' hb).2
        rw [hlink] at this
        cases this
      split <;> exact ⟨fun l' hl' => (by cases hl'), fun l' hl' => absurd hl' (hbuilt l'),
        fun l' hl' _ hb => hdead l' hl' hb, h.fresh, h.parked⟩

end Linked

namespace Waits

variable {s t : State}

/-- Fewer waiters and the same calls. -/
theorem congr (h : Waits s) (hcalls : t.calls = s.calls)
    (hwaiters : ∀ id w, t.waiters.lookup id = some w → s.waiters.lookup id = some w) : Waits t where
  publish id c hw := by rw [hcalls]; exact h.publish id c (hwaiters id _ hw)
  request id w hw := by rw [hcalls]; exact h.request id w (hwaiters id w hw)

/-- A publishing call is waited for only under its own identifier. -/
theorem own (h : Waits s) {id : UInt16} {w : Waiter} {i : UInt16}
    (hw : s.waiters.lookup id = some w) (hc : s.calls w.ch = .publishing i) :
    w.want = .publish ∧ i = id := by
  by_cases hp : w.want = .publish
  · obtain ⟨ch, want⟩ := w
    subst hp
    have := h.publish id ch hw
    rw [this] at hc
    cases hc
    exact ⟨rfl, rfl⟩
  · have := h.request id w hw hp
    rw [hc] at this
    cases this

theorem removeWaiter (h : Waits s) (id : UInt16) (c : CallId) : Waits (s.removeWaiter id c) := by
  unfold State.removeWaiter
  split
  · split
    · refine h.congr rfl fun i w hw => ?_
      by_cases hi : i = id
      · subst hi; simp at hw
      · simpa [hi] using hw
    · exact h
  · exact h

/-- A call moves on that no PUBLISH acknowledgement can resolve. -/
theorem setCall (h : Waits s) {c : CallId} {k : Call}
    (hwait : ∀ id w, s.waiters.lookup id = some w → w.ch = c →
      w.want ≠ .publish ∧ k.requests = true) : Waits (s.setCall c k) where
  publish id c' hw := by
    by_cases hcc : c' = c
    · exact absurd rfl (hwait id _ hw hcc).1
    · simpa [State.setCall, hcc] using h.publish id c' hw
  request id w hw hp := by
    by_cases hcc : w.ch = c
    · simpa [State.setCall, hcc] using (hwait id w hw hcc).2
    · simpa [State.setCall, hcc] using h.request id w hw hp

theorem teardownLink (h : Waits s) (l : LinkId) (g : Bool) : Waits (s.teardownLink l g) := by
  unfold State.teardownLink
  split
  · exact h
  · dsimp only
    split
    · exact h.congr rfl fun _ _ hw => hw
    · split <;> exact ⟨fun id c hw => (by cases hw), fun id w hw => (by cases hw)⟩

end Waits

structure Wired (building : Option LinkId) (s : State) : Prop extends
  Linked building s, Waits s

/-! ## Teardown and writing -/

theorem awaited_iff {s : State} {c : CallId} :
    s.awaited c = true ↔ ∃ id w, s.waiters.lookup id = some w ∧ w.ch = c := by
  simp only [State.awaited, List.any_eq_true, decide_eq_true_eq, Sigma.exists]
  constructor
  · rintro ⟨id, w, hm, hc⟩
    exact ⟨id, w, (List.mem_dlookup_iff s.waiters.nodupKeys).mpr hm, hc⟩
  · rintro ⟨id, w, hw, hc⟩
    exact ⟨id, w, (List.mem_dlookup_iff s.waiters.nodupKeys).mp hw, hc⟩

/-- The results delivered by `failAllWaiters`, as far as the view sees them. -/
theorem inbox_failAllWaiters {s : State}
    (hown : ∀ id w i, s.waiters.lookup id = some w → s.calls w.ch = .publishing i →
      w.want = .publish ∧ i = id) :
    (view s.failAllWaiters).inbox = (view s).tear.inbox := by
  funext c
  simp only [view, State.failAllWaiters, Session.tear]
  cases hc : s.calls c with
  | publishing id =>
    have hiff : s.awaited c = true ↔ publisher s.waiters id = some c := by
      rw [awaited_iff, publisher_eq_some]
      constructor
      · rintro ⟨i, w, hw, rfl⟩
        obtain ⟨hp, rfl⟩ := hown i w id hw hc
        rw [hw, ← hp]
      · exact fun hw => ⟨id, _, hw, rfl⟩
    simp only [hiff]
    rfl
  | _ => rfl

/-- A teardown changes the view at most by tearing the session down. -/
theorem view_teardownLink {s : State} (l : LinkId) (g : Bool)
    (hown : ∀ id w i, s.waiters.lookup id = some w → s.calls w.ch = .publishing i →
      w.want = .publish ∧ i = id) :
    view (s.teardownLink l g) = view s ∨ view (s.teardownLink l g) = (view s).tear := by
  unfold State.teardownLink
  split
  · exact .inl rfl
  · dsimp only
    split
    · exact .inl (view_log_transport rfl)
    · right
      have hbox := inbox_failAllWaiters hown
      have hhist : (s.hist ++ [Event.tornDown l]).filter Event.session =
          s.hist.filter Event.session := by simp [Event.session]
      split <;>
      · simp only [view, State.failAllWaiters, State.log, State.setLink, Session.tear, hhist,
          Session.mk.injEq, true_and, and_true, Option.isSome_none] at hbox ⊢
        exact ⟨rfl, rfl, hbox⟩

/-- What `writeFrame` can do. -/
theorem writeFrame_cases (s : State) (l : LinkId) (p : Packet) (io : Bool) :
    (∃ e, s.writeFrame l p io = (some e, s)) ∨
    s.writeFrame l p io = (some .socket, s.teardownLink l (s.links l).graceful) ∨
    s.writeFrame l p io = (none, s.log (.wrote l p)) ∧ (s.links l).stop = false ∧ io = true := by
  unfold State.writeFrame
  dsimp only
  split
  · exact .inl ⟨_, rfl⟩
  · split
    · exact .inl ⟨_, rfl⟩
    · split
      · exact .inr (.inl rfl)
      · rename_i h
        simp only [Bool.or_eq_true, Bool.not_eq_true', not_or, Bool.not_eq_true,
          Bool.not_eq_false] at h
        exact .inr (.inr ⟨rfl, h⟩)

namespace Wired

variable {b : Option LinkId} {s : State}

theorem log (h : Wired b s) (e : Event) : Wired b (s.log e) :=
  ⟨h.toLinked.log e, h.toWaits.congr rfl fun _ _ hw => hw⟩

theorem store (h : Wired b s) (store : MemStore) : Wired b { s with store } :=
  ⟨h.toLinked.congr rfl rfl rfl (fun _ => ⟨rfl, rfl, rfl⟩) ⟨rfl, rfl⟩ rfl,
    h.toWaits.congr rfl fun _ _ hw => hw⟩

theorem teardownLink (h : Wired b s) (l : LinkId) (g : Bool) : Wired b (s.teardownLink l g) :=
  ⟨h.toLinked.teardownLink l g, h.toWaits.teardownLink l g⟩

/-- A write changes the view at most by tearing the session down. -/
theorem writeFrame (h : Wired b s) (l : LinkId) (p : Packet) (io : Bool) :
    Wired b (s.writeFrame l p io).2 ∧
      (view (s.writeFrame l p io).2 = view s ∨ view (s.writeFrame l p io).2 = (view s).tear) := by
  rcases writeFrame_cases s l p io with ⟨e, hr⟩ | hr | ⟨hr, -⟩ <;> rw [hr]
  · exact ⟨h, .inl rfl⟩
  · exact ⟨h.teardownLink l _, view_teardownLink l _ fun id w i => h.own⟩
  · exact ⟨h.log _, .inl (view_log_transport rfl)⟩

end Wired

/-! ## What waiting and writing leave alone -/

/-- Nothing of the session itself is touched. -/
structure Keeps (s t : State) : Prop where
  cfg : t.cfg = s.cfg
  ids : t.ids = s.ids
  store : t.store = s.store
  subs : t.subs = s.subs
  calls : t.calls = s.calls
  nextLink : t.nextLink = s.nextLink
  avail : t.quota.avail = s.quota.avail
  gen : t.quota.gen = s.quota.gen

namespace Keeps

theorem refl (s : State) : Keeps s s := ⟨rfl, rfl, rfl, rfl, rfl, rfl, rfl, rfl⟩

theorem trans {s t u : State} (h : Keeps s t) (h' : Keeps t u) : Keeps s u :=
  ⟨h'.cfg.trans h.cfg, h'.ids.trans h.ids, h'.store.trans h.store, h'.subs.trans h.subs,
    h'.calls.trans h.calls, h'.nextLink.trans h.nextLink, h'.avail.trans h.avail,
    h'.gen.trans h.gen⟩

theorem registerWaiter (s : State) (id : UInt16) (c : CallId) (want : AckClass) :
    Keeps s (s.registerWaiter id c want) := ⟨rfl, rfl, rfl, rfl, rfl, rfl, rfl, rfl⟩

theorem removeWaiter (s : State) (id : UInt16) (c : CallId) : Keeps s (s.removeWaiter id c) := by
  unfold State.removeWaiter
  split
  · split
    · exact ⟨rfl, rfl, rfl, rfl, rfl, rfl, rfl, rfl⟩
    · exact refl s
  · exact refl s

theorem teardownLink (s : State) (l : LinkId) (g : Bool) : Keeps s (s.teardownLink l g) := by
  unfold State.teardownLink
  split
  · exact refl s
  · dsimp only
    split
    · exact ⟨rfl, rfl, rfl, rfl, rfl, rfl, rfl, rfl⟩
    · split <;> exact ⟨rfl, rfl, rfl, rfl, rfl, rfl, rfl, rfl⟩

theorem writeFrame (s : State) (l : LinkId) (p : Packet) (io : Bool) :
    Keeps s (s.writeFrame l p io).2 := by
  rcases writeFrame_cases s l p io with ⟨e, hr⟩ | hr | ⟨hr, -⟩ <;> rw [hr]
  · exact refl s
  · exact teardownLink s l _
  · exact ⟨rfl, rfl, rfl, rfl, rfl, rfl, rfl, rfl⟩

end Keeps

/-! ## A request on the wire -/

/-- A call not yet past its registration waits for nothing. -/
theorem Waits.not_early {s : State} (h : Waits s) {c : CallId}
    (hc : (s.calls c).requests = false) (hp : ∀ i, s.calls c ≠ .publishing i) {id : UInt16}
    {w : Waiter} (hw : s.waiters.lookup id = some w) : w.ch ≠ c := by
  rintro rfl
  by_cases hwant : w.want = .publish
  · obtain ⟨ch, want⟩ := w
    subst hwant
    exact hp id (h.publish id ch hw)
  · rw [h.request id w hw hwant] at hc
    cases hc

section attempt

variable {b : Option LinkId} {s t : State} {id : UInt16} {c : CallId} {want : AckClass}

theorem view_registerWaiter (hc : ∀ i, s.calls c ≠ .publishing i) :
    view (s.registerWaiter id c want) = { view s with
      waiting := Function.update (view s).waiting id (if want = .publish then some c else none) } := by
  simp only [view, State.registerWaiter, publisher_insert, Session.mk.injEq, true_and, and_true]
  funext c'
  by_cases hcc : c' = c
  · subst hcc
    split
    · rename_i i hi; exact absurd hi (hc i)
    · rfl
  · simp [hcc]

theorem waiters_teardownLink (s : State) (l : LinkId) (g : Bool) :
    (s.teardownLink l g).waiters = s.waiters ∨ (s.teardownLink l g).waiters = ∅ := by
  unfold State.teardownLink
  split
  · exact .inl rfl
  · dsimp only
    split
    · exact .inl rfl
    · split <;> exact .inr rfl

/-- Taking back what was just registered leaves the other waiters. -/
theorem lookup_unregister {t : State}
    (ht : t.waiters = (s.registerWaiter id c want).waiters ∨ t.waiters = ∅) {i : UInt16}
    {w : Waiter} (hw : (t.removeWaiter id c).waiters.lookup i = some w) :
    s.waiters.lookup i = some w := by
  unfold State.removeWaiter at hw
  rcases ht with ht | ht
  · have hid : t.waiters.lookup id = some ⟨c, want⟩ := by rw [ht]; simp [State.registerWaiter]
    simp only [hid, if_true] at hw
    rw [ht] at hw
    by_cases hi : i = id
    · subst hi; simp at hw
    · simpa [State.registerWaiter, hi] using hw
  · have hid : t.waiters.lookup id = none := by rw [ht]; rfl
    simp only [hid] at hw
    rw [ht] at hw
    cases hw

/-- Registering and taking back is nothing, with a teardown in between or not. -/
theorem drop_register {v : Session} {x : Option CallId} (hx : x = some c ∨ x = none)
    (hc : ∀ i, v.calls c ≠ .publishing i) (hfree : v.waiting id = none) :
    { v with waiting := Function.update v.waiting id x }.drop id c = v ∧
      { v with waiting := Function.update v.waiting id x }.tear.drop id c = v.tear := by
  constructor
  · have hw : (fun i => if i = id ∧ Function.update v.waiting id x i = some c then none
        else Function.update v.waiting id x i) = v.waiting := by
      funext i
      by_cases hi : i = id
      · subst hi
        rcases hx with rfl | rfl <;> simp [hfree]
      · simp [hi]
    simp only [Session.drop, hw]
  · have hbox : { v with waiting := Function.update v.waiting id x }.tear.inbox = v.tear.inbox := by
      funext c'
      simp only [Session.tear]
      cases hc' : v.calls c' with
      | publishing i =>
        have hcc : c ≠ c' := by rintro rfl; exact hc i hc'
        by_cases hi : i = id
        · subst hi
          rcases hx with rfl | rfl <;> simp [hfree, hcc]
        · simp [hi]
      | _ => rfl
    simp only [Session.drop, Session.tear, Session.mk.injEq, true_and, and_true] at hbox ⊢
    exact ⟨by simp, hbox⟩

/-- A call registers for its PUBLISH and begins to wait. -/
theorem Waits.publishing {es : List Event} (h : Waits s) (hp : ∀ i, s.calls c ≠ .publishing i)
    (hc : (s.calls c).requests = false) :
    Waits ({ s.registerWaiter id c .publish with hist := es }.setCall c (.publishing id)) where
  publish i c' hw := by
    by_cases hi : i = id
    · subst hi
      obtain rfl : c = c' := by simpa [State.registerWaiter, State.setCall] using hw
      simp [State.setCall]
    · have hw : s.waiters.lookup i = some ⟨c', .publish⟩ := by
        simpa [State.registerWaiter, State.setCall, hi] using hw
      have hcc : c' ≠ c := h.not_early hc hp hw
      simpa [State.setCall, State.registerWaiter, hcc] using h.publish i c' hw
  request i w hw hwant := by
    by_cases hi : i = id
    · subst hi
      obtain rfl : ⟨c, .publish⟩ = w := by simpa [State.registerWaiter, State.setCall] using hw
      exact absurd rfl hwant
    · have hw : s.waiters.lookup i = some w := by
        simpa [State.registerWaiter, State.setCall, hi] using hw
      have hcc : w.ch ≠ c := h.not_early hc hp hw
      simpa [State.setCall, State.registerWaiter, hcc] using h.request i w hw hwant

/-- A registration whose frame could not be written, and that was taken back. -/
theorem attempt_failed {l : LinkId} {p : Packet} {io : Bool} {e : ClientError}
    (h : Wired b s) (hc : ∀ i, s.calls c ≠ .publishing i) (hfree : (view s).waiting id = none)
    (hr : (s.registerWaiter id c want).writeFrame l p io = (some e, t)) :
    Wired b (t.removeWaiter id c) ∧ Keeps s (t.removeWaiter id c) ∧
      (view (t.removeWaiter id c) = view s ∨ view (t.removeWaiter id c) = (view s).tear) := by
  have hlinked : Linked b (s.registerWaiter id c want) :=
    h.toLinked.congr rfl rfl rfl (fun _ => ⟨rfl, rfl, rfl⟩) ⟨rfl, rfl⟩ rfl
  have hkeeps : Keeps s (t.removeWaiter id c) := by
    have hw := Keeps.writeFrame (s.registerWaiter id c want) l p io
    rw [hr] at hw
    exact ((Keeps.registerWaiter s id c want).trans hw).trans (Keeps.removeWaiter t id c)
  obtain ⟨hdrop, htear⟩ := drop_register (v := view s)
    (x := if want = .publish then some c else none) (by split <;> simp) hc hfree
  rw [← view_registerWaiter hc] at hdrop htear
  have hshape : (t = s.registerWaiter id c want ∨
      t = (s.registerWaiter id c want).teardownLink l ((s.registerWaiter id c want).links l).graceful) := by
    rcases writeFrame_cases (s.registerWaiter id c want) l p io with ⟨e', hr'⟩ | hr' | ⟨hr', -⟩ <;>
      rw [hr] at hr' <;> cases hr'
    · exact .inl rfl
    · exact .inr rfl
  rcases hshape with rfl | rfl
  · refine ⟨⟨hlinked.removeWaiter id c, h.toWaits.congr hkeeps.calls fun i w hw => ?_⟩, hkeeps,
      .inl ?_⟩
    · exact lookup_unregister (.inl rfl) hw
    · rw [view_removeWaiter, hdrop]
  · refine ⟨⟨(hlinked.teardownLink l _).removeWaiter id c,
      h.toWaits.congr hkeeps.calls fun i w hw => ?_⟩, hkeeps, ?_⟩
    · exact lookup_unregister (waiters_teardownLink _ l _) hw
    · have hown : ∀ i w j, (s.registerWaiter id c want).waiters.lookup i = some w →
          (s.registerWaiter id c want).calls w.ch = .publishing j → w.want = .publish ∧ j = i := by
        intro i w j hw hj
        by_cases hi : i = id
        · subst hi
          simp only [State.registerWaiter, AList.lookup_insert, Option.some.injEq] at hw
          subst hw
          exact absurd hj (hc j)
        · exact h.own (by simpa [State.registerWaiter, hi] using hw) hj
      rw [view_removeWaiter]
      rcases view_teardownLink l ((s.registerWaiter id c want).links l).graceful hown with hv | hv
      · exact .inl (by rw [hv, hdrop])
      · exact .inr (by rw [hv, htear])

/-- A registration whose frame went out. -/
theorem attempt_sent {l : LinkId} {p : Packet} {io : Bool}
    (hr : (s.registerWaiter id c want).writeFrame l p io = (none, t)) :
    t = (s.registerWaiter id c want).log (.wrote l p) ∧ (s.links l).stop = false := by
  rcases writeFrame_cases (s.registerWaiter id c want) l p io with ⟨e', hr'⟩ | hr' | ⟨hr', hstop, -⟩
    <;> rw [hr] at hr' <;> cases hr'
  exact ⟨rfl, hstop⟩

end attempt

end GoMqtt.Client
