import GoMqtt.Client.View

/-! # What the calls of the API do to the abstract session

The part of a call up to its wait and its return are one move each: the PUBLISH
goes out or the call fails, the request takes its identifier or is undone. A
failing socket adds a teardown. -/
namespace GoMqtt.Client
open GoMqtt.Protocol GoMqtt.Session GoMqtt.Lib

variable {ok : Session → Frame → Prop} {roll : Subscription → Subscription → Prop}

/-- The client stays wired up and its view moves. -/
def Refines (ok : Session → Frame → Prop) (roll : Subscription → Subscription → Prop)
    (s t : State) : Prop :=
  Wired none t ∧ Session.Moves ok roll (view s) (view t)

theorem Session.Moves.tearing {v w x : Session} (h : Session.Moves ok roll v w)
    (hx : x = w ∨ x = w.tear) : Session.Moves ok roll v x := by
  rcases hx with rfl | rfl
  · exact h
  · exact h.tail .tear

/-- A return and a teardown can be swapped. -/
theorem Session.tear_finish (v : Session) (c : CallId) (r : Return) :
    v.tear.finish c r = (v.finish c r).tear := by
  simp only [Session.finish, Session.tear, Session.setCall, Session.notes, Session.mk.injEq,
    true_and, and_true]
  funext c'
  by_cases hcc : c' = c
  · subst hcc; simp
  · simp [hcc]

theorem Session.Moves.finishTearing {v w x : Session} {c : CallId} {r : Return}
    (h : Session.Moves ok roll v (w.finish c r)) (hx : x = w ∨ x = w.tear) :
    Session.Moves ok roll v (x.finish c r) := by
  refine h.tearing ?_
  rcases hx with rfl | rfl
  · exact .inl rfl
  · exact .inr (Session.tear_finish w c r)

namespace Wired

variable {b : Option LinkId} {s : State}

/-- A call returns that no PUBLISH acknowledgement can resolve. -/
theorem finish (h : Wired b s) {c : CallId} (r : Return)
    (hfresh : ∀ l i, c = .resubscribe l i → l < s.nextLink)
    (hwait : ∀ id, s.waiters.lookup id ≠ some ⟨c, .publish⟩) : Wired b (s.finish c r) := by
  refine Wired.log ⟨h.toLinked.setCall hfresh (by simp), h.toWaits.setCall ?_⟩ _
  rintro id ⟨ch, want⟩ hw rfl
  refine ⟨?_, rfl⟩
  rintro rfl
  exact hwait id hw

/-- A call that has begun is no goroutine of a link still to come. -/
theorem started (h : Wired b s) {c : CallId} (hc : s.calls c ≠ .idle) :
    ∀ l i, c = .resubscribe l i → l < s.nextLink := by
  rintro l i rfl
  by_contra hl
  exact hc (h.fresh l i (Nat.not_lt.mp hl))

theorem not_publisher (h : Wired b s) {c : CallId} (hc : ∀ i, s.calls c ≠ .publishing i)
    (id : UInt16) : s.waiters.lookup id ≠ some ⟨c, .publish⟩ := fun hw => hc id (h.publish id c hw)

end Wired

/-! ## Publish -/

/-- The view of a state whose session part is replaced. -/
theorem view_session (s : State) (ids : IdAllocator) (store : MemStore) (quota : Quota) :
    view { s with ids, store, quota } = { view s with
      out := outbound store
      inbound := fun id => store.contains id .inboundID
      used := ids.inUse
      gen := ids.gen
      permits := quota.avail } := rfl

/-- An identifier acquired and released again. -/
theorem inUse_acquire_release {ids ids' : IdAllocator} {id : UInt16} {gen : Nat}
    (h : ids.acquire = (some (id, gen), ids')) : (ids'.releaseAt id gen).inUse = ids.inUse := by
  obtain ⟨h0, hgen, hgen', hfree, huse⟩ := IdAllocator.acquire_some h
  funext j
  rw [IdAllocator.inUse_releaseAt, huse]
  by_cases hj : j = id
  · subst hj; simp [h0, hgen, hgen', hfree]
  · simp [hj]

theorem inUse_acquire {ids ids' : IdAllocator} {id : UInt16} {gen : Nat}
    (h : ids.acquire = (some (id, gen), ids')) :
    ids'.inUse = Function.update ids.inUse id true := by
  obtain ⟨-, -, -, -, huse⟩ := IdAllocator.acquire_some h
  funext j
  rw [huse]
  by_cases hj : j = id
  · subst hj; simp
  · simp [hj]

/-- An entry saved under a free identifier and deleted again. -/
theorem outbound_save_delete {store : MemStore} {m : StoredMessage} (hk : m.kind.outbound = true)
    (h : store.contains m.id m.kind = false) :
    outbound ((store.save m).delete m.id m.kind) = outbound store := by
  rw [outbound_delete, outbound_save hk h, Session.without, List.filter_append]
  have hself : (outbound store).filter (fun x => !decide (x.id = m.id ∧ x.kind = m.kind)) =
      outbound store := by
    refine List.filter_eq_self.mpr fun x hx => ?_
    simp only [Bool.not_eq_true', decide_eq_false_iff_not]
    rintro ⟨hid, hkind⟩
    obtain ⟨y, hy, rfl⟩ := List.mem_map.mp hx
    have hcon := MemStore.contains_iff.mpr ⟨y, MemStore.mem_all.mp (List.mem_filter.mp hy).1⟩
    simp only at hid hkind
    rw [hid, hkind, h] at hcon
    cases hcon
  rw [hself]
  simp

/-- The part of `publishAcked` before the wire takes a permit, an identifier and
an entry; what `unsend` gives back is all of it. -/
theorem unsend_view {s t : State} {m : StoredMessage} {quotaGen idGen : Nat}
    {ids : IdAllocator} {quota : Quota} (hkind : m.kind = .publish)
    (hacq : s.quota.acquire = (.granted quotaGen, quota))
    (hid : s.ids.acquire = (some (m.id, idGen), ids))
    (habs : s.store.contains m.id .publish = false)
    (hk : Keeps { s with ids, store := s.store.save m, quota } t)
    (hv : view t = view { s with ids, store := s.store.save m, quota } ∨
      view t = (view { s with ids, store := s.store.save m, quota }).tear) :
    view { t with
      store := t.store.delete m.id .publish
      ids := t.ids.releaseAt m.id idGen
      quota := t.quota.releaseAt quotaGen } = view s ∨
    view { t with
      store := t.store.delete m.id .publish
      ids := t.ids.releaseAt m.id idGen
      quota := t.quota.releaseAt quotaGen } = (view s).tear := by
  obtain ⟨-, hpos, hgen, rfl⟩ := Quota.acquire_granted hacq
  obtain ⟨-, hgen', hgen'', -, -⟩ := IdAllocator.acquire_some hid
  have hout : outbound (t.store.delete m.id .publish) = outbound s.store := by
    rw [hk.store, ← hkind]
    exact outbound_save_delete (by rw [hkind]; rfl) (by rw [hkind]; exact habs)
  have hin : (fun id => (t.store.delete m.id .publish).contains id .inboundID) =
      fun id => s.store.contains id .inboundID := by
    funext i
    rw [hk.store]
    simp [hkind]
  have huse : (t.ids.releaseAt m.id idGen).inUse = s.ids.inUse := by
    rw [hk.ids]
    exact inUse_acquire_release hid
  have hg : (t.ids.releaseAt m.id idGen).gen = s.ids.gen := by
    rw [IdAllocator.gen_releaseAt, hk.ids]
    exact hgen''
  have hav : (t.quota.releaseAt quotaGen).avail = s.quota.avail := by
    rw [Quota.avail_releaseAt, hk.gen, hk.avail, if_pos hgen]
    exact Int.sub_add_cancel _ _
  rw [view_session, hout, hin, huse, hg, hav]
  rcases hv with hv | hv <;> rw [hv]
  · exact .inl rfl
  · exact .inr rfl

/-- The view once permit, identifier and entry are taken. -/
theorem view_acquired {s : State} {q : Quota} {ids : IdAllocator} {p : PublishPacket}
    {quotaGen idGen : Nat} (hacq : q.acquire = (.granted quotaGen, s.quota))
    (hid : s.ids.acquire = (some (p.packetID, idGen), ids))
    (habs : s.store.contains p.packetID .publish = false) :
    view { s with ids, store := s.store.save (storedPublish p) } = { view { s with quota := q } with
      out := outbound s.store ++ [storedPublish p]
      used := Function.update s.ids.inUse p.packetID true
      permits := q.avail - 1 } := by
  obtain ⟨-, -, -, hquota⟩ := Quota.acquire_granted hacq
  obtain ⟨-, -, hgen, -, -⟩ := IdAllocator.acquire_some hid
  have hin : (fun i => (s.store.save (storedPublish p)).contains i .inboundID) =
      fun i => s.store.contains i .inboundID := by funext i; simp [storedPublish]
  have hout : outbound (s.store.save (storedPublish p)) = outbound s.store ++ [storedPublish p] :=
    outbound_save rfl habs
  simp only [view, hin, hout, inUse_acquire hid, hgen, hquota]

section publish

variable {s s₁ : State} {c : CallId} {l : LinkId} {pkt : PublishPacket} {pre : List Event}

/-- A Publish without permit has no result waiting and no waiter. -/
theorem Session.Opens.early {v : Session} {qos : UInt8} (h : v.Opens c qos pre) :
    (v.calls c).requests = false := by
  rcases h with ⟨hc, -⟩ | ⟨-, l, pkt, hc, -⟩ <;> rw [hc] <;> rfl

theorem Session.Move.refused {v : Session} {qos : UInt8} (ho : v.Opens c qos pre)
    (e : ClientError) :
    Session.Move ok roll v ((v.notes pre).finish c (.published (some e))) := by
  have h : Session.Move ok roll v ((v.notes (pre ++ [])).finish c (.published (some e))) :=
    .refuse ho (by simp)
  rwa [List.append_nil] at h

/-- `s₁` is the state with the grant on record; `q` is its quota before the grant. -/
theorem sendAcked_refines {quotaGen : Nat} {q : Quota} (io : Bool) (hw : Wired none s₁)
    (hv : view { s₁ with quota := q } = (view s).notes (pre ++ [Event.granted c l]))
    (hi : (view s).Inv)
    (ho : (view s).Opens c pkt.qos pre) (hq : pkt.qos ≠ 0) (hl : l < s₁.nextLink)
    (hfresh : ∀ l i, c = .resubscribe l i → l < s₁.nextLink)
    (hacq : q.acquire = (.granted quotaGen, s₁.quota)) :
    Refines ok roll s (s₁.sendAcked c l pkt quotaGen io) := by
  obtain ⟨-, hpos, hgen, hquota⟩ := Quota.acquire_granted hacq
  have hgen₁ : s₁.quota.gen = quotaGen := by rw [hquota, hgen]
  have hcalls : s₁.calls = (view s).calls := congrArg Session.calls hv
  have hout : outbound s₁.store = (view s).out := congrArg Session.out hv
  have hused : s₁.ids.inUse = (view s).used := congrArg Session.used hv
  have hperm : q.avail = (view s).permits := congrArg Session.permits hv
  have hnp : ∀ i, s₁.calls c ≠ .publishing i := by rw [hcalls]; exact ho.free.2
  have hearly : (s₁.calls c).requests = false := by rw [hcalls]; exact ho.early
  have hmove : ∀ e, Session.Move ok roll (view s)
      (view (({ s₁ with quota := q } : State).finish c (.published (some e)))) := by
    intro e
    rw [view_finish, hv]
    exact .refuse ho (by simp)
  unfold State.sendAcked
  split
  · rename_i ids hnone
    obtain ⟨hidgen, hsame⟩ := IdAllocator.acquire_none hnone
    have hview : view { s₁ with ids, quota := s₁.quota.releaseAt quotaGen } =
        view { s₁ with quota := q } := by
      have huse : ids.inUse = s₁.ids.inUse := funext hsame
      have hav : (s₁.quota.releaseAt quotaGen).avail = q.avail := by
        rw [Quota.avail_releaseAt, hquota, if_pos hgen]
        exact Int.sub_add_cancel _ _
      simp only [view, huse, hav, hidgen]
    refine ⟨Wired.finish ⟨?_, ?_⟩ _ hfresh (hw.not_publisher hnp), ?_⟩
    · exact hw.toLinked.congr rfl rfl rfl (fun _ => ⟨rfl, rfl, rfl⟩) (by simp) hidgen
    · exact hw.toWaits.congr rfl fun _ _ h => h
    · rw [view_finish, hview, ← view_finish]
      exact .single (hmove _)
  · rename_i id idGen ids hsome
    obtain ⟨h0, hidGen, hidgen, hfree, -⟩ := IdAllocator.acquire_some hsome
    have hbase : (view { s₁ with quota := q }).Inv := by
      rw [hv]
      refine hi.notes fun e he => ?_
      rcases List.mem_append.mp he with he | he
      · exact ho.neutral e he
      · rw [List.mem_singleton.mp he]; simp [Session.Neutral]
    have habs : s₁.store.contains id .publish = false := absent_of_free hbase hfree rfl
    have hnowait : publisher s₁.waiters id = none := by
      cases hc : publisher s₁.waiters id with
      | none => rfl
      | some c' => exact absurd (hbase.waiter id c' hc).2.2 (hbase.not_out hfree)
    dsimp only
    generalize hs₂ : ({ s₁ with
      ids, store := s₁.store.save (storedPublish { pkt with packetID := id }) } : State) = s₂
    have hw₂ : Wired none s₂ := by
      subst hs₂
      exact ⟨hw.toLinked.congr rfl rfl rfl (fun _ => ⟨rfl, rfl, rfl⟩) ⟨rfl, rfl⟩ hidgen,
        hw.toWaits.congr rfl fun _ _ h => h⟩
    have hnp₂ : ∀ i, s₂.calls c ≠ .publishing i := by subst hs₂; exact hnp
    have hfree₂ : (view s₂).waiting id = none := by subst hs₂; exact hnowait
    split
    · rename_i e t hr
      obtain ⟨hwt, hkt, hvt⟩ := attempt_failed hw₂ hnp₂ hfree₂ hr
      have hgt : (t.removeWaiter id c).quota.generation = quotaGen := by
        rw [Quota.generation, hkt.gen, ← hgen₁, ← hs₂]
      have hut := unsend_view (s := { s₁ with quota := q }) rfl hacq hsome habs
        (by rw [← hs₂] at hkt; exact hkt) (by rw [← hs₂] at hvt; exact hvt)
      unfold State.unsend
      dsimp only
      rw [if_pos hgt]
      refine ⟨Wired.finish ⟨?_, ?_⟩ _ ?_ ?_, ?_⟩
      · exact hwt.toLinked.congr rfl rfl rfl (fun _ => ⟨rfl, rfl, rfl⟩) (by simp) (by simp)
      · exact hwt.toWaits.congr rfl fun _ _ h => h
      · intro l' i heq
        have hnext : (t.removeWaiter id c).nextLink = s₁.nextLink := by rw [hkt.nextLink, ← hs₂]
        exact hnext ▸ hfresh l' i heq
      · exact hwt.not_publisher (by rw [hkt.calls]; exact hnp₂)
      · rw [view_finish]
        have hm := hmove e
        rw [view_finish] at hm
        exact Session.Moves.finishTearing (.single hm) hut
    · rename_i t hr
      obtain ⟨rfl, hstop⟩ := attempt_sent hr
      have hlive : s₁.link = some l := by
        by_contra hne
        have := hw.dead l hl hne (by simp)
        rw [← hs₂] at hstop
        rw [this] at hstop
        cases hstop
      have hview₂ : view s₂ = { (view s).notes (pre ++ [Event.granted c l]) with
          out := (view s).out ++ [storedPublish { pkt with packetID := id }]
          used := Function.update (view s).used id true
          permits := (view s).permits - 1 } := by
        rw [← hs₂, ← hv, ← hout, ← hused, ← hperm]
        exact view_acquired (p := { pkt with packetID := id }) hacq hsome habs
      refine ⟨⟨?_, ?_⟩, ?_⟩
      · refine Linked.setCall ?_ ?_ (by simp)
        · exact hw₂.toLinked.congr rfl rfl rfl (fun _ => ⟨rfl, rfl, rfl⟩) ⟨rfl, rfl⟩ rfl
        · rw [← hs₂]; exact hfresh
      · exact hw₂.toWaits.publishing hnp₂ (by rw [← hs₂]; exact hearly)
      · rw [view_setCall_publishing (by simp [State.registerWaiter, State.log]), view_log rfl,
          view_log_transport rfl, view_registerWaiter hnp₂, hview₂]
        have hm : Session.Move ok roll (view s) (((view s).notes (pre ++ [Event.granted c l])).send c l
            { pkt with packetID := id }) := by
          refine .send ho hq ?_ ?_ ?_ h0
          · have : s₁.link.isSome = (view s).live := congrArg Session.live hv
            rw [← this, hlive]
            rfl
          · rw [← hperm]
            exact hpos
          · rw [← hused]
            exact hfree
        exact .single hm

theorem publishAcked_refines (io : Bool) (hw : Wired none s₁)
    (hv : view s₁ = (view s).notes pre) (hi : (view s).Inv)
    (ho : (view s).Opens c pkt.qos pre) (hq : pkt.qos ≠ 0) (hl : l < s₁.nextLink)
    (hfresh : ∀ l i, c = .resubscribe l i → l < s₁.nextLink) :
    Refines ok roll s (s₁.publishAcked c l pkt io) := by
  have hcalls : s₁.calls = (view s).calls := congrArg Session.calls hv
  have hnp : ∀ i, s₁.calls c ≠ .publishing i := by rw [hcalls]; exact ho.free.2
  unfold State.publishAcked
  split
  · refine ⟨hw.finish _ hfresh (hw.not_publisher hnp), ?_⟩
    rw [view_finish, hv]
    exact .single (.refused ho _)
  · refine ⟨⟨hw.toLinked.setCall hfresh ?_, hw.toWaits.setCall ?_⟩, ?_⟩
    · rintro l' pkt' heq
      cases heq
      exact ⟨hl, hq⟩
    · intro id w hlook heq
      exact absurd heq (hw.not_early (by rw [hcalls]; exact ho.early) hnp hlook)
    · rw [view_setCall (by simp), hv]
      exact .single (.park ho hq)
  · rename_i gen quota hacq
    obtain ⟨-, -, -, hquota⟩ := Quota.acquire_granted hacq
    refine sendAcked_refines (q := s₁.quota) io ?_ ?_ hi ho hq hl hfresh hacq
    · have hw' : Wired none { s₁ with quota } :=
        ⟨hw.toLinked.congr rfl rfl rfl (fun _ => ⟨rfl, rfl, rfl⟩) (by simp [hquota]) rfl,
          hw.toWaits.congr rfl fun _ _ h => h⟩
      exact hw'.log _
    · have hlog : view (s₁.log (.granted c l)) = (view s).notes (pre ++ [Event.granted c l]) := by
        rw [view_log rfl, hv]
        simp [Session.notes]
      exact hlog

theorem publish_refines {n : Nat} (req : PublishRequest) (io : Bool) (hw : Wired none s)
    (hi : (view s).Inv) (hc : s.calls (.api n) = .idle) :
    Refines ok roll s (s.publish (.api n) req io) := by
  have hw₁ : Wired none (s.log (.invoked (.api n) req)) := hw.log _
  have hv₁ : view (s.log (.invoked (.api n) req)) = (view s).notes [.invoked (.api n) req] :=
    view_log rfl
  have ho : (view s).Opens (.api n) req.qos [.invoked (.api n) req] := .inl ⟨hc, req, rfl, rfl⟩
  have hnp : ∀ i, s.calls (.api n) ≠ .publishing i := by simp [hc]
  unfold State.publish
  dsimp only
  split
  · refine ⟨hw₁.finish _ (by simp) (hw₁.not_publisher hnp), ?_⟩
    rw [view_finish, hv₁]
    exact .single (.refused ho _)
  · rename_i l hl
    have hlink := State.publishChecks_ok hl
    split
    · rename_i hq
      obtain ⟨hwt, hvt⟩ := hw₁.writeFrame l
        (.publish ((s.log (.invoked (.api n) req)).publishPacket req)) io
      have hkt := Keeps.writeFrame (s.log (.invoked (.api n) req)) l
        (.publish ((s.log (.invoked (.api n) req)).publishPacket req)) io
      refine ⟨hwt.finish _ (by simp) (hwt.not_publisher (by rw [hkt.calls]; exact hnp)), ?_⟩
      rw [view_finish]
      rw [hv₁] at hvt
      exact Session.Moves.finishTearing (.single (.shoot (hq ▸ ho))) hvt
    · rename_i hq
      exact publishAcked_refines io hw₁ hv₁ hi ho hq (hw.live l hlink).1.1 (by simp)

theorem wake_refines (io : Bool) (hw : Wired none s) (hi : (view s).Inv) (c : CallId) :
    Refines ok roll s (s.wake c io) := by
  unfold State.wake
  split
  · rename_i l pkt hc
    obtain ⟨hl, hq⟩ := hw.parked c l pkt hc
    have hv : view s = (view s).notes [] := by simp [Session.notes]
    exact publishAcked_refines io hw hv hi (.inr ⟨rfl, l, pkt, hc, rfl⟩) hq hl
      (hw.started (by simp [hc]))
  · exact ⟨hw, .refl⟩

end publish

/-! ## Subscribe and Unsubscribe -/

section request

variable {s : State} {c : CallId} {r : Request}

theorem Session.tear_withdraw (v : Session) (r : Request) :
    v.tear.withdraw r = (v.withdraw r).tear := by
  cases r <;> rfl

theorem view_failRequest (s : State) (c : CallId) (r : Request) (e : ClientError) :
    ∃ ret, Session.Return.isRequest ret ∧
      view (s.failRequest c r e) = ((view s).withdraw r).finish c ret := by
  cases r with
  | subscribe filter prev token =>
    exact ⟨.subscribed {} (some e), trivial, view_finish _ _ _⟩
  | unsubscribe filter snap => exact ⟨.unsubscribed (some e), trivial, view_finish _ _ _⟩

theorem view_completeRequest (s : State) (c : CallId) (r : Request) (code : ReasonCode) :
    ∃ ret, Session.Return.isRequest ret ∧
      view (s.completeRequest c r code) = ((view s).confirm r).finish c ret := by
  match r with
  | .subscribe .. => exact ⟨.subscribed ⟨code.byte, code⟩ none, trivial, view_finish _ _ _⟩
  | .unsubscribe _ none => exact ⟨.unsubscribed none, trivial, view_finish _ _ _⟩
  | .unsubscribe _ (some _) => exact ⟨.unsubscribed none, trivial, view_finish _ _ _⟩

namespace Wired

variable {b : Option LinkId}

theorem failRequest (h : Wired b s) (e : ClientError)
    (hfresh : ∀ l i, c = .resubscribe l i → l < s.nextLink)
    (hwait : ∀ id, s.waiters.lookup id ≠ some ⟨c, .publish⟩) : Wired b (s.failRequest c r e) := by
  cases r with
  | subscribe filter prev token =>
    have h' : Wired b { s with subs := s.subs.restore filter prev token } :=
      ⟨h.toLinked.congr rfl rfl rfl (fun _ => ⟨rfl, rfl, rfl⟩) ⟨rfl, rfl⟩ rfl,
        h.toWaits.congr rfl fun _ _ hw => hw⟩
    exact h'.finish _ hfresh hwait
  | unsubscribe filter snap => exact h.finish _ hfresh hwait

theorem completeRequest (h : Wired b s) (code : ReasonCode)
    (hfresh : ∀ l i, c = .resubscribe l i → l < s.nextLink)
    (hwait : ∀ id, s.waiters.lookup id ≠ some ⟨c, .publish⟩) :
    Wired b (s.completeRequest c r code) := by
  match r with
  | .subscribe .. => exact h.finish _ hfresh hwait
  | .unsubscribe _ none => exact h.finish _ hfresh hwait
  | .unsubscribe filter (some snap) =>
    have h' : Wired b { s with subs := s.subs.removeIfCurrent filter snap.token } :=
      ⟨h.toLinked.congr rfl rfl rfl (fun _ => ⟨rfl, rfl, rfl⟩) ⟨rfl, rfl⟩ rfl,
        h.toWaits.congr rfl fun _ _ hw => hw⟩
    exact h'.finish _ hfresh hwait

end Wired

/-- A call registers for its SUBACK or UNSUBACK and begins to wait. -/
theorem Waits.requesting {id : UInt16} {want : AckClass} {k : Call} {es : List Event}
    (h : Waits s) (hwant : want ≠ .publish) (hp : ∀ i, s.calls c ≠ .publishing i)
    (hk : k.requests = true) :
    Waits ({ s.registerWaiter id c want with hist := es }.setCall c k) where
  publish i c' hw := by
    by_cases hi : i = id
    · subst hi
      simp only [State.registerWaiter, State.setCall, AList.lookup_insert, Option.some.injEq,
        Waiter.mk.injEq] at hw
      exact absurd hw.2 hwant
    · have hw' : s.waiters.lookup i = some ⟨c', .publish⟩ := by
        simpa [State.registerWaiter, State.setCall, hi] using hw
      have hcc : c' ≠ c := fun heq => hp i (heq ▸ h.publish i c' hw')
      simpa [State.setCall, State.registerWaiter, hcc] using h.publish i c' hw'
  request i w hw hne := by
    by_cases hcc : w.ch = c
    · simpa [State.setCall, hcc] using hk
    · have hi : i ≠ id := by
        rintro rfl
        simp only [State.registerWaiter, State.setCall, AList.lookup_insert,
          Option.some.injEq] at hw
        exact hcc (by rw [← hw])
      have hw : s.waiters.lookup i = some w := by
        simpa [State.registerWaiter, State.setCall, hi] using hw
      simpa [State.setCall, State.registerWaiter, hcc] using h.request i w hw hne

/-- A free identifier has no waiter the view sees. -/
theorem publisher_of_free (hi : (view s).Inv) {id : UInt16} (hfree : s.ids.inUse id = false) :
    (view s).waiting id = none := by
  cases hc : (view s).waiting id with
  | none => rfl
  | some c' => exact absurd (hi.waiter id c' hc).2.2 (hi.not_out hfree)

variable {b : Option LinkId} {l : LinkId} {id : UInt16} {gen : Nat} {ids : IdAllocator}
  {want : AckClass} {p : Packet} {io : Bool} {t : State}

/-- The identifier of a request whose frame could not be written is free again. -/
theorem request_unsent {e : ClientError} (hw : Wired b s) (hi : (view s).Inv)
    (hp : ∀ i, s.calls c ≠ .publishing i) (hid : s.ids.acquire = (some (id, gen), ids))
    (hr : ({ s with ids }.registerWaiter id c want).writeFrame l p io = (some e, t)) :
    Wired b (t.requestAborted c id gen) ∧ (t.requestAborted c id gen).calls = s.calls ∧
      (t.requestAborted c id gen).nextLink = s.nextLink ∧
      (view (t.requestAborted c id gen) = view s ∨
        view (t.requestAborted c id gen) = (view s).tear) := by
  obtain ⟨-, -, hgen, hfree, -⟩ := IdAllocator.acquire_some hid
  have hw' : Wired b { s with ids } :=
    ⟨hw.toLinked.congr rfl rfl rfl (fun _ => ⟨rfl, rfl, rfl⟩) ⟨rfl, rfl⟩ hgen,
      hw.toWaits.congr rfl fun _ _ h => h⟩
  obtain ⟨hwt, hkt, hvt⟩ := attempt_failed hw' hp (publisher_of_free hi hfree) hr
  refine ⟨⟨?_, ?_⟩, hkt.calls, hkt.nextLink, ?_⟩
  · exact hwt.toLinked.congr rfl rfl rfl (fun _ => ⟨rfl, rfl, rfl⟩) ⟨rfl, rfl⟩
      (IdAllocator.gen_releaseAt _ _ _)
  · exact hwt.toWaits.congr rfl fun _ _ h => h
  · have huse : ((t.removeWaiter id c).ids.releaseAt id gen).inUse = s.ids.inUse := by
      rw [hkt.ids]
      exact inUse_acquire_release hid
    have hg : ((t.removeWaiter id c).ids.releaseAt id gen).gen = s.ids.gen := by
      rw [IdAllocator.gen_releaseAt, hkt.ids]
      exact hgen
    have hview : view (t.requestAborted c id gen) =
        { view (t.removeWaiter id c) with used := s.ids.inUse, gen := s.ids.gen } := by
      rw [← huse, ← hg]
      rfl
    rw [hview]
    rcases hvt with hvt | hvt <;> rw [hvt]
    · exact .inl rfl
    · exact .inr rfl

/-- A request whose frame went out holds its identifier. -/
theorem request_sent {k : Call} (hw : Wired b s) (hi : (view s).Inv)
    (hc : s.calls c = .idle) (hfresh : ∀ l i, c = .resubscribe l i → l < s.nextLink)
    (hwant : want ≠ .publish) (hk : k.held = some (id, gen))
    (hid : s.ids.acquire = (some (id, gen), ids))
    (hr : ({ s with ids }.registerWaiter id c want).writeFrame l p io = (none, t)) :
    Wired b (t.setCall c k) ∧ view (t.setCall c k) = (view s).hold c id k ∧
      (view s).used id = false ∧ id ≠ 0 ∧ gen = (view s).gen := by
  obtain ⟨h0, hgen, hgen', hfree, -⟩ := IdAllocator.acquire_some hid
  have hp : ∀ i, s.calls c ≠ .publishing i := by simp [hc]
  have hkr : k.requests = true ∧ (∀ i, k ≠ .publishing i) ∧ ∀ l pkt, k ≠ .parked l pkt := by
    cases k <;> simp_all [Call.held, Call.requests]
  have hw' : Wired b { s with ids } :=
    ⟨hw.toLinked.congr rfl rfl rfl (fun _ => ⟨rfl, rfl, rfl⟩) ⟨rfl, rfl⟩ hgen',
      hw.toWaits.congr rfl fun _ _ h => h⟩
  obtain ⟨rfl, -⟩ := attempt_sent hr
  refine ⟨⟨?_, hw'.toWaits.requesting hwant hp hkr.1⟩, ?_, hfree, h0, hgen⟩
  · refine Linked.setCall ?_ hfresh fun l pkt heq => absurd heq (hkr.2.2 l pkt)
    exact hw'.toLinked.congr rfl rfl rfl (fun _ => ⟨rfl, rfl, rfl⟩) ⟨rfl, rfl⟩ rfl
  · have hw₀ : Function.update (view s).waiting id none = (view s).waiting := by
      rw [← publisher_of_free hi hfree]
      exact Function.update_eq_self id _
    have hview : view { s with ids } =
        { view s with used := Function.update (view s).used id true } := by
      simp only [view, inUse_acquire hid, hgen']
    rw [view_setCall hkr.2.1, view_log_transport rfl, view_registerWaiter (s := { s with ids }) hp,
      if_neg hwant, hview]
    simp only [Session.hold, Session.setCall, hw₀]

/-- An identifier that could not be had changes nothing. -/
theorem view_exhausted (hid : s.ids.acquire = (none, ids)) : view { s with ids } = view s := by
  obtain ⟨hgen, hsame⟩ := IdAllocator.acquire_none hid
  have huse : ids.inUse = s.ids.inUse := funext hsame
  simp only [view, huse, hgen]

theorem Wired.exhausted (hw : Wired b s) (hid : s.ids.acquire = (none, ids)) :
    Wired b { s with ids } :=
  ⟨hw.toLinked.congr rfl rfl rfl (fun _ => ⟨rfl, rfl, rfl⟩) ⟨rfl, rfl⟩
    (IdAllocator.acquire_none hid).1, hw.toWaits.congr rfl fun _ _ h => h⟩

/-- How `requestAck` can leave a call: failed, or holding an identifier. -/
theorem requestAck_cases {n : Nat} (l : LinkId) (r : Request) (want : AckClass)
    (mk : UInt16 → Packet) (io : Bool) (hw : Wired none s) (hi : (view s).Inv)
    (hc : s.calls (.api n) = .idle) (hwant : want ≠ .publish) :
    Wired none (s.requestAck (.api n) l r want mk io) ∧
    ((∃ ret, Session.Return.isRequest ret ∧
        (view (s.requestAck (.api n) l r want mk io) =
            ((view s).withdraw r).finish (.api n) ret ∨
          view (s.requestAck (.api n) l r want mk io) =
            (((view s).withdraw r).finish (.api n) ret).tear)) ∨
      ∃ id, (view s).used id = false ∧ id ≠ 0 ∧
        view (s.requestAck (.api n) l r want mk io) =
          (view s).hold (.api n) id (.requesting r id (view s).gen)) := by
  have hp : ∀ i, s.calls (.api n) ≠ .publishing i := by simp [hc]
  unfold State.requestAck
  split
  · rename_i ids hid
    obtain ⟨ret, hret, hv⟩ := view_failRequest { s with ids } (.api n) r .packetIDExhausted
    have hw' := hw.exhausted hid
    refine ⟨hw'.failRequest _ (by simp) (hw'.not_publisher hp), .inl ⟨ret, hret, .inl ?_⟩⟩
    rw [hv, view_exhausted hid]
  · rename_i id gen ids hid
    dsimp only
    split
    · rename_i e t hr
      obtain ⟨hwt, hcalls, hnext, hvt⟩ := request_unsent hw hi hp hid hr
      obtain ⟨ret, hret, hv⟩ := view_failRequest (t.requestAborted (.api n) id gen) (.api n) r e
      refine ⟨hwt.failRequest _ (by simp) (hwt.not_publisher (by rw [hcalls]; exact hp)),
        .inl ⟨ret, hret, ?_⟩⟩
      rw [hv]
      rcases hvt with hvt | hvt <;> rw [hvt]
      · exact .inl rfl
      · exact .inr (by rw [Session.tear_withdraw, Session.tear_finish])
    · rename_i t hr
      obtain ⟨hwt, hvt, hfree, h0, hgen⟩ := request_sent (k := .requesting r id gen) hw hi hc
        (by simp) hwant rfl hid hr
      exact ⟨hwt, .inr ⟨id, hfree, h0, by rw [hvt, hgen]⟩⟩

/-- What `Subscribe` registers. -/
def registration (s : State) (req : SubscribeRequest) : Subscription :=
  ⟨req.filter, req.handler, State.subscribeOptions req, s.subs.subSeq + 1, req.subscriptionID⟩

/-- `requestAck` after the provisional registration of `sub`. -/
theorem subscribe_requestAck {s₁ : State} {n : Nat} (sub : Subscription) (mk : UInt16 → Packet)
    (hw : Wired none s₁) (hv : view s₁ = (view s).register sub) (hi : (view s).Inv)
    (hc : s.calls (.api n) = .idle) (htok : sub.token = s.subs.subSeq + 1)
    (hroll : ∀ prev, s.subs.snapshot sub.filter = some prev → roll sub prev ∨
      ∃ r id gen, (s₁.requestAck (.api n) l (.subscribe sub.filter (s.subs.snapshot sub.filter)
        sub.token) .suback mk io).calls (.api n) = .requesting r id gen) :
    Refines ok roll s (s₁.requestAck (.api n) l (.subscribe sub.filter
      (s.subs.snapshot sub.filter) sub.token) .suback mk io) := by
  have hi₁ : (view s₁).Inv := by rw [hv]; exact (hi.subs _).notes (by simp [Session.Neutral])
  have hc₁ : s₁.calls (.api n) = .idle :=
    (congrFun (congrArg Session.calls hv) (.api n)).trans hc
  obtain ⟨hwt, ⟨ret, hret, hvt⟩ | ⟨id, hfree, h0, hvt⟩⟩ := requestAck_cases l
    (.subscribe sub.filter (s.subs.snapshot sub.filter) sub.token) .suback mk io hw hi₁ hc₁ (by simp)
  · refine ⟨hwt, Session.Moves.tearing (.single ?_) hvt⟩
    rw [hv]
    refine .subscribeFailed hc hret htok ?_
    show Session.RollsBack roll ((view s).register sub)
      (.subscribe sub.filter (s.subs.snapshot sub.filter) sub.token)
    cases hprev : s.subs.snapshot sub.filter with
    | none => exact trivial
    | some prev =>
      intro cur hcur _
      obtain ⟨-, -, hsnap⟩ := s.subs.snapshot_add sub.filter sub.options sub.handler sub.subID
      have hcur' : (s.subs.add sub.filter sub.options sub.handler sub.subID).2.snapshot
        sub.filter = some cur := hcur
      rw [hsnap, ← htok] at hcur'
      cases hcur'
      refine (hroll prev hprev).resolve_right ?_
      rintro ⟨r, id, gen, hreq⟩
      -- A failed call has returned.
      have hdone : (view (s₁.requestAck (.api n) l (.subscribe sub.filter
          (s.subs.snapshot sub.filter) sub.token) .suback mk io)).calls (.api n) = .done := by
        rcases hvt with hvt | hvt <;> rw [hvt] <;> simp [Session.finish, Session.setCall,
          Session.notes, Session.tear]
      rw [show (view _).calls (.api n) = _ from hreq] at hdone
      cases hdone
  · refine ⟨hwt, .single ?_⟩
    rw [hvt, hv]
    rw [hv] at hfree
    exact .subscribe hc hfree h0 htok

theorem subscribe_refines {n : Nat} (req : SubscribeRequest) (io : Bool) (hw : Wired none s)
    (hi : (view s).Inv) (hc : s.calls (.api n) = .idle)
    (hroll : ∀ prev, s.subs.snapshot req.filter = some prev → roll (registration s req) prev ∨
      ∃ r id gen, (s.subscribe (.api n) req io).calls (.api n) = .requesting r id gen) :
    Refines ok roll s (s.subscribe (.api n) req io) := by
  have hp : ∀ i, s.calls (.api n) ≠ .publishing i := by simp [hc]
  unfold State.subscribe at hroll ⊢
  split
  · refine ⟨hw.finish _ (by simp) (hw.not_publisher hp), ?_⟩
    rw [view_finish]
    exact .single (.reject hc trivial)
  · rename_i l hl
    simp only [hl] at hroll
    obtain ⟨htok, -, -⟩ := s.subs.snapshot_add req.filter (State.subscribeOptions req)
      req.handler req.subscriptionID
    simp only [htok] at hroll ⊢
    have hw₁ : Wired none { s with subs := (s.subs.add req.filter (State.subscribeOptions req)
        req.handler req.subscriptionID).2 } :=
      ⟨hw.toLinked.congr rfl rfl rfl (fun _ => ⟨rfl, rfl, rfl⟩) ⟨rfl, rfl⟩ rfl,
        hw.toWaits.congr rfl fun _ _ h => h⟩
    exact subscribe_requestAck (registration s req) _ (hw₁.log _) (view_log rfl) hi hc rfl hroll

theorem unsubscribe_refines {n : Nat} (filter : Bytes) (io : Bool) (hw : Wired none s)
    (hi : (view s).Inv) (hc : s.calls (.api n) = .idle) :
    Refines ok roll s (s.unsubscribe (.api n) filter io) := by
  have hp : ∀ i, s.calls (.api n) ≠ .publishing i := by simp [hc]
  have hreject : ∀ e, Refines ok roll s (s.finish (.api n) (.unsubscribed (some e))) := by
    intro e
    refine ⟨hw.finish _ (by simp) (hw.not_publisher hp), ?_⟩
    rw [view_finish]
    exact .single (.reject hc trivial)
  unfold State.unsubscribe
  split
  · exact hreject _
  · exact hreject _
  · rename_i l _ _
    obtain ⟨hwt, ⟨ret, hret, hvt⟩ | ⟨id, hfree, h0, hvt⟩⟩ := requestAck_cases l
      (.unsubscribe filter (s.subs.snapshot filter)) .unsuback
      (fun id => .unsubscribe ⟨s.cfg.protocolVersion, id, [filter], none⟩) io hw hi hc (by simp)
    · exact ⟨hwt, Session.Moves.tearing (.single (.reject hc hret)) hvt⟩
    · refine ⟨hwt, .single ?_⟩
      rw [hvt]
      exact .unsubscribe hc hfree h0

end request

/-! ## The return -/

section back

variable {s : State} {c : CallId}

theorem view_release (s : State) {id : UInt16} (h0 : id ≠ 0) (gen : Nat) :
    view { s with ids := s.ids.releaseAt id gen } = (view s).unhold id gen := by
  have huse : (s.ids.releaseAt id gen).inUse =
      if gen = s.ids.gen then Function.update s.ids.inUse id false else s.ids.inUse := by
    funext j
    rw [IdAllocator.inUse_releaseAt]
    by_cases hg : gen = s.ids.gen
    · by_cases hj : j = id <;> simp [hg, hj, h0]
    · simp [hg]
  unfold Session.unhold
  by_cases hg : gen = s.ids.gen
  · rw [if_pos hg] at huse
    rw [if_pos (show gen = (view s).gen from hg)]
    simp only [view, huse, IdAllocator.gen_releaseAt]
  · rw [if_neg hg] at huse
    rw [if_neg (show gen ≠ (view s).gen from hg)]
    simp only [view, huse, IdAllocator.gen_releaseAt]

theorem Wired.released {b : Option LinkId} (h : Wired b s) (id : UInt16) (gen : Nat) :
    Wired b { s with ids := s.ids.releaseAt id gen } :=
  ⟨h.toLinked.congr rfl rfl rfl (fun _ => ⟨rfl, rfl, rfl⟩) ⟨rfl, rfl⟩
    (IdAllocator.gen_releaseAt _ _ _), h.toWaits.congr rfl fun _ _ hw => hw⟩

theorem Wired.removeWaiter {b : Option LinkId} (h : Wired b s) (id : UInt16) (c : CallId) :
    Wired b (s.removeWaiter id c) :=
  ⟨h.toLinked.removeWaiter id c, h.toWaits.removeWaiter id c⟩

/-- A request that gives up has no exchange to drop. -/
theorem view_requestAborted (hw : Wired none s) (hp : ∀ i, s.calls c ≠ .publishing i) {id : UInt16}
    (h0 : id ≠ 0) (gen : Nat) : view (s.requestAborted c id gen) = (view s).unhold id gen := by
  have hdrop : (view s).drop id c = view s := by
    have hsame : (fun i => if i = id ∧ (view s).waiting i = some c then none
        else (view s).waiting i) = (view s).waiting := by
      funext i
      rw [if_neg]
      rintro ⟨-, hi⟩
      exact hw.not_publisher hp i (publisher_eq_some.mp hi)
    unfold Session.drop
    rw [hsame]
  unfold State.requestAborted
  dsimp only
  rw [view_release _ h0, view_removeWaiter, hdrop]

/-- A request that did not succeed gives its identifier back and undoes its
registration. -/
theorem requestFailed_refines {t : State} {r : Request} {id : UInt16} {gen : Nat} (e : ClientError)
    (ht : Wired none t) (hcalls : t.calls = s.calls)
    (hc : s.calls c = .requesting r id gen) (hv : view t = (view s).unhold id gen)
    (hroll : (view s).RollsBack roll r) : Refines ok roll s (t.failRequest c r e) := by
  have hct : t.calls c = .requesting r id gen := hcalls ▸ hc
  obtain ⟨ret, hret, hvt⟩ := view_failRequest t c r e
  refine ⟨ht.failRequest e (ht.started (by simp [hct])) (ht.not_publisher (by simp [hct])), ?_⟩
  rw [hvt, hv]
  exact .single (.requestFailed hc hret hroll)

theorem resubscribed_refines {t : State} {l : LinkId} {filter : Bytes} {id : UInt16} {gen : Nat}
    (ht : Wired none t) (hcalls : t.calls = s.calls)
    (hc : s.calls c = .resubscribing l filter id gen) (hv : view t = (view s).unhold id gen) :
    Refines ok roll s (t.setCall c .done) := by
  have hct : t.calls c = .resubscribing l filter id gen := hcalls ▸ hc
  refine ⟨⟨ht.toLinked.setCall (ht.started (by simp [hct])) (by simp), ht.toWaits.setCall ?_⟩, ?_⟩
  · rintro i ⟨ch, want⟩ hw rfl
    refine ⟨?_, rfl⟩
    rintro rfl
    exact ht.not_publisher (by simp [hct]) i hw
  · rw [view_setCall (by simp), hv]
    exact .single (.resubscribed hc)

theorem giveUp_refines (timeout : Bool) (hw : Wired none s) (hi : (view s).Inv)
    (hroll : ∀ r id gen, s.calls c = .requesting r id gen → (view s).RollsBack roll r) :
    Refines ok roll s (s.giveUp c timeout) := by
  unfold State.giveUp
  dsimp only
  split
  · rename_i l pkt hc
    split
    · exact ⟨hw, .refl⟩
    · refine ⟨hw.finish _ (hw.started (by simp [hc])) (hw.not_publisher (by simp [hc])), ?_⟩
      have hnil : (view s).notes [] = view s := by simp [Session.notes]
      have hmove : Session.Move ok roll (view s) (((view s).notes []).finish c _) :=
        .refused (.inr ⟨rfl, l, pkt, hc, rfl⟩) .contextDone
      rw [hnil] at hmove
      rw [view_finish]
      exact .single hmove
  · rename_i id hc
    have hw' := hw.removeWaiter id c
    refine ⟨hw'.finish _ ?_ ?_, ?_⟩
    · rw [(Keeps.removeWaiter s id c).nextLink]
      exact hw.started (by simp [hc])
    · intro i hlook
      -- The only waiter of a publishing call is the one just removed.
      have hci := hw'.publish i c hlook
      rw [(Keeps.removeWaiter s id c).calls, hc] at hci
      cases hci
      have hgone : publisher (s.removeWaiter id c).waiters id ≠ some c := by
        have hd : publisher (s.removeWaiter id c).waiters = ((view s).drop id c).waiting :=
          congrArg Session.waiting (view_removeWaiter s id c)
        rw [hd]
        simp only [Session.drop, true_and]
        split
        · simp
        · assumption
      exact hgone (publisher_eq_some.mpr hlook)
    · rw [view_finish, view_removeWaiter]
      exact .single (.abandon hc)
  · rename_i r id gen hc
    have h0 : id ≠ 0 := (hi.held_gen c id gen (by rw [show (view s).calls c = _ from hc]; rfl)).2
    exact requestFailed_refines _ ((hw.removeWaiter id c).released id gen)
      (Keeps.removeWaiter s id c).calls hc (view_requestAborted hw (by simp [hc]) h0 gen)
      (hroll r id gen hc)
  · rename_i l filter id gen hc
    have h0 : id ≠ 0 := (hi.held_gen c id gen (by rw [show (view s).calls c = _ from hc]; rfl)).2
    split
    · exact resubscribed_refines ((hw.removeWaiter id c).released id gen)
        (Keeps.removeWaiter s id c).calls hc (view_requestAborted hw (by simp [hc]) h0 gen)
    · exact ⟨hw, .refl⟩
  · exact ⟨hw, .refl⟩

theorem collect_refines (hw : Wired none s) (hi : (view s).Inv)
    (hroll : ∀ r id gen res, s.calls c = .requesting r id gen → s.inbox c = some res →
      res.failure r.packetType ≠ none → (view s).RollsBack roll r) :
    Refines ok roll s (s.collect c) := by
  unfold State.collect
  split
  · exact ⟨hw, .refl⟩
  · rename_i res hres
    split
    · rename_i id hc
      have hbox : (view s).inbox c = some res := by simp only [view, hc, hres]
      refine ⟨hw.finish _ (hw.started (by simp [hc])) ?_, ?_⟩
      · intro i hlook
        have hwait := (hi.waiter i c (publisher_eq_some.mpr hlook)).2.1
        rw [hbox] at hwait
        cases hwait
      · rw [view_finish]
        exact .single (.answer hc hbox)
    · rename_i r id gen hc
      have h0 : id ≠ 0 := (hi.held_gen c id gen (by rw [show (view s).calls c = _ from hc]; rfl)).2
      have hw' := hw.released id gen
      dsimp only
      split
      · rename_i e he
        exact requestFailed_refines e hw' rfl hc (view_release s h0 gen)
          (hroll r id gen res hc hres (by simp [he]))
      · obtain ⟨ret, hret, hvt⟩ := view_completeRequest { s with ids := s.ids.releaseAt id gen } c r
          res.code
        refine ⟨hw'.completeRequest _ (hw.started (by simp [hc])) (hw.not_publisher (by simp [hc])),
          ?_⟩
        rw [hvt, view_release s h0 gen]
        exact .single (.requestDone hc hret)
    · rename_i l filter id gen hc
      have h0 : id ≠ 0 := (hi.held_gen c id gen (by rw [show (view s).calls c = _ from hc]; rfl)).2
      exact resubscribed_refines (hw.released id gen) rfl hc (view_release s h0 gen)
    · exact ⟨hw, .refl⟩

end back

end GoMqtt.Client
