import GoMqtt.Concurrent.Accounts

/-! # Custody over whole runs

The other half of the steps. A read loop that ends an exchange has it in its hands from
the entry to the permit. `Connect` discards what is held with the session, or counts
the entries and makes each the holder of a permit of the new generation. -/
namespace GoMqtt.Concurrent
open GoMqtt.Protocol GoMqtt.Session GoMqtt.Client GoMqtt.Lib

/-! ## Steps that no call takes -/

section moves

variable {w w' : World}

theorem Accounted.moved (h : Accounted w) (hu : Units w') (hm : Moves w w')
    (hcalls : w'.book.calls = w.book.calls)
    (hclean : ∀ c, (w.procs c).cleaning = true → w'.conn.applying = false ∧ w'.Cur c)
    (hhold : ∀ c, w'.Hold c → w'.Keeps c ∨ ∃ l r, w'.conn = .idsReset l r)
    (hcharge : ∀ c, w'.Charged c → w'.Due c ∨ w'.conn.calm = false)
    (hpaid : ∀ c, w'.Charged c → (w.procs c).pc ≠ .idle ∧ (w.procs c).pc ≠ .acquire)
    (hnodup : w'.book.charged.Nodup)
    (hadopt : ∀ l r n, w'.conn = .quotaReset l r n →
      w'.book.counted.Nodup ∧ ∀ c, w'.Counted c → w'.Own c)
    (hcause : ∀ c, w'.Own c → w'.Cur c ∨ w'.Counted c) : Accounted w' := by
  refine ⟨hu, ?_, ?_, ?_, ?_, hhold, hcharge, ?_, hnodup, hadopt, hcause, ?_⟩
  · rw [hm.procs, hcalls]
    exact h.known
  · rw [hm.procs]
    exact h.publisher
  · rw [hm.procs]
    exact h.unfailed
  · rw [hm.procs]
    exact hclean
  · rw [hm.procs]
    exact hpaid
  · intro c hd hf hcur ho
    rw [hm.procs] at hd hf
    exact h.stale c hd hf (hm.cur h.units hcur).1 (hm.own ho)

/-- Nothing changes hands, and an exchange that a read loop is ending it goes on ending,
unless what it gives back counts for nothing. -/
structure Undisturbed (w w' : World) : Prop where
  same : Same w w'
  own : ∀ c, w.Own c → w'.Own c
  due : ∀ l, (w.readers l).closing = true → (w.mem.links l).quotaGen = w.mem.quota.gen →
    (w'.readers l).closing = true ∧ (w'.mem.links l).quotaGen = (w.mem.links l).quotaGen
  keeps : ∀ l id res, w.readers l = .ackFreeId id res →
    (w.mem.links l).idGen = w.mem.ids.gen →
    w'.readers l = .ackFreeId id res ∧ (w'.mem.links l).idGen = (w.mem.links l).idGen

variable {c : CallId}

theorem Undisturbed.toDue (h : Undisturbed w w') (hd : w.Due c) : w'.Due c := by
  have hq := h.same.quotaGen
  rcases hd with ⟨howes, hcur⟩ | hown | ⟨l, hl, hcl, hg⟩
  · refine .inl ?_
    unfold World.Cur
    rw [h.same.procs, hq]
    exact ⟨howes, hcur⟩
  · exact .inr (.inl (h.own c hown))
  · obtain ⟨hl', hg'⟩ := h.due l hl hg
    exact .inr (.inr ⟨l, hl', by rw [h.same.book]; exact hcl, by rw [hg', hq, hg]⟩)

theorem Undisturbed.toKeeps (h : Undisturbed w w') (hk : w.Keeps c) : w'.Keeps c := by
  have hi := h.same.idGen
  rcases hk with ⟨howes, hg⟩ | hown | ⟨l, id, res, hl, hcl, hg⟩
  · refine .inl ?_
    rw [h.same.procs, hi]
    exact ⟨howes, hg⟩
  · exact .inr (.inl (h.own c hown))
  · obtain ⟨hl', hg'⟩ := h.keeps l id res hl hg
    exact .inr (.inr ⟨l, id, res, hl', by rw [h.same.book]; exact hcl, by rw [hg', hi, hg]⟩)

/-- Such a step keeps the invariant, within `applySession` and where it is not entered. -/
theorem Accounted.congr (h : Accounted w) (hu : Units w') (hs : Undisturbed w w')
    (hc : w'.conn = w.conn ∨ w.conn.calm = true ∧ (∀ l r n, w'.conn ≠ .quotaReset l r n) ∧
      ∀ c, (w.procs c).cleaning = true → w'.conn.applying = false) : Accounted w' := by
  have hbook := hs.same.book
  have hcur : ∀ c, w'.Cur c ↔ w.Cur c := by
    intro c
    unfold World.Cur
    rw [hs.same.procs, hs.same.quotaGen]
  have hcnt : ∀ c, w'.Counted c ↔ w.Counted c := by
    intro c
    unfold World.Counted
    rw [hbook]
  have hch : w'.book.charged = w.book.charged := by rw [hbook]
  refine h.moved hu hs.same.moves (by rw [hbook]) ?_ ?_ ?_ ?_ ?_ ?_ ?_
  · intro c hcl
    obtain ⟨happ, hcu⟩ := h.clean c hcl
    refine ⟨?_, (hcur c).mpr hcu⟩
    rcases hc with hc | ⟨-, -, hc⟩
    · rw [hc, happ]
    · exact hc c hcl
  · intro c hh
    refine (h.hold c ((hs.same.hold c).mp hh)).imp hs.toKeeps ?_
    rintro ⟨l, r, hr⟩
    rcases hc with hc | ⟨hc, -⟩
    · exact ⟨l, r, hc.trans hr⟩
    · rw [hr] at hc
      cases hc
  · intro c hh
    unfold World.Charged at hh
    rw [hch] at hh
    refine (h.charge c hh).imp hs.toDue fun hcalm => ?_
    rcases hc with hc | ⟨hc, -⟩
    · rw [hc, hcalm]
    · rw [hc] at hcalm
      cases hcalm
  · unfold World.Charged
    rw [hch]
    exact h.paid
  · rw [hch]
    exact h.nodup
  · intro l r n hn
    rcases hc with hc | ⟨-, hc, -⟩
    · obtain ⟨hnd, hown⟩ := h.adopt l r n (hc.symm.trans hn)
      exact ⟨by rw [hbook]; exact hnd, fun c hcc => hs.own c (hown c ((hcnt c).mp hcc))⟩
    · exact absurd hn (hc l r n)
  · intro c ho
    rw [hcur, hcnt]
    exact h.cause c (hs.same.moves.own ho)

end moves

/-! ## Steps of a read loop -/

section read

variable {w w' : World} {l : LinkId} {m' : State} {pc' : ReadPc}

/-- What is stored stays, unless an acknowledgement takes it out. -/
theorem readStep_stored (he : w.Ends l (w.readers l))
    (hread : readStep w.mem l (w.readers l) = some (m', pc'))
    (hne : ¬ ∃ id kind res, w.readers l = .ackDelete id kind res) {id : UInt16}
    (hs : Stored w.mem.store id) : Stored m'.store id := by
  cases hpc : w.readers l with
  | off | reading | exited =>
    rw [hpc] at hread
    cases hread
  | ackDelete i kind res => exact absurd ⟨i, kind, res, hpc⟩ hne
  | recSave i | inSave i =>
    rw [hpc] at hread
    cases hread
    exact hs.imp (by simp +contextual) (by simp +contextual)
  | recDelete i =>
    rw [hpc] at hread he
    cases hread
    have hrel : w.mem.store.contains i .pubrel = true := he
    by_cases hid : id = i
    · subst hid
      exact .inr (by simpa using hrel)
    · exact hs.imp (by simp [hid]) (by simp)
  | relDelete i =>
    rw [hpc] at hread
    cases hread
    exact hs.imp (by simp) (by simp)
  | signal i got res =>
    rw [hpc] at hread
    cases hread
    rw [signalWaiter_eq]
    exact hs
  | _ =>
    rw [hpc] at hread
    cases hread
    exact hs

theorem Accounted.read_quiet (h : Accounted w) (hu : Units (w.readBy l m' pc'))
    (he : w.Ends l (w.readers l)) (hread : readStep w.mem l (w.readers l) = some (m', pc'))
    (hne : ¬ ∃ id kind res, w.readers l = .ackDelete id kind res) (hq : Quiet w l m' pc') :
    Accounted (w.readBy l m' pc') := by
  have hr := readBy_spec hread
  refine h.congr hu ⟨hq.same hread, fun c ho => hr.own (readStep_stored he hread hne ho.1) ho,
    ?_, ?_⟩ (.inl rfl)
  · intro k hk hg
    rw [hr.links]
    by_cases hkl : k = l
    · subst hkl
      rw [readBy_self]
      exact ⟨hq.due hk hg, rfl⟩
    · rw [hr.other k hkl]
      exact ⟨hk, rfl⟩
  · intro k id res hk hg
    rw [hr.links]
    by_cases hkl : k = l
    · subst hkl
      exact absurd hg (hq.keeps id res hk)
    · rw [hr.other k hkl]
      exact ⟨hk, rfl⟩

/-- What is left to show where a read loop ends an exchange. -/
theorem Accounted.ended (h : Accounted w) (hu : Units w') (hr : ReadBy w w' l) (hm : Moves w w')
    (hadopt : (∀ c, w.Own c → w'.Own c) ∨ w.conn.halfway = false)
    (hhold : ∀ c, w'.Hold c → w'.Keeps c ∨ ∃ l r, w.conn = .idsReset l r)
    (hcharge : ∀ c, w'.Charged c → w'.Due c ∨ w.conn.calm = false)
    (hpaid : ∀ c, w'.Charged c → w.Charged c) (hnodup : w'.book.charged.Nodup) :
    Accounted w' := by
  have hcounted : ∀ c, w'.Counted c ↔ w.Counted c := by
    intro c
    unfold World.Counted
    rw [hr.counted]
  refine h.moved hu hm hr.calls ?_ (by rw [hr.conn]; exact hhold) (by rw [hr.conn]; exact hcharge)
    (fun c hc => h.paid c (hpaid c hc)) hnodup ?_ ?_
  · intro c hcl
    rw [hr.conn, hr.cur]
    exact h.clean c hcl
  · intro k r n hc
    rw [hr.conn] at hc
    rcases hadopt with hown | hhalf
    · obtain ⟨hnd, ho⟩ := h.adopt k r n hc
      exact ⟨by rw [hr.counted]; exact hnd, fun c hcc => hown c (ho c ((hcounted c).mp hcc))⟩
    · rw [hc] at hhalf
      cases hhalf
  · intro c ho
    rw [hr.cur, hcounted]
    exact h.cause c (hm.own ho)

/-- The exchange whose entry is taken out passes to the read loop. -/
theorem Accounted.read_ackDelete (h : Accounted w) (hu : Units w') {id : UInt16}
    {kind : StoredKind} {res : AckResult} (hpc : w.readers l = .ackDelete id kind res)
    (he : w.Ends l (w.readers l)) (hr : ReadBy w w' l)
    (hw : w' = w.readBy l { w.mem with store := w.mem.store.delete id kind } (.ackFreeId id res)) :
    Accounted w' := by
  rw [hpc] at he
  obtain ⟨⟨hq, hi⟩, hhalf⟩ := he
  have hbook : w'.book = { w.book with
      closing := Function.update w.book.closing l (w.book.savedBy id) } := by
    rw [hw]
    simp only [setReader_book, hpc, Book.ofRead]
  have hself : w'.readers l = .ackFreeId id res := by rw [hw, readBy_self]
  have hcb : ∀ k, k ≠ l → w.book.closing k = w'.book.closing k := by
    intro k hkl
    rw [hbook]
    exact (Function.update_of_ne hkl _ _).symm
  have hm : Moves w w' := by
    refine hr.moves ?_
    rw [hw]
    exact fun j hj => hj.of_delete
  have hown : ∀ c, w'.book.closing l ≠ c → w.Own c → w'.Own c := by
    intro c hne ho
    refine hr.own ?_ ho
    have hid : (w.procs c).id ≠ id := by
      intro hid
      refine hne ?_
      rw [hbook, ← hid]
      exact (Function.update_self _ _ _).trans ho.2
    rw [hw]
    exact ho.1.imp (by simp [hid]) (by simp [hid])
  refine h.ended hu hr hm (.inr hhalf) ?_ ?_ ?_ (by rw [hbook]; exact h.nodup)
  · intro c hh
    have hold : w.Hold c := by
      refine hr.hold ?_ hh
      rw [hw]
      exact fun _ hu => hu
    refine (h.hold c hold).imp_left fun hk => (keeps_iff w' l c).mpr ?_
    by_cases hcl : w'.book.closing l = c
    · exact .inr ⟨id, res, hself, hcl, by rw [hr.links, hr.idGen, hi]⟩
    · rcases (keeps_iff w l c).mp hk with hk | ⟨j, r, hk, -⟩
      · exact .inl (hr.symm.keepsApart hcb (hown c hcl) hk)
      · rw [hpc] at hk
        cases hk
  · intro c hch
    unfold World.Charged at hch
    rw [hbook] at hch
    refine (h.charge c hch).imp_left fun hd => (due_iff w' l c).mpr ?_
    by_cases hcl : w'.book.closing l = c
    · exact .inr ⟨by rw [hself]; rfl, hcl, by rw [hr.links, hr.quotaGen, hq]⟩
    · rcases (due_iff w l c).mp hd with hd | ⟨hk, -⟩
      · exact .inl (hr.symm.dueApart hcb (hown c hcl) hd)
      · rw [hpc] at hk
        cases hk
  · unfold World.Charged
    rw [hbook]
    exact fun _ hch => hch

/-- The identifier is freed once, and the permit stays in the read loop's hands. -/
theorem Accounted.read_ackFreeId (h : Accounted w) (hu : Units w') {id : UInt16}
    {res : AckResult} (hpc : w.readers l = .ackFreeId id res)
    (hg : (w.mem.links l).idGen = w.mem.ids.gen) (hr : ReadBy w w' l)
    (hw : w' = w.readBy l { w.mem with ids := w.mem.ids.releaseAt id (w.mem.links l).idGen }
      (.ackFreePermit id res)) : Accounted w' := by
  have hid := (h.units.reader l).target id res hpc hg
  have huse := (h.units.keeps _ (.inr (.inr ⟨l, id, res, hpc, rfl, hg⟩))).1.1
  rw [hid] at huse
  have hbook : w'.book = { w.book with frees := w.book.heldBy id :: w.book.frees } := by
    rw [hw]
    simp only [setReader_book, hpc, Book.ofRead, Book.free, hg, if_true]
  have huse' : ∀ j, w'.mem.ids.inUse j = true → j ≠ id ∧ w.mem.ids.inUse j = true := by
    intro j
    have h0 := (h.units.held id huse).1
    rw [hw]
    simp [IdAllocator.inUse_releaseAt, h0, hg]
  have hcb : w.book.closing = w'.book.closing := by rw [hbook]
  have hst : w'.mem.store = w.mem.store := by rw [hw]; rfl
  have hown : ∀ c, w.Own c → w'.Own c := fun c ho => hr.own (by rw [hst]; exact ho.1) ho
  refine h.ended hu hr (hr.moves (by rw [hst]; exact fun _ hs => hs)) (.inl hown) ?_ ?_ ?_
    (by rw [hbook]; exact h.nodup)
  · intro c hh
    have hne := (huse' _ hh.1).1
    rw [hr.procs] at hne
    refine (h.hold c (hr.hold (fun j hj => (huse' j hj).2) hh)).imp_left fun hk => ?_
    rcases (keeps_iff w l c).mp hk with hk | ⟨-, -, -, hcl, -⟩
    · exact (keeps_iff w' l c).mpr
        (.inl (hr.symm.keepsApart (fun k _ => congrFun hcb k) (hown c) hk))
    · rw [hcl] at hid
      exact absurd hid hne
  · intro c hch
    unfold World.Charged at hch
    rw [hbook] at hch
    refine (h.charge c hch).imp_left fun hd => (due_iff w' l c).mpr ?_
    rcases (due_iff w l c).mp hd with hd | ⟨-, hcl, hgl⟩
    · exact .inl (hr.symm.dueApart (fun k _ => congrFun hcb k) (hown c) hd)
    · refine .inr ⟨by rw [hw, readBy_self]; rfl, by rw [← hcb]; exact hcl, ?_⟩
      rw [hr.links, hr.quotaGen, hgl]
  · unfold World.Charged
    rw [hbook]
    exact fun _ hch => hch

theorem Accounted.read_ackFreePermit (h : Accounted w) (hu : Units w') {id : UInt16}
    {res : AckResult} (hpc : w.readers l = .ackFreePermit id res)
    (hg : (w.mem.links l).quotaGen = w.mem.quota.gen) (hr : ReadBy w w' l)
    (hw : w' = w.readBy l { w.mem with quota := w.mem.quota.releaseAt (w.mem.links l).quotaGen }
      (.signal id .publish res)) : Accounted w' := by
  have hbook : w'.book = { w.book with
      charged := w.book.charged.erase (w.book.closing l)
      credits := (w.book.closing l, w.mem.quota.gen) :: w.book.credits } := by
    rw [hw]
    simp only [setReader_book, hpc, Book.ofRead, Book.credit, hg, if_true]
  have hcb : w.book.closing = w'.book.closing := by rw [hbook]
  have hst : w'.mem.store = w.mem.store := by rw [hw]; rfl
  have hown : ∀ c, w.Own c → w'.Own c := fun c ho => hr.own (by rw [hst]; exact ho.1) ho
  have hcharged : ∀ c, w'.Charged c → c ≠ w.book.closing l ∧ w.Charged c := by
    intro c hch
    unfold World.Charged at hch
    rw [hbook] at hch
    exact h.nodup.mem_erase_iff.mp hch
  refine h.ended hu hr (hr.moves (by rw [hst]; exact fun _ hs => hs)) (.inl hown) ?_ ?_
    (fun c hch => (hcharged c hch).2) (by rw [hbook]; exact h.nodup.erase _)
  · intro c hh
    have hold : w.Hold c := by
      refine hr.hold ?_ hh
      rw [hw]
      exact fun _ hu => hu
    refine (h.hold c hold).imp_left fun hk => ?_
    rcases (keeps_iff w l c).mp hk with hk | ⟨j, r, hk, -⟩
    · exact (keeps_iff w' l c).mpr
        (.inl (hr.symm.keepsApart (fun k _ => congrFun hcb k) (hown c) hk))
    · rw [hpc] at hk
      cases hk
  · intro c hch
    obtain ⟨hne, hold⟩ := hcharged c hch
    refine (h.charge c hold).imp_left fun hd => ?_
    rcases (due_iff w l c).mp hd with hd | ⟨-, hcl, -⟩
    · exact (due_iff w' l c).mpr
        (.inl (hr.symm.dueApart (fun k _ => congrFun hcb k) (hown c) hd))
    · exact absurd hcl.symm hne

theorem Accounted.read (h : Accounted w) (hf : w.Finds l (w.readers l))
    (he : w.Ends l (w.readers l)) (hread : readStep w.mem l (w.readers l) = some (m', pc')) :
    Accounted (w.readBy l m' pc') := by
  have hu := h.units.read hf hread
  have hr := readBy_spec hread
  by_cases hdel : ∃ id kind res, w.readers l = .ackDelete id kind res
  · obtain ⟨id, kind, res, hpc⟩ := hdel
    rw [hpc] at hread
    cases hread
    exact h.read_ackDelete hu hpc he hr rfl
  rcases readStep_quiet hf hread with hpc | ⟨id, res, hpc, hg⟩ | ⟨id, res, hpc, hg⟩ | hq
  · exact absurd hpc hdel
  · rw [hpc] at hread
    cases hread
    exact h.read_ackFreeId hu hpc hg hr rfl
  · rw [hpc] at hread
    cases hread
    exact h.read_ackFreePermit hu hpc hg hr rfl
  · exact h.read_quiet hu he hread hdel hq

end read

/-! ## Steps of Connect -/

section connect

variable {w w' : World} {l : LinkId} {r : ConnectResult}

theorem Accounted.conn_storeReset (h : Accounted w) (hu : Units w') (ht : w.Tidy)
    (hw : w' = { w with
      mem := { w.mem with store := w.mem.store.reset }, conn := .idsReset l r
      book := { w.book with resetFor := l } }) : Accounted w' := by
  subst hw
  have hgone : ∀ id, ¬ Stored w.mem.store.reset id := by simp [Stored]
  refine h.moved hu ⟨rfl, rfl, fun id hs => absurd hs (hgone id), Nat.le_refl _, Nat.le_refl _⟩ rfl
    ?_ (fun _ _ => .inr ⟨l, r, rfl⟩) (fun _ _ => .inr rfl) h.paid h.nodup
    (fun _ _ _ hn => by cases hn) (fun c ho => absurd ho.1 (hgone _))
  intro c hc
  rw [h.tidy ht c] at hc
  cases hc

theorem Accounted.conn_idsReset (h : Accounted w) (hu : Units w') (ht : w.Tidy)
    (hw : w' = { w with mem := { w.mem with ids := w.mem.ids.reset }, conn := .count l r }) :
    Accounted w' := by
  subst hw
  refine h.moved hu ⟨rfl, rfl, fun _ hs => hs, Nat.le_refl _, Nat.le_succ _⟩ rfl ?_ ?_
    (fun _ _ => .inr rfl) h.paid h.nodup (fun _ _ _ hn => by cases hn) h.cause
  · intro c hc
    rw [h.tidy ht c] at hc
    cases hc
  · intro c hh
    have huse := hh.1
    simp at huse

/-- Each exchange in flight is counted once. -/
theorem Units.inflight_nodup (h : Units w) (hleg : OneLeg w.mem.store) :
    (w.book.inflight w.mem.store).Nodup := by
  refine (List.nodup_map_iff_inj_on (List.Nodup.of_map _ hleg)).mpr ?_
  intro a ha b hb heq
  refine List.inj_on_of_nodup_map hleg ha hb ?_
  obtain ⟨hall, hout⟩ := List.mem_filter.mp ha
  obtain ⟨hall', hout'⟩ := List.mem_filter.mp hb
  rw [← (h.entry a.id (stored_of_outbound hout (contains_of_mem hall))).1,
    ← (h.entry b.id (stored_of_outbound hout' (contains_of_mem hall'))).1, heq]

theorem Units.own_of_inflight (h : Units w) {c : CallId}
    (hc : c ∈ w.book.inflight w.mem.store) : w.Own c := by
  obtain ⟨m, hm, rfl⟩ := List.mem_map.mp hc
  obtain ⟨hall, hout⟩ := List.mem_filter.mp hm
  exact h.own_savedBy (stored_of_outbound hout (contains_of_mem hall))

theorem Accounted.conn_count (h : Accounted w) (hu : Units w') (hc : w.conn = .count l r)
    (ht : w.Tidy) (hleg : OneLeg w.mem.store)
    (hw : w' = { w with
      conn := .quotaReset l r (State.inflightPermits w.mem.store)
      book := { w.book with counted := w.book.inflight w.mem.store } }) : Accounted w' := by
  subst hw
  refine h.moved hu ⟨rfl, rfl, fun _ hs => hs, Nat.le_refl _, Nat.le_refl _⟩ rfl ?_ ?_
    (fun _ _ => .inr rfl) h.paid h.nodup ?_ (fun c ho => .inr (mem_inflight ho))
  · intro c hcl
    rw [h.tidy ht c] at hcl
    cases hcl
  · intro c hh
    refine .inl ((h.hold c hh).resolve_right ?_)
    rintro ⟨k, r', hk⟩
    rw [hc] at hk
    cases hk
  · exact fun _ _ _ _ => ⟨h.units.inflight_nodup hleg, fun c hcc => h.units.own_of_inflight hcc⟩

/-- What was counted is what is charged. -/
theorem Accounted.conn_quotaReset (h : Accounted w) (hu : Units w') {n : Nat}
    (hc : w.conn = .quotaReset l r n) (ht : w.Tidy)
    (hw : w' = { w with
      mem := { w.mem with quota := w.mem.quota.reset (max (quotaSize w.mem.cfg r - n) 0) }
      conn := .capture l r
      book := { w.book with
        charged := w.book.counted
        ceiling := max (quotaSize w.mem.cfg r - n) 0 + n } }) : Accounted w' := by
  obtain ⟨hnd, hown⟩ := h.adopt l r n hc
  subst hw
  refine h.moved hu ⟨rfl, rfl, fun _ hs => hs, Nat.le_succ _, Nat.le_refl _⟩ rfl ?_ ?_
    (fun c hch => .inl (.inr (.inl (hown c hch)))) ?_ hnd (fun _ _ _ hn => by cases hn)
    (fun c ho => .inr ((h.units.counting l r n hc).1 c ho))
  · intro c hcl
    rw [h.tidy ht c] at hcl
    cases hcl
  · intro c hh
    refine .inl ((h.hold c hh).resolve_right ?_)
    rintro ⟨k, r', hk⟩
    rw [hc] at hk
    cases hk
  · intro c hch
    have hlate := (owes_of_saved (h.units.saved_of_own (hown c hch))).2.2
    constructor <;>
    · intro hpc
      rw [hpc] at hlate
      cases hlate

/-- Past `applySession` nothing changes hands. -/
theorem Accounted.conn_later (h : Accounted w) {m' : State} {pc : ConnPc}
    (hconn : connStep w.mem w.conn = some (m', pc)) (ha : w.conn.applying = false) :
    Accounted (w.connected m' pc) := by
  have hs := h.units.linked.same_later hconn ha
  obtain ⟨hst, -, -, -, hpc, hlinks⟩ := h.units.linked.connStep_later hconn ha
  have hread : ∀ k, (w.readers k).closing = true → w.spawn.readers k = w.readers k ∧
      m'.links k = w.mem.links k := by
    intro k hk
    have hoff : w.readers k ≠ .off := by
      intro hoff
      rw [hoff] at hk
      cases hk
    exact ⟨(h.units.linked.spawn_readers k).resolve_right fun hr => hoff hr.1,
      (hlinks k).resolve_right fun hr => hoff hr.1⟩
  refine h.congr (h.units.conn_later hconn ha) ⟨hs, ?_, ?_, ?_⟩ (.inr ⟨?_, ?_, fun _ _ => hpc⟩)
  · intro c ho
    unfold World.Own
    rw [hs.procs, hs.book]
    dsimp only
    rw [hst]
    exact ho
  · intro k hk _
    dsimp only
    rw [(hread k hk).1, (hread k hk).2]
    exact ⟨hk, rfl⟩
  · intro k id res hk _
    have hcl : (w.readers k).closing = true := by rw [hk]; rfl
    dsimp only
    rw [(hread k hcl).1, (hread k hcl).2]
    exact ⟨hk, rfl⟩
  · cases hc : w.conn <;> first | rfl | (rw [hc] at ha; cases ha)
  · intro k r n hn
    have hn : pc = .quotaReset k r n := hn
    rw [hn] at hpc
    cases hpc

theorem Accounted.connects (h : Accounted w) {m' : State} {pc : ConnPc}
    (hconn : connStep w.mem w.conn = some (m', pc)) (ht : w.conn.applying = true → w.Tidy)
    (hleg : w.conn.counts = true → OneLeg w.mem.store) : Accounted (w.connected m' pc) := by
  have hu := h.units.connects hconn
  by_cases ha : w.conn.applying = false
  · exact h.conn_later hconn ha
  have ha : w.conn.applying = true := by simpa using ha
  have hw : w.connected m' pc =
      { w with mem := m', conn := pc, book := w.book.ofConn w.mem w.conn } := by
    unfold World.connected
    rw [spawn_of_applying ha]
  cases hc : w.conn with
  | storeReset l r =>
    rw [hc] at hconn hw
    cases hconn
    exact h.conn_storeReset hu (ht ha) hw
  | idsReset l r =>
    rw [hc] at hconn hw
    cases hconn
    exact h.conn_idsReset hu (ht ha) hw
  | count l r =>
    rw [hc] at hconn hw hleg
    cases hconn
    exact h.conn_count hu hc (ht ha) (hleg rfl) hw
  | quotaReset l r n =>
    rw [hc] at hconn hw
    cases hconn
    exact h.conn_quotaReset hu hc (ht ha) hw
  | idle | capture | load | resub =>
    rw [hc] at ha
    cases ha

theorem Accounted.begin (h : Accounted w) (hu : Units (w.begin r)) (hc : w.conn = .idle)
    (ht : w.Tidy) : Accounted (w.begin r) := by
  refine h.congr hu ⟨?_, fun _ ho => ho, fun _ hk _ => ⟨hk, rfl⟩, fun _ _ _ hk _ => ⟨hk, rfl⟩⟩
    (.inr ⟨by rw [hc]; rfl, ?_, ?_⟩)
  · exact ⟨rfl, rfl, fun _ hs => hs, fun _ => rfl, rfl, rfl, rfl,
      fun k hk => ⟨hk, rfl, rfl, fun _ _ hpc => hpc⟩⟩
  · intro k r' n hn
    unfold World.begin at hn
    dsimp only at hn
    split at hn <;> cases hn
  · intro c hcl
    rw [h.tidy ht c] at hcl
    cases hcl

/-! ## The other steps -/

theorem Accounted.receive (h : Accounted w) {f : Client.Frame} (hl : w.readers l = .reading)
    (hu : Units (w.setReader l (.checkStop f))) : Accounted (w.setReader l (.checkStop f)) := by
  have hread : ∀ k, (w.readers k).closing = true →
      (w.setReader l (.checkStop f)).readers k = w.readers k := by
    intro k hk
    refine (received_reader k).resolve_right ?_
    rintro ⟨rfl, -⟩
    rw [hl] at hk
    cases hk
  refine h.congr hu ⟨same_receive, fun _ ho => ho, ?_, ?_⟩ (.inl rfl)
  · intro k hk _
    rw [hread k hk]
    exact ⟨hk, rfl⟩
  · intro k id res hk _
    rw [hread k (by rw [hk]; rfl)]
    exact ⟨hk, rfl⟩

theorem Accounted.teardown (h : Accounted w) {m' : State} {pc : TearPc}
    (htear : tearStep w.mem l (w.tears l) = some (m', pc))
    (hu : Units ({ w with mem := m' }.setTear l pc)) :
    Accounted ({ w with mem := m' }.setTear l pc) := by
  obtain ⟨hst, -, -, -, hlinks⟩ := tearStep_same htear
  refine h.congr hu ⟨same_teardown htear, ?_, fun k hk _ => ⟨hk, (hlinks k).1⟩,
    fun k _ _ hk _ => ⟨hk, (hlinks k).2⟩⟩ (.inl rfl)
  intro c ho
  unfold World.Own
  rw [setTear_mem, hst]
  exact ho

theorem Accounted.start (h : Accounted w) {c : CallId} {job : Job}
    (hpc : (w.procs c).pc = .idle) (hu : Units (w.started c job l)) :
    Accounted (w.started c job l) := by
  have hne : ∀ d, (w.procs d).pc ≠ .idle → (w.started c job l).procs d = w.procs d := by
    intro d hd
    refine started_of_ne ?_
    rintro rfl
    exact hd hpc
  have hown : ∀ d, w.Own d → (w.started c job l).Own d := by
    intro d ho
    unfold World.Own
    rw [started_of_ne (h.units.started_ne hpc (.inl ho))]
    exact ho
  refine ⟨hu, ?_, ?_, ?_, ?_, ?_, ?_, ?_, h.nodup, ?_, ?_, ?_⟩
  · intro d hd
    refine List.mem_cons.mpr ?_
    by_cases hdc : d = c
    · exact .inl hdc
    · rw [started_of_ne hdc] at hd
      exact .inr (h.known d hd)
  · intro d hd
    by_cases hdc : d = c
    · subst hdc
      rw [started_self] at hd ⊢
      dsimp only at hd ⊢
      split at hd
      · assumption
      · cases hd
    · rw [started_of_ne hdc] at hd ⊢
      exact h.publisher d hd
  · intro d hd
    by_cases hdc : d = c
    · subst hdc
      rw [started_self]
    · rw [started_of_ne hdc] at hd ⊢
      exact h.unfailed d hd
  · intro d hd
    have hdc : d ≠ c := by
      rintro rfl
      rw [started_self] at hd
      unfold Proc.cleaning at hd
      cases hj : job.isPublish <;> simp [hj] at hd
    unfold World.Cur
    rw [started_of_ne hdc] at hd ⊢
    exact h.clean d hd
  · intro d hh
    have hdc : d ≠ c := by
      rintro rfl
      have huse := hh.1
      rw [started_self] at huse
      exact absurd rfl (h.units.held 0 huse).1
    unfold World.Hold at hh
    rw [started_of_ne hdc] at hh
    refine (h.hold d hh).imp_left ?_
    rintro (hk | ho | hk)
    · exact .inl (by rw [started_of_ne hdc]; exact hk)
    · exact .inr (.inl (hown d ho))
    · exact .inr (.inr hk)
  · intro d hch
    refine (h.charge d hch).imp_left ?_
    rintro (hk | ho | hk)
    · refine .inl ?_
      unfold World.Cur
      rw [hne d (h.paid d hch).1]
      exact hk
    · exact .inr (.inl (hown d ho))
    · exact .inr (.inr hk)
  · intro d hch
    rw [hne d (h.paid d hch).1]
    exact h.paid d hch
  · intro k r n hc
    obtain ⟨hnd, ho⟩ := h.adopt k r n hc
    exact ⟨hnd, fun d hd => hown d (ho d hd)⟩
  · intro d ho
    obtain ⟨hold, hdc⟩ := h.units.started_own hpc ho
    unfold World.Cur
    rw [started_of_ne hdc]
    exact h.cause d hold
  · intro d hd hf hcur ho
    obtain ⟨hold, hdc⟩ := h.units.started_own hpc ho
    unfold World.Cur at hcur
    rw [started_of_ne hdc] at hd hf hcur
    exact h.stale d hd hf hcur hold

end connect

/-! ## Runs -/

theorem accounted_step {w w' : World} {a : Act} (h : Accounted w) (ha : Orderly w a)
    (hs : step w a = some w') : Accounted w' := by
  obtain ⟨hset, htidy⟩ := ha
  have hu := units_step h.units hset hs
  cases steps hs with
  | start hpc _ => exact h.start hpc hu
  | call hcall => exact h.call hset.1 hset.2 htidy (callStep_spec hcall)
  | receive hl => exact h.receive hl hu
  | read hread => exact h.read hset htidy hread
  | teardown _ _ htear => exact h.teardown htear hu
  | connect _ hc => exact h.begin hu hc htidy
  | conn hconn => exact h.connects hconn htidy.1 htidy.2

theorem accounted_of_run {cfg : TCPConfig} {as : List Act} {w : World}
    (h : Run step Orderly (init cfg) as w) : Accounted w :=
  h.invariant (accounted_init cfg) fun _ _ _ hi ha hs => accounted_step hi ha hs

end GoMqtt.Concurrent
