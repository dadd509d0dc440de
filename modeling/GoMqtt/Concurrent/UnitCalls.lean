import GoMqtt.Concurrent.Units

/-! # Units under the steps of the calls

What each critical section of a call takes and gives back. The other calls are left
alone because no two of them hold one identifier; the call itself hands its permit and
its identifier to the entry it saves, and takes them back from the entry it drops. -/
namespace GoMqtt.Concurrent
open GoMqtt.Protocol GoMqtt.Session GoMqtt.Client GoMqtt.Lib

/-! ## A step of a call -/

/-- The world after a step of a call. -/
abbrev World.called (w : World) (c : CallId) (m' : State) (p' : Proc) : World :=
  { w with mem := m', book := w.book.ofCall w.mem c (w.procs c) }.setProc c p'

/-- A step of a call acquires its identifier, frees it, or leaves the allocator. -/
theorem CallStep.ids {m m' : State} {c : CallId} {p p' : Proc} (h : CallStep m c p m' p') :
    (p.pc = .acquireId ∧ ∃ gen, m.ids.acquire = (some (p'.id, gen), m'.ids) ∧ p'.idGen = gen) ∨
    (p.pc = .freeId ∧ m'.ids = m.ids.releaseAt p.id p.idGen) ∨
    (p.pc ≠ .freeId ∧ (p.pc = .acquireId → m.ids.acquire.1 = none) ∧
      (∀ j, m'.ids.inUse j = m.ids.inUse j)) := by
  cases h with
  | acquired hpc hi => exact .inl ⟨hpc, _, hi, rfl⟩
  | freeId hpc => exact .inr (.inl ⟨hpc, rfl⟩)
  | exhausted hpc hi =>
    exact .inr (.inr ⟨by simp [hpc], fun _ => by rw [hi], (IdAllocator.acquire_none hi).2⟩)
  | unregister hpc | leave hpc =>
    refine .inr (.inr ⟨by simp [hpc], by simp [hpc], ?_⟩)
    rw [removeWaiter_eq]
    exact fun _ => rfl
  | granted hpc | turnedAway hpc | giveBack hpc | save hpc | register hpc | written hpc
  | refused hpc | broken hpc | torn hpc | owned hpc | adopted hpc | drop hpc | freePermit hpc
  | collect hpc | giveUp hpc =>
    exact .inr (.inr ⟨by simp [hpc], by simp [hpc], fun _ => rfl⟩)

/-- A step of a call takes a permit, gives it back, or leaves the quota. -/
theorem CallStep.quota {m m' : State} {c : CallId} {p p' : Proc} (h : CallStep m c p m' p') :
    (p.pc = .acquire ∧ ∃ gen, m.quota.acquire = (.granted gen, m'.quota) ∧ p'.quotaGen = gen) ∨
    ((p.pc = .giveBack ∨ p.pc = .freePermit) ∧ m'.quota = m.quota.releaseAt p.quotaGen ∧
      p'.quotaGen = p.quotaGen) ∨
    (m'.quota = m.quota ∧ p'.quotaGen = p.quotaGen ∧ p.pc ≠ .giveBack ∧ p.pc ≠ .freePermit ∧
      (p.pc = .acquire → ∀ gen quota, m.quota.acquire ≠ (.granted gen, quota))) := by
  cases h with
  | granted hpc hq => exact .inl ⟨hpc, _, hq, rfl⟩
  | giveBack hpc => exact .inr (.inl ⟨.inl hpc, rfl, rfl⟩)
  | freePermit hpc => exact .inr (.inl ⟨.inr hpc, rfl, rfl⟩)
  | turnedAway hpc hq =>
    exact .inr (.inr ⟨rfl, rfl, by simp [hpc], by simp [hpc], fun _ => hq⟩)
  | unregister hpc | leave hpc =>
    refine .inr (.inr ⟨?_, rfl, by simp [hpc], by simp [hpc], by simp [hpc]⟩)
    rw [removeWaiter_eq]
  | exhausted hpc | acquired hpc | save hpc | register hpc | written hpc | refused hpc
  | broken hpc | torn hpc | owned hpc | adopted hpc | drop hpc | freeId hpc | collect hpc
  | giveUp hpc =>
    exact .inr (.inr ⟨rfl, rfl, by simp [hpc], by simp [hpc], by simp [hpc]⟩)

/-- A call that has begun does not begin again. -/
theorem CallStep.forward {m m' : State} {c : CallId} {p p' : Proc} (h : CallStep m c p m' p') :
    p'.pc ≠ .idle ∧ p'.pc ≠ .acquire ∧ (p'.pc.early = true → p.pc = .acquire) := by
  cases h with
  | exhausted hpc | acquired hpc | unregister hpc | collect hpc | leave hpc | freeId hpc =>
    unfold Proc.next
    cases hj : p.job.isPublish <;> simp [CallPc.early]
  | granted hpc | turnedAway hpc | giveBack hpc | save hpc | register hpc | written hpc
  | refused hpc | broken hpc | torn hpc | owned hpc | adopted hpc | drop hpc | freePermit hpc
  | giveUp hpc => simp [hpc, CallPc.early]

/-- A publish past its save stays there until it takes its entry out. -/
theorem CallStep.saved {m m' : State} {c : CallId} {p p' : Proc} (h : CallStep m c p m' p')
    (hp : p.saved = true) : p.pc = .drop ∨ p'.saved = true := by
  obtain ⟨hj, hk⟩ := saved_iff.mp hp
  cases h with
  | drop hpc => exact .inl hpc
  | register | written | refused | broken | torn | owned | adopted | giveUp =>
    exact .inr (saved_iff.mpr ⟨hj, by simp [CallPc.kept]⟩)
  | unregister | collect | leave =>
    refine .inr (saved_iff.mpr ⟨hj, ?_⟩)
    simp [Proc.next, hj, CallPc.kept]
  | granted hpc | turnedAway hpc | exhausted hpc | acquired hpc | giveBack hpc | save hpc
  | freeId hpc | freePermit hpc =>
    rw [hpc] at hk
    rcases hk with hk | hk <;> cases hk

/-- A call owes a permit that it was granted, that it owed before, or that came with
the entry it has taken out. -/
theorem CallStep.owesPermit {m m' : State} {c : CallId} {p p' : Proc} (h : CallStep m c p m' p')
    (hp : p'.owesPermit = true) : p.pc = .acquire ∨ p.pc = .drop ∨
      p.owesPermit = true ∧ p.pc ≠ .giveBack ∧ p.pc ≠ .freePermit := by
  cases h with
  | granted hpc | turnedAway hpc => exact .inl hpc
  | drop hpc => exact .inr (.inl hpc)
  | exhausted hpc | acquired hpc | unregister hpc | collect hpc | leave hpc | freeId hpc =>
    unfold Proc.next Proc.owesPermit at hp
    unfold Proc.owesPermit
    cases hj : p.job.isPublish <;> simp_all
  | giveBack | save | register | written | refused | broken | torn | owned | adopted
  | freePermit | giveUp => cases hp

/-- The same for its identifier. -/
theorem CallStep.owesId {m m' : State} {c : CallId} {p p' : Proc} (h : CallStep m c p m' p')
    (hp : p'.owesId = true) : p.pc = .acquireId ∨ p.pc = .drop ∨
      p.owesId = true ∧ p.pc ≠ .freeId := by
  cases h with
  | exhausted hpc | acquired hpc => exact .inl hpc
  | drop hpc => exact .inr (.inl hpc)
  | unregister hpc | collect hpc | leave hpc | freeId hpc =>
    unfold Proc.next Proc.owesId at hp
    unfold Proc.owesId
    cases hj : p.job.isPublish <;> simp_all
  | save hpc hpkt =>
    have hj : p.job.isPublish = true := (packet_id hpkt).2
    simp [Proc.owesId, hj] at hp
  | register hpc | written hpc | refused hpc | broken hpc | torn hpc | giveUp hpc =>
    refine .inr (.inr ⟨?_, by simp [hpc]⟩)
    simpa [Proc.owesId, hpc] using hp
  | granted | turnedAway | giveBack | owned | adopted | freePermit => cases hp

section book

variable (k : Book) (m : State) (c : CallId) {p : Proc}

theorem ofCall_savedBy (h : p.pc ≠ .save) : (k.ofCall m c p).savedBy = k.savedBy := by
  unfold Book.ofCall Book.credit Book.free
  split <;> try rfl
  all_goals first | (split <;> rfl) | (rename_i hpc; exact absurd hpc h)

theorem ofCall_heldBy (h : p.pc = .acquireId → m.ids.acquire.1 = none) :
    (k.ofCall m c p).heldBy = k.heldBy := by
  unfold Book.ofCall Book.credit Book.free
  split <;> try rfl
  all_goals
    split
    all_goals first | rfl | skip
  rename_i hpc _ _ _ _ hi
  rw [hi] at h
  cases h hpc

theorem ofCall_charged (hg : p.pc ≠ .giveBack) (hf : p.pc ≠ .freePermit)
    (ha : p.pc = .acquire → ∀ gen quota, m.quota.acquire ≠ (.granted gen, quota)) :
    (k.ofCall m c p).charged = k.charged ∧ (k.ofCall m c p).credits = k.credits := by
  unfold Book.ofCall Book.credit Book.free
  split
  · split
    · rename_i hpc _ gen quota hq
      exact absurd hq (ha hpc gen quota)
    · exact ⟨rfl, rfl⟩
  · split <;> exact ⟨rfl, rfl⟩
  · rename_i hpc
    exact absurd hpc hg
  · rename_i hpc
    exact absurd hpc hf
  · exact ⟨rfl, rfl⟩
  · split <;> exact ⟨rfl, rfl⟩
  · exact ⟨rfl, rfl⟩

theorem ofCall_frees (h : p.pc ≠ .freeId) : (k.ofCall m c p).frees = k.frees := by
  unfold Book.ofCall Book.credit Book.free
  split <;> try rfl
  all_goals first | (split <;> rfl) | (rename_i hpc; exact absurd hpc h)

@[simp] theorem ofCall_rest : (k.ofCall m c p).counted = k.counted ∧
    (k.ofCall m c p).closing = k.closing ∧ (k.ofCall m c p).ceiling = k.ceiling := by
  unfold Book.ofCall Book.credit Book.free
  split <;> try exact ⟨rfl, rfl, rfl⟩
  all_goals split <;> exact ⟨rfl, rfl, rfl⟩

end book

theorem stored_save {store : MemStore} {p : PublishPacket} {id : UInt16} :
    Stored (store.save (storedPublish p)) id ↔ id = p.packetID ∨ Stored store id := by
  simp [Stored, or_assoc]

section call

variable {w : World} {c d : CallId} {m' : State} {p' : Proc}

theorem called_of_ne (hd : d ≠ c) : (w.called c m' p').procs d = w.procs d :=
  Function.update_of_ne hd _ _

theorem called_self : (w.called c m' p').procs c = p' := Function.update_self _ _ _

/-! ### Entries -/

/-- What is stored after a step of a call was stored before, or is what it saves. -/
theorem CallStep.stored (hs : CallStep w.mem c (w.procs c) m' p') {id : UInt16}
    (h : Stored m'.store id) :
    Stored w.mem.store id ∨ (w.procs c).pc = .save ∧ id = (w.procs c).id := by
  rcases hs.store with ⟨pkt, hpc, hpkt, hst⟩ | ⟨-, hst⟩ | ⟨-, -, hst⟩
  · rw [hst, stored_save, (packet_id hpkt).1] at h
    exact h.symm.imp_right fun hid => ⟨hpc, hid⟩
  · rw [hst] at h
    exact .inl h.of_delete
  · rw [hst] at h
    exact .inl h

theorem ofCall_saves (hpc : (w.procs c).pc = .save) :
    (w.book.ofCall w.mem c (w.procs c)).savedBy =
      Function.update w.book.savedBy (w.procs c).id c := by
  simp [Book.ofCall, hpc]

/-- An entry is its call's from the save on, and no one else's. -/
theorem Units.called_own (h : Units w) (hs : CallStep w.mem c (w.procs c) m' p')
    (ho : (w.called c m' p').Own d) : w.Own d ∨ d = c ∧ (w.procs c).pc = .save := by
  by_cases hpc : (w.procs c).pc = .save
  · by_cases hd : d = c
    · exact .inr ⟨hd, hpc⟩
    · unfold World.Own at ho
      rw [called_of_ne hd, setProc_book] at ho
      dsimp only at ho
      rw [ofCall_saves hpc] at ho
      by_cases hid : (w.procs d).id = (w.procs c).id
      · rw [hid, Function.update_self] at ho
        exact absurd ho.2.symm hd
      · rw [Function.update_of_ne hid] at ho
        exact .inl ⟨(hs.stored ho.1).resolve_right fun hx => hid hx.2, ho.2⟩
  · unfold World.Own at ho
    rw [setProc_book] at ho
    dsimp only at ho
    rw [ofCall_savedBy _ _ _ hpc] at ho
    have hst := (hs.stored ho.1).resolve_right fun hx => hpc hx.1
    by_cases hd : d = c
    · subst hd
      rw [called_self] at hst ho
      rcases hs.identifier.2 with ⟨hacq, -⟩ | ⟨hid, -⟩
      · -- Before it has an identifier a call has saved nothing.
        have hsaved := (h.entry _ hst).2
        rw [ho.2] at hsaved
        have := (owes_of_saved hsaved).2.2
        rw [hacq] at this
        cases this
      · rw [hid] at hst ho
        exact .inl ⟨hst, ho.2⟩
    · rw [called_of_ne hd] at hst ho
      exact .inl ⟨hst, ho.2⟩

/-- The entry that is dropped is out. -/
theorem called_dropped (hd : w.DropsOwn c) (hs : CallStep w.mem c (w.procs c) m' p')
    (hpc : (w.procs c).pc = .drop) : ¬ Stored m'.store (w.procs c).id := by
  obtain ⟨⟨hst, -⟩, hrel⟩ := hd hpc
  rcases hs.store with ⟨pkt, hpc', -⟩ | ⟨-, hst'⟩ | ⟨-, hpc', -⟩
  · rw [hpc] at hpc'
    cases hpc'
  · rw [hst']
    refine stored_delete_only rfl (hst.resolve_right (by simp [hrel])) ?_
    exact fun ht => by rw [ht.2] at hrel; cases hrel
  · exact absurd hpc hpc'

/-- The owner of an entry is a publish past its save, before and after. -/
theorem Units.called_entry (h : Units w) (hd : w.DropsOwn c)
    (hs : CallStep w.mem c (w.procs c) m' p') {id : UInt16} (hst : Stored m'.store id) :
    ((w.called c m' p').procs ((w.book.ofCall w.mem c (w.procs c)).savedBy id)).id = id ∧
    ((w.called c m' p').procs ((w.book.ofCall w.mem c (w.procs c)).savedBy id)).saved = true := by
  by_cases hnew : (w.procs c).pc = .save ∧ id = (w.procs c).id
  · obtain ⟨hpc, rfl⟩ := hnew
    rw [ofCall_saves hpc, Function.update_self, called_self]
    rcases hs.store with ⟨pkt, -, hpkt, -⟩ | ⟨hpc', -⟩ | ⟨hpc', -⟩
    · cases hs with
      | save => exact ⟨rfl, saved_iff.mpr ⟨(packet_id hpkt).2, .inl rfl⟩⟩
      | _ => simp_all
    · rw [hpc] at hpc'
      cases hpc'
    · exact absurd hpc hpc'
  · have hold := (hs.stored hst).resolve_right hnew
    obtain ⟨hid, hsaved⟩ := h.entry id hold
    have hsb : (w.book.ofCall w.mem c (w.procs c)).savedBy id = w.book.savedBy id := by
      by_cases hpc : (w.procs c).pc = .save
      · rw [ofCall_saves hpc, Function.update_of_ne fun heq => hnew ⟨hpc, heq⟩]
      · rw [ofCall_savedBy _ _ _ hpc]
    rw [hsb]
    by_cases hc : w.book.savedBy id = c
    · rw [hc] at hid hsaved ⊢
      rw [called_self]
      rcases hs.identifier.2 with ⟨hacq, -⟩ | ⟨hid', -⟩
      · have := (owes_of_saved hsaved).2.2
        rw [hacq] at this
        cases this
      · refine ⟨hid'.trans hid, (hs.saved hsaved).resolve_left fun hpc => ?_⟩
        exact called_dropped hd hs hpc (by rw [hid]; exact hst)
    · rw [called_of_ne hc]
      exact ⟨hid, hsaved⟩

/-! ### Identifiers -/

theorem ofCall_acquires {gen : Nat} (hpc : (w.procs c).pc = .acquireId)
    (hi : w.mem.ids.acquire = (some (p'.id, gen), m'.ids)) :
    (w.book.ofCall w.mem c (w.procs c)).heldBy = Function.update w.book.heldBy p'.id c := by
  simp [Book.ofCall, hpc, hi]

/-- A call at the end of its cleanup holds the identifier it is about to free. -/
theorem Units.hold_at_free (h : Units w) (hpc : (w.procs c).pc = .freeId)
    (hg : (w.procs c).idGen = w.mem.ids.gen) : w.Hold c ∧ c ∉ w.book.frees :=
  h.keeps c (.inl ⟨by simp [Proc.owesId, hpc], hg⟩)

/-- The identifiers of the other calls. -/
theorem Units.called_hold (h : Units w) (hs : CallStep w.mem c (w.procs c) m' p') (hd : d ≠ c) :
    (w.called c m' p').Hold d ↔ w.Hold d := by
  unfold World.Hold
  rw [called_of_ne hd]
  dsimp only [setProc_mem, setProc_book]
  rcases hs.ids with ⟨hpc, gen, hi, -⟩ | ⟨hpc, hi⟩ | ⟨-, hacq, hi⟩
  · obtain ⟨-, -, -, hfree, huse⟩ := IdAllocator.acquire_some hi
    rw [huse, ofCall_acquires hpc hi]
    by_cases hid : (w.procs d).id = p'.id
    · rw [hid, Function.update_self, hfree]
      exact ⟨fun ho => absurd ho.2.symm hd, fun ho => by cases ho.1⟩
    · rw [Function.update_of_ne hid]
      simp [hid]
  · rw [hi, ofCall_heldBy _ _ _ (by simp [hpc]), IdAllocator.inUse_releaseAt]
    by_cases hid : (w.procs d).id = (w.procs c).id ∧ (w.procs c).id ≠ 0 ∧
        (w.procs c).idGen = w.mem.ids.gen
    · rw [hid.1, (h.hold_at_free hpc hid.2.2).1.2]
      exact ⟨fun ho => absurd ho.2.symm hd, fun ho => absurd ho.2.symm hd⟩
    · simp [hid]
  · rw [hi, ofCall_heldBy _ _ _ hacq]

/-- A call that neither acquires nor frees holds what it held. -/
theorem called_hold_self (hs : CallStep w.mem c (w.procs c) m' p')
    (hacq : (w.procs c).pc ≠ .acquireId) (hfree : (w.procs c).pc ≠ .freeId) :
    (w.called c m' p').Hold c ↔ w.Hold c := by
  unfold World.Hold
  rw [called_self]
  dsimp only [setProc_mem, setProc_book]
  rw [ofCall_heldBy _ _ _ fun hpc => absurd hpc hacq]
  rcases hs.identifier.2 with ⟨hpc, -⟩ | ⟨hid, -⟩
  · exact absurd hpc hacq
  · rcases hs.ids with ⟨hpc, -⟩ | ⟨hpc, -⟩ | ⟨-, -, hi⟩
    · exact absurd hpc hacq
    · exact absurd hpc hfree
    · rw [hid, hi]

theorem Units.called_held (h : Units w) (hs : CallStep w.mem c (w.procs c) m' p') {id : UInt16}
    (huse : m'.ids.inUse id = true) :
    id ≠ 0 ∧ ((w.called c m' p').procs ((w.book.ofCall w.mem c (w.procs c)).heldBy id)).id = id ∧
      ((w.called c m' p').procs ((w.book.ofCall w.mem c (w.procs c)).heldBy id)).idGen =
        m'.ids.gen := by
  have hgen : m'.ids.gen = w.mem.ids.gen := hs.sameLinks.idGen
  -- An identifier in use keeps its holder, who keeps it.
  have hold : w.mem.ids.inUse id = true → id ≠ 0 ∧
      ((w.called c m' p').procs (w.book.heldBy id)).id = id ∧
      ((w.called c m' p').procs (w.book.heldBy id)).idGen = m'.ids.gen := by
    intro huse
    obtain ⟨h0, hid, hg⟩ := h.held id huse
    rw [hgen]
    by_cases hc : w.book.heldBy id = c
    · rw [hc] at hid hg ⊢
      rw [called_self]
      rcases hs.identifier.2 with ⟨hpc, -⟩ | ⟨hid', hg', -⟩
      · have hblank := h.blank c (by rw [hpc]; rfl)
        exact absurd (hid.symm.trans hblank) h0
      · exact ⟨h0, hid'.trans hid, hg'.trans hg⟩
    · rw [called_of_ne hc]
      exact ⟨h0, hid, hg⟩
  rcases hs.ids with ⟨hpc, gen, hi, hg'⟩ | ⟨hpc, hi⟩ | ⟨-, hacq, hi⟩
  · obtain ⟨h0, hgen', -, -, hu⟩ := IdAllocator.acquire_some hi
    rw [ofCall_acquires hpc hi]
    by_cases hid : id = p'.id
    · subst hid
      rw [Function.update_self, called_self]
      exact ⟨h0, rfl, by rw [hg', hgen', hgen]⟩
    · rw [Function.update_of_ne hid]
      rw [hu] at huse
      exact hold (by simpa [hid] using huse)
  · rw [hi, IdAllocator.inUse_releaseAt, Bool.and_eq_true] at huse
    rw [ofCall_heldBy _ _ _ (by simp [hpc])]
    exact hold huse.2
  · rw [ofCall_heldBy _ _ _ hacq]
    rw [hi] at huse
    exact hold huse

/-- What a call frees is its own. -/
theorem Units.called_frees (h : Units w) (c : CallId) :
    (w.book.ofCall w.mem c (w.procs c)).frees = w.book.frees ∨
    ((w.procs c).pc = .freeId ∧ c ∉ w.book.frees ∧
      (w.book.ofCall w.mem c (w.procs c)).frees = c :: w.book.frees) := by
  by_cases hpc : (w.procs c).pc = .freeId
  · have hfr : w.book.ofCall w.mem c (w.procs c) =
        w.book.free w.mem.ids (w.procs c).id (w.procs c).idGen := by simp [Book.ofCall, hpc]
    rw [hfr]
    unfold Book.free
    split
    · rename_i hg
      obtain ⟨hhold, hnew⟩ := h.hold_at_free hpc hg
      exact .inr ⟨hpc, hnew, by rw [hhold.2]⟩
    · exact .inl rfl
  · exact .inl (ofCall_frees _ _ _ hpc)

/-! ### Permits -/

/-- The permits of the other calls. -/
theorem called_charged (hs : CallStep w.mem c (w.procs c) m' p') (hd : d ≠ c) :
    (w.called c m' p').Charged d ↔ w.Charged d := by
  unfold World.Charged
  dsimp only [setProc_book]
  rcases hs.quota with ⟨hpc, gen, hq, -⟩ | ⟨hpc, -, -⟩ | ⟨-, -, hg, hf, ha⟩
  · have hch : (w.book.ofCall w.mem c (w.procs c)).charged = c :: w.book.charged := by
      simp [Book.ofCall, hpc, hq]
    rw [hch]
    simp [hd]
  · have hch : (w.book.ofCall w.mem c (w.procs c)).charged =
        if (w.procs c).quotaGen = w.mem.quota.gen then w.book.charged.erase c
        else w.book.charged := by
      rcases hpc with hpc | hpc <;>
      · simp only [Book.ofCall, hpc, Book.credit]
        split <;> rfl
    rw [hch]
    split
    · exact List.mem_erase_of_ne hd
    · rfl
  · rw [(ofCall_charged _ _ _ hg hf ha).1]

/-- A call that gives its permit back has it, if it is of the current generation. -/
theorem Units.charged_at_credit (h : Units w)
    (hpc : (w.procs c).pc = .giveBack ∨ (w.procs c).pc = .freePermit) (hcur : w.Cur c) :
    w.Charged c ∧ (c, w.mem.quota.gen) ∉ w.book.credits := by
  refine h.due c (.inl ⟨?_, hcur⟩)
  rcases hpc with hpc | hpc <;> simp [Proc.owesPermit, hpc]

/-- What a call credits is its own, and balances what becomes available. -/
theorem Units.called_credits (h : Units w) (hs : CallStep w.mem c (w.procs c) m' p') :
    m'.quota.avail + (w.book.ofCall w.mem c (w.procs c)).charged.length = w.book.ceiling ∧
    ((w.book.ofCall w.mem c (w.procs c)).credits = w.book.credits ∨
      ((w.procs c).pc = .giveBack ∨ (w.procs c).pc = .freePermit) ∧
      (c, w.mem.quota.gen) ∉ w.book.credits ∧
      (w.book.ofCall w.mem c (w.procs c)).credits = (c, w.mem.quota.gen) :: w.book.credits) := by
  have hbal := h.balance
  rcases hs.quota with ⟨hpc, gen, hq, -⟩ | ⟨hpc, hq, -⟩ | ⟨hq, -, hg, hf, hacq⟩
  · have hch : (w.book.ofCall w.mem c (w.procs c)).charged = c :: w.book.charged := by
      simp [Book.ofCall, hpc, hq]
    have hcr : (w.book.ofCall w.mem c (w.procs c)).credits = w.book.credits := by
      simp [Book.ofCall, hpc, hq]
    obtain ⟨-, -, -, hq'⟩ := Quota.acquire_granted hq
    refine ⟨?_, .inl hcr⟩
    rw [hch, hq']
    simp only [List.length_cons, Nat.cast_add, Nat.cast_one]
    omega
  · have hch : w.book.ofCall w.mem c (w.procs c) =
        w.book.credit w.mem.quota c (w.procs c).quotaGen := by
      rcases hpc with hpc | hpc <;> simp [Book.ofCall, hpc]
    rw [hch, hq, Quota.avail_releaseAt]
    unfold Book.credit
    split
    · rename_i hcur
      obtain ⟨hmem, hnew⟩ := h.charged_at_credit hpc hcur
      have hlen := List.length_erase_add_one hmem
      refine ⟨?_, .inr ⟨hpc, hnew, by rw [hcur]⟩⟩
      dsimp only
      omega
    · exact ⟨hbal, .inl rfl⟩
  · obtain ⟨hch, hcr⟩ := ofCall_charged w.book w.mem c hg hf hacq
    rw [hch, hq]
    exact ⟨hbal, .inl hcr⟩

/-! ### Custody -/

theorem called_closing (k : LinkId) :
    (w.called c m' p').book.closing k = w.book.closing k := by
  rw [setProc_book]
  exact congrFun (ofCall_rest w.book w.mem c).2.1 k

theorem called_acts (hs : CallStep w.mem c (w.procs c) m' p') (k : LinkId) :
    (w.called c m' p').Acts k ↔ w.Acts k := by
  unfold World.Acts
  rw [setProc_mem, hs.sameLinks.links, hs.sameLinks.quotaGen, hs.sameLinks.idGen]

/-- A permit that is due after the step was due before, or has just been granted. -/
theorem Units.called_due (h : Units w) (ht : w.SavesInTime c) (hd : w.DropsOwn c)
    (hs : CallStep w.mem c (w.procs c) m' p') (hdue : (w.called c m' p').Due d) :
    w.Due d ∨ d = c ∧ (w.procs c).pc = .acquire := by
  have hgen : m'.quota.gen = w.mem.quota.gen := hs.sameLinks.quotaGen
  rcases hdue with ⟨howes, hcur⟩ | hown | ⟨k, hk, hck, hg⟩
  · by_cases hdc : d = c
    · subst hdc
      unfold World.Cur at hcur
      rw [called_self] at howes hcur
      rw [setProc_mem, hgen] at hcur
      rcases hs.owesPermit howes with hpc | hpc | ⟨hold, hg, hf⟩
      · exact .inr ⟨rfl, hpc⟩
      · exact .inl (.inr (.inl (hd hpc).1))
      · refine .inl (.inl ⟨hold, ?_⟩)
        rcases hs.quota with ⟨hpc, -⟩ | ⟨hpc, -⟩ | ⟨-, hq, -⟩
        · simp [Proc.owesPermit, hpc] at hold
        · exact absurd hpc (by simp [hg, hf])
        · rw [hq] at hcur
          exact hcur
    · unfold World.Cur at hcur
      rw [called_of_ne hdc] at howes hcur
      rw [setProc_mem, hgen] at hcur
      exact .inl (.inl ⟨howes, hcur⟩)
  · rcases h.called_own hs hown with hown | ⟨rfl, hpc⟩
    · exact .inl (.inr (.inl hown))
    · exact .inl (.inl ⟨by simp [Proc.owesPermit, hpc], (ht hpc).1⟩)
  · rw [called_closing] at hck
    rw [setProc_mem, hs.sameLinks.links, hgen] at hg
    exact .inl (.inr (.inr ⟨k, hk, hck, hg⟩))

theorem Units.called_keeps (h : Units w) (ht : w.SavesInTime c) (hd : w.DropsOwn c)
    (hs : CallStep w.mem c (w.procs c) m' p') (hkeep : (w.called c m' p').Keeps d) :
    w.Keeps d ∨ d = c ∧ (w.procs c).pc = .acquireId := by
  have hgen : m'.ids.gen = w.mem.ids.gen := hs.sameLinks.idGen
  rcases hkeep with ⟨howes, hcur⟩ | hown | ⟨k, id, res, hk, hck, hg⟩
  · by_cases hdc : d = c
    · subst hdc
      rw [called_self] at howes hcur
      rw [setProc_mem, hgen] at hcur
      rcases hs.owesId howes with hpc | hpc | ⟨hold, hf⟩
      · exact .inr ⟨rfl, hpc⟩
      · exact .inl (.inr (.inl (hd hpc).1))
      · refine .inl (.inl ⟨hold, ?_⟩)
        rcases hs.identifier.2 with ⟨hpc, -⟩ | ⟨-, hg, -⟩
        · simp [Proc.owesId, hpc] at hold
        · rw [hg] at hcur
          exact hcur
    · rw [called_of_ne hdc] at howes hcur
      rw [setProc_mem, hgen] at hcur
      exact .inl (.inl ⟨howes, hcur⟩)
  · rcases h.called_own hs hown with hown | ⟨rfl, hpc⟩
    · exact .inl (.inr (.inl hown))
    · exact .inl (.inl ⟨by simp [Proc.owesId, hpc], (ht hpc).2.1⟩)
  · rw [called_closing] at hck
    rw [setProc_mem, hs.sameLinks.links, hgen] at hg
    exact .inl (.inr (.inr ⟨k, id, res, hk, hck, hg⟩))

/-- A call that gives its permit back has nothing due any more. -/
theorem Units.not_due_after_credit (h : Units w) (hs : CallStep w.mem c (w.procs c) m' p')
    (hpc : (w.procs c).pc = .giveBack ∨ (w.procs c).pc = .freePermit) :
    ¬ (w.called c m' p').Due c := by
  have hp : (w.procs c).saved = false := by
    rcases hpc with hpc | hpc <;> simp [Proc.saved, hpc, CallPc.kept]
  obtain ⟨hown, hcl⟩ := h.not_saved hp
  rintro (⟨howes, -⟩ | ho | ⟨k, hk, hck, hg⟩)
  · rw [called_self] at howes
    rcases hs.owesPermit howes with hpc' | hpc' | ⟨-, hg, hf⟩
    · rcases hpc with hpc | hpc <;> rw [hpc] at hpc' <;> cases hpc'
    · rcases hpc with hpc | hpc <;> rw [hpc] at hpc' <;> cases hpc'
    · exact absurd hpc (by simp [hg, hf])
  · rcases h.called_own hs ho with ho | ⟨-, hpc'⟩
    · exact hown ho
    · rcases hpc with hpc | hpc <;> rw [hpc] at hpc' <;> cases hpc'
  · rw [called_closing] at hck
    rw [setProc_mem, hs.sameLinks.links, hs.sameLinks.quotaGen] at hg
    exact hcl k hk (.inl hg) hck

theorem Units.not_keeps_after_free (h : Units w) (hs : CallStep w.mem c (w.procs c) m' p')
    (hpc : (w.procs c).pc = .freeId) : ¬ (w.called c m' p').Keeps c := by
  have hp : (w.procs c).saved = false := by simp [Proc.saved, hpc, CallPc.kept]
  obtain ⟨hown, hcl⟩ := h.not_saved hp
  rintro (⟨howes, -⟩ | ho | ⟨k, id, res, hk, hck, hg⟩)
  · rw [called_self] at howes
    rcases hs.owesId howes with hpc' | hpc' | ⟨-, hf⟩
    · rw [hpc] at hpc'
      cases hpc'
    · rw [hpc] at hpc'
      cases hpc'
    · exact hf hpc
  · rcases h.called_own hs ho with ho | ⟨-, hpc'⟩
    · exact hown ho
    · rw [hpc] at hpc'
      cases hpc'
  · rw [called_closing] at hck
    rw [setProc_mem, hs.sameLinks.links, hs.sameLinks.idGen] at hg
    have hk : w.readers k = .ackFreeId id res := hk
    exact hcl k (by rw [hk]; rfl) (.inr hg) hck

theorem Units.called_charge (h : Units w) (ht : w.SavesInTime c) (hdo : w.DropsOwn c)
    (hs : CallStep w.mem c (w.procs c) m' p') (hdue : (w.called c m' p').Due d) :
    (w.called c m' p').Charged d ∧
      (d, m'.quota.gen) ∉ (w.book.ofCall w.mem c (w.procs c)).credits := by
  rw [hs.sameLinks.quotaGen]
  obtain ⟨-, hcr⟩ := h.called_credits hs
  rcases h.called_due ht hdo hs hdue with hold | ⟨rfl, hpc⟩
  · obtain ⟨hch, hno⟩ := h.due d hold
    by_cases hd : d = c
    · subst hd
      rcases hcr with hcr | ⟨hpc, -⟩
      · rw [hcr]
        refine ⟨?_, hno⟩
        unfold World.Charged at hch ⊢
        rw [setProc_book]
        rcases hs.quota with ⟨hpc, gen, hq, -⟩ | ⟨hpc, -⟩ | ⟨-, -, hg, hf, ha⟩
        · simp [Book.ofCall, hpc, hq]
        · exact absurd hdue (h.not_due_after_credit hs hpc)
        · dsimp only
          rw [(ofCall_charged _ _ _ hg hf ha).1]
          exact hch
      · exact absurd hdue (h.not_due_after_credit hs hpc)
    · refine ⟨(called_charged hs hd).mpr hch, ?_⟩
      rcases hcr with hcr | ⟨-, -, hcr⟩
      · rw [hcr]
        exact hno
      · rw [hcr]
        simp [hd, hno]
  · -- a permit just granted
    have hnew : (d, w.mem.quota.gen) ∉ w.book.credits := fun hm => (h.credits.2 _ hm).2.2 hpc
    rcases hs.quota with ⟨-, gen, hq, -⟩ | ⟨hpc', -⟩ | ⟨-, -, -, -, ha⟩
    · simp [World.Charged, Book.ofCall, hpc, hq, hnew]
    · rcases hpc' with hpc' | hpc' <;> rw [hpc] at hpc' <;> cases hpc'
    · cases hs with
      | granted _ hq => exact absurd hq (ha hpc _ _)
      | turnedAway =>
        exfalso
        rcases hdue with ⟨howes, -⟩ | ho | ⟨k, hk, hck, hg⟩
        · rw [called_self] at howes
          cases howes
        · rcases h.called_own (.turnedAway hpc (ha hpc)) ho with ho | ⟨-, hpc'⟩
          · exact (h.not_saved (by simp [Proc.saved, hpc, CallPc.kept])).1 ho
          · rw [hpc] at hpc'
            cases hpc'
        · rw [called_closing] at hck
          exact (h.not_saved (by simp [Proc.saved, hpc, CallPc.kept])).2 k hk (.inl hg) hck
      | _ => simp_all

theorem Units.called_kept (h : Units w) (ht : w.SavesInTime c) (hdo : w.DropsOwn c)
    (hs : CallStep w.mem c (w.procs c) m' p') (hkeep : (w.called c m' p').Keeps d) :
    (w.called c m' p').Hold d ∧ d ∉ (w.book.ofCall w.mem c (w.procs c)).frees := by
  have hfr := h.called_frees c
  rcases h.called_keeps ht hdo hs hkeep with hold | ⟨rfl, hpc⟩
  · obtain ⟨hh, hno⟩ := h.keeps d hold
    by_cases hd : d = c
    · subst hd
      rcases hfr with hfr | ⟨hpc, -⟩
      · rw [hfr]
        refine ⟨?_, hno⟩
        by_cases hfree : (w.procs d).pc = .freeId
        · exact absurd hkeep (h.not_keeps_after_free hs hfree)
        · refine (called_hold_self hs ?_ hfree).mpr hh
          intro hacq
          have h0 := (h.held _ hh.1).1
          exact h0 (h.blank d (by rw [hacq]; rfl))
      · exact absurd hkeep (h.not_keeps_after_free hs hpc)
    · refine ⟨(h.called_hold hs hd).mpr hh, ?_⟩
      rcases hfr with hfr | ⟨-, -, hfr⟩
      · rw [hfr]
        exact hno
      · rw [hfr]
        simp [hd, hno]
  · -- an identifier just acquired
    have hnew : d ∉ w.book.frees := by
      intro hm
      have := h.frees.2 d hm
      rw [hpc] at this
      cases this
    rcases hfr with hfr | ⟨hpc', -⟩
    · rw [hfr]
      refine ⟨?_, hnew⟩
      rcases hs.ids with ⟨-, gen, hi, -⟩ | ⟨hpc', -⟩ | ⟨-, hacq, -⟩
      · obtain ⟨-, -, -, -, huse⟩ := IdAllocator.acquire_some hi
        unfold World.Hold
        rw [called_self]
        dsimp only [setProc_mem, setProc_book]
        rw [ofCall_acquires hpc hi, huse]
        simp
      · rw [hpc] at hpc'
        cases hpc'
      · -- there was none to be had
        exfalso
        have hp : (w.procs d).saved = false := by simp [Proc.saved, hpc, CallPc.kept]
        obtain ⟨hown, hcl⟩ := h.not_saved hp
        cases hs with
        | acquired _ hi =>
          have := hacq hpc
          rw [hi] at this
          cases this
        | exhausted _ hi =>
          rcases hkeep with ⟨howes, -⟩ | ho | ⟨k, id, res, hk, hck, hg⟩
          · rw [called_self] at howes
            unfold Proc.next Proc.owesId at howes
            cases hj : (w.procs d).job.isPublish <;> rw [hj] at howes <;> cases howes
          · rcases h.called_own (.exhausted hpc hi) ho with ho | ⟨-, hpc'⟩
            · exact hown ho
            · rw [hpc] at hpc'
              cases hpc'
          · rw [called_closing] at hck
            have hk : w.readers k = .ackFreeId id res := hk
            rw [setProc_mem] at hg
            dsimp only at hg
            rw [(IdAllocator.acquire_none hi).1] at hg
            exact hcl k (by rw [hk]; rfl) (.inr hg) hck
        | _ => simp_all
    · rw [hpc] at hpc'
      cases hpc'

/-- What holds of a read loop is not touched by a call. -/
theorem Units.called_reader (h : Units w) (hdo : w.DropsOwn c)
    (hs : CallStep w.mem c (w.procs c) m' p') (k : LinkId) : ReaderOk (w.called c m' p') k := by
  have hr := h.reader k
  refine ⟨hr.outbound, ?_, ?_⟩
  · intro hk ha
    rw [called_acts hs] at ha
    obtain ⟨hsaved, hown⟩ := hr.closes hk ha
    rw [called_closing]
    refine ⟨?_, ?_⟩
    · by_cases hc : w.book.closing k = c
      · rw [hc] at hsaved hown ⊢
        rw [called_self]
        exact (hs.saved hsaved).resolve_left fun hpc => hown (hdo hpc).1
      · rw [called_of_ne hc]
        exact hsaved
    · intro ho
      rcases h.called_own hs ho with ho | ⟨hc, hpc⟩
      · exact hown ho
      · rw [hc] at hsaved
        rw [saved_iff, hpc] at hsaved
        rcases hsaved.2 with hk | hk <;> cases hk
  · intro id res hk hg
    rw [called_closing]
    have hk : w.readers k = .ackFreeId id res := hk
    rw [setProc_mem, hs.sameLinks.links, hs.sameLinks.idGen] at hg
    have hid := hr.target id res hk hg
    by_cases hc : w.book.closing k = c
    · have hsaved := (hr.closes (by rw [hk]; rfl) (.inr hg)).1
      rw [hc] at hid hsaved ⊢
      rw [called_self]
      rcases hs.identifier.2 with ⟨hpc, -⟩ | ⟨hid', -⟩
      · have := (owes_of_saved hsaved).2.2
        rw [hpc] at this
        cases this
      · rw [hid']
        exact hid
    · rw [called_of_ne hc]
      exact hid

/-- No generation is ahead of its source. -/
theorem Units.called_gens (h : Units w) (hs : CallStep w.mem c (w.procs c) m' p') (d : CallId) :
    ((w.called c m' p').procs d).quotaGen ≤ w.mem.quota.gen ∧
    ((w.called c m' p').procs d).idGen ≤ w.mem.ids.gen := by
  have hg := h.gens d
  by_cases hdc : d = c
  · subst hdc
    rw [called_self]
    constructor
    · rcases hs.quota with ⟨-, gen, hq, hp⟩ | ⟨-, -, hp⟩ | ⟨-, hp, -⟩
      · rw [hp, (Quota.acquire_granted hq).2.2.1]
      · rw [hp]
        exact hg.1
      · rw [hp]
        exact hg.1
    · rcases hs.identifier.2 with ⟨-, gen, ids, hi, hp⟩ | ⟨-, hp, -⟩
      · rw [hp, (IdAllocator.acquire_some hi).2.1]
      · rw [hp]
        exact hg.2
  · rw [called_of_ne hdc]
    exact hg

/-- A permit is credited once, to a call that has got past its `acquire`. -/
theorem Units.called_credited (h : Units w) (hs : CallStep w.mem c (w.procs c) m' p') :
    (w.called c m' p').book.credits.Nodup ∧ ∀ e ∈ (w.called c m' p').book.credits,
      e.2 ≤ w.mem.quota.gen ∧ ((w.called c m' p').procs e.1).pc ≠ .idle ∧
      ((w.called c m' p').procs e.1).pc ≠ .acquire := by
  obtain ⟨hi, ha, -⟩ := hs.forward
  have hold : ∀ e ∈ w.book.credits, e.2 ≤ w.mem.quota.gen ∧
      ((w.called c m' p').procs e.1).pc ≠ .idle ∧
      ((w.called c m' p').procs e.1).pc ≠ .acquire := by
    intro e hm
    by_cases he : e.1 = c
    · rw [he, called_self]
      exact ⟨(h.credits.2 e hm).1, hi, ha⟩
    · rw [called_of_ne he]
      exact h.credits.2 e hm
  rw [setProc_book]
  dsimp only
  rcases (h.called_credits hs).2 with hcr | ⟨-, hnew, hcr⟩
  · rw [hcr]
    exact ⟨h.credits.1, hold⟩
  · rw [hcr]
    refine ⟨List.nodup_cons.mpr ⟨hnew, h.credits.1⟩, ?_⟩
    intro e he
    rcases List.mem_cons.mp he with rfl | he
    · rw [called_self]
      exact ⟨Nat.le_refl _, hi, ha⟩
    · exact hold e he

/-- An identifier is freed once, for a call that has got one. -/
theorem Units.called_freed (h : Units w) (hs : CallStep w.mem c (w.procs c) m' p') :
    (w.called c m' p').book.frees.Nodup ∧ ∀ d ∈ (w.called c m' p').book.frees,
      ((w.called c m' p').procs d).pc.early = false := by
  have hlate : ∀ d, (w.procs d).pc.early = false →
      ((w.called c m' p').procs d).pc.early = false := by
    intro d hd
    by_cases hdc : d = c
    · subst hdc
      rw [called_self]
      by_contra hp
      rw [hs.forward.2.2 (by simpa using hp)] at hd
      cases hd
    · rw [called_of_ne hdc]
      exact hd
  rw [setProc_book]
  dsimp only
  rcases h.called_frees c with hfr | ⟨hpc, hnew, hfr⟩
  · rw [hfr]
    exact ⟨h.frees.1, fun d hd => hlate d (h.frees.2 d hd)⟩
  · rw [hfr]
    refine ⟨List.nodup_cons.mpr ⟨hnew, h.frees.1⟩, ?_⟩
    intro d hd
    rcases List.mem_cons.mp hd with rfl | hd
    · exact hlate d (by rw [hpc]; rfl)
    · exact hlate d (h.frees.2 d hd)

theorem Units.call (h : Units w) (ht : w.SavesInTime c) (hdo : w.DropsOwn c)
    (hs : CallStep w.mem c (w.procs c) m' p') : Units (w.called c m' p') := by
  have hgen : m'.quota.gen = w.mem.quota.gen := hs.sameLinks.quotaGen
  refine ⟨h.linked.congr hs.sameLinks rfl rfl rfl, ?_, fun id hst => h.called_entry hdo hs hst,
    fun id huse => h.called_held hs huse, ?_, ?_, h.called_reader hdo hs, ?_,
    fun d hdue => h.called_charge ht hdo hs hdue, fun d hk => h.called_kept ht hdo hs hk, ?_, ?_,
    ?_, ?_, h.called_freed hs⟩
  · intro d hd
    by_cases hdc : d = c
    · subst hdc
      rw [called_self] at hd ⊢
      have hpc := hs.forward.2.2 hd
      rcases hs.identifier.2 with ⟨hpc', -⟩ | ⟨hid, -⟩
      · rw [hpc] at hpc'
        cases hpc'
      · rw [hid]
        exact h.blank d (by rw [hpc]; rfl)
    · rw [called_of_ne hdc] at hd ⊢
      exact h.blank d hd
  · intro d
    rw [setProc_mem, hgen, hs.sameLinks.idGen]
    exact h.called_gens hs d
  · intro k
    rw [setProc_mem, hs.sameLinks.links, hgen, hs.sameLinks.idGen]
    exact h.links k
  · intro k k' hk hk' hak hak' heq
    rw [called_acts hs] at hak hak'
    rw [called_closing, called_closing] at heq
    exact h.apart k k' hk hk' hak hak' heq
  · intro k r hc id hst
    have hc : w.conn = .idsReset k r := hc
    rcases hs.stored hst with hst | ⟨hpc, -⟩
    · exact h.emptied k r hc id hst
    · have := (ht hpc).2.2
      rw [hc] at this
      cases this
  · intro k r n hc
    have hc : w.conn = .quotaReset k r n := hc
    obtain ⟨hown, hlen⟩ := h.counting k r n hc
    have hcnt : (w.called c m' p').book.counted = w.book.counted :=
      (ofCall_rest w.book w.mem c).1
    refine ⟨fun d ho => ?_, by rw [hcnt]; exact hlen⟩
    unfold World.Counted
    rw [hcnt]
    rcases h.called_own hs ho with ho | ⟨-, hpc⟩
    · exact hown d ho
    · have := (ht hpc).2.2
      rw [hc] at this
      cases this
  · rw [setProc_book, (ofCall_rest w.book w.mem c).2.2]
    exact (h.called_credits hs).1
  · rw [setProc_mem, hgen]
    exact h.called_credited hs

end call

end GoMqtt.Concurrent
