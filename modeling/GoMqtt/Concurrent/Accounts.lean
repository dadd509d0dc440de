import GoMqtt.Concurrent.UnitConnects

/-! # Units that are not lost

That no unit is given back twice leaves open that one is never given back. A read loop
of an older link can end an exchange of the new session and give nothing back for it,
and a `Connect` can count an entry that a cleanup, or a read loop, is about to take out.
Where none of this happens, every permit and every identifier in use is in someone's
custody, and an entry left by a call was saved under the current generation or counted
by the `Connect` that set it. -/
namespace GoMqtt.Concurrent
open GoMqtt.Protocol GoMqtt.Session GoMqtt.Client GoMqtt.Lib

/-! ## The discipline -/

/-- The call's write has not failed. -/
def CallPc.hopeful : CallPc → Bool
  | .idle | .acquire | .acquireId | .giveBack | .save | .register | .write | .wait | .leave => true
  | _ => false

/-- In the cleanup of a failed write, past the generation check. -/
def Proc.cleaning (p : Proc) : Bool :=
  match p.pc with
  | .drop | .freePermit => true
  | .freeId => p.job.isPublish
  | _ => false

/-- No failed write is being cleaned up. -/
def World.Tidy (w : World) : Prop := ∀ c ∈ w.book.calls, (w.procs c).cleaning = false

instance (w : World) : Decidable w.Tidy :=
  inferInstanceAs (Decidable (∀ c ∈ w.book.calls, (w.procs c).cleaning = false))

/-- About to count what is in flight. -/
def ConnPc.counts : ConnPc → Bool
  | .count .. => true
  | _ => false

/-- An exchange that an acknowledgement ends is of the session its link was set up for,
and no count that has it is waiting to be applied. A PUBLISH that a PUBREC takes out has
its PUBREL stored. -/
def World.Ends (w : World) (l : LinkId) : ReadPc → Prop
  | .ackDelete .. => ((w.mem.links l).quotaGen = w.mem.quota.gen ∧
      (w.mem.links l).idGen = w.mem.ids.gen) ∧ w.conn.halfway = false
  | .recDelete id => w.mem.store.contains id .pubrel = true
  | _ => True

instance (w : World) (l : LinkId) (pc : ReadPc) : Decidable (w.Ends l pc) :=
  match pc with
  | .ackDelete .. => inferInstanceAs (Decidable (((w.mem.links l).quotaGen = w.mem.quota.gen ∧
      (w.mem.links l).idGen = w.mem.ids.gen) ∧ w.conn.halfway = false))
  | .recDelete id => inferInstanceAs (Decidable (w.mem.store.contains id .pubrel = true))
  | .off | .reading | .checkStop _ | .ackContains .. | .ackFreeId .. | .ackFreePermit ..
  | .recContains _ | .recSave _ | .inContains _ | .inDispatch _ | .inSave _ | .relContains _
  | .relDelete _ | .signal .. | .exited => .isTrue trivial

/-- Read loops end what is theirs. No `Connect` begins or goes on in `applySession` while
a failed write is being cleaned up, none is there when the cleanup reads the generation,
and none counts an exchange in both legs. -/
def Tidies (w : World) : Act → Prop
  | .call c _ => (w.procs c).pc = .checkGen → w.conn.applying = false
  | .read l => w.Ends l (w.readers l)
  | .connect _ => w.Tidy
  | .conn => (w.conn.applying = true → w.Tidy) ∧ (w.conn.counts = true → OneLeg w.mem.store)
  | _ => True

instance (store : MemStore) : Decidable (OneLeg store) :=
  inferInstanceAs (Decidable (List.Nodup _))

instance (w : World) (a : Act) : Decidable (Tidies w a) :=
  match a with
  | .call c _ => inferInstanceAs (Decidable
      ((w.procs c).pc = .checkGen → w.conn.applying = false))
  | .read l => inferInstanceAs (Decidable (w.Ends l (w.readers l)))
  | .connect _ => inferInstanceAs (Decidable w.Tidy)
  | .conn => inferInstanceAs (Decidable ((w.conn.applying = true → w.Tidy) ∧
      (w.conn.counts = true → OneLeg w.mem.store)))
  | .start .. | .receive .. | .teardown _ => .isTrue trivial

/-- No unit is given back twice, and none is lost. -/
def Orderly (w : World) (a : Act) : Prop := Settles w a ∧ Tidies w a

instance (w : World) (a : Act) : Decidable (Orderly w a) :=
  inferInstanceAs (Decidable (Settles w a ∧ Tidies w a))

/-! ## The invariant -/

/-- What is held is held by someone who will give it back. While `applySession` is
under way the permits are not looked at; with its end they are those it has counted. -/
structure Accounted (w : World) : Prop where
  units : Units w
  known : ∀ c, (w.procs c).pc ≠ .idle → c ∈ w.book.calls
  publisher : ∀ c, (w.procs c).pc = .acquire → (w.procs c).job.isPublish = true
  unfailed : ∀ c, (w.procs c).pc.hopeful = true → (w.procs c).failed = false
  clean : ∀ c, (w.procs c).cleaning = true → w.conn.applying = false ∧ w.Cur c
  hold : ∀ c, w.Hold c → w.Keeps c ∨ ∃ l r, w.conn = .idsReset l r
  charge : ∀ c, w.Charged c → w.Due c ∨ w.conn.calm = false
  paid : ∀ c, w.Charged c → (w.procs c).pc ≠ .idle ∧ (w.procs c).pc ≠ .acquire
  nodup : w.book.charged.Nodup
  adopt : ∀ l r n, w.conn = .quotaReset l r n →
    w.book.counted.Nodup ∧ ∀ c, w.Counted c → w.Own c
  cause : ∀ c, w.Own c → w.Cur c ∨ w.Counted c
  stale : ∀ c, (w.procs c).pc = .done → (w.procs c).failed = true → w.Cur c → ¬ w.Own c

theorem accounted_init (cfg : TCPConfig) : Accounted (init cfg) where
  units := units_init cfg
  known c h := absurd rfl h
  publisher c h := by cases h
  unfailed c _ := rfl
  clean c h := by cases h
  hold c h := by cases (IdAllocator.inUse_init _).symm.trans h.1
  charge c h := absurd h List.not_mem_nil
  paid c h := absurd h List.not_mem_nil
  nodup := List.nodup_nil
  adopt l r n h := by cases h
  cause c h := by rcases h with ⟨h | h, -⟩ <;> cases h
  stale c h := by cases h

section facts

variable {w : World} {c : CallId}

theorem Accounted.tidy (h : Accounted w) (ht : w.Tidy) (c : CallId) :
    (w.procs c).cleaning = false := by
  by_cases hpc : (w.procs c).pc = .idle
  · simp [Proc.cleaning, hpc]
  · exact ht c (h.known c hpc)

/-- An identifier in use that its call owes is of the current generation. -/
theorem Units.keeps_of_owes (h : Units w) (hh : w.Hold c) (ho : (w.procs c).owesId = true) :
    w.Keeps c := by
  have hg := (h.held _ hh.1).2.2
  rw [hh.2] at hg
  exact .inl ⟨ho, hg⟩

/-- Nothing is stored where a PUBLISH is saved in time. -/
theorem Units.nothing_stored (h : Units w) (ht : w.SavesInTime c)
    (hpc : (w.procs c).pc = .save) : ¬ Stored w.mem.store (w.procs c).id := by
  intro hst
  obtain ⟨hid, hsaved⟩ := h.entry _ hst
  have hown := (h.keeps _ (.inr (.inl (h.own_savedBy hst)))).1.2
  have hself := (h.keeps c (.inl ⟨by simp [Proc.owesId, hpc], (ht hpc).2.1⟩)).1.2
  -- The owner of what is stored holds the identifier, and so does the call.
  rw [hid] at hown
  rw [← hown, hself, saved_iff, hpc] at hsaved
  rcases hsaved.2 with hk | hk <;> cases hk

end facts

/-! ## Steps of the calls -/

/-- What a call owes it goes on owing, until it saves or gives back. -/
theorem CallStep.owes {m m' : State} {c : CallId} {p p' : Proc} (h : CallStep m c p m' p')
    (hsave : p.pc ≠ .save) :
    (p.owesPermit = true → p.pc ≠ .giveBack → p.pc ≠ .freePermit → p'.owesPermit = true) ∧
    (p.owesId = true → p.pc ≠ .freeId → p'.owesId = true) := by
  cases h with
  | save hpc => exact absurd hpc hsave
  | exhausted hpc | acquired hpc | unregister hpc | collect hpc | leave hpc | freeId hpc =>
    unfold Proc.next Proc.owesPermit Proc.owesId
    cases hj : p.job.isPublish <;> simp [hpc]
  | granted hpc | turnedAway hpc | giveBack hpc | register hpc | written hpc | refused hpc
  | broken hpc | torn hpc | owned hpc | adopted hpc | drop hpc | freePermit hpc | giveUp hpc =>
    simp [Proc.owesPermit, Proc.owesId, hpc]

theorem CallStep.hopeful {m m' : State} {c : CallId} {p p' : Proc} (h : CallStep m c p m' p')
    (hp : p'.pc.hopeful = true) : p.pc.hopeful = true ∧ p'.failed = p.failed := by
  cases h with
  | exhausted hpc | acquired hpc | leave hpc | collect hpc => exact ⟨by rw [hpc]; rfl, rfl⟩
  | unregister hpc | freeId hpc =>
    unfold Proc.next at hp
    dsimp only at hp
    split at hp <;> cases hp
  | granted hpc | save hpc | register hpc | written hpc | giveUp hpc =>
    exact ⟨by rw [hpc]; rfl, rfl⟩
  | turnedAway | giveBack | refused | broken | torn | owned | adopted | drop | freePermit =>
    cases hp

/-- A cleanup begins with a generation that has not changed. -/
theorem CallStep.cleaning {m m' : State} {c : CallId} {p p' : Proc} (h : CallStep m c p m' p')
    (hp : p'.cleaning = true) :
    p'.quotaGen = p.quotaGen ∧ (p.pc = .checkGen ∧ p.quotaGen = m.quota.gen ∨
      p.cleaning = true) := by
  cases h with
  | owned hpc hg => exact ⟨rfl, .inl ⟨hpc, hg.symm⟩⟩
  | exhausted hpc | acquired hpc | unregister hpc | collect hpc | leave hpc | freeId hpc =>
    unfold Proc.next Proc.cleaning at hp
    unfold Proc.next Proc.cleaning
    cases hj : p.job.isPublish <;> simp_all
  | drop hpc =>
    exact ⟨rfl, .inr (by simp [Proc.cleaning, hpc])⟩
  | granted | turnedAway | giveBack | save | register | written | refused | broken | torn
  | adopted | freePermit | giveUp => cases hp

/-- A publish that is done after a failed write gave everything back, or found the
generation changed. -/
theorem CallStep.done {m m' : State} {c : CallId} {p p' : Proc} (h : CallStep m c p m' p')
    (hd : p'.pc = .done) (hf : p'.failed = true) :
    p.pc.hopeful = true ∧ p'.failed = p.failed ∨ p.saved = false ∧ p.pc ≠ .save ∨
      p'.quotaGen ≠ m.quota.gen := by
  cases h with
  | adopted hpc hg => exact .inr (.inr fun heq => hg heq.symm)
  | freePermit hpc | freeId hpc =>
    exact .inr (.inl ⟨by simp [Proc.saved, hpc, CallPc.kept], by simp [hpc]⟩)
  | turnedAway hpc | giveBack hpc | exhausted hpc | collect hpc | leave hpc =>
    exact .inl ⟨by rw [hpc]; rfl, rfl⟩
  | unregister hpc =>
    unfold Proc.next at hd
    dsimp only at hd
    split at hd <;> cases hd
  | acquired hpc =>
    unfold Proc.next at hd
    dsimp only at hd
    split at hd <;> cases hd
  | granted | save | register | written | refused | broken | torn | owned | drop | giveUp =>
    cases hd

section call

variable {w : World} {c d : CallId} {m' : State} {p' : Proc}

/-- An entry stays its call's until it is dropped. -/
theorem Units.called_own_keeps (h : Units w) (ht : w.SavesInTime c) (hdo : w.DropsOwn c)
    (hs : CallStep w.mem c (w.procs c) m' p') (ho : w.Own d)
    (hne : d ≠ c ∨ (w.procs c).pc ≠ .drop) : (w.called c m' p').Own d := by
  have hproc : ((w.called c m' p').procs d).id = (w.procs d).id := by
    by_cases hd : d = c
    · subst hd
      rw [called_self]
      rcases hs.identifier.2 with ⟨hpc, -⟩ | ⟨hid, -⟩
      · have := (owes_of_saved (h.saved_of_own ho)).2.2
        rw [hpc] at this
        cases this
      · exact hid
    · rw [called_of_ne hd]
  unfold World.Own at ho ⊢
  rw [hproc]
  dsimp only [setProc_mem, setProc_book]
  rcases hs.store with ⟨pkt, hpc, hpkt, hst⟩ | ⟨hpc, hst⟩ | ⟨hpc, -, hst⟩
  · have hid : (w.procs d).id ≠ (w.procs c).id := fun heq =>
      h.nothing_stored ht hpc (heq ▸ ho.1)
    rw [hst, ofCall_saves hpc, Function.update_of_ne hid, stored_save]
    exact ⟨.inr ho.1, ho.2⟩
  · have hid : (w.procs d).id ≠ (w.procs c).id := by
      intro heq
      have hown := (hdo hpc).1.2
      rw [← heq, ho.2] at hown
      rcases hne with hne | hne
      · exact hne hown
      · exact hne hpc
    rw [hst, ofCall_savedBy _ _ _ (by simp [hpc])]
    refine ⟨?_, ho.2⟩
    simpa [Stored, hid] using ho.1
  · rw [hst, ofCall_savedBy _ _ _ hpc]
    exact ho

/-- An identifier that is freed is not held, whichever generation it is of. -/
theorem Units.freed (h : Units w) (hs : CallStep w.mem c (w.procs c) m' p')
    (hpc : (w.procs c).pc = .freeId) : ¬ (w.called c m' p').Hold c := by
  unfold World.Hold
  rw [called_self]
  dsimp only [setProc_mem, setProc_book]
  rw [ofCall_heldBy _ _ _ (by simp [hpc])]
  rcases hs.identifier.2 with ⟨hpc', -⟩ | ⟨hid, -⟩
  · rw [hpc] at hpc'
    cases hpc'
  · rcases hs.ids with ⟨hpc', -⟩ | ⟨-, hi⟩ | ⟨hpc', -⟩
    · rw [hpc] at hpc'
      cases hpc'
    · rintro ⟨huse, hheld⟩
      rw [hid] at huse hheld
      rw [hi, IdAllocator.inUse_releaseAt, Bool.and_eq_true] at huse
      obtain ⟨h0, -, hg⟩ := h.held _ huse.2
      rw [hheld] at hg
      simp [h0, hg] at huse
    · exact absurd hpc hpc'

theorem called_saved (hs : CallStep w.mem c (w.procs c) m' p') (hpc : (w.procs c).pc = .save) :
    (w.called c m' p').Own c := by
  cases hs with
  | save _ hpkt =>
    unfold World.Own
    rw [called_self]
    dsimp only [setProc_mem, setProc_book]
    rw [ofCall_saves hpc, Function.update_self, stored_save]
    exact ⟨.inl (packet_id hpkt).1.symm, rfl⟩
  | _ => simp_all

theorem Accounted.called_hold (h : Accounted w) (ht : w.SavesInTime c) (hdo : w.DropsOwn c)
    (hs : CallStep w.mem c (w.procs c) m' p') (hh : (w.called c m' p').Hold d) :
    (w.called c m' p').Keeps d ∨ ∃ l r, w.conn = .idsReset l r := by
  have hu := h.units.call ht hdo hs
  have hkeep := h.units.called_own_keeps ht hdo hs (d := d)
  by_cases hd : d = c
  · subst hd
    by_cases hfree : (w.procs d).pc = .freeId
    · exact absurd hh (h.units.freed hs hfree)
    by_cases hacq : (w.procs d).pc = .acquireId
    · -- it has just got its identifier
      have h0 := h.units.blank d (by rw [hacq]; rfl)
      cases hs with
      | acquired _ hi =>
        refine .inl (hu.keeps_of_owes hh ?_)
        rw [called_self]
        unfold Proc.next Proc.owesId
        cases hj : (w.procs d).job.isPublish <;> simp
      | exhausted _ hi =>
        have huse := hh.1
        rw [called_self] at huse
        dsimp only [setProc_mem, Proc.next] at huse
        rw [(IdAllocator.acquire_none hi).2, h0] at huse
        exact absurd rfl (h.units.held 0 huse).1
      | _ => simp_all
    by_cases hsave : (w.procs d).pc = .save
    · exact .inl (.inr (.inl (called_saved hs hsave)))
    have hold := (called_hold_self hs hacq hfree).mp hh
    rcases h.hold d hold with (⟨howes, -⟩ | hown | ⟨l, id, res, hl, hcl, hg⟩) | hr
    · refine .inl (hu.keeps_of_owes hh ?_)
      rw [called_self]
      exact (hs.owes hsave).2 howes hfree
    · by_cases hdrop : (w.procs d).pc = .drop
      · refine .inl (hu.keeps_of_owes hh ?_)
        rw [called_self]
        cases hs with
        | drop => rfl
        | _ => simp_all
      · exact .inl (.inr (.inl (hkeep hown (.inr hdrop))))
    · refine .inl (.inr (.inr ⟨l, id, res, hl, by rw [called_closing, hcl], ?_⟩))
      rw [setProc_mem, hs.sameLinks.links, hs.sameLinks.idGen, hg]
    · exact .inr hr
  · rw [h.units.called_hold hs hd] at hh
    refine (h.hold d hh).imp_left ?_
    rintro (⟨howes, hg⟩ | hown | ⟨l, id, res, hl, hcl, hg⟩)
    · refine .inl ?_
      rw [called_of_ne hd, setProc_mem, hs.sameLinks.idGen]
      exact ⟨howes, hg⟩
    · exact .inr (.inl (hkeep hown (.inl hd)))
    · refine .inr (.inr ⟨l, id, res, hl, by rw [called_closing, hcl], ?_⟩)
      rw [setProc_mem, hs.sameLinks.links, hs.sameLinks.idGen, hg]

/-- A permit of the current generation that is given back is gone. -/
theorem Accounted.not_charged (h : Accounted w)
    (hpc : (w.procs c).pc = .giveBack ∨ (w.procs c).pc = .freePermit)
    (hch : (w.called c m' p').Charged c) : w.conn.calm = false := by
  have hp : (w.procs c).saved = false := by
    rcases hpc with hpc | hpc <;> simp [Proc.saved, hpc, CallPc.kept]
  obtain ⟨hown, hcl⟩ := h.units.not_saved hp
  have hbook : w.book.ofCall w.mem c (w.procs c) =
      w.book.credit w.mem.quota c (w.procs c).quotaGen := by
    rcases hpc with hpc | hpc <;> simp [Book.ofCall, hpc]
  unfold World.Charged at hch
  rw [setProc_book] at hch
  dsimp only at hch
  rw [hbook] at hch
  unfold Book.credit at hch
  split at hch
  · exact absurd rfl (h.nodup.mem_erase_iff.mp hch).1
  · rename_i hcur
    refine (h.charge c hch).resolve_left ?_
    rintro (⟨-, hcur'⟩ | ho | ⟨l, hl, hc, hg⟩)
    · exact hcur hcur'
    · exact hown ho
    · exact hcl l hl (.inl hg) hc

theorem Accounted.called_charge (h : Accounted w) (ht : w.SavesInTime c) (hdo : w.DropsOwn c)
    (hs : CallStep w.mem c (w.procs c) m' p') (hch : (w.called c m' p').Charged d) :
    (w.called c m' p').Due d ∨ w.conn.calm = false := by
  have hkeep := h.units.called_own_keeps ht hdo hs (d := d)
  have hgen : m'.quota.gen = w.mem.quota.gen := hs.sameLinks.quotaGen
  have hread : (∃ l, (w.readers l).closing = true ∧ w.book.closing l = d ∧
      (w.mem.links l).quotaGen = w.mem.quota.gen) → (w.called c m' p').Due d := by
    rintro ⟨l, hl, hcl, hg⟩
    refine .inr (.inr ⟨l, hl, by rw [called_closing, hcl], ?_⟩)
    rw [setProc_mem, hs.sameLinks.links, hgen, hg]
  by_cases hd : d = c
  · subst hd
    by_cases hsave : (w.procs d).pc = .save
    · exact .inl (.inr (.inl (called_saved hs hsave)))
    rcases hs.quota with ⟨hpc, gen, hq, hp⟩ | ⟨hpc, -⟩ | ⟨-, hp, hg, hf, hacq⟩
    · -- a permit just granted
      cases hs with
      | granted _ hgrant =>
        refine .inl (.inl ?_)
        unfold World.Cur
        rw [called_self, setProc_mem, hgen]
        exact ⟨h.publisher d hpc, (Quota.acquire_granted hgrant).2.2.1⟩
      | turnedAway _ hno => exact absurd hq (hno _ _)
      | _ => simp_all
    · exact .inr (h.not_charged hpc hch)
    · have hold : w.Charged d := by
        unfold World.Charged at hch ⊢
        rw [setProc_book] at hch
        dsimp only at hch
        rwa [(ofCall_charged _ _ _ hg hf hacq).1] at hch
      have howed : p'.owesPermit = true → w.Cur d → (w.called d m' p').Due d := by
        intro howes hcur
        refine .inl ?_
        unfold World.Cur
        rw [called_self, setProc_mem, hgen, hp]
        exact ⟨howes, hcur⟩
      rcases h.charge d hold with (⟨howes, hcur⟩ | hown | hr) | hc
      · exact .inl (howed ((hs.owes hsave).1 howes hg hf) hcur)
      · by_cases hdrop : (w.procs d).pc = .drop
        · have hj := (saved_iff.mp (h.units.saved_of_own hown)).1
          have hcur := (h.clean d (by simp [Proc.cleaning, hdrop])).2
          refine .inl (howed ?_ hcur)
          cases hs with
          | drop => simp [Proc.owesPermit, hj]
          | _ => simp_all
        · exact .inl (.inr (.inl (hkeep hown (.inr hdrop))))
      · exact .inl (hread hr)
      · exact .inr hc
  · rw [called_charged hs hd] at hch
    refine (h.charge d hch).imp_left ?_
    rintro (⟨howes, hcur⟩ | hown | hr)
    · refine .inl ?_
      unfold World.Cur
      rw [called_of_ne hd, setProc_mem, hgen]
      exact ⟨howes, hcur⟩
    · exact .inr (.inl (hkeep hown (.inl hd)))
    · exact hread hr

/-- Each permit is charged once. -/
theorem Accounted.called_nodup (h : Accounted w) (hs : CallStep w.mem c (w.procs c) m' p') :
    (w.book.ofCall w.mem c (w.procs c)).charged.Nodup := by
  rcases hs.quota with ⟨hpc, gen, hq, -⟩ | ⟨hpc, -, -⟩ | ⟨-, -, hg, hf, hacq⟩
  · have hch : (w.book.ofCall w.mem c (w.procs c)).charged = c :: w.book.charged := by
      simp [Book.ofCall, hpc, hq]
    rw [hch]
    exact List.nodup_cons.mpr ⟨fun hm => (h.paid c hm).2 hpc, h.nodup⟩
  · have hbook : w.book.ofCall w.mem c (w.procs c) =
        w.book.credit w.mem.quota c (w.procs c).quotaGen := by
      rcases hpc with hpc | hpc <;> simp [Book.ofCall, hpc]
    rw [hbook]
    unfold Book.credit
    split
    · exact h.nodup.erase _
    · exact h.nodup
  · rw [(ofCall_charged _ _ _ hg hf hacq).1]
    exact h.nodup

/-- A call past its permit keeps the permit's generation. -/
theorem called_cur (hs : CallStep w.mem c (w.procs c) m' p')
    (hd : d ≠ c ∨ (w.procs c).pc ≠ .acquire) : (w.called c m' p').Cur d ↔ w.Cur d := by
  unfold World.Cur
  rw [setProc_mem, hs.sameLinks.quotaGen]
  by_cases hdc : d = c
  · subst hdc
    rw [called_self]
    rcases hs.quota with ⟨hpc, -⟩ | ⟨-, -, hq⟩ | ⟨-, hq, -⟩
    · exact absurd hpc (hd.resolve_left fun hne => hne rfl)
    · rw [hq]
    · rw [hq]
  · rw [called_of_ne hdc]

/-- A cleanup starts within the generation of its permit. -/
theorem Accounted.called_clean (h : Accounted w)
    (hg : (w.procs c).pc = .checkGen → w.conn.applying = false)
    (hs : CallStep w.mem c (w.procs c) m' p')
    (hd : ((w.called c m' p').procs d).cleaning = true) :
    w.conn.applying = false ∧ (w.called c m' p').Cur d := by
  by_cases hdc : d = c
  · subst hdc
    unfold World.Cur
    rw [called_self] at hd ⊢
    rw [setProc_mem, hs.sameLinks.quotaGen]
    obtain ⟨hq, ⟨hpc, hgc⟩ | hcl⟩ := hs.cleaning hd
    · rw [hq]
      exact ⟨hg hpc, hgc⟩
    · rw [hq]
      exact h.clean d hcl
  · rw [called_of_ne hdc] at hd
    rw [called_cur hs (.inl hdc)]
    exact h.clean d hd

theorem Accounted.called_cause (h : Accounted w) (ht : w.SavesInTime c)
    (hs : CallStep w.mem c (w.procs c) m' p') (ho : (w.called c m' p').Own d) :
    (w.called c m' p').Cur d ∨ w.Counted d := by
  rcases h.units.called_own hs ho with hold | ⟨rfl, hpc⟩
  · have hne : d ≠ c ∨ (w.procs c).pc ≠ .acquire := by
      by_cases hdc : d = c
      · subst hdc
        refine .inr fun hpc => ?_
        have := (owes_of_saved (h.units.saved_of_own hold)).2.2
        rw [hpc] at this
        cases this
      · exact .inl hdc
    rw [called_cur hs hne]
    exact h.cause d hold
  · rw [called_cur hs (.inr (by simp [hpc]))]
    exact .inl (ht hpc).1

theorem Accounted.called_stale (h : Accounted w) (hs : CallStep w.mem c (w.procs c) m' p')
    (hd : ((w.called c m' p').procs d).pc = .done)
    (hf : ((w.called c m' p').procs d).failed = true) (hcur : (w.called c m' p').Cur d) :
    ¬ (w.called c m' p').Own d := by
  intro ho
  by_cases hdc : d = c
  · subst hdc
    unfold World.Cur at hcur
    rw [called_self] at hd hf hcur
    rw [setProc_mem, hs.sameLinks.quotaGen] at hcur
    rcases hs.done hd hf with ⟨hp, hsame⟩ | ⟨hp, hne⟩ | hne
    · rw [hsame, h.unfailed d hp] at hf
      cases hf
    · rcases h.units.called_own hs ho with ho | ⟨-, hpc⟩
      · exact (h.units.not_saved hp).1 ho
      · exact hne hpc
    · exact hne hcur
  · rcases h.units.called_own hs ho with ho | ⟨heq, -⟩
    · rw [called_cur hs (.inl hdc)] at hcur
      rw [called_of_ne hdc] at hd hf
      exact h.stale d hd hf hcur ho
    · exact hdc heq

theorem Accounted.call (h : Accounted w) (ht : w.SavesInTime c) (hdo : w.DropsOwn c)
    (hg : (w.procs c).pc = .checkGen → w.conn.applying = false)
    (hs : CallStep w.mem c (w.procs c) m' p') : Accounted (w.called c m' p') := by
  have hcnt : (w.called c m' p').book.counted = w.book.counted := (ofCall_rest w.book w.mem c).1
  obtain ⟨hi, ha, -⟩ := hs.forward
  refine ⟨h.units.call ht hdo hs, ?_, ?_, ?_, fun d hd => h.called_clean hg hs hd,
    fun d hh => h.called_hold ht hdo hs hh, fun d hch => h.called_charge ht hdo hs hch, ?_,
    h.called_nodup hs, ?_, ?_, fun d hd hf hcur => h.called_stale hs hd hf hcur⟩
  · intro d hd
    rw [setProc_book, ofCall_calls]
    by_cases hdc : d = c
    · subst hdc
      exact h.known d hs.link.2
    · rw [called_of_ne hdc] at hd
      exact h.known d hd
  · intro d hd
    by_cases hdc : d = c
    · subst hdc
      rw [called_self] at hd
      exact absurd hd ha
    · rw [called_of_ne hdc] at hd ⊢
      exact h.publisher d hd
  · intro d hd
    by_cases hdc : d = c
    · subst hdc
      rw [called_self] at hd ⊢
      obtain ⟨hp, hf⟩ := hs.hopeful hd
      rw [hf]
      exact h.unfailed d hp
    · rw [called_of_ne hdc] at hd ⊢
      exact h.unfailed d hd
  · intro d hch
    by_cases hdc : d = c
    · subst hdc
      rw [called_self]
      exact ⟨hi, ha⟩
    · rw [called_charged hs hdc] at hch
      rw [called_of_ne hdc]
      exact h.paid d hch
  · intro l r n hc
    have hc : w.conn = .quotaReset l r n := hc
    obtain ⟨hnd, hown⟩ := h.adopt l r n hc
    unfold World.Counted
    rw [hcnt]
    refine ⟨hnd, fun d hd => h.units.called_own_keeps ht hdo hs (hown d hd) (.inr fun hpc => ?_)⟩
    -- nothing is dropped while the count waits
    have := (h.clean c (by simp [Proc.cleaning, hpc])).1
    rw [hc] at this
    cases this
  · intro d ho
    unfold World.Counted
    rw [hcnt]
    exact h.called_cause ht hs ho

end call

end GoMqtt.Concurrent
