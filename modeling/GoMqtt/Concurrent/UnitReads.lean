import GoMqtt.Concurrent.UnitCalls

/-! # Units under the read loops

The read loop ends an exchange in three critical sections: it takes the entry out,
frees the identifier and gives the permit back, the last two under the generations
its link was set up with. In between the unit is in its hands. The steps that give
nothing back share one lemma. -/
namespace GoMqtt.Concurrent
open GoMqtt.Protocol GoMqtt.Session GoMqtt.Client GoMqtt.Lib

/-! ## Steps that no call takes -/

/-- A step that no call takes: what is stored was stored, and the generations only
grow. -/
structure Moves (w w' : World) : Prop where
  procs : w'.procs = w.procs
  savedBy : w'.book.savedBy = w.book.savedBy
  stored : ∀ id, Stored w'.mem.store id → Stored w.mem.store id
  quotaGen : w.mem.quota.gen ≤ w'.mem.quota.gen
  idGen : w.mem.ids.gen ≤ w'.mem.ids.gen

section moves

variable {w w' : World} {c : CallId}

theorem Moves.own (hm : Moves w w') (ho : w'.Own c) : w.Own c := by
  unfold World.Own at ho ⊢
  rw [hm.procs, hm.savedBy] at ho
  exact ⟨hm.stored _ ho.1, ho.2⟩

theorem Moves.cur (hm : Moves w w') (h : Units w) (hc : w'.Cur c) :
    w.Cur c ∧ w'.mem.quota.gen = w.mem.quota.gen := by
  unfold World.Cur at hc ⊢
  rw [hm.procs] at hc
  have hle := (h.gens c).1
  have hgrow := hm.quotaGen
  omega

/-- What is left to show of such a step is who has which permit and identifier. -/
theorem Units.moved (h : Units w) (hm : Moves w w') (hl : Linked w')
    (hheld : w'.book.heldBy = w.book.heldBy ∧ ∀ id, w'.mem.ids.inUse id = true →
      w.mem.ids.inUse id = true ∧ w'.mem.ids.gen = w.mem.ids.gen)
    (hlinks : ∀ l, (w'.mem.links l).quotaGen ≤ w'.mem.quota.gen ∧
      (w'.mem.links l).idGen ≤ w'.mem.ids.gen)
    (hreader : ∀ l, ReaderOk w' l)
    (hapart : ∀ l k, (w'.readers l).closing = true → (w'.readers k).closing = true →
      w'.Acts l → w'.Acts k → w'.book.closing l = w'.book.closing k → l = k)
    (hdue : ∀ c, w'.Due c → w'.Charged c ∧ (c, w'.mem.quota.gen) ∉ w'.book.credits)
    (hkeeps : ∀ c, w'.Keeps c → w'.Hold c ∧ c ∉ w'.book.frees)
    (hemptied : ∀ l r, w'.conn = .idsReset l r → ∀ id, ¬ Stored w'.mem.store id)
    (hcounting : ∀ l r n, w'.conn = .quotaReset l r n →
      (∀ c, w'.Own c → w'.Counted c) ∧ w'.book.counted.length = n)
    (hbalance : w'.mem.quota.avail + w'.book.charged.length = w'.book.ceiling)
    (hcredits : w'.book.credits.Nodup ∧ ∀ e ∈ w'.book.credits, e.2 ≤ w'.mem.quota.gen ∧
      (w.procs e.1).pc ≠ .idle ∧ (w.procs e.1).pc ≠ .acquire)
    (hfrees : w'.book.frees.Nodup ∧ ∀ c ∈ w'.book.frees, (w.procs c).pc.early = false) :
    Units w' := by
  refine ⟨hl, ?_, ?_, ?_, ?_, hlinks, hreader, hapart, hdue, hkeeps, hemptied, hcounting,
    hbalance, ?_, ?_⟩
  · rw [hm.procs]
    exact h.blank
  · intro id hst
    rw [hm.procs, hm.savedBy]
    exact h.entry id (hm.stored id hst)
  · intro id huse
    obtain ⟨hold, hgen⟩ := hheld.2 id huse
    rw [hm.procs, hheld.1, hgen]
    exact h.held id hold
  · intro c
    rw [hm.procs]
    exact ⟨Nat.le_trans (h.gens c).1 hm.quotaGen, Nat.le_trans (h.gens c).2 hm.idGen⟩
  · rw [hm.procs]
    exact hcredits
  · rw [hm.procs]
    exact hfrees

end moves

/-! ## Steps that give nothing back -/

/-- No permit and no identifier changes hands: a read loop that is ending an exchange
was ending it before. -/
structure Same (w w' : World) : Prop where
  procs : w'.procs = w.procs
  book : w'.book = { w.book with resetFor := w'.book.resetFor }
  stored : ∀ id, Stored w'.mem.store id → Stored w.mem.store id
  inUse : ∀ id, w'.mem.ids.inUse id = w.mem.ids.inUse id
  idGen : w'.mem.ids.gen = w.mem.ids.gen
  avail : w'.mem.quota.avail = w.mem.quota.avail
  quotaGen : w'.mem.quota.gen = w.mem.quota.gen
  closing : ∀ l, (w'.readers l).closing = true → (w.readers l).closing = true ∧
    (w'.mem.links l).quotaGen = (w.mem.links l).quotaGen ∧
    (w'.mem.links l).idGen = (w.mem.links l).idGen ∧
    ∀ id res, w'.readers l = .ackFreeId id res → w.readers l = .ackFreeId id res

section same

variable {w w' : World} {c : CallId} {l : LinkId}

theorem Same.moves (h : Same w w') : Moves w w' := by
  refine ⟨h.procs, ?_, h.stored, Nat.le_of_eq h.quotaGen.symm, Nat.le_of_eq h.idGen.symm⟩
  rw [h.book]

theorem Same.hold (h : Same w w') (c : CallId) : w'.Hold c ↔ w.Hold c := by
  unfold World.Hold
  rw [h.procs, h.inUse, h.book]

theorem Same.acts (h : Same w w') (hl : (w'.readers l).closing = true) (ha : w'.Acts l) :
    w.Acts l := by
  obtain ⟨-, hq, hi, -⟩ := h.closing l hl
  unfold World.Acts at ha ⊢
  rw [hq, hi, h.quotaGen, h.idGen] at ha
  exact ha

theorem Same.due (h : Same w w') (hd : w'.Due c) : w.Due c := by
  rcases hd with ⟨howes, hcur⟩ | hown | ⟨k, hk, hck, hg⟩
  · unfold World.Cur at hcur
    rw [h.procs] at howes hcur
    rw [h.quotaGen] at hcur
    exact .inl ⟨howes, hcur⟩
  · exact .inr (.inl (h.moves.own hown))
  · obtain ⟨hk', hq, -, -⟩ := h.closing k hk
    rw [h.book] at hck
    rw [hq, h.quotaGen] at hg
    exact .inr (.inr ⟨k, hk', hck, hg⟩)

theorem Same.keeps (h : Same w w') (hd : w'.Keeps c) : w.Keeps c := by
  rcases hd with ⟨howes, hcur⟩ | hown | ⟨k, id, res, hk, hck, hg⟩
  · rw [h.procs] at howes hcur
    rw [h.idGen] at hcur
    exact .inl ⟨howes, hcur⟩
  · exact .inr (.inl (h.moves.own hown))
  · obtain ⟨-, -, hi, hpc⟩ := h.closing k (by rw [hk]; rfl)
    rw [h.book] at hck
    rw [hi, h.idGen] at hg
    exact .inr (.inr ⟨k, id, res, hpc id res hk, hck, hg⟩)

theorem Units.same_reader (h : Units w) (hs : Same w w')
    (hout : ∀ id kind res, w'.readers l = .ackContains id kind res ∨
      w'.readers l = .ackDelete id kind res → kind.outbound = true) : ReaderOk w' l := by
  have hcl : w'.book.closing l = w.book.closing l := by rw [hs.book]
  refine ⟨hout, ?_, ?_⟩
  · intro hl ha
    obtain ⟨hsaved, hown⟩ := (h.reader l).closes (hs.closing l hl).1 (hs.acts hl ha)
    rw [hcl, hs.procs]
    exact ⟨hsaved, fun ho => hown (hs.moves.own ho)⟩
  · intro id res hl hg
    obtain ⟨-, -, hi, hpc⟩ := hs.closing l (by rw [hl]; rfl)
    rw [hi, hs.idGen] at hg
    rw [hcl, hs.procs]
    exact (h.reader l).target id res (hpc id res hl) hg

/-- A step that gives nothing back keeps the invariant. -/
theorem Units.congr (h : Units w) (hs : Same w w') (hl : Linked w')
    (hlinks : ∀ l, (w'.mem.links l).quotaGen ≤ w.mem.quota.gen ∧
      (w'.mem.links l).idGen ≤ w.mem.ids.gen)
    (hout : ∀ l id kind res, w'.readers l = .ackContains id kind res ∨
      w'.readers l = .ackDelete id kind res → kind.outbound = true)
    (hemptied : ∀ l r, w'.conn = .idsReset l r → ∀ id, ¬ Stored w'.mem.store id)
    (hcounting : ∀ l r n, w'.conn = .quotaReset l r n →
      (∀ c, w'.Own c → w.Counted c) ∧ w.book.counted.length = n) : Units w' := by
  have hbook := hs.book
  have hcnt : w'.book.counted = w.book.counted := by rw [hbook]
  refine h.moved hs.moves hl ⟨by rw [hbook], fun id hu => ?_⟩ ?_
    (fun l => h.same_reader hs (hout l)) ?_ ?_ ?_ hemptied ?_ ?_ ?_ ?_
  · rw [hs.inUse] at hu
    exact ⟨hu, hs.idGen⟩
  · rw [hs.quotaGen, hs.idGen]
    exact hlinks
  · intro l k hl hk hal hak heq
    rw [hbook] at heq
    exact h.apart l k (hs.closing l hl).1 (hs.closing k hk).1 (hs.acts hl hal) (hs.acts hk hak) heq
  · intro c hd
    obtain ⟨hch, hcr⟩ := h.due c (hs.due hd)
    unfold World.Charged
    rw [hs.quotaGen, hbook]
    exact ⟨hch, hcr⟩
  · intro c hk
    obtain ⟨hh, hfr⟩ := h.keeps c (hs.keeps hk)
    rw [hs.hold, hbook]
    exact ⟨hh, hfr⟩
  · intro l r n hc
    unfold World.Counted
    rw [hcnt]
    exact hcounting l r n hc
  · rw [hs.avail, hbook]
    exact h.balance
  · rw [hs.quotaGen, hbook]
    exact h.credits
  · rw [hbook]
    exact h.frees

end same

/-! ## Steps of a read loop -/

/-- The world after a step of a read loop. -/
abbrev World.readBy (w : World) (l : LinkId) (m' : State) (pc' : ReadPc) : World :=
  { w with mem := m', book := w.book.ofRead w.mem l (w.readers l) }.setReader l pc'

section read

variable {w : World} {l : LinkId} {m' : State} {pc' : ReadPc}

theorem readBy_self : (w.readBy l m' pc').readers l = pc' := Function.update_self _ _ _

theorem readBy_of_ne {k : LinkId} (hk : k ≠ l) :
    (w.readBy l m' pc').readers k = w.readers k :=
  Function.update_of_ne hk _ _

/-- What every step of a read loop leaves alone. -/
structure ReadBy (w w' : World) (l : LinkId) : Prop where
  procs : w'.procs = w.procs
  conn : w'.conn = w.conn
  links : w'.mem.links = w.mem.links
  idGen : w'.mem.ids.gen = w.mem.ids.gen
  quotaGen : w'.mem.quota.gen = w.mem.quota.gen
  savedBy : w'.book.savedBy = w.book.savedBy
  heldBy : w'.book.heldBy = w.book.heldBy
  counted : w'.book.counted = w.book.counted
  calls : w'.book.calls = w.book.calls
  other : ∀ k, k ≠ l → w'.readers k = w.readers k

theorem readBy_spec (hread : readStep w.mem l (w.readers l) = some (m', pc')) :
    ReadBy w (w.readBy l m' pc') l := by
  obtain ⟨hlinks, -⟩ := readStep_some hread
  have hbook : (w.book.ofRead w.mem l (w.readers l)).savedBy = w.book.savedBy ∧
      (w.book.ofRead w.mem l (w.readers l)).heldBy = w.book.heldBy ∧
      (w.book.ofRead w.mem l (w.readers l)).counted = w.book.counted := by
    unfold Book.ofRead Book.credit Book.free
    split <;> try exact ⟨rfl, rfl, rfl⟩
    all_goals split <;> exact ⟨rfl, rfl, rfl⟩
  exact ⟨rfl, rfl, hlinks.links, hlinks.idGen, hlinks.quotaGen, hbook.1, hbook.2.1, hbook.2.2,
    ofRead_calls _ _ _ _, fun k hk => readBy_of_ne hk⟩

section readBy

variable {w' : World} {c : CallId}

theorem ReadBy.moves (hr : ReadBy w w' l)
    (hst : ∀ id, Stored w'.mem.store id → Stored w.mem.store id) : Moves w w' :=
  ⟨hr.procs, hr.savedBy, hst, Nat.le_of_eq hr.quotaGen.symm, Nat.le_of_eq hr.idGen.symm⟩

theorem ReadBy.acts (hr : ReadBy w w' l) (k : LinkId) : w'.Acts k ↔ w.Acts k := by
  unfold World.Acts
  rw [hr.links, hr.quotaGen, hr.idGen]

theorem ReadBy.cur (hr : ReadBy w w' l) (c : CallId) : w'.Cur c ↔ w.Cur c := by
  unfold World.Cur
  rw [hr.procs, hr.quotaGen]

/-- What stays stored stays its call's. -/
theorem ReadBy.own (hr : ReadBy w w' l) (hst : Stored w'.mem.store (w.procs c).id)
    (ho : w.Own c) : w'.Own c := by
  unfold World.Own
  rw [hr.procs, hr.savedBy]
  exact ⟨hst, ho.2⟩

theorem ReadBy.hold (hr : ReadBy w w' l) (hu : ∀ id, w'.mem.ids.inUse id = true →
    w.mem.ids.inUse id = true) (hh : w'.Hold c) : w.Hold c := by
  unfold World.Hold at hh ⊢
  rw [hr.procs, hr.heldBy] at hh
  exact ⟨hu _ hh.1, hh.2⟩

/-! ### In the hands of a read loop -/

/-- The permit is with the call, with its entry or with the read loop of another link. -/
def World.DueApart (w : World) (l : LinkId) (c : CallId) : Prop :=
  ((w.procs c).owesPermit = true ∧ w.Cur c) ∨ w.Own c ∨
    ∃ k, k ≠ l ∧ (w.readers k).closing = true ∧ w.book.closing k = c ∧
      (w.mem.links k).quotaGen = w.mem.quota.gen

/-- The permit is with the read loop of the link. -/
def World.DueAt (w : World) (l : LinkId) (c : CallId) : Prop :=
  (w.readers l).closing = true ∧ w.book.closing l = c ∧
    (w.mem.links l).quotaGen = w.mem.quota.gen

/-- The identifier is with the call, with its entry or with the read loop of another link. -/
def World.KeepsApart (w : World) (l : LinkId) (c : CallId) : Prop :=
  ((w.procs c).owesId = true ∧ (w.procs c).idGen = w.mem.ids.gen) ∨ w.Own c ∨
    ∃ k, k ≠ l ∧ ∃ id res, w.readers k = .ackFreeId id res ∧ w.book.closing k = c ∧
      (w.mem.links k).idGen = w.mem.ids.gen

/-- The identifier is with the read loop of the link. -/
def World.KeepsAt (w : World) (l : LinkId) (c : CallId) : Prop :=
  ∃ id res, w.readers l = .ackFreeId id res ∧ w.book.closing l = c ∧
    (w.mem.links l).idGen = w.mem.ids.gen

/-- One of the links set apart. -/
theorem or_exists_apart {A B : Prop} {P : LinkId → Prop} (l : LinkId) :
    (A ∨ B ∨ ∃ k, P k) ↔ (A ∨ B ∨ ∃ k, k ≠ l ∧ P k) ∨ P l := by
  constructor
  · rintro (h | h | ⟨k, hk⟩)
    · exact .inl (.inl h)
    · exact .inl (.inr (.inl h))
    · by_cases hkl : k = l
      · subst hkl
        exact .inr hk
      · exact .inl (.inr (.inr ⟨k, hkl, hk⟩))
  · rintro ((h | h | ⟨k, -, hk⟩) | h)
    · exact .inl h
    · exact .inr (.inl h)
    · exact .inr (.inr ⟨k, hk⟩)
    · exact .inr (.inr ⟨l, h⟩)

theorem due_iff (w : World) (l : LinkId) (c : CallId) :
    w.Due c ↔ w.DueApart l c ∨ w.DueAt l c := or_exists_apart l

theorem keeps_iff (w : World) (l : LinkId) (c : CallId) :
    w.Keeps c ↔ w.KeepsApart l c ∨ w.KeepsAt l c := or_exists_apart l

theorem ReadBy.symm (hr : ReadBy w w' l) : ReadBy w' w l :=
  ⟨hr.procs.symm, hr.conn.symm, hr.links.symm, hr.idGen.symm, hr.quotaGen.symm, hr.savedBy.symm,
    hr.heldBy.symm, hr.counted.symm, hr.calls.symm, fun k hk => (hr.other k hk).symm⟩

/-- What the read loop does not have in its hands stays where it is. -/
theorem ReadBy.dueApart (hr : ReadBy w w' l)
    (hcb : ∀ k, k ≠ l → w'.book.closing k = w.book.closing k) (hown : w'.Own c → w.Own c)
    (hd : w'.DueApart l c) : w.DueApart l c := by
  rcases hd with ⟨howes, hcur⟩ | ho | ⟨k, hkl, hk, hck, hg⟩
  · rw [hr.procs] at howes
    exact .inl ⟨howes, (hr.cur c).mp hcur⟩
  · exact .inr (.inl (hown ho))
  · rw [hr.other k hkl] at hk
    rw [hcb k hkl] at hck
    rw [hr.links, hr.quotaGen] at hg
    exact .inr (.inr ⟨k, hkl, hk, hck, hg⟩)

theorem ReadBy.keepsApart (hr : ReadBy w w' l)
    (hcb : ∀ k, k ≠ l → w'.book.closing k = w.book.closing k) (hown : w'.Own c → w.Own c)
    (hd : w'.KeepsApart l c) : w.KeepsApart l c := by
  rcases hd with ⟨howes, hg⟩ | ho | ⟨k, hkl, id, res, hk, hck, hg⟩
  · rw [hr.procs] at howes hg
    rw [hr.idGen] at hg
    exact .inl ⟨howes, hg⟩
  · exact .inr (.inl (hown ho))
  · rw [hr.other k hkl] at hk
    rw [hcb k hkl] at hck
    rw [hr.links, hr.idGen] at hg
    exact .inr (.inr ⟨k, hkl, id, res, hk, hck, hg⟩)

/-- The exchange a read loop is ending: its call has nothing to give back itself, and no
other read loop has it. -/
theorem Units.apart_ne (h : Units w) (hl : (w.readers l).closing = true) (ha : w.Acts l) :
    (w.DueApart l c → c ≠ w.book.closing l) ∧ (w.KeepsApart l c → c ≠ w.book.closing l) := by
  obtain ⟨hsaved, hown⟩ := (h.reader l).closes hl ha
  obtain ⟨hp, hi, -⟩ := owes_of_saved hsaved
  constructor
  · intro hd heq
    subst heq
    rcases hd with ⟨howes, -⟩ | ho | ⟨k, hkl, hk, hck, hg⟩
    · rw [hp] at howes
      cases howes
    · exact hown ho
    · exact hkl (h.apart k l hk hl (.inl hg) ha hck)
  · intro hd heq
    subst heq
    rcases hd with ⟨howes, -⟩ | ho | ⟨k, hkl, id, res, hk, hck, hg⟩
    · rw [hi] at howes
      cases howes
    · exact hown ho
    · exact hkl (h.apart k l (by rw [hk]; rfl) hl (.inr hg) ha hck)

end readBy

/-- The stop check sends an acknowledgement to the entry of an exchange. -/
theorem handle_outbound {f : Client.Frame} {id : UInt16} {kind : StoredKind} {res : AckResult}
    (h : ReadPc.handle f = .ackContains id kind res ∨ ReadPc.handle f = .ackDelete id kind res) :
    kind.outbound = true := by
  cases f with
  | publish p =>
    unfold ReadPc.handle at h
    dsimp only at h
    split at h <;> rcases h with h | h <;> cases h
  | puback ack | pubcomp ack =>
    rcases h with h | h
    · cases h
      rfl
    · cases h
  | _ => rcases h with h | h <;> cases h

/-- A read loop looks for the entry of an exchange, in one leg or the other. -/
theorem readStep_outbound (h : ReaderOk w l)
    (hread : readStep w.mem l (w.readers l) = some (m', pc')) {id : UInt16} {kind : StoredKind}
    {res : AckResult} (hpc : pc' = .ackContains id kind res ∨ pc' = .ackDelete id kind res) :
    kind.outbound = true := by
  cases hp : w.readers l with
  | off | reading | exited =>
    rw [hp] at hread
    cases hread
  | checkStop f =>
    rw [hp] at hread
    cases hread
    by_cases hs : (w.mem.links l).stop = true
    · rw [if_pos hs] at hpc
      rcases hpc with hpc | hpc <;> cases hpc
    · rw [if_neg hs] at hpc
      exact handle_outbound hpc
  | ackContains id' kind' res' =>
    rw [hp] at hread
    cases hread
    have hk := h.outbound id' kind' res' (.inl hp)
    split at hpc
    · rcases hpc with hpc | hpc <;> cases hpc
      exact hk
    · rcases hpc with hpc | hpc <;> cases hpc
  | recContains ack =>
    rw [hp] at hread
    cases hread
    split at hpc
    · split at hpc
      · rcases hpc with hpc | hpc <;> cases hpc
        rfl
      · rcases hpc with hpc | hpc <;> cases hpc
    · rcases hpc with hpc | hpc <;> cases hpc
  | inContains | inDispatch | relContains =>
    rw [hp] at hread
    cases hread
    split at hpc <;> rcases hpc with hpc | hpc <;> cases hpc
  | _ =>
    rw [hp] at hread
    cases hread
    rcases hpc with hpc | hpc <;> cases hpc

theorem Units.read_outbound (h : Units w)
    (hread : readStep w.mem l (w.readers l) = some (m', pc')) (k : LinkId) (id : UInt16)
    (kind : StoredKind) (res : AckResult)
    (hpc : (w.readBy l m' pc').readers k = .ackContains id kind res ∨
      (w.readBy l m' pc').readers k = .ackDelete id kind res) : kind.outbound = true := by
  by_cases hk : k = l
  · subst hk
    rw [readBy_self] at hpc
    exact readStep_outbound (h.reader k) hread hpc
  · rw [readBy_of_ne hk] at hpc
    exact (h.reader k).outbound id kind res hpc

/-- A step of a read loop that gives nothing back: it is not ending an exchange, or what
it has to give back counts for nothing. -/
structure Quiet (w : World) (l : LinkId) (m' : State) (pc' : ReadPc) : Prop where
  book : w.book.ofRead w.mem l (w.readers l) = w.book
  stored : ∀ id, Stored m'.store id → Stored w.mem.store id
  inUse : ∀ id, m'.ids.inUse id = w.mem.ids.inUse id
  avail : m'.quota.avail = w.mem.quota.avail
  ends : pc'.closing = true → (w.readers l).closing = true ∧ ∀ id res, pc' ≠ .ackFreeId id res
  due : (w.readers l).closing = true → (w.mem.links l).quotaGen = w.mem.quota.gen →
    pc'.closing = true
  keeps : ∀ id res, w.readers l = .ackFreeId id res → (w.mem.links l).idGen ≠ w.mem.ids.gen

/-- A step that neither is at the end of an exchange nor comes there. -/
theorem quiet_of_store (hpc : (w.readers l).closing = false) (hpc' : pc'.closing = false)
    (hbook : w.book.ofRead w.mem l (w.readers l) = w.book) (hids : m'.ids = w.mem.ids)
    (hq : m'.quota = w.mem.quota) (hst : ∀ id, Stored m'.store id → Stored w.mem.store id) :
    Quiet w l m' pc' := by
  refine ⟨hbook, hst, by simp [hids], by rw [hq], ?_, ?_, ?_⟩
  · intro hc
    rw [hpc'] at hc
    cases hc
  · intro hc
    rw [hpc] at hc
    cases hc
  · intro id res hc
    rw [hc] at hpc
    cases hpc

/-- The other steps of a read loop are those that end an exchange. -/
theorem readStep_quiet (hf : w.Finds l (w.readers l))
    (hread : readStep w.mem l (w.readers l) = some (m', pc')) :
    (∃ id kind res, w.readers l = .ackDelete id kind res) ∨
    (∃ id res, w.readers l = .ackFreeId id res ∧ (w.mem.links l).idGen = w.mem.ids.gen) ∨
    (∃ id res, w.readers l = .ackFreePermit id res ∧
      (w.mem.links l).quotaGen = w.mem.quota.gen) ∨ Quiet w l m' pc' := by
  cases hpc : w.readers l with
  | off | reading | exited =>
    rw [hpc] at hread
    cases hread
  | ackDelete id kind res => exact .inl ⟨id, kind, res, rfl⟩
  | ackFreeId id res =>
    by_cases hg : (w.mem.links l).idGen = w.mem.ids.gen
    · exact .inr (.inl ⟨id, res, rfl, hg⟩)
    rw [hpc] at hread
    cases hread
    refine .inr (.inr (.inr ⟨?_, fun _ hs => hs, ?_, rfl, ?_, fun _ _ => rfl, fun _ _ _ => hg⟩))
    · simp only [hpc, Book.ofRead, Book.free, if_neg hg]
    · simp [IdAllocator.inUse_releaseAt, hg]
    · exact fun _ => ⟨by rw [hpc]; rfl, by simp⟩
  | ackFreePermit id res =>
    by_cases hg : (w.mem.links l).quotaGen = w.mem.quota.gen
    · exact .inr (.inr (.inl ⟨id, res, rfl, hg⟩))
    rw [hpc] at hread
    cases hread
    refine .inr (.inr (.inr ⟨?_, fun _ hs => hs, fun _ => rfl, ?_, ?_, fun _ hg' => absurd hg' hg,
      ?_⟩))
    · simp only [hpc, Book.ofRead, Book.credit, if_neg hg]
    · simp [Quota.avail_releaseAt, hg]
    · exact fun hc => by cases hc
    · intro id res hc
      rw [hpc] at hc
      cases hc
  | checkStop f =>
    rw [hpc] at hread
    cases hread
    refine .inr (.inr (.inr (quiet_of_store (by rw [hpc]; rfl) ?_
      (by simp only [hpc, Book.ofRead]) rfl rfl fun _ hs => hs)))
    split
    · rfl
    · cases f with
      | publish p =>
        unfold ReadPc.handle
        dsimp only
        split <;> rfl
      | _ => rfl
  | ackContains | inContains | inDispatch | relContains =>
    rw [hpc] at hread
    cases hread
    refine .inr (.inr (.inr (quiet_of_store (by rw [hpc]; rfl) ?_
      (by simp only [hpc, Book.ofRead]) rfl rfl fun _ hs => hs)))
    split <;> rfl
  | recContains ack =>
    rw [hpc] at hread
    cases hread
    refine .inr (.inr (.inr (quiet_of_store (by rw [hpc]; rfl) ?_
      (by simp only [hpc, Book.ofRead]) rfl rfl fun _ hs => hs)))
    split
    · split <;> rfl
    · rfl
  | recSave id =>
    rw [hpc] at hread hf
    cases hread
    refine .inr (.inr (.inr (quiet_of_store (by rw [hpc]; rfl) rfl
      (by simp only [hpc, Book.ofRead]) rfl rfl ?_)))
    -- the exchange is still there, so its second leg adds none
    intro j hj
    by_cases hid : j = id
    · subst hid
      exact hf
    · simpa [Stored, hid] using hj
  | recDelete id | relDelete id =>
    rw [hpc] at hread
    cases hread
    exact .inr (.inr (.inr (quiet_of_store (by rw [hpc]; rfl) rfl
      (by simp only [hpc, Book.ofRead]) rfl rfl fun _ hs => hs.of_delete)))
  | inSave id =>
    rw [hpc] at hread
    cases hread
    refine .inr (.inr (.inr (quiet_of_store (by rw [hpc]; rfl) rfl
      (by simp only [hpc, Book.ofRead]) rfl rfl ?_)))
    intro j hj
    simpa [Stored] using hj
  | signal id got res =>
    rw [hpc] at hread
    cases hread
    refine .inr (.inr (.inr (quiet_of_store (by rw [hpc]; rfl) rfl
      (by simp only [hpc, Book.ofRead]) ?_ ?_ ?_))) <;> rw [signalWaiter_eq]
    exact fun _ hs => hs

theorem Quiet.same (hq : Quiet w l m' pc')
    (hread : readStep w.mem l (w.readers l) = some (m', pc')) : Same w (w.readBy l m' pc') := by
  obtain ⟨hlinks, -⟩ := readStep_some hread
  refine ⟨rfl, ?_, hq.stored, hq.inUse, hlinks.idGen, hq.avail, hlinks.quotaGen, ?_⟩
  · dsimp only [setReader_book]
    rw [hq.book]
  · intro k hk
    rw [setReader_mem, hlinks.links]
    by_cases hkl : k = l
    · subst hkl
      rw [readBy_self] at hk ⊢
      obtain ⟨hcl, hne⟩ := hq.ends hk
      exact ⟨hcl, rfl, rfl, fun id res heq => absurd heq (hne id res)⟩
    · rw [readBy_of_ne hkl] at hk ⊢
      exact ⟨hk, rfl, rfl, fun id res heq => heq⟩

theorem Units.read_quiet (h : Units w) (hq : Quiet w l m' pc')
    (hread : readStep w.mem l (w.readers l) = some (m', pc')) : Units (w.readBy l m' pc') := by
  obtain ⟨hlinks, -⟩ := readStep_some hread
  have hs := hq.same hread
  refine h.congr hs (h.linked.read hread) ?_ (h.read_outbound hread) ?_ ?_
  · rw [setReader_mem, hlinks.links]
    exact h.links
  · intro k r hc id hid
    exact h.emptied k r hc id (hq.stored id hid)
  · intro k r n hc
    obtain ⟨hown, hlen⟩ := h.counting k r n hc
    exact ⟨fun c ho => hown c (hs.moves.own ho), hlen⟩

/-! ### The end of an exchange -/

/-- What is left to show where a read loop ends an exchange. -/
theorem Units.ended (h : Units w) (hread : readStep w.mem l (w.readers l) = some (m', pc'))
    {w' : World} (hw : w' = w.readBy l m' pc')
    (hst : ∀ id, Stored w'.mem.store id → Stored w.mem.store id)
    (huse : ∀ id, w'.mem.ids.inUse id = true → w.mem.ids.inUse id = true)
    (hcloses : ∀ k, (w'.readers k).closing = true → w.Acts k →
      (w.procs (w'.book.closing k)).saved = true ∧ ¬ w'.Own (w'.book.closing k))
    (htarget : ∀ k id res, w'.readers k = .ackFreeId id res →
      (w.mem.links k).idGen = w.mem.ids.gen → (w.procs (w'.book.closing k)).id = id)
    (hapart : ∀ j k, (w'.readers j).closing = true → (w'.readers k).closing = true → w.Acts j →
      w.Acts k → w'.book.closing j = w'.book.closing k → j = k)
    (hdue : ∀ c, w'.Due c → w'.Charged c ∧ (c, w.mem.quota.gen) ∉ w'.book.credits)
    (hkeeps : ∀ c, w'.Keeps c → w'.Hold c ∧ c ∉ w'.book.frees)
    (hbalance : w'.mem.quota.avail + w'.book.charged.length = w'.book.ceiling)
    (hcredits : w'.book.credits.Nodup ∧ ∀ e ∈ w'.book.credits, e.2 ≤ w.mem.quota.gen ∧
      (w.procs e.1).pc ≠ .idle ∧ (w.procs e.1).pc ≠ .acquire)
    (hfrees : w'.book.frees.Nodup ∧ ∀ c ∈ w'.book.frees, (w.procs c).pc.early = false) :
    Units w' := by
  have hr : ReadBy w w' l := by
    rw [hw]
    exact readBy_spec hread
  have hm := hr.moves hst
  have hl : Linked w' := by
    rw [hw]
    exact h.linked.read hread
  refine h.moved hm hl ⟨hr.heldBy, fun j hj => ⟨huse j hj, hr.idGen⟩⟩ ?_ ?_ ?_ ?_ hkeeps ?_ ?_
    hbalance ?_ hfrees
  · rw [hr.links, hr.quotaGen, hr.idGen]
    exact h.links
  · intro k
    refine ⟨?_, ?_, ?_⟩
    · rw [hw]
      exact h.read_outbound hread k
    · rw [hr.acts, hr.procs]
      exact hcloses k
    · rw [hr.links, hr.idGen, hr.procs]
      exact htarget k
  · intro j k hj hk haj hak heq
    exact hapart j k hj hk ((hr.acts j).mp haj) ((hr.acts k).mp hak) heq
  · rw [hr.quotaGen]
    exact hdue
  · intro k r hc j hj
    exact h.emptied k r (hr.conn.symm.trans hc) j (hst j hj)
  · intro k r n hc
    obtain ⟨hown, hlen⟩ := h.counting k r n (hr.conn.symm.trans hc)
    unfold World.Counted
    rw [hr.counted]
    exact ⟨fun c ho => hown c (hm.own ho), hlen⟩
  · rw [hr.quotaGen]
    exact hcredits

/-- The read loop takes the entry of an exchange out: what its call had is now in its
hands, unless it counts for nothing. -/
theorem Units.read_ackDelete (h : Units w) {id : UInt16} {kind : StoredKind} {res : AckResult}
    (hpc : w.readers l = .ackDelete id kind res)
    (hf : w.Acts l → w.mem.store.contains id kind = true ∧ ¬ Twin w.mem.store id) {w' : World}
    (hw : w' = w.readBy l { w.mem with store := w.mem.store.delete id kind } (.ackFreeId id res)) :
    Units w' := by
  have hread : readStep w.mem l (w.readers l) =
      some ({ w.mem with store := w.mem.store.delete id kind }, .ackFreeId id res) := by
    rw [hpc]
    rfl
  have hr : ReadBy w w' l := by
    rw [hw]
    exact readBy_spec hread
  have hbook : w'.book = { w.book with
      closing := Function.update w.book.closing l (w.book.savedBy id) } := by
    rw [hw]
    simp only [setReader_book, hpc, Book.ofRead]
  have hids : w'.mem.ids = w.mem.ids := by rw [hw]; rfl
  have hquota : w'.mem.quota = w.mem.quota := by rw [hw]; rfl
  have hst : ∀ j, Stored w'.mem.store j → Stored w.mem.store j := by
    rw [hw]
    exact fun j hj => hj.of_delete
  have hm := hr.moves hst
  have hself : w'.readers l = .ackFreeId id res := by rw [hw, readBy_self]
  have hclose : w'.book.closing l = w.book.savedBy id := by
    rw [hbook]
    exact Function.update_self _ _ _
  have hkeep : ∀ k, k ≠ l → w'.book.closing k = w.book.closing k := by
    intro k hk
    rw [hbook]
    exact Function.update_of_ne hk _ _
  -- the exchange that is taken out, and its call
  have hout := (h.reader l).outbound id kind res (.inr hpc)
  have hentry : w.Acts l → w.Own (w.book.savedBy id) ∧ ¬ w'.Own (w.book.savedBy id) ∧
      (w.procs (w.book.savedBy id)).id = id ∧ (w.procs (w.book.savedBy id)).saved = true := by
    intro ha
    obtain ⟨hcon, htw⟩ := hf ha
    have hs := stored_of_outbound hout hcon
    obtain ⟨hid, hsaved⟩ := h.entry id hs
    refine ⟨h.own_savedBy hs, ?_, hid, hsaved⟩
    intro ho
    have hs' := ho.1
    rw [hr.procs, hid, hw] at hs'
    exact stored_delete_only hout hcon htw hs'
  -- no other read loop has the exchange in hand: its entry was still there
  have hfirst : ∀ k, k ≠ l → (w.readers k).closing = true → w.Acts k → w.Acts l →
      w.book.closing k ≠ w.book.savedBy id := by
    intro k hkl hk hak hal heq
    have hown := ((h.reader k).closes hk hak).2
    rw [heq] at hown
    exact hown (hentry hal).1
  refine h.ended hread hw hst (by rw [hids]; exact fun _ hu => hu) ?_ ?_ ?_ ?_ ?_
    (by rw [hquota, hbook]; exact h.balance) (by rw [hbook]; exact h.credits)
    (by rw [hbook]; exact h.frees)
  · intro k hk ha
    by_cases hkl : k = l
    · subst hkl
      obtain ⟨-, hown, -, hsaved⟩ := hentry ha
      rw [hclose]
      exact ⟨hsaved, hown⟩
    · rw [hr.other k hkl] at hk
      rw [hkeep k hkl]
      obtain ⟨hsaved, hown⟩ := (h.reader k).closes hk ha
      exact ⟨hsaved, fun ho => hown (hm.own ho)⟩
  · intro k j r hk hg
    by_cases hkl : k = l
    · subst hkl
      rw [hself] at hk
      cases hk
      rw [hclose]
      exact (hentry (.inr hg)).2.2.1
    · rw [hr.other k hkl] at hk
      rw [hkeep k hkl]
      exact (h.reader k).target j r hk hg
  · intro j k hj hk haj hak heq
    by_cases hjl : j = l
    · by_cases hkl : k = l
      · rw [hjl, hkl]
      · subst hjl
        rw [hr.other k hkl] at hk
        rw [hclose, hkeep k hkl] at heq
        exact absurd heq.symm (hfirst k hkl hk hak haj)
    · rw [hr.other j hjl] at hj
      rw [hkeep j hjl] at heq
      by_cases hkl : k = l
      · subst hkl
        rw [hclose] at heq
        exact absurd heq (hfirst j hjl hj haj hak)
      · rw [hr.other k hkl] at hk
        rw [hkeep k hkl] at heq
        exact h.apart j k hj hk haj hak heq
  · intro c hd
    have hdue : w.Due c := by
      rcases (due_iff w' l c).mp hd with hd | ⟨-, hck, hg⟩
      · exact (due_iff w l c).mpr (.inl (hr.dueApart hkeep hm.own hd))
      · rw [hr.links, hr.quotaGen] at hg
        rw [hclose] at hck
        exact .inr (.inl (hck ▸ (hentry (.inl hg)).1))
    unfold World.Charged
    rw [hbook]
    exact h.due c hdue
  · intro c hk
    have hheld : w.Keeps c := by
      rcases (keeps_iff w' l c).mp hk with hk | ⟨-, -, -, hck, hg⟩
      · exact (keeps_iff w l c).mpr (.inl (hr.keepsApart hkeep hm.own hk))
      · rw [hr.links, hids] at hg
        rw [hclose] at hck
        exact .inr (.inl (hck ▸ (hentry (.inr hg)).1))
    unfold World.Hold
    rw [hids, hr.procs, hbook]
    exact h.keeps c hheld

/-- What is left to show where an exchange stays in the hands of the read loop, or passes
out of them. -/
theorem Units.ended_kept (h : Units w) (hread : readStep w.mem l (w.readers l) = some (m', pc'))
    {w' : World} (hw : w' = w.readBy l m' pc')
    (hst : ∀ id, Stored w'.mem.store id → Stored w.mem.store id)
    (huse : ∀ id, w'.mem.ids.inUse id = true → w.mem.ids.inUse id = true)
    (hcl : (w.readers l).closing = true) (hcb : w'.book.closing = w.book.closing)
    (hpc' : ∀ id res, pc' ≠ .ackFreeId id res)
    (hdue : ∀ c, w'.Due c → w'.Charged c ∧ (c, w.mem.quota.gen) ∉ w'.book.credits)
    (hkeeps : ∀ c, w'.Keeps c → w'.Hold c ∧ c ∉ w'.book.frees)
    (hbalance : w'.mem.quota.avail + w'.book.charged.length = w'.book.ceiling)
    (hcredits : w'.book.credits.Nodup ∧ ∀ e ∈ w'.book.credits, e.2 ≤ w.mem.quota.gen ∧
      (w.procs e.1).pc ≠ .idle ∧ (w.procs e.1).pc ≠ .acquire)
    (hfrees : w'.book.frees.Nodup ∧ ∀ c ∈ w'.book.frees, (w.procs c).pc.early = false) :
    Units w' := by
  have hr : ReadBy w w' l := by
    rw [hw]
    exact readBy_spec hread
  have hclosing : ∀ k, (w'.readers k).closing = true → (w.readers k).closing = true := by
    intro k hk
    by_cases hkl : k = l
    · subst hkl
      exact hcl
    · rw [hr.other k hkl] at hk
      exact hk
  refine h.ended hread hw hst huse ?_ ?_ ?_ hdue hkeeps hbalance hcredits hfrees
  · intro k hk ha
    rw [hcb]
    obtain ⟨hsaved, hno⟩ := (h.reader k).closes (hclosing k hk) ha
    exact ⟨hsaved, fun ho => hno ((hr.moves hst).own ho)⟩
  · intro k id res hk hg
    have hkl : k ≠ l := by
      intro hkl
      rw [hkl, hw, readBy_self] at hk
      exact hpc' id res hk
    rw [hr.other k hkl] at hk
    rw [hcb]
    exact (h.reader k).target id res hk hg
  · intro j k hj hk haj hak heq
    rw [hcb] at heq
    exact h.apart j k (hclosing j hj) (hclosing k hk) haj hak heq

/-- The identifier of an exchange being ended is free again. -/
theorem Units.read_ackFreeId (h : Units w) {id : UInt16} {res : AckResult}
    (hpc : w.readers l = .ackFreeId id res) (hg : (w.mem.links l).idGen = w.mem.ids.gen)
    {w' : World}
    (hw : w' = w.readBy l { w.mem with ids := w.mem.ids.releaseAt id (w.mem.links l).idGen }
      (.ackFreePermit id res)) : Units w' := by
  have hread : readStep w.mem l (w.readers l) =
      some ({ w.mem with ids := w.mem.ids.releaseAt id (w.mem.links l).idGen },
        .ackFreePermit id res) := by
    rw [hpc]
    rfl
  have hr : ReadBy w w' l := by
    rw [hw]
    exact readBy_spec hread
  have hcl : (w.readers l).closing = true := by rw [hpc]; rfl
  have hid := (h.reader l).target id res hpc hg
  obtain ⟨⟨huse, hheld⟩, hnew⟩ := h.keeps _ (.inr (.inr ⟨l, id, res, hpc, rfl, hg⟩))
  rw [hid] at huse hheld
  have hbook : w'.book = { w.book with frees := w.book.closing l :: w.book.frees } := by
    rw [hw]
    simp only [setReader_book, hpc, Book.ofRead, Book.free, hg, if_true, hheld]
  have hst : ∀ j, Stored w'.mem.store j → Stored w.mem.store j := by
    rw [hw]
    exact fun j hj => hj
  have hquota : w'.mem.quota = w.mem.quota := by rw [hw]; rfl
  have huse' : ∀ j, w'.mem.ids.inUse j = true ↔ j ≠ id ∧ w.mem.ids.inUse j = true := by
    intro j
    have h0 := (h.held id huse).1
    rw [hw]
    simp [IdAllocator.inUse_releaseAt, h0, hg]
  have hm := hr.moves hst
  have hcb : w'.book.closing = w.book.closing := by rw [hbook]
  refine h.ended_kept hread hw hst (fun j hj => ((huse' j).mp hj).2) hcl hcb (fun _ _ hpc' => by cases hpc') ?_ ?_
    (by rw [hquota, hbook]; exact h.balance) (by rw [hbook]; exact h.credits) ?_
  · intro c hd
    have hdue : w.Due c := by
      rcases (due_iff w' l c).mp hd with hd | ⟨-, hck, hgk⟩
      · exact (due_iff w l c).mpr (.inl (hr.dueApart (fun k _ => congrFun hcb k) hm.own hd))
      · rw [hr.links, hr.quotaGen] at hgk
        exact .inr (.inr ⟨l, hcl, by rw [← hcb]; exact hck, hgk⟩)
    unfold World.Charged
    rw [hbook]
    exact h.due c hdue
  · intro c hk
    -- the call whose identifier was freed has none to free
    have hapart : w.KeepsApart l c := by
      rcases (keeps_iff w' l c).mp hk with hk | ⟨j, r, hk, -⟩
      · exact hr.keepsApart (fun k _ => congrFun hcb k) hm.own hk
      · rw [hw, readBy_self] at hk
        cases hk
    have hne := (h.apart_ne hcl (.inr hg)).2 hapart
    obtain ⟨⟨hu, hh⟩, hno⟩ := h.keeps c ((keeps_iff w l c).mpr (.inl hapart))
    refine ⟨⟨(huse' _).mpr ⟨?_, by rw [hr.procs]; exact hu⟩, ?_⟩, ?_⟩
    · rw [hr.procs]
      intro heq
      rw [heq] at hh
      exact hne (hh.symm.trans hheld)
    · rw [hr.procs, hr.heldBy]
      exact hh
    · rw [hbook]
      simp [hne, hno]
  · rw [hbook]
    refine ⟨List.nodup_cons.mpr ⟨hnew, h.frees.1⟩, ?_⟩
    intro c hc
    rcases List.mem_cons.mp hc with rfl | hc
    · exact (owes_of_saved ((h.reader l).closes hcl (.inr hg)).1).2.2
    · exact h.frees.2 c hc

/-- The permit of an exchange being ended is back. -/
theorem Units.read_ackFreePermit (h : Units w) {id : UInt16} {res : AckResult}
    (hpc : w.readers l = .ackFreePermit id res)
    (hg : (w.mem.links l).quotaGen = w.mem.quota.gen) {w' : World}
    (hw : w' = w.readBy l { w.mem with quota := w.mem.quota.releaseAt (w.mem.links l).quotaGen }
      (.signal id .publish res)) : Units w' := by
  have hread : readStep w.mem l (w.readers l) =
      some ({ w.mem with quota := w.mem.quota.releaseAt (w.mem.links l).quotaGen },
        .signal id .publish res) := by
    rw [hpc]
    rfl
  have hr : ReadBy w w' l := by
    rw [hw]
    exact readBy_spec hread
  have hcl : (w.readers l).closing = true := by rw [hpc]; rfl
  obtain ⟨hmem, hnew⟩ := h.due _ (.inr (.inr ⟨l, hcl, rfl, hg⟩))
  have hearly := (owes_of_saved ((h.reader l).closes hcl (.inl hg)).1).2.2
  have hbook : w'.book = { w.book with
      charged := w.book.charged.erase (w.book.closing l)
      credits := (w.book.closing l, w.mem.quota.gen) :: w.book.credits } := by
    rw [hw]
    simp only [setReader_book, hpc, Book.ofRead, Book.credit, hg, if_true]
  have hst : ∀ j, Stored w'.mem.store j → Stored w.mem.store j := by
    rw [hw]
    exact fun j hj => hj
  have hids : w'.mem.ids = w.mem.ids := by rw [hw]; rfl
  have havail : w'.mem.quota.avail = w.mem.quota.avail + 1 := by
    rw [hw]
    simp [Quota.avail_releaseAt, hg]
  have hm := hr.moves hst
  have hcb : w'.book.closing = w.book.closing := by rw [hbook]
  refine h.ended_kept hread hw hst (by rw [hids]; exact fun _ hu => hu) hcl hcb (fun _ _ hpc' => by cases hpc') ?_ ?_ ?_ ?_
    (by rw [hbook]; exact h.frees)
  · intro c hd
    -- the call whose permit is back has none due
    have hapart : w.DueApart l c := by
      rcases (due_iff w' l c).mp hd with hd | ⟨hk, -⟩
      · exact hr.dueApart (fun k _ => congrFun hcb k) hm.own hd
      · rw [hw, readBy_self] at hk
        cases hk
    have hne := (h.apart_ne hcl (.inl hg)).1 hapart
    obtain ⟨hch, hno⟩ := h.due c ((due_iff w l c).mpr (.inl hapart))
    unfold World.Charged
    rw [hbook]
    exact ⟨(List.mem_erase_of_ne hne).mpr hch, by simp [hne, hno]⟩
  · intro c hk
    have hkeep : w.Keeps c := by
      rcases (keeps_iff w' l c).mp hk with hk | ⟨j, r, hk, -⟩
      · exact (keeps_iff w l c).mpr
          (.inl (hr.keepsApart (fun k _ => congrFun hcb k) hm.own hk))
      · rw [hw, readBy_self] at hk
        cases hk
    unfold World.Hold
    rw [hids, hr.procs, hbook]
    exact h.keeps c hkeep
  · have hlen := List.length_erase_add_one hmem
    have hbal := h.balance
    rw [havail, hbook]
    dsimp only
    omega
  · rw [hbook]
    refine ⟨List.nodup_cons.mpr ⟨hnew, h.credits.1⟩, ?_⟩
    intro e he
    rcases List.mem_cons.mp he with rfl | he
    · refine ⟨Nat.le_refl _, ?_, ?_⟩ <;>
      · intro heq
        rw [heq] at hearly
        cases hearly
    · exact h.credits.2 e he

/-- Every step of a read loop keeps the invariant. -/
theorem Units.read (h : Units w) (hf : w.Finds l (w.readers l))
    (hread : readStep w.mem l (w.readers l) = some (m', pc')) : Units (w.readBy l m' pc') := by
  rcases readStep_quiet hf hread with ⟨id, kind, res, hpc⟩ | ⟨id, res, hpc, hg⟩ |
    ⟨id, res, hpc, hg⟩ | hq
  · rw [hpc] at hread hf
    cases hread
    exact h.read_ackDelete hpc hf rfl
  · rw [hpc] at hread
    cases hread
    exact h.read_ackFreeId hpc hg rfl
  · rw [hpc] at hread
    cases hread
    exact h.read_ackFreePermit hpc hg rfl
  · exact h.read_quiet hq hread

end read

end GoMqtt.Concurrent
