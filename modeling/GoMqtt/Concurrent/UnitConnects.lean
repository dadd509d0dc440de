import GoMqtt.Concurrent.UnitReads

/-! # Units over whole runs

`Connect` discards or adopts all units at once, in four critical sections, and calls
and read loops of older links may step in between. With the resets the generations
change, and what a leftover call or read loop still has to give back counts for
nothing; the entries that were counted are in custody under the new generation. With
the steps of the calls and of the read loops this is the invariant of the machine. -/
namespace GoMqtt.Concurrent
open GoMqtt.Protocol GoMqtt.Session GoMqtt.Client GoMqtt.Lib

/-! ## The sections of applySession -/

section connect

variable {w w' : World} {l : LinkId} {r : ConnectResult}

theorem Units.conn_storeReset (h : Units w) (hl : Linked w')
    (hw : w' = { w with
      mem := { w.mem with store := w.mem.store.reset }, conn := .idsReset l r
      book := { w.book with resetFor := l } }) : Units w' := by
  subst hw
  have hgone : ∀ id, ¬ Stored w.mem.store.reset id := by simp [Stored]
  refine h.congr ⟨rfl, rfl, fun id hs => absurd hs (hgone id), fun _ => rfl, rfl, rfl, rfl, ?_⟩ hl
    h.links (fun k => (h.reader k).outbound) (fun _ _ _ => hgone) (fun _ _ _ hn => by cases hn)
  exact fun k hk => ⟨hk, rfl, rfl, fun _ _ hpc => hpc⟩

/-- With the entries gone the identifiers go, too, and none is anyone's any more. -/
theorem Units.conn_idsReset (h : Units w) (hl : Linked w') (hc : w.conn = .idsReset l r)
    (hw : w' = { w with mem := { w.mem with ids := w.mem.ids.reset }, conn := .count l r }) :
    Units w' := by
  subst hw
  have hfree : ∀ id, w.mem.ids.reset.inUse id ≠ true := by simp
  have hm : Moves w { w with mem := { w.mem with ids := w.mem.ids.reset }, conn := .count l r } :=
    ⟨rfl, rfl, fun _ hs => hs, Nat.le_refl _, Nat.le_succ _⟩
  have hstale : ∀ n, n ≤ w.mem.ids.gen → n ≠ w.mem.ids.reset.gen := fun n hn =>
    Nat.ne_of_lt (Nat.lt_succ_of_le hn)
  have hacts : ∀ k, (w.mem.links k).quotaGen = w.mem.quota.gen ∨
      (w.mem.links k).idGen = w.mem.ids.reset.gen → w.Acts k := fun k ha =>
    .inl (ha.resolve_right (hstale _ (h.links k).2))
  refine h.moved hm hl ⟨rfl, fun id hu => absurd hu (hfree id)⟩
    (fun k => ⟨(h.links k).1, Nat.le_succ_of_le (h.links k).2⟩) ?_ ?_ ?_ ?_
    (fun _ _ hn => by cases hn) (fun _ _ _ hn => by cases hn) h.balance h.credits h.frees
  · intro k
    refine ⟨(h.reader k).outbound, fun hk ha => (h.reader k).closes hk (hacts k ha), ?_⟩
    exact fun id res _ hg => absurd hg (hstale _ (h.links k).2)
  · exact fun j k hj hk haj hak heq => h.apart j k hj hk (hacts j haj) (hacts k hak) heq
  · intro c hd
    refine h.due c ?_
    rcases hd with hd | hown | hd
    · exact .inl hd
    · exact .inr (.inl (hm.own hown))
    · exact .inr (.inr hd)
  · intro c hk
    rcases hk with ⟨-, hg⟩ | hown | ⟨k, -, -, -, -, hg⟩
    · exact absurd hg (hstale _ (h.gens c).2)
    · exact absurd hown.1 (h.emptied l r hc _)
    · exact absurd hg (hstale _ (h.links k).2)

/-- A call whose exchange is stored is counted. -/
theorem mem_inflight {c : CallId} (ho : w.Own c) : c ∈ w.book.inflight w.mem.store := by
  obtain ⟨hst, hsb⟩ := ho
  have hentry : ∃ m ∈ w.mem.store.all, m.kind.outbound = true ∧ m.id = (w.procs c).id := by
    rcases hst with hcon | hcon <;>
    · obtain ⟨m, hm⟩ := MemStore.contains_iff.mp hcon
      obtain ⟨hid, hkind⟩ := MemStore.key_of_lookup hm
      refine ⟨m, MemStore.mem_all.mpr (by rw [hid, hkind]; exact hm), by rw [hkind]; rfl, hid⟩
  obtain ⟨m, hall, hout, hid⟩ := hentry
  exact List.mem_map.mpr ⟨m, List.mem_filter.mpr ⟨hall, hout⟩, by rw [hid]; exact hsb⟩

theorem Units.conn_count (h : Units w) (hl : Linked w')
    (hw : w' = { w with
      conn := .quotaReset l r (State.inflightPermits w.mem.store)
      book := { w.book with counted := w.book.inflight w.mem.store } }) : Units w' := by
  subst hw
  refine h.moved ⟨rfl, rfl, fun _ hs => hs, Nat.le_refl _, Nat.le_refl _⟩ hl
    ⟨rfl, fun _ hu => ⟨hu, rfl⟩⟩ h.links (fun k => ⟨(h.reader k).outbound, (h.reader k).closes,
      (h.reader k).target⟩) h.apart h.due h.keeps (fun _ _ hn => by cases hn) ?_ h.balance
    h.credits h.frees
  intro k r' n hn
  cases hn
  exact ⟨fun c ho => mem_inflight ho, List.length_map _⟩

/-- Each entry counted has its permit under the new generation, and no other permit is
of that generation. -/
theorem Units.conn_quotaReset (h : Units w) {n : Nat} (hl : Linked w')
    (hc : w.conn = .quotaReset l r n)
    (hw : w' = { w with
      mem := { w.mem with quota := w.mem.quota.reset (max (quotaSize w.mem.cfg r - n) 0) }
      conn := .capture l r
      book := { w.book with
        charged := w.book.counted
        ceiling := max (quotaSize w.mem.cfg r - n) 0 + n } }) : Units w' := by
  obtain ⟨hown, hlen⟩ := h.counting l r n hc
  have hm : Moves w w' := by
    rw [hw]
    exact ⟨rfl, rfl, fun _ hs => hs, Nat.le_succ _, Nat.le_refl _⟩
  have hgen : w'.mem.quota.gen = w.mem.quota.gen + 1 := by rw [hw]; rfl
  have hstale : ∀ n, n ≤ w.mem.quota.gen → n ≠ w'.mem.quota.gen := by
    intro n hn
    rw [hgen]
    exact Nat.ne_of_lt (Nat.lt_succ_of_le hn)
  have hnew : ∀ c, (c, w'.mem.quota.gen) ∉ w.book.credits := fun c hcr =>
    hstale _ (h.credits.2 _ hcr).1 rfl
  subst hw
  have hacts : ∀ k, (w.mem.links k).quotaGen = w.mem.quota.gen + 1 ∨
      (w.mem.links k).idGen = w.mem.ids.gen → w.Acts k := fun k ha =>
    .inr (ha.resolve_left (hstale _ (h.links k).1))
  refine h.moved hm hl ⟨rfl, fun _ hu => ⟨hu, rfl⟩⟩
    (fun k => ⟨Nat.le_succ_of_le (h.links k).1, (h.links k).2⟩) ?_ ?_ ?_ h.keeps
    (fun _ _ hn => by cases hn) (fun _ _ _ hn => by cases hn) ?_ ?_ h.frees
  · intro k
    exact ⟨(h.reader k).outbound, fun hk ha => (h.reader k).closes hk (hacts k ha),
      (h.reader k).target⟩
  · exact fun j k hj hk haj hak heq => h.apart j k hj hk (hacts j haj) (hacts k hak) heq
  · intro c hd
    rcases hd with ⟨-, hg⟩ | ho | ⟨k, -, -, hg⟩
    · exact absurd hg (hstale _ (h.gens c).1)
    · exact ⟨hown c ho, hnew c⟩
    · exact absurd hg (hstale _ (h.links k).1)
  · dsimp only
    rw [Quota.avail_reset, hlen]
  · exact ⟨h.credits.1, fun e he => ⟨Nat.le_succ_of_le (h.credits.2 e he).1,
      (h.credits.2 e he).2⟩⟩

/-! ## The other steps -/

/-- A link that is published gets a read loop, and the other read loops stay. -/
theorem Linked.spawn_readers (h : Linked w) (k : LinkId) :
    w.spawn.readers k = w.readers k ∨ w.readers k = .off ∧ w.spawn.readers k = .reading := by
  unfold World.spawn
  split
  · rename_i j _ _ hc
    split
    · exact .inl rfl
    · by_cases hk : k = j
      · subst hk
        exact .inr ⟨(h.fresh k (by rw [hc]; rfl)).2.2, by simp⟩
      · exact .inl (by simp [hk])
  · exact .inl rfl

/-- Past `applySession` only the new link changes, which has no read loop yet. -/
theorem Linked.connStep_later (h : Linked w) {m' : State} {pc : ConnPc}
    (hconn : connStep w.mem w.conn = some (m', pc)) (ha : w.conn.applying = false) :
    m'.store = w.mem.store ∧ m'.ids = w.mem.ids ∧ m'.quota = w.mem.quota ∧
    w.book.ofConn w.mem w.conn = w.book ∧ pc.applying = false ∧
    ∀ k, m'.links k = w.mem.links k ∨ w.readers k = .off ∧
      (m'.links k).quotaGen = w.mem.quota.gen ∧ (m'.links k).idGen = w.mem.ids.gen := by
  cases hc : w.conn with
  | idle =>
    rw [hc] at hconn
    cases hconn
  | storeReset | idsReset | count | quotaReset =>
    rw [hc] at ha
    cases ha
  | capture l r =>
    have hoff := (h.fresh l (by rw [hc]; rfl)).2.2
    rw [hc] at hconn
    cases hconn
    refine ⟨rfl, rfl, rfl, rfl, rfl, fun k => ?_⟩
    by_cases hk : k = l
    · subst hk
      exact .inr ⟨hoff, by simp [State.setLink, State.newLink, Quota.generation,
        IdAllocator.generation]⟩
    · exact .inl (by simp [State.setLink, hk])
  | load l r =>
    rw [hc] at hconn
    cases hconn
    exact ⟨rfl, rfl, rfl, rfl, rfl, fun _ => .inl rfl⟩
  | resub l r msgs =>
    rw [hc] at hconn
    simp only [connStep] at hconn
    split at hconn <;>
    · cases hconn
      exact ⟨rfl, rfl, rfl, rfl, rfl, fun _ => .inl rfl⟩

/-- The world after a step of `Connect`. -/
abbrev World.connected (w : World) (m' : State) (pc : ConnPc) : World :=
  { w.spawn with mem := m', conn := pc, book := w.book.ofConn w.mem w.conn }

theorem Linked.same_later (h : Linked w) {m' : State} {pc : ConnPc}
    (hconn : connStep w.mem w.conn = some (m', pc)) (ha : w.conn.applying = false) :
    Same w (w.connected m' pc) := by
  obtain ⟨hst, hids, hq, hbook, -, hlinks⟩ := h.connStep_later hconn ha
  refine ⟨spawn_procs w, ?_, ?_, ?_, by rw [hids], by rw [hq], by rw [hq], ?_⟩
  · dsimp only
    rw [hbook]
  · dsimp only
    rw [hst]
    exact fun _ hs => hs
  · dsimp only
    rw [hids]
    exact fun _ => rfl
  · intro k hk
    have hk : (w.spawn.readers k).closing = true := hk
    dsimp only
    rcases h.spawn_readers k with heq | ⟨-, hr⟩
    · rw [heq] at hk ⊢
      rcases hlinks k with hsame | ⟨hoff, -⟩
      · rw [hsame]
        exact ⟨hk, rfl, rfl, fun _ _ hr => hr⟩
      · rw [hoff] at hk
        cases hk
    · rw [hr] at hk
      cases hk

theorem Units.conn_later (h : Units w) {m' : State} {pc : ConnPc}
    (hconn : connStep w.mem w.conn = some (m', pc)) (ha : w.conn.applying = false) :
    Units (w.connected m' pc) := by
  obtain ⟨-, hids, hq, -, hpc, hlinks⟩ := h.linked.connStep_later hconn ha
  refine h.congr (h.linked.same_later hconn ha) (h.linked.conn hconn) ?_ ?_ ?_ ?_
  · intro k
    dsimp only
    rcases hlinks k with hsame | ⟨-, hg, hg'⟩
    · rw [hsame]
      exact h.links k
    · rw [hg, hg']
      exact ⟨Nat.le_refl _, Nat.le_refl _⟩
  · intro k id kind res hk
    rcases h.linked.spawn_readers k with heq | ⟨-, hr⟩
    · rw [heq] at hk
      exact (h.reader k).outbound id kind res hk
    · rw [hr] at hk
      rcases hk with hk | hk <;> cases hk
  · intro k r hc
    have hc : pc = .idsReset k r := hc
    rw [hc] at hpc
    cases hpc
  · intro k r n hc
    have hc : pc = .quotaReset k r n := hc
    rw [hc] at hpc
    cases hpc

theorem spawn_of_applying (ha : w.conn.applying = true) : w.spawn = w := by
  unfold World.spawn
  split
  · rename_i hc
    rw [hc] at ha
    cases ha
  · rfl

/-- The steps of `Connect`. -/
theorem Units.connects (h : Units w) {m' : State} {pc : ConnPc}
    (hconn : connStep w.mem w.conn = some (m', pc)) : Units (w.connected m' pc) := by
  have hl : Linked (w.connected m' pc) := h.linked.conn hconn
  by_cases ha : w.conn.applying = false
  · exact h.conn_later hconn ha
  have hw : w.connected m' pc =
      { w with mem := m', conn := pc, book := w.book.ofConn w.mem w.conn } := by
    unfold World.connected
    rw [spawn_of_applying (by simpa using ha)]
  cases hc : w.conn with
  | storeReset l r =>
    rw [hc] at hconn hw
    cases hconn
    exact h.conn_storeReset hl hw
  | idsReset l r =>
    rw [hc] at hconn hw
    cases hconn
    exact h.conn_idsReset hl hc hw
  | count l r =>
    rw [hc] at hconn hw
    cases hconn
    exact h.conn_count hl hw
  | quotaReset l r n =>
    rw [hc] at hconn hw
    cases hconn
    exact h.conn_quotaReset hl hc hw
  | idle | capture | load | resub =>
    rw [hc] at ha
    exact absurd rfl ha

theorem Units.begin (h : Units w) (hl : Linked (w.begin r)) : Units (w.begin r) := by
  refine h.congr ⟨rfl, rfl, fun _ hs => hs, fun _ => rfl, rfl, rfl, rfl, ?_⟩ hl h.links
    (fun k => (h.reader k).outbound) ?_ ?_
  · exact fun k hk => ⟨hk, rfl, rfl, fun _ _ hpc => hpc⟩
  · intro k r' hc
    unfold World.begin at hc
    dsimp only at hc
    split at hc <;> cases hc
  · intro k r' n hc
    unfold World.begin at hc
    dsimp only at hc
    split at hc <;> cases hc

/-- A frame is taken off the wire by a read loop between two frames. -/
theorem received_reader {f : Client.Frame} (k : LinkId) :
    (w.setReader l (.checkStop f)).readers k = w.readers k ∨
    k = l ∧ (w.setReader l (.checkStop f)).readers k = .checkStop f := by
  rw [setReader_readers]
  by_cases hk : k = l
  · subst hk
    exact .inr ⟨rfl, Function.update_self _ _ _⟩
  · exact .inl (Function.update_of_ne hk _ _)

theorem same_receive {f : Client.Frame} : Same w (w.setReader l (.checkStop f)) := by
  refine ⟨rfl, rfl, fun _ hs => hs, fun _ => rfl, rfl, rfl, rfl, ?_⟩
  intro k hk
  rcases received_reader k with heq | ⟨-, heq⟩
  · rw [heq] at hk ⊢
    exact ⟨hk, rfl, rfl, fun _ _ hr => hr⟩
  · rw [heq] at hk
    cases hk

theorem Units.receive (h : Units w) {f : Client.Frame}
    (hl : Linked (w.setReader l (.checkStop f))) : Units (w.setReader l (.checkStop f)) := by
  refine h.congr same_receive hl h.links ?_ h.emptied h.counting
  intro k id kind res hk
  rcases received_reader k with heq | ⟨-, heq⟩
  · rw [heq] at hk
    exact (h.reader k).outbound id kind res hk
  · rw [heq] at hk
    rcases hk with hk | hk <;> cases hk

/-- A teardown stops its link and fails the waits, and leaves what is stored and held. -/
theorem tearStep_same {m' : State} {pc : TearPc}
    (htear : tearStep w.mem l (w.tears l) = some (m', pc)) :
    m'.store = w.mem.store ∧ m'.ids = w.mem.ids ∧ m'.quota.avail = w.mem.quota.avail ∧
    m'.quota.gen = w.mem.quota.gen ∧ ∀ k, (m'.links k).quotaGen = (w.mem.links k).quotaGen ∧
      (m'.links k).idGen = (w.mem.links k).idGen := by
  cases hpc : w.tears l with
  | closed =>
    rw [hpc] at htear
    cases htear
  | intact =>
    rw [hpc] at htear
    cases htear
    refine ⟨rfl, rfl, rfl, rfl, fun k => ?_⟩
    by_cases hk : k = l
    · subst hk
      simp [State.setLink]
    · simp [State.setLink, hk]
  | _ =>
    rw [hpc] at htear
    cases htear
    exact ⟨rfl, rfl, rfl, rfl, fun _ => ⟨rfl, rfl⟩⟩

theorem same_teardown {m' : State} {pc : TearPc}
    (htear : tearStep w.mem l (w.tears l) = some (m', pc)) :
    Same w ({ w with mem := m' }.setTear l pc) := by
  obtain ⟨hst, hids, havail, hgen, hlinks⟩ := tearStep_same htear
  refine ⟨rfl, rfl, ?_, fun _ => by rw [setTear_mem, hids], by rw [setTear_mem, hids], havail,
    hgen, fun k hk => ⟨hk, (hlinks k).1, (hlinks k).2, fun _ _ hr => hr⟩⟩
  rw [setTear_mem, hst]
  exact fun _ hs => hs

theorem Units.teardown (h : Units w) {m' : State} {pc : TearPc}
    (htear : tearStep w.mem l (w.tears l) = some (m', pc))
    (hl : Linked ({ w with mem := m' }.setTear l pc)) :
    Units ({ w with mem := m' }.setTear l pc) := by
  obtain ⟨-, -, -, -, hlinks⟩ := tearStep_same htear
  have hs := same_teardown htear
  refine h.congr hs hl ?_ (fun k => (h.reader k).outbound) ?_ ?_
  · intro k
    rw [setTear_mem, (hlinks k).1, (hlinks k).2]
    exact h.links k
  · exact fun k r hc id hid => h.emptied k r hc id (hs.stored id hid)
  · intro k r n hc
    obtain ⟨hown, hlen⟩ := h.counting k r n hc
    exact ⟨fun c ho => hown c (hs.moves.own ho), hlen⟩

end connect

/-! ## A new call -/

section start

variable {w : World} {c : CallId} {job : Job} {l : LinkId}

/-- The world with the call started. -/
abbrev World.started (w : World) (c : CallId) (job : Job) (l : LinkId) : World :=
  (w.begins c).setProc c { job, link := l, pc := if job.isPublish then .acquire else .acquireId }

theorem started_of_ne {d : CallId} (hd : d ≠ c) : (w.started c job l).procs d = w.procs d := by
  rw [setProc_procs, Function.update_of_ne hd]
  rfl

theorem started_self : (w.started c job l).procs c =
    { job, link := l, pc := if job.isPublish then .acquire else .acquireId } := by
  rw [setProc_procs, Function.update_self]

/-- A call that has just started has nothing. -/
theorem started_blank (w : World) (c : CallId) (job : Job) (l : LinkId) :
    ((w.started c job l).procs c).pc.early = true ∧
    ((w.started c job l).procs c).owesPermit = false ∧
    ((w.started c job l).procs c).owesId = false := by
  rw [started_self]
  cases hj : job.isPublish <;> simp [CallPc.early, Proc.owesPermit, Proc.owesId, hj]

/-- It is not among those that have something already. -/
theorem Units.started_ne (h : Units w) (hpc : (w.procs c).pc = .idle) {d : CallId}
    (hd : w.Own d ∨ ∃ l, (w.readers l).closing = true ∧ w.Acts l ∧ w.book.closing l = d) :
    d ≠ c := by
  have hp : (w.procs c).saved = false := by simp [Proc.saved, hpc, CallPc.kept]
  obtain ⟨hown, hcl⟩ := h.not_saved hp
  rintro rfl
  rcases hd with ho | ⟨k, hk, ha, hc⟩
  · exact hown ho
  · exact hcl k hk ha hc

theorem Units.started_own (h : Units w) (hpc : (w.procs c).pc = .idle) {d : CallId}
    (ho : (w.started c job l).Own d) : w.Own d ∧ d ≠ c := by
  have hid : ((w.started c job l).procs d).id = (w.procs d).id := by
    by_cases hd : d = c
    · subst hd
      rw [started_self, h.blank d (by rw [hpc]; rfl)]
    · rw [started_of_ne hd]
  have hown : w.Own d := by
    unfold World.Own at ho ⊢
    rw [hid] at ho
    exact ho
  exact ⟨hown, h.started_ne hpc (.inl hown)⟩

theorem Units.start (h : Units w) (hpc : (w.procs c).pc = .idle)
    (hl : Linked (w.started c job l)) : Units (w.started c job l) := by
  obtain ⟨hearly, hperm, hident⟩ := started_blank w c job l
  have hne : ∀ d, (w.procs d).pc ≠ .idle → d ≠ c := by
    rintro d hd rfl
    exact hd hpc
  have hsaved : ∀ d, (w.procs d).saved = true → (w.started c job l).procs d = w.procs d := by
    intro d hd
    refine started_of_ne (hne d fun hidle => ?_)
    have := (owes_of_saved hd).2.2
    rw [hidle] at this
    cases this
  refine ⟨hl, ?_, ?_, ?_, ?_, h.links, ?_, h.apart, ?_, ?_, h.emptied, ?_, h.balance, ?_, ?_⟩
  · intro d hd
    by_cases hdc : d = c
    · rw [hdc, started_self]
    · rw [started_of_ne hdc] at hd ⊢
      exact h.blank d hd
  · intro id hst
    obtain ⟨hid, hs⟩ := h.entry id hst
    have hproc := hsaved _ hs
    exact ⟨(congrArg Proc.id hproc).trans hid, (congrArg Proc.saved hproc).trans hs⟩
  · intro id huse
    obtain ⟨h0, hid, hg⟩ := h.held id huse
    have hproc : (w.started c job l).procs (w.book.heldBy id) = w.procs (w.book.heldBy id) := by
      refine started_of_ne (hne _ fun hidle => ?_)
      exact h0 (hid.symm.trans (h.blank _ (by rw [hidle]; rfl)))
    exact ⟨h0, (congrArg Proc.id hproc).trans hid, (congrArg Proc.idGen hproc).trans hg⟩
  · intro d
    by_cases hdc : d = c
    · rw [hdc, started_self]
      exact ⟨Nat.zero_le _, Nat.zero_le _⟩
    · rw [started_of_ne hdc]
      exact h.gens d
  · intro k
    refine ⟨(h.reader k).outbound, fun hk ha => ?_, fun id res hk hg => ?_⟩
    · obtain ⟨hs, hown⟩ := (h.reader k).closes hk ha
      exact ⟨(congrArg Proc.saved (hsaved _ hs)).trans hs,
        fun ho => hown (h.started_own hpc ho).1⟩
    · have hk : w.readers k = .ackFreeId id res := hk
      have hs := ((h.reader k).closes (by rw [hk]; rfl) (.inr hg)).1
      exact (congrArg Proc.id (hsaved _ hs)).trans ((h.reader k).target id res hk hg)
  · intro d hd
    refine h.due d ?_
    rcases hd with ⟨howes, hcur⟩ | ho | hd
    · have hdc : d ≠ c := by
        rintro rfl
        rw [hperm] at howes
        cases howes
      unfold World.Cur at hcur
      rw [started_of_ne hdc] at howes hcur
      exact .inl ⟨howes, hcur⟩
    · exact .inr (.inl (h.started_own hpc ho).1)
    · exact .inr (.inr hd)
  · intro d hk
    have hkeep : w.Keeps d ∧ d ≠ c := by
      rcases hk with ⟨howes, hcur⟩ | ho | ⟨k, id, res, hk, hck, hg⟩
      · have hdc : d ≠ c := by
          rintro rfl
          rw [hident] at howes
          cases howes
        rw [started_of_ne hdc] at howes hcur
        exact ⟨.inl ⟨howes, hcur⟩, hdc⟩
      · exact ⟨.inr (.inl (h.started_own hpc ho).1), (h.started_own hpc ho).2⟩
      · have hk : w.readers k = .ackFreeId id res := hk
        exact ⟨.inr (.inr ⟨k, id, res, hk, hck, hg⟩),
          h.started_ne hpc (.inr ⟨k, by rw [hk]; rfl, .inr hg, hck⟩)⟩
    unfold World.Hold
    rw [started_of_ne hkeep.2]
    exact h.keeps d hkeep.1
  · intro k r n hc
    obtain ⟨hown, hlen⟩ := h.counting k r n hc
    exact ⟨fun d ho => hown d (h.started_own hpc ho).1, hlen⟩
  · refine ⟨h.credits.1, fun e he => ?_⟩
    obtain ⟨hle, hidle, hacq⟩ := h.credits.2 e he
    rw [started_of_ne (hne _ hidle)]
    exact ⟨hle, hidle, hacq⟩
  · refine ⟨h.frees.1, fun d hd => ?_⟩
    have hlate := h.frees.2 d hd
    rw [started_of_ne (hne d fun hidle => by rw [hidle] at hlate; cases hlate)]
    exact hlate

end start

/-! ## Runs -/

theorem units_step {w w' : World} {a : Act} (h : Units w) (ha : Settles w a)
    (hs : step w a = some w') : Units w' := by
  have hl := linked_step h.linked hs
  cases steps hs with
  | start hpc _ => exact h.start hpc hl
  | call hcall => exact h.call ha.1 ha.2 (callStep_spec hcall)
  | receive => exact h.receive hl
  | read hread => exact h.read ha hread
  | teardown _ _ htear => exact h.teardown htear hl
  | connect => exact h.begin hl
  | conn hconn => exact h.connects hconn

theorem units_of_run {cfg : TCPConfig} {as : List Act} {w : World}
    (h : Run step Settles (init cfg) as w) : Units w :=
  h.invariant (units_init cfg) fun _ _ _ hi ha hs => units_step hi ha hs

end GoMqtt.Concurrent
