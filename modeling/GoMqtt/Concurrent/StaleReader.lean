import GoMqtt.Client.Run
import GoMqtt.Concurrent.Machine

/-! # A read loop that outlives its link

The read loop checks the stop channel before each frame, and for a QoS 2 message
again after its handlers, and then works on the store, the identifiers, the quota and
the waiters in separate critical sections. Nothing makes a `Connect` wait for it: a
link that is torn down after the last check leaves a read loop that goes on in the
session the next link has set up. Where no `Connect` begins while a read loop is past
the last stop check of its frame, one that is past it is always the newest link's. -/
namespace GoMqtt.Concurrent
open GoMqtt.Protocol GoMqtt.Session GoMqtt.Client GoMqtt.Lib

/-! ## What a step leaves alone -/

/-- The links and the generations are the same. -/
structure SameLinks (m m' : State) : Prop where
  links : m'.links = m.links
  link : m'.link = m.link
  nextLink : m'.nextLink = m.nextLink
  quotaGen : m'.quota.gen = m.quota.gen
  idGen : m'.ids.gen = m.ids.gen

theorem SameLinks.refl (m : State) : SameLinks m m := ⟨rfl, rfl, rfl, rfl, rfl⟩

theorem removeWaiter_eq (m : State) (id : UInt16) (c : CallId) :
    m.removeWaiter id c = { m with waiters := (m.removeWaiter id c).waiters } := by
  unfold State.removeWaiter
  split
  · split <;> rfl
  · rfl

theorem signalWaiter_eq (m : State) (id : UInt16) (got : AckClass) (res : AckResult) :
    m.signalWaiter id got res = { m with
      waiters := (m.signalWaiter id got res).waiters
      inbox := (m.signalWaiter id got res).inbox } := by
  unfold State.signalWaiter
  split
  · split <;> rfl
  · rfl

theorem SameLinks.removeWaiter (m : State) (id : UInt16) (c : CallId) :
    SameLinks m (m.removeWaiter id c) := by
  rw [removeWaiter_eq]
  exact ⟨rfl, rfl, rfl, rfl, rfl⟩

theorem SameLinks.signalWaiter (m : State) (id : UInt16) (got : AckClass) (res : AckResult) :
    SameLinks m (m.signalWaiter id got res) := by
  rw [signalWaiter_eq]
  exact ⟨rfl, rfl, rfl, rfl, rfl⟩

theorem CallStep.sameLinks {m m' : State} {c : CallId} {p p' : Proc}
    (h : CallStep m c p m' p') : SameLinks m m' := by
  cases h with
  | granted _ hq =>
    obtain ⟨-, -, -, rfl⟩ := Quota.acquire_granted hq
    exact ⟨rfl, rfl, rfl, rfl, rfl⟩
  | exhausted _ hi => exact ⟨rfl, rfl, rfl, rfl, (IdAllocator.acquire_none hi).1⟩
  | acquired _ hi => exact ⟨rfl, rfl, rfl, rfl, (IdAllocator.acquire_some hi).2.2.1⟩
  | giveBack | freePermit => exact ⟨rfl, rfl, rfl, Quota.gen_releaseAt _ _, rfl⟩
  | freeId => exact ⟨rfl, rfl, rfl, rfl, IdAllocator.gen_releaseAt _ _ _⟩
  | unregister | leave => exact .removeWaiter m _ _
  | _ => exact ⟨rfl, rfl, rfl, rfl, rfl⟩

/-- A read loop that takes a step is running. -/
theorem readStep_some {m m' : State} {l : LinkId} {pc pc' : ReadPc}
    (h : readStep m l pc = some (m', pc')) : SameLinks m m' ∧ pc ≠ .off ∧ pc ≠ .exited := by
  refine ⟨?_, ?_, ?_⟩
  · cases pc with
    | off | reading | exited => cases h
    | ackFreeId id res =>
      cases h
      exact ⟨rfl, rfl, rfl, rfl, IdAllocator.gen_releaseAt _ _ _⟩
    | ackFreePermit id res =>
      cases h
      exact ⟨rfl, rfl, rfl, Quota.gen_releaseAt _ _, rfl⟩
    | signal id got res =>
      cases h
      exact .signalWaiter m _ _ _
    | _ =>
      cases h
      exact ⟨rfl, rfl, rfl, rfl, rfl⟩
  · rintro rfl
    cases h
  · rintro rfl
    cases h

/-- Only a stop check lets a read loop past its last one. -/
theorem readStep_committed {m m' : State} {l : LinkId} {pc pc' : ReadPc}
    (h : readStep m l pc = some (m', pc')) (hb : pc'.committed = true) :
    pc.committed = true ∨ (m.links l).stop = false := by
  cases pc with
  | checkStop f =>
    cases h
    by_cases hs : (m.links l).stop = true
    · rw [if_pos hs] at hb
      cases hb
    · exact .inr (by simpa using hs)
  | inContains id =>
    cases h
    split at hb <;> cases hb
  | inDispatch id =>
    cases h
    by_cases hs : (m.links l).stop = true
    · rw [if_pos hs] at hb
      cases hb
    · exact .inr (by simpa using hs)
  | off | reading | exited => cases h
  | _ => exact .inl rfl

/-! ## The links of a run -/

/-- The link pointer is the teardown's until it is cleared. -/
def TearPc.pinned : TearPc → Bool
  | .checked | .waitersFailed | .quotaFailed => true
  | _ => false

/-- The new link carries its generations. -/
def ConnPc.captured : ConnPc → Bool
  | .idle | .load .. | .resub .. => true
  | _ => false

/-- What holds in every run. A read loop that still runs is the published link's
or has a stop channel to find closed. -/
structure Linked (w : World) : Prop where
  published : ∀ l, w.mem.link = some l → l + 1 = w.mem.nextLink ∧ w.conn = .idle
  fresh : ∀ l, w.conn.link = some l →
    l + 1 = w.mem.nextLink ∧ w.mem.link = none ∧ w.readers l = .off
  building : ∀ l, w.conn.link = some l → w.conn.replaying = false → w.tears l = .intact
  unknown : ∀ l, w.mem.nextLink ≤ l → w.readers l = .off ∧ w.tears l = .intact
  torn : ∀ l, w.tears l ≠ .intact → (w.mem.links l).stop = true
  pinned : ∀ l, (w.tears l).pinned = true → w.mem.link = some l
  stopped : ∀ l, w.readers l ≠ .off → w.readers l ≠ .exited → w.mem.link ≠ some l →
    (w.mem.links l).stop = true
  current : ∀ l, l + 1 = w.mem.nextLink → w.conn.captured = true →
    (w.mem.links l).quotaGen = w.mem.quota.gen ∧ (w.mem.links l).idGen = w.mem.ids.gen

theorem linked_init (cfg : TCPConfig) : Linked (init cfg) where
  published l h := by cases h
  fresh l h := by cases h
  building l h := by cases h
  unknown l _ := ⟨rfl, rfl⟩
  torn l h := absurd rfl h
  pinned l h := by cases h
  stopped l h := absurd rfl h
  current l h := by cases h

section steps

variable {w w' : World} {l : LinkId}

/-- A step of a call, and the start of one. -/
theorem Linked.congr (h : Linked w) (hm : SameLinks w.mem w'.mem) (hr : w'.readers = w.readers)
    (ht : w'.tears = w.tears) (hc : w'.conn = w.conn) : Linked w' := by
  refine ⟨?_, ?_, ?_, ?_, ?_, ?_, ?_, ?_⟩
  · rw [hm.link, hm.nextLink, hc]
    exact h.published
  · rw [hm.link, hm.nextLink, hc, hr]
    exact h.fresh
  · rw [hc, ht]
    exact h.building
  · rw [hm.nextLink, hr, ht]
    exact h.unknown
  · rw [hm.links, ht]
    exact h.torn
  · rw [hm.link, ht]
    exact h.pinned
  · rw [hm.links, hm.link, hr]
    exact h.stopped
  · rw [hm.links, hm.nextLink, hm.quotaGen, hm.idGen, hc]
    exact h.current

/-- A read loop moves on. -/
theorem Linked.setReader (h : Linked w) {pc : ReadPc} (hoff : w.readers l ≠ .off)
    (hexit : w.readers l ≠ .exited) : Linked (w.setReader l pc) := by
  refine ⟨h.published, ?_, h.building, ?_, h.torn, h.pinned, ?_, h.current⟩
  · intro l' hl'
    obtain ⟨hn, hnone, hr⟩ := h.fresh l' hl'
    have hne : l' ≠ l := by
      rintro rfl
      exact hoff hr
    exact ⟨hn, hnone, by simpa [hne] using hr⟩
  · intro l' hl'
    obtain ⟨hr, ht⟩ := h.unknown l' hl'
    have hne : l' ≠ l := by
      rintro rfl
      exact hoff hr
    exact ⟨by simpa [hne] using hr, ht⟩
  · intro l' ho he hlink
    by_cases hl : l' = l
    · subst hl
      exact h.stopped l' hoff hexit hlink
    · rw [setReader_readers, Function.update_of_ne hl] at ho he
      exact h.stopped l' ho he hlink

theorem Linked.read (h : Linked w) {m' : State} {pc' : ReadPc} {book : Book}
    (hs : readStep w.mem l (w.readers l) = some (m', pc')) :
    Linked ({ w with mem := m', book }.setReader l pc') := by
  obtain ⟨hsame, hoff, hexit⟩ := readStep_some hs
  have h' : Linked { w with mem := m', book } := h.congr hsame rfl rfl rfl
  exact h'.setReader hoff hexit

/-- A teardown moves on, past the first step with the stop channel closed. -/
theorem Linked.setTear (h : Linked w) {pc : TearPc} (hl : l < w.mem.nextLink)
    (hknown : w.conn.link ≠ some l ∨ w.conn.replaying = true)
    (hstop : (w.mem.links l).stop = true) (hpin : pc.pinned = true → w.mem.link = some l) :
    Linked (w.setTear l pc) := by
  refine ⟨h.published, h.fresh, ?_, ?_, ?_, ?_, h.stopped, h.current⟩
  · intro l' hl' hr
    have hne : l' ≠ l := by
      rintro rfl
      rcases hknown with hk | hk
      · exact hk hl'
      · exact absurd (hr.symm.trans hk) (by simp)
    rw [setTear_tears, Function.update_of_ne hne]
    exact h.building l' hl' hr
  · intro l' hl'
    have hne : l' ≠ l := Nat.ne_of_gt (Nat.lt_of_lt_of_le hl hl')
    rw [setTear_tears, Function.update_of_ne hne]
    exact h.unknown l' hl'
  · intro l' ht
    by_cases hl' : l' = l
    · subst hl'
      exact hstop
    · rw [setTear_tears, Function.update_of_ne hl'] at ht
      exact h.torn l' ht
  · intro l' ht
    by_cases hl' : l' = l
    · subst hl'
      rw [setTear_tears, Function.update_self] at ht
      exact hpin ht
    · rw [setTear_tears, Function.update_of_ne hl'] at ht
      exact h.pinned l' ht

/-- A stop channel is closed. -/
theorem Linked.stop (h : Linked w) (l : LinkId) :
    Linked { w with mem := w.mem.setLink l fun k => { k with stop := true } } := by
  have hkeep : ∀ l', (w.mem.links l').stop = true →
      ((w.mem.setLink l fun k => { k with stop := true }).links l').stop = true := by
    intro l' hs
    by_cases hl' : l' = l
    · subst hl'
      simp [State.setLink]
    · simpa [State.setLink, hl'] using hs
  refine ⟨h.published, h.fresh, h.building, h.unknown, fun l' ht => hkeep l' (h.torn l' ht),
    h.pinned, fun l' ho he hlink => hkeep l' (h.stopped l' ho he hlink), ?_⟩
  intro l' hn hc
  by_cases hl' : l' = l
  · subst hl'
    simpa [State.setLink] using h.current l' hn hc
  · simpa [State.setLink, hl'] using h.current l' hn hc

/-- The link pointer of a link that was torn down is cleared. -/
theorem Linked.unpublish (h : Linked w) (hlink : w.mem.link = some l)
    (ht : (w.tears l).pinned = false) (hstop : (w.mem.links l).stop = true) :
    Linked { w with mem := { w.mem with link := none } } := by
  refine ⟨?_, ?_, h.building, h.unknown, h.torn, ?_, ?_, h.current⟩
  · intro l' hl'
    cases hl'
  · intro l' hl'
    obtain ⟨-, hnone, -⟩ := h.fresh l' hl'
    rw [hlink] at hnone
    cases hnone
  · intro l' ht'
    have hl' : some l = some l' := hlink.symm.trans (h.pinned l' ht')
    cases hl'
    exact absurd (ht.symm.trans ht') (by simp)
  · intro l' ho he _
    by_cases hl' : l' = l
    · subst hl'
      exact hstop
    · exact h.stopped l' ho he fun hl => hl' (Option.some.inj (hl.symm.trans hlink))

theorem Linked.teardown (h : Linked w) {m' : State} {pc' : TearPc}
    (hl : l < w.mem.nextLink) (hknown : w.conn.link ≠ some l ∨ w.conn.replaying = true)
    (hs : tearStep w.mem l (w.tears l) = some (m', pc')) :
    Linked ({ w with mem := m' }.setTear l pc') := by
  have hstop := h.torn l
  have hpin := h.pinned l
  cases ht : w.tears l with
  | closed =>
    rw [ht] at hs
    cases hs
  | intact =>
    rw [ht] at hs
    cases hs
    exact (h.stop l).setTear hl hknown (by simp [State.setLink]) fun hp => by cases hp
  | stopped =>
    rw [ht] at hs hstop
    cases hs
    refine h.setTear hl hknown (hstop (by simp)) ?_
    split
    · rename_i hlink
      exact fun _ => hlink
    · exact fun hp => by cases hp
  | checked =>
    rw [ht] at hs hstop hpin
    cases hs
    have hfailed : Linked { w with mem := w.mem.failAllWaiters } :=
      h.congr ⟨rfl, rfl, rfl, rfl, rfl⟩ rfl rfl rfl
    exact hfailed.setTear hl hknown (hstop (by simp)) hpin
  | waitersFailed =>
    rw [ht] at hs hstop hpin
    cases hs
    have hfailed : Linked { w with mem := { w.mem with quota := w.mem.quota.fail } } :=
      h.congr ⟨rfl, rfl, rfl, rfl, rfl⟩ rfl rfl rfl
    exact hfailed.setTear hl hknown (hstop (by simp)) hpin
  | quotaFailed =>
    rw [ht] at hs hstop hpin
    cases hs
    have hclosed : Linked (w.setTear l .closed) :=
      h.setTear hl hknown (hstop (by simp)) fun hp => by cases hp
    exact hclosed.unpublish (hpin rfl) (by rw [setTear_tears, Function.update_self]; rfl)
      (hstop (by simp))

theorem Linked.begin (h : Linked w) {r : ConnectResult} (hnone : w.mem.link = none) :
    Linked (w.begin r) := by
  have hlink : (w.begin r).conn.link = some w.mem.nextLink := by
    unfold World.begin
    dsimp only
    split <;> rfl
  have hcap : (w.begin r).conn.captured = false := by
    unfold World.begin
    dsimp only
    split <;> rfl
  obtain ⟨hr, ht⟩ := h.unknown w.mem.nextLink (Nat.le_refl _)
  refine ⟨?_, ?_, ?_, ?_, h.torn, h.pinned, h.stopped, ?_⟩
  · intro l' hl'
    have : w.mem.link = some l' := hl'
    rw [hnone] at this
    cases this
  · intro l' hl'
    cases hlink.symm.trans hl'
    exact ⟨rfl, hnone, hr⟩
  · intro l' hl' _
    cases hlink.symm.trans hl'
    exact ht
  · intro l' hl'
    exact h.unknown l' (Nat.le_of_succ_le hl')
  · intro l' _ hc
    rw [hcap] at hc
    cases hc

/-- A step of `Connect` that leaves the links, the link pointer and the read loops. -/
theorem Linked.connect (h : Linked w) {m' : State} {pc : ConnPc} {book : Book}
    (hlinks : m'.links = w.mem.links) (hlink : m'.link = w.mem.link)
    (hnext : m'.nextLink = w.mem.nextLink) (hpc : pc.link = w.conn.link ∧ w.conn ≠ .idle)
    (hre : pc.replaying = false → w.conn.replaying = false)
    (hcur : pc.captured = true → w.conn.captured = true ∧ SameLinks w.mem m') :
    Linked { w with mem := m', conn := pc, book } := by
  refine ⟨?_, ?_, ?_, ?_, ?_, ?_, ?_, ?_⟩
  · intro l' hl'
    have hl' : m'.link = some l' := hl'
    rw [hlink] at hl'
    exact absurd (h.published l' hl').2 hpc.2
  · intro l' hl'
    have hl' : pc.link = some l' := hl'
    rw [hpc.1] at hl'
    obtain ⟨hn, hnone, hr⟩ := h.fresh l' hl'
    exact ⟨by simpa [hnext] using hn, by simpa [hlink] using hnone, hr⟩
  · intro l' hl' hr
    have hl' : pc.link = some l' := hl'
    rw [hpc.1] at hl'
    exact h.building l' hl' (hre hr)
  · intro l' hl'
    exact h.unknown l' (by simpa [hnext] using hl')
  · intro l' ht
    simpa [hlinks] using h.torn l' ht
  · intro l' ht
    simpa [hlink] using h.pinned l' ht
  · intro l' ho he hne
    simpa [hlinks] using h.stopped l' ho he (by simpa [hlink] using hne)
  · intro l' hn hc
    obtain ⟨hcap, hsame⟩ := hcur hc
    have := h.current l' (by simpa [hnext] using hn) hcap
    simpa [hlinks, hsame.quotaGen, hsame.idGen] using this

/-- The new link gets its generations. -/
theorem Linked.conn_capture (h : Linked w) {r : ConnectResult} (hc : w.conn = .capture l r)
    {m' : State} {pc : ConnPc} {book : Book} (hs : connStep w.mem w.conn = some (m', pc)) :
    Linked { w with mem := m', conn := pc, book } := by
  rw [hc] at hs
  cases hs
  obtain ⟨hn, hnone, hr⟩ := h.fresh l (by rw [hc]; rfl)
  have ht := h.building l (by rw [hc]; rfl) (by rw [hc]; rfl)
  refine ⟨?_, ?_, ?_, h.unknown, ?_, h.pinned, ?_, ?_⟩
  · intro l' hl'
    have hl' : w.mem.link = some l' := hl'
    rw [hnone] at hl'
    cases hl'
  · intro l' hl'
    cases hl'
    exact ⟨hn, hnone, hr⟩
  · intro l' hl' _
    cases hl'
    exact ht
  · intro l' ht'
    have hne : l' ≠ l := by
      rintro rfl
      exact ht' ht
    simpa [State.setLink, hne] using h.torn l' ht'
  · intro l' ho he hlink
    have hne : l' ≠ l := by
      rintro rfl
      exact ho hr
    simpa [State.setLink, hne] using h.stopped l' ho he hlink
  · intro l' hn' _
    have heq : l' = l := Nat.succ.inj (hn'.trans hn.symm)
    subst heq
    simp [State.setLink, State.newLink, Quota.generation, IdAllocator.generation]

/-- The new link is published and its read loop started, unless it is down already. -/
theorem Linked.conn_resub (h : Linked w) {r : ConnectResult} {msgs : List StoredMessage}
    (hc : w.conn = .resub l r msgs) {m' : State} {pc : ConnPc} {book : Book}
    (hs : connStep w.mem w.conn = some (m', pc)) :
    Linked { w.spawn with mem := m', conn := pc, book } := by
  rw [hc] at hs
  obtain ⟨hn, hnone, hr⟩ := h.fresh l (by rw [hc]; rfl)
  have hidle : ∀ l', ConnPc.idle.link = some l' → False := fun l' hl' => by cases hl'
  have hcur : ∀ l', l' + 1 = w.mem.nextLink → (w.mem.links l').quotaGen = w.mem.quota.gen ∧
      (w.mem.links l').idGen = w.mem.ids.gen := fun l' hn' =>
    h.current l' hn' (by rw [hc]; rfl)
  unfold connStep at hs
  dsimp only at hs
  split at hs
  · rename_i hstop
    cases hs
    have hspawn : w.spawn = w := by simp [World.spawn, hc, hstop]
    rw [hspawn]
    refine ⟨?_, fun l' hl' => (hidle l' hl').elim, fun l' hl' => (hidle l' hl').elim, h.unknown,
      h.torn, h.pinned, h.stopped, fun l' hn' _ => hcur l' hn'⟩
    intro l' hl'
    have hl' : w.mem.link = some l' := hl'
    rw [hnone] at hl'
    cases hl'
  · rename_i hstop
    cases hs
    have hspawn : w.spawn = w.setReader l .reading := by simp [World.spawn, hc, hstop]
    rw [hspawn]
    refine ⟨?_, fun l' hl' => (hidle l' hl').elim, fun l' hl' => (hidle l' hl').elim, ?_,
      h.torn, ?_, ?_, fun l' hn' _ => hcur l' hn'⟩
    · intro l' hl'
      cases hl'
      exact ⟨hn, rfl⟩
    · intro l' hl'
      have hl' : w.mem.nextLink ≤ l' := hl'
      have hne : l' ≠ l := Nat.ne_of_gt ((Nat.le_of_eq hn).trans hl')
      obtain ⟨hr', ht'⟩ := h.unknown l' hl'
      exact ⟨by simpa [hne] using hr', ht'⟩
    · intro l' ht'
      have := h.pinned l' ht'
      rw [hnone] at this
      cases this
    · intro l' ho he hlink
      have hne : l' ≠ l := by
        rintro rfl
        exact hlink rfl
      have ho : Function.update w.readers l .reading l' ≠ .off := ho
      have he : Function.update w.readers l .reading l' ≠ .exited := he
      rw [Function.update_of_ne hne] at ho he
      exact h.stopped l' ho he (by simp [hnone])

theorem Linked.conn (h : Linked w) {m' : State} {pc : ConnPc} {book : Book}
    (hs : connStep w.mem w.conn = some (m', pc)) :
    Linked { w.spawn with mem := m', conn := pc, book } := by
  cases hc : w.conn with
  | idle =>
    rw [hc] at hs
    cases hs
  | storeReset l r | idsReset l r | count l r | quotaReset l r n =>
    rw [hc] at hs
    cases hs
    have hspawn : w.spawn = w := by simp [World.spawn, hc]
    rw [hspawn]
    exact h.connect rfl rfl rfl ⟨by rw [hc]; rfl, by simp [hc]⟩ (fun _ => by rw [hc]; rfl)
      fun hcap => by cases hcap
  | load l r =>
    rw [hc] at hs
    cases hs
    have hspawn : w.spawn = w := by simp [World.spawn, hc]
    rw [hspawn]
    exact h.connect rfl rfl rfl ⟨by rw [hc]; rfl, by simp [hc]⟩ (fun _ => by rw [hc]; rfl)
      fun _ => ⟨by rw [hc]; rfl, .refl _⟩
  | capture l r =>
    have hspawn : w.spawn = w := by simp [World.spawn, hc]
    rw [hspawn]
    exact h.conn_capture hc hs
  | resub l r msgs => exact h.conn_resub hc hs

end steps

theorem linked_step {w w' : World} {a : Act} (h : Linked w) (hs : step w a = some w') :
    Linked w' := by
  cases steps hs with
  | start => exact h.congr (.refl _) rfl rfl rfl
  | call hcall => exact h.congr (callStep_spec hcall).sameLinks rfl rfl rfl
  | receive hpc => exact h.setReader (by simp [hpc]) (by simp [hpc])
  | read hread => exact h.read hread
  | teardown hlt hconn htear => exact h.teardown hlt hconn htear
  | connect hlink _ => exact h.begin hlink
  | conn hconn => exact h.conn hconn

/-! ## A Connect that waits for the read loops -/

/-- No `Connect` begins while a read loop is past the last stop check of its frame. -/
def Drains (w : World) : Act → Prop
  | .connect _ => ∀ l < w.mem.nextLink, (w.readers l).committed = false
  | _ => True

instance (w : World) (a : Act) : Decidable (Drains w a) :=
  match a with
  | .connect _ => inferInstanceAs (Decidable (∀ l < w.mem.nextLink, (w.readers l).committed = false))
  | .start .. | .call .. | .receive .. | .read _ | .teardown _ | .conn => .isTrue trivial

/-- A read loop past its last stop check is the newest link's, and no `Connect` is
under way; calls and resets belong to links that exist. -/
structure Drained (w : World) : Prop where
  linked : Linked w
  newest : ∀ l, (w.readers l).committed = true → l + 1 = w.mem.nextLink ∧ w.conn = .idle
  started : ∀ c, (w.procs c).pc ≠ .idle → (w.procs c).link < w.mem.nextLink
  reset : w.book.resetFor < w.mem.nextLink ∨ w.book.resetFor = 0

theorem drained_init (cfg : TCPConfig) : Drained (init cfg) where
  linked := linked_init cfg
  newest l h := by cases h
  started c h := absurd rfl h
  reset := .inr rfl

/-- A call on its way keeps its link. -/
theorem CallStep.link {m m' : State} {c : CallId} {p p' : Proc} (h : CallStep m c p m' p') :
    p'.link = p.link ∧ p.pc ≠ .idle := by
  cases h <;> simp_all [Proc.next]

theorem ofCall_resetFor (k : Book) (m : State) (c : CallId) (p : Proc) :
    (k.ofCall m c p).resetFor = k.resetFor := by
  unfold Book.ofCall Book.credit Book.free
  split <;> try rfl
  all_goals split <;> rfl

theorem ofRead_resetFor (k : Book) (m : State) (l : LinkId) (pc : ReadPc) :
    (k.ofRead m l pc).resetFor = k.resetFor := by
  unfold Book.ofRead Book.credit Book.free
  split <;> try rfl
  all_goals split <;> rfl

theorem Drained.unique {w : World} (h : Drained w) {l l' : LinkId}
    (hl : (w.readers l).committed = true) (hl' : (w.readers l').committed = true) : l = l' :=
  Nat.succ.inj ((h.newest l hl).1.trans (h.newest l' hl').1.symm)

theorem Drained.start {w : World} (h : Drained w) {c : CallId} {job : Job} {l : LinkId}
    {pc : CallPc} (hsend : w.sends l job = true) :
    Drained ((w.begins c).setProc c { job, link := l, pc }) := by
  refine ⟨h.linked.congr (.refl _) rfl rfl rfl, h.newest, ?_, h.reset⟩
  intro d hd
  by_cases hdc : d = c
  · subst hdc
    have hlt : l < w.mem.nextLink := by
      simp only [World.sends, Bool.or_eq_true, Bool.and_eq_true, decide_eq_true_eq] at hsend
      rcases hsend with hl | hl
      · exact Nat.lt_of_succ_le (Nat.le_of_eq (h.linked.published l hl).1)
      · exact Nat.lt_of_succ_le (Nat.le_of_eq (h.linked.fresh l hl.1.2).1)
    simpa [World.begins] using hlt
  · rw [setProc_procs, Function.update_of_ne hdc] at hd ⊢
    exact h.started d hd

/-- A read loop gets past its last stop check only while its link is published. -/
theorem Drained.read {w w' : World} {l : LinkId} (h : Drained w)
    (hs : step w (.read l) = some w') : Drained w' := by
  have hlinked := linked_step h.linked hs
  obtain ⟨⟨m', pc'⟩, hread, rfl⟩ := Option.map_eq_some_iff.mp hs
  obtain ⟨hsame, hoff, hexit⟩ := readStep_some hread
  have hnext : m'.nextLink = w.mem.nextLink := hsame.nextLink
  refine ⟨hlinked, ?_, ?_, ?_⟩
  · intro l' hb
    dsimp only [setReader_readers, setReader_mem, setReader_conn] at hb ⊢
    rw [hnext]
    by_cases hl' : l' = l
    · subst hl'
      rw [Function.update_self] at hb
      rcases readStep_committed hread hb with hold | hstop
      · exact h.newest l' hold
      · have hlink : w.mem.link = some l' := by
          by_contra hne
          have := h.linked.stopped l' hoff hexit hne
          rw [hstop] at this
          cases this
        exact h.linked.published l' hlink
    · rw [Function.update_of_ne hl'] at hb
      exact h.newest l' hb
  · intro c hc
    dsimp only [setReader_procs, setReader_mem] at hc ⊢
    rw [hnext]
    exact h.started c hc
  · dsimp only [setReader_book, setReader_mem]
    rw [hnext, ofRead_resetFor]
    exact h.reset

theorem Drained.conn {w w' : World} (h : Drained w) (hs : step w .conn = some w') :
    Drained w' := by
  have hlinked := linked_step h.linked hs
  obtain ⟨⟨m', pc⟩, hconn, rfl⟩ := Option.map_eq_some_iff.mp hs
  have hactive : w.conn ≠ .idle := by
    intro hc
    rw [hc] at hconn
    cases hconn
  have hquiet : ∀ l, (w.readers l).committed = false := by
    intro l
    by_contra hb
    exact hactive (h.newest l (by simpa using hb)).2
  have hnext : m'.nextLink = w.mem.nextLink := by
    cases hc : w.conn with
    | resub l r msgs =>
      rw [hc] at hconn
      simp only [connStep] at hconn
      split at hconn <;> cases hconn <;> rfl
    | _ => rw [hc] at hconn; cases hconn <;> rfl
  have hspawn := spawn_committed hquiet
  have hprocs := spawn_procs w
  refine ⟨hlinked, ?_, ?_, ?_⟩
  · intro l hb
    have hb : (w.spawn.readers l).committed = true := hb
    rw [hspawn l] at hb
    cases hb
  · intro c hc
    have hc : (w.spawn.procs c).pc ≠ .idle := hc
    have : (w.spawn.procs c).link < m'.nextLink := by
      rw [hprocs] at hc ⊢
      rw [hnext]
      exact h.started c hc
    exact this
  · have hreset : (w.book.ofConn w.mem w.conn).resetFor < w.mem.nextLink ∨
        (w.book.ofConn w.mem w.conn).resetFor = 0 := by
      cases hc : w.conn with
      | storeReset l r =>
        exact .inl (Nat.lt_of_succ_le (Nat.le_of_eq (h.linked.fresh l (by rw [hc]; rfl)).1))
      | _ => exact h.reset
    have : (w.book.ofConn w.mem w.conn).resetFor < m'.nextLink ∨
        (w.book.ofConn w.mem w.conn).resetFor = 0 := by
      rw [hnext]
      exact hreset
    exact this

theorem drained_step {w w' : World} {a : Act} (h : Drained w) (ha : Drains w a)
    (hs : step w a = some w') : Drained w' := by
  have hlinked := linked_step h.linked hs
  cases steps hs with
  | start _ hsend => exact h.start hsend
  | @call c _ m' _ hcall =>
    have hstep := callStep_spec hcall
    have hnext : m'.nextLink = w.mem.nextLink := hstep.sameLinks.nextLink
    refine ⟨hlinked, ?_, ?_, ?_⟩
    · intro l hb
      dsimp only [setProc_mem, setProc_conn]
      rw [hnext]
      exact h.newest l hb
    · intro d hd
      dsimp only [setProc_procs, setProc_mem] at hd ⊢
      rw [hnext]
      by_cases hdc : d = c
      · subst hdc
        rw [Function.update_self, hstep.link.1]
        exact h.started d hstep.link.2
      · rw [Function.update_of_ne hdc] at hd ⊢
        exact h.started d hd
    · dsimp only [setProc_book, setProc_mem]
      rw [hnext, ofCall_resetFor]
      exact h.reset
  | @receive l _ _ =>
    refine ⟨hlinked, ?_, h.started, h.reset⟩
    intro l' hb
    by_cases hl' : l' = l
    · subst hl'
      rw [setReader_readers, Function.update_self] at hb
      cases hb
    · rw [setReader_readers, Function.update_of_ne hl'] at hb
      exact h.newest l' hb
  | read => exact h.read hs
  | @teardown l m' _ _ _ htear =>
    have hnext : m'.nextLink = w.mem.nextLink := by
      cases ht : w.tears l with
      | closed => rw [ht] at htear; cases htear
      | _ => rw [ht] at htear; cases htear; rfl
    refine ⟨hlinked, ?_, ?_, ?_⟩
    · intro l' hb
      dsimp only [setTear_mem, setTear_conn]
      rw [hnext]
      exact h.newest l' hb
    · intro c hc
      dsimp only [setTear_mem, setTear_procs]
      rw [hnext]
      exact h.started c hc
    · dsimp only [setTear_mem, setTear_book]
      rw [hnext]
      exact h.reset
  | connect =>
    refine ⟨hlinked, ?_, ?_, ?_⟩
    · intro l hb
      have hb : (w.readers l).committed = true := hb
      have hlt : l < w.mem.nextLink :=
        Nat.lt_of_succ_le (Nat.le_of_eq (h.newest l hb).1)
      rw [ha l hlt] at hb
      cases hb
    · intro c hc
      exact Nat.lt_succ_of_lt (h.started c hc)
    · exact h.reset.imp Nat.lt_succ_of_lt id
  | conn => exact h.conn hs

theorem drained_of_run {cfg : TCPConfig} {as : List Act} {w : World}
    (h : Run step Drains (init cfg) as w) : Drained w :=
  h.invariant (drained_init cfg) fun _ _ _ hi ha hs => drained_step hi ha hs

/-! ## What an old read loop touches -/

/-- A call was started on a link after `l`, or the session was reset for one. -/
def World.MovedOn (w : World) (l : LinkId) : Prop :=
  (∃ c, (w.procs c).pc ≠ .idle ∧ l < (w.procs c).link) ∨ l < w.book.resetFor

theorem Drained.idle_of_movedOn {w : World} (h : Drained w) {l : LinkId} (hl : w.MovedOn l) :
    (w.readers l).committed = false := by
  by_contra hb
  have hn := (h.newest l (by simpa using hb)).1
  have hle : ∀ k, k < w.mem.nextLink → ¬ l < k := by
    intro k hk hlk
    rw [← hn] at hk
    exact absurd hlk (Nat.not_lt.mpr (Nat.le_of_lt_succ hk))
  rcases hl with ⟨c, hc, hlc⟩ | hl
  · exact hle _ (h.started c hc) hlc
  · rcases h.reset with hr | hr
    · exact hle _ hr hl
    · rw [hr] at hl
      exact absurd hl (Nat.not_lt_zero l)

theorem readStep_mem {m m' : State} {l : LinkId} {pc pc' : ReadPc}
    (h : readStep m l pc = some (m', pc')) (hb : pc.committed = false) : m' = m := by
  cases pc with
  | off | reading | exited => cases h
  | checkStop f | inContains id | inDispatch id =>
    cases h
    rfl
  | _ => cases hb

/-- Once a call was started on a later link, or the session was reset for one, the
read loop of `l` changes nothing: no entry, no waiter, no record. -/
theorem old_read_loop_changes_nothing {cfg : TCPConfig} {as : List Act} {w w' : World} {l : LinkId}
    (h : Run step Drains (init cfg) as w) (hl : w.MovedOn l)
    (hs : step w (.read l) = some w') : w'.mem = w.mem := by
  obtain ⟨⟨m', pc'⟩, hread, rfl⟩ := Option.map_eq_some_iff.mp hs
  exact readStep_mem hread ((drained_of_run h).idle_of_movedOn hl)

/-! ## Runs -/

/-- A `Connect` from its CONNACK to the published link. -/
def connecting (sessionPresent : Bool) : List Act :=
  .connect (negotiated 5 sessionPresent) :: List.replicate (if sessionPresent then 5 else 7) .conn

/-- A whole teardown of a published link. -/
def tearing (l : LinkId) : List Act := List.replicate 5 (.teardown l)

/-- The first `n` critical sections of a publish: at the fifth it is on the wire. -/
def publishing (c : CallId) (l : LinkId) (qos : UInt8) (n : Nat) : List Act :=
  .start c (.publish { version := .v50, topic := [0x74], qos }) l :: List.replicate n (.call c .go)

theorem first_ne_zero : (1 : UInt16) ≠ 0 := by decide

/-- An acknowledgement of the first identifier handed out. -/
def firstAck : InboundAck := { packetID := 1, id_ne := first_ne_zero }

/-- The read loop takes in a frame and gets `n` critical sections into it. -/
def receiving (l : LinkId) (f : Client.Frame) (n : Nat) : List Act :=
  .receive l f :: List.replicate n (.read l)

/-- A QoS 2 message under the first identifier. -/
def firstMessage : InboundPublish where
  pkt := { version := .v50, topic := [0x74], qos := 2, packetID := 1 }

/-- The handlers of a QoS 2 message are still running when its link goes down, and
return once the session was reset and the next link has a PUBLISH of its own. -/
def blockedHandler : List Act :=
  connecting false ++ receiving 0 (.publish firstMessage) 2 ++ tearing 0 ++
    connecting false ++ publishing (.api 1) 1 1 5

/-- The second stop check ends the read loop: the message is not recorded in the
session that was reset meanwhile. -/
theorem old_read_loop_records_nothing : ∃ w w',
    exec step (init durable) blockedHandler = some w ∧ w.readers 0 = .inDispatch 1 ∧
    w.MovedOn 0 ∧ step w (.read 0) = some w' ∧ w'.mem = w.mem ∧ w'.readers 0 = .exited := by
  have hview : (execOk step Drains (init durable) blockedHandler).map (fun w =>
      (w.readers 0, decide (0 < w.book.resetFor), (step w (.read 0)).map fun w' => w'.readers 0)) =
      some (.inDispatch 1, true, some .exited) := by decide +kernel
  obtain ⟨w, hw, hview⟩ := Option.map_eq_some_iff.mp hview
  simp only [Prod.mk.injEq, decide_eq_true_eq] at hview
  obtain ⟨hpc, hreset, hstep⟩ := hview
  obtain ⟨w', hw', hexit⟩ := Option.map_eq_some_iff.mp hstep
  have hr := Run.of_execOk hw
  have hmoved : w.MovedOn 0 := .inr hreset
  exact ⟨w, w', run_iff_exec.mp hr.any, hpc, hmoved, hw',
    old_read_loop_changes_nothing hr hmoved hw', hexit⟩

/-- A read loop has found the entry of its own exchange when its link goes down, and
goes on once the next link has a PUBLISH under the same identifier. -/
def heldAck : List Act :=
  connecting false ++ publishing (.api 0) 0 1 5 ++ receiving 0 (.puback firstAck) 2 ++
    tearing 0 ++ connecting false ++ publishing (.api 1) 1 1 5

/-- It deletes the PUBLISH the next link has sent, and its caller is told that the
message was acknowledged. -/
theorem old_read_loop_ends_new_exchange : ∃ w w', exec step (init durable) heldAck = some w ∧
    (w.procs (.api 1)).link = 1 ∧ w.book.savedBy 1 = .api 1 ∧
    w.mem.store.contains 1 .publish = true ∧ w.mem.inbox (.api 1) = none ∧
    exec step w (List.replicate 4 (.read 0)) = some w' ∧
    w'.mem.store.contains 1 .publish = false ∧ w'.mem.inbox (.api 1) = some {} := by
  have hbefore : (exec step (init durable) heldAck).map (fun w =>
      ((w.procs (.api 1)).link, w.book.savedBy 1, w.mem.store.contains 1 .publish,
        w.mem.inbox (.api 1))) = some (1, .api 1, true, none) := by decide +kernel
  obtain ⟨w, hw, hbefore⟩ := Option.map_eq_some_iff.mp hbefore
  have hafter : (exec step (init durable) heldAck).bind (fun w =>
      (exec step w (List.replicate 4 (.read 0))).map fun w' =>
        (w'.mem.store.contains 1 .publish, w'.mem.inbox (.api 1))) = some (false, some {}) := by
    decide +kernel
  rw [hw, Option.bind_some] at hafter
  simp only [Prod.mk.injEq] at hbefore
  obtain ⟨hlink, hsaved, hstore, hbox⟩ := hbefore
  obtain ⟨w', hw', hend⟩ := Option.map_eq_some_iff.mp hafter
  obtain ⟨hstore', hbox'⟩ := Prod.mk.inj hend
  exact ⟨w, w', hw, hlink, hsaved, hstore, hbox, hw', hstore', hbox'⟩

end GoMqtt.Concurrent
