import GoMqtt.Concurrent.StaleReader

/-! # Teardown and the session that follows

`teardownLink` fails the waiters and the quota, which all links share, and only
then clears the link pointer, the one thing `Connect` looks at. So what it fails
is its own session's. A run is watched here by the notes it leaves: when a
`Connect` begins to apply a session, when a link is published, when a replay
breaks its link, and when a teardown poisons the shared state. -/
namespace GoMqtt.Concurrent
open GoMqtt.Protocol GoMqtt.Session GoMqtt.Client GoMqtt.Lib

inductive Note
  | applying (l : LinkId)
  | published (l : LinkId)
  | replayFailed (l : LinkId)
  | failedWaiters (l : LinkId)
  | failedQuota (l : LinkId)
  deriving DecidableEq, Repr

/-- The teardown of `l` fails the waiters or the quota. -/
def Note.poisons (l : LinkId) : Note → Bool
  | .failedWaiters l' | .failedQuota l' => l' = l
  | _ => false

/-- What a step leaves to note. -/
def notesOf (w : World) : Act → List Note
  | .teardown l =>
    match w.tears l with
    | .intact => if w.conn.link = some l then [.replayFailed l] else []
    | .checked => [.failedWaiters l]
    | .waitersFailed => [.failedQuota l]
    | _ => []
  | .connect _ => [.applying w.mem.nextLink]
  | .conn =>
    match w.conn with
    | .resub l _ _ => if (w.mem.links l).stop then [] else [.published l]
    | _ => []
  | _ => []

/-- The machine with its notes and the links whose loss has been signalled. -/
structure Scene where
  world : World
  notes : List Note := []
  signalled : List LinkId := []

/-- A step of the machine, or the last one of a teardown that is not graceful: the
send on the connection-lost channel. -/
inductive SceneAct
  | act (a : Act)
  | signal (l : LinkId)
  deriving DecidableEq, Repr

def sceneStep (s : Scene) : SceneAct → Option Scene
  | .act a => (step s.world a).map fun w =>
    { s with world := w, notes := s.notes ++ notesOf s.world a }
  | .signal l =>
    if s.world.tears l = .closed && s.notes.contains (.failedQuota l) &&
        !s.signalled.contains l then
      some { s with
        world := { s.world with mem := { s.world.mem with lostCh := true } }
        signalled := l :: s.signalled }
    else none

def Scene.init (cfg : TCPConfig) : Scene where
  world := Concurrent.init cfg

/-! ## What a note says of every later state -/

/-- The waiters have been failed. -/
def TearPc.pastWaiters : TearPc → Bool
  | .waitersFailed | .quotaFailed | .closed => true
  | _ => false

/-- The quota has been failed. -/
def TearPc.pastQuota : TearPc → Bool
  | .quotaFailed | .closed => true
  | _ => false

/-- The quota has been set up for the link under way. -/
def ConnPc.rearmed : ConnPc → Bool
  | .capture .. | .load .. | .resub .. => true
  | _ => false

def Note.Past (w : World) : Note → Prop
  | .applying l => l < w.mem.nextLink
  | .published l => l < w.mem.nextLink ∧ w.conn.link ≠ some l
  | .replayFailed l => l < w.mem.nextLink ∧ w.tears l ≠ .intact ∧ w.mem.link ≠ some l
  | .failedWaiters l => (w.tears l).pastWaiters = true
  | .failedQuota l => (w.tears l).pastQuota = true

/-- What holds in every run. -/
structure Spared (w : World) (ns : List Note) : Prop where
  linked : Linked w
  healthy : ∀ l, w.mem.link = some l → (w.mem.links l).stop = false → w.mem.quota.failed = false
  rearmed : w.conn.rearmed = true → w.mem.quota.failed = false
  past : ∀ n ∈ ns, n.Past w
  once : ∀ l n, n.poisons l = true → ns.count n ≤ 1
  order : ∀ before n after l, ns = before ++ n :: after → n.poisons l = true →
    ∀ l', Note.applying l' ∈ before → l' ≤ l
  silent : ∀ l, Note.replayFailed l ∈ ns → Note.published l ∉ ns ∧ ∀ n, n.poisons l = true → n ∉ ns

theorem spared_init (cfg : TCPConfig) : Spared (init cfg) [] where
  linked := linked_init cfg
  healthy l h := by cases h
  rearmed h := by cases h
  past n h := by cases h
  once l n _ := by simp
  order before n after l h := by simp at h
  silent l h := by cases h

section push

variable {w w' : World} {ns : List Note}

/-- A step that leaves nothing to note. -/
theorem Spared.keep (h : Spared w ns) (hlinked : Linked w')
    (hhealthy : ∀ l, w'.mem.link = some l → (w'.mem.links l).stop = false →
      w'.mem.quota.failed = false)
    (hrearmed : w'.conn.rearmed = true → w'.mem.quota.failed = false)
    (hpast : ∀ n ∈ ns, n.Past w → n.Past w') : Spared w' (ns ++ []) := by
  rw [List.append_nil]
  exact ⟨hlinked, hhealthy, hrearmed, fun n hn => hpast n hn (h.past n hn), h.once, h.order,
    h.silent⟩

/-- A step that leaves a note. -/
theorem Spared.push (h : Spared w ns) (hlinked : Linked w')
    (hhealthy : ∀ l, w'.mem.link = some l → (w'.mem.links l).stop = false →
      w'.mem.quota.failed = false)
    (hrearmed : w'.conn.rearmed = true → w'.mem.quota.failed = false)
    (hpast : ∀ n ∈ ns, n.Past w → n.Past w') {n : Note} (hn : n.Past w')
    (hfirst : ∀ l, n.poisons l = true → n ∉ ns ∧ (∀ l', Note.applying l' ∈ ns → l' ≤ l) ∧
      Note.replayFailed l ∉ ns)
    (hpub : ∀ l, n = .published l → Note.replayFailed l ∉ ns)
    (hfail : ∀ l, n = .replayFailed l → Note.published l ∉ ns ∧ ∀ m, m.poisons l = true → m ∉ ns) :
    Spared w' (ns ++ [n]) := by
  refine ⟨hlinked, hhealthy, hrearmed, ?_, ?_, ?_, ?_⟩
  · intro m hm
    rcases List.mem_append.mp hm with hm | hm
    · exact hpast m hm (h.past m hm)
    · rw [List.mem_singleton.mp hm]
      exact hn
  · intro l m hm
    rw [List.count_append]
    by_cases hmn : n = m
    · subst hmn
      have hzero : ns.count n = 0 := List.count_eq_zero.mpr (hfirst l hm).1
      simp [hzero]
    · have hold := h.once l m hm
      simpa [List.count_singleton, hmn] using hold
  · intro before m after l heq hm l' hl'
    rcases List.eq_nil_or_concat after with rfl | ⟨after, x, rfl⟩
    · -- the new note is the one split at
      obtain ⟨rfl, hsame⟩ := List.append_inj' heq rfl
      obtain rfl := (List.cons.inj hsame).1
      exact (hfirst l hm).2.1 l' hl'
    · rw [List.concat_eq_append, ← List.cons_append, ← List.append_assoc] at heq
      exact h.order before m after l (List.append_inj' heq rfl).1 hm l' hl'
  · intro l hl
    rcases List.mem_append.mp hl with hl | hl
    · obtain ⟨hnopub, hnopoison⟩ := h.silent l hl
      refine ⟨?_, ?_⟩
      · intro hm
        rcases List.mem_append.mp hm with hm | hm
        · exact hnopub hm
        · exact hpub l (List.mem_singleton.mp hm).symm hl
      · intro m hm hmem
        rcases List.mem_append.mp hmem with hmem | hmem
        · exact hnopoison m hm hmem
        · rw [List.mem_singleton.mp hmem] at hm
          exact (hfirst l hm).2.2 hl
    · have heq := (List.mem_singleton.mp hl).symm
      obtain ⟨hnopub, hnopoison⟩ := hfail l heq
      subst heq
      refine ⟨?_, ?_⟩
      · intro hm
        rcases List.mem_append.mp hm with hm | hm
        · exact hnopub hm
        · cases List.mem_singleton.mp hm
      · intro m hm hmem
        rcases List.mem_append.mp hmem with hmem | hmem
        · exact hnopoison m hm hmem
        · rw [List.mem_singleton.mp hmem] at hm
          cases hm

end push

/-! ## The steps -/

section steps

variable {w w' : World} {ns : List Note} {l : LinkId}

/-- A step that touches neither the links nor what can be failed of the quota. -/
structure Still (w w' : World) : Prop where
  same : SameLinks w.mem w'.mem
  failed : w'.mem.quota.failed = w.mem.quota.failed
  tears : w'.tears = w.tears
  conn : w'.conn = w.conn

theorem Still.past (h : Still w w') {n : Note} (hn : n.Past w) : n.Past w' := by
  cases n with
  | applying l =>
    show l < w'.mem.nextLink
    rw [h.same.nextLink]
    exact hn
  | published l =>
    show l < w'.mem.nextLink ∧ w'.conn.link ≠ some l
    rw [h.same.nextLink, h.conn]
    exact hn
  | replayFailed l =>
    show l < w'.mem.nextLink ∧ w'.tears l ≠ .intact ∧ w'.mem.link ≠ some l
    rw [h.same.nextLink, h.tears, h.same.link]
    exact hn
  | failedWaiters l =>
    show (w'.tears l).pastWaiters = true
    rw [h.tears]
    exact hn
  | failedQuota l =>
    show (w'.tears l).pastQuota = true
    rw [h.tears]
    exact hn

theorem Spared.still (h : Spared w ns) (hlinked : Linked w') (hs : Still w w') :
    Spared w' (ns ++ []) := by
  refine h.keep hlinked ?_ ?_ fun n _ => hs.past
  · rw [hs.same.link, hs.same.links, hs.failed]
    exact h.healthy
  · rw [hs.conn, hs.failed]
    exact h.rearmed

theorem CallStep.failed {m m' : State} {c : CallId} {p p' : Proc} (h : CallStep m c p m' p') :
    m'.quota.failed = m.quota.failed := by
  cases h with
  | granted _ hq =>
    obtain ⟨-, -, -, rfl⟩ := Quota.acquire_granted hq
    rfl
  | giveBack | freePermit => exact Quota.failed_releaseAt _ _
  | unregister | leave => rw [removeWaiter_eq]
  | _ => rfl

theorem readStep_failed {m m' : State} {pc pc' : ReadPc}
    (h : readStep m l pc = some (m', pc')) : m'.quota.failed = m.quota.failed := by
  cases pc with
  | off | reading | exited => cases h
  | ackFreePermit id res =>
    cases h
    exact Quota.failed_releaseAt _ _
  | signal id got res =>
    cases h
    rw [signalWaiter_eq]
  | _ =>
    cases h
    rfl

/-- A teardown only moves on. -/
theorem tearStep_forward {m m' : State} {pc pc' : TearPc} (h : tearStep m l pc = some (m', pc')) :
    pc' ≠ .intact ∧ (pc.pastWaiters = true → pc'.pastWaiters = true) ∧
      (pc.pastQuota = true → pc'.pastQuota = true) := by
  cases pc with
  | closed => cases h
  | stopped =>
    cases h
    refine ⟨?_, by simp [TearPc.pastWaiters], by simp [TearPc.pastQuota]⟩
    split <;> simp
  | _ =>
    cases h
    simp [TearPc.pastWaiters, TearPc.pastQuota]

theorem tearStep_nextLink {m m' : State} {pc pc' : TearPc}
    (h : tearStep m l pc = some (m', pc')) : m'.nextLink = m.nextLink := by
  cases pc with
  | closed => cases h
  | _ =>
    cases h
    rfl

/-- A step of a teardown takes no note back. -/
theorem past_teardown {m' : State} {pc' : TearPc}
    (hs : tearStep w.mem l (w.tears l) = some (m', pc'))
    (hlink : m'.link = w.mem.link ∨ m'.link = none) {n : Note} (hn : n.Past w) :
    n.Past ({ w with mem := m' }.setTear l pc') := by
  obtain ⟨hintact, hwaiters, hquota⟩ := tearStep_forward hs
  have hnext := tearStep_nextLink hs
  cases n with
  | applying k => exact Nat.lt_of_lt_of_eq hn hnext.symm
  | published k => exact ⟨Nat.lt_of_lt_of_eq hn.1 hnext.symm, hn.2⟩
  | replayFailed k =>
    refine ⟨Nat.lt_of_lt_of_eq hn.1 hnext.symm, ?_, ?_⟩
    · by_cases hk : k = l
      · subst hk
        simpa using hintact
      · simpa [hk] using hn.2.1
    · rcases hlink with hlink | hlink
      · simpa [hlink] using hn.2.2
      · simp [hlink]
  | failedWaiters k =>
    by_cases hk : k = l
    · subst hk
      simpa [Note.Past] using hwaiters hn
    · simpa [Note.Past, hk] using hn
  | failedQuota k =>
    by_cases hk : k = l
    · subst hk
      simpa [Note.Past] using hquota hn
    · simpa [Note.Past, hk] using hn

/-- The newest session that any `Connect` has begun to apply is the published link's. -/
theorem Spared.applied (h : Spared w ns) (hlink : w.mem.link = some l) {l' : LinkId}
    (hl' : Note.applying l' ∈ ns) : l' ≤ l := by
  have hnext := (h.linked.published l hlink).1
  exact Nat.le_of_lt_succ (Nat.lt_of_lt_of_eq (h.past _ hl') hnext.symm)

/-- A note that the state does not bear out yet is new, and the published link's to leave. -/
theorem Spared.first (h : Spared w ns) (hlink : w.mem.link = some l) {n : Note}
    (hnew : ¬ n.Past w) (hl : ∀ k, n.poisons k = true → k = l) :
    ∀ k, n.poisons k = true →
      n ∉ ns ∧ (∀ l', Note.applying l' ∈ ns → l' ≤ k) ∧ Note.replayFailed k ∉ ns := by
  intro k hk
  rw [hl k hk]
  exact ⟨fun hmem => hnew (h.past n hmem), fun l' => h.applied hlink,
    fun hf => (h.past _ hf).2.2 hlink⟩

theorem Spared.teardown (h : Spared w ns) {m' : State} {pc' : TearPc}
    (hl : l < w.mem.nextLink) (hknown : w.conn.link ≠ some l ∨ w.conn.replaying = true)
    (hs : tearStep w.mem l (w.tears l) = some (m', pc')) :
    Spared ({ w with mem := m' }.setTear l pc') (ns ++ notesOf w (.teardown l)) := by
  have hlinked := h.linked.teardown hl hknown hs
  have hpast := past_teardown (l := l) hs
  unfold notesOf
  dsimp only
  cases ht : w.tears l with
  | closed =>
    rw [ht] at hs
    cases hs
  | intact =>
    rw [ht] at hs
    cases hs
    have hhealthy : ∀ l', w.mem.link = some l' →
        ((w.mem.setLink l fun k => { k with stop := true }).links l').stop = false →
        w.mem.quota.failed = false := by
      intro l' hl' hopen
      by_cases hl : l' = l
      · subst hl
        simp [State.setLink] at hopen
      · exact h.healthy l' hl' (by simpa [State.setLink, hl] using hopen)
    dsimp only
    split
    · rename_i hconn
      have hunpub : w.mem.link ≠ some l := by
        rw [(h.linked.fresh l hconn).2.1]
        simp
      refine h.push hlinked hhealthy h.rearmed (fun n _ => hpast (.inl rfl))
        ⟨hl, by simp, hunpub⟩ (by simp [Note.poisons]) (by simp) ?_
      intro l' hl'
      cases hl'
      refine ⟨fun hp => (h.past _ hp).2 hconn, ?_⟩
      intro n hn hmem
      have := h.past n hmem
      cases n with
      | failedWaiters k =>
        obtain rfl : k = l := by simpa [Note.poisons] using hn
        simp [Note.Past, ht, TearPc.pastWaiters] at this
      | failedQuota k =>
        obtain rfl : k = l := by simpa [Note.poisons] using hn
        simp [Note.Past, ht, TearPc.pastQuota] at this
      | _ => cases hn
    · exact h.keep hlinked hhealthy h.rearmed fun n _ => hpast (.inl rfl)
  | stopped =>
    rw [ht] at hs
    cases hs
    exact h.keep hlinked h.healthy h.rearmed fun n _ => hpast (.inl rfl)
  | checked =>
    have hlink : w.mem.link = some l := h.linked.pinned l (by rw [ht]; rfl)
    rw [ht] at hs
    cases hs
    refine h.push hlinked h.healthy h.rearmed (fun n _ => hpast (.inl rfl))
      (by simp [Note.Past, TearPc.pastWaiters]) (h.first hlink ?_ ?_) (by simp) (by simp)
    · simp [Note.Past, ht, TearPc.pastWaiters]
    · intro k hk
      simpa [Note.poisons, eq_comm] using hk
  | waitersFailed =>
    have hlink : w.mem.link = some l := h.linked.pinned l (by rw [ht]; rfl)
    have hstop : (w.mem.links l).stop = true := h.linked.torn l (by simp [ht])
    have hidle : w.conn = .idle := (h.linked.published l hlink).2
    rw [ht] at hs
    cases hs
    refine h.push hlinked ?_ ?_ (fun n _ => hpast (.inl rfl))
      (by simp [Note.Past, TearPc.pastQuota]) (h.first hlink ?_ ?_) (by simp) (by simp)
    · intro l' hl' hopen
      cases hlink.symm.trans hl'
      exact absurd (hstop.symm.trans hopen) (by decide)
    · intro hr
      have hr : w.conn.rearmed = true := hr
      rw [hidle] at hr
      cases hr
    · simp [Note.Past, ht, TearPc.pastQuota]
    · intro k hk
      simpa [Note.poisons, eq_comm] using hk
  | quotaFailed =>
    have hlink : w.mem.link = some l := h.linked.pinned l (by rw [ht]; rfl)
    rw [ht] at hs
    cases hs
    refine h.keep hlinked ?_ h.rearmed fun n _ => hpast (.inr rfl)
    intro l' hl'
    cases hl'

theorem Spared.begin (h : Spared w ns) {r : ConnectResult} (hnone : w.mem.link = none) :
    Spared (w.begin r) (ns ++ [Note.applying w.mem.nextLink]) := by
  have hlink : (w.begin r).conn.link = some w.mem.nextLink := by
    unfold World.begin
    dsimp only
    split <;> rfl
  have hrearmed : (w.begin r).conn.rearmed = false := by
    unfold World.begin
    dsimp only
    split <;> rfl
  refine h.push (h.linked.begin hnone) ?_ ?_ ?_ (Nat.lt_succ_self _) (by simp [Note.poisons])
    (by simp) (by simp)
  · intro l' hl'
    cases hnone.symm.trans hl'
  · intro hr
    rw [hrearmed] at hr
    cases hr
  · intro n _ hn
    cases n with
    | applying k => exact Nat.lt_succ_of_lt hn
    | published k =>
      refine ⟨Nat.lt_succ_of_lt hn.1, ?_⟩
      rw [hlink]
      intro heq
      exact Nat.lt_irrefl k (Nat.lt_of_lt_of_eq hn.1 (Option.some.inj heq))
    | replayFailed k => exact ⟨Nat.lt_succ_of_lt hn.1, hn.2⟩
    | failedWaiters k => exact hn
    | failedQuota k => exact hn

/-- A step of `Connect` before the link is published. -/
theorem Spared.connect (h : Spared w ns) {m' : State} {pc : ConnPc} {book : Book}
    (hlinked : Linked { w with mem := m', conn := pc, book })
    (hnone : m'.link = none) (hnext : m'.nextLink = w.mem.nextLink)
    (hpc : pc.link = w.conn.link ∨ pc.link = none)
    (hrearmed : pc.rearmed = true → m'.quota.failed = false) :
    Spared { w with mem := m', conn := pc, book } (ns ++ []) := by
  refine h.keep hlinked ?_ hrearmed ?_
  · intro l hl
    cases hnone.symm.trans hl
  · intro n _ hn
    cases n with
    | applying k => exact Nat.lt_of_lt_of_eq hn hnext.symm
    | published k =>
      refine ⟨Nat.lt_of_lt_of_eq hn.1 hnext.symm, ?_⟩
      rcases hpc with hpc | hpc
      · simpa [hpc] using hn.2
      · simp [hpc]
    | replayFailed k =>
      exact ⟨Nat.lt_of_lt_of_eq hn.1 hnext.symm, hn.2.1, by simp [hnone]⟩
    | failedWaiters k => exact hn
    | failedQuota k => exact hn

theorem Spared.conn (h : Spared w ns) {m' : State} {pc : ConnPc} {book : Book}
    (hs : connStep w.mem w.conn = some (m', pc)) :
    Spared { w.spawn with mem := m', conn := pc, book } (ns ++ notesOf w .conn) := by
  have hlinked : Linked { w.spawn with mem := m', conn := pc, book } := h.linked.conn hs
  unfold notesOf
  cases hc : w.conn with
  | idle =>
    rw [hc] at hs
    cases hs
  | storeReset l r | idsReset l r | count l r | quotaReset l r n | capture l r | load l r =>
    have hspawn : w.spawn = w := by simp [World.spawn, hc]
    have hnone := (h.linked.fresh l (by rw [hc]; rfl)).2.1
    have hold := h.rearmed
    rw [hspawn] at hlinked ⊢
    rw [hc] at hs hold
    cases hs
    refine h.connect hlinked hnone rfl (.inl (by rw [hc]; rfl)) ?_
    first
      | exact hold
      | exact fun _ => rfl
  | resub l r msgs =>
    obtain ⟨hnext, hnone, -⟩ := h.linked.fresh l (by rw [hc]; rfl)
    rw [hc] at hs
    unfold connStep at hs
    dsimp only at hs ⊢
    split at hs
    · rename_i hstop
      have hspawn : w.spawn = w := by simp [World.spawn, hc, hstop]
      cases hs
      rw [if_pos hstop]
      rw [hspawn] at hlinked ⊢
      exact h.connect hlinked hnone rfl (.inr rfl) fun hr => by cases hr
    · rename_i hopen
      have hspawn : w.spawn = w.setReader l .reading := by simp [World.spawn, hc, hopen]
      cases hs
      rw [if_neg hopen]
      rw [hspawn] at hlinked ⊢
      -- a link whose replay failed has its stop channel closed
      have hother : ∀ k, Note.replayFailed k ∈ ns → l ≠ k := by
        intro k hk hlk
        subst hlk
        exact hopen (h.linked.torn l (h.past _ hk).2.1)
      refine h.push hlinked ?_ (fun hr => by cases hr) ?_ ?_ (by simp [Note.poisons]) ?_ (by simp)
      · intro _ _ _
        exact h.rearmed (by rw [hc]; rfl)
      · intro n hmem hn
        cases n with
        | applying k => exact hn
        | published k => exact ⟨hn.1, by simp [ConnPc.link]⟩
        | replayFailed k => exact ⟨hn.1, hn.2.1, by simpa using hother k hmem⟩
        | failedWaiters k => exact hn
        | failedQuota k => exact hn
      · exact ⟨Nat.lt_of_lt_of_eq (Nat.lt_succ_self l) hnext, by simp [ConnPc.link]⟩
      · intro k hk hmem
        cases hk
        exact hother l hmem rfl

end steps

theorem spared_step {w w' : World} {a : Act} {ns : List Note} (h : Spared w ns)
    (hs : step w a = some w') : Spared w' (ns ++ notesOf w a) := by
  have hlinked := linked_step h.linked hs
  cases steps hs with
  | start | receive => exact h.still hlinked ⟨.refl _, rfl, rfl, rfl⟩
  | call hcall =>
    have hspec := callStep_spec hcall
    exact h.still hlinked ⟨hspec.sameLinks, hspec.failed, rfl, rfl⟩
  | read hread =>
    exact h.still hlinked ⟨(readStep_some hread).1, readStep_failed hread, rfl, rfl⟩
  | teardown hlt hconn htear => exact h.teardown hlt hconn htear
  | connect hlink _ => exact h.begin hlink
  | conn hconn => exact h.conn hconn

theorem spared_sceneStep {s s' : Scene} {a : SceneAct} (h : Spared s.world s.notes)
    (hs : sceneStep s a = some s') : Spared s'.world s'.notes := by
  cases a with
  | act a =>
    obtain ⟨w', hw, rfl⟩ := Option.map_eq_some_iff.mp hs
    exact spared_step h hw
  | signal l =>
    simp only [sceneStep] at hs
    split at hs
    · cases hs
      have hlinked : Linked { s.world with mem := { s.world.mem with lostCh := true } } :=
        h.linked.congr ⟨rfl, rfl, rfl, rfl, rfl⟩ rfl rfl rfl
      rw [← List.append_nil s.notes]
      exact h.still hlinked ⟨⟨rfl, rfl, rfl, rfl, rfl⟩, rfl, rfl, rfl⟩
    · cases hs

theorem spared_run {cfg : TCPConfig} {as : List SceneAct} {s : Scene}
    (h : Run sceneStep anyStep (Scene.init cfg) as s) : Spared s.world s.notes :=
  h.invariant (spared_init cfg) fun _ _ _ hi _ hs => spared_sceneStep hi hs

/-! ## Whose state a teardown fails -/

/-- Only a teardown past its pointer check fails anything. -/
theorem notesOf_poisons {w : World} {a : Act} {n : Note} {l : LinkId} (hn : n ∈ notesOf w a)
    (hl : n.poisons l = true) :
    a = .teardown l ∧ (w.tears l = .checked ∨ w.tears l = .waitersFailed) := by
  cases a with
  | teardown k =>
    simp only [notesOf] at hn
    split at hn
    · split at hn
      · cases List.mem_singleton.mp hn
        cases hl
      · cases hn
    · rename_i ht
      cases List.mem_singleton.mp hn
      obtain rfl : k = l := by simpa [Note.poisons] using hl
      exact ⟨rfl, .inl ht⟩
    · rename_i ht
      cases List.mem_singleton.mp hn
      obtain rfl : k = l := by simpa [Note.poisons] using hl
      exact ⟨rfl, .inr ht⟩
    · cases hn
  | connect r =>
    cases List.mem_singleton.mp hn
    cases hl
  | conn =>
    simp only [notesOf] at hn
    split at hn
    · split at hn
      · cases hn
      · cases List.mem_singleton.mp hn
        cases hl
    · cases hn
  | start | call | receive | read => cases hn

theorem poison_published {s s' : Scene} {a : SceneAct} (h : Linked s.world)
    (hs : sceneStep s a = some s') {n : Note} {l : LinkId} (hl : n.poisons l = true)
    (hn : s'.notes = s.notes ++ [n]) :
    s.world.mem.link = some l ∧ s'.world.mem.link = some l := by
  cases a with
  | act a =>
    obtain ⟨w', hw, rfl⟩ := Option.map_eq_some_iff.mp hs
    have hmem : n ∈ notesOf s.world a := by
      rw [List.append_cancel_left hn]
      exact List.mem_singleton_self n
    obtain ⟨rfl, ht⟩ := notesOf_poisons hmem hl
    have hlink : s.world.mem.link = some l := by
      refine h.pinned l ?_
      rcases ht with ht | ht <;> rw [ht] <;> rfl
    refine ⟨hlink, ?_⟩
    simp only [step] at hw
    split at hw
    · obtain ⟨⟨m', pc'⟩, htear, rfl⟩ := Option.map_eq_some_iff.mp hw
      rcases ht with ht | ht <;> rw [ht] at htear <;> cases htear <;> exact hlink
    · cases hw
  | signal k =>
    simp only [sceneStep] at hs
    split at hs
    · cases hs
      simp at hn
    · cases hs

/-- A teardown never fails a session that is not its own. -/
theorem teardown_spares_session {cfg : TCPConfig} {as : List SceneAct} {s : Scene}
    (h : Run sceneStep anyStep (Scene.init cfg) as s) :
    (∀ l, s.world.mem.link = some l → (s.world.mem.links l).stop = false →
      s.world.mem.quota.failed = false) ∧
    (∀ n l, n.poisons l = true → s.notes.count n ≤ 1) ∧
    (∀ a s' n l, sceneStep s a = some s' → n.poisons l = true → s'.notes = s.notes ++ [n] →
      s.world.mem.link = some l ∧ s'.world.mem.link = some l) ∧
    (∀ before n after l, s.notes = before ++ n :: after → n.poisons l = true →
      ∀ l', Note.applying l' ∈ before → l' ≤ l) ∧
    ∀ l, Note.replayFailed l ∈ s.notes →
      s.world.mem.link ≠ some l ∧ Note.published l ∉ s.notes ∧
        ∀ n, n.poisons l = true → n ∉ s.notes := by
  have hinv := spared_run h
  refine ⟨hinv.healthy, fun n l => hinv.once l n, ?_, hinv.order, ?_⟩
  · intro a s' n l hs hn hnotes
    exact poison_published hinv.linked hs hn hnotes
  · intro l hl
    exact ⟨(hinv.past _ hl).2.2, hinv.silent l hl⟩

/-- A write of the replay fails, and `Connect` finds the stop channel closed. -/
def breakingReplay (l : LinkId) : List Act :=
  .connect (negotiated 5 false) :: (List.replicate 6 Act.conn ++ [Act.teardown l, .conn])

/-- A session is lost, the replay of the next one breaks its link, and the teardown of
that link looks at the pointer only after a third link is published. -/
def threeLinks : List SceneAct :=
  (connecting false ++ tearing 0).map .act ++ SceneAct.signal 0 ::
    (breakingReplay 1 ++ connecting false ++ [Act.teardown 1]).map .act

theorem teardown_spares_session_threeLinks :
    ∃ s, exec sceneStep (Scene.init durable) threeLinks = some s ∧
      s.notes = [.applying 0, .published 0, .failedWaiters 0, .failedQuota 0, .applying 1,
        .replayFailed 1, .applying 2, .published 2] ∧
      s.world.mem.link = some 2 ∧ s.world.tears 1 = .closed ∧ s.world.mem.quota.failed = false ∧
      Note.failedQuota 1 ∉ s.notes := by
  have hview : (execOk sceneStep anyStep (Scene.init durable) threeLinks).map (fun s =>
      (s.notes, s.world.mem.link, (s.world.mem.links 2).stop, s.world.tears 1)) =
      some ([.applying 0, .published 0, .failedWaiters 0, .failedQuota 0, .applying 1,
        .replayFailed 1, .applying 2, .published 2], some 2, false, .closed) := by
    decide +kernel
  obtain ⟨s, hs, hview⟩ := Option.map_eq_some_iff.mp hview
  rw [Prod.mk.injEq, Prod.mk.injEq, Prod.mk.injEq] at hview
  obtain ⟨hnotes, hlink, hopen, hclosed⟩ := hview
  have hr := Run.of_execOk hs
  obtain ⟨hhealthy, -, -, -, hsilent⟩ := teardown_spares_session hr
  have hfailed : Note.replayFailed 1 ∈ s.notes := by rw [hnotes]; simp
  exact ⟨s, run_iff_exec.mp hr, hnotes, hlink, hclosed, hhealthy 2 hlink hopen,
    (hsilent 1 hfailed).2.2 _ (by decide)⟩

end GoMqtt.Concurrent
