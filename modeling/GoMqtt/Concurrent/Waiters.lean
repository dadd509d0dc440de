import GoMqtt.Concurrent.Supersede

/-! # Whose waiter it is

A waiter is registered under an identifier, and an identifier is a call's from the
moment it is acquired. A `Connect` that discards the session frees the identifiers
of calls that are still on their way: `removeWaiter` compares the channel before it
takes a waiter out, but neither `registerWaiter` nor `Save` looks at what is there.
Where an identifier is handed out only while nothing is registered or stored under it,
and while no call is on its way to do so, each waiter stays its own call's. -/
namespace GoMqtt.Concurrent
open GoMqtt.Protocol GoMqtt.Session GoMqtt.Client GoMqtt.Lib

/-! ## Control ranges -/

/-- The call has its identifier, and its `registerWaiter` is still to come. -/
def CallPc.registers : CallPc → Bool
  | .save | .register => true
  | _ => false

/-- The call may have a waiter. -/
def CallPc.awaits : CallPc → Bool
  | .write | .tearing | .unregister | .wait | .leave => true
  | _ => false

/-! ## The waiter table -/

section waiters

variable (m : State) (id : UInt16)

theorem lookup_removeWaiter (c : CallId) (j : UInt16) :
    (m.removeWaiter id c).waiters.lookup j =
      if j = id ∧ (m.waiters.lookup id).map Waiter.ch = some c then none
      else m.waiters.lookup j := by
  unfold State.removeWaiter
  cases hx : m.waiters.lookup id with
  | none => simp
  | some x =>
    by_cases hc : x.ch = c
    · by_cases hj : j = id
      · subst hj
        simp [hc]
      · simp [hc, hj, AList.lookup_erase_ne hj]
    · simp [hc]

theorem inbox_removeWaiter (c : CallId) : (m.removeWaiter id c).inbox = m.inbox := by
  rw [removeWaiter_eq]

theorem lookup_signalWaiter (got : AckClass) (res : AckResult) (j : UInt16) :
    (m.signalWaiter id got res).waiters.lookup j =
      if j = id ∧ (m.waiters.lookup id).map Waiter.want = some got then none
      else m.waiters.lookup j := by
  unfold State.signalWaiter
  cases hx : m.waiters.lookup id with
  | none => simp
  | some x =>
    by_cases hg : x.want = got
    · by_cases hj : j = id
      · subst hj
        simp [hg, State.deliver]
      · simp [hg, hj, State.deliver, AList.lookup_erase_ne hj]
    · simp [hg]

/-- Only the call whose waiter is taken out gets the result. -/
theorem inbox_signalWaiter {got : AckClass} {res : AckResult} {c : CallId}
    (h : ∀ x, m.waiters.lookup id = some x → x.ch ≠ c) :
    (m.signalWaiter id got res).inbox c = m.inbox c := by
  unfold State.signalWaiter
  split
  · rename_i x hx
    split
    · simp [State.deliver, (h x hx).symm]
    · rfl
  · rfl

end waiters

/-- A step of a call registers a waiter, takes its own out, or leaves the table. -/
theorem CallStep.waiters {m m' : State} {c : CallId} {p p' : Proc} (h : CallStep m c p m' p') :
    (p.pc = .register ∧ p' = { p with pc := .write } ∧ m' = m.registerWaiter p.id c p.job.want) ∨
    ((p.pc = .unregister ∨ p.pc = .leave) ∧ p'.pc.awaits = false ∧ m' = m.removeWaiter p.id c) ∨
    (m'.waiters = m.waiters ∧ m'.inbox = m.inbox ∧ (p'.pc.awaits = true → p.pc.awaits = true) ∧
      (p.pc.awaits = true → p'.pc.awaits = true ∨ m.inbox c ≠ none) ∧ p.pc ≠ .register) := by
  cases h with
  | register hpc => exact .inl ⟨hpc, rfl, rfl⟩
  | unregister hpc =>
    refine .inr (.inl ⟨.inl hpc, ?_, rfl⟩)
    unfold Proc.next
    dsimp only
    split <;> rfl
  | leave hpc =>
    refine .inr (.inl ⟨.inr hpc, ?_, rfl⟩)
    unfold Proc.next
    dsimp only
    split <;> rfl
  | collect hpc hi =>
    refine .inr (.inr ⟨rfl, rfl, ?_, fun _ => .inr (by simp [hi]), by simp [hpc]⟩)
    intro _
    rw [hpc]
    rfl
  | exhausted hpc | acquired hpc | freeId hpc =>
    refine .inr (.inr ⟨rfl, rfl, ?_, ?_, by simp [hpc]⟩)
    · unfold Proc.next
      dsimp only
      split <;> exact fun h => by cases h
    · rw [hpc]
      exact fun h => by cases h
  | granted hpc | turnedAway hpc | giveBack hpc | save hpc | written hpc | refused hpc | broken hpc
  | torn hpc | owned hpc | adopted hpc | drop hpc | freePermit hpc | giveUp hpc =>
    exact .inr (.inr ⟨rfl, rfl, by simp [hpc, CallPc.awaits], by simp [hpc, CallPc.awaits],
      by simp [hpc]⟩)

/-- A call keeps its job, and the identifier it has acquired. -/
theorem CallStep.identifier {m m' : State} {c : CallId} {p p' : Proc}
    (h : CallStep m c p m' p') : p'.job = p.job ∧
      ((p.pc = .acquireId ∧ ∃ gen ids, m.ids.acquire = (some (p'.id, gen), ids) ∧
          p'.idGen = gen) ∨
        (p'.id = p.id ∧ p'.idGen = p.idGen ∧ p'.pc ≠ .save)) := by
  cases h with
  | acquired hpc hi => exact ⟨rfl, .inl ⟨hpc, _, _, hi, rfl⟩⟩
  | exhausted | unregister | freeId | collect | leave =>
    refine ⟨rfl, .inr ⟨rfl, rfl, ?_⟩⟩
    unfold Proc.next
    dsimp only
    split <;> simp
  | _ => exact ⟨rfl, .inr ⟨rfl, rfl, by simp⟩⟩

/-- A call on its way to `registerWaiter` has just acquired its identifier, or has
saved its PUBLISH under it. -/
theorem CallStep.registers {m m' : State} {c : CallId} {p p' : Proc} (h : CallStep m c p m' p')
    (hp : p'.pc.registers = true) :
    (p.pc = .acquireId ∧ m'.waiters = m.waiters ∧
      ∃ gen ids, m.ids.acquire = (some (p'.id, gen), ids)) ∨
    (p.pc = .save ∧ p'.id = p.id ∧ m'.waiters = m.waiters) := by
  cases h with
  | acquired hpc hi => exact .inl ⟨hpc, rfl, _, _, hi⟩
  | save hpc => exact .inr ⟨hpc, rfl, rfl⟩
  | exhausted | unregister | freeId | collect | leave =>
    unfold Proc.next at hp
    dsimp only at hp
    split at hp <;> cases hp
  | _ => cases hp

/-! ## The discipline -/

/-- An identifier is handed out while no other call is on its way to register a waiter
under it, no waiter is registered and no PUBLISH is stored under it. -/
def HandsOutFresh (w : World) : Act → Prop
  | .call c _ => (w.procs c).pc = .acquireId → ∀ e ∈ w.mem.ids.acquire.1,
      (∀ d ∈ w.book.calls, d ≠ c → (w.procs d).pc.registers = true → (w.procs d).id ≠ e.1) ∧
        w.mem.waiters.lookup e.1 = none ∧ w.mem.store.contains e.1 .publish = false
  | _ => True

instance (w : World) (a : Act) : Decidable (HandsOutFresh w a) :=
  match a with
  | .call c _ => inferInstanceAs (Decidable ((w.procs c).pc = .acquireId →
      ∀ e ∈ w.mem.ids.acquire.1,
        (∀ d ∈ w.book.calls, d ≠ c → (w.procs d).pc.registers = true → (w.procs d).id ≠ e.1) ∧
          w.mem.waiters.lookup e.1 = none ∧ w.mem.store.contains e.1 .publish = false))
  | .start .. | .receive .. | .read _ | .teardown _ | .connect _ | .conn => .isTrue trivial

/-- No two calls are on their way to register a waiter under one identifier, none is
registered there yet, and each waiter is its call's, which has not been told anything
yet. -/
structure Owned (w : World) : Prop where
  known : ∀ c, (w.procs c).pc ≠ .idle → c ∈ w.book.calls
  apart : ∀ c d, (w.procs c).pc.registers = true → (w.procs d).pc.registers = true →
    (w.procs c).id = (w.procs d).id → c = d
  vacant : ∀ c, (w.procs c).pc.registers = true → w.mem.waiters.lookup (w.procs c).id = none
  waiter : ∀ id x, w.mem.waiters.lookup id = some x →
    (w.procs x.ch).pc.awaits = true ∧ (w.procs x.ch).id = id ∧ w.mem.inbox x.ch = none
  clear : ∀ c, (w.procs c).pc = .save →
    w.mem.store.contains (w.procs c).id .publish = false

theorem owned_init (cfg : TCPConfig) : Owned (init cfg) where
  known c h := absurd rfl h
  apart c d h := by cases h
  vacant c h := by cases h
  waiter id x h := by cases h
  clear c h := by cases h

/-! ## Every step keeps it -/

section book

variable (k : Book) (m : State)

@[simp] theorem ofCall_calls (c : CallId) (p : Proc) : (k.ofCall m c p).calls = k.calls := by
  unfold Book.ofCall Book.credit Book.free
  split <;> try rfl
  all_goals split <;> rfl

@[simp] theorem ofRead_calls (l : LinkId) (pc : ReadPc) : (k.ofRead m l pc).calls = k.calls := by
  unfold Book.ofRead Book.credit Book.free
  split <;> try rfl
  all_goals split <;> rfl

@[simp] theorem ofConn_calls (pc : ConnPc) : (k.ofConn m pc).calls = k.calls := by
  unfold Book.ofConn
  split <;> rfl

end book

/-- A read loop adds no PUBLISH to the store. -/
theorem readStep_publish {m m' : State} {l : LinkId} {pc pc' : ReadPc} {id : UInt16}
    (h : readStep m l pc = some (m', pc')) (hid : m.store.contains id .publish = false) :
    m'.store.contains id .publish = false := by
  cases pc with
  | off | reading | exited => cases h
  | signal id' got res =>
    cases h
    rw [signalWaiter_eq]
    exact hid
  | recSave | inSave | ackDelete | recDelete | relDelete =>
    cases h
    simp [hid]
  | _ =>
    cases h
    exact hid

theorem readStep_waiters {m m' : State} {l : LinkId} {pc pc' : ReadPc}
    (h : readStep m l pc = some (m', pc')) :
    (∃ id got res, pc = .signal id got res ∧ m' = m.signalWaiter id got res) ∨
      (m'.waiters = m.waiters ∧ m'.inbox = m.inbox) := by
  cases pc with
  | off | reading | exited => cases h
  | signal id got res =>
    cases h
    exact .inl ⟨id, got, res, rfl, rfl⟩
  | _ =>
    cases h
    exact .inr ⟨rfl, rfl⟩

theorem connStep_waiters {m m' : State} {pc pc' : ConnPc} (h : connStep m pc = some (m', pc')) :
    m'.waiters = m.waiters ∧ m'.inbox = m.inbox ∧
      (m'.store = m.store ∨ m'.store = m.store.reset) := by
  cases pc with
  | idle => cases h
  | storeReset l r =>
    cases h
    exact ⟨rfl, rfl, .inr rfl⟩
  | resub l r msgs =>
    simp only [connStep] at h
    split at h <;> cases h <;> exact ⟨rfl, rfl, .inl rfl⟩
  | _ =>
    cases h
    exact ⟨rfl, rfl, .inl rfl⟩

/-- A teardown fails all waiters in one step, and leaves table and store otherwise. -/
theorem tearStep_waiters {m m' : State} {l : LinkId} {pc pc' : TearPc}
    (h : tearStep m l pc = some (m', pc')) : m'.store = m.store ∧
      ((pc = .checked ∧ m'.waiters = ∅) ∨ (m'.waiters = m.waiters ∧ m'.inbox = m.inbox)) := by
  cases pc with
  | closed => cases h
  | checked =>
    cases h
    exact ⟨rfl, .inl ⟨rfl, rfl⟩⟩
  | _ =>
    cases h
    exact ⟨rfl, .inr ⟨rfl, rfl⟩⟩

section steps

variable {w : World}

/-- The calls are the same, the waiters too, and no PUBLISH is added. -/
theorem Owned.congr {w' : World} (h : Owned w) (hp : w'.procs = w.procs)
    (hk : w'.book.calls = w.book.calls)
    (hw : ∀ id x, w'.mem.waiters.lookup id = some x →
      w.mem.waiters.lookup id = some x ∧ w'.mem.inbox x.ch = w.mem.inbox x.ch)
    (hst : ∀ id, w.mem.store.contains id .publish = false →
      w'.mem.store.contains id .publish = false) : Owned w' := by
  refine ⟨?_, ?_, ?_, ?_, ?_⟩
  · rw [hp, hk]
    exact h.known
  · rw [hp]
    exact h.apart
  · intro c hc
    rw [hp] at hc ⊢
    refine Option.eq_none_iff_forall_ne_some.mpr fun x hx => ?_
    have hold := (hw _ x hx).1
    rw [h.vacant c hc] at hold
    cases hold
  · intro id x hx
    obtain ⟨hx, hbox⟩ := hw id x hx
    rw [hp, hbox]
    exact h.waiter id x hx
  · rw [hp]
    exact fun c hc => hst _ (h.clear c hc)

theorem Owned.start (h : Owned w) {c : CallId} {p : Proc} (hc : (w.procs c).pc = .idle)
    (hp : p.pc.registers = false) : Owned ((w.begins c).setProc c p) := by
  have hne : ∀ d, (Function.update w.procs c p d).pc.registers = true → d ≠ c := by
    intro d hd
    rintro rfl
    rw [Function.update_self, hp] at hd
    cases hd
  refine ⟨?_, ?_, ?_, ?_, ?_⟩
  · intro d hd
    by_cases hdc : d = c
    · subst hdc
      exact List.mem_cons_self
    · rw [setProc_procs, Function.update_of_ne hdc] at hd
      exact List.mem_cons_of_mem _ (h.known d hd)
  · intro d e hd he hid
    have hdc := hne d hd
    have hec := hne e he
    rw [setProc_procs, Function.update_of_ne hdc] at hd
    rw [setProc_procs, Function.update_of_ne hec] at he
    rw [setProc_procs, Function.update_of_ne hdc, Function.update_of_ne hec] at hid
    exact h.apart d e hd he hid
  · intro d hd
    have hdc := hne d hd
    rw [setProc_procs, Function.update_of_ne hdc] at hd ⊢
    exact h.vacant d hd
  · intro id x hx
    obtain ⟨ha, hid, hbox⟩ := h.waiter id x hx
    have hxc : x.ch ≠ c := by
      rintro rfl
      rw [hc] at ha
      cases ha
    rw [setProc_procs, Function.update_of_ne hxc]
    exact ⟨ha, hid, hbox⟩
  · intro d hd
    have hd : (Function.update w.procs c p d).pc = .save := hd
    have hdc := hne d (by rw [hd]; rfl)
    rw [Function.update_of_ne hdc] at hd
    rw [setProc_procs, Function.update_of_ne hdc]
    exact h.clear d hd

/-- The waiters after a step of a call. -/
theorem Owned.call_waiter (h : Owned w) {c : CallId} {m' : State} {p' : Proc}
    (hs : CallStep w.mem c (w.procs c) m' p') {id : UInt16} {x : Waiter}
    (hx : m'.waiters.lookup id = some x) :
    (Function.update w.procs c p' x.ch).pc.awaits = true ∧
      (Function.update w.procs c p' x.ch).id = id ∧ m'.inbox x.ch = none := by
  have hkeep : ∀ d, d ≠ c → Function.update w.procs c p' d = w.procs d := fun d hd =>
    Function.update_of_ne hd _ _
  rcases hs.waiters with ⟨hpc, hp', rfl⟩ | ⟨-, -, rfl⟩ | ⟨hw, hbox, hto, hfrom, hreg⟩
  · by_cases hid : id = (w.procs c).id
    · subst hid
      simp only [State.registerWaiter, AList.lookup_insert, Option.some.injEq] at hx
      subst hx
      simp [hp', CallPc.awaits, State.registerWaiter]
    · have hx : w.mem.waiters.lookup id = some x := by
        simpa [State.registerWaiter, AList.lookup_insert_ne hid] using hx
      obtain ⟨ha, hid', hbox⟩ := h.waiter id x hx
      have hxc : x.ch ≠ c := by
        rintro rfl
        rw [hpc] at ha
        cases ha
      rw [hkeep _ hxc]
      exact ⟨ha, hid', by simpa [State.registerWaiter, hxc] using hbox⟩
  · rw [lookup_removeWaiter] at hx
    split at hx
    · cases hx
    · rename_i hne
      obtain ⟨ha, hid', hbox⟩ := h.waiter id x hx
      have hxc : x.ch ≠ c := by
        rintro rfl
        exact hne ⟨hid'.symm, by rw [hid', hx]; rfl⟩
      rw [hkeep _ hxc, inbox_removeWaiter]
      exact ⟨ha, hid', hbox⟩
  · rw [hw] at hx
    obtain ⟨ha, hid', hbox'⟩ := h.waiter id x hx
    rw [hbox]
    by_cases hxc : x.ch = c
    · rw [hxc] at ha hid' hbox' ⊢
      rw [Function.update_self]
      refine ⟨(hfrom ha).resolve_right (fun hn => hn hbox'), ?_, hbox'⟩
      rcases hs.identifier.2 with ⟨hpc, -⟩ | ⟨hi, -⟩
      · rw [hpc] at ha
        cases ha
      · rw [hi]
        exact hid'
    · rw [hkeep _ hxc]
      exact ⟨ha, hid', hbox'⟩

theorem Owned.call_clear (h : Owned w) {c : CallId} {m' : State} {p' : Proc} {b : Branch}
    (ha : HandsOutFresh w (.call c b)) (hs : CallStep w.mem c (w.procs c) m' p') {d : CallId}
    (hd : (Function.update w.procs c p' d).pc = .save) :
    m'.store.contains (Function.update w.procs c p' d).id .publish = false := by
  by_cases hdc : d = c
  · subst hdc
    rw [Function.update_self] at hd ⊢
    rcases hs.identifier.2 with ⟨hpc, gen, ids, hi, -⟩ | ⟨-, -, hne⟩
    · rcases hs.store with ⟨pkt, hpc', -⟩ | ⟨hpc', -⟩ | ⟨-, -, hst⟩
      · rw [hpc] at hpc'
        cases hpc'
      · rw [hpc] at hpc'
        cases hpc'
      · rw [hst]
        exact (ha hpc (p'.id, gen) (by rw [hi]; rfl)).2.2
    · exact absurd hd hne
  · rw [Function.update_of_ne hdc] at hd ⊢
    have hclear := h.clear d hd
    rcases hs.store with ⟨pkt, hpc, hpkt, hst⟩ | ⟨-, hst⟩ | ⟨-, -, hst⟩
    · rw [hst]
      have hid : (w.procs d).id ≠ pkt.packetID := by
        rw [(packet_id hpkt).1]
        intro heq
        exact hdc (h.apart d c (by rw [hd]; rfl) (by rw [hpc]; rfl) heq)
      simp [hclear, hid]
    · rw [hst]
      simp [hclear]
    · rw [hst]
      exact hclear

/-- An identifier is acquired fresh, and a PUBLISH saved under it keeps it so. -/
theorem Owned.call_apart (h : Owned w) {c : CallId} {m' : State} {p' : Proc} {b : Branch}
    (ha : HandsOutFresh w (.call c b)) (hs : CallStep w.mem c (w.procs c) m' p')
    (hp' : p'.pc.registers = true) {d : CallId} (hdc : d ≠ c)
    (hd : (w.procs d).pc.registers = true) : p'.id ≠ (w.procs d).id := by
  rcases hs.registers hp' with ⟨hpc, -, gen, ids, hi⟩ | ⟨hpc, hid, -⟩
  · have hknown : d ∈ w.book.calls := by
      refine h.known d ?_
      intro hidle
      rw [hidle] at hd
      cases hd
    exact ((ha hpc (p'.id, gen) (by rw [hi]; rfl)).1 d hknown hdc hd).symm
  · rw [hid]
    intro heq
    exact hdc (h.apart c d (by rw [hpc]; rfl) hd heq).symm

/-- Nothing is registered where a call is about to register. -/
theorem Owned.call_vacant (h : Owned w) {c : CallId} {m' : State} {p' : Proc} {b : Branch}
    (ha : HandsOutFresh w (.call c b)) (hs : CallStep w.mem c (w.procs c) m' p') {d : CallId}
    (hd : (Function.update w.procs c p' d).pc.registers = true) :
    m'.waiters.lookup (Function.update w.procs c p' d).id = none := by
  by_cases hdc : d = c
  · subst hdc
    rw [Function.update_self] at hd ⊢
    rcases hs.registers hd with ⟨hpc, hw, gen, ids, hi⟩ | ⟨hpc, hid, hw⟩
    · rw [hw]
      exact (ha hpc (p'.id, gen) (by rw [hi]; rfl)).2.1
    · rw [hw, hid]
      exact h.vacant d (by rw [hpc]; rfl)
  · rw [Function.update_of_ne hdc] at hd ⊢
    have hvac := h.vacant d hd
    rcases hs.waiters with ⟨hpc, -, rfl⟩ | ⟨-, -, rfl⟩ | ⟨hw, -⟩
    · have hid : (w.procs d).id ≠ (w.procs c).id := fun heq =>
        hdc (h.apart d c hd (by rw [hpc]; rfl) heq)
      simpa [State.registerWaiter, AList.lookup_insert_ne hid] using hvac
    · rw [lookup_removeWaiter, hvac]
      simp
    · rw [hw]
      exact hvac

theorem Owned.call (h : Owned w) {c : CallId} {m' : State} {p' : Proc} {b : Branch}
    (ha : HandsOutFresh w (.call c b)) (hs : CallStep w.mem c (w.procs c) m' p') :
    Owned ({ w with mem := m', book := w.book.ofCall w.mem c (w.procs c) }.setProc c p') := by
  refine ⟨?_, ?_, fun d hd => h.call_vacant ha hs hd, fun id x hx => h.call_waiter hs hx,
    fun d hd => h.call_clear ha hs hd⟩
  · intro d hd
    rw [setProc_book, ofCall_calls]
    by_cases hdc : d = c
    · subst hdc
      exact h.known d hs.link.2
    · rw [setProc_procs, Function.update_of_ne hdc] at hd
      exact h.known d hd
  · intro d e hd he hid
    rw [setProc_procs] at hd he hid
    by_cases hdc : d = c
    · by_cases hec : e = c
      · rw [hdc, hec]
      · subst hdc
        rw [Function.update_self] at hd hid
        rw [Function.update_of_ne hec] at he hid
        exact absurd hid (h.call_apart ha hs hd hec he)
    · rw [Function.update_of_ne hdc] at hd hid
      by_cases hec : e = c
      · subst hec
        rw [Function.update_self] at he hid
        exact absurd hid.symm (h.call_apart ha hs he hdc hd)
      · rw [Function.update_of_ne hec] at he hid
        exact h.apart d e hd he hid

theorem Owned.signal (h : Owned w) {id j : UInt16} {got : AckClass} {res : AckResult} {x : Waiter}
    (hx : (w.mem.signalWaiter id got res).waiters.lookup j = some x) :
    w.mem.waiters.lookup j = some x ∧
      (w.mem.signalWaiter id got res).inbox x.ch = w.mem.inbox x.ch := by
  rw [lookup_signalWaiter] at hx
  split at hx
  · cases hx
  · rename_i hne
    refine ⟨hx, ?_⟩
    by_cases hj : j = id
    · -- The waiter is of another class, and nothing is delivered.
      subst hj
      unfold State.signalWaiter
      rw [hx]
      have hg : x.want ≠ got := fun hg => hne ⟨rfl, by rw [hx, Option.map_some, hg]⟩
      simp [hg]
    · refine inbox_signalWaiter _ _ ?_
      intro y hy heq
      have hxid := (h.waiter j x hx).2.1
      have hyid := (h.waiter id y hy).2.1
      rw [heq] at hyid
      exact hj (hxid.symm.trans hyid)

end steps

theorem owned_step {w w' : World} {a : Act} (h : Owned w) (ha : HandsOutFresh w a)
    (hs : step w a = some w') : Owned w' := by
  cases steps hs with
  | start hpc _ =>
    refine h.start hpc ?_
    dsimp only
    split <;> rfl
  | call hcall => exact h.call ha (callStep_spec hcall)
  | receive | connect => exact h.congr rfl rfl (fun _ _ hx => ⟨hx, rfl⟩) fun _ hid => hid
  | @read _ m' _ hread =>
    refine h.congr rfl (ofRead_calls _ _ _ _) ?_ fun id hid => readStep_publish hread hid
    rcases readStep_waiters hread with ⟨id, got, res, -, rfl⟩ | ⟨hw, hbox⟩
    · exact fun j x hx => h.signal hx
    · intro j x hx
      have hx : m'.waiters.lookup j = some x := hx
      rw [hw] at hx
      exact ⟨hx, congrFun hbox x.ch⟩
  | @teardown _ m' _ _ _ htear =>
    obtain ⟨hst, hw⟩ := tearStep_waiters htear
    refine h.congr rfl rfl ?_ ?_
    · intro j x hx
      have hx : m'.waiters.lookup j = some x := hx
      rcases hw with ⟨-, hw⟩ | ⟨hw, hbox⟩
      · rw [hw] at hx
        cases hx
      · rw [hw] at hx
        exact ⟨hx, congrFun hbox x.ch⟩
    · intro id hid
      have : m'.store.contains id .publish = false := by rw [hst]; exact hid
      exact this
  | @conn m' _ hconn =>
    obtain ⟨hw, hbox, hst⟩ := connStep_waiters hconn
    refine h.congr (spawn_procs w) (ofConn_calls _ _ _) ?_ ?_
    · intro j x hx
      have hx : m'.waiters.lookup j = some x := hx
      rw [hw] at hx
      exact ⟨hx, congrFun hbox x.ch⟩
    · intro id hid
      have : m'.store.contains id .publish = false := by
        rcases hst with hst | hst
        · rw [hst]
          exact hid
        · rw [hst]
          exact MemStore.contains_reset _ _ _
      exact this

theorem owned_of_run {cfg : TCPConfig} {as : List Act} {w : World}
    (h : Run step HandsOutFresh (init cfg) as w) : Owned w :=
  h.invariant (owned_init cfg) fun _ _ _ hi ha hs => owned_step hi ha hs

/-! ## How a waiter leaves the table -/

/-- The ways out: an acknowledgement of the waiter's class under its identifier, the
teardown that fails every waiter, and the call's own `removeWaiter`. -/
inductive Resolves (w : World) (id : UInt16) (x : Waiter) : Act → Prop
  | signalled {l : LinkId} {res : AckResult} (h : w.readers l = .signal id x.want res) :
      Resolves w id x (.read l)
  | failed {l : LinkId} (h : w.tears l = .checked) : Resolves w id x (.teardown l)
  | withdrawn {b : Branch} (h : (w.procs x.ch).pc = .unregister ∨ (w.procs x.ch).pc = .leave) :
      Resolves w id x (.call x.ch b)

/-- A registered waiter goes only by one of the three ways, and a call that saves its
PUBLISH takes nothing out of the store. -/
theorem waiter_leaves_by_its_own {cfg : TCPConfig} {as : List Act} {w w' : World} {a : Act}
    (h : Run step HandsOutFresh (init cfg) as w) (hs : step w a = some w') :
    (∀ id x, w.mem.waiters.lookup id = some x → w'.mem.waiters.lookup id ≠ some x →
      Resolves w id x a) ∧
    (∀ c b, a = .call c b → (w.procs c).pc = .save →
      ∀ m ∈ w.mem.store.all, m ∈ w'.mem.store.all) := by
  have hinv := owned_of_run h
  refine ⟨?_, ?_⟩
  · intro id x hx hgone
    cases steps hs with
    | start | receive | connect => exact absurd hx hgone
    | @call c _ m' _ hcall =>
      have hgone : m'.waiters.lookup id ≠ some x := hgone
      rcases (callStep_spec hcall).waiters with ⟨hpc, -, rfl⟩ | ⟨hpc, -, rfl⟩ | ⟨hw, -⟩
      · -- A registration is under an identifier that nothing is registered under.
        have hne : id ≠ (w.procs c).id := by
          intro heq
          rw [heq, hinv.vacant c (by rw [hpc]; rfl)] at hx
          cases hx
        simp only [State.registerWaiter, AList.lookup_insert_ne hne] at hgone
        exact absurd hx hgone
      · rw [lookup_removeWaiter] at hgone
        split at hgone
        · rename_i hown
          obtain ⟨hid', hch⟩ := hown
          rw [← hid', hx] at hch
          cases Option.some.inj hch
          exact .withdrawn hpc
        · exact absurd hx hgone
      · rw [hw] at hgone
        exact absurd hx hgone
    | @read _ m' _ hread =>
      have hgone : m'.waiters.lookup id ≠ some x := hgone
      rcases readStep_waiters hread with ⟨j, got, res, hpc, rfl⟩ | ⟨hw, -⟩
      · rw [lookup_signalWaiter] at hgone
        split at hgone
        · rename_i hsig
          obtain ⟨hid', hwant⟩ := hsig
          rw [← hid', hx] at hwant
          cases Option.some.inj hwant
          rw [← hid'] at hpc
          exact .signalled hpc
        · exact absurd hx hgone
      · rw [hw] at hgone
        exact absurd hx hgone
    | @teardown _ m' _ _ _ htear =>
      have hgone : m'.waiters.lookup id ≠ some x := hgone
      rcases (tearStep_waiters htear).2 with ⟨hpc, -⟩ | ⟨hw, -⟩
      · exact .failed hpc
      · rw [hw] at hgone
        exact absurd hx hgone
    | @conn m' _ hconn =>
      have hgone : m'.waiters.lookup id ≠ some x := hgone
      rw [(connStep_waiters hconn).1] at hgone
      exact absurd hx hgone
  · intro c b hcb hpc m hm
    subst hcb
    obtain ⟨⟨m', p'⟩, hcall, rfl⟩ := Option.map_eq_some_iff.mp hs
    have hclear := hinv.clear c hpc
    have hall : m ∈ m'.store.all := by
      rcases (callStep_spec hcall).store with ⟨pkt, -, hpkt, hst⟩ | ⟨hpc', -⟩ | ⟨hpc', -⟩
      · rw [← (packet_id hpkt).1] at hclear
        rw [hst, MemStore.all_save_of_absent hclear]
        exact List.mem_append_left _ hm
      · rw [hpc] at hpc'
        cases hpc'
      · exact absurd hpc hpc'
    exact hall

/-- A publish fails in its write while the session is discarded, and the next session
hands its identifier to another one. Then it takes out its waiter, which is no longer
there, and the other one is acknowledged. -/
def reissued : List Act :=
  connecting false ++ publishing (.api 0) 0 1 4 ++ [.call (.api 0) .broken] ++ tearing 0 ++
    connecting false ++ publishing (.api 1) 1 1 5 ++ List.replicate 3 (.call (.api 0) .go) ++
    receiving 1 (.puback firstAck) 5

/-- The waiter of the second call has outlived the `removeWaiter` of the first, and
leaves by its own acknowledgement. -/
theorem waiter_leaves_by_its_own_reissued : ∃ w w',
    exec step (init durable) reissued = some w ∧ (w.procs (.api 0)).id = 1 ∧
    (w.procs (.api 0)).pc = .done ∧ step w (.read 1) = some w' ∧
    w.mem.waiters.lookup 1 = some ⟨.api 1, .publish⟩ ∧ w'.mem.waiters.lookup 1 = none ∧
    Resolves w 1 ⟨.api 1, .publish⟩ (.read 1) := by
  have hview : (execOk step HandsOutFresh (init durable) reissued).bind (fun w =>
      (step w (.read 1)).map fun w' => (((w.procs (.api 0)).id, (w.procs (.api 0)).pc),
        (w.mem.waiters.lookup 1, w'.mem.waiters.lookup 1))) =
      some ((1, .done), (some ⟨.api 1, .publish⟩, none)) := by decide +kernel
  obtain ⟨w, hw, hview⟩ := Option.bind_eq_some_iff.mp hview
  obtain ⟨w', hw', hview⟩ := Option.map_eq_some_iff.mp hview
  simp only [Prod.mk.injEq] at hview
  obtain ⟨⟨hid, hpc⟩, hbefore, hafter⟩ := hview
  have hr := Run.of_execOk hw
  exact ⟨w, w', run_iff_exec.mp hr.any, hid, hpc, hw', hbefore, hafter,
    (waiter_leaves_by_its_own hr hw').1 1 _ hbefore (by rw [hafter]; simp)⟩

/-- A publish stalls with its identifier while the session is discarded, and the next
session hands the identifier to another one. -/
def stalled : List Act :=
  connecting false ++ publishing (.api 0) 0 1 2 ++ tearing 0 ++ connecting false ++
    publishing (.api 1) 1 1 5

/-- It goes on, and puts its PUBLISH and its waiter in the place of the other's. -/
theorem waiter_overwritten : ∃ w w', exec step (init durable) stalled = some w ∧
    w.mem.waiters.lookup 1 = some ⟨.api 1, .publish⟩ ∧ w.book.savedBy 1 = .api 1 ∧
    exec step w [.call (.api 0) .go, .call (.api 0) .go] = some w' ∧
    w'.mem.waiters.lookup 1 = some ⟨.api 0, .publish⟩ ∧ w'.book.savedBy 1 = .api 0 := by
  have hview : (exec step (init durable) stalled).bind (fun w =>
      (exec step w [.call (.api 0) .go, .call (.api 0) .go]).map fun w' =>
        ((w.mem.waiters.lookup 1, w.book.savedBy 1),
          (w'.mem.waiters.lookup 1, w'.book.savedBy 1))) =
      some ((some ⟨.api 1, .publish⟩, .api 1), (some ⟨.api 0, .publish⟩, .api 0)) := by
    decide +kernel
  obtain ⟨w, hw, hview⟩ := Option.bind_eq_some_iff.mp hview
  obtain ⟨w', hw', hview⟩ := Option.map_eq_some_iff.mp hview
  simp only [Prod.mk.injEq] at hview
  exact ⟨w, w', hw, hview.1.1, hview.1.2, hw', hview.2.1, hview.2.2⟩

end GoMqtt.Concurrent
