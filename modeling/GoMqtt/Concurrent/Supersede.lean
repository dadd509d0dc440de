import GoMqtt.Concurrent.StaleReader

/-! # The PUBREL that takes the place of a PUBLISH

`handlePubrec` saves the PUBREL and then deletes the PUBLISH. In between the store
holds both, and a `Connect` that resumes the session reads it there twice: once to
count the exchanges in flight, once to send them again. Where no other goroutine uses
the store in between, as if the two were one critical section, each of them finds one
leg of every exchange. -/
namespace GoMqtt.Concurrent
open GoMqtt.Protocol GoMqtt.Session GoMqtt.Client GoMqtt.Lib

/-- The outbound entries are of different exchanges. -/
def OneLeg (store : MemStore) : Prop :=
  ((store.all.filter fun m => m.kind.outbound).map StoredMessage.id).Nodup

/-- Both legs of one exchange are stored. -/
def Twin (store : MemStore) (id : UInt16) : Prop :=
  store.contains id .publish = true ∧ store.contains id .pubrel = true

theorem contains_of_mem {store : MemStore} {m : StoredMessage} (h : m ∈ store.all) :
    store.contains m.id m.kind = true :=
  MemStore.contains_iff.mpr ⟨m, MemStore.mem_all.mp h⟩

theorem oneLeg_of_no_twin {store : MemStore} (h : ∀ id, ¬ Twin store id) : OneLeg store := by
  have hall : store.all.Nodup := store.all_sorted.imp fun hlt heq => by
    subst heq
    exact absurd hlt (Nat.lt_irrefl _)
  refine (hall.filter _).map_on ?_
  intro a ha b hb hid
  obtain ⟨ha, hka⟩ := List.mem_filter.mp ha
  obtain ⟨hb, hkb⟩ := List.mem_filter.mp hb
  have hca := contains_of_mem ha
  have hcb := contains_of_mem hb
  rw [hid] at hca
  cases hk : a.kind with
  | inboundID =>
    rw [hk] at hka
    cases hka
  | publish =>
    cases hk' : b.kind with
    | inboundID =>
      rw [hk'] at hkb
      cases hkb
    | publish => exact MemStore.all_inj ha hb hid (hk.trans hk'.symm)
    | pubrel =>
      rw [hk] at hca
      rw [hk'] at hcb
      exact absurd ⟨hca, hcb⟩ (h b.id)
  | pubrel =>
    cases hk' : b.kind with
    | inboundID =>
      rw [hk'] at hkb
      cases hkb
    | pubrel => exact MemStore.all_inj ha hb hid (hk.trans hk'.symm)
    | publish =>
      rw [hk] at hca
      rw [hk'] at hcb
      exact absurd ⟨hcb, hca⟩ (h b.id)

/-! ## The discipline -/

/-- No PUBLISH is saved under an identifier whose PUBREL is stored. -/
def SavesApart (w : World) : Act → Prop
  | .call c _ => (w.procs c).pc = .save → w.mem.store.contains (w.procs c).id .pubrel = false
  | _ => True

instance (w : World) (a : Act) : Decidable (SavesApart w a) :=
  match a with
  | .call c _ => inferInstanceAs (Decidable
      ((w.procs c).pc = .save → w.mem.store.contains (w.procs c).id .pubrel = false))
  | .start .. | .receive .. | .read _ | .teardown _ | .connect _ | .conn => .isTrue trivial

/-- The next critical section works on the store. -/
def ReadPc.usesStore : ReadPc → Bool
  | .ackContains .. | .ackDelete .. | .recContains _ | .recSave _ | .recDelete _ | .inContains _
  | .inSave _ | .relContains _ | .relDelete _ => true
  | _ => false

/-- `Connect` empties the store, counts what is in flight in it and loads the replay. -/
def ConnPc.usesStore : ConnPc → Bool
  | .storeReset .. | .count .. | .load .. => true
  | _ => false

def World.usesStore (w : World) : Act → Bool
  | .call c _ => (w.procs c).pc = .save || (w.procs c).pc = .drop
  | .read l => (w.readers l).usesStore
  | .conn => w.conn.usesStore
  | _ => false

/-- The PUBREL is saved, and the PUBLISH not deleted yet. -/
def ReadPc.superseding : ReadPc → Bool
  | .recDelete _ => true
  | _ => false

/-- Between the save of a PUBREL and the deletion of the PUBLISH no one else uses the
store. -/
def Undivided (w : World) (a : Act) : Prop :=
  ∀ l < w.mem.nextLink, (w.readers l).superseding = true → w.usesStore a = true → a = .read l

instance (w : World) (a : Act) : Decidable (Undivided w a) :=
  inferInstanceAs (Decidable (∀ l < w.mem.nextLink,
    (w.readers l).superseding = true → w.usesStore a = true → a = .read l))

/-- The two legs change places undivided, and a PUBLISH keeps clear of PUBRELs. -/
def Supersedes (w : World) (a : Act) : Prop := Undivided w a ∧ SavesApart w a

instance (w : World) (a : Act) : Decidable (Supersedes w a) :=
  inferInstanceAs (Decidable (Undivided w a ∧ SavesApart w a))

/-- Both legs are stored only while a read loop is on its way from the one to the
other. -/
structure Superseding (w : World) : Prop where
  linked : Linked w
  twin : ∀ id, Twin w.mem.store id → ∃ l, w.readers l = .recDelete id

theorem superseding_init (cfg : TCPConfig) : Superseding (init cfg) where
  linked := linked_init cfg
  twin id h := by cases h.1

/-! ## Every step keeps it -/

section steps

variable {w : World} {id : UInt16}

theorem Twin.of_delete {store : MemStore} {id' : UInt16} {kind : StoredKind}
    (h : Twin (store.delete id' kind) id) : Twin store id := by
  simp only [Twin, MemStore.contains_delete, Bool.and_eq_true] at h
  exact ⟨h.1.2, h.2.2⟩

/-- A message that is neither leg makes no twin. -/
theorem Twin.of_save_inbound {store : MemStore} {id' : UInt16}
    (h : Twin (store.save { id := id', kind := .inboundID }) id) : Twin store id := by
  simpa [Twin] using h

/-- A step of a call saves a PUBLISH, deletes one, or leaves the store. -/
theorem CallStep.store {m m' : State} {c : CallId} {p p' : Proc} (h : CallStep m c p m' p') :
    (∃ pkt, p.pc = .save ∧ p.packet? = some pkt ∧ m'.store = m.store.save (storedPublish pkt)) ∨
    (p.pc = .drop ∧ m'.store = m.store.delete p.id .publish) ∨
    (p.pc ≠ .save ∧ p.pc ≠ .drop ∧ m'.store = m.store) := by
  cases h with
  | save hpc hpkt => exact .inl ⟨_, hpc, hpkt, rfl⟩
  | drop hpc => exact .inr (.inl ⟨hpc, rfl⟩)
  | unregister hpc | leave hpc =>
    refine .inr (.inr ⟨by simp [hpc], by simp [hpc], ?_⟩)
    rw [removeWaiter_eq]
  | granted hpc | turnedAway hpc | exhausted hpc | acquired hpc | giveBack hpc | register hpc
  | written hpc | refused hpc | broken hpc | torn hpc | owned hpc | adopted hpc | freeId hpc
  | freePermit hpc | collect hpc | giveUp hpc =>
    exact .inr (.inr ⟨by simp [hpc], by simp [hpc], rfl⟩)

theorem packet_id {p : Proc} {pkt : PublishPacket} (h : p.packet? = some pkt) :
    pkt.packetID = p.id ∧ p.job.isPublish = true := by
  unfold Proc.packet? at h
  split at h
  · rename_i hjob
    cases h
    exact ⟨rfl, by rw [hjob]; rfl⟩
  · cases h

theorem twin_of_call {m m' : State} {c : CallId} {p p' : Proc} (h : CallStep m c p m' p')
    (hok : p.pc = .save → m.store.contains p.id .pubrel = false) (ht : Twin m'.store id) :
    Twin m.store id := by
  rcases h.store with ⟨pkt, hpc, hpkt, hst⟩ | ⟨-, hst⟩ | ⟨-, -, hst⟩
  · rw [hst] at ht
    have hfree := hok hpc
    rw [← (packet_id hpkt).1] at hfree
    simp only [Twin, MemStore.contains_save, storedPublish_id, storedPublish_kind, and_true,
      reduceCtorEq, and_false, decide_false, Bool.false_or, Bool.or_eq_true,
      decide_eq_true_eq] at ht
    refine ⟨ht.1.resolve_left ?_, ht.2⟩
    rintro rfl
    rw [hfree] at ht
    cases ht.2
  · rw [hst] at ht
    exact ht.of_delete
  · rw [hst] at ht
    exact ht

/-- What a read loop leaves as a twin was one before, or is its own doing. -/
theorem twin_of_read {m m' : State} {l : LinkId} {pc pc' : ReadPc}
    (h : readStep m l pc = some (m', pc')) (ht : Twin m'.store id) :
    (pc' = .recDelete id ∨ Twin m.store id) ∧ pc ≠ .recDelete id := by
  cases pc with
  | off | reading | exited => cases h
  | recSave id' =>
    cases h
    refine ⟨?_, by simp⟩
    by_cases hid : id = id'
    · exact .inl (by rw [hid])
    · exact .inr (by simpa [Twin, hid] using ht)
  | recDelete id' =>
    cases h
    refine ⟨.inr ht.of_delete, ?_⟩
    intro heq
    cases heq
    simp [Twin] at ht
  | ackDelete | relDelete =>
    cases h
    exact ⟨.inr ht.of_delete, by simp⟩
  | inSave id' =>
    cases h
    exact ⟨.inr ht.of_save_inbound, by simp⟩
  | signal id' got res =>
    cases h
    rw [signalWaiter_eq] at ht
    exact ⟨.inr ht, by simp⟩
  | _ =>
    cases h
    exact ⟨.inr ht, by simp⟩

/-- `Connect` empties the store or leaves it. -/
theorem twin_of_conn {m m' : State} {pc pc' : ConnPc} (h : connStep m pc = some (m', pc'))
    (ht : Twin m'.store id) : Twin m.store id := by
  cases pc with
  | idle => cases h
  | storeReset l r =>
    cases h
    simp [Twin] at ht
  | resub l r msgs =>
    simp only [connStep] at h
    split at h <;> cases h <;> exact ht
  | _ =>
    cases h
    exact ht

end steps

/-- A read loop in a frame is not the one that a Connect starts. -/
theorem spawn_superseding {w : World} (h : Linked w) {l : LinkId} {id : UInt16}
    (hl : w.readers l = .recDelete id) : w.spawn.readers l = .recDelete id := by
  unfold World.spawn
  split
  · rename_i k r msgs hc
    split
    · exact hl
    · have hne : l ≠ k := by
        rintro rfl
        have hoff := (h.fresh l (by rw [hc]; rfl)).2.2
        rw [hl] at hoff
        cases hoff
      simpa [hne] using hl
  · exact hl

theorem superseding_step {w w' : World} {a : Act} (h : Superseding w) (ha : SavesApart w a)
    (hs : step w a = some w') : Superseding w' := by
  refine ⟨linked_step h.linked hs, ?_⟩
  intro id ht
  cases steps hs with
  | start | connect => exact h.twin id ht
  | call hcall => exact h.twin id (twin_of_call (callStep_spec hcall) ha ht)
  | @receive l _ hpc =>
    obtain ⟨k, hk⟩ := h.twin id ht
    have hne : k ≠ l := by
      rintro rfl
      rw [hpc] at hk
      cases hk
    exact ⟨k, by simpa [hne] using hk⟩
  | @read l _ _ hread =>
    obtain ⟨hnew | hold, hpc⟩ := twin_of_read hread ht
    · exact ⟨l, by simp [hnew]⟩
    · -- The read loop that is at it is another one, which this step leaves alone.
      obtain ⟨k, hk⟩ := h.twin id hold
      have hne : k ≠ l := by
        rintro rfl
        exact hpc hk
      exact ⟨k, by simpa [hne] using hk⟩
  | @teardown l m' _ _ _ htear =>
    have hst : m'.store = w.mem.store := by
      cases hp : w.tears l with
      | closed => rw [hp] at htear; cases htear
      | _ => rw [hp] at htear; cases htear; rfl
    have ht : Twin m'.store id := ht
    rw [hst] at ht
    exact h.twin id ht
  | conn hconn =>
    obtain ⟨k, hk⟩ := h.twin id (twin_of_conn hconn ht)
    exact ⟨k, spawn_superseding h.linked hk⟩

/-! ## What the others find in the store -/

/-- Whoever uses the store, the read loop at its own deletion apart, finds no exchange
in it twice: the count of a `Connect`, its replay, and every other operation. -/
theorem store_used_with_one_leg {cfg : TCPConfig} {as : List Act} {w : World} {a : Act}
    (h : Run step Supersedes (init cfg) as w) (ha : Supersedes w a) (hu : w.usesStore a = true)
    (ho : ∀ l id, w.readers l = .recDelete id → a ≠ .read l) : OneLeg w.mem.store := by
  have hinv : Superseding w := h.invariant (superseding_init cfg)
    fun _ _ _ hi ha hs => superseding_step hi ha.2 hs
  refine oneLeg_of_no_twin ?_
  intro id ht
  obtain ⟨l, hl⟩ := hinv.twin id ht
  have hlt : l < w.mem.nextLink := by
    by_contra hge
    have hoff := (hinv.linked.unknown l (Nat.le_of_not_lt hge)).1
    rw [hl] at hoff
    cases hoff
  exact ho l id hl (ha.1 l hlt (by rw [hl]; rfl) hu)

/-- A PUBREC is handled, while another publish takes its permit and the link goes down,
before the session is resumed up to the count. -/
def supersededInTime : List Act :=
  connecting false ++ publishing (.api 0) 0 2 5 ++ receiving 0 (.pubrec firstAck) 3 ++
    publishing (.api 1) 0 2 2 ++ [.teardown 0, .read 0] ++ List.replicate 4 (.teardown 0) ++
    [.connect (negotiated 5 true)]

theorem store_used_with_one_leg_in_time : ∃ w,
    exec step (init durable) supersededInTime = some w ∧ w.usesStore .conn = true ∧
    State.inflightPermits w.mem.store = 1 ∧ OneLeg w.mem.store := by
  have hview : (execOk step Supersedes (init durable) supersededInTime).map (fun w =>
      (w.usesStore .conn, State.inflightPermits w.mem.store, decide (Supersedes w .conn))) =
      some (true, 1, true) := by decide +kernel
  obtain ⟨w, hw, hview⟩ := Option.map_eq_some_iff.mp hview
  simp only [Prod.mk.injEq, decide_eq_true_eq] at hview
  obtain ⟨huse, hcount, hok⟩ := hview
  have hr := Run.of_execOk hw
  exact ⟨w, run_iff_exec.mp hr.any, huse, hcount,
    store_used_with_one_leg hr hok huse fun _ _ _ => Act.noConfusion⟩

/-- What `replaySession` sends. -/
def ConnPc.replay : ConnPc → List StoredMessage
  | .resub _ _ replay => replay
  | _ => []

/-- The link goes down between the save and the delete, and the session is resumed
up to the replay. -/
def caughtBetween : List Act :=
  connecting false ++ publishing (.api 0) 0 2 5 ++ receiving 0 (.pubrec firstAck) 3 ++
    tearing 0 ++ .connect (negotiated 5 true) :: List.replicate 4 .conn

/-- One exchange takes two permits, and both its PUBLISH and its PUBREL are sent. -/
theorem exchange_counted_twice : ∃ w, exec step (init durable) caughtBetween = some w ∧
    w.mem.quota.avail = 3 ∧
    w.conn.replay.map (fun m => (m.id, m.kind)) = [(1, .publish), (1, .pubrel)] := by
  have hview : (exec step (init durable) caughtBetween).map (fun w =>
      (w.mem.quota.avail, w.conn.replay.map fun m => (m.id, m.kind))) =
      some (3, [(1, .publish), (1, .pubrel)]) := by decide +kernel
  obtain ⟨w, hw, hview⟩ := Option.map_eq_some_iff.mp hview
  rw [Prod.mk.injEq] at hview
  exact ⟨w, hw, hview.1, hview.2⟩

end GoMqtt.Concurrent
