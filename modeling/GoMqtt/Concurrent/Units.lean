import GoMqtt.Concurrent.Waiters

/-! # Entry, identifier and permit of a publish

The three things a publish takes are meant to be one unit, and they are taken and
given back in separate critical sections, by the call itself and by the read loop.
The permit and the identifier are in someone's custody all the time: the call's until
its PUBLISH is saved, the stored entry's from then on, and in the end of whoever takes
the entry out, the cleanup of a failed write or the read loop that ends the exchange.
Where everyone who takes an entry out finds it there, custody passes on and is never
in two hands, whichever links, generations and read loops are left over from before. -/
namespace GoMqtt.Concurrent
open GoMqtt.Protocol GoMqtt.Session GoMqtt.Client GoMqtt.Lib

/-! ## What a call has -/

/-- An exchange is stored under the identifier, in either leg. -/
def Stored (store : MemStore) (id : UInt16) : Prop :=
  store.contains id .publish = true ∨ store.contains id .pubrel = true

instance (store : MemStore) (id : UInt16) : Decidable (Stored store id) :=
  inferInstanceAs (Decidable (_ ∨ _))

namespace World

variable (w : World) (c : CallId) (l : LinkId)

/-- The entry under the call's identifier is its own. -/
def Own : Prop := Stored w.mem.store (w.procs c).id ∧ w.book.savedBy (w.procs c).id = c

instance : Decidable (w.Own c) := inferInstanceAs (Decidable (_ ∧ _))

/-- The call's identifier is in use, and by this call. -/
def Hold : Prop := w.mem.ids.inUse (w.procs c).id = true ∧ w.book.heldBy (w.procs c).id = c

/-- The call's exchange holds a permit of the current generation. -/
def Charged : Prop := c ∈ w.book.charged

/-- The last count had the call's entry. -/
def Counted : Prop := c ∈ w.book.counted

/-- The permit was granted under the current generation. -/
def Cur : Prop := (w.procs c).quotaGen = w.mem.quota.gen

/-- What the read loop of `l` gives back still counts, as a permit or as an
identifier. -/
def Acts : Prop :=
  (w.mem.links l).quotaGen = w.mem.quota.gen ∨ (w.mem.links l).idGen = w.mem.ids.gen

instance : Decidable (w.Acts l) := inferInstanceAs (Decidable (_ ∨ _))

end World

/-! ## Custody -/

/-- A call past its save and not cleaning up. -/
def CallPc.kept : CallPc → Bool
  | .register | .write | .tearing | .unregister | .checkGen | .wait | .leave | .done => true
  | _ => false

/-- A call without an identifier. -/
def CallPc.early : CallPc → Bool
  | .idle | .acquire | .acquireId => true
  | _ => false

/-- A publish past its save that has not taken its entry out. -/
def Proc.saved (p : Proc) : Bool := p.job.isPublish && (p.pc.kept || p.pc = .drop)

/-- The call itself is to give its permit back: it has not saved yet, or has taken its
entry out again. -/
def Proc.owesPermit (p : Proc) : Bool :=
  match p.pc with
  | .giveBack | .save | .freePermit => true
  | .acquireId | .freeId => p.job.isPublish
  | _ => false

/-- The call itself is to free its identifier. A request does so in the end; a publish
has not saved yet, or has taken its entry out again. -/
def Proc.owesId (p : Proc) : Bool :=
  match p.pc with
  | .save | .freeId => true
  | .register | .write | .tearing | .unregister | .wait | .leave => !p.job.isPublish
  | _ => false

/-- The call's permit of the current generation is still to be given back. -/
def World.Due (w : World) (c : CallId) : Prop :=
  ((w.procs c).owesPermit = true ∧ w.Cur c) ∨ w.Own c ∨
    ∃ l, (w.readers l).closing = true ∧ w.book.closing l = c ∧
      (w.mem.links l).quotaGen = w.mem.quota.gen

/-- The call's identifier of the current generation is still to be freed. -/
def World.Keeps (w : World) (c : CallId) : Prop :=
  ((w.procs c).owesId = true ∧ (w.procs c).idGen = w.mem.ids.gen) ∨ w.Own c ∨
    ∃ l id res, w.readers l = .ackFreeId id res ∧ w.book.closing l = c ∧
      (w.mem.links l).idGen = w.mem.ids.gen

theorem saved_iff {p : Proc} :
    p.saved = true ↔ p.job.isPublish = true ∧ (p.pc.kept = true ∨ p.pc = .drop) := by
  simp [Proc.saved]

/-- A call whose entry is stored owes nothing itself. -/
theorem owes_of_saved {p : Proc} (h : p.saved = true) :
    p.owesPermit = false ∧ p.owesId = false ∧ p.pc.early = false := by
  obtain ⟨hj, hk | hd⟩ := saved_iff.mp h
  · unfold Proc.owesPermit Proc.owesId
    cases hpc : p.pc <;> simp_all [CallPc.kept, CallPc.early]
  · simp [Proc.owesPermit, Proc.owesId, CallPc.early, hd]

/-! ## The discipline -/

/-- A discarded session has lost its entries and not its identifiers, or what is in
flight is counted and the quota not reset for it. -/
def ConnPc.halfway : ConnPc → Bool
  | .idsReset .. | .quotaReset .. => true
  | _ => false

/-- A PUBLISH is saved while its permit and its identifier are of the current
generations and no `Connect` is half way through its resets. -/
def World.SavesInTime (w : World) (c : CallId) : Prop :=
  (w.procs c).pc = .save → (w.procs c).quotaGen = w.mem.quota.gen ∧
    (w.procs c).idGen = w.mem.ids.gen ∧ w.conn.halfway = false

instance (w : World) (c : CallId) : Decidable (w.SavesInTime c) :=
  inferInstanceAs (Decidable (_ → _))

/-- The PUBLISH that the cleanup of a failed write takes out is still the call's own,
and no PUBREL has been put in its place. -/
def World.DropsOwn (w : World) (c : CallId) : Prop :=
  (w.procs c).pc = .drop →
    w.Own c ∧ w.mem.store.contains (w.procs c).id .pubrel = false

instance (w : World) (c : CallId) : Decidable (w.DropsOwn c) :=
  inferInstanceAs (Decidable (_ → _))

/-- The entry that an acknowledgement takes out is still there, in one leg, unless what
the read loop gives back for it counts for nothing; and a PUBREL takes the place of an
exchange that is still there. -/
def World.Finds (w : World) (l : LinkId) : ReadPc → Prop
  | .ackDelete id kind _ =>
      w.Acts l → w.mem.store.contains id kind = true ∧ ¬ Twin w.mem.store id
  | .recSave id => Stored w.mem.store id
  | _ => True

instance (store : MemStore) (id : UInt16) : Decidable (Twin store id) :=
  inferInstanceAs (Decidable (_ ∧ _))

instance (w : World) (l : LinkId) (pc : ReadPc) : Decidable (w.Finds l pc) :=
  match pc with
  | .ackDelete id kind _ => inferInstanceAs (Decidable
      (w.Acts l → w.mem.store.contains id kind = true ∧ ¬ Twin w.mem.store id))
  | .recSave id => inferInstanceAs (Decidable (Stored w.mem.store id))
  | .off | .reading | .checkStop _ | .ackContains .. | .ackFreeId .. | .ackFreePermit ..
  | .recContains _ | .recDelete _ | .inContains _ | .inDispatch _ | .inSave _ | .relContains _
  | .relDelete _ | .signal .. | .exited => .isTrue trivial

/-- Saves come in time, and who takes an entry out finds it. -/
def Settles (w : World) : Act → Prop
  | .call c _ => w.SavesInTime c ∧ w.DropsOwn c
  | .read l => w.Finds l (w.readers l)
  | _ => True

instance (w : World) (a : Act) : Decidable (Settles w a) :=
  match a with
  | .call c _ => inferInstanceAs (Decidable (w.SavesInTime c ∧ w.DropsOwn c))
  | .read l => inferInstanceAs (Decidable (w.Finds l (w.readers l)))
  | .start .. | .receive .. | .teardown _ | .connect _ | .conn => .isTrue trivial

/-! ## The invariant -/

/-- What holds of the read loop of a link. An exchange it is ending is out of the
store, and its call has nothing to give back. -/
structure ReaderOk (w : World) (l : LinkId) : Prop where
  outbound : ∀ id kind res, w.readers l = .ackContains id kind res ∨
    w.readers l = .ackDelete id kind res → kind.outbound = true
  closes : (w.readers l).closing = true → w.Acts l →
    (w.procs (w.book.closing l)).saved = true ∧ ¬ w.Own (w.book.closing l)
  target : ∀ id res, w.readers l = .ackFreeId id res →
    (w.mem.links l).idGen = w.mem.ids.gen → (w.procs (w.book.closing l)).id = id

/-- No permit and no identifier is in two hands, and what was given back is in none. -/
structure Units (w : World) : Prop where
  linked : Linked w
  blank : ∀ c, (w.procs c).pc.early = true → (w.procs c).id = 0
  entry : ∀ id, Stored w.mem.store id →
    (w.procs (w.book.savedBy id)).id = id ∧ (w.procs (w.book.savedBy id)).saved = true
  held : ∀ id, w.mem.ids.inUse id = true → id ≠ 0 ∧ (w.procs (w.book.heldBy id)).id = id ∧
    (w.procs (w.book.heldBy id)).idGen = w.mem.ids.gen
  gens : ∀ c, (w.procs c).quotaGen ≤ w.mem.quota.gen ∧ (w.procs c).idGen ≤ w.mem.ids.gen
  links : ∀ l, (w.mem.links l).quotaGen ≤ w.mem.quota.gen ∧
    (w.mem.links l).idGen ≤ w.mem.ids.gen
  reader : ∀ l, ReaderOk w l
  apart : ∀ l k, (w.readers l).closing = true → (w.readers k).closing = true → w.Acts l →
    w.Acts k → w.book.closing l = w.book.closing k → l = k
  due : ∀ c, w.Due c → w.Charged c ∧ (c, w.mem.quota.gen) ∉ w.book.credits
  keeps : ∀ c, w.Keeps c → w.Hold c ∧ c ∉ w.book.frees
  emptied : ∀ l r, w.conn = .idsReset l r → ∀ id, ¬ Stored w.mem.store id
  counting : ∀ l r n, w.conn = .quotaReset l r n →
    (∀ c, w.Own c → w.Counted c) ∧ w.book.counted.length = n
  balance : w.mem.quota.avail + w.book.charged.length = w.book.ceiling
  credits : w.book.credits.Nodup ∧ ∀ e ∈ w.book.credits, e.2 ≤ w.mem.quota.gen ∧
    (w.procs e.1).pc ≠ .idle ∧ (w.procs e.1).pc ≠ .acquire
  frees : w.book.frees.Nodup ∧ ∀ c ∈ w.book.frees, (w.procs c).pc.early = false

theorem units_init (cfg : TCPConfig) : Units (init cfg) where
  linked := linked_init cfg
  blank c _ := rfl
  entry id h := by rcases h with h | h <;> cases h
  held id h := by cases (IdAllocator.inUse_init id).symm.trans h
  gens c := ⟨Nat.le_refl _, Nat.le_refl _⟩
  links l := ⟨Nat.le_refl _, Nat.le_refl _⟩
  reader l := by
    refine ⟨?_, ?_, ?_⟩
    · rintro id kind res (h | h) <;> cases h
    · intro h
      cases h
    · intro id res h
      cases h
  apart l k h := by cases h
  due c h := by
    rcases h with ⟨h, -⟩ | ⟨h | h, -⟩ | ⟨l, h, -⟩ <;> cases h
  keeps c h := by
    rcases h with ⟨h, -⟩ | ⟨h | h, -⟩ | ⟨l, id, res, h, -⟩ <;> cases h
  emptied l r h := by cases h
  counting l r n h := by cases h
  balance := rfl
  credits := ⟨List.nodup_nil, fun e he => absurd he List.not_mem_nil⟩
  frees := ⟨List.nodup_nil, fun c hc => absurd hc List.not_mem_nil⟩

/-! ## Who has what -/

section facts

variable {w : World} {c : CallId} {l : LinkId} {id : UInt16}

theorem stored_of_outbound {store : MemStore} {kind : StoredKind} (hk : kind.outbound = true)
    (hc : store.contains id kind = true) : Stored store id := by
  cases kind with
  | publish => exact .inl hc
  | pubrel => exact .inr hc
  | inboundID => cases hk

/-- Without its twin, an entry is the whole of its exchange. -/
theorem stored_delete_only {store : MemStore} {kind : StoredKind} (hk : kind.outbound = true)
    (hc : store.contains id kind = true) (ht : ¬ Twin store id) :
    ¬ Stored (store.delete id kind) id := by
  unfold Twin at ht
  cases kind with
  | publish => simp_all [Stored]
  | pubrel => simp_all [Stored]
  | inboundID => cases hk

theorem Stored.of_delete {store : MemStore} {j : UInt16} {kind : StoredKind}
    (h : Stored (store.delete j kind) id) : Stored store id := by
  simp only [Stored, MemStore.contains_delete, Bool.and_eq_true] at h
  exact h.imp And.right And.right

theorem Units.own_savedBy (h : Units w) (hs : Stored w.mem.store id) :
    w.Own (w.book.savedBy id) := by
  have hid := (h.entry id hs).1
  exact ⟨by rw [hid]; exact hs, by rw [hid]⟩

theorem Units.saved_of_own (h : Units w) (ho : w.Own c) : (w.procs c).saved = true := by
  have := (h.entry _ ho.1).2
  rwa [ho.2] at this

/-- A call that owes its permit, or its identifier, is the only one to have it. -/
theorem Units.not_saved (h : Units w) (hp : (w.procs c).saved = false) :
    ¬ w.Own c ∧ ∀ l, (w.readers l).closing = true → w.Acts l → w.book.closing l ≠ c := by
  refine ⟨fun ho => ?_, fun l hl ha hc => ?_⟩
  · rw [h.saved_of_own ho] at hp
    cases hp
  · have := ((h.reader l).closes hl ha).1
    rw [hc, hp] at this
    cases this

end facts

end GoMqtt.Concurrent
