import Mathlib.Data.List.Sort
import GoMqtt.Client.Connect
import GoMqtt.Lib.Run

/-! # Send order and replay order

Any number of QoS>0 publishes on one link, interleaved at the store and the
socket. A publish saves its PUBLISH under the store's lock, which gives the entry
its sequence number, and later writes it under the link's send lock; nothing ties
the two. The read loop deletes entries as acknowledgements come in. When the
session is resumed, the stored PUBLISHes are sent again by sequence number. -/
namespace GoMqtt.Concurrent.SendOrder
open GoMqtt.Protocol GoMqtt.Session GoMqtt.Client GoMqtt.Lib

/-- Where a publish stands. Between its save and its write it knows the sequence
number its entry was given. -/
inductive Phase
  | idle
  | saved (seq : Nat) (p : PublishPacket)
  | failed (p : PublishPacket)
  | returned
  deriving DecidableEq, Repr

/-- The store, the calls, and the PUBLISH frames written on the link, each with
the sequence number of its entry, in the order they were written. -/
structure World where
  store : MemStore
  calls : Nat → Phase
  wire : List (Nat × PublishPacket)

inductive Act
  | save (c : Nat) (p : PublishPacket)
  | write (c : Nat) (ok : Bool)
  | rollback (c : Nat)
  | supersede (id : UInt16)
  | delete (id : UInt16) (kind : StoredKind)
  deriving DecidableEq, Repr

/-- The stored PUBLISHes, in the order of `All`. -/
def published (store : MemStore) : List (Nat × PublishPacket) :=
  store.all.filterMap fun m => if m.kind = .publish then m.publish.map (m.seq, ·) else none

/-- A link just established: what was stored has been replayed on it. -/
def start (store : MemStore) : World := ⟨store, fun _ => .idle, published store⟩

def World.setCall (w : World) (c : Nat) (k : Phase) : World :=
  { w with calls := Function.update w.calls c k }

/-- One critical section. A publish saves and writes, and deletes its entry if the
write failed; the read loop saves the PUBREL that supersedes a PUBLISH, and
deletes what an acknowledgement has ended. -/
def step (w : World) : Act → Option World
  | .save c p =>
    match w.calls c with
    | .idle =>
      some ({ w with store := w.store.save (storedPublish p) }.setCall c
        (.saved (w.store.stampFor (storedPublish p)) p))
    | _ => none
  | .write c ok =>
    match w.calls c with
    | .saved seq p =>
      if ok then some ({ w with wire := w.wire ++ [(seq, p)] }.setCall c .returned)
      else some (w.setCall c (.failed p))
    | _ => none
  | .rollback c =>
    match w.calls c with
    | .failed p =>
      some ({ w with store := w.store.delete p.packetID .publish }.setCall c .returned)
    | _ => none
  | .supersede id => some { w with store := w.store.save { id, kind := .pubrel } }
  | .delete id kind => some { w with store := w.store.delete id kind }

/-- What is sent again, of what has been sent, comes in the order it was sent. -/
def InWireOrder (w : World) : Prop :=
  (published w.store).filter (· ∈ w.wire) = w.wire.filter (· ∈ published w.store)

/-- A PUBLISH is saved under an identifier no stored PUBLISH has, and written only
when every PUBLISH saved before it and still stored has been written. -/
def InTurn (w : World) : Act → Prop
  | .save _ p => w.store.contains p.packetID .publish = false
  | .write c true =>
    match w.calls c with
    | .saved seq _ => ∀ e ∈ published w.store, e.1 < seq → e ∈ w.wire
    | _ => True
  | _ => True

instance (w : World) (a : Act) : Decidable (InTurn w a) := by
  unfold InTurn
  split
  · infer_instance
  · split <;> infer_instance
  · infer_instance

/-! ## How the stored PUBLISHes move -/

theorem seq_le {store : MemStore} {m : StoredMessage} (h : m ∈ store.all) : m.seq ≤ store.seq :=
  store.stamped ⟨⟨m.id, m.kind⟩, m⟩ (MemStore.mem_entries.mpr (MemStore.mem_all.mp h))

theorem mem_published {store : MemStore} {e : Nat × PublishPacket} :
    e ∈ published store ↔
      ∃ m ∈ store.all, m.kind = .publish ∧ m.seq = e.1 ∧ m.publish = some e.2 := by
  unfold published
  rw [List.mem_filterMap]
  refine exists_congr fun m => and_congr_right fun _ => ?_
  obtain ⟨n, p⟩ := e
  split
  · rename_i hk
    simp [Option.map_eq_some_iff, hk, and_comm]
  · rename_i hk
    simp [hk]

theorem published_seq_le {store : MemStore} {e : Nat × PublishPacket} (h : e ∈ published store) :
    e.1 ≤ store.seq := by
  obtain ⟨m, hm, -, hseq, -⟩ := mem_published.mp h
  rw [← hseq]
  exact seq_le hm

theorem published_sorted (store : MemStore) :
    (published store).Pairwise fun a b => a.1 < b.1 := by
  refine List.Pairwise.filterMap _ ?_ store.all_sorted
  intro m m' hlt a ha b hb
  have hseq : ∀ {m : StoredMessage} {a : Nat × PublishPacket},
      (if m.kind = .publish then m.publish.map (m.seq, ·) else none) = some a → a.1 = m.seq := by
    intro m a ha
    split at ha
    · obtain ⟨p, -, rfl⟩ := Option.map_eq_some_iff.mp ha
      rfl
    · cases ha
  rw [hseq ha, hseq hb]
  exact hlt

theorem published_save {store : MemStore} {p : PublishPacket}
    (h : store.contains p.packetID .publish = false) :
    published (store.save (storedPublish p)) = published store ++ [(store.seq + 1, p)] := by
  unfold published
  rw [MemStore.all_save_of_absent h, List.filterMap_append]
  rfl

theorem published_delete {store : MemStore} {id : UInt16} {kind : StoredKind} :
    published (store.delete id kind) ⊆ published store := by
  unfold published
  rw [MemStore.all_delete]
  exact (List.filter_sublist.filterMap _).subset

theorem published_supersede (store : MemStore) (id : UInt16) :
    published (store.save { id, kind := .pubrel }) = published store := by
  unfold published
  cases hc : store.contains id .pubrel with
  | false =>
    rw [MemStore.all_save_of_absent hc, List.filterMap_append]
    simp
  | true =>
    obtain ⟨prev, hprev⟩ := MemStore.contains_iff.mp hc
    rw [MemStore.all_save_of_present hprev, List.filterMap_map]
    refine List.filterMap_congr ?_
    intro m _
    simp only [Function.comp_apply]
    split
    · rename_i h
      simp [h.2]
    · rfl

theorem seq_le_save (store : MemStore) (m : StoredMessage) : store.seq ≤ (store.save m).seq := by
  unfold MemStore.save
  split
  · exact le_rfl
  · exact Nat.le_succ _

/-! ## The invariant -/

/-- What has been sent and is stored was sent in order, after everything saved
before it; a publish that has not written is not on the wire, and its sequence
number is its own. -/
structure Inv (w : World) : Prop where
  sorted : (w.wire.filter (· ∈ published w.store)).Pairwise fun a b => a.1 < b.1
  before : ∀ e ∈ published w.store, e ∈ w.wire → ∀ e' ∈ published w.store, e'.1 < e.1 → e' ∈ w.wire
  wire_le : ∀ e ∈ w.wire, e.1 ≤ w.store.seq
  saved : ∀ c seq p, w.calls c = .saved seq p → seq ≤ w.store.seq ∧ ∀ e ∈ w.wire, e.1 ≠ seq
  own : ∀ c d seq p q, w.calls c = .saved seq p → w.calls d = .saved seq q → c = d

/-- Two lists ascending in the sequence number, with the same members. -/
theorem eq_of_ascending {l l' : List (Nat × PublishPacket)} (h : l.Pairwise fun a b => a.1 < b.1)
    (h' : l'.Pairwise fun a b => a.1 < b.1) (hmem : ∀ e, e ∈ l ↔ e ∈ l') : l = l' := by
  have hn : l.Nodup := h.imp fun hlt heq => absurd (congrArg Prod.fst heq) (Nat.ne_of_lt hlt)
  have hn' : l'.Nodup := h'.imp fun hlt heq => absurd (congrArg Prod.fst heq) (Nat.ne_of_lt hlt)
  refine ((List.perm_ext_iff_of_nodup hn hn').mpr hmem).eq_of_pairwise ?_ h h'
  intro a b _ _ hlt hgt
  omega

theorem Inv.inWireOrder {w : World} (h : Inv w) : InWireOrder w := by
  refine eq_of_ascending ((published_sorted w.store).filter _) h.sorted ?_
  intro e
  simp [and_comm]

theorem inv_start (store : MemStore) : Inv (start store) where
  sorted := (published_sorted store).filter _
  before := fun _ _ _ e' he' _ => he'
  wire_le := fun _ he => published_seq_le he
  saved := fun _ _ _ h => by cases h
  own := fun _ _ _ _ _ h => by cases h

theorem setCall_saved {w : World} {c d seq : Nat} {k : Phase} {p : PublishPacket}
    (h : (w.setCall c k).calls d = .saved seq p) :
    d = c ∧ k = .saved seq p ∨ d ≠ c ∧ w.calls d = .saved seq p := by
  simp only [World.setCall, Function.update_apply] at h
  split at h
  · exact .inl ⟨‹_›, h⟩
  · exact .inr ⟨‹_›, h⟩

/-- Fewer stored PUBLISHes, and no further publish between save and write. -/
theorem Inv.shrink {w w' : World} (h : Inv w) (hwire : w'.wire = w.wire)
    (hsub : published w'.store ⊆ published w.store) (hseq : w.store.seq ≤ w'.store.seq)
    (hcalls : ∀ c seq p, w'.calls c = .saved seq p → w.calls c = .saved seq p) : Inv w' where
  sorted := by
    rw [hwire]
    refine h.sorted.sublist (List.monotone_filter_right _ ?_)
    simpa using fun e => @hsub e
  before := by
    rw [hwire]
    exact fun e he hw e' he' hlt => h.before e (hsub he) hw e' (hsub he') hlt
  wire_le := by
    rw [hwire]
    exact fun e he => (h.wire_le e he).trans hseq
  saved := by
    rw [hwire]
    intro c seq p hc
    obtain ⟨hle, hne⟩ := h.saved c seq p (hcalls c seq p hc)
    exact ⟨hle.trans hseq, hne⟩
  own := fun c d seq p q hc hd => h.own c d seq p q (hcalls _ _ _ hc) (hcalls _ _ _ hd)

/-- Saving under an unused identifier puts an entry after all others. -/
theorem Inv.save {w : World} (h : Inv w) {c : Nat} {p : PublishPacket}
    (ha : w.store.contains p.packetID .publish = false) :
    Inv ({ w with store := w.store.save (storedPublish p) }.setCall c
      (.saved (w.store.stampFor (storedPublish p)) p)) := by
  have hlookup : w.store.lookup p.packetID .publish = none := MemStore.contains_eq_false.mp ha
  have hstamp : w.store.stampFor (storedPublish p) = w.store.seq + 1 := by
    simp [MemStore.stampFor, storedPublish, hlookup]
  have hseq : (w.store.save (storedPublish p)).seq = w.store.seq + 1 := by
    rw [MemStore.save_of_absent ha]
    rfl
  have hnew : ∀ e, e ∈ w.wire → e ∈ published (w.store.save (storedPublish p)) →
      e ∈ published w.store := by
    intro e he hp
    rw [published_save ha, List.mem_append, List.mem_singleton] at hp
    rcases hp with hp | rfl
    · exact hp
    · exact absurd (h.wire_le _ he) (by simp)
  rw [hstamp]
  refine ⟨?_, ?_, ?_, ?_, ?_⟩
  · show (w.wire.filter (· ∈ published (w.store.save (storedPublish p)))).Pairwise _
    have hsame : w.wire.filter (· ∈ published (w.store.save (storedPublish p))) =
        w.wire.filter (· ∈ published w.store) := by
      refine List.filter_congr fun e he => decide_eq_decide.mpr ⟨hnew e he, fun hp => ?_⟩
      rw [published_save ha]
      exact List.mem_append_left _ hp
    rw [hsame]
    exact h.sorted
  · intro e he hw e' he' hlt
    have he : e ∈ published w.store := hnew e hw he
    have hle := published_seq_le he
    have he' : e' ∈ published w.store ++ [(w.store.seq + 1, p)] := published_save ha ▸ he'
    rcases List.mem_append.mp he' with he' | he'
    · exact h.before e he hw e' he' hlt
    · obtain rfl := List.mem_singleton.mp he'
      simp at hlt
      omega
  · intro e he
    exact (h.wire_le e he).trans (by simp [World.setCall, hseq])
  · intro d seq q hd
    rcases setCall_saved hd with ⟨-, hk⟩ | ⟨-, hd⟩
    · cases hk
      refine ⟨by simp [World.setCall, hseq], fun e he => ?_⟩
      have := h.wire_le e he
      omega
    · obtain ⟨hle, hne⟩ := h.saved d seq q hd
      exact ⟨by simp only [World.setCall, hseq]; omega, hne⟩
  · intro d d' seq q q' hd hd'
    rcases setCall_saved hd with ⟨hdc, hk⟩ | ⟨-, hold⟩ <;>
      rcases setCall_saved hd' with ⟨hdc', hk'⟩ | ⟨-, hold'⟩
    · rw [hdc, hdc']
    · cases hk
      have := (h.saved _ _ _ hold').1
      omega
    · cases hk'
      have := (h.saved _ _ _ hold).1
      omega
    · exact h.own d d' seq q q' hold hold'

/-- Writing in turn puts the frame after every frame that is still stored. -/
theorem Inv.write {w : World} (h : Inv w) {c seq : Nat} {p : PublishPacket}
    (hc : w.calls c = .saved seq p)
    (ha : ∀ e ∈ published w.store, e.1 < seq → e ∈ w.wire) :
    Inv ({ w with wire := w.wire ++ [(seq, p)] }.setCall c .returned) := by
  obtain ⟨hle, hne⟩ := h.saved c seq p hc
  refine ⟨?_, ?_, ?_, ?_, ?_⟩
  · show ((w.wire ++ [(seq, p)]).filter (· ∈ published w.store)).Pairwise _
    rw [List.filter_append, List.pairwise_append]
    refine ⟨h.sorted, List.Pairwise.filter _ (List.pairwise_singleton _ _), ?_⟩
    intro e he e' he'
    obtain ⟨hw, hp⟩ := List.mem_filter.mp he
    obtain ⟨he', hp'⟩ := List.mem_filter.mp he'
    obtain rfl := List.mem_singleton.mp he'
    have hp : e ∈ published w.store := by simpa using hp
    have hp' : (seq, p) ∈ published w.store := by simpa using hp'
    by_contra hge
    have hlt : seq < e.1 := by
      have := hne e hw
      omega
    exact hne _ (h.before e hp hw _ hp' hlt) rfl
  · intro e he hw e' he' hlt
    refine List.mem_append_left _ ?_
    rcases List.mem_append.mp hw with hw | hw
    · exact h.before e he hw e' he' hlt
    · obtain rfl := List.mem_singleton.mp hw
      exact ha e' he' hlt
  · intro e he
    rcases List.mem_append.mp he with he | he
    · exact h.wire_le e he
    · obtain rfl := List.mem_singleton.mp he
      exact hle
  · intro d seq' q hd
    rcases setCall_saved hd with ⟨-, hk⟩ | ⟨hdc, hd⟩
    · cases hk
    obtain ⟨hle', hne'⟩ := h.saved d seq' q hd
    refine ⟨hle', fun e he => ?_⟩
    rcases List.mem_append.mp he with he | he
    · exact hne' e he
    · obtain rfl := List.mem_singleton.mp he
      rintro rfl
      exact hdc (h.own _ _ _ _ _ hd hc)
  · intro d d' seq' q q' hd hd'
    rcases setCall_saved hd with ⟨-, hk⟩ | ⟨-, hd⟩
    · cases hk
    rcases setCall_saved hd' with ⟨-, hk⟩ | ⟨-, hd'⟩
    · cases hk
    exact h.own d d' seq' q q' hd hd'

theorem inv_step {w w' : World} {a : Act} (h : Inv w) (ha : InTurn w a) (hs : step w a = some w') :
    Inv w' := by
  have hcalls : ∀ {w : World} {c : Nat} {k : Phase}, (∀ seq p, k ≠ .saved seq p) →
      ∀ d seq p, (w.setCall c k).calls d = .saved seq p → w.calls d = .saved seq p := by
    intro w c k hk d seq p hd
    rcases setCall_saved hd with ⟨-, heq⟩ | ⟨-, hd⟩
    · exact absurd heq (hk seq p)
    · exact hd
  cases a with
  | save c p =>
    simp only [step] at hs
    split at hs
    · cases hs
      exact h.save ha
    · cases hs
  | write c ok =>
    simp only [step] at hs
    split at hs
    · rename_i seq p hc
      cases ok with
      | true =>
        cases hs
        simp only [InTurn, hc] at ha
        exact h.write hc ha
      | false =>
        cases hs
        exact h.shrink rfl (List.Subset.refl _) le_rfl (hcalls (by simp))
    · cases hs
  | rollback c =>
    simp only [step] at hs
    split at hs
    · cases hs
      exact h.shrink rfl published_delete le_rfl (hcalls (by simp))
    · cases hs
  | supersede id =>
    cases hs
    refine h.shrink rfl ?_ (seq_le_save _ _) fun _ _ _ hc => hc
    rw [published_supersede]
    exact List.Subset.refl _
  | delete id kind =>
    cases hs
    exact h.shrink rfl published_delete le_rfl fun _ _ _ hc => hc

/-- In every run in which each publish writes in turn, what is sent again after a
reconnect is in the order it was sent. -/
theorem replay_in_wire_order {store : MemStore} {as : List Act} {w : World}
    (h : Run step InTurn (start store) as w) : InWireOrder w :=
  (h.invariant (inv_start store) fun _ _ _ hi ha hs => inv_step hi ha hs).inWireOrder

def message (id : UInt16) : PublishPacket :=
  { version := .v50, topic := [0x61], qos := 1, packetID := id }

/-- Two publishes overlap, the first one is acknowledged, and a third follows. -/
def inTurn : List Act :=
  [.save 0 (message 1), .save 1 (message 2), .write 0 true, .write 1 true, .delete 1 .publish,
   .save 2 (message 3), .write 2 true]

theorem replay_in_wire_order_overlapping : ∃ w, exec step (start .empty) inTurn = some w ∧
    published w.store = [(2, message 2), (3, message 3)] ∧ InWireOrder w := by
  have hpub : (execOk step InTurn (start .empty) inTurn).map (fun w => published w.store) =
      some [(2, message 2), (3, message 3)] := by decide +kernel
  obtain ⟨w, hw, hpub⟩ := Option.map_eq_some_iff.mp hpub
  have hr := Run.of_execOk hw
  exact ⟨w, run_iff_exec.mp hr.any, hpub, replay_in_wire_order hr⟩

/-- The second publish saves after the first and writes before it. -/
def overtaking : List Act :=
  [.save 0 (message 1), .save 1 (message 2), .write 1 true, .write 0 true]

/-- The broker got 2 before 1 and is sent 1 before 2. -/
theorem replayed_out_of_order : ∃ w, exec step (start .empty) overtaking = some w ∧
    w.wire = [(2, message 2), (1, message 1)] ∧
    published w.store = [(1, message 1), (2, message 2)] ∧ ¬ InWireOrder w := by
  have hpub : (exec step (start .empty) overtaking).map (fun w => (w.wire, published w.store)) =
      some ([(2, message 2), (1, message 1)], [(1, message 1), (2, message 2)]) := by
    decide +kernel
  obtain ⟨w, hw, hpub⟩ := Option.map_eq_some_iff.mp hpub
  rw [Prod.mk.injEq] at hpub
  obtain ⟨hwire, hpub⟩ := hpub
  refine ⟨w, hw, hwire, hpub, ?_⟩
  unfold InWireOrder
  rw [hwire, hpub]
  decide

end GoMqtt.Concurrent.SendOrder
