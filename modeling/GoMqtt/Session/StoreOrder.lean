import Mathlib.Algebra.Order.Ring.Nat
import Mathlib.Data.List.Induction
import GoMqtt.Lib.OrderedMap
import GoMqtt.Session.Store

/-! # The store as an ordered map

`memStore` with the counter as wide as the source has it, and what it is for: a map
that remembers the order its keys came in. The order is nowhere kept; `All` recovers
it by sorting on the counter, from a map that is read out in any order. As long as the
counter does not wrap, the store is the `MemStore` the client is modelled with. -/
namespace GoMqtt.Session
open GoMqtt.Protocol GoMqtt.Lib

/-- `memStore`, with its `uint64` counter. -/
structure WordStore where
  msgs : AList fun _ : StoreKey => StoredMessage
  seq : UInt64

namespace WordStore

/-- `newMemStore`. -/
def new : WordStore := ⟨∅, 0⟩

/-- `Save`, whatever sequence number the message comes with. -/
def save (s : WordStore) (m : StoredMessage) : WordStore :=
  match s.msgs.lookup m.key with
  | some prev => { s with msgs := s.msgs.insert m.key { m with seq := prev.seq } }
  | none => ⟨s.msgs.insert m.key { m with seq := (s.seq + 1).toNat }, s.seq + 1⟩

/-- `Delete`. -/
def delete (s : WordStore) (id : UInt16) (kind : StoredKind) : WordStore :=
  { s with msgs := s.msgs.erase ⟨id, kind⟩ }

/-- `Contains`. -/
def contains (s : WordStore) (id : UInt16) (kind : StoredKind) : Bool :=
  (s.msgs.lookup ⟨id, kind⟩).isSome

/-- `All` may return `out`: the map's values in any order, sorted by a sort that need not
be stable. -/
def Lists (s : WordStore) (out : List StoredMessage) : Prop :=
  out.Perm (s.msgs.entries.map Sigma.snd) ∧ out.Pairwise fun a b => a.seq ≤ b.seq

/-- The scan `storeContains` falls back to. -/
def scanAll (out : List StoredMessage) (id : UInt16) (kind : StoredKind) : Bool :=
  out.any fun m => m.id = id ∧ m.kind = kind

end WordStore

/-! ## Operations -/

inductive StoreOp
  | save (m : StoredMessage)
  | delete (id : UInt16) (kind : StoredKind)
  | reset
  deriving DecidableEq, Repr

def WordStore.apply (s : WordStore) : StoreOp → WordStore
  | .save m => s.save m
  | .delete id kind => s.delete id kind
  | .reset => .new

/-- The store after the operations. -/
def WordStore.run (ops : List StoreOp) : WordStore := ops.foldl WordStore.apply .new

def MemStore.apply (s : MemStore) : StoreOp → MemStore
  | .save m => s.save m
  | .delete id kind => s.delete id kind
  | .reset => s.reset

def MemStore.run (ops : List StoreOp) : MemStore := ops.foldl MemStore.apply .empty

/-- What the store is to hold: under each key the content saved last. -/
abbrev Contents := OrderedMap StoreKey (Option PublishPacket)

def Contents.apply (o : Contents) : StoreOp → Contents
  | .save m => o.put m.key m.publish
  | .delete id kind => o.remove ⟨id, kind⟩
  | .reset => OrderedMap.empty

def Contents.run (ops : List StoreOp) : Contents := ops.foldl Contents.apply OrderedMap.empty

/-- How many saves there were since the last reset. -/
def savesSince (ops : List StoreOp) : Nat :=
  ops.foldl (fun n op => match op with
    | .save _ => n + 1
    | .delete .. => n
    | .reset => 0) 0

/-! ## The counter does not wrap -/

/-- The two stores are the same, and the counter has counted at most `n` keys. -/
def SameStore (n : Nat) (w : WordStore) (s : MemStore) : Prop :=
  w.msgs = s.msgs ∧ w.seq.toNat = s.seq ∧ s.seq ≤ n

theorem SameStore.save {n : Nat} {w : WordStore} {s : MemStore} (h : SameStore n w s)
    (hn : n + 1 < 2 ^ 64) (m : StoredMessage) : SameStore (n + 1) (w.save m) (s.save m) := by
  obtain ⟨hmsgs, hseq, hle⟩ := h
  unfold WordStore.save MemStore.save
  rw [hmsgs]
  split
  · rename_i prev hprev
    split
    · rename_i prev' hprev'
      cases hprev.symm.trans hprev'
      exact ⟨rfl, hseq, Nat.le_succ_of_le hle⟩
    · rename_i hnone
      rw [hprev] at hnone
      cases hnone
  · rename_i hnone
    split
    · rename_i hsome
      rw [hnone] at hsome
      cases hsome
    · have hnext : (w.seq + 1).toNat = s.seq + 1 := by
        rw [UInt64.toNat_add, UInt64.toNat_one, hseq]
        omega
      refine ⟨?_, hnext, Nat.succ_le_succ hle⟩
      rw [hnext]
      rfl

theorem SameStore.run {ops : List StoreOp} (h : savesSince ops < 2 ^ 64) :
    SameStore (savesSince ops) (WordStore.run ops) (MemStore.run ops) := by
  induction ops using List.reverseRecOn with
  | nil => exact ⟨rfl, rfl, Nat.le_refl _⟩
  | append_singleton ops op ih =>
    simp only [savesSince, WordStore.run, MemStore.run, List.foldl_append, List.foldl_cons,
      List.foldl_nil] at h ih ⊢
    cases op with
    | save m => exact (ih (Nat.lt_of_succ_lt h)).save h m
    | delete id kind =>
      obtain ⟨hmsgs, hseq, hle⟩ := ih h
      refine ⟨?_, hseq, hle⟩
      simp only [WordStore.apply, WordStore.delete, MemStore.apply, MemStore.delete, hmsgs]
    | reset => exact ⟨rfl, rfl, Nat.le_refl _⟩

/-! ## The order of insertion -/

/-- An entry of `All`, without its sequence number. -/
def StoredMessage.content (m : StoredMessage) : StoreKey × Option PublishPacket := (m.key, m.publish)

/-- `All` lists what the map holds, in the map's order. -/
def Ordered (s : MemStore) (o : Contents) : Prop := s.all.map StoredMessage.content = o.entries

theorem Ordered.mem_keys {s : MemStore} {o : Contents} (h : Ordered s o) {m : StoredMessage} :
    m.key ∈ o.keys ↔ s.contains m.id m.kind = true := by
  unfold OrderedMap.keys
  rw [← h, List.map_map, List.mem_map, MemStore.contains_iff]
  constructor
  · rintro ⟨e, he, hkey⟩
    obtain ⟨hid, hkind⟩ : e.id = m.id ∧ e.kind = m.kind := by
      simpa [StoredMessage.content, StoredMessage.key] using hkey
    rw [← hid, ← hkind]
    exact ⟨e, MemStore.mem_all.mp he⟩
  · rintro ⟨e, he⟩
    obtain ⟨hid, hkind⟩ := MemStore.key_of_lookup he
    rw [← hid, ← hkind] at he
    exact ⟨e, MemStore.mem_all.mpr he, by simp [StoredMessage.content, StoredMessage.key, hid, hkind]⟩

theorem Ordered.save {s : MemStore} {o : Contents} (h : Ordered s o) (m : StoredMessage) :
    Ordered (s.save m) (o.put m.key m.publish) := by
  unfold Ordered
  cases hc : s.contains m.id m.kind with
  | false =>
    have hkey : m.key ∉ o.keys := by
      rw [h.mem_keys, hc]
      simp
    rw [OrderedMap.put_of_notMem hkey, MemStore.all_save_of_absent hc, List.map_append, h]
    rfl
  | true =>
    obtain ⟨prev, hprev⟩ := MemStore.contains_iff.mp hc
    rw [OrderedMap.put_of_mem (h.mem_keys.mpr hc), MemStore.all_save_of_present hprev, ← h,
      List.map_map, List.map_map]
    refine List.map_congr_left ?_
    intro e _
    simp only [Function.comp_apply, StoredMessage.content, StoredMessage.key, StoreKey.mk.injEq]
    split
    · rfl
    · rfl

theorem Ordered.delete {s : MemStore} {o : Contents} (h : Ordered s o) (id : UInt16)
    (kind : StoredKind) : Ordered (s.delete id kind) (o.remove ⟨id, kind⟩) := by
  unfold Ordered
  rw [OrderedMap.entries_remove, MemStore.all_delete, ← h, List.filter_map]
  congr 1
  refine List.filter_congr ?_
  intro e _
  simp [StoredMessage.content, StoredMessage.key]

theorem Ordered.run (ops : List StoreOp) : Ordered (MemStore.run ops) (Contents.run ops) := by
  induction ops using List.reverseRecOn with
  | nil => rfl
  | append_singleton ops op ih =>
    simp only [MemStore.run, Contents.run, List.foldl_append, List.foldl_cons,
      List.foldl_nil] at ih ⊢
    cases op with
    | save m => exact ih.save m
    | delete id kind => exact ih.delete id kind
    | reset => rfl

/-- There is one way to sort what `MemStore` holds. -/
theorem lists_iff {w : WordStore} {s : MemStore} (hmsgs : w.msgs = s.msgs)
    {out : List StoredMessage} : w.Lists out ↔ out = s.all := by
  unfold WordStore.Lists
  rw [hmsgs]
  constructor
  · rintro ⟨hperm, hsorted⟩
    have hnodup : (out.map StoredMessage.seq).Nodup :=
      (hperm.map _).nodup_iff.mpr s.values_distinct
    exact eq_of_perm_of_sorted (hperm.trans (byStamp_perm s.values).symm) hnodup hsorted
      (byStamp_sorted s.values)
  · rintro rfl
    exact ⟨byStamp_perm s.values, byStamp_sorted s.values⟩

/-- After any operations, with fewer than 2^64 saves since the last reset, `All` returns
what an ordered map holds, in its order, with distinct keys and rising sequence numbers,
in whatever order the map was read out; and `Contains` finds what a scan of `All` finds. -/
theorem memStore_refines_orderedMap (ops : List StoreOp) (h : savesSince ops < 2 ^ 64) :
    (∃ out, (WordStore.run ops).Lists out) ∧
    ∀ out, (WordStore.run ops).Lists out →
      out.map StoredMessage.content = (Contents.run ops).entries ∧
      (out.map StoredMessage.key).Nodup ∧ (out.Pairwise fun a b => a.seq < b.seq) ∧
      ∀ id kind, (WordStore.run ops).contains id kind = WordStore.scanAll out id kind := by
  obtain ⟨hmsgs, -, -⟩ := SameStore.run h
  have hordered := Ordered.run ops
  refine ⟨⟨_, (lists_iff hmsgs).mpr rfl⟩, fun out hout => ?_⟩
  obtain rfl := (lists_iff hmsgs).mp hout
  refine ⟨hordered, ?_, MemStore.all_sorted _, fun id kind => ?_⟩
  · have hkeys := (Contents.run ops).nodup
    rwa [← hordered, List.map_map] at hkeys
  · have hsame : (WordStore.run ops).contains id kind = (MemStore.run ops).contains id kind := by
      unfold WordStore.contains MemStore.contains MemStore.lookup
      rw [hmsgs]
    rw [hsame, Bool.eq_iff_iff, MemStore.contains_iff, WordStore.scanAll, List.any_eq_true]
    constructor
    · rintro ⟨m, hm⟩
      obtain ⟨rfl, rfl⟩ := MemStore.key_of_lookup hm
      exact ⟨m, MemStore.mem_all.mpr hm, by simp⟩
    · rintro ⟨m, hm, hkey⟩
      obtain ⟨rfl, rfl⟩ := of_decide_eq_true hkey
      exact ⟨m, MemStore.mem_all.mp hm⟩

/-- The first of two messages is saved again, deleted, and saved once more. -/
def savedAgain : List StoreOp :=
  [.save { id := 1, kind := .pubrel, seq := 9 }, .save { id := 2, kind := .pubrel },
   .save { id := 1, kind := .pubrel }, .delete 1 .pubrel, .save { id := 1, kind := .pubrel }]

theorem memStore_refines_orderedMap_savedAgain :
    ∃ out, (WordStore.run savedAgain).Lists out ∧
      out.map StoredMessage.content = [(⟨2, .pubrel⟩, none), (⟨1, .pubrel⟩, none)] ∧
      (WordStore.run savedAgain).contains 1 .pubrel = WordStore.scanAll out 1 .pubrel := by
  obtain ⟨⟨out, hout⟩, hall⟩ := memStore_refines_orderedMap savedAgain (by decide)
  obtain ⟨hcontent, -, -, hcontains⟩ := hall out hout
  have hspec : (Contents.run savedAgain).entries =
      [(⟨2, .pubrel⟩, none), (⟨1, .pubrel⟩, none)] := by decide
  exact ⟨out, hout, hcontent.trans hspec, hcontains 1 .pubrel⟩

end GoMqtt.Session
