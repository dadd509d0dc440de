import GoMqtt.Lib.Stamp
import GoMqtt.Protocol.Packet

/-! # The session store

`MemStore` is the in-memory `SessionStore`: a map keyed by packet identifier
and kind, and a counter that stamps each new key. The structure carries what
every operation keeps: an entry sits under its own key, no stamp is above the
counter, and no two entries share a stamp. The rest of the development never
looks at the map; it uses how `all` and `lookup` move under each operation. -/
namespace GoMqtt.Session
open GoMqtt.Protocol GoMqtt.Lib

/-- The three QoS>0 artefacts kept across a reconnect. -/
inductive StoredKind
  | publish
  | pubrel
  | inboundID
  deriving DecidableEq, Repr

/-- An outbound kind holds a send permit; the receiver-side one does not. -/
def StoredKind.outbound : StoredKind → Bool
  | .publish | .pubrel => true
  | .inboundID => false

structure StoredMessage where
  publish : Option PublishPacket := none
  seq : Nat := 0
  id : UInt16
  kind : StoredKind
  deriving DecidableEq, Repr

structure StoreKey where
  id : UInt16
  kind : StoredKind
  deriving DecidableEq, Repr

def StoredMessage.key (m : StoredMessage) : StoreKey := ⟨m.id, m.kind⟩

/-- `memStore`. A Go map is an association list read out in no fixed order. -/
structure MemStore where
  msgs : AList fun _ : StoreKey => StoredMessage
  seq : Nat
  keyed : ∀ e ∈ msgs.entries, e.2.key = e.1
  stamped : ∀ e ∈ msgs.entries, e.2.seq ≤ seq
  distinct : (msgs.entries.map fun e => e.2.seq).Nodup

namespace MemStore

def empty : MemStore := ⟨∅, 0, by simp, by simp, by simp⟩

def lookup (s : MemStore) (id : UInt16) (kind : StoredKind) : Option StoredMessage :=
  s.msgs.lookup ⟨id, kind⟩

theorem mem_entries {s : MemStore} {k : StoreKey} {m : StoredMessage} :
    ⟨k, m⟩ ∈ s.msgs.entries ↔ s.msgs.lookup k = some m :=
  (List.mem_dlookup_iff s.msgs.nodupKeys).symm

theorem insert_entry {s : MemStore} {k : StoreKey} {m : StoredMessage} {e}
    (he : e ∈ (s.msgs.insert k m).entries) : e = ⟨k, m⟩ ∨ e ∈ s.msgs.entries ∧ e.1 ≠ k := by
  rw [AList.entries_insert, List.mem_cons, kerase_eq_filter k s.msgs.nodupKeys] at he
  simpa using he

theorem erase_entries (s : MemStore) (k : StoreKey) :
    (s.msgs.erase k).entries = s.msgs.entries.filter fun e => e.1 ≠ k :=
  kerase_eq_filter k s.msgs.nodupKeys

/-- Entries outside `k`, restamped by one more entry under `k`. -/
theorem insert_distinct {s : MemStore} {k : StoreKey} {m : StoredMessage}
    (h : ∀ e ∈ s.msgs.entries, e.1 ≠ k → e.2.seq ≠ m.seq) :
    ((s.msgs.insert k m).entries.map fun e => e.2.seq).Nodup := by
  rw [AList.entries_insert, kerase_eq_filter k s.msgs.nodupKeys]
  refine List.nodup_cons.mpr ⟨?_, (List.filter_sublist.map _).nodup s.distinct⟩
  intro hm
  obtain ⟨e, he, heq⟩ := List.mem_map.mp hm
  obtain ⟨hmem, hne⟩ := List.mem_filter.mp he
  exact h e hmem (by simpa using hne) heq

/-- A new key gets the next stamp. -/
def insertNew (s : MemStore) (m : StoredMessage) : MemStore where
  msgs := s.msgs.insert m.key { m with seq := s.seq + 1 }
  seq := s.seq + 1
  keyed e he := by
    rcases insert_entry he with rfl | ⟨he, _⟩
    · rfl
    · exact s.keyed e he
  stamped e he := by
    rcases insert_entry he with rfl | ⟨he, _⟩
    · exact Nat.le_refl _
    · exact Nat.le_succ_of_le (s.stamped e he)
  distinct := insert_distinct fun e he _ heq =>
    absurd (s.stamped e he) (by simp only [heq]; omega)

/-- A known key keeps the stamp it has. -/
def replace (s : MemStore) (m prev : StoredMessage)
    (hprev : s.msgs.lookup m.key = some prev) : MemStore where
  msgs := s.msgs.insert m.key { m with seq := prev.seq }
  seq := s.seq
  keyed e he := by
    rcases insert_entry he with rfl | ⟨he, _⟩
    · rfl
    · exact s.keyed e he
  stamped e he := by
    rcases insert_entry he with rfl | ⟨he, _⟩
    · exact s.stamped ⟨m.key, prev⟩ (mem_entries.mpr hprev)
    · exact s.stamped e he
  distinct := insert_distinct fun e he hne heq => hne (congrArg Sigma.fst
    (List.inj_on_of_nodup_map s.distinct he (mem_entries.mpr hprev) heq))

/-- `Save`: a new key takes the next sequence number, a known one keeps its own. -/
def save (s : MemStore) (m : StoredMessage) : MemStore :=
  match h : s.msgs.lookup m.key with
  | some prev => s.replace m prev h
  | none => s.insertNew m

/-- `Delete`: an absent key is a no-op. -/
def delete (s : MemStore) (id : UInt16) (kind : StoredKind) : MemStore where
  msgs := s.msgs.erase ⟨id, kind⟩
  seq := s.seq
  keyed e he := s.keyed e (List.mem_filter.mp (s.erase_entries _ ▸ he)).1
  stamped e he := s.stamped e (List.mem_filter.mp (s.erase_entries _ ▸ he)).1
  distinct := by
    rw [erase_entries]
    exact (List.filter_sublist.map _).nodup s.distinct

def contains (s : MemStore) (id : UInt16) (kind : StoredKind) : Bool := (s.lookup id kind).isSome

/-- The map's values, in the map's order. -/
def values (s : MemStore) : List StoredMessage := s.msgs.entries.map Sigma.snd

/-- `All`: every entry, by ascending sequence number. -/
def all (s : MemStore) : List StoredMessage := byStamp StoredMessage.seq s.values

/-- `Reset`. -/
def reset (_ : MemStore) : MemStore := empty

/-! ## How `lookup` moves -/

@[simp] theorem lookup_empty (id : UInt16) (kind : StoredKind) : empty.lookup id kind = none := rfl

@[simp] theorem lookup_reset (s : MemStore) (id : UInt16) (kind : StoredKind) :
    s.reset.lookup id kind = none := rfl

/-- The sequence number `Save` gives a message. -/
def stampFor (s : MemStore) (m : StoredMessage) : Nat :=
  match s.lookup m.id m.kind with
  | some prev => prev.seq
  | none => s.seq + 1

theorem save_msgs (s : MemStore) (m : StoredMessage) :
    (s.save m).msgs = s.msgs.insert m.key { m with seq := s.stampFor m } := by
  unfold save stampFor lookup
  split
  · rename_i prev h
    simp only [StoredMessage.key] at h
    simp [replace, h]
  · rename_i h
    simp only [StoredMessage.key] at h
    simp [insertNew, h]

theorem lookup_save (s : MemStore) (m : StoredMessage) (id : UInt16) (kind : StoredKind) :
    (s.save m).lookup id kind =
      if id = m.id ∧ kind = m.kind then some { m with seq := s.stampFor m }
      else s.lookup id kind := by
  simp only [lookup, save_msgs]
  split
  · rename_i h
    obtain ⟨rfl, rfl⟩ := h
    exact AList.lookup_insert _
  · rename_i h
    exact AList.lookup_insert_ne fun hk => h ⟨congrArg StoreKey.id hk, congrArg StoreKey.kind hk⟩

theorem lookup_delete (s : MemStore) (id' : UInt16) (kind' : StoredKind) (id : UInt16)
    (kind : StoredKind) :
    (s.delete id' kind').lookup id kind =
      if id = id' ∧ kind = kind' then none else s.lookup id kind := by
  simp only [lookup, delete]
  split
  · rename_i h
    obtain ⟨rfl, rfl⟩ := h
    exact AList.lookup_erase _ _
  · rename_i h
    exact AList.lookup_erase_ne fun hk => h ⟨congrArg StoreKey.id hk, congrArg StoreKey.kind hk⟩

theorem contains_iff {s : MemStore} {id : UInt16} {kind : StoredKind} :
    s.contains id kind = true ↔ ∃ m, s.lookup id kind = some m := Option.isSome_iff_exists

theorem contains_eq_false {s : MemStore} {id : UInt16} {kind : StoredKind} :
    s.contains id kind = false ↔ s.lookup id kind = none := Option.isSome_eq_false_iff.trans
  Option.isNone_iff_eq_none

@[simp] theorem contains_empty (id : UInt16) (kind : StoredKind) :
    empty.contains id kind = false := rfl

@[simp] theorem contains_reset (s : MemStore) (id : UInt16) (kind : StoredKind) :
    s.reset.contains id kind = false := rfl

@[simp, grind =] theorem contains_save (s : MemStore) (m : StoredMessage) (id : UInt16)
    (kind : StoredKind) :
    (s.save m).contains id kind = (decide (id = m.id ∧ kind = m.kind) || s.contains id kind) := by
  unfold contains
  rw [lookup_save]
  by_cases h : id = m.id ∧ kind = m.kind <;> simp [h]

@[simp, grind =] theorem contains_delete (s : MemStore) (id' : UInt16) (kind' : StoredKind)
    (id : UInt16) (kind : StoredKind) :
    (s.delete id' kind').contains id kind =
      (!decide (id = id' ∧ kind = kind') && s.contains id kind) := by
  unfold contains
  rw [lookup_delete]
  by_cases h : id = id' ∧ kind = kind' <;> simp [h]

theorem key_of_lookup {s : MemStore} {id : UInt16} {kind : StoredKind} {m : StoredMessage}
    (h : s.lookup id kind = some m) : m.id = id ∧ m.kind = kind := by
  have hk : m.key = ⟨id, kind⟩ := s.keyed ⟨⟨id, kind⟩, m⟩ (mem_entries.mpr h)
  exact ⟨congrArg StoreKey.id hk, congrArg StoreKey.kind hk⟩

/-! ## How `all` moves -/

theorem values_distinct (s : MemStore) : (s.values.map StoredMessage.seq).Nodup := by
  simpa [values, List.map_map, Function.comp_def] using s.distinct

theorem mem_all {s : MemStore} {m : StoredMessage} :
    m ∈ s.all ↔ s.lookup m.id m.kind = some m := by
  unfold all values
  rw [mem_byStamp, List.mem_map]
  constructor
  · rintro ⟨⟨k, m'⟩, he, rfl⟩
    have hk : m'.key = k := s.keyed _ he
    subst hk
    exact mem_entries.mp he
  · intro h
    exact ⟨⟨m.key, m⟩, mem_entries.mpr h, rfl⟩

theorem all_sorted (s : MemStore) : s.all.Pairwise fun a b => a.seq < b.seq := by
  have hle : s.all.Pairwise fun a b => a.seq ≤ b.seq := byStamp_sorted s.values
  have hne : s.all.Pairwise fun a b => a.seq ≠ b.seq :=
    List.pairwise_map.mp (((byStamp_perm s.values).map _).nodup_iff.mpr s.values_distinct)
  exact (hle.and hne).imp fun ⟨h, hn⟩ => Nat.lt_of_le_of_ne h hn

/-- Two entries under one key are the same entry. -/
theorem all_inj {s : MemStore} {a b : StoredMessage} (ha : a ∈ s.all) (hb : b ∈ s.all)
    (hid : a.id = b.id) (hkind : a.kind = b.kind) : a = b := by
  have ha := mem_all.mp ha
  have hb := mem_all.mp hb
  rw [hid, hkind, hb] at ha
  exact (Option.some.inj ha).symm

@[simp] theorem all_empty : empty.all = [] := rfl

@[simp] theorem all_reset (s : MemStore) : s.reset.all = [] := rfl

theorem save_of_absent {s : MemStore} {m : StoredMessage} (h : s.contains m.id m.kind = false) :
    s.save m = s.insertNew m := by
  have hnone : s.msgs.lookup m.key = none := contains_eq_false.mp h
  unfold save
  split
  · rename_i hs; rw [hnone] at hs; cases hs
  · rfl

/-- A message saved under a new key is listed last. -/
theorem all_save_of_absent {s : MemStore} {m : StoredMessage}
    (h : s.contains m.id m.kind = false) :
    (s.save m).all = s.all ++ [{ m with seq := s.seq + 1 }] := by
  have hnone : s.msgs.lookup m.key = none := contains_eq_false.mp h
  rw [save_of_absent h]
  unfold all values insertNew
  rw [AList.entries_insert_of_notMem (AList.lookup_eq_none.mp hnone)]
  refine byStamp_cons_max ?_ s.values_distinct
  intro y hy
  obtain ⟨e, he, rfl⟩ := List.mem_map.mp hy
  exact Nat.lt_succ_of_le (s.stamped e he)

/-- A message saved under a known key takes the place of the one it replaces. -/
theorem all_save_of_present {s : MemStore} {m prev : StoredMessage}
    (h : s.lookup m.id m.kind = some prev) :
    (s.save m).all =
      s.all.map fun e => if e.id = m.id ∧ e.kind = m.kind then { m with seq := e.seq } else e := by
  let f : StoredMessage → StoredMessage := fun e =>
    if e.id = m.id ∧ e.kind = m.kind then { m with seq := e.seq } else e
  have hseq : ∀ e, (f e).seq = e.seq := by intro e; simp only [f]; split <;> rfl
  obtain ⟨hid, hkind⟩ := key_of_lookup h
  have hprev : f prev = { m with seq := s.stampFor m } := by simp [f, hid, hkind, stampFor, h]
  have hperm : (s.save m).values.Perm (s.values.map f) := by
    unfold values
    rw [save_msgs, AList.entries_insert]
    refine ((perm_cons_kerase s.msgs.nodupKeys (mem_entries.mpr h)).map Sigma.snd).map f
      |>.trans ?_ |>.symm
    rw [List.map_cons, List.map_cons, List.map_cons, hprev]
    refine List.Perm.cons _ (List.Perm.of_eq ?_)
    rw [List.map_map]
    refine List.map_congr_left ?_
    intro e he
    rw [kerase_eq_filter _ s.msgs.nodupKeys, List.mem_filter] at he
    have hk : e.2.key = e.1 := s.keyed e he.1
    have hne : ¬(e.2.id = m.id ∧ e.2.kind = m.kind) := by
      rintro ⟨h₁, h₂⟩
      exact absurd hk.symm (by simpa [StoredMessage.key, h₁, h₂] using he.2)
    simp [f, hne]
  unfold all
  rw [byStamp_congr hperm (s.save m).values_distinct, byStamp_map hseq s.values_distinct]

/-- A deleted message drops out and nothing else moves. -/
theorem all_delete (s : MemStore) (id : UInt16) (kind : StoredKind) :
    (s.delete id kind).all = s.all.filter fun m => !decide (m.id = id ∧ m.kind = kind) := by
  have hvalues : (s.delete id kind).values =
      s.values.filter fun m => !decide (m.id = id ∧ m.kind = kind) := by
    unfold values delete
    rw [erase_entries, List.filter_map]
    congr 1
    refine List.filter_congr ?_
    intro e he
    have hk : e.2.key = e.1 := s.keyed e he
    rw [← hk]
    simp [StoredMessage.key, StoreKey.mk.injEq]
  unfold all
  rw [hvalues, byStamp_filter _ s.values_distinct]

end MemStore
end GoMqtt.Session
