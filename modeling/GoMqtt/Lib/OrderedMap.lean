import Mathlib.Data.List.Nodup

/-! # Maps that remember when a key was inserted

Keys with values in the order the keys came in. A key that is put again keeps its
place, one that was removed in between goes to the end. -/
namespace GoMqtt.Lib

variable {κ ν : Type*} [DecidableEq κ]

/-- Distinct keys with their values, the oldest first. -/
structure OrderedMap (κ ν : Type*) where
  entries : List (κ × ν)
  nodup : (entries.map Prod.fst).Nodup

namespace OrderedMap

def empty : OrderedMap κ ν := ⟨[], List.nodup_nil⟩

def keys (m : OrderedMap κ ν) : List κ := m.entries.map Prod.fst

/-- A new value for a key that is there. -/
def update (m : OrderedMap κ ν) (k : κ) (v : ν) : OrderedMap κ ν where
  entries := m.entries.map fun e => if e.1 = k then (k, v) else e
  nodup := by
    have hkeys : (m.entries.map fun e => if e.1 = k then (k, v) else e).map Prod.fst =
        m.entries.map Prod.fst := by
      rw [List.map_map]
      refine List.map_congr_left ?_
      intro e _
      simp only [Function.comp_apply]
      split
      · rename_i h
        exact h.symm
      · rfl
    rw [hkeys]
    exact m.nodup

/-- A key that is not there, put last. -/
def append (m : OrderedMap κ ν) (k : κ) (v : ν) (h : k ∉ m.keys) : OrderedMap κ ν where
  entries := m.entries ++ [(k, v)]
  nodup := by
    rw [List.map_append, List.map_singleton, List.nodup_append]
    refine ⟨m.nodup, List.nodup_singleton _, ?_⟩
    intro a ha b hb hab
    obtain rfl := List.mem_singleton.mp hb
    exact h (hab ▸ ha)

def put (m : OrderedMap κ ν) (k : κ) (v : ν) : OrderedMap κ ν :=
  if h : k ∈ m.keys then m.update k v else m.append k v h

def remove (m : OrderedMap κ ν) (k : κ) : OrderedMap κ ν where
  entries := m.entries.filter fun e => e.1 ≠ k
  nodup := (List.filter_sublist.map _).nodup m.nodup

theorem put_of_mem {m : OrderedMap κ ν} {k : κ} (h : k ∈ m.keys) (v : ν) :
    (m.put k v).entries = m.entries.map fun e => if e.1 = k then (k, v) else e := by
  unfold put
  rw [dif_pos h]
  rfl

theorem put_of_notMem {m : OrderedMap κ ν} {k : κ} (h : k ∉ m.keys) (v : ν) :
    (m.put k v).entries = m.entries ++ [(k, v)] := by
  unfold put
  rw [dif_neg h]
  rfl

theorem entries_remove (m : OrderedMap κ ν) (k : κ) :
    (m.remove k).entries = m.entries.filter fun e => e.1 ≠ k := rfl

end OrderedMap
end GoMqtt.Lib
