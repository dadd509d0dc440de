import Mathlib.Data.List.Nodup
import GoMqtt.Protocol.Packet

/-! # The subscription table

The registered filters in registration order, with the four operations that
run under `subsMu`. Each registration is stamped with a token, so that an undo
can tell whether its own registration is still the current one. The table
carries that no filter is registered twice. -/
namespace GoMqtt.Client
open GoMqtt.Protocol

/-- A message handler, known by its number. -/
abbrev Handler := Nat

structure Subscription where
  filter : Bytes
  handler : Handler
  options : SubscribeOptions
  token : Nat
  subID : UInt32
  deriving DecidableEq, Repr

/-- Change the entry for `filter`, which the loops of the source find first. -/
def updateFirst (filter : Bytes) (f : Subscription → Subscription) :
    List Subscription → List Subscription
  | [] => []
  | s :: rest => if s.filter = filter then f s :: rest else s :: updateFirst filter f rest

/-- The first entry for `filter`. -/
def findFilter (filter : Bytes) (l : List Subscription) : Option Subscription :=
  l.find? fun s => s.filter = filter

/-- Drop the entry for `filter`. -/
def dropFilter (filter : Bytes) (l : List Subscription) : List Subscription :=
  l.eraseP fun s => s.filter = filter

theorem updateFirst_filters {filter : Bytes} {f : Subscription → Subscription}
    (hf : ∀ s, (f s).filter = s.filter) (l : List Subscription) :
    (updateFirst filter f l).map Subscription.filter = l.map Subscription.filter := by
  induction l with
  | nil => rfl
  | cons s rest ih =>
    simp only [updateFirst]
    split
    · simp [hf]
    · simp [ih]

theorem findFilter_none {filter : Bytes} {l : List Subscription} :
    findFilter filter l = none ↔ filter ∉ l.map Subscription.filter := by
  simp [findFilter, List.find?_eq_none]

theorem findFilter_filter {filter : Bytes} {l : List Subscription} {s : Subscription}
    (h : findFilter filter l = some s) : s.filter = filter := by
  simpa using List.find?_some h

theorem mem_of_findFilter {filter : Bytes} {l : List Subscription} {s : Subscription}
    (h : findFilter filter l = some s) : s ∈ l := List.mem_of_find?_eq_some h

theorem mem_updateFirst {filter : Bytes} {f : Subscription → Subscription} {x : Subscription}
    {l : List Subscription} (h : x ∈ updateFirst filter f l) :
    x ∈ l ∨ ∃ s, findFilter filter l = some s ∧ x = f s := by
  induction l with
  | nil => cases h
  | cons s rest ih =>
    simp only [updateFirst] at h
    split at h
    · rename_i hs
      rcases List.mem_cons.mp h with rfl | h
      · exact .inr ⟨s, by simp [findFilter, hs], rfl⟩
      · exact .inl (List.mem_cons_of_mem _ h)
    · rename_i hs
      rcases List.mem_cons.mp h with rfl | h
      · exact .inl List.mem_cons_self
      · rcases ih h with h | ⟨s', hs', rfl⟩
        · exact .inl (List.mem_cons_of_mem _ h)
        · exact .inr ⟨s', by simpa [findFilter, hs] using hs', rfl⟩

/-- The registration table. -/
structure Subs where
  subs : List Subscription
  subSeq : Nat
  distinct : (subs.map Subscription.filter).Nodup

namespace Subs

def empty : Subs := ⟨[], 0, List.nodup_nil⟩

/-- `snapshotSubscription`. -/
def snapshot (t : Subs) (filter : Bytes) : Option Subscription := findFilter filter t.subs

/-- Overwrite the entry for `filter` in place. -/
def overwrite (t : Subs) (filter : Bytes) (f : Subscription → Subscription)
    (hf : ∀ s, (f s).filter = s.filter) : Subs where
  subs := updateFirst filter f t.subs
  subSeq := t.subSeq
  distinct := by rw [updateFirst_filters hf]; exact t.distinct

/-- Drop the entry for `filter`. -/
def remove (t : Subs) (filter : Bytes) : Subs where
  subs := dropFilter filter t.subs
  subSeq := t.subSeq
  distinct := (List.eraseP_sublist.map _).nodup t.distinct

/-- Register a filter the table does not hold. -/
def append (t : Subs) (s : Subscription) (h : t.snapshot s.filter = none) : Subs where
  subs := t.subs ++ [s]
  subSeq := t.subSeq
  distinct := by
    rw [List.map_append, List.map_singleton]
    exact t.distinct.append (List.nodup_singleton _)
      (List.disjoint_singleton.mpr (findFilter_none.mp h))

def nextToken (t : Subs) : Subs := { t with subSeq := t.subSeq + 1 }

/-- `addSubscription`: register `filter` or replace its entry in place, under a
fresh token. -/
def add (t : Subs) (filter : Bytes) (options : SubscribeOptions) (handler : Handler)
    (subID : UInt32) : Nat × Subs :=
  let t := t.nextToken
  let token := t.subSeq
  match h : t.snapshot filter with
  | some _ =>
    (token, t.overwrite filter (fun s => { s with options, handler, token, subID }) fun _ => rfl)
  | none => (token, t.append ⟨filter, handler, options, token, subID⟩ h)

/-- `restoreSubscription`: undo the registration stamped `token`, unless a later
one has superseded it. Reinstating `prev` writes back its options, handler and
token; the subscription identifier of the entry is left as it stands. -/
def restore (t : Subs) (filter : Bytes) (prev : Option Subscription) (token : Nat) : Subs :=
  match t.snapshot filter with
  | none => t
  | some cur =>
    if cur.token ≠ token then t
    else match prev with
      | some prev => t.overwrite filter
          (fun s => { s with options := prev.options, handler := prev.handler, token := prev.token })
          fun _ => rfl
      | none => t.remove filter

/-- `removeSubscriptionIfCurrent`. -/
def removeIfCurrent (t : Subs) (filter : Bytes) (token : Nat) : Subs :=
  match t.snapshot filter with
  | none => t
  | some cur => if cur.token ≠ token then t else t.remove filter

/-! ## How `snapshot` moves -/

theorem snapshot_overwrite (t : Subs) (filter : Bytes) (f : Subscription → Subscription)
    (hf : ∀ s, (f s).filter = s.filter) :
    (t.overwrite filter f hf).snapshot filter = (t.snapshot filter).map f := by
  have hl : ∀ l, findFilter filter (updateFirst filter f l) = (findFilter filter l).map f := by
    intro l
    induction l with
    | nil => rfl
    | cons s rest ih =>
      simp only [updateFirst]
      split
      · rename_i h; simp [findFilter, hf, h]
      · rename_i h; simpa [findFilter, h] using ih
  exact hl t.subs

theorem snapshot_remove (t : Subs) (filter : Bytes) :
    (t.remove filter).snapshot filter = none := by
  have hl : ∀ l : List Subscription, (l.map Subscription.filter).Nodup →
      filter ∉ (dropFilter filter l).map Subscription.filter := by
    intro l hn
    induction l with
    | nil => simp [dropFilter]
    | cons s rest ih =>
      obtain ⟨hs, hrest⟩ := List.nodup_cons.mp hn
      by_cases h : s.filter = filter
      · subst h
        rw [dropFilter, List.eraseP_cons_of_pos (by simp)]
        exact hs
      · rw [dropFilter, List.eraseP_cons_of_neg (by simpa using h), List.map_cons, List.mem_cons,
          not_or]
        exact ⟨Ne.symm h, ih hrest⟩
  exact findFilter_none.mpr (hl t.subs t.distinct)

theorem snapshot_append (t : Subs) (s : Subscription) (h : t.snapshot s.filter = none) :
    (t.append s h).snapshot s.filter = some s := by
  have hnone : findFilter s.filter t.subs = none := h
  simp only [findFilter] at hnone
  simp [snapshot, append, findFilter, List.find?_append, hnone]

@[simp] theorem snapshot_nextToken (t : Subs) (filter : Bytes) :
    t.nextToken.snapshot filter = t.snapshot filter := rfl

/-- A registration is what the table holds for its filter, under the next token. -/
theorem snapshot_add (t : Subs) (filter : Bytes) (options : SubscribeOptions) (handler : Handler)
    (subID : UInt32) :
    (t.add filter options handler subID).1 = t.subSeq + 1 ∧
    (t.add filter options handler subID).2.subSeq = t.subSeq + 1 ∧
    (t.add filter options handler subID).2.snapshot filter =
      some ⟨filter, handler, options, t.subSeq + 1, subID⟩ := by
  unfold add
  dsimp only
  split
  · rename_i cur h
    refine ⟨rfl, rfl, ?_⟩
    rw [snapshot_overwrite, h]
    simp [findFilter_filter h, nextToken]
  · rename_i h
    exact ⟨rfl, rfl, snapshot_append _ _ h⟩

/-- An undo whose registration is no longer the current one does nothing. -/
theorem restore_superseded {t : Subs} {filter : Bytes} {prev : Option Subscription} {token : Nat}
    (h : ∀ cur, t.snapshot filter = some cur → cur.token ≠ token) :
    t.restore filter prev token = t := by
  unfold restore
  split
  · rfl
  · rename_i cur hc
    rw [if_pos (h cur hc)]

/-- What an undo of the current registration leaves for the filter. -/
theorem snapshot_restore {t : Subs} {filter : Bytes} {prev : Option Subscription} {token : Nat}
    {cur : Subscription} (hc : t.snapshot filter = some cur) (htok : cur.token = token) :
    (t.restore filter prev token).snapshot filter = prev.map fun p =>
      { cur with options := p.options, handler := p.handler, token := p.token } := by
  unfold restore
  rw [hc]
  dsimp only
  rw [if_neg (by simpa using htok)]
  cases prev with
  | some p => dsimp only; rw [snapshot_overwrite, hc]; rfl
  | none => dsimp only; rw [snapshot_remove]; rfl

theorem subSeq_restore (t : Subs) (filter : Bytes) (prev : Option Subscription) (token : Nat) :
    (t.restore filter prev token).subSeq = t.subSeq := by
  unfold restore
  split
  · rfl
  · split
    · rfl
    · split <;> rfl

theorem removeIfCurrent_superseded {t : Subs} {filter : Bytes} {token : Nat}
    (h : ∀ cur, t.snapshot filter = some cur → cur.token ≠ token) :
    t.removeIfCurrent filter token = t := by
  unfold removeIfCurrent
  split
  · rfl
  · rename_i cur hc
    rw [if_pos (h cur hc)]

theorem snapshot_removeIfCurrent {t : Subs} {filter : Bytes} {token : Nat} {cur : Subscription}
    (hc : t.snapshot filter = some cur) (htok : cur.token = token) :
    (t.removeIfCurrent filter token).snapshot filter = none := by
  unfold removeIfCurrent
  rw [hc]
  dsimp only
  rw [if_neg (by simpa using htok), snapshot_remove]

theorem subSeq_removeIfCurrent (t : Subs) (filter : Bytes) (token : Nat) :
    (t.removeIfCurrent filter token).subSeq = t.subSeq := by
  unfold removeIfCurrent
  split
  · rfl
  · split <;> rfl

/-! ## What the table lists -/

theorem filters_overwrite (t : Subs) (filter : Bytes) (f : Subscription → Subscription)
    (hf : ∀ s, (f s).filter = s.filter) :
    (t.overwrite filter f hf).subs.map Subscription.filter = t.subs.map Subscription.filter :=
  updateFirst_filters hf _

theorem subs_overwrite (t : Subs) (filter : Bytes) (f : Subscription → Subscription)
    (hf : ∀ s, (f s).filter = s.filter) :
    (t.overwrite filter f hf).subs = updateFirst filter f t.subs := rfl

theorem mem_add {t : Subs} {filter : Bytes} {options : SubscribeOptions} {handler : Handler}
    {subID : UInt32} {x : Subscription} (h : x ∈ (t.add filter options handler subID).2.subs) :
    x = ⟨filter, handler, options, t.subSeq + 1, subID⟩ ∨ x ∈ t.subs := by
  unfold add at h
  dsimp only at h
  split at h
  · rcases mem_updateFirst h with h | ⟨s, hs, rfl⟩
    · exact .inr h
    · exact .inl (by simp [findFilter_filter hs, nextToken])
  · rcases List.mem_append.mp h with h | h
    · exact .inr h
    · exact .inl (List.mem_singleton.mp h)

/-- A registration keeps the place of the one it replaces, or goes to the back. -/
theorem filters_add (t : Subs) (filter : Bytes) (options : SubscribeOptions) (handler : Handler)
    (subID : UInt32) :
    (t.add filter options handler subID).2.subs.map Subscription.filter =
        t.subs.map Subscription.filter ∨
      (t.add filter options handler subID).2.subs.map Subscription.filter =
        t.subs.map Subscription.filter ++ [filter] := by
  unfold add
  dsimp only
  split
  · left
    rw [filters_overwrite]
    rfl
  · exact .inr (by simp [append, nextToken])

theorem mem_restore {t : Subs} {filter : Bytes} {prev : Option Subscription} {token : Nat}
    {x : Subscription} (h : x ∈ (t.restore filter prev token).subs) :
    x ∈ t.subs ∨ ∃ cur p, t.snapshot filter = some cur ∧ cur.token = token ∧ prev = some p ∧
      x = { cur with options := p.options, handler := p.handler, token := p.token } := by
  unfold restore at h
  split at h
  · exact .inl h
  · rename_i cur hcur
    split at h
    · exact .inl h
    · rename_i ht
      split at h
      · rename_i p
        rcases mem_updateFirst h with h | ⟨s, hs, rfl⟩
        · exact .inl h
        · cases hs.symm.trans hcur
          exact .inr ⟨cur, p, hcur, not_not.mp ht, rfl, rfl⟩
      · exact .inl (List.mem_of_mem_eraseP h)

theorem filters_restore (t : Subs) (filter : Bytes) (prev : Option Subscription) (token : Nat) :
    ((t.restore filter prev token).subs.map Subscription.filter).Sublist
      (t.subs.map Subscription.filter) := by
  unfold restore
  split
  · exact .refl _
  · split
    · exact .refl _
    · split
      · rw [filters_overwrite]
      · exact List.eraseP_sublist.map _

theorem removeIfCurrent_sublist (t : Subs) (filter : Bytes) (token : Nat) :
    (t.removeIfCurrent filter token).subs.Sublist t.subs := by
  unfold removeIfCurrent
  split
  · exact .refl _
  · split
    · exact .refl _
    · exact List.eraseP_sublist

/-! ## A Subscribe that fails -/

/-- A Subscribe that fails after it has registered, no other call touching the
table meanwhile. -/
def failedSubscribe (t : Subs) (filter : Bytes) (options : SubscribeOptions) (handler : Handler)
    (subID : UInt32) : Subs :=
  let prev := t.snapshot filter
  let (token, t) := t.add filter options handler subID
  t.restore filter prev token

/-- Overwriting an entry and writing back what was there changes nothing. -/
theorem updateFirst_undo {filter : Bytes} {f g : Subscription → Subscription}
    (hf : ∀ s, (f s).filter = s.filter) {l : List Subscription}
    (h : ∀ s, findFilter filter l = some s → g (f s) = s) :
    updateFirst filter g (updateFirst filter f l) = l := by
  induction l with
  | nil => rfl
  | cons s rest ih =>
    by_cases hs : s.filter = filter
    · have hundo := h s (by simp [findFilter, hs])
      simp only [updateFirst, if_pos hs, hf, hundo]
    · simp only [updateFirst, if_neg hs]
      rw [ih fun s' hs' => h s' (by simpa [findFilter, hs] using hs')]

/-- Dropping what was appended leaves the table as it was. -/
theorem dropFilter_append {l : List Subscription} {filter : Bytes} {s : Subscription}
    (hs : s.filter = filter) (h : filter ∉ l.map Subscription.filter) :
    dropFilter filter (l ++ [s]) = l := by
  have hnone : ∀ x ∈ l, ¬ x.filter = filter :=
    fun x hx heq => h (heq ▸ List.mem_map_of_mem hx)
  rw [dropFilter, List.eraseP_append_right _ (by simpa using hnone)]
  simp [hs]

theorem failedSubscribe_undoes {t : Subs} {filter : Bytes} {options : SubscribeOptions}
    {handler : Handler} {subID : UInt32}
    (h : ∀ prev, t.snapshot filter = some prev → prev.subID = subID) :
    (t.failedSubscribe filter options handler subID).subs = t.subs := by
  have hcur := (t.snapshot_add filter options handler subID).2.2
  have htok := (t.snapshot_add filter options handler subID).1
  unfold failedSubscribe restore
  dsimp only
  rw [hcur]
  dsimp only
  rw [if_neg (by simp [htok])]
  unfold add
  cases hprev : t.snapshot filter with
  | some prev =>
    dsimp only
    split
    · rw [subs_overwrite, subs_overwrite]
      refine updateFirst_undo ?_ ?_
      · exact fun _ => rfl
      intro s hs
      cases hs.symm.trans hprev
      rw [← h prev hprev]
    · rename_i hnone
      cases hnone.symm.trans hprev
  | none =>
    dsimp only
    split
    · rename_i hsome
      cases hsome.symm.trans hprev
    · exact dropFilter_append rfl (findFilter_none.mp hprev)

/-- The old registration comes back with the subscription identifier of the failed call. -/
theorem snapshot_failedSubscribe (t : Subs) (filter : Bytes) (options : SubscribeOptions)
    (handler : Handler) (subID : UInt32) :
    (t.failedSubscribe filter options handler subID).snapshot filter =
      (t.snapshot filter).map fun p => { p with filter := filter, subID := subID } := by
  obtain ⟨htok, -, hcur⟩ := t.snapshot_add filter options handler subID
  unfold failedSubscribe
  dsimp only
  rw [snapshot_restore hcur htok.symm]

/-- The rollback leaves the table as it was exactly where the entry it undoes had the
subscription identifier of the failed call, or there was none. -/
theorem failedSubscribe_subs (t : Subs) (filter : Bytes) (options : SubscribeOptions)
    (handler : Handler) (subID : UInt32) :
    (t.failedSubscribe filter options handler subID).subs = t.subs ↔
      ∀ prev, t.snapshot filter = some prev → prev.subID = subID := by
  refine ⟨?_, failedSubscribe_undoes⟩
  intro hsame prev hprev
  have hsnap := t.snapshot_failedSubscribe filter options handler subID
  have hback : (t.failedSubscribe filter options handler subID).snapshot filter = some prev := by
    unfold snapshot
    rw [hsame]
    exact hprev
  rw [hback, hprev] at hsnap
  exact congrArg Subscription.subID (Option.some.inj hsnap)

/-- A table with two registrations, the second with a subscription identifier. -/
def stamped : Subs where
  subs := [⟨[0x61], 0, {}, 1, 0⟩, ⟨[0x62], 1, { qos := 1 }, 2, 7⟩]
  subSeq := 2
  distinct := by decide

theorem failedSubscribe_subs_same : (stamped.failedSubscribe [0x62] { qos := 2 } 5 7).subs =
    stamped.subs :=
  (failedSubscribe_subs stamped [0x62] { qos := 2 } 5 7).mpr (by
    intro prev hprev
    cases hprev
    rfl)

/-- The old registration is back under the identifier of the call that failed. -/
theorem failedSubscribe_keeps_subID :
    (stamped.failedSubscribe [0x62] { qos := 2 } 5 9).subs =
      [⟨[0x61], 0, {}, 1, 0⟩, ⟨[0x62], 1, { qos := 1 }, 2, 9⟩] ∧
    (stamped.failedSubscribe [0x62] { qos := 2 } 5 9).subs ≠ stamped.subs := by
  decide

end Subs
end GoMqtt.Client
