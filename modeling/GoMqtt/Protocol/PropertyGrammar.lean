import GoMqtt.Protocol.PropertyRoundTrip

/-! # What a decoded property block holds

`decodeProperties_ok` says which bytes are accepted and that the items are stored
one by one. Here the stored value is read back property by property: it holds
the values of the items and nothing else, whatever order different properties
came in. -/
namespace GoMqtt.Protocol
open GoMqtt.Lib

/-- The items of one property, in order. -/
def itemsOf (id : UInt8) (es : List Entry) : List Entry := es.filter fun e => e.id = id

/-- `q` holds the values of the items `es`. An absent block holds none; an empty
string or binary leaves its field as it is when absent. -/
def Holds (q : Option Properties) (es : List Entry) : Prop :=
  (q = none ↔ es = []) ∧
  ∀ id, itemsOf id (q.getD {}).entries = (itemsOf id es).filter fun e => !e.value.isEmpty

/-! ## Groups of entries -/

/-- Each group holds entries of its own property only. -/
def Labelled (id : UInt8) (es : List Entry) : Prop := ∀ e ∈ es, e.id = id

theorem groups_labelled (p : Properties) : List.Forall₂ Labelled propertyIds p.groups := by
  have hgroups : List.Forall₂ (Group tgPublish) propertyIds p.groups :=
    groups_grouped fun h => by cases h
  exact hgroups.imp fun _ _ h => h.1

theorem itemsOf_labelled {id : UInt8} {es : List Entry} (h : Labelled id es) :
    itemsOf id es = es := by
  rw [itemsOf, List.filter_eq_self]
  intro e he
  simpa using h e he

theorem itemsOf_other {id id' : UInt8} {es : List Entry} (h : Labelled id es) (hne : id ≠ id') :
    itemsOf id' es = [] := by
  rw [itemsOf, List.filter_eq_nil_iff]
  intro e he
  simpa [h e he] using hne

theorem itemsOf_append (id : UInt8) (es es' : List Entry) :
    itemsOf id (es ++ es') = itemsOf id es ++ itemsOf id es' := List.filter_append ..

theorem itemsOf_flatten_notMem {id : UInt8} {ids : List UInt8} {ess : List (List Entry)}
    (h : List.Forall₂ Labelled ids ess) (hid : id ∉ ids) : itemsOf id ess.flatten = [] := by
  induction h with
  | nil => rfl
  | cons hes _ ih =>
    obtain ⟨hne, hrest⟩ := not_or.mp (mt List.mem_cons.mpr hid)
    rw [List.flatten_cons, itemsOf_append, itemsOf_other hes (Ne.symm hne), ih hrest]
    rfl

/-- The items of a property are its group. -/
theorem itemsOf_flatten {ids : List UInt8} {ess : List (List Entry)} (hids : ids.Nodup)
    (h : List.Forall₂ Labelled ids ess) {k : Nat} {id : UInt8} {es : List Entry}
    (hk : ids[k]? = some id) (hes : ess[k]? = some es) : itemsOf id ess.flatten = es := by
  induction h generalizing k with
  | nil => cases hk
  | @cons id' es' ids ess hlab htail ih =>
    obtain ⟨hnot, hnodup⟩ := List.nodup_cons.mp hids
    rw [List.flatten_cons, itemsOf_append]
    cases k with
    | zero =>
      cases hk
      cases hes
      rw [itemsOf_labelled hlab, itemsOf_flatten_notMem htail hnot, List.append_nil]
    | succ k =>
      have hmem : id ∈ ids := List.mem_of_getElem? hk
      have hne : id' ≠ id := fun heq => hnot (heq ▸ hmem)
      rw [itemsOf_other hlab hne, ih hnodup hk hes, List.nil_append]

/-- A group of another property may be replaced by one of its own. -/
theorem itemsOf_flatten_set {id id' : UInt8} (hne : id' ≠ id) {ess : List (List Entry)} {k : Nat}
    {es es' : List Entry} (hk : ess[k]? = some es) (hes : Labelled id' es)
    (hes' : Labelled id' es') : itemsOf id (ess.set k es').flatten = itemsOf id ess.flatten := by
  induction ess generalizing k with
  | nil => cases hk
  | cons g ess ih =>
    cases k with
    | zero =>
      cases hk
      simp only [List.set_cons_zero, List.flatten_cons, itemsOf_append, itemsOf_other hes hne,
        itemsOf_other hes' hne]
    | succ k =>
      simp only [List.set_cons_succ, List.flatten_cons, itemsOf_append, ih hk]

/-- The entries are determined by the items of each property. -/
theorem flatten_eq_flatMap_itemsOf {ids : List UInt8} {ess : List (List Entry)} (hids : ids.Nodup)
    (h : List.Forall₂ Labelled ids ess) :
    ess.flatten = ids.flatMap fun id => itemsOf id ess.flatten := by
  have hess : ess = ids.map fun id => itemsOf id ess.flatten := by
    apply List.ext_getElem?
    intro k
    rw [List.getElem?_map]
    cases hk : ids[k]? with
    | none =>
      have hlen := h.length_eq
      rw [List.getElem?_eq_none_iff] at hk
      rw [Option.map_none, List.getElem?_eq_none_iff]
      omega
    | some id =>
      obtain ⟨es, hes⟩ : ∃ es, ess[k]? = some es := by
        have hlt : k < ess.length := h.length_eq ▸ (List.getElem?_eq_some_iff.mp hk).1
        exact ⟨ess[k], List.getElem?_eq_getElem hlt⟩
      rw [Option.map_some, itemsOf_flatten hids h hk hes, hes]
  rw [List.flatMap_def, ← hess]

/-- A `Properties` is determined by the items of each property. -/
theorem eq_of_itemsOf {p q : Properties} (h : ∀ id, itemsOf id p.entries = itemsOf id q.entries) :
    p = q := by
  have hids : propertyIds.Nodup := by decide
  have hentries : p.entries = q.entries := by
    have hp := flatten_eq_flatMap_itemsOf hids (groups_labelled p)
    have hq := flatten_eq_flatMap_itemsOf hids (groups_labelled q)
    unfold Properties.entries at h ⊢
    rw [hp, hq]
    simp only [h]
  rw [← build_entries p, ← build_entries q, hentries]

/-! ## Storing the items -/

variable {target : PropTarget} {id : UInt8}

theorem labelled_stored {e : Entry} {old : List Entry} (h : Labelled e.id old) :
    Labelled e.id (e.stored old) := by
  intro x hx
  rcases List.mem_append.mp ((stored_subperm e old).subset hx) with hx | hx
  · exact h x hx
  · rw [List.mem_singleton.mp hx]

/-- Storing an entry touches the items of its own property. -/
theorem itemsOf_put (p : Properties) {e : Entry} (h : e.Legal target) :
    itemsOf id (p.put e).entries =
      if e.id = id then e.stored (itemsOf id p.entries) else itemsOf id p.entries := by
  have hids : propertyIds.Nodup := by decide
  obtain ⟨k, old, hk, hold, hset⟩ := groups_put p h
  have hitems := itemsOf_flatten hids (groups_labelled p) hk hold
  have hold_labelled : Labelled e.id old := by
    rw [← hitems]
    intro x hx
    simpa using (List.mem_filter.mp hx).2
  unfold Properties.entries
  split
  · rename_i heq
    subst heq
    rw [hitems]
    refine itemsOf_flatten hids (groups_labelled (p.put e)) hk ?_
    rw [hset, List.getElem?_set_self (List.getElem?_eq_some_iff.mp hold).1]
  · rename_i hne
    rw [hset]
    exact itemsOf_flatten_set hne hold hold_labelled (labelled_stored hold_labelled)

/-- A property that may not be repeated has at most the one item. -/
theorem itemsOf_nil_of_once {es : List Entry} {e : Entry} (h : Once target (es ++ [e]))
    (hr : repeatableProperty e.id target = false) : itemsOf e.id es = [] := by
  rw [itemsOf, List.filter_eq_nil_iff]
  intro x hx hid
  unfold Once at h
  rw [List.map_append, List.filter_append, List.nodup_append] at h
  refine h.2.2 e.id ?_ e.id ?_ rfl
  · rw [List.mem_filter]
    exact ⟨List.mem_map.mpr ⟨x, hx, of_decide_eq_true hid⟩, by simp [hr]⟩
  · simp [hr]

theorem once_of_append {es es' : List Entry} (h : Once target (es ++ es')) : Once target es := by
  unfold Once at h
  rw [List.map_append, List.filter_append] at h
  exact h.of_append_left

/-- Only a string or a binary can be empty. -/
theorem isEmpty_of_list {e : Entry} (h : e.Legal target) (hid : (e.id == 0x0B || e.id == 0x26) = true) :
    e.value.isEmpty = false := by
  obtain ⟨id, v⟩ := e
  have hv := h.2
  simp only [Bool.or_eq_true, beq_iff_eq] at hid
  rcases hid with rfl | rfl
  · cases v <;> first | rfl | cases (And.left hv : propertyShape _ = _)
  · cases v <;> first | rfl | cases (And.left hv : propertyShape _ = _)

/-- After all items are stored, a property has the items it was given. -/
theorem itemsOf_build {es : List Entry} (hlegal : ∀ e ∈ es, e.Legal target)
    (honce : Once target es) : itemsOf id (es.foldl Properties.put {}).entries =
      (itemsOf id es).filter fun e => !e.value.isEmpty := by
  induction es using List.reverseRecOn with
  | nil => rfl
  | append_singleton es e ih =>
    have he := hlegal e (by simp)
    have hes := ih (fun x hx => hlegal x (List.mem_append_left _ hx)) (once_of_append honce)
    rw [List.foldl_append, List.foldl_cons, List.foldl_nil, itemsOf_put _ he, hes,
      itemsOf_append, List.filter_append]
    by_cases hid : e.id = id
    · subst hid
      rw [if_pos rfl, Entry.stored, show itemsOf e.id [e] = [e] by simp [itemsOf]]
      split
      · rename_i hlist
        simp [isEmpty_of_list he hlist]
      · rename_i hlist
        have hr : repeatableProperty e.id target = false := by
          simp only [Bool.or_eq_true, not_or] at hlist
          simp [repeatableProperty, hlist]
        rw [itemsOf_nil_of_once honce hr]
        cases hempty : e.value.isEmpty <;> simp [hempty]
    · rw [if_neg hid, show itemsOf id [e] = [] by simp [itemsOf, hid]]
      simp

/-! ## The block -/

theorem holds_build {es : List Entry} (hlegal : ∀ e ∈ es, e.Legal target)
    (honce : Once target es) :
    Holds (if es = [] then none else some (es.foldl Properties.put {})) es := by
  by_cases hes : es = []
  · subst hes
    exact ⟨by simp, fun id => rfl⟩
  · rw [if_neg hes]
    exact ⟨by simp [hes], fun id => itemsOf_build hlegal honce⟩

/-- The items determine the value that holds them. -/
theorem Holds.unique {q q' : Option Properties} {es : List Entry} (h : Holds q es)
    (h' : Holds q' es) : q = q' := by
  have hvalue : q.getD {} = q'.getD {} :=
    eq_of_itemsOf fun id => (h.2 id).trans (h'.2 id).symm
  cases q with
  | none =>
    exact (h'.1.mpr (h.1.mp rfl)).symm
  | some p =>
    cases q' with
    | none => exact absurd (h.1.mpr (h'.1.mp rfl)) (by simp)
    | some p' => exact congrArg some hvalue

/-- What a value holds does not depend on the order of different properties. -/
theorem Holds.congr {q : Option Properties} {es es' : List Entry} (h : Holds q es)
    (hitems : ∀ id, itemsOf id es = itemsOf id es') : Holds q es' := by
  have hnil : es = [] ↔ es' = [] := by
    simp only [List.eq_nil_iff_forall_not_mem]
    have hmem : ∀ e : Entry, e ∈ es ↔ e ∈ es' := by
      intro e
      have := congrArg (e ∈ ·) (hitems e.id)
      simpa [itemsOf] using this
    simp only [hmem]
  refine ⟨h.1.trans hnil, fun id => ?_⟩
  rw [h.2 id, hitems id]

/-- The length prefix is the minimal varint of at most four bytes. -/
theorem lengthPrefix_iff {bs : Bytes} {n : Nat} : IsVarint bs n ∧ bs.length ≤ 4 ↔
    n ≤ maxVarint ∧ bs = appendVarint n.toUInt32 := by
  have hlen : ∀ {bs}, IsVarint bs n → (bs.length ≤ 4 ↔ n ≤ maxVarint) := by
    intro bs h
    rw [h.length_le_iff 4 (by omega), maxVarint]
    omega
  have hspelt : n ≤ maxVarint → IsVarint (appendVarint n.toUInt32) n := by
    intro hle
    have hn : n.toUInt32.toNat = n := by
      unfold maxVarint at hle
      rw [Nat.toUInt32_eq, UInt32.toNat_ofNat']
      omega
    have h := appendVarint_isVarint n.toUInt32
    rwa [hn] at h
  constructor
  · intro ⟨h, hle⟩
    have hle := (hlen h).mp hle
    exact ⟨hle, h.unique (hspelt hle)⟩
  · rintro ⟨hle, rfl⟩
    exact ⟨hspelt hle, (hlen (hspelt hle)).mpr hle⟩

/-- Two lists with the same items of every property are rearrangements of each other. -/
theorem perm_of_itemsOf {es es' : List Entry} (h : ∀ id, itemsOf id es = itemsOf id es') :
    es.Perm es' := by
  rw [List.perm_iff_count]
  intro e
  have hcount : ∀ l : List Entry, (itemsOf e.id l).count e = l.count e := by
    intro l
    rw [itemsOf, List.count_filter (by simp)]
  rw [← hcount es, ← hcount es', h]

/-- The items that follow a length prefix and make up the block. -/
structure Block (target : PropTarget) (bs : Bytes) (es : List Entry) : Prop where
  minimal : IsVarint bs (wire es).length
  short : bs.length ≤ 4
  legal : ∀ e ∈ es, e.Legal target
  once : Once target es

theorem decodeProperties_block {c rest : Bytes} {q : Option Properties} :
    decodeProperties c target = .ok (q, rest) ↔
      ∃ bs es, Block target bs es ∧ c = bs ++ wire es ++ rest ∧ Holds q es := by
  rw [decodeProperties_ok]
  constructor
  · rintro ⟨es, hle, rfl, hlegal, honce, rfl⟩
    obtain ⟨hmin, hshort⟩ := lengthPrefix_iff.mpr ⟨hle, rfl⟩
    exact ⟨_, es, ⟨hmin, hshort, hlegal, honce⟩, rfl, holds_build hlegal honce⟩
  · rintro ⟨bs, es, hblock, rfl, hq⟩
    obtain ⟨hle, rfl⟩ := lengthPrefix_iff.mp ⟨hblock.minimal, hblock.short⟩
    exact ⟨es, hle, rfl, hblock.legal, hblock.once,
      hq.unique (holds_build hblock.legal hblock.once)⟩

/-- A block stays one when items of different properties change places. -/
theorem Block.congr {bs : Bytes} {es es' : List Entry} (h : Block target bs es)
    (hitems : ∀ id, itemsOf id es = itemsOf id es') : Block target bs es' := by
  have hperm := perm_of_itemsOf hitems
  refine ⟨?_, h.short, fun e he => h.legal e (hperm.mem_iff.mpr he), ?_⟩
  · rw [wire, ← (hperm.flatMap_right Entry.bytes).length_eq]
    exact h.minimal
  · exact ((hperm.map Entry.id).filter _).nodup_iff.mp h.once

/-- `decodeProperties` accepts a block and nothing else, consumes its prefix and
its items, and holds the values of the items; items of different properties may
come in any order, those of one property keep theirs. -/
theorem decodeProperties_iff (target : PropTarget) :
    (∀ c q rest, decodeProperties c target = .ok (q, rest) ↔
      ∃ bs es, Block target bs es ∧ c = bs ++ wire es ++ rest ∧ Holds q es) ∧
    ∀ bs es es' rest, Block target bs es → (∀ id, itemsOf id es = itemsOf id es') →
      ∃ q, Holds q es ∧ decodeProperties (bs ++ wire es ++ rest) target = .ok (q, rest) ∧
        decodeProperties (bs ++ wire es' ++ rest) target = .ok (q, rest) := by
  refine ⟨fun c q rest => decodeProperties_block, ?_⟩
  intro bs es es' rest hblock hitems
  have hbuilt := holds_build hblock.legal hblock.once
  exact ⟨_, hbuilt, decodeProperties_block.mpr ⟨bs, es, hblock, rfl, hbuilt⟩,
    decodeProperties_block.mpr ⟨bs, es', hblock.congr hitems, rfl, hbuilt.congr hitems⟩⟩

/-- Two identifiers around a topic alias and a user property. -/
def mixedItems : List Entry :=
  [⟨0x0B, .varint 200⟩, ⟨0x23, .u16 5⟩, ⟨0x26, .pair ⟨[0x61], []⟩⟩, ⟨0x0B, .varint 1⟩]

/-- The same with the user property in front. -/
def movedItems : List Entry :=
  [⟨0x26, .pair ⟨[0x61], []⟩⟩, ⟨0x0B, .varint 200⟩, ⟨0x0B, .varint 1⟩, ⟨0x23, .u16 5⟩]

theorem mixedItems_block : Block tgPublish [14] mixedItems where
  minimal := .last (b := 14) (by decide)
  short := by decide
  legal := by
    intro e he
    simp only [mixedItems, List.mem_cons, List.not_mem_nil, or_false] at he
    rcases he with rfl | rfl | rfl | rfl
    · exact ⟨by decide, by decide, by decide, by decide⟩
    · exact ⟨by decide, by decide, by decide⟩
    · exact ⟨by decide, by decide, by unfold WellFormed; decide, by unfold WellFormed; decide⟩
    · exact ⟨by decide, by decide, by decide, by decide⟩
  once := by
    unfold Once
    decide

theorem itemsOf_movedItems (id : UInt8) : itemsOf id mixedItems = itemsOf id movedItems := by
  by_cases h₁ : id = 0x0B
  · subst h₁
    rfl
  by_cases h₂ : id = 0x23
  · subst h₂
    rfl
  by_cases h₃ : id = 0x26
  · subst h₃
    rfl
  simp [itemsOf, mixedItems, movedItems, Ne.symm h₁, Ne.symm h₂, Ne.symm h₃]

theorem decodeProperties_iff_mixed : ∃ q, Holds q mixedItems ∧
    decodeProperties ([14] ++ wire mixedItems ++ [7]) tgPublish = .ok (q, [7]) ∧
    decodeProperties ([14] ++ wire movedItems ++ [7]) tgPublish = .ok (q, [7]) :=
  (decodeProperties_iff tgPublish).2 [14] mixedItems movedItems [7] mixedItems_block
    itemsOf_movedItems

end GoMqtt.Protocol
