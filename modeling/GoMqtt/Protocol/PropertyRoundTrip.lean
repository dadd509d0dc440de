import Mathlib.Data.List.Induction
import Mathlib.Data.List.Nodup
import GoMqtt.Protocol.PropertyBlock

/-! # The property block round trip

What `Properties.body` writes are the entries of the value, all legal where it
writes them; storing those entries again gives the value back. Conversely the
entries of what a block was decoded to are among the entries of the block, so they
are legal too and take no more room. -/
namespace GoMqtt.Protocol
open GoMqtt.Lib
open scoped List

/-! ## The entries of a value -/

def numEntries {ν : Type} (id : UInt8) (wrap : ν → Value) (o : Option ν) : List Entry :=
  o.toList.map fun v => ⟨id, wrap v⟩

def dataEntries (id : UInt8) (wrap : Bytes → Value) (s : Bytes) : List Entry :=
  if s.isEmpty then [] else [⟨id, wrap s⟩]

def listEntries {α : Type} (id : UInt8) (wrap : α → Value) (l : List α) : List Entry :=
  l.map fun a => ⟨id, wrap a⟩

/-- The entries, property by property in the order of `body`. -/
def Properties.groups (p : Properties) : List (List Entry) :=
  [ numEntries 0x01 .byte p.payloadFormat
  , numEntries 0x02 .u32 p.messageExpiryInterval
  , dataEntries 0x03 .str p.contentType
  , dataEntries 0x08 .str p.responseTopic
  , dataEntries 0x09 .bin p.correlationData
  , listEntries 0x0B .varint p.subscriptionIdentifiers
  , numEntries 0x11 .u32 p.sessionExpiryInterval
  , dataEntries 0x12 .str p.assignedClientID
  , numEntries 0x13 .u16 p.serverKeepAlive
  , dataEntries 0x15 .str p.authMethod
  , dataEntries 0x16 .bin p.authData
  , numEntries 0x17 .byte p.requestProblemInfo
  , numEntries 0x18 .u32 p.willDelayInterval
  , numEntries 0x19 .byte p.requestResponseInfo
  , dataEntries 0x1A .str p.responseInfo
  , dataEntries 0x1C .str p.serverReference
  , dataEntries 0x1F .str p.reasonString
  , numEntries 0x21 .u16 p.receiveMaximum
  , numEntries 0x22 .u16 p.topicAliasMaximum
  , numEntries 0x23 .u16 p.topicAlias
  , numEntries 0x24 .byte p.maximumQoS
  , numEntries 0x25 .byte p.retainAvailable
  , listEntries 0x26 .pair p.userProperties
  , numEntries 0x27 .u32 p.maximumPacketSize
  , numEntries 0x28 .byte p.wildcardSubAvailable
  , numEntries 0x29 .byte p.subIDAvailable
  , numEntries 0x2A .byte p.sharedSubAvailable ]

def Properties.entries (p : Properties) : List Entry := p.groups.flatten

/-! ## What the encoder writes -/

/-- A writer that succeeds exactly if `Q` holds and the entries are legal, and
then writes them. -/
def Writes (target : PropTarget) (Q : Prop) (part : Except WireError Bytes) (es : List Entry) :
    Prop :=
  ∀ b, part = .ok b ↔ Q ∧ (∀ e ∈ es, e.Legal target) ∧ b = wire es

theorem wire_append (es es' : List Entry) : wire (es ++ es') = wire es ++ wire es' :=
  List.flatMap_append

theorem Writes.nil {target : PropTarget} : Writes target True (appendAll []) [].flatten := by
  intro b
  simp [appendAll, wire, eq_comm]

theorem Writes.cons' {target : PropTarget} {Q Q' : Prop} {part : Except WireError Bytes}
    {parts : List (Except WireError Bytes)} {es : List Entry} {ess : List (List Entry)}
    (h : Writes target Q part es) (h' : Writes target Q' (appendAll parts) ess.flatten) :
    Writes target (Q ∧ Q') (appendAll (part :: parts)) (es :: ess).flatten := by
  intro b
  rw [appendAll_cons_ok, List.flatten_cons, wire_append, List.forall_mem_append]
  constructor
  · rintro ⟨b₁, b₂, h₁, h₂, rfl⟩
    obtain ⟨hq, hl, rfl⟩ := (h b₁).mp h₁
    obtain ⟨hq', hl', rfl⟩ := (h' b₂).mp h₂
    exact ⟨⟨hq, hq'⟩, ⟨hl, hl'⟩, rfl⟩
  · rintro ⟨⟨hq, hq'⟩, ⟨hl, hl'⟩, rfl⟩
    exact ⟨_, _, (h _).mpr ⟨hq, hl, rfl⟩, (h' _).mpr ⟨hq', hl', rfl⟩, rfl⟩

theorem Writes.cons {target : PropTarget} {Q : Prop} {part : Except WireError Bytes}
    {parts : List (Except WireError Bytes)} {es : List Entry} {ess : List (List Entry)}
    (h : Writes target True part es) (h' : Writes target Q (appendAll parts) ess.flatten) :
    Writes target Q (appendAll (part :: parts)) (es :: ess).flatten := by
  intro b
  rw [Writes.cons' h h' b, true_and]

variable {target : PropTarget} {id : UInt8}

theorem checkEncodeAllowed_ok {u : Unit} :
    checkEncodeAllowed id target = .ok u ↔ propertySpec id &&& target ≠ 0 := by
  unfold checkEncodeAllowed
  split <;> simp_all

theorem checkEncodeValue_ok {v : UInt32} {u : Unit} :
    checkEncodeValue id v = .ok u ↔ propertyValueViolation id v = none := by
  unfold checkEncodeValue
  split <;> simp_all

theorem writes_num {ν : Type} {widen : ν → UInt32} {put : ν → Bytes} {wrap : ν → Value}
    (hlegal : ∀ v, (wrap v).Legal id ↔ propertyValueViolation id (widen v) = none)
    (hbytes : ∀ v, (wrap v).bytes = put v) (o : Option ν) :
    Writes target True (writeNumProp widen put target id o) (numEntries id wrap o) := by
  intro b
  cases o with
  | none => simp [writeNumProp, numEntries, wire, eq_comm]
  | some v =>
    simp only [writeNumProp, bind_eq_ok, checkEncodeAllowed_ok, checkEncodeValue_ok, numEntries,
      Option.toList_some, List.map_cons, List.map_nil, List.forall_mem_singleton, Entry.Legal, hlegal,
      wire, List.flatMap_singleton, Entry.bytes, hbytes, true_and]
    constructor
    · rintro ⟨-, ha, -, hv, h⟩
      cases h
      exact ⟨⟨ha, hv⟩, rfl⟩
    · rintro ⟨⟨ha, hv⟩, rfl⟩
      exact ⟨(), ha, (), hv, rfl⟩

theorem writes_data {append : Bytes → Except WireError Bytes} {wrap : Bytes → Value}
    (happend : ∀ s b, append s = .ok b ↔ (wrap s).Legal id ∧ b = (wrap s).bytes) (s : Bytes) :
    Writes target True (writeDataProp append target id s) (dataEntries id wrap s) := by
  intro b
  unfold writeDataProp dataEntries
  split
  · simp [wire, eq_comm]
  · simp only [bind_eq_ok, checkEncodeAllowed_ok, happend, List.forall_mem_singleton, Entry.Legal,
      wire, List.flatMap_singleton, Entry.bytes, true_and]
    constructor
    · rintro ⟨-, ha, _, ⟨hv, rfl⟩, h⟩
      cases h
      exact ⟨⟨ha, hv⟩, rfl⟩
    · rintro ⟨⟨ha, hv⟩, rfl⟩
      exact ⟨(), ha, _, ⟨hv, rfl⟩, rfl⟩

theorem writes_byte (hs : propertyShape id = .byte) (o : Option UInt8) :
    Writes target True (writeByteProp target id o) (numEntries id .byte o) := by
  unfold writeByteProp
  refine writes_num ?_ ?_ o
  · simp [Value.Legal, hs]
  · exact fun _ => rfl

theorem writes_u16 (hs : propertyShape id = .u16) (o : Option UInt16) :
    Writes target True (writeU16Prop target id o) (numEntries id .u16 o) := by
  unfold writeU16Prop
  refine writes_num ?_ ?_ o
  · simp [Value.Legal, hs]
  · exact fun _ => rfl

theorem writes_u32 (hs : propertyShape id = .u32) (o : Option UInt32) :
    Writes target True (writeU32Prop target id o) (numEntries id .u32 o) := by
  unfold writeU32Prop
  refine writes_num ?_ ?_ o
  · simp [Value.Legal, hs]
  · exact fun _ => rfl

theorem writes_str (hs : propertyShape id = .str) (s : Bytes) :
    Writes target True (writeStrProp target id s) (dataEntries id .str s) := by
  unfold writeStrProp
  refine writes_data ?_ s
  simp [Value.Legal, Value.bytes, hs, appendString_ok]

theorem writes_bin (hs : propertyShape id = .bin) (s : Bytes) :
    Writes target True (writeBinProp target id s) (dataEntries id .bin s) := by
  unfold writeBinProp
  refine writes_data ?_ s
  simp [Value.Legal, Value.bytes, hs, appendBinary_ok]

/-- One writer for each element of a list. -/
theorem writes_list {α : Type} {wrap : α → Value} {write : α → Except WireError Bytes}
    (ha : propertySpec id &&& target ≠ 0)
    (hwrite : ∀ a b, write a = .ok b ↔ (wrap a).Legal id ∧ b = id :: (wrap a).bytes) (l : List α) :
    Writes target True (appendAll (l.map write)) (listEntries id wrap l) := by
  intro b
  induction l generalizing b with
  | nil => simp [appendAll, listEntries, wire, eq_comm]
  | cons a l ih =>
    simp only [List.map_cons, appendAll_cons_ok, ih, hwrite, true_and, listEntries,
      List.forall_mem_cons, Entry.Legal, wire_cons]
    constructor
    · rintro ⟨_, _, ⟨hv, rfl⟩, ⟨hl, rfl⟩, rfl⟩
      exact ⟨⟨⟨ha, hv⟩, hl⟩, rfl⟩
    · rintro ⟨⟨⟨-, hv⟩, hl⟩, rfl⟩
      exact ⟨_, _, ⟨hv, rfl⟩, ⟨hl, rfl⟩, rfl⟩

theorem writes_users (ups : List UserProperty) :
    Writes target True (writeUserProps target ups) (listEntries 0x26 .pair ups) := by
  intro b
  unfold writeUserProps
  split
  · rename_i h
    obtain rfl := List.isEmpty_iff.mp h
    simp [listEntries, wire, eq_comm]
  · rename_i h
    rw [bind_eq_ok]
    simp only [checkEncodeAllowed_ok]
    have hwrite : ∀ (up : UserProperty) (b : Bytes), (do
        let k ← appendString up.key
        let v ← appendString up.value
        return 0x26 :: k ++ v) = Except.ok b ↔
          (Value.pair up).Legal 0x26 ∧ b = 0x26 :: (Value.pair up).bytes := by
      intro up b
      simp only [bind_eq_ok, appendString_ok, Value.Legal, Value.bytes]
      constructor
      · rintro ⟨_, ⟨hk, rfl⟩, _, ⟨hv, rfl⟩, h⟩
        cases h
        exact ⟨⟨rfl, hk, hv⟩, by simp⟩
      · rintro ⟨⟨-, hk, hv⟩, rfl⟩
        exact ⟨_, ⟨hk, rfl⟩, _, ⟨hv, rfl⟩, by simp [pure, Except.pure]⟩
    constructor
    · rintro ⟨-, ha, hb⟩
      exact (writes_list ha hwrite ups b).mp hb
    · intro hb
      obtain ⟨up, rest, rfl⟩ := List.exists_cons_of_ne_nil (mt List.isEmpty_iff.mpr h)
      have ha := (hb.2.1 ⟨0x26, .pair up⟩ (by simp [listEntries])).1
      exact ⟨(), ha, (writes_list ha hwrite _ b).mpr hb⟩

/-- A SUBSCRIBE carries at most one subscription identifier. -/
def OneSubID (target : PropTarget) (ids : List UInt32) : Prop :=
  target &&& tgSubscribe ≠ 0 → ids.length ≤ 1

theorem writes_subIDs (ids : List UInt32) :
    Writes target (OneSubID target ids) (writeSubIDs target ids) (listEntries 0x0B .varint ids) := by
  intro b
  unfold writeSubIDs
  split
  · rename_i h
    obtain rfl := List.isEmpty_iff.mp h
    simp [OneSubID, listEntries, wire, eq_comm]
  · rename_i h
    rw [bind_eq_ok]
    simp only [checkEncodeAllowed_ok]
    have hwrite : ∀ (n : UInt32) (b : Bytes),
        (if n == 0 || n.toNat > maxVarint then
          Except.error (WireError.protocolViolation s!"subscription identifier {n} out of range")
        else .ok (0x0B :: appendVarint n)) = Except.ok b ↔
          (Value.varint n).Legal 0x0B ∧ b = 0x0B :: (Value.varint n).bytes := by
      intro n b
      by_cases hn : (n == 0 || n.toNat > maxVarint) = true
      · simp only [hn, if_true, reduceCtorEq, false_iff]
        rintro ⟨⟨-, hne, hle⟩, -⟩
        simp [hne] at hn
        omega
      · have hn' : n ≠ 0 ∧ n.toNat ≤ maxVarint := by simpa using hn
        simp only [hn, Value.Legal, Value.bytes]
        simp [hn', eq_comm, propertyShape]
    constructor
    · rintro ⟨-, ha, hb⟩
      split at hb
      · cases hb
      · rename_i hone
        refine ⟨fun hsub => ?_, ((writes_list ha hwrite ids b).mp hb).2⟩
        simpa [hsub] using hone
    · rintro ⟨hone, hb⟩
      obtain ⟨n, rest, rfl⟩ := List.exists_cons_of_ne_nil (mt List.isEmpty_iff.mpr h)
      have ha := (hb.1 ⟨0x0B, .varint n⟩ (by simp [listEntries])).1
      refine ⟨(), ha, ?_⟩
      rw [if_neg]
      · exact (writes_list ha hwrite _ b).mpr ⟨trivial, hb⟩
      · intro hc
        simp only [Bool.and_eq_true, bne_iff_ne, ne_eq, decide_eq_true_eq] at hc
        have := hone hc.1
        omega

/-- `body` writes the entries of the value. -/
theorem writes_body (p : Properties) :
    Writes target (OneSubID target p.subscriptionIdentifiers) (p.body target) p.entries := by
  unfold Properties.body Properties.entries Properties.groups
  have : ∀ Q, (Q ∧ True) = Q := by simp
  repeat first
    | exact .nil
    | refine .cons (writes_byte rfl _) ?_
    | refine .cons (writes_u16 rfl _) ?_
    | refine .cons (writes_u32 rfl _) ?_
    | refine .cons (writes_str rfl _) ?_
    | refine .cons (writes_bin rfl _) ?_
    | refine .cons (writes_users _) ?_
    | rw [← this (OneSubID _ _)]; refine .cons' (writes_subIDs _) ?_

/-! ## Storing the entries again -/

theorem foldl_num {ν : Type} (id : UInt8) {wrap : ν → Value} (set : Properties → Option ν → Properties)
    (h : ∀ q v, q.put ⟨id, wrap v⟩ = set q (some v)) {q : Properties} (o : Option ν)
    (hq : q = set q none) : (numEntries id wrap o).foldl Properties.put q = set q o := by
  cases o with
  | none => exact hq
  | some v => exact h q v

theorem foldl_data (id : UInt8) {wrap : Bytes → Value} (set : Properties → Bytes → Properties)
    (h : ∀ q s, q.put ⟨id, wrap s⟩ = set q s) {q : Properties} (s : Bytes) (hq : q = set q []) :
    (dataEntries id wrap s).foldl Properties.put q = set q s := by
  cases s with
  | nil => exact hq
  | cons b s => exact h q _

theorem foldl_list {α : Type} (id : UInt8) {wrap : α → Value} (set : Properties → List α → Properties)
    (h : ∀ q l a, (set q l).put ⟨id, wrap a⟩ = set q (l ++ [a])) {q : Properties} (l : List α)
    (hq : q = set q []) : (listEntries id wrap l).foldl Properties.put q = set q l := by
  induction l using List.reverseRecOn with
  | nil => exact hq
  | append_singleton l a ih =>
    rw [listEntries] at ih
    rw [listEntries, List.map_append, List.foldl_append, ih]
    exact h q l a

/-- Storing the entries of a value, one property after another, rebuilds it. -/
theorem build_entries (p : Properties) : p.entries.foldl Properties.put {} = p := by
  unfold Properties.entries Properties.groups
  simp only [List.flatten_cons, List.flatten_nil, List.append_nil, List.foldl_append]
  rw [
    foldl_num 0x01 (fun q o => { q with payloadFormat := o }) (fun _ _ => rfl),
    foldl_num 0x02 (fun q o => { q with messageExpiryInterval := o }) (fun _ _ => rfl),
    foldl_data 0x03 (fun q s => { q with contentType := s }) (fun _ _ => rfl),
    foldl_data 0x08 (fun q s => { q with responseTopic := s }) (fun _ _ => rfl),
    foldl_data 0x09 (fun q s => { q with correlationData := s }) (fun _ _ => rfl),
    foldl_list 0x0B (fun q l => { q with subscriptionIdentifiers := l }) (fun _ _ _ => rfl),
    foldl_num 0x11 (fun q o => { q with sessionExpiryInterval := o }) (fun _ _ => rfl),
    foldl_data 0x12 (fun q s => { q with assignedClientID := s }) (fun _ _ => rfl),
    foldl_num 0x13 (fun q o => { q with serverKeepAlive := o }) (fun _ _ => rfl),
    foldl_data 0x15 (fun q s => { q with authMethod := s }) (fun _ _ => rfl),
    foldl_data 0x16 (fun q s => { q with authData := s }) (fun _ _ => rfl),
    foldl_num 0x17 (fun q o => { q with requestProblemInfo := o }) (fun _ _ => rfl),
    foldl_num 0x18 (fun q o => { q with willDelayInterval := o }) (fun _ _ => rfl),
    foldl_num 0x19 (fun q o => { q with requestResponseInfo := o }) (fun _ _ => rfl),
    foldl_data 0x1A (fun q s => { q with responseInfo := s }) (fun _ _ => rfl),
    foldl_data 0x1C (fun q s => { q with serverReference := s }) (fun _ _ => rfl),
    foldl_data 0x1F (fun q s => { q with reasonString := s }) (fun _ _ => rfl),
    foldl_num 0x21 (fun q o => { q with receiveMaximum := o }) (fun _ _ => rfl),
    foldl_num 0x22 (fun q o => { q with topicAliasMaximum := o }) (fun _ _ => rfl),
    foldl_num 0x23 (fun q o => { q with topicAlias := o }) (fun _ _ => rfl),
    foldl_num 0x24 (fun q o => { q with maximumQoS := o }) (fun _ _ => rfl),
    foldl_num 0x25 (fun q o => { q with retainAvailable := o }) (fun _ _ => rfl),
    foldl_list 0x26 (fun q l => { q with userProperties := l }) (fun _ _ _ => rfl),
    foldl_num 0x27 (fun q o => { q with maximumPacketSize := o }) (fun _ _ => rfl),
    foldl_num 0x28 (fun q o => { q with wildcardSubAvailable := o }) (fun _ _ => rfl),
    foldl_num 0x29 (fun q o => { q with subIDAvailable := o }) (fun _ _ => rfl),
    foldl_num 0x2A (fun q o => { q with sharedSubAvailable := o }) (fun _ _ => rfl)]
  all_goals rfl

/-! ## Nothing is written twice -/

/-- The entries of one property: all under its identifier, and one at most unless
it may be repeated. -/
def Group (target : PropTarget) (id : UInt8) (es : List Entry) : Prop :=
  (∀ e ∈ es, e.id = id) ∧ (repeatableProperty id target = false → es.length ≤ 1)

theorem group_num {ν : Type} (wrap : ν → Value) (o : Option ν) :
    Group target id (numEntries id wrap o) := by
  cases o <;> simp [Group, numEntries]

theorem group_data (wrap : Bytes → Value) (s : Bytes) :
    Group target id (dataEntries id wrap s) := by
  unfold Group dataEntries
  split <;> simp

theorem group_list {α : Type} {wrap : α → Value} {l : List α}
    (h : repeatableProperty id target = false → l.length ≤ 1) :
    Group target id (listEntries id wrap l) := by
  refine ⟨?_, by simpa [listEntries] using h⟩
  simp [listEntries]

theorem groups_grouped {p : Properties}
    (h : repeatableProperty 0x0B target = false → p.subscriptionIdentifiers.length ≤ 1) :
    List.Forall₂ (Group target) propertyIds p.groups := by
  unfold propertyIds Properties.groups
  repeat first
    | exact .nil
    | refine .cons (group_num _ _) ?_
    | refine .cons (group_data _ _) ?_
    | refine .cons (group_list h) ?_
    | refine .cons (group_list fun hr => by cases hr) ?_

theorem Group.nodup {es : List Entry} (h : Group target id es) : Once target es := by
  unfold Once
  by_cases hr : repeatableProperty id target = true
  · have hnil : (es.map Entry.id).filter (fun id => !repeatableProperty id target) = [] := by
      simp only [List.filter_eq_nil_iff, List.mem_map, Bool.not_eq_true']
      rintro _ ⟨e, he, rfl⟩
      simp [h.1 e he, hr]
    rw [hnil]
    exact List.nodup_nil
  · refine List.Nodup.filter _ ?_
    have hlen := h.2 (by simpa using hr)
    match es with
    | [] => simp
    | [e] => simp
    | _ :: _ :: _ => simp at hlen

theorem once_flatten {ids : List UInt8} {ess : List (List Entry)} (hids : ids.Nodup)
    (h : List.Forall₂ (Group target) ids ess) : Once target ess.flatten := by
  have hmem : ∀ {ids : List UInt8} {ess : List (List Entry)},
      List.Forall₂ (Group target) ids ess → ∀ e ∈ ess.flatten, e.id ∈ ids := by
    intro ids ess h
    induction h with
    | nil => simp
    | cons hg _ ih =>
      intro e he
      rcases List.mem_append.mp he with he | he
      · rw [hg.1 e he]
        exact List.mem_cons_self
      · exact List.mem_cons_of_mem _ (ih e he)
  induction h with
  | nil => simp [Once]
  | @cons id es ids ess hg hgs ih =>
    rw [List.nodup_cons] at hids
    rw [Once, List.flatten_cons, List.map_append, List.filter_append, List.nodup_append]
    refine ⟨hg.nodup, ih hids.2, ?_⟩
    intro a ha b hb hab
    obtain ⟨e, he, rfl⟩ := List.mem_map.mp (List.mem_filter.mp ha).1
    obtain ⟨e', he', rfl⟩ := List.mem_map.mp (List.mem_filter.mp hb).1
    exact hids.1 (by rw [← hg.1 e he, hab]; exact hmem hgs e' he')

/-- A subscription identifier is repeatable or stands in a SUBSCRIBE. -/
theorem subID_single (hspec : propertySpec 0x0B &&& target ≠ 0)
    (hr : repeatableProperty 0x0B target = false) : target &&& tgSubscribe ≠ 0 := by
  have hpub : target &&& tgPublish = 0 := by simpa [repeatableProperty] using hr
  intro hsub
  refine hspec ?_
  rw [← UInt32.toNat_inj] at hpub hsub ⊢
  rw [UInt32.toNat_and] at hpub hsub ⊢
  rw [show propertySpec 0x0B = tgPublish ||| tgSubscribe from rfl, UInt32.toNat_or, Nat.and_comm,
    Nat.and_or_distrib_left, hpub, hsub]
  rfl

theorem once_entries {p : Properties} (hone : OneSubID target p.subscriptionIdentifiers)
    (hlegal : ∀ e ∈ p.entries, e.Legal target) : Once target p.entries := by
  refine once_flatten (by decide) (groups_grouped fun hr => ?_)
  rcases hids : p.subscriptionIdentifiers with _ | ⟨n, rest⟩
  · simp
  · have hmem : ⟨0x0B, .varint n⟩ ∈ p.entries := by
      simp [Properties.entries, Properties.groups, hids, listEntries]
    have := hone (subID_single (hlegal _ hmem).1 hr)
    rwa [hids] at this

/-! ## What a decoded value writes -/

/-- Changing one group adds to the whole no more than it adds to the group. -/
theorem flatten_set_subperm {ess ess' : List (List Entry)} {es es' : List Entry} {e : Entry}
    (k : Nat) (hset : ess' = ess.set k es') (hk : ess[k]? = some es) (h : es' <+~ es ++ [e]) :
    ess'.flatten <+~ ess.flatten ++ [e] := by
  subst hset
  induction ess generalizing k with
  | nil => simp at hk
  | cons g ess ih =>
    cases k with
    | zero =>
      simp only [List.getElem?_cons_zero, Option.some.injEq] at hk
      subst hk
      rw [List.set_cons_zero, List.flatten_cons, List.flatten_cons, List.append_assoc]
      refine (h.append (List.Subperm.refl ess.flatten)).trans (List.Perm.subperm ?_)
      rw [List.append_assoc]
      exact List.Perm.append_left _ List.perm_append_comm
    | succ k =>
      rw [List.set_cons_succ, List.flatten_cons, List.flatten_cons, List.append_assoc]
      exact (List.Subperm.refl g).append (ih k (by simpa using hk))

/-- An empty string or binary, which a `Properties` does not tell from an absent one. -/
def Value.isEmpty : Value → Bool
  | .str s | .bin s => s.isEmpty
  | _ => false

/-- What the group of a property is once `e` is stored: the two properties kept
in lists grow, any other holds the last value. -/
def Entry.stored (e : Entry) (old : List Entry) : List Entry :=
  if e.id == 0x0B || e.id == 0x26 then old ++ [e] else if e.value.isEmpty then [] else [e]

theorem stored_subperm (e : Entry) (old : List Entry) : e.stored old <+~ old ++ [e] := by
  unfold Entry.stored
  split
  · exact List.Subperm.refl _
  · split
    · exact List.nil_subperm
    · exact (List.sublist_append_right _ _).subperm

theorem list_stored {α : Type} {wrap : α → Value} {l : List α} {a : α}
    (h : (id == 0x0B || id == 0x26) = true) :
    listEntries id wrap (l ++ [a]) = Entry.stored ⟨id, wrap a⟩ (listEntries id wrap l) := by
  rw [Entry.stored, if_pos h, listEntries, List.map_append]
  rfl

/-- The groups after storing, with what is stored written out first: `groups` reads every
field of it. -/
theorem groups_of_put {p q : Properties} {e : Entry} {gs : List (List Entry)} (hput : p.put e = q)
    (hq : q.groups = gs) : (p.put e).groups = gs := by
  rw [hput, hq]

/-- Storing an entry changes the group of its property and no other. -/
theorem groups_put (p : Properties) {e : Entry} (h : e.Legal target) :
    ∃ k old, propertyIds[k]? = some e.id ∧ p.groups[k]? = some old ∧
      (p.put e).groups = p.groups.set k (e.stored old) := by
  obtain ⟨id, v⟩ := e
  have hid := mem_propertyIds h.known
  have hv := h.2
  simp only [propertyIds, List.mem_cons, List.not_mem_nil, or_false] at hid
  rcases hid with rfl | rfl | rfl | rfl | rfl | rfl | rfl | rfl | rfl | rfl | rfl | rfl | rfl |
    rfl | rfl | rfl | rfl | rfl | rfl | rfl | rfl | rfl | rfl | rfl | rfl | rfl | rfl
  -- only the value of the property's own shape is legal
  all_goals cases v <;> try cases (And.left hv : propertyShape _ = _)
  · exact ⟨0, _, rfl, rfl, groups_of_put (q := { p with payloadFormat := some _ }) rfl rfl⟩
  · exact ⟨1, _, rfl, rfl, groups_of_put (q := { p with messageExpiryInterval := some _ }) rfl rfl⟩
  · exact ⟨2, _, rfl, rfl, groups_of_put (q := { p with contentType := _ }) rfl rfl⟩
  · exact ⟨3, _, rfl, rfl, groups_of_put (q := { p with responseTopic := _ }) rfl rfl⟩
  · exact ⟨4, _, rfl, rfl, groups_of_put (q := { p with correlationData := _ }) rfl rfl⟩
  · exact ⟨5, _, rfl, rfl, by rw [← list_stored rfl]; rfl⟩
  · exact ⟨6, _, rfl, rfl, groups_of_put (q := { p with sessionExpiryInterval := some _ }) rfl rfl⟩
  · exact ⟨7, _, rfl, rfl, groups_of_put (q := { p with assignedClientID := _ }) rfl rfl⟩
  · exact ⟨8, _, rfl, rfl, groups_of_put (q := { p with serverKeepAlive := some _ }) rfl rfl⟩
  · exact ⟨9, _, rfl, rfl, groups_of_put (q := { p with authMethod := _ }) rfl rfl⟩
  · exact ⟨10, _, rfl, rfl, groups_of_put (q := { p with authData := _ }) rfl rfl⟩
  · exact ⟨11, _, rfl, rfl, groups_of_put (q := { p with requestProblemInfo := some _ }) rfl rfl⟩
  · exact ⟨12, _, rfl, rfl, groups_of_put (q := { p with willDelayInterval := some _ }) rfl rfl⟩
  · exact ⟨13, _, rfl, rfl, groups_of_put (q := { p with requestResponseInfo := some _ }) rfl rfl⟩
  · exact ⟨14, _, rfl, rfl, groups_of_put (q := { p with responseInfo := _ }) rfl rfl⟩
  · exact ⟨15, _, rfl, rfl, groups_of_put (q := { p with serverReference := _ }) rfl rfl⟩
  · exact ⟨16, _, rfl, rfl, groups_of_put (q := { p with reasonString := _ }) rfl rfl⟩
  · exact ⟨17, _, rfl, rfl, groups_of_put (q := { p with receiveMaximum := some _ }) rfl rfl⟩
  · exact ⟨18, _, rfl, rfl, groups_of_put (q := { p with topicAliasMaximum := some _ }) rfl rfl⟩
  · exact ⟨19, _, rfl, rfl, groups_of_put (q := { p with topicAlias := some _ }) rfl rfl⟩
  · exact ⟨20, _, rfl, rfl, groups_of_put (q := { p with maximumQoS := some _ }) rfl rfl⟩
  · exact ⟨21, _, rfl, rfl, groups_of_put (q := { p with retainAvailable := some _ }) rfl rfl⟩
  · exact ⟨22, _, rfl, rfl, by rw [← list_stored rfl]; rfl⟩
  · exact ⟨23, _, rfl, rfl, groups_of_put (q := { p with maximumPacketSize := some _ }) rfl rfl⟩
  · exact ⟨24, _, rfl, rfl, groups_of_put (q := { p with wildcardSubAvailable := some _ }) rfl rfl⟩
  · exact ⟨25, _, rfl, rfl, groups_of_put (q := { p with subIDAvailable := some _ }) rfl rfl⟩
  · exact ⟨26, _, rfl, rfl, groups_of_put (q := { p with sharedSubAvailable := some _ }) rfl rfl⟩

/-- Storing an entry adds at most that entry to what is written. -/
theorem entries_put_subperm (p : Properties) {e : Entry} (h : e.Legal target) :
    (p.put e).entries <+~ p.entries ++ [e] := by
  obtain ⟨k, old, -, hold, hset⟩ := groups_put p h
  exact flatten_set_subperm k hset hold (stored_subperm e old)

/-- The entries of a decoded value are among those it was decoded from. -/
theorem entries_build_subperm {es : List Entry} (h : ∀ e ∈ es, e.Legal target) :
    (es.foldl Properties.put {}).entries <+~ es := by
  induction es using List.reverseRecOn with
  | nil => exact List.Subperm.refl _
  | append_singleton es e ih =>
    rw [List.foldl_append]
    have hes := ih fun e' he' => h e' (List.mem_append_left _ he')
    have he := h e (by simp)
    exact (entries_put_subperm _ he).trans (hes.append (List.Subperm.refl [e]))

theorem length_wire_le {es es' : List Entry} (h : es <+~ es') :
    (wire es).length ≤ (wire es').length := by
  obtain ⟨l, hperm, hsub⟩ := h
  rw [wire, ← (hperm.flatMap_right Entry.bytes).length_eq]
  clear hperm
  induction hsub with
  | slnil => exact le_rfl
  | cons e _ ih =>
    simp only [wire_cons, List.length_cons, List.length_append]
    omega
  | cons_cons e _ ih =>
    simp only [List.flatMap_cons, wire_cons, Entry.bytes, List.length_cons, List.length_append,
      List.cons_append]
    omega

theorem count_ids_le {es es' : List Entry} (h : es <+~ es') :
    (es.map Entry.id).count id ≤ (es'.map Entry.id).count id := by
  obtain ⟨l, hperm, hsub⟩ := h
  rw [← (hperm.map Entry.id).count_eq]
  exact (hsub.map Entry.id).count_le id

theorem count_le_one {es : List Entry} (h : Once target es) (hr : repeatableProperty id target = false) :
    (es.map Entry.id).count id ≤ 1 := by
  have := List.nodup_iff_count_le_one.mp h id
  rwa [List.count_filter (by simp [hr])] at this

theorem count_subIDs (p : Properties) :
    p.subscriptionIdentifiers.length ≤ (p.entries.map Entry.id).count 0x0B := by
  have hsub : listEntries 0x0B .varint p.subscriptionIdentifiers <+ p.entries :=
    List.sublist_flatten_of_mem (by simp [Properties.groups])
  calc p.subscriptionIdentifiers.length
      = ((listEntries 0x0B .varint p.subscriptionIdentifiers).map Entry.id).count 0x0B := by
        simp [listEntries, Function.comp_def]
    _ ≤ _ := (hsub.map Entry.id).count_le 0x0B

/-! ## Both directions -/

/-- The contexts a block may stand in: thirteen packet types and the Will. -/
def contexts : List PropTarget :=
  [tgConnect, tgConnack, tgPublish, tgPuback, tgPubrec, tgPubrel, tgPubcomp, tgSubscribe, tgSuback,
   tgUnsubscribe, tgUnsuback, tgDisconnect, tgAuth, willBit]

/-- A value with every property absent is no value at all. An empty string or
binary is an absent one in `Properties` already. -/
def normalise (p : Option Properties) : Option Properties := if p = some {} then none else p

theorem encodeProperties_ok {p : Option Properties} {b : Bytes} :
    encodeProperties p target = .ok b ↔
      OneSubID target (p.getD {}).subscriptionIdentifiers ∧
      (∀ e ∈ (p.getD {}).entries, e.Legal target) ∧
      (wire (p.getD {}).entries).length ≤ maxVarint ∧
      b = appendVarint (wire (p.getD {}).entries).length.toUInt32 ++ wire (p.getD {}).entries := by
  cases p with
  | none =>
    rw [Option.getD_none, show Properties.entries {} = [] from rfl]
    simp [encodeProperties, OneSubID, wire, appendVarint, appendVarintLoop, eq_comm]
  | some p =>
    rw [Option.getD_some, encodeProperties, bind_eq_ok]
    constructor
    · rintro ⟨body, hbody, h⟩
      obtain ⟨hone, hlegal, rfl⟩ := (writes_body p body).mp hbody
      split at h
      · cases h
      · rename_i hle
        cases h
        exact ⟨hone, hlegal, by omega, rfl⟩
    · rintro ⟨hone, hlegal, hle, rfl⟩
      refine ⟨_, (writes_body p _).mpr ⟨hone, hlegal, rfl⟩, ?_⟩
      rw [if_neg (by omega)]
      rfl

/-- What was encoded is decoded to the value, and the bytes after it are left. -/
theorem decodeProperties_encodeProperties {p : Option Properties} {b : Bytes}
    (h : encodeProperties p target = .ok b) (r : Bytes) :
    decodeProperties (b ++ r) target = .ok (normalise p, r) := by
  obtain ⟨hone, hlegal, hle, rfl⟩ := encodeProperties_ok.mp h
  refine decodeProperties_ok.mpr ⟨_, hle, rfl, hlegal, once_entries hone hlegal, ?_⟩
  rw [build_entries]
  cases p with
  | none => rfl
  | some p =>
    rw [Option.getD_some, normalise]
    by_cases hp : p = {}
    · subst hp
      rfl
    · rw [if_neg (by simpa using hp), if_neg]
      intro hnil
      have := build_entries p
      rw [hnil] at this
      exact hp this.symm

/-- A decoded value can be encoded, in no more bytes than it was read from. -/
theorem encodeProperties_decodeProperties (ht : target ∈ contexts) {s r : Bytes}
    {q : Option Properties} (h : decodeProperties s target = .ok (q, r)) :
    ∃ b, encodeProperties q target = .ok b ∧ b.length + r.length ≤ s.length := by
  obtain ⟨es, hle, rfl, hlegal, honce, rfl⟩ := decodeProperties_ok.mp h
  have hq : (if es = [] then none else some (es.foldl Properties.put {})).getD {} =
      es.foldl Properties.put {} := by
    split
    · subst_vars
      rfl
    · rfl
  have hsub := entries_build_subperm hlegal
  have hlen := length_wire_le hsub
  refine ⟨_, encodeProperties_ok.mpr ⟨?_, ?_, ?_, rfl⟩, ?_⟩
  · rw [hq]
    intro hsubscribe
    have hexcl : contexts.all (fun t => t &&& tgSubscribe = 0 || !repeatableProperty 0x0B t) =
        true := by decide
    have hrep := List.all_eq_true.mp hexcl target ht
    rw [decide_eq_false hsubscribe, Bool.false_or, Bool.not_eq_true'] at hrep
    calc _ ≤ _ := count_subIDs _
      _ ≤ _ := count_ids_le hsub
      _ ≤ 1 := count_le_one honce hrep
  · rw [hq]
    exact fun e he => hlegal e (hsub.subset he)
  · rw [hq]
    omega
  · rw [hq]
    have hn := toNat_length32 hle
    have hn' := toNat_length32 (hlen.trans hle)
    have hvar := length_appendVarint_le (hn'.le.trans (hlen.trans hn.ge))
    simp only [List.length_append]
    omega

/-- Encoding then decoding gives the value back and leaves what follows it;
decoding then encoding succeeds, and decoding that gives the value again. -/
theorem property_block_round_trip (ht : target ∈ contexts) :
    (∀ p b r, encodeProperties p target = .ok b →
      decodeProperties (b ++ r) target = .ok (normalise p, r)) ∧
    ∀ s q r, decodeProperties s target = .ok (q, r) →
      ∃ b, encodeProperties q target = .ok b ∧
        ∀ r', decodeProperties (b ++ r') target = .ok (normalise q, r') := by
  refine ⟨fun p b r h => decodeProperties_encodeProperties h r, fun s q r h => ?_⟩
  obtain ⟨b, hb, -⟩ := encodeProperties_decodeProperties ht h
  exact ⟨b, hb, decodeProperties_encodeProperties hb⟩

/-- A topic alias, two subscription identifiers and a user property. -/
def aliased : Properties where
  topicAlias := some 5
  subscriptionIdentifiers := [200, 1]
  userProperties := [⟨[0x61], []⟩]

theorem property_block_round_trip_publish : ∃ b,
    encodeProperties (some aliased) tgPublish = .ok b ∧
    decodeProperties (b ++ [7]) tgPublish = .ok (some aliased, [7]) ∧
    ∃ b', encodeProperties (some aliased) tgPublish = .ok b' ∧
      ∀ r', decodeProperties (b' ++ r') tgPublish = .ok (some aliased, r') := by
  have ht : tgPublish ∈ contexts := by decide
  have hdecode := (property_block_round_trip ht).1 (some aliased) _ [7] rfl
  exact ⟨_, rfl, hdecode, (property_block_round_trip ht).2 _ _ _ hdecode⟩

end GoMqtt.Protocol
