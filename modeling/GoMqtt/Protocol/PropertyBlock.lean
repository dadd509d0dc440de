import Mathlib.Data.List.Perm.Subperm
import GoMqtt.Protocol.Cursor
import GoMqtt.Protocol.Properties

/-! # Decoding the property block

`decodeProperties` as the source writes it, and the grammar both directions of the
codec meet at. On the wire a block is a list of entries, an identifier with a value
of that identifier's shape. The encoder writes the entries of a `Properties` in
ascending order; the decoder reads any list of legal entries in which nothing is
repeated that may not be, and puts them into a `Properties` one by one. -/
namespace GoMqtt.Protocol
open GoMqtt.Lib

/-! ## The decoder -/

/-- A property that may appear more than once in a block. -/
def repeatableProperty (id : UInt8) (target : PropTarget) : Bool :=
  if id == 0x26 then true
  else if id == 0x0B then target &&& tgPublish != 0
  else false

/-- A numeric property value, in the range `propertyValueViolation` leaves it. -/
def readNumProp {ν : Type} (widen : ν → UInt32) (read : Bytes → Except WireError (ν × Bytes))
    (c : Bytes) (id : UInt8) : Except WireError (ν × Bytes) := do
  let (v, c) ← read c
  match propertyValueViolation id (widen v) with
  | some why => .error (.malformedPacket ("property 0x" ++ hex2 id ++ " " ++ why))
  | none => .ok (v, c)

def readPropByte : Bytes → UInt8 → Except WireError (UInt8 × Bytes) :=
  readNumProp UInt8.toUInt32 readByte

def readPropUint16 : Bytes → UInt8 → Except WireError (UInt16 × Bytes) :=
  readNumProp UInt16.toUInt32 readUint16

def readPropUint32 : Bytes → UInt8 → Except WireError (UInt32 × Bytes) :=
  readNumProp id readUint32

/-- Read the one value of property `id` and store it on `p`. -/
def Properties.decodeOne (p : Properties) (c : Bytes) (id : UInt8) :
    Except WireError (Properties × Bytes) := do
  if id == 0x01 then
    let (v, c) ← readPropByte c id
    .ok ({ p with payloadFormat := some v }, c)
  else if id == 0x02 then
    let (v, c) ← readPropUint32 c id
    .ok ({ p with messageExpiryInterval := some v }, c)
  else if id == 0x03 then
    let (s, c) ← readString c
    .ok ({ p with contentType := s }, c)
  else if id == 0x08 then
    let (s, c) ← readString c
    .ok ({ p with responseTopic := s }, c)
  else if id == 0x09 then
    let (b, c) ← readBinary c
    .ok ({ p with correlationData := b }, c)
  else if id == 0x0B then
    let (v, c) ← readVarint c
    if v == 0 then .error (.malformedPacket "subscription identifier 0")
    else .ok ({ p with subscriptionIdentifiers := p.subscriptionIdentifiers ++ [v] }, c)
  else if id == 0x11 then
    let (v, c) ← readPropUint32 c id
    .ok ({ p with sessionExpiryInterval := some v }, c)
  else if id == 0x12 then
    let (s, c) ← readString c
    .ok ({ p with assignedClientID := s }, c)
  else if id == 0x13 then
    let (v, c) ← readPropUint16 c id
    .ok ({ p with serverKeepAlive := some v }, c)
  else if id == 0x15 then
    let (s, c) ← readString c
    .ok ({ p with authMethod := s }, c)
  else if id == 0x16 then
    let (b, c) ← readBinary c
    .ok ({ p with authData := b }, c)
  else if id == 0x17 then
    let (v, c) ← readPropByte c id
    .ok ({ p with requestProblemInfo := some v }, c)
  else if id == 0x18 then
    let (v, c) ← readPropUint32 c id
    .ok ({ p with willDelayInterval := some v }, c)
  else if id == 0x19 then
    let (v, c) ← readPropByte c id
    .ok ({ p with requestResponseInfo := some v }, c)
  else if id == 0x1A then
    let (s, c) ← readString c
    .ok ({ p with responseInfo := s }, c)
  else if id == 0x1C then
    let (s, c) ← readString c
    .ok ({ p with serverReference := s }, c)
  else if id == 0x1F then
    let (s, c) ← readString c
    .ok ({ p with reasonString := s }, c)
  else if id == 0x21 then
    let (v, c) ← readPropUint16 c id
    .ok ({ p with receiveMaximum := some v }, c)
  else if id == 0x22 then
    let (v, c) ← readPropUint16 c id
    .ok ({ p with topicAliasMaximum := some v }, c)
  else if id == 0x23 then
    let (v, c) ← readPropUint16 c id
    .ok ({ p with topicAlias := some v }, c)
  else if id == 0x24 then
    let (v, c) ← readPropByte c id
    .ok ({ p with maximumQoS := some v }, c)
  else if id == 0x25 then
    let (v, c) ← readPropByte c id
    .ok ({ p with retainAvailable := some v }, c)
  else if id == 0x26 then
    let (k, c) ← readString c
    let (val, c) ← readString c
    .ok ({ p with userProperties := p.userProperties ++ [⟨k, val⟩] }, c)
  else if id == 0x27 then
    let (v, c) ← readPropUint32 c id
    .ok ({ p with maximumPacketSize := some v }, c)
  else if id == 0x28 then
    let (v, c) ← readPropByte c id
    .ok ({ p with wildcardSubAvailable := some v }, c)
  else if id == 0x29 then
    let (v, c) ← readPropByte c id
    .ok ({ p with subIDAvailable := some v }, c)
  else if id == 0x2A then
    let (v, c) ← readPropByte c id
    .ok ({ p with sharedSubAvailable := some v }, c)
  else .error (.malformedPacket ("unhandled property 0x" ++ hex2 id))

/-! ## The grammar of a block -/

/-- The shapes a property value has on the wire. -/
inductive Shape
  | byte | u16 | u32 | str | bin | varint | pair
  deriving DecidableEq, Repr

def propertyShape (id : UInt8) : Shape :=
  if [0x01, 0x17, 0x19, 0x24, 0x25, 0x28, 0x29, 0x2A].contains id then .byte
  else if [0x13, 0x21, 0x22, 0x23].contains id then .u16
  else if [0x02, 0x11, 0x18, 0x27].contains id then .u32
  else if [0x09, 0x16].contains id then .bin
  else if id == 0x0B then .varint
  else if id == 0x26 then .pair
  else .str

inductive Value
  | byte (v : UInt8)
  | u16 (v : UInt16)
  | u32 (v : UInt32)
  | str (s : Bytes)
  | bin (b : Bytes)
  | varint (v : UInt32)
  | pair (up : UserProperty)
  deriving DecidableEq, Repr

def Value.bytes : Value → Bytes
  | .byte v => [v]
  | .u16 v => putUint16 v
  | .u32 v => putUint32 v
  | .str s => putUint16 s.length.toUInt16 ++ s
  | .bin b => putUint16 b.length.toUInt16 ++ b
  | .varint v => appendVarint v
  | .pair up => putUint16 up.key.length.toUInt16 ++ up.key ++
      (putUint16 up.value.length.toUInt16 ++ up.value)

/-- A value property `id` may have: of its shape and in its range. -/
def Value.Legal (id : UInt8) : Value → Prop
  | .byte v => propertyShape id = .byte ∧ propertyValueViolation id v.toUInt32 = none
  | .u16 v => propertyShape id = .u16 ∧ propertyValueViolation id v.toUInt32 = none
  | .u32 v => propertyShape id = .u32 ∧ propertyValueViolation id v = none
  | .str s => propertyShape id = .str ∧ WellFormed s
  | .bin b => propertyShape id = .bin ∧ b.length ≤ maxStringLen
  | .varint v => propertyShape id = .varint ∧ v ≠ 0 ∧ v.toNat ≤ maxVarint
  | .pair up => propertyShape id = .pair ∧ WellFormed up.key ∧ WellFormed up.value

structure Entry where
  id : UInt8
  value : Value
  deriving DecidableEq, Repr

def Entry.bytes (e : Entry) : Bytes := e.id :: e.value.bytes

/-- An entry that may stand in a block for `target`. -/
def Entry.Legal (target : PropTarget) (e : Entry) : Prop :=
  propertySpec e.id &&& target ≠ 0 ∧ e.value.Legal e.id

theorem Entry.Legal.known {target : PropTarget} {e : Entry} (h : e.Legal target) :
    propertySpec e.id ≠ 0 := fun h0 => h.1 (by rw [h0]; exact UInt32.zero_and)

/-- The bytes of a block, without its length. -/
def wire (es : List Entry) : Bytes := es.flatMap Entry.bytes

/-- Read the value of property `id`, whatever is done with it. -/
def readValue (id : UInt8) (c : Bytes) : Except WireError (Value × Bytes) :=
  match propertyShape id with
  | .byte => (readPropByte c id).map fun (v, c) => (.byte v, c)
  | .u16 => (readPropUint16 c id).map fun (v, c) => (.u16 v, c)
  | .u32 => (readPropUint32 c id).map fun (v, c) => (.u32 v, c)
  | .str => (readString c).map fun (s, c) => (.str s, c)
  | .bin => (readBinary c).map fun (b, c) => (.bin b, c)
  | .varint => do
    let (v, c) ← readVarint c
    if v == 0 then .error (.malformedPacket "subscription identifier 0")
    else .ok (.varint v, c)
  | .pair => do
    let (k, c) ← readString c
    let (val, c) ← readString c
    .ok (.pair ⟨k, val⟩, c)

/-- Store an entry; a repeated single-valued one takes the place of the first. -/
def Properties.put (p : Properties) (e : Entry) : Properties :=
  match e.id.toNat, e.value with
  | 0x01, .byte v => { p with payloadFormat := some v }
  | 0x02, .u32 v => { p with messageExpiryInterval := some v }
  | 0x03, .str s => { p with contentType := s }
  | 0x08, .str s => { p with responseTopic := s }
  | 0x09, .bin b => { p with correlationData := b }
  | 0x0B, .varint v => { p with subscriptionIdentifiers := p.subscriptionIdentifiers ++ [v] }
  | 0x11, .u32 v => { p with sessionExpiryInterval := some v }
  | 0x12, .str s => { p with assignedClientID := s }
  | 0x13, .u16 v => { p with serverKeepAlive := some v }
  | 0x15, .str s => { p with authMethod := s }
  | 0x16, .bin b => { p with authData := b }
  | 0x17, .byte v => { p with requestProblemInfo := some v }
  | 0x18, .u32 v => { p with willDelayInterval := some v }
  | 0x19, .byte v => { p with requestResponseInfo := some v }
  | 0x1A, .str s => { p with responseInfo := s }
  | 0x1C, .str s => { p with serverReference := s }
  | 0x1F, .str s => { p with reasonString := s }
  | 0x21, .u16 v => { p with receiveMaximum := some v }
  | 0x22, .u16 v => { p with topicAliasMaximum := some v }
  | 0x23, .u16 v => { p with topicAlias := some v }
  | 0x24, .byte v => { p with maximumQoS := some v }
  | 0x25, .byte v => { p with retainAvailable := some v }
  | 0x26, .pair up => { p with userProperties := p.userProperties ++ [up] }
  | 0x27, .u32 v => { p with maximumPacketSize := some v }
  | 0x28, .byte v => { p with wildcardSubAvailable := some v }
  | 0x29, .byte v => { p with subIDAvailable := some v }
  | 0x2A, .byte v => { p with sharedSubAvailable := some v }
  | _, _ => p

def propertyIds : List UInt8 :=
  [0x01, 0x02, 0x03, 0x08, 0x09, 0x0B, 0x11, 0x12, 0x13, 0x15, 0x16, 0x17, 0x18, 0x19, 0x1A,
   0x1C, 0x1F, 0x21, 0x22, 0x23, 0x24, 0x25, 0x26, 0x27, 0x28, 0x29, 0x2A]

theorem mem_propertyIds {id : UInt8} (h : propertySpec id ≠ 0) : id ∈ propertyIds := by
  by_contra hmem
  simp only [propertyIds, List.mem_cons, List.not_mem_nil, or_false, not_or] at hmem
  exact h (by simp [propertySpec, hmem])

/-- Storing a value is all `decodeOne` does after reading it. -/
theorem decodeOne_eq {id : UInt8} (h : propertySpec id ≠ 0) (p : Properties) (c : Bytes) :
    p.decodeOne c id = (readValue id c).map fun (v, c) => (p.put ⟨id, v⟩, c) := by
  have hid := mem_propertyIds h
  simp only [propertyIds, List.mem_cons, List.not_mem_nil, or_false] at hid
  rcases hid with rfl | rfl | rfl | rfl | rfl | rfl | rfl | rfl | rfl | rfl | rfl | rfl | rfl |
    rfl | rfl | rfl | rfl | rfl | rfl | rfl | rfl | rfl | rfl | rfl | rfl | rfl | rfl
  case inr.inr.inr.inr.inr.inl =>
    show (readVarint c >>= _) = Except.map _ (readVarint c >>= _)
    rcases readVarint c with e | ⟨v, c⟩
    · rfl
    · simp only [bind_ok]
      split <;> rfl
  case inr.inr.inr.inr.inr.inr.inr.inr.inr.inr.inr.inr.inr.inr.inr.inr.inr.inr.inr.inr.inr.inr.inl =>
    show (readString c >>= _) = Except.map _ (readString c >>= _)
    rcases readString c with e | ⟨k, c⟩
    · rfl
    · show (readString c >>= _) = Except.map _ (readString c >>= _)
      rcases readString c with e | ⟨v, c⟩ <;> rfl
  all_goals first
    | show (readPropByte c _ >>= _) = Except.map _ (Except.map _ (readPropByte c _))
      generalize readPropByte c _ = r
      rcases r with e | ⟨v, c⟩ <;> rfl
    | show (readPropUint16 c _ >>= _) = Except.map _ (Except.map _ (readPropUint16 c _))
      generalize readPropUint16 c _ = r
      rcases r with e | ⟨v, c⟩ <;> rfl
    | show (readPropUint32 c _ >>= _) = Except.map _ (Except.map _ (readPropUint32 c _))
      generalize readPropUint32 c _ = r
      rcases r with e | ⟨v, c⟩ <;> rfl
    | show (readString c >>= _) = Except.map _ (Except.map _ (readString c))
      generalize readString c = r
      rcases r with e | ⟨v, c⟩ <;> rfl
    | show (readBinary c >>= _) = Except.map _ (Except.map _ (readBinary c))
      generalize readBinary c = r
      rcases r with e | ⟨v, c⟩ <;> rfl

theorem map_eq_ok {ε α β : Type} {x : Except ε α} {f : α → β} {b : β} :
    x.map f = .ok b ↔ ∃ a, x = .ok a ∧ f a = b := by
  cases x <;> simp [Except.map]

theorem readNumProp_ok {ν : Type} {widen : ν → UInt32} {put : ν → Bytes}
    {read : Bytes → Except WireError (ν × Bytes)}
    (hread : ∀ c v rest, read c = .ok (v, rest) ↔ c = put v ++ rest) {c rest : Bytes} {id : UInt8}
    {v : ν} : readNumProp widen read c id = .ok (v, rest) ↔
      propertyValueViolation id (widen v) = none ∧ c = put v ++ rest := by
  unfold readNumProp
  rw [bind_eq_ok]
  constructor
  · rintro ⟨⟨v', c'⟩, hc, h⟩
    dsimp only at h
    split at h
    · cases h
    · rename_i hnone
      cases h
      exact ⟨hnone, (hread _ _ _).mp hc⟩
  · rintro ⟨hnone, rfl⟩
    refine ⟨(v, rest), (hread _ _ _).mpr rfl, ?_⟩
    simp only [hnone]

theorem readString_eq_ok {c rest s : Bytes} : readString c = .ok (s, rest) ↔
    WellFormed s ∧ c = putUint16 s.length.toUInt16 ++ s ++ rest := by
  simp only [readString_ok, appendString_ok]
  constructor
  · rintro ⟨b, ⟨hs, rfl⟩, rfl⟩
    exact ⟨hs, rfl⟩
  · rintro ⟨hs, rfl⟩
    exact ⟨_, ⟨hs, rfl⟩, rfl⟩

theorem readBinary_eq_ok {c rest b : Bytes} : readBinary c = .ok (b, rest) ↔
    b.length ≤ maxStringLen ∧ c = putUint16 b.length.toUInt16 ++ b ++ rest := by
  simp only [readBinary_ok, appendBinary_ok]
  constructor
  · rintro ⟨_, ⟨hb, rfl⟩, rfl⟩
    exact ⟨hb, rfl⟩
  · rintro ⟨hb, rfl⟩
    exact ⟨_, ⟨hb, rfl⟩, rfl⟩

/-- Exactly the legal values of a property are read. -/
theorem readValue_ok {id : UInt8} {c rest : Bytes} {v : Value} :
    readValue id c = .ok (v, rest) ↔ v.Legal id ∧ c = v.bytes ++ rest := by
  unfold readValue
  cases hs : propertyShape id with
  | byte =>
    have hbyte : ∀ c v rest, readByte c = .ok (v, rest) ↔ c = [v] ++ rest := fun _ _ _ => readByte_ok
    simp only [map_eq_ok, Prod.exists, readPropByte, readNumProp_ok hbyte]
    cases v <;> simp [Value.Legal, Value.bytes, hs]
  | u16 =>
    simp only [map_eq_ok, Prod.exists, readPropUint16, readNumProp_ok fun _ _ _ => readUint16_ok]
    cases v <;> simp [Value.Legal, Value.bytes, hs]
  | u32 =>
    simp only [map_eq_ok, Prod.exists, readPropUint32, readNumProp_ok fun _ _ _ => readUint32_ok]
    cases v <;> simp [Value.Legal, Value.bytes, hs]
  | str =>
    simp only [map_eq_ok, Prod.exists, readString_eq_ok]
    cases v <;> simp [Value.Legal, Value.bytes, hs]
  | bin =>
    simp only [map_eq_ok, Prod.exists, readBinary_eq_ok]
    cases v <;> simp [Value.Legal, Value.bytes, hs]
  | varint =>
    simp only [bind_eq_ok, Prod.exists, readVarint_ok]
    constructor
    · rintro ⟨n, c', ⟨hle, rfl⟩, h⟩
      split at h
      · cases h
      · rename_i hne
        cases h
        exact ⟨⟨hs, by simpa using hne, hle⟩, rfl⟩
    · rintro ⟨hv, rfl⟩
      cases v with
      | varint n =>
        refine ⟨n, rest, ⟨hv.2.2, rfl⟩, ?_⟩
        rw [if_neg (by simpa using hv.2.1)]
      | _ => simp [Value.Legal, hs] at hv
  | pair =>
    simp only [bind_eq_ok, Prod.exists, readString_eq_ok]
    constructor
    · rintro ⟨key, c', ⟨hkey, rfl⟩, value, _, ⟨hvalue, rfl⟩, h⟩
      cases h
      exact ⟨⟨hs, hkey, hvalue⟩, by simp [Value.bytes]⟩
    · rintro ⟨hv, rfl⟩
      cases v with
      | pair up =>
        exact ⟨up.key, _, ⟨hv.2.1, by simp [Value.bytes]⟩, up.value, rest, ⟨hv.2.2, rfl⟩, rfl⟩
      | _ => simp [Value.Legal, hs] at hv

theorem decodeOne_ok {id : UInt8} (h : propertySpec id ≠ 0) {p q : Properties} {c rest : Bytes} :
    p.decodeOne c id = .ok (q, rest) ↔
      ∃ v : Value, v.Legal id ∧ c = v.bytes ++ rest ∧ q = p.put ⟨id, v⟩ := by
  rw [decodeOne_eq h, map_eq_ok]
  constructor
  · rintro ⟨⟨v, c'⟩, hv, heq⟩
    cases heq
    obtain ⟨hlegal, rfl⟩ := readValue_ok.mp hv
    exact ⟨v, hlegal, rfl, rfl⟩
  · rintro ⟨v, hv, rfl, rfl⟩
    exact ⟨(v, rest), readValue_ok.mpr ⟨hv, rfl⟩, rfl⟩

/-! ## The loop -/

/-- The bit that marks a property as seen. -/
def seenBit (id : UInt8) : UInt64 := (1 : UInt64) <<< id.toUInt64

def markSeen (target : PropTarget) (seen : UInt64) (id : UInt8) : UInt64 :=
  if repeatableProperty id target then seen else seen ||| seenBit id

/-- The loop of `decodeProperties` over the block `c`. -/
def decodeLoop (target : PropTarget) (p : Properties) (seen : UInt64) :
    Bytes → Except WireError Properties
  | [] => .ok p
  | id :: c =>
    if propertySpec id = 0 then .error (.malformedPacket ("unknown property 0x" ++ hex2 id))
    else if propertySpec id &&& target = 0 then
      .error (.malformedPacket ("property 0x" ++ hex2 id ++ " illegal in this packet"))
    else if !repeatableProperty id target && seen &&& seenBit id != 0 then
      .error (.malformedPacket ("duplicate property 0x" ++ hex2 id))
    else
      match _h : p.decodeOne c id with
      | .error e => .error e
      | .ok (p, c) => decodeLoop target p (markSeen target seen id) c
termination_by c => c.length
decreasing_by
  obtain ⟨v, -, rfl, -⟩ := (decodeOne_ok (by assumption)).mp _h
  simp only [List.length_append, List.length_cons]
  omega

def decodeProperties (c : Bytes) (target : PropTarget) :
    Except WireError (Option Properties × Bytes) := do
  let (length, c) ← readVarint c
  let n := length.toNat
  if n > c.length then .error (.malformedPacket "property length overruns packet")
  else if n = 0 then .ok (none, c)
  else
    let p ← decodeLoop target {} 0 (c.take n)
    .ok (some p, c.drop n)

/-- What the marks allow: each entry in turn is repeatable or not yet marked. -/
def Fresh (target : PropTarget) : UInt64 → List Entry → Prop
  | _, [] => True
  | seen, e :: es =>
    (repeatableProperty e.id target = true ∨ seen &&& seenBit e.id = 0) ∧
    Fresh target (markSeen target seen e.id) es

theorem wire_cons (e : Entry) (es : List Entry) :
    wire (e :: es) = e.id :: (e.value.bytes ++ wire es) := rfl

/-- The loop accepts exactly the legal entries that are fresh, and stores them. -/
theorem decodeLoop_ok {target : PropTarget} {p q : Properties} {seen : UInt64} {c : Bytes} :
    decodeLoop target p seen c = .ok q ↔
      ∃ es, c = wire es ∧ (∀ e ∈ es, e.Legal target) ∧ Fresh target seen es ∧
        q = es.foldl Properties.put p := by
  constructor
  · intro h
    fun_induction decodeLoop target p seen c with
    | case1 p seen =>
      cases h
      exact ⟨[], rfl, by simp, trivial, rfl⟩
    | case2 | case3 | case4 | case5 => cases h
    | case6 p seen id c hknown hlegal hfresh p' c' hone ih =>
      obtain ⟨v, hv, rfl, rfl⟩ := (decodeOne_ok hknown).mp hone
      obtain ⟨es, rfl, hall, hes, rfl⟩ := ih h
      refine ⟨⟨id, v⟩ :: es, rfl, ?_, ⟨?_, hes⟩, rfl⟩
      · rintro e (_ | ⟨_, he⟩)
        · exact ⟨hlegal, hv⟩
        · exact hall e he
      · by_cases hr : repeatableProperty id target = true
        · exact .inl hr
        · exact .inr (by simpa [hr] using hfresh)
  · rintro ⟨es, rfl, hall, hes, rfl⟩
    induction es generalizing p seen with
    | nil => rw [wire, List.flatMap_nil, decodeLoop]; rfl
    | cons e es ih =>
      obtain ⟨hlegal, hv⟩ := hall e List.mem_cons_self
      have hknown := (hall e List.mem_cons_self).known
      have hone : p.decodeOne (e.value.bytes ++ wire es) e.id = .ok (p.put e, wire es) :=
        (decodeOne_ok hknown).mpr ⟨e.value, hv, rfl, rfl⟩
      have hmarks : ¬ (!repeatableProperty e.id target && seen &&& seenBit e.id != 0) = true := by
        rcases hes.1 with hr | hr <;> simp [hr]
      rw [wire_cons, decodeLoop, if_neg hknown, if_neg hlegal, if_neg hmarks]
      split
      · rename_i heq
        rw [hone] at heq
        cases heq
      · rename_i heq
        rw [hone] at heq
        cases heq
        exact ih (fun e' he => hall e' (List.mem_cons_of_mem _ he)) hes.2

/-! ## The marks as a set -/

/-- No property that may not be repeated appears twice. -/
def Once (target : PropTarget) (es : List Entry) : Prop :=
  ((es.map Entry.id).filter fun id => !repeatableProperty id target).Nodup

theorem seenBit_toNat {id : UInt8} (h : id.toNat < 64) : (seenBit id).toNat = 2 ^ id.toNat := by
  have hlt : 2 ^ id.toNat < 2 ^ 64 := Nat.pow_lt_pow_right (by omega) h
  rw [seenBit, UInt64.toNat_shiftLeft, UInt8.toNat_toUInt64, Nat.mod_eq_of_lt h, UInt64.toNat_one,
    Nat.one_shiftLeft, Nat.mod_eq_of_lt hlt]

theorem unseen_iff {id : UInt8} (h : id.toNat < 64) (seen : UInt64) :
    seen &&& seenBit id = 0 ↔ seen.toNat.testBit id.toNat = false := by
  rw [← UInt64.toNat_inj, UInt64.toNat_and, seenBit_toNat h, Nat.and_two_pow, UInt64.toNat_zero,
    Nat.mul_eq_zero, Bool.toNat_eq_zero]
  have : 0 < 2 ^ id.toNat := Nat.two_pow_pos _
  exact ⟨fun h => h.resolve_right (by omega), .inl⟩

/-- Marking one property marks no other. -/
theorem unseen_or {id id' : UInt8} (h : id.toNat < 64) (h' : id'.toNat < 64) (seen : UInt64) :
    (seen ||| seenBit id) &&& seenBit id' = 0 ↔ seen &&& seenBit id' = 0 ∧ id ≠ id' := by
  rw [unseen_iff h', unseen_iff h', UInt64.toNat_or, seenBit_toNat h, Nat.testBit_or,
    Nat.testBit_two_pow, Bool.or_eq_false_iff, decide_eq_false_iff_not, ne_eq, UInt8.toNat_inj]

theorem Entry.Legal.id_lt {target : PropTarget} {e : Entry} (h : e.Legal target) :
    e.id.toNat < 64 := by
  have hall : propertyIds.all (·.toNat < 64) = true := by decide
  exact of_decide_eq_true (List.all_eq_true.mp hall e.id (mem_propertyIds h.known))

theorem fresh_iff {target : PropTarget} {seen : UInt64} {es : List Entry}
    (h : ∀ e ∈ es, e.Legal target) : Fresh target seen es ↔
      Once target es ∧
      ∀ e ∈ es, repeatableProperty e.id target = false → seen &&& seenBit e.id = 0 := by
  induction es generalizing seen with
  | nil => simp [Fresh, Once]
  | cons e es ih =>
    have he := h e List.mem_cons_self
    have hes : ∀ e' ∈ es, e'.Legal target := fun e' h' => h e' (List.mem_cons_of_mem _ h')
    rw [Fresh, ih hes, List.forall_mem_cons]
    simp only [Once, List.map_cons]
    by_cases hr : repeatableProperty e.id target = true
    · simp [markSeen, hr]
    · have hmark : ∀ e' ∈ es, (seen ||| seenBit e.id) &&& seenBit e'.id = 0 ↔
          seen &&& seenBit e'.id = 0 ∧ e.id ≠ e'.id :=
        fun e' h' => unseen_or he.id_lt (hes e' h').id_lt seen
      have hr : repeatableProperty e.id target = false := by simpa using hr
      simp only [markSeen, hr, Bool.false_eq_true, if_false, false_or, List.filter_cons,
        Bool.not_false, if_true, List.nodup_cons, List.mem_filter, List.mem_map, true_implies]
      constructor
      · rintro ⟨hseen, honce, hall⟩
        refine ⟨⟨?_, honce⟩, hseen, fun e' h' hr' => ((hmark e' h').mp (hall e' h' hr')).1⟩
        rintro ⟨⟨e', h', heq⟩, -⟩
        exact ((hmark e' h').mp (hall e' h' (heq ▸ hr))).2 heq.symm
      · rintro ⟨⟨hnot, honce⟩, hseen, hall⟩
        refine ⟨hseen, honce, fun e' h' hr' => (hmark e' h').mpr ⟨hall e' h' hr', ?_⟩⟩
        intro heq
        exact hnot ⟨⟨e', h', heq.symm⟩, by simp⟩

/-! ## The block -/

theorem wire_eq_nil {es : List Entry} : wire es = [] ↔ es = [] := by
  cases es with
  | nil => simp [wire]
  | cons e es => simp [wire_cons]

theorem toNat_length32 {b : Bytes} (h : b.length ≤ maxVarint) :
    b.length.toUInt32.toNat = b.length := by
  unfold maxVarint at h
  rw [Nat.toUInt32_eq, UInt32.toNat_ofNat']
  omega

/-- A block is accepted exactly if it is the length and the bytes of legal
entries, nothing repeated that may not be; what it gives is the entries stored. -/
theorem decodeProperties_ok {target : PropTarget} {c rest : Bytes} {q : Option Properties} :
    decodeProperties c target = .ok (q, rest) ↔
      ∃ es, (wire es).length ≤ maxVarint ∧
        c = appendVarint (wire es).length.toUInt32 ++ wire es ++ rest ∧
        (∀ e ∈ es, e.Legal target) ∧ Once target es ∧
        q = if es = [] then none else some (es.foldl Properties.put {}) := by
  unfold decodeProperties
  rw [bind_eq_ok]
  constructor
  · rintro ⟨⟨n, c'⟩, hn, h⟩
    obtain ⟨hle, rfl⟩ := readVarint_ok.mp hn
    dsimp only at h
    split at h
    · cases h
    rename_i hlen
    split at h
    · rename_i hz
      cases h
      obtain rfl : n = 0 := UInt32.toNat_inj.mp hz
      exact ⟨[], by simp [wire], by simp [wire], by simp, by simp [Once], rfl⟩
    · rename_i hz
      obtain ⟨p, hp, h⟩ := bind_eq_ok.mp h
      cases h
      obtain ⟨es, hes, hlegal, hfresh, rfl⟩ := decodeLoop_ok.mp hp
      have hwire : (wire es).length = n.toNat := by
        rw [← hes, List.length_take]
        omega
      refine ⟨es, by omega, ?_, hlegal, ((fresh_iff hlegal).mp hfresh).1, ?_⟩
      · rw [hwire, ← hes, List.append_assoc, List.take_append_drop, Nat.toUInt32_eq,
          UInt32.ofNat_toNat]
      · rw [if_neg]
        rintro rfl
        simp [wire] at hwire
        omega
  · rintro ⟨es, hle, rfl, hlegal, honce, rfl⟩
    have hn := toNat_length32 hle
    refine ⟨((wire es).length.toUInt32, wire es ++ rest), readVarint_ok.mpr ⟨by omega, by simp⟩, ?_⟩
    dsimp only
    rw [hn, if_neg (by simp)]
    by_cases hes : es = []
    · subst hes
      simp [wire]
    · have hpos : (wire es).length ≠ 0 := by simpa [wire_eq_nil] using hes
      have hfresh : Fresh target 0 es := (fresh_iff hlegal).mpr ⟨honce, by simp⟩
      rw [if_neg hpos, if_neg hes, List.take_left, List.drop_left,
        decodeLoop_ok.mpr ⟨es, rfl, hlegal, hfresh, rfl⟩]
      rfl

end GoMqtt.Protocol
