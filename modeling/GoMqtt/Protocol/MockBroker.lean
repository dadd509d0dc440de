import GoMqtt.Protocol.Connect

/-! # The mock broker's decoders

The test suite's broker reads the two requests that only a client writes, with
a cursor of its own that checks less than the codec does: no UTF-8, no minimal
varints, no placement or repetition of properties. On what the codec accepts the
two agree, so the mock recovers from every encoded request what was put in. -/
namespace GoMqtt.Protocol.Mock

inductive MockError
  | truncated
  | overrun (n : Nat)
  | unknownProperty (id : UInt8)
  | noFilters (packet : PacketType)
  deriving DecidableEq, Repr

def MockError.error : MockError → String
  | .truncated => "mockbroker: truncated field"
  | .overrun n => s!"mockbroker: property length {n} overruns packet"
  | .unknownProperty id => "mockbroker: unknown property 0x" ++ hex2 id
  | .noFilters t => "mockbroker: " ++ t.string ++ " with no filters"

/-! ## The cursor -/

def readByte : Bytes → Except MockError (UInt8 × Bytes)
  | b :: c => .ok (b, c)
  | [] => .error .truncated

def readUint16 : Bytes → Except MockError (UInt16 × Bytes)
  | b0 :: b1 :: c => .ok (beUint16 b0 b1, c)
  | _ => .error .truncated

def readUint32 : Bytes → Except MockError (UInt32 × Bytes)
  | b0 :: b1 :: b2 :: b3 :: c => .ok (beUint32 b0 b1 b2 b3, c)
  | _ => .error .truncated

/-- The loop of `readVarint`, from byte `i` on. -/
def varintLoop : Nat → Nat → UInt32 → Bytes → Except MockError (UInt32 × Bytes)
  | 0, _, _, _ => .error .truncated
  | _ + 1, _, _, [] => .error .truncated
  | k + 1, i, value, b :: c =>
    let value := value ||| ((b &&& 0x7F).toUInt32 <<< (7 * i).toUInt32)
    if b &&& 0x80 == 0 then .ok (value, c) else varintLoop k (i + 1) value c

def readVarint (c : Bytes) : Except MockError (UInt32 × Bytes) := varintLoop 4 0 0 c

/-- The bytes behind a two-byte length. -/
def readField (c : Bytes) : Except MockError (Bytes × Bytes) := do
  let (n, c) ← readUint16 c
  if c.length < n.toNat then .error .truncated
  else .ok (c.take n.toNat, c.drop n.toNat)

def readString : Bytes → Except MockError (Bytes × Bytes) := readField

def readBinary : Bytes → Except MockError (Bytes × Bytes) := readField

/-! ## Property blocks -/

def decodeMockProperty (c : Bytes) (id : UInt8) (p : Properties) :
    Except MockError (Properties × Bytes) := do
  if id == 0x01 then
    let (v, c) ← readByte c
    .ok ({ p with payloadFormat := some v }, c)
  else if id == 0x02 then
    let (v, c) ← readUint32 c
    .ok ({ p with messageExpiryInterval := some v }, c)
  else if id == 0x03 then
    let (s, c) ← readString c
    .ok ({ p with contentType := s }, c)
  else if id == 0x08 then
    let (s, c) ← readString c
    .ok ({ p with responseTopic := s }, c)
  else if id == 0x09 then
    let (v, c) ← readBinary c
    .ok ({ p with correlationData := v }, c)
  else if id == 0x0B then
    let (v, c) ← readVarint c
    .ok ({ p with subscriptionIdentifiers := p.subscriptionIdentifiers ++ [v] }, c)
  else if id == 0x11 then
    let (v, c) ← readUint32 c
    .ok ({ p with sessionExpiryInterval := some v }, c)
  else if id == 0x12 then
    let (s, c) ← readString c
    .ok ({ p with assignedClientID := s }, c)
  else if id == 0x13 then
    let (v, c) ← readUint16 c
    .ok ({ p with serverKeepAlive := some v }, c)
  else if id == 0x15 then
    let (s, c) ← readString c
    .ok ({ p with authMethod := s }, c)
  else if id == 0x16 then
    let (v, c) ← readBinary c
    .ok ({ p with authData := v }, c)
  else if id == 0x17 then
    let (v, c) ← readByte c
    .ok ({ p with requestProblemInfo := some v }, c)
  else if id == 0x18 then
    let (v, c) ← readUint32 c
    .ok ({ p with willDelayInterval := some v }, c)
  else if id == 0x19 then
    let (v, c) ← readByte c
    .ok ({ p with requestResponseInfo := some v }, c)
  else if id == 0x1A then
    let (s, c) ← readString c
    .ok ({ p with responseInfo := s }, c)
  else if id == 0x1C then
    let (s, c) ← readString c
    .ok ({ p with serverReference := s }, c)
  else if id == 0x1F then
    let (s, c) ← readString c
    .ok ({ p with reasonString := s }, c)
  else if id == 0x21 then
    let (v, c) ← readUint16 c
    .ok ({ p with receiveMaximum := some v }, c)
  else if id == 0x22 then
    let (v, c) ← readUint16 c
    .ok ({ p with topicAliasMaximum := some v }, c)
  else if id == 0x23 then
    let (v, c) ← readUint16 c
    .ok ({ p with topicAlias := some v }, c)
  else if id == 0x24 then
    let (v, c) ← readByte c
    .ok ({ p with maximumQoS := some v }, c)
  else if id == 0x25 then
    let (v, c) ← readByte c
    .ok ({ p with retainAvailable := some v }, c)
  else if id == 0x26 then
    let (k, c) ← readString c
    let (v, c) ← readString c
    .ok ({ p with userProperties := p.userProperties ++ [⟨k, v⟩] }, c)
  else if id == 0x27 then
    let (v, c) ← readUint32 c
    .ok ({ p with maximumPacketSize := some v }, c)
  else if id == 0x28 then
    let (v, c) ← readByte c
    .ok ({ p with wildcardSubAvailable := some v }, c)
  else if id == 0x29 then
    let (v, c) ← readByte c
    .ok ({ p with subIDAvailable := some v }, c)
  else if id == 0x2A then
    let (v, c) ← readByte c
    .ok ({ p with sharedSubAvailable := some v }, c)
  else .error (.unknownProperty id)

/-- A reader leaves no more than it was given. -/
def Shrinks {α : Type} (x : Except MockError (α × Bytes)) (n : Nat) : Prop :=
  ∀ a rest, x = .ok (a, rest) → rest.length ≤ n

theorem Shrinks.bind {α β : Type} {x : Except MockError (α × Bytes)} {n : Nat}
    {f : α × Bytes → Except MockError (β × Bytes)} (hx : Shrinks x n)
    (hf : ∀ a rest, rest.length ≤ n → Shrinks (f (a, rest)) n) : Shrinks (x >>= f) n := by
  intro b rest h
  obtain ⟨⟨a, c⟩, ha, hb⟩ := bind_eq_ok.mp h
  exact hf a c (hx a c ha) b rest hb

theorem Shrinks.ok {α : Type} {a : α} {c : Bytes} {n : Nat} (h : c.length ≤ n) :
    Shrinks (.ok (a, c)) n := by
  intro a' rest heq
  cases heq
  exact h

theorem readByte_shrinks (c : Bytes) : Shrinks (readByte c) c.length := by
  intro a rest h
  cases c with
  | nil => cases h
  | cons b c =>
    cases h
    simp

theorem readUint16_shrinks (c : Bytes) : Shrinks (readUint16 c) c.length := by
  intro a rest h
  unfold readUint16 at h
  split at h
  · cases h
    simp only [List.length_cons]
    omega
  · cases h

theorem readUint32_shrinks (c : Bytes) : Shrinks (readUint32 c) c.length := by
  intro a rest h
  unfold readUint32 at h
  split at h
  · cases h
    simp only [List.length_cons]
    omega
  · cases h

theorem readVarint_shrinks (c : Bytes) : Shrinks (readVarint c) c.length := by
  unfold readVarint
  generalize 4 = k
  generalize 0 = i
  generalize (0 : UInt32) = value
  induction k generalizing i value c with
  | zero =>
    intro a rest h
    cases h
  | succ k ih =>
    intro a rest h
    cases c with
    | nil => cases h
    | cons b c =>
      rw [varintLoop] at h
      split at h
      · cases h
        simp
      · have := ih c (i + 1) _ a rest h
        simp only [List.length_cons]
        omega

theorem readField_shrinks (c : Bytes) : Shrinks (readField c) c.length := by
  refine Shrinks.bind (readUint16_shrinks c) ?_
  intro n rest hle
  dsimp only
  split
  · intro a rest h
    cases h
  · refine Shrinks.ok ?_
    rw [List.length_drop]
    omega

theorem Shrinks.ite {α : Type} {x y : Except MockError (α × Bytes)} {n : Nat} {cond : Prop}
    [Decidable cond] (hx : Shrinks x n) (hy : Shrinks y n) : Shrinks (if cond then x else y) n := by
  split
  · exact hx
  · exact hy

theorem decodeMockProperty_shrinks (c : Bytes) (id : UInt8) (p : Properties) :
    Shrinks (decodeMockProperty c id p) c.length := by
  unfold decodeMockProperty
  repeat first
    | refine Shrinks.ite (.bind (readByte_shrinks c) fun _ _ h => .ok h) ?_
    | refine Shrinks.ite (.bind (readUint16_shrinks c) fun _ _ h => .ok h) ?_
    | refine Shrinks.ite (.bind (readUint32_shrinks c) fun _ _ h => .ok h) ?_
    | refine Shrinks.ite (.bind (readVarint_shrinks c) fun _ _ h => .ok h) ?_
    | refine Shrinks.ite (.bind (readField_shrinks c) fun _ _ h => .ok h) ?_
    | refine Shrinks.ite (.bind (readField_shrinks c) fun _ rest h =>
        .bind (fun a r h' => (readField_shrinks rest a r h').trans h) fun _ _ h => .ok h) ?_
  intro a rest h
  cases h

/-- The loop of `decodeMockProperties` over the block `c`. -/
def decodeMockLoop (p : Properties) : Bytes → Except MockError Properties
  | [] => .ok p
  | id :: c =>
    match _h : decodeMockProperty c id p with
    | .error e => .error e
    | .ok (p, c) => decodeMockLoop p c
termination_by c => c.length
decreasing_by
  have := decodeMockProperty_shrinks _ _ _ _ _ _h
  simp only [List.length_cons]
  omega

def decodeMockProperties (c : Bytes) : Except MockError (Option Properties × Bytes) := do
  let (length, c) ← readVarint c
  let n := length.toNat
  if n > c.length then .error (.overrun n)
  else if n = 0 then .ok (none, c)
  else
    let p ← decodeMockLoop {} (c.take n)
    .ok (some p, c.drop n)

/-! ## The two requests -/

structure MockSubscribeInfo where
  packetID : UInt16
  subs : List Subscription
  deriving DecidableEq, Repr

/-- The property block of an MQTT 5.0 request, which is read over. -/
def skipProperties (v : Version) (c : Bytes) : Except MockError Bytes :=
  match v with
  | .v311 => .ok c
  | .v50 => (decodeMockProperties c).map Prod.snd

/-- The options an options byte stands for. -/
def decodeOptions (v : Version) (opt : UInt8) : SubscribeOptions :=
  match v with
  | .v311 => { qos := opt &&& 0x03 }
  | .v50 =>
    { qos := opt &&& 0x03
      noLocal := opt &&& 0x04 != 0
      retainAsPublished := opt &&& 0x08 != 0
      retainHandling := (opt >>> 4) &&& 0x03 }

theorem readField_shrinks_lt {c s rest : Bytes} (h : readField c = .ok (s, rest)) :
    rest.length < c.length := by
  unfold readField at h
  obtain ⟨⟨n, c'⟩, hn, h⟩ := bind_eq_ok.mp h
  have hlt : c'.length < c.length := by
    unfold readUint16 at hn
    split at hn
    · cases hn
      simp only [List.length_cons]
      omega
    · cases hn
  dsimp only at h
  split at h
  · cases h
  · cases h
    rw [List.length_drop]
    omega

/-- The loop over the filters of a SUBSCRIBE. -/
def subscriptionLoop (v : Version) (c : Bytes) : Except MockError (List Subscription) :=
  if c.isEmpty then .ok []
  else match _h : readString c with
    | .error e => .error e
    | .ok (filter, c) =>
      match _h' : readByte c with
      | .error e => .error e
      | .ok (opt, c) => do
        let subs ← subscriptionLoop v c
        return ⟨filter, decodeOptions v opt⟩ :: subs
termination_by c.length
decreasing_by
  have := readField_shrinks_lt _h
  have := readByte_shrinks _ _ _ _h'
  omega

def decodeMockSubscribe (v : Version) (body : Bytes) : Except MockError MockSubscribeInfo := do
  let (pid, c) ← readUint16 body
  let c ← skipProperties v c
  let subs ← subscriptionLoop v c
  if subs.isEmpty then .error (.noFilters .subscribe) else .ok ⟨pid, subs⟩

structure MockUnsubscribeInfo where
  packetID : UInt16
  filters : List Bytes
  deriving DecidableEq, Repr

/-- The loop over the filters of an UNSUBSCRIBE. -/
def filterLoop (c : Bytes) : Except MockError (List Bytes) :=
  if c.isEmpty then .ok []
  else match _h : readString c with
    | .error e => .error e
    | .ok (filter, c) => do
      let filters ← filterLoop c
      return filter :: filters
termination_by c.length
decreasing_by
  have := readField_shrinks_lt _h
  omega

def decodeMockUnsubscribe (v : Version) (body : Bytes) : Except MockError MockUnsubscribeInfo := do
  let (pid, c) ← readUint16 body
  let c ← skipProperties v c
  let filters ← filterLoop c
  if filters.isEmpty then .error (.noFilters .unsubscribe) else .ok ⟨pid, filters⟩

/-! ## Where the codec accepts, the mock reads the same -/

/-- The lenient reader returns what the strict one returns. -/
def Agrees {α : Type} (strict : Except WireError α) (lenient : Except MockError α) : Prop :=
  ∀ a, strict = .ok a → lenient = .ok a

theorem Agrees.bind {α β : Type} {x : Except WireError α} {y : Except MockError α}
    {f : α → Except WireError β} {g : α → Except MockError β} (h : Agrees x y)
    (hfg : ∀ a, Agrees (f a) (g a)) : Agrees (x >>= f) (y >>= g) := by
  intro b hb
  obtain ⟨a, ha, hfa⟩ := bind_eq_ok.mp hb
  exact bind_eq_ok.mpr ⟨a, h a ha, hfg a b hfa⟩

theorem Agrees.ok {α : Type} (a : α) : Agrees (.ok a) (.ok a) := by
  intro b h
  cases h
  rfl

/-- A check the lenient reader leaves out. -/
theorem Agrees.guard {α : Type} {x : Except WireError α} {y : Except MockError α} {e : WireError}
    {cond : Prop} [Decidable cond] (h : Agrees x y) :
    Agrees (if cond then .error e else x) y := by
  intro a ha
  exact h a (guard_eq_ok.mp ha).2

theorem readByte_agrees (c : Bytes) : Agrees (Protocol.readByte c) (readByte c) := by
  intro a h
  cases c <;> cases h
  rfl

theorem readUint16_agrees (c : Bytes) : Agrees (Protocol.readUint16 c) (readUint16 c) := by
  intro ⟨v, rest⟩ h
  rw [readUint16_ok.mp h]
  simp only [putUint16, List.cons_append, List.nil_append, readUint16, beUint16_putUint16]

theorem readUint32_agrees (c : Bytes) : Agrees (Protocol.readUint32 c) (readUint32 c) := by
  intro ⟨v, rest⟩ h
  rw [readUint32_ok.mp h]
  simp only [putUint32, List.cons_append, List.nil_append, readUint32, beUint32_putUint32]

theorem readVarint_agrees (c : Bytes) : Agrees (Protocol.readVarint c) (readVarint c) := by
  have hloop : ∀ k i value c v rest, Protocol.varintLoop
      (WireError.malformedPacket "truncated byte") WireError.malformedPacket k i value c =
        (.ok v, rest) → varintLoop k i value c = .ok (v, rest) := by
    intro k
    induction k with
    | zero =>
      intro i value c v rest h
      cases h
    | succ k ih =>
      intro i value c v rest h
      cases c with
      | nil => cases h
      | cons b c =>
        rw [Protocol.varintLoop] at h
        rw [varintLoop]
        split at h
        · rename_i hlast
          rw [if_pos hlast]
          split at h
          · cases h
          · cases h
            rfl
        · rename_i hlast
          rw [if_neg hlast]
          exact ih _ _ _ _ _ h
  intro a h
  obtain ⟨v, rest⟩ := a
  unfold Protocol.readVarint at h
  split at h
  · rename_i heq
    cases h
    exact hloop _ _ _ _ _ _ heq
  · cases h

theorem readBinary_agrees (c : Bytes) : Agrees (Protocol.readBinary c) (readField c) := by
  refine Agrees.bind (readUint16_agrees c) fun ⟨n, c⟩ => ?_
  intro a h
  dsimp only at h ⊢
  obtain ⟨hlen, h⟩ := guard_eq_ok.mp h
  rw [if_neg hlen]
  cases h
  rfl

theorem readString_agrees (c : Bytes) : Agrees (Protocol.readString c) (readField c) := by
  refine Agrees.bind (readUint16_agrees c) fun ⟨n, c⟩ => ?_
  intro a h
  dsimp only at h ⊢
  obtain ⟨hlen, h⟩ := guard_eq_ok.mp h
  obtain ⟨-, h⟩ := guard_eq_ok.mp h
  obtain ⟨-, h⟩ := guard_eq_ok.mp h
  rw [if_neg hlen]
  cases h
  rfl

theorem readNumProp_agrees {ν : Type} {widen : ν → UInt32}
    {strict : Bytes → Except WireError (ν × Bytes)} {lenient : Bytes → Except MockError (ν × Bytes)}
    (h : ∀ c, Agrees (strict c) (lenient c)) (c : Bytes) (id : UInt8) :
    Agrees (readNumProp widen strict c id) (lenient c) := by
  intro a ha
  obtain ⟨⟨v, rest⟩, hread, hcheck⟩ := bind_eq_ok.mp ha
  dsimp only at hcheck
  split at hcheck
  · cases hcheck
  · cases hcheck
    exact h c _ hread

theorem readPropByte_agrees (c : Bytes) (id : UInt8) : Agrees (readPropByte c id) (readByte c) :=
  readNumProp_agrees readByte_agrees c id

theorem readPropUint16_agrees (c : Bytes) (id : UInt8) :
    Agrees (readPropUint16 c id) (readUint16 c) := readNumProp_agrees readUint16_agrees c id

theorem readPropUint32_agrees (c : Bytes) (id : UInt8) :
    Agrees (readPropUint32 c id) (readUint32 c) := readNumProp_agrees readUint32_agrees c id

theorem Agrees.ite {α : Type} {x x' : Except WireError α} {y y' : Except MockError α} {cond : Prop}
    [Decidable cond] (h : Agrees x y) (h' : Agrees x' y') :
    Agrees (if cond then x else x') (if cond then y else y') := by
  split
  · exact h
  · exact h'

theorem decodeMockProperty_agrees (p : Properties) (c : Bytes) (id : UInt8) :
    Agrees (p.decodeOne c id) (decodeMockProperty c id p) := by
  unfold Properties.decodeOne decodeMockProperty
  repeat first
    | refine Agrees.ite (.bind (readPropByte_agrees c id) fun _ => .ok _) ?_
    | refine Agrees.ite (.bind (readPropUint16_agrees c id) fun _ => .ok _) ?_
    | refine Agrees.ite (.bind (readPropUint32_agrees c id) fun _ => .ok _) ?_
    | refine Agrees.ite (.bind (readString_agrees c) fun _ => .ok _) ?_
    | refine Agrees.ite (.bind (readBinary_agrees c) fun _ => .ok _) ?_
    | refine Agrees.ite (.bind (readVarint_agrees c) fun _ => .guard (.ok _)) ?_
    | refine Agrees.ite (.bind (readString_agrees c) fun x =>
        .bind (readString_agrees x.2) fun _ => .ok _) ?_
  intro a h
  cases h

theorem decodeMockLoop_agrees (target : PropTarget) (p : Properties) (seen : UInt64) (c : Bytes) :
    Agrees (decodeLoop target p seen c) (decodeMockLoop p c) := by
  intro q h
  fun_induction decodeLoop target p seen c with
  | case1 p seen =>
    cases h
    rw [decodeMockLoop]
  | case2 | case3 | case4 | case5 => cases h
  | case6 p seen id c _ _ _ p' c' hone ih =>
    have hmock := decodeMockProperty_agrees p c id _ hone
    rw [decodeMockLoop]
    split
    · rename_i heq
      rw [hmock] at heq
      cases heq
    · rename_i heq
      rw [hmock] at heq
      cases heq
      exact ih h

theorem decodeMockProperties_agrees (c : Bytes) (target : PropTarget) :
    Agrees (decodeProperties c target) (decodeMockProperties c) := by
  refine Agrees.bind (readVarint_agrees c) fun ⟨length, c⟩ => ?_
  intro a h
  dsimp only at h ⊢
  obtain ⟨hlen, h⟩ := guard_eq_ok.mp h
  rw [if_neg hlen]
  refine Agrees.ite (.ok _) ?_ a h
  exact Agrees.bind (decodeMockLoop_agrees target {} 0 _) fun _ => .ok _

theorem skipProperties_writeBlock {v : Version} {p : Option Properties} {target : PropTarget}
    {block : Bytes} (h : writeBlock v p target = .ok block) (r : Bytes) :
    skipProperties v (block ++ r) = .ok r := by
  have hread := readBlock_writeBlock h r
  cases v with
  | v311 =>
    cases h
    rfl
  | v50 =>
    have hmock := decodeMockProperties_agrees _ _ _ hread
    simp only [skipProperties, hmock, Except.map]

/-! ## The mock recovers a request -/

/-- What the wire carries of subscription options. -/
def normalisedOptions (v : Version) (o : SubscribeOptions) : SubscribeOptions :=
  match v with
  | .v311 => { qos := o.qos }
  | .v50 => o

theorem decodeOptions_subscribeOptionsByte {v : Version} {o : SubscribeOptions} {opt : UInt8}
    (h : subscribeOptionsByte v o = .ok opt) : decodeOptions v opt = normalisedOptions v o := by
  unfold subscribeOptionsByte at h
  obtain ⟨qos, noLocal, retainAsPublished, retainHandling⟩ := o
  cases v with
  | v311 =>
    dsimp only at h
    split at h
    · cases h
    rename_i hqos
    cases h
    rcases qos_cases (UInt8.not_lt.mp hqos) with rfl | rfl | rfl <;> rfl
  | v50 =>
    dsimp only at h
    split at h
    · cases h
    rename_i hqos
    split at h
    · cases h
    rename_i hrh
    cases h
    rcases qos_cases (UInt8.not_lt.mp hqos) with rfl | rfl | rfl <;>
      rcases qos_cases (UInt8.not_lt.mp hrh) with rfl | rfl | rfl <;> cases noLocal <;>
      cases retainAsPublished <;> rfl

theorem readField_appendString {s b : Bytes} (h : appendString s = .ok b) (r : Bytes) :
    readString (b ++ r) = .ok (s, r) :=
  readString_agrees _ _ (readString_ok.mpr ⟨b, h, rfl⟩)

theorem subscriptionLoop_cons {v : Version} {c filter c' c'' : Bytes} {opt : UInt8}
    (h : readString c = .ok (filter, c')) (h' : readByte c' = .ok (opt, c'')) :
    subscriptionLoop v c = (do
      let subs ← subscriptionLoop v c''
      return ⟨filter, decodeOptions v opt⟩ :: subs) := by
  have hne : ¬ c.isEmpty = true := by
    intro hnil
    rw [List.isEmpty_iff.mp hnil] at h
    cases h
  rw [subscriptionLoop, if_neg hne]
  split
  · rename_i heq
    rw [h] at heq
    cases heq
  rename_i heq
  rw [h] at heq
  cases heq
  split
  · rename_i heq
    rw [h'] at heq
    cases heq
  rename_i heq
  rw [h'] at heq
  cases heq
  rfl

theorem filterLoop_cons {c filter c' : Bytes} (h : readString c = .ok (filter, c')) :
    filterLoop c = (do
      let filters ← filterLoop c'
      return filter :: filters) := by
  have hne : ¬ c.isEmpty = true := by
    intro hnil
    rw [List.isEmpty_iff.mp hnil] at h
    cases h
  rw [filterLoop, if_neg hne]
  split
  · rename_i heq
    rw [h] at heq
    cases heq
  rename_i heq
  rw [h] at heq
  cases heq
  rfl

/-- What a SUBSCRIBE carries of one subscription. -/
def writeSubscription (v : Version) (sub : Subscription) : Except WireError Bytes := do
  let filter ← appendString sub.filter
  let opt ← subscribeOptionsByte v sub.options
  return filter ++ [opt]

theorem subscriptionLoop_payload {v : Version} {subs : List Subscription} {payload : Bytes}
    (h : appendAll (subs.map (writeSubscription v)) = .ok payload) :
    subscriptionLoop v payload =
      .ok (subs.map fun sub => { sub with options := normalisedOptions v sub.options }) := by
  induction subs generalizing payload with
  | nil =>
    cases h
    rw [subscriptionLoop]
    rfl
  | cons sub subs ih =>
    obtain ⟨one, rest, hone, hrest, rfl⟩ := appendAll_cons_ok.mp h
    obtain ⟨filter, hfilter, hone⟩ := bind_eq_ok.mp hone
    obtain ⟨opt, hopt, hone⟩ := bind_eq_ok.mp hone
    cases hone
    have hread := readField_appendString hfilter ([opt] ++ rest)
    have hopt' : readByte ([opt] ++ rest) = .ok (opt, rest) := rfl
    rw [List.append_assoc, subscriptionLoop_cons hread hopt', ih hrest,
      decodeOptions_subscribeOptionsByte hopt]
    rfl

theorem filterLoop_payload {filters : List Bytes} {payload : Bytes}
    (h : appendAll (filters.map appendString) = .ok payload) :
    filterLoop payload = .ok filters := by
  induction filters generalizing payload with
  | nil =>
    cases h
    rw [filterLoop]
    rfl
  | cons filter filters ih =>
    obtain ⟨one, rest, hone, hrest, rfl⟩ := appendAll_cons_ok.mp h
    rw [filterLoop_cons (readField_appendString hone rest), ih hrest]
    rfl

end GoMqtt.Protocol.Mock

namespace GoMqtt.Protocol
open Mock

/-- What the wire carries of a SUBSCRIBE. -/
def SubscribePacket.normalised (p : SubscribePacket) : SubscribePacket :=
  { p with
    subscriptions := p.subscriptions.map fun sub =>
      { sub with options := normalisedOptions p.version sub.options }
    properties := p.version.carries p.properties }

/-- What the wire carries of an UNSUBSCRIBE. -/
def UnsubscribePacket.normalised (p : UnsubscribePacket) : UnsubscribePacket :=
  { p with properties := p.version.carries p.properties }

theorem SubscribePacket.encode_ok {p : SubscribePacket} {b : Bytes} (h : p.encode = .ok b) :
    p.subscriptions ≠ [] ∧ ∃ block payload, writeBlock p.version p.properties tgSubscribe = .ok block ∧
      subscriptionLoop p.version payload = .ok p.normalised.subscriptions ∧
      writePacket ((PacketType.subscribe.code <<< 4) ||| 0x02)
        (putUint16 p.packetID ++ block ++ payload) = .ok b := by
  unfold SubscribePacket.encode at h
  dsimp only at h
  split at h
  · cases h
  split at h
  · cases h
  rename_i hne
  have hparts : (do
      let block ← writeBlock p.version p.properties tgSubscribe
      let payload ← appendAll (p.subscriptions.map (writeSubscription p.version))
      writePacket ((PacketType.subscribe.code <<< 4) ||| 0x02)
        (putUint16 p.packetID ++ block ++ payload)) = .ok b := by
    unfold writeBlock
    cases hv : p.version <;> simp only [hv] at h ⊢ <;> exact h
  obtain ⟨block, hblock, h⟩ := bind_eq_ok.mp hparts
  obtain ⟨payload, hpayload, h⟩ := bind_eq_ok.mp h
  exact ⟨by simpa using hne, block, payload, hblock, subscriptionLoop_payload hpayload, h⟩

theorem UnsubscribePacket.encode_ok {p : UnsubscribePacket} {b : Bytes} (h : p.encode = .ok b) :
    p.filters ≠ [] ∧ ∃ block payload, writeBlock p.version p.properties tgUnsubscribe = .ok block ∧
      filterLoop payload = .ok p.filters ∧
      writePacket ((PacketType.unsubscribe.code <<< 4) ||| 0x02)
        (putUint16 p.packetID ++ block ++ payload) = .ok b := by
  unfold UnsubscribePacket.encode at h
  dsimp only at h
  split at h
  · cases h
  split at h
  · cases h
  rename_i hne
  have hparts : (do
      let block ← writeBlock p.version p.properties tgUnsubscribe
      let payload ← appendAll (p.filters.map appendString)
      writePacket ((PacketType.unsubscribe.code <<< 4) ||| 0x02)
        (putUint16 p.packetID ++ block ++ payload)) = .ok b := by
    unfold writeBlock
    cases hv : p.version <;> simp only [hv] at h ⊢ <;> exact h
  obtain ⟨block, hblock, h⟩ := bind_eq_ok.mp hparts
  obtain ⟨payload, hpayload, h⟩ := bind_eq_ok.mp h
  exact ⟨by simpa using hne, block, payload, hblock, filterLoop_payload hpayload, h⟩

theorem putUint16_inj {v v' : UInt16} {r r' : Bytes} (h : putUint16 v ++ r = putUint16 v' ++ r') :
    v = v' ∧ r = r' := by
  have hread := readUint16_ok.mpr h
  rw [readUint16_ok.mpr (rfl : putUint16 v ++ r = putUint16 v ++ r)] at hread
  exact Prod.mk.inj (Except.ok.inj hread)

/-- Two SUBSCRIBE packets of one version with the same bytes say the same. -/
theorem SubscribePacket.encode_inj {p q : SubscribePacket} {b : Bytes} (hv : p.version = q.version)
    (hp : p.encode = .ok b) (hq : q.encode = .ok b) : p.normalised = q.normalised := by
  obtain ⟨-, block, payload, hblock, hsubs, hw⟩ := SubscribePacket.encode_ok hp
  obtain ⟨-, block', payload', hblock', hsubs', hw'⟩ := SubscribePacket.encode_ok hq
  have hbody := writePacket_inj hw hw'
  rw [List.append_assoc, List.append_assoc] at hbody
  obtain ⟨hid, hbody⟩ := putUint16_inj hbody
  rw [← hv] at hblock' hsubs'
  obtain ⟨hprops, rfl⟩ := writeBlock_unambiguous p.version tgSubscribe hblock hblock' hbody
  have hsame := Except.ok.inj (hsubs.symm.trans hsubs')
  unfold SubscribePacket.normalised at hsame ⊢
  rw [← hv] at hsame ⊢
  simp only [SubscribePacket.mk.injEq, true_and]
  exact ⟨hid, hsame, hprops⟩

theorem UnsubscribePacket.encode_inj {p q : UnsubscribePacket} {b : Bytes}
    (hv : p.version = q.version) (hp : p.encode = .ok b) (hq : q.encode = .ok b) :
    p.normalised = q.normalised := by
  obtain ⟨-, block, payload, hblock, hfilters, hw⟩ := UnsubscribePacket.encode_ok hp
  obtain ⟨-, block', payload', hblock', hfilters', hw'⟩ := UnsubscribePacket.encode_ok hq
  have hbody := writePacket_inj hw hw'
  rw [List.append_assoc, List.append_assoc] at hbody
  obtain ⟨hid, hbody⟩ := putUint16_inj hbody
  rw [← hv] at hblock'
  obtain ⟨hprops, rfl⟩ := writeBlock_unambiguous p.version tgUnsubscribe hblock hblock' hbody
  have hsame := Except.ok.inj (hfilters.symm.trans hfilters')
  unfold UnsubscribePacket.normalised
  rw [← hv]
  simp only [UnsubscribePacket.mk.injEq, true_and]
  exact ⟨hid, hsame, hprops⟩

/-- The mock reads from an encoded SUBSCRIBE the identifier and the filters. -/
theorem decodeMockSubscribe_encode {p : SubscribePacket} {b : Bytes} (h : p.encode = .ok b) :
    ∃ body, writePacket ((PacketType.subscribe.code <<< 4) ||| 0x02) body = .ok b ∧
      decodeMockSubscribe p.version body = .ok ⟨p.packetID, p.normalised.subscriptions⟩ := by
  obtain ⟨hne, block, payload, hblock, hsubs, hw⟩ := SubscribePacket.encode_ok h
  refine ⟨_, hw, ?_⟩
  have hid := readUint16_agrees _ _ (readUint16_ok.mpr
    (rfl : putUint16 p.packetID ++ (block ++ payload) = putUint16 p.packetID ++ (block ++ payload)))
  have hsome : ¬ p.normalised.subscriptions.isEmpty = true := by
    simpa [SubscribePacket.normalised] using hne
  unfold decodeMockSubscribe
  rw [List.append_assoc, hid, bind_ok]
  dsimp only
  rw [skipProperties_writeBlock hblock, bind_ok, hsubs, bind_ok, if_neg hsome]

theorem decodeMockUnsubscribe_encode {p : UnsubscribePacket} {b : Bytes} (h : p.encode = .ok b) :
    ∃ body, writePacket ((PacketType.unsubscribe.code <<< 4) ||| 0x02) body = .ok b ∧
      decodeMockUnsubscribe p.version body = .ok ⟨p.packetID, p.filters⟩ := by
  obtain ⟨hne, block, payload, hblock, hfilters, hw⟩ := UnsubscribePacket.encode_ok h
  refine ⟨_, hw, ?_⟩
  have hid := readUint16_agrees _ _ (readUint16_ok.mpr
    (rfl : putUint16 p.packetID ++ (block ++ payload) = putUint16 p.packetID ++ (block ++ payload)))
  have hsome : ¬ p.filters.isEmpty = true := by simpa using hne
  unfold decodeMockUnsubscribe
  rw [List.append_assoc, hid, bind_ok]
  dsimp only
  rw [skipProperties_writeBlock hblock, bind_ok, hfilters, bind_ok, if_neg hsome]

/-- The packets only a client writes are unambiguous: a CONNECT tells its
version, the other two are read in the version of their connection. -/
theorem client_packets_unambiguous :
    (∀ (p q : ConnectPacket) (b : Bytes), p.encode = .ok b → q.encode = .ok b →
      p.normalised = q.normalised) ∧
    (∀ (p q : SubscribePacket) (b : Bytes), p.version = q.version → p.encode = .ok b →
      q.encode = .ok b → p.normalised = q.normalised) ∧
    (∀ (p q : UnsubscribePacket) (b : Bytes), p.version = q.version → p.encode = .ok b →
      q.encode = .ok b → p.normalised = q.normalised) ∧
    (∀ (p : SubscribePacket) (b : Bytes), p.encode = .ok b →
      ∃ body, writePacket ((PacketType.subscribe.code <<< 4) ||| 0x02) body = .ok b ∧
        decodeMockSubscribe p.version body = .ok ⟨p.packetID, p.normalised.subscriptions⟩) ∧
    ∀ (p : UnsubscribePacket) (b : Bytes), p.encode = .ok b →
      ∃ body, writePacket ((PacketType.unsubscribe.code <<< 4) ||| 0x02) body = .ok b ∧
        decodeMockUnsubscribe p.version body = .ok ⟨p.packetID, p.filters⟩ :=
  ⟨fun _ _ _ hp hq => ConnectPacket.encode_inj hp hq,
    fun _ _ _ hv hp hq => SubscribePacket.encode_inj hv hp hq,
    fun _ _ _ hv hp hq => UnsubscribePacket.encode_inj hv hp hq,
    fun _ _ h => decodeMockSubscribe_encode h, fun _ _ h => decodeMockUnsubscribe_encode h⟩

/-- A CONNECT with everything in it. -/
def fullConnect : ConnectPacket where
  version := .v50
  clientID := [0x63]
  keepAlive := 30
  username := [0x75]
  password := [0x70]
  cleanStart := true
  will := some { topic := [0x77], payload := [1], qos := 1, retain := true, properties := some {} }
  properties := some { receiveMaximum := some 10 }

theorem client_packets_unambiguous_connect : ∃ b, fullConnect.encode = .ok b ∧
    ∀ q : ConnectPacket, q.encode = .ok b → fullConnect.normalised = q.normalised :=
  ⟨_, rfl, fun q hq => client_packets_unambiguous.1 fullConnect q _ rfl hq⟩

/-- An MQTT 5.0 request for the filters `01 04` and 257 times `"a"`. -/
def wideSubscribe : SubscribePacket where
  version := .v50
  packetID := 1
  subscriptions := [⟨[1, 4], { qos := 1 }⟩, ⟨List.replicate 257 0x61, {}⟩]

/-- An MQTT 3.1.1 request for the empty filter and `01 01 01` before 257 times `"a"`. -/
def narrowSubscribe : SubscribePacket where
  version := .v311
  packetID := 1
  subscriptions := [⟨[], { qos := 2 }⟩, ⟨[1, 1, 1] ++ List.replicate 257 0x61, {}⟩]

/-- A SUBSCRIBE does not tell its version: read in another one, the same bytes
are another request. -/
theorem subscribe_same_bytes : ∃ b, wideSubscribe.encode = .ok b ∧ narrowSubscribe.encode = .ok b ∧
    wideSubscribe.normalised.subscriptions.map Subscription.filter ≠
      narrowSubscribe.normalised.subscriptions.map Subscription.filter := by
  have hsame : wideSubscribe.encode.toOption = narrowSubscribe.encode.toOption := by
    decide +kernel
  have hsome : wideSubscribe.encode.toOption.isSome = true := by decide +kernel
  cases hwide : wideSubscribe.encode with
  | error e => rw [hwide] at hsome; cases hsome
  | ok b =>
    cases hnarrow : narrowSubscribe.encode with
    | error e => rw [hwide, hnarrow] at hsame; cases hsame
    | ok b' =>
      rw [hwide, hnarrow] at hsame
      cases hsame
      exact ⟨b, rfl, rfl, by decide⟩

end GoMqtt.Protocol
