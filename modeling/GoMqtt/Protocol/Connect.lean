import GoMqtt.Protocol.PacketRoundTrip

/-! # CONNECT

The first packet of a connection. The client only writes it, so there is no
decoder to compare the encoder with; instead two packets that encode to the
same bytes are shown to say the same. -/
namespace GoMqtt.Protocol
open GoMqtt.Lib

structure Will where
  topic : Bytes
  payload : Bytes := []
  qos : UInt8 := 0
  retain : Bool := false
  properties : Option Properties := none
  deriving DecidableEq, Repr

/-- An empty user name or password is none. -/
@[ext] structure ConnectPacket where
  version : Version
  clientID : Bytes
  keepAlive : UInt16 := 0
  username : Bytes := []
  password : Bytes := []
  cleanStart : Bool := false
  will : Option Will := none
  properties : Option Properties := none
  deriving DecidableEq, Repr

/-- The protocol level byte. -/
def Version.level : Version → UInt8
  | .v311 => 4
  | .v50 => 5

/-- `"MQTT"`. -/
def protocolName : Bytes := [0x4D, 0x51, 0x54, 0x54]

/-- The connect flags. -/
def ConnectPacket.flags (p : ConnectPacket) : Except WireError UInt8 := do
  let flags : UInt8 := if !p.username.isEmpty then 0x80 else 0
  let flags := if !p.password.isEmpty then flags ||| 0x40 else flags
  let flags ← match p.will with
    | none => .ok flags
    | some w =>
      if w.qos > 2 then .error (.protocolViolation s!"will QoS {w.qos}")
      else
        let flags := flags ||| 0x04
        let flags := flags ||| (w.qos <<< 3)
        .ok (if w.retain then flags ||| 0x20 else flags)
  return if p.cleanStart then flags ||| 0x02 else flags

/-- The will's part of the payload. -/
def willPayload (v : Version) : Option Will → Except WireError Bytes
  | none => .ok []
  | some w => appendAll
    [writeBlock v w.properties willBit, appendString w.topic, appendBinary w.payload]

/-- A part that is left out if it is empty. -/
def appendUnlessEmpty (append : Bytes → Except WireError Bytes) (s : Bytes) :
    Except WireError Bytes :=
  if s.isEmpty then .ok [] else append s

/-- What follows the keep-alive: the property block, the client identifier and
the parts the flags announce. -/
def ConnectPacket.payload (p : ConnectPacket) : Except WireError Bytes :=
  appendAll
    [ writeBlock p.version p.properties tgConnect
    , appendString p.clientID
    , willPayload p.version p.will
    , appendUnlessEmpty appendString p.username
    , appendUnlessEmpty appendBinary p.password ]

def ConnectPacket.encode (p : ConnectPacket) : Except WireError Bytes := do
  if p.version = .v311 && !p.password.isEmpty && p.username.isEmpty then
    throw (.protocolViolation "CONNECT password without username")
  let name ← appendString protocolName
  let flags ← p.flags
  let payload ← p.payload
  writePacket (PacketType.connect.code <<< 4)
    (name ++ [p.version.level, flags] ++ putUint16 p.keepAlive ++ payload)

/-- What the wire carries of a will. -/
def Will.normalised (v : Version) (w : Will) : Will :=
  { w with properties := v.carries w.properties }

/-- What the wire carries of a CONNECT. -/
def ConnectPacket.normalised (p : ConnectPacket) : ConnectPacket :=
  { p with
    will := p.will.map (Will.normalised p.version)
    properties := p.version.carries p.properties }

/-! ## Writers whose text tells what follows it -/

/-- If what two values write, each with something behind it, is the same, the
values agree up to `norm` and so does what is behind. -/
def Unambiguous {α β : Type} (write : α → Except WireError Bytes) (norm : α → β) : Prop :=
  ∀ ⦃x y a b r r'⦄, write x = .ok a → write y = .ok b → a ++ r = b ++ r' →
    norm x = norm y ∧ r = r'

/-- A writer that some reader undoes is unambiguous. -/
theorem Unambiguous.of_reader {α β : Type} {write : α → Except WireError Bytes} {norm : α → β}
    {read : Bytes → Except WireError (β × Bytes)}
    (h : ∀ x a r, write x = .ok a → read (a ++ r) = .ok (norm x, r)) : Unambiguous write norm := by
  intro x y a b r r' ha hb heq
  have hx := h x a r ha
  rw [heq, h y b r' hb] at hx
  obtain ⟨hnorm, hrest⟩ := Prod.mk.inj (Except.ok.inj hx)
  exact ⟨hnorm.symm, hrest.symm⟩

theorem appendString_unambiguous : Unambiguous appendString fun s => s :=
  Unambiguous.of_reader fun _ _ _ h => readString_ok.mpr ⟨_, h, rfl⟩

theorem appendBinary_unambiguous : Unambiguous appendBinary fun s => s :=
  Unambiguous.of_reader fun _ _ _ h => readBinary_ok.mpr ⟨_, h, rfl⟩

theorem writeBlock_unambiguous (v : Version) (target : PropTarget) :
    Unambiguous (fun p => writeBlock v p target) v.carries :=
  Unambiguous.of_reader fun _ _ r h => readBlock_writeBlock h r

/-- A complete packet is unambiguous: its length tells where it ends. -/
theorem writePacket_inj {header header' : UInt8} {body body' b : Bytes}
    (h : writePacket header body = .ok b) (h' : writePacket header' body' = .ok b) :
    body = body' := by
  obtain ⟨-, hb⟩ := writePacket_ok.mp h
  obtain ⟨-, hb'⟩ := writePacket_ok.mp h'
  have heq := (List.cons.inj (hb.symm.trans hb')).2
  exact ((appendVarint_isVarint _).unique_append (appendVarint_isVarint _) heq).2.2

/-- A part that is left out is as unambiguous as the part, if both are there or
neither is. -/
theorem appendUnlessEmpty_unambiguous {append : Bytes → Except WireError Bytes}
    (happend : Unambiguous append fun s => s) {s s' a b r r' : Bytes}
    (hsame : s.isEmpty = s'.isEmpty) (ha : appendUnlessEmpty append s = .ok a)
    (hb : appendUnlessEmpty append s' = .ok b) (heq : a ++ r = b ++ r') : s = s' ∧ r = r' := by
  unfold appendUnlessEmpty at ha hb
  cases hs : s.isEmpty with
  | true =>
    rw [if_pos hs] at ha
    rw [if_pos (hsame ▸ hs)] at hb
    cases ha
    cases hb
    have hs' : s'.isEmpty = true := hsame ▸ hs
    exact ⟨(List.isEmpty_iff.mp hs).trans (List.isEmpty_iff.mp hs').symm, heq⟩
  | false =>
    rw [if_neg (by simp [hs])] at ha
    rw [if_neg (by simp [← hsame, hs])] at hb
    exact happend ha hb heq

theorem willPayload_unambiguous {v : Version} {w w' : Will} {a b r r' : Bytes}
    (ha : willPayload v (some w) = .ok a) (hb : willPayload v (some w') = .ok b)
    (heq : a ++ r = b ++ r') :
    v.carries w.properties = v.carries w'.properties ∧ w.topic = w'.topic ∧
      w.payload = w'.payload ∧ r = r' := by
  obtain ⟨block, _, hblock, ha₁, rfl⟩ := appendAll_cons_ok.mp ha
  obtain ⟨topic, _, htopic, ha₂, rfl⟩ := appendAll_cons_ok.mp ha₁
  obtain ⟨payload, _, hpayload, ha₃, rfl⟩ := appendAll_cons_ok.mp ha₂
  cases ha₃
  obtain ⟨block', _, hblock', hb₁, rfl⟩ := appendAll_cons_ok.mp hb
  obtain ⟨topic', _, htopic', hb₂, rfl⟩ := appendAll_cons_ok.mp hb₁
  obtain ⟨payload', _, hpayload', hb₃, rfl⟩ := appendAll_cons_ok.mp hb₂
  cases hb₃
  simp only [List.append_assoc, List.nil_append] at heq
  obtain ⟨hprops, heq⟩ := writeBlock_unambiguous v willBit hblock hblock' heq
  obtain ⟨htop, heq⟩ := appendString_unambiguous htopic htopic' heq
  obtain ⟨hpay, heq⟩ := appendBinary_unambiguous hpayload hpayload' heq
  exact ⟨hprops, htop, hpay, heq⟩

/-! ## The flags -/

/-- What the flags say of a will: its QoS and whether it is retained. -/
def ConnectPacket.willBits (p : ConnectPacket) : Option (UInt8 × Bool) :=
  p.will.map fun w => (w.qos, w.retain)

/-- A flag's bit, or nothing. -/
def flagBit (set : Bool) (bit : UInt8) : UInt8 := if set then bit else 0

/-- The flags as a function of what they say. -/
def flagBits (user pass clean : Bool) : Option (UInt8 × Bool) → UInt8
  | none => flagBit user 0x80 ||| flagBit pass 0x40 ||| flagBit clean 0x02
  | some (qos, retain) => flagBit user 0x80 ||| flagBit pass 0x40 ||| (0x04 : UInt8) ||| (qos <<< 3) |||
      flagBit retain 0x20 ||| flagBit clean 0x02

theorem ConnectPacket.flags_ok {p : ConnectPacket} {flags : UInt8} (h : p.flags = .ok flags) :
    (∀ w, p.will = some w → w.qos ≤ 2) ∧
    flags = flagBits (!p.username.isEmpty) (!p.password.isEmpty) p.cleanStart p.willBits := by
  unfold ConnectPacket.flags at h
  unfold ConnectPacket.willBits
  cases hw : p.will with
  | none =>
    rw [hw] at h
    cases h
    refine ⟨by simp, ?_⟩
    cases p.username.isEmpty <;> cases p.password.isEmpty <;> cases p.cleanStart <;> rfl
  | some w =>
    rw [hw] at h
    dsimp only at h
    split at h
    · cases h
    rename_i hqos
    cases h
    refine ⟨fun w' hw' => by cases hw'; exact UInt8.not_lt.mp hqos, ?_⟩
    rw [Option.map_some, flagBits]
    cases p.username.isEmpty <;> cases p.password.isEmpty <;> cases p.cleanStart <;>
      cases w.retain <;> simp [flagBit]

/-- The flags read back, as a broker does. -/
def parseFlags (flags : UInt8) : Bool × Bool × Bool × Option (UInt8 × Bool) :=
  (flags &&& 0x80 != 0, flags &&& 0x40 != 0, flags &&& 0x02 != 0,
    if flags &&& 0x04 != 0 then some ((flags >>> 3) &&& 0x03, flags &&& 0x20 != 0) else none)

theorem parseFlags_flagBits {user pass clean : Bool} {will : Option (UInt8 × Bool)}
    (hq : ∀ q ∈ will, q.1 ≤ 2) :
    parseFlags (flagBits user pass clean will) = (user, pass, clean, will) := by
  cases will with
  | none => revert user pass clean; decide
  | some w =>
    obtain ⟨qos, retain⟩ := w
    have hqos := qos_cases (hq (qos, retain) rfl)
    clear hq
    rcases hqos with rfl | rfl | rfl <;> revert user pass clean retain <;> decide

/-! ## The packet -/

theorem ConnectPacket.encode_ok {p : ConnectPacket} {b : Bytes} (h : p.encode = .ok b) :
    ∃ name flags payload, appendString protocolName = .ok name ∧ p.flags = .ok flags ∧
      p.payload = .ok payload ∧ writePacket (PacketType.connect.code <<< 4)
        (name ++ [p.version.level, flags] ++ putUint16 p.keepAlive ++ payload) = .ok b := by
  unfold ConnectPacket.encode at h
  split at h
  · cases h
  obtain ⟨name, hname, h⟩ := bind_eq_ok.mp h
  obtain ⟨flags, hflags, h⟩ := bind_eq_ok.mp h
  obtain ⟨payload, hpayload, h⟩ := bind_eq_ok.mp h
  exact ⟨name, flags, payload, hname, hflags, hpayload, h⟩

theorem Version.level_inj {v v' : Version} (h : v.level = v'.level) : v = v' := by
  cases v <;> cases v' <;> first | rfl | cases h

/-- Two payloads whose flags agree tell the rest of the packet. -/
theorem ConnectPacket.payload_inj {p q : ConnectPacket} {a : Bytes} (hv : p.version = q.version)
    (huser : p.username.isEmpty = q.username.isEmpty)
    (hpass : p.password.isEmpty = q.password.isEmpty) (hwill : p.willBits = q.willBits)
    (hp : p.payload = .ok a) (hq : q.payload = .ok a) :
    p.clientID = q.clientID ∧ p.username = q.username ∧ p.password = q.password ∧
      p.normalised.will = q.normalised.will ∧ p.normalised.properties = q.normalised.properties := by
  obtain ⟨block, _, hblock, hp₁, rfl⟩ := appendAll_cons_ok.mp hp
  obtain ⟨client, _, hclient, hp₂, rfl⟩ := appendAll_cons_ok.mp hp₁
  obtain ⟨will, _, hw, hp₃, rfl⟩ := appendAll_cons_ok.mp hp₂
  obtain ⟨user, _, hu, hp₄, rfl⟩ := appendAll_cons_ok.mp hp₃
  obtain ⟨pass, _, hpw, hp₅, rfl⟩ := appendAll_cons_ok.mp hp₄
  cases hp₅
  obtain ⟨block', _, hblock', hq₁, heq⟩ := appendAll_cons_ok.mp hq
  obtain ⟨client', _, hclient', hq₂, rfl⟩ := appendAll_cons_ok.mp hq₁
  obtain ⟨will', _, hw', hq₃, rfl⟩ := appendAll_cons_ok.mp hq₂
  obtain ⟨user', _, hu', hq₄, rfl⟩ := appendAll_cons_ok.mp hq₃
  obtain ⟨pass', _, hpw', hq₅, rfl⟩ := appendAll_cons_ok.mp hq₄
  cases hq₅
  rw [← hv] at hblock' hw'
  obtain ⟨hprops, heq⟩ := writeBlock_unambiguous p.version tgConnect hblock hblock' heq
  obtain ⟨hclientID, heq⟩ := appendString_unambiguous hclient hclient' heq
  have hwills : p.normalised.will = q.normalised.will ∧
      user ++ (pass ++ []) = user' ++ (pass' ++ []) := by
    unfold ConnectPacket.normalised
    rw [← hv]
    unfold ConnectPacket.willBits at hwill
    rcases hpw₁ : p.will with _ | w <;> rcases hqw : q.will with _ | w' <;>
      rw [hpw₁, hqw] at hwill
    · rw [hpw₁] at hw
      rw [hqw] at hw'
      cases hw
      cases hw'
      exact ⟨rfl, heq⟩
    · cases hwill
    · cases hwill
    · rw [hpw₁] at hw
      rw [hqw] at hw'
      obtain ⟨hprops, htopic, hpayload, heq⟩ := willPayload_unambiguous hw hw' heq
      obtain ⟨hqos, hretain⟩ := Prod.mk.inj (Option.some.inj hwill)
      refine ⟨?_, heq⟩
      simp only [Option.map_some, Will.normalised, hprops, htopic, hpayload, hqos, hretain]
  obtain ⟨hwills, heq⟩ := hwills
  obtain ⟨husername, heq⟩ := appendUnlessEmpty_unambiguous appendString_unambiguous huser hu hu' heq
  obtain ⟨hpassword, -⟩ :=
    appendUnlessEmpty_unambiguous appendBinary_unambiguous hpass hpw hpw' heq
  refine ⟨hclientID, husername, hpassword, hwills, ?_⟩
  simp only [ConnectPacket.normalised, ← hv]
  exact hprops

/-- Two CONNECT packets with the same bytes say the same. -/
theorem ConnectPacket.encode_inj {p q : ConnectPacket} {b : Bytes} (hp : p.encode = .ok b)
    (hq : q.encode = .ok b) : p.normalised = q.normalised := by
  obtain ⟨name, flags, payload, hname, hflags, hpayload, hw⟩ := ConnectPacket.encode_ok hp
  obtain ⟨name', flags', payload', hname', hflags', hpayload', hw'⟩ := ConnectPacket.encode_ok hq
  cases hname.symm.trans hname'
  have hbody := writePacket_inj hw hw'
  simp only [List.append_assoc, List.append_cancel_left_eq, List.cons_append, List.nil_append,
    List.cons.injEq, putUint16] at hbody
  obtain ⟨hlevel, rfl, hka₁, hka₂, rfl⟩ := hbody
  have hv := Version.level_inj hlevel
  have hkeep : p.keepAlive = q.keepAlive := by
    rw [← beUint16_putUint16 p.keepAlive, ← beUint16_putUint16 q.keepAlive, hka₁, hka₂]
  obtain ⟨hqos, hbits⟩ := ConnectPacket.flags_ok hflags
  obtain ⟨hqos', hbits'⟩ := ConnectPacket.flags_ok hflags'
  have hle : ∀ {p : ConnectPacket}, (∀ w, p.will = some w → w.qos ≤ 2) →
      ∀ q ∈ p.willBits, q.1 ≤ 2 := by
    intro p h q hq
    obtain ⟨w, hw, rfl⟩ := Option.map_eq_some_iff.mp hq
    exact h w hw
  have hparse := congrArg parseFlags (hbits.symm.trans hbits')
  rw [parseFlags_flagBits (hle hqos), parseFlags_flagBits (hle hqos')] at hparse
  simp only [Prod.mk.injEq, Bool.not_inj_iff] at hparse
  obtain ⟨huser, hpass, hclean, hwill⟩ := hparse
  obtain ⟨hclient, husername, hpassword, hwills, hprops⟩ :=
    ConnectPacket.payload_inj hv huser hpass hwill hpayload hpayload'
  exact ConnectPacket.ext hv hclient hkeep husername hpassword hclean hwills hprops

end GoMqtt.Protocol
