import GoMqtt.Client.State
import GoMqtt.Protocol.PacketRoundTrip

/-! # Decoding what a broker sends

The decoders of CONNACK, SUBACK, UNSUBACK and AUTH, which only a broker sends, and
what all decoders have in common: they fail with a malformed packet and nothing
else. -/
namespace GoMqtt.Inbound
open GoMqtt.Protocol GoMqtt.Client

/-! ## The decoders -/

def unspecifiedError : ReasonCode := ⟨0x80⟩

/-- The MQTT 5.0 reason for an MQTT 3.1.1 return code. -/
def v3ConnackReason (rc : UInt8) : Option ReasonCode :=
  if rc == 1 then some ⟨0x84⟩
  else if rc == 2 then some ⟨0x85⟩
  else if rc == 3 then some ⟨0x88⟩
  else if rc == 4 then some ⟨0x86⟩
  else if rc == 5 then some ⟨0x87⟩
  else none

def decodeConnack (v : Version) (body : Bytes) : Except WireError ConnackPacket := do
  let (ackFlags, c) ← readByte body
  if ackFlags &&& 0xFE != 0 then
    .error (.malformedPacket "CONNACK reserved acknowledge-flag bits set")
  else
    let sessionPresent := ackFlags &&& 0x01 != 0
    let (rc, c) ← readByte c
    if sessionPresent && rc != 0 then
      .error (.malformedPacket "CONNACK with Session Present and a non-zero reason code")
    else
      match v with
      | .v311 =>
        let reasonCode := if rc == 0 then .success else (v3ConnackReason rc).getD unspecifiedError
        if !c.isEmpty then .error (.malformedPacket "trailing bytes after v3 CONNACK")
        else .ok { sessionPresent, reasonCode }
      | .v50 =>
        let (properties, c) ← decodeProperties c tgConnack
        if !c.isEmpty then .error (.malformedPacket "trailing bytes after CONNACK properties")
        else .ok { sessionPresent, reasonCode := ⟨rc⟩, properties }

def subackReasonV311 : List UInt8 := [0x00, 0x01, 0x02, 0x80]

def subackReasonV50 : List UInt8 :=
  [0x00, 0x01, 0x02, 0x80, 0x83, 0x87, 0x8F, 0x91, 0x97, 0x9E, 0xA1, 0xA2]

def unsubackReasonV50 : List UInt8 := [0x00, 0x11, 0x80, 0x83, 0x87, 0x8F, 0x91]

/-- `Version.String`. -/
def versionString : Version → String
  | .v311 => "MQTT 3.1.1"
  | .v50 => "MQTT 5.0"

/-- The loop over the reason codes, each of which must be one of `allowed`. -/
def readReasonCodes (allowed : List UInt8) (undefined : UInt8 → String) :
    Bytes → Except WireError (List ReasonCode)
  | [] => .ok []
  | rc :: c =>
    if !allowed.contains rc then .error (.malformedPacket (undefined rc))
    else (readReasonCodes allowed undefined c).map (⟨rc⟩ :: ·)

def decodeSuback (v : Version) (body : Bytes) : Except WireError SubackPacket := do
  let (packetID, c) ← readUint16 body
  if packetID == 0 then .error (.malformedPacket "SUBACK with zero packet identifier")
  else
    let (properties, c) ← readBlock v tgSuback c
    if c.isEmpty then .error (.malformedPacket "SUBACK with no reason codes")
    else
      let allowed := match v with
        | .v311 => subackReasonV311
        | .v50 => subackReasonV50
      let reasonCodes ← readReasonCodes allowed (fun rc =>
        "SUBACK reason code 0x" ++ hex2 rc ++ " undefined for " ++ versionString v) c
      .ok { packetID, reasonCodes, properties }

def decodeUnsuback (v : Version) (body : Bytes) : Except WireError SubackPacket := do
  let (packetID, c) ← readUint16 body
  if packetID == 0 then .error (.malformedPacket "UNSUBACK with zero packet identifier")
  else
    match v with
    | .v311 =>
      if !c.isEmpty then .error (.malformedPacket "trailing bytes after v3 UNSUBACK")
      else .ok { packetID }
    | .v50 =>
      let (properties, c) ← decodeProperties c tgUnsuback
      if c.isEmpty then .error (.malformedPacket "UNSUBACK with no reason codes")
      else
        let reasonCodes ← readReasonCodes unsubackReasonV50 (fun rc =>
          "UNSUBACK reason code 0x" ++ hex2 rc ++ " undefined") c
        .ok { packetID, reasonCodes, properties }

structure AuthPacket where
  reasonCode : ReasonCode
  properties : Option Properties
  deriving DecidableEq, Repr

def decodeAuth (body : Bytes) : Except WireError AuthPacket := do
  let (reasonCode, properties) ← decodeReason tgAuth "trailing bytes after AUTH properties" body
  .ok ⟨reasonCode, properties⟩

/-! ## What they fail with -/

/-- Refused as a malformed packet. -/
def Refused {α : Type} (x : Except WireError α) : Prop := ∃ why, x = .error (.malformedPacket why)

/-- Accepted or refused as a malformed packet. -/
def Classified {α : Type} (x : Except WireError α) : Prop := (∃ a, x = .ok a) ∨ Refused x

namespace Classified

variable {α β : Type} {x : Except WireError α}

theorem ok (a : α) : Classified (.ok a) := .inl ⟨a, rfl⟩

theorem malformed (why : String) : Classified (.error (.malformedPacket why) : Except WireError α) :=
  .inr ⟨why, rfl⟩

theorem bind {f : α → Except WireError β} (h : Classified x) (hf : ∀ a, Classified (f a)) :
    Classified (x >>= f) := by
  rcases h with ⟨a, rfl⟩ | ⟨why, rfl⟩
  · exact hf a
  · exact .malformed why

theorem map (h : Classified x) (f : α → β) : Classified (x.map f) := by
  rcases h with ⟨a, rfl⟩ | ⟨why, rfl⟩
  · exact .ok _
  · exact .malformed why

theorem guard {c : Prop} [Decidable c] {y : Except WireError α} (hx : Classified x)
    (hy : Classified y) : Classified (if c then x else y) := by
  split
  · exact hx
  · exact hy

/-- What is not accepted is refused. -/
theorem refused (h : Classified x) (hx : ∀ a, x ≠ .ok a) : Refused x := by
  rcases h with ⟨a, ha⟩ | h
  · exact absurd ha (hx a)
  · exact h

end Classified

theorem readByte_classified (c : Bytes) : Classified (readByte c) := by
  cases c with
  | nil => exact .malformed _
  | cons b c => exact .ok _

theorem readUint16_classified (c : Bytes) : Classified (readUint16 c) := by
  unfold readUint16
  split
  · exact .ok _
  · exact .malformed _

theorem readUint32_classified (c : Bytes) : Classified (readUint32 c) := by
  unfold readUint32
  split
  · exact .ok _
  · exact .malformed _

theorem varintLoop_classified (k i : Nat) (value : UInt32) (c : Bytes) :
    Classified (varintLoop (.malformedPacket "truncated byte") .malformedPacket k i value c).1 := by
  induction k generalizing i value c with
  | zero => exact .malformed _
  | succ k ih =>
    cases c with
    | nil => exact .malformed _
    | cons b c =>
      rw [varintLoop]
      split
      · split
        · exact .malformed _
        · exact .ok _
      · exact ih _ _ _

theorem readVarint_classified (c : Bytes) : Classified (readVarint c) := by
  have hloop := varintLoop_classified 4 0 0 c
  unfold readVarint
  split <;> rename_i heq <;> rw [heq] at hloop
  · exact .ok _
  · rcases hloop with ⟨v, hv⟩ | ⟨why, hwhy⟩
    · cases hv
    · cases hwhy
      exact .malformed why

theorem readString_classified (c : Bytes) : Classified (readString c) :=
  (readUint16_classified c).bind fun _ =>
    .guard (.malformed _) (.guard (.malformed _) (.guard (.malformed _) (.ok _)))

theorem readBinary_classified (c : Bytes) : Classified (readBinary c) :=
  (readUint16_classified c).bind fun _ => .guard (.malformed _) (.ok _)

theorem readNumProp_classified {ν : Type} (widen : ν → UInt32)
    {read : Bytes → Except WireError (ν × Bytes)} (hread : ∀ c, Classified (read c)) (c : Bytes)
    (id : UInt8) : Classified (readNumProp widen read c id) := by
  refine (hread c).bind fun x => ?_
  dsimp only
  split
  · exact .malformed _
  · exact .ok _

theorem readValue_classified (id : UInt8) (c : Bytes) : Classified (readValue id c) := by
  unfold readValue
  cases propertyShape id with
  | byte => exact (readNumProp_classified _ readByte_classified c id).map _
  | u16 => exact (readNumProp_classified _ readUint16_classified c id).map _
  | u32 => exact (readNumProp_classified _ readUint32_classified c id).map _
  | str => exact (readString_classified c).map _
  | bin => exact (readBinary_classified c).map _
  | varint => exact (readVarint_classified c).bind fun _ => .guard (.malformed _) (.ok _)
  | pair =>
    exact (readString_classified c).bind fun _ => (readString_classified _).bind fun _ => .ok _

theorem decodeLoop_classified (target : PropTarget) (p : Properties) (seen : UInt64) (c : Bytes) :
    Classified (decodeLoop target p seen c) := by
  fun_induction decodeLoop target p seen c with
  | case1 p seen => exact .ok _
  | case2 | case3 | case4 => exact .malformed _
  | case5 p seen id c hknown hlegal hfresh e hone =>
    have hval := (readValue_classified id c).map fun x => (p.put ⟨id, x.1⟩, x.2)
    rw [← decodeOne_eq hknown, hone] at hval
    rcases hval with ⟨a, ha⟩ | ⟨why, hwhy⟩
    · cases ha
    · cases hwhy
      exact .malformed why
  | case6 p seen id c hknown hlegal hfresh p' c' hone ih => exact ih

theorem decodeProperties_classified (c : Bytes) (target : PropTarget) :
    Classified (decodeProperties c target) :=
  (readVarint_classified c).bind fun _ =>
    .guard (.malformed _) (.guard (.ok _) ((decodeLoop_classified _ _ _ _).bind fun _ => .ok _))

theorem readBlock_classified (v : Version) (target : PropTarget) (c : Bytes) :
    Classified (readBlock v target c) := by
  cases v with
  | v311 => exact .ok _
  | v50 => exact decodeProperties_classified c target

theorem readPacketID_classified (qos : UInt8) (c : Bytes) : Classified (readPacketID qos c) :=
  .guard ((readUint16_classified c).bind fun _ => .guard (.malformed _) (.ok _)) (.ok _)

theorem readReasonCodes_ok {allowed : List UInt8} {undefined : UInt8 → String} {c : Bytes}
    {codes : List ReasonCode} : readReasonCodes allowed undefined c = .ok codes ↔
      (∀ rc ∈ c, rc ∈ allowed) ∧ codes = c.map ReasonCode.mk := by
  induction c generalizing codes with
  | nil => simp [readReasonCodes, eq_comm]
  | cons rc c ih =>
    rw [readReasonCodes, guard_eq_ok, map_eq_ok]
    simp only [ih, List.forall_mem_cons, List.map_cons]
    simp only [Bool.not_eq_true', List.contains_eq_mem, decide_eq_false_iff_not, not_not]
    constructor
    · rintro ⟨hrc, codes', ⟨hc, rfl⟩, rfl⟩
      exact ⟨⟨hrc, hc⟩, rfl⟩
    · rintro ⟨⟨hrc, hc⟩, rfl⟩
      exact ⟨hrc, _, ⟨hc, rfl⟩, rfl⟩

theorem readReasonCodes_classified (allowed : List UInt8) (undefined : UInt8 → String) (c : Bytes) :
    Classified (readReasonCodes allowed undefined c) := by
  induction c with
  | nil => exact .ok _
  | cons rc c ih => exact .guard (.malformed _) (ih.map _)

theorem decodeReason_classified (target : PropTarget) (trailing : String) (c : Bytes) :
    Classified (decodeReason target trailing c) :=
  .guard (.ok _) ((readByte_classified c).bind fun _ =>
    .guard (.ok _) ((decodeProperties_classified _ _).bind fun _ => .guard (.malformed _) (.ok _)))

theorem decodePublish_classified (v : Version) (header : UInt8) (body : Bytes) :
    Classified (decodePublish v header body) :=
  .guard (.malformed _) (.guard (.malformed _) ((readString_classified body).bind fun _ =>
    .guard (.malformed _) ((readPacketID_classified _ _).bind fun _ =>
      (readBlock_classified v _ _).bind fun _ => .guard (.malformed _) (.ok _))))

theorem decodeAck_classified (v : Version) (t : PacketType) (body : Bytes) :
    Classified (decodeAck v t body) := by
  unfold decodeAck
  split
  · exact .malformed _
  · refine (readUint16_classified body).bind fun _ => .guard (.malformed _) ?_
    cases v with
    | v311 => exact .guard (.malformed _) (.ok _)
    | v50 => exact (decodeReason_classified _ _ _).bind fun _ => .ok _

theorem decodeDisconnect_classified (v : Version) (body : Bytes) :
    Classified (decodeDisconnect v body) := by
  cases v with
  | v311 => exact .guard (.malformed _) (.ok _)
  | v50 => exact (decodeReason_classified _ _ body).bind fun _ => .ok _

theorem decodeConnack_classified (v : Version) (body : Bytes) :
    Classified (decodeConnack v body) := by
  refine (readByte_classified body).bind fun _ => .guard (.malformed _) ?_
  refine (readByte_classified _).bind fun _ => .guard (.malformed _) ?_
  cases v with
  | v311 => exact .guard (.malformed _) (.ok _)
  | v50 => exact (decodeProperties_classified _ _).bind fun _ => .guard (.malformed _) (.ok _)

theorem decodeSuback_classified (v : Version) (body : Bytes) : Classified (decodeSuback v body) :=
  (readUint16_classified body).bind fun _ => .guard (.malformed _)
    ((readBlock_classified v _ _).bind fun _ => .guard (.malformed _)
      ((readReasonCodes_classified _ _ _).bind fun _ => .ok _))

theorem decodeUnsuback_classified (v : Version) (body : Bytes) :
    Classified (decodeUnsuback v body) := by
  refine (readUint16_classified body).bind fun _ => .guard (.malformed _) ?_
  cases v with
  | v311 => exact .guard (.malformed _) (.ok _)
  | v50 =>
    exact (decodeProperties_classified _ _).bind fun _ => .guard (.malformed _)
      ((readReasonCodes_classified _ _ _).bind fun _ => .ok _)

theorem decodeAuth_classified (body : Bytes) : Classified (decodeAuth body) :=
  (decodeReason_classified _ _ body).bind fun _ => .ok _

end GoMqtt.Inbound
