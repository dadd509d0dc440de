import Mathlib.Data.List.Basic

/-! # Wire primitives

The byte-level encoders every packet is built from: the variable byte integer,
the two-byte-prefixed string and binary field, and the fixed header. A Go
`string` or `[]byte` is a list of bytes, and a fallible encoder returns the
bytes it would have written or the error it would have wrapped. -/
namespace GoMqtt.Protocol

/-- A Go `string` or `[]byte`: any bytes, UTF-8 or not. -/
abbrev Bytes := List UInt8

/-- The protocol level, of which the client supports two. -/
inductive Version
  | v311
  | v50
  deriving DecidableEq, Repr

/-- The control packet type, the high nibble of the fixed header. -/
inductive PacketType
  | connect | connack | publish | puback | pubrec | pubrel | pubcomp | subscribe | suback
  | unsubscribe | unsuback | pingreq | pingresp | disconnect | auth
  deriving DecidableEq, Repr

def PacketType.code : PacketType → UInt8
  | .connect => 1
  | .connack => 2
  | .publish => 3
  | .puback => 4
  | .pubrec => 5
  | .pubrel => 6
  | .pubcomp => 7
  | .subscribe => 8
  | .suback => 9
  | .unsubscribe => 10
  | .unsuback => 11
  | .pingreq => 12
  | .pingresp => 13
  | .disconnect => 14
  | .auth => 15

def PacketType.string : PacketType → String
  | .connect => "CONNECT"
  | .connack => "CONNACK"
  | .publish => "PUBLISH"
  | .puback => "PUBACK"
  | .pubrec => "PUBREC"
  | .pubrel => "PUBREL"
  | .pubcomp => "PUBCOMP"
  | .subscribe => "SUBSCRIBE"
  | .suback => "SUBACK"
  | .unsubscribe => "UNSUBSCRIBE"
  | .unsuback => "UNSUBACK"
  | .pingreq => "PINGREQ"
  | .pingresp => "PINGRESP"
  | .disconnect => "DISCONNECT"
  | .auth => "AUTH"

/-- A single-byte reason code; the values from `0x80` on denote failure. -/
structure ReasonCode where
  byte : UInt8
  deriving DecidableEq, Repr

namespace ReasonCode

def success : ReasonCode := ⟨0x00⟩
def normalDisconnection : ReasonCode := ⟨0x00⟩
def malformedPacketReason : ReasonCode := ⟨0x81⟩
def protocolErrorReason : ReasonCode := ⟨0x82⟩
def packetIdentifierNotFound : ReasonCode := ⟨0x92⟩
def topicAliasInvalid : ReasonCode := ⟨0x94⟩

def isError (c : ReasonCode) : Bool := 0x80 ≤ c.byte

end ReasonCode

/-- The sentinels the codec wraps, each with the text it adds. -/
inductive WireError
  | malformedPacket (why : String)
  | protocolViolation (why : String)
  | stringTooLong (why : String)
  | frameTooLarge (why : String)
  deriving DecidableEq, Repr

def maxVarint : Nat := 0x0FFFFFFF
def maxStringLen : Nat := 0xFFFF

/-- The loop of `appendVarint`, seven bits a round. A 32-bit value takes at
most five rounds. -/
def appendVarintLoop : Nat → UInt32 → Bytes
  | 0, _ => []
  | n + 1, v =>
    let digit := (v &&& 0x7F).toUInt8
    let v := v >>> 7
    if v > 0 then (digit ||| 0x80) :: appendVarintLoop n v else [digit]

def appendVarint (v : UInt32) : Bytes := appendVarintLoop 5 v

/-- Big-endian, as `binary.BigEndian.PutUint16` writes it. -/
def putUint16 (v : UInt16) : Bytes := [(v >>> 8).toUInt8, v.toUInt8]

def putUint32 (v : UInt32) : Bytes :=
  [(v >>> 24).toUInt8, (v >>> 16).toUInt8, (v >>> 8).toUInt8, v.toUInt8]

/-- A UTF-8 continuation byte. -/
def isCont (b : UInt8) : Bool := 0x80 ≤ b && b ≤ 0xBF

/-- `utf8.ValidString`: no stray continuation byte, no overlong form, no
surrogate and nothing above U+10FFFF. -/
def utf8ValidString : Bytes → Bool
  | [] => true
  | b0 :: t =>
    if b0 < 0x80 then utf8ValidString t
    else if 0xC2 ≤ b0 && b0 ≤ 0xDF then
      match t with
      | b1 :: t => isCont b1 && utf8ValidString t
      | _ => false
    else if 0xE0 ≤ b0 && b0 ≤ 0xEF then
      match t with
      | b1 :: b2 :: t =>
        (if b0 == 0xE0 then 0xA0 ≤ b1 && b1 ≤ 0xBF
          else if b0 == 0xED then 0x80 ≤ b1 && b1 ≤ 0x9F else isCont b1) &&
        isCont b2 && utf8ValidString t
      | _ => false
    else if 0xF0 ≤ b0 && b0 ≤ 0xF4 then
      match t with
      | b1 :: b2 :: b3 :: t =>
        (if b0 == 0xF0 then 0x90 ≤ b1 && b1 ≤ 0xBF
          else if b0 == 0xF4 then 0x80 ≤ b1 && b1 ≤ 0x8F else isCont b1) &&
        isCont b2 && isCont b3 && utf8ValidString t
      | _ => false
    else false

def appendString (s : Bytes) : Except WireError Bytes :=
  if s.length > maxStringLen then .error (.stringTooLong s!"{s.length} bytes")
  else if !utf8ValidString s then .error (.protocolViolation "string is not well-formed UTF-8")
  else if s.contains 0 then .error (.protocolViolation "string contains U+0000")
  else .ok (putUint16 s.length.toUInt16 ++ s)

def appendBinary (b : Bytes) : Except WireError Bytes :=
  if b.length > maxStringLen then .error (.stringTooLong s!"{b.length} bytes")
  else .ok (putUint16 b.length.toUInt16 ++ b)

/-- The complete control packet: header byte, remaining length, body. -/
def writePacket (header : UInt8) (body : Bytes) : Except WireError Bytes :=
  if body.length > maxVarint then .error (.frameTooLarge s!"body {body.length} bytes")
  else .ok (header :: appendVarint body.length.toUInt32 ++ body)

/-- Write the parts one after another; the first error wins. -/
def appendAll : List (Except WireError Bytes) → Except WireError Bytes
  | [] => .ok []
  | part :: rest => do
    let b ← part
    let bs ← appendAll rest
    return b ++ bs

/-! ## Steps that may fail -/

variable {ε α β : Type}

/-- Two steps succeed if the first does and the second does on its result. -/
theorem bind_eq_ok {x : Except ε α} {f : α → Except ε β} {b : β} :
    (x >>= f) = .ok b ↔ ∃ a, x = .ok a ∧ f a = .ok b := by
  cases x with
  | error e => simp [bind, Except.bind]
  | ok a => simp [bind, Except.bind]

/-- A check in front of a step succeeds if the check passes and the step succeeds. -/
theorem guard_eq_ok {c : Prop} [Decidable c] {e : ε} {x : Except ε β} {b : β} :
    (if c then .error e else x) = .ok b ↔ ¬ c ∧ x = .ok b := by
  split
  · rename_i h
    simp [h]
  · rename_i h
    simp [h]

theorem bind_ok {a : α} {f : α → Except ε β} : ((.ok a : Except ε α) >>= f) = f a := rfl

theorem appendAll_cons_ok {part : Except WireError Bytes} {rest : List (Except WireError Bytes)}
    {b : Bytes} : appendAll (part :: rest) = .ok b ↔
      ∃ b₁ b₂, part = .ok b₁ ∧ appendAll rest = .ok b₂ ∧ b = b₁ ++ b₂ := by
  rw [appendAll, bind_eq_ok]
  constructor
  · rintro ⟨b₁, h₁, h⟩
    obtain ⟨b₂, h₂, h⟩ := bind_eq_ok.mp h
    cases h
    exact ⟨b₁, b₂, h₁, h₂, rfl⟩
  · rintro ⟨b₁, b₂, h₁, h₂, rfl⟩
    exact ⟨b₁, h₁, bind_eq_ok.mpr ⟨b₂, h₂, rfl⟩⟩

end GoMqtt.Protocol
