import Mathlib.Algebra.Order.Ring.Nat
import Mathlib.Data.Nat.Bitwise
import Mathlib.Tactic.Ring
import GoMqtt.Lib.Varint
import GoMqtt.Protocol.Wire

/-! # Reading a packet body

The readers of `cursor`. A cursor only moves forward, so it is the list of the
bytes it has not read, and a read returns its value with the rest. Each reader is
the exact inverse of the writer in `Wire`: it succeeds with `v` and `rest` if and
only if the bytes are what the writer makes of `v`, followed by `rest`. -/
namespace GoMqtt.Protocol
open GoMqtt.Lib

def readByte : Bytes → Except WireError (UInt8 × Bytes)
  | b :: c => .ok (b, c)
  | [] => .error (.malformedPacket "truncated byte")

/-- `binary.BigEndian.Uint16`. -/
def beUint16 (b0 b1 : UInt8) : UInt16 := b1.toUInt16 ||| (b0.toUInt16 <<< 8)

def readUint16 : Bytes → Except WireError (UInt16 × Bytes)
  | b0 :: b1 :: c => .ok (beUint16 b0 b1, c)
  | _ => .error (.malformedPacket "truncated uint16")

/-- `binary.BigEndian.Uint32`. -/
def beUint32 (b0 b1 b2 b3 : UInt8) : UInt32 :=
  b3.toUInt32 ||| (b2.toUInt32 <<< 8) ||| (b1.toUInt32 <<< 16) ||| (b0.toUInt32 <<< 24)

def readUint32 : Bytes → Except WireError (UInt32 × Bytes)
  | b0 :: b1 :: b2 :: b3 :: c => .ok (beUint32 b0 b1 b2 b3, c)
  | _ => .error (.malformedPacket "truncated uint32")

/-- The spelling ended on byte `i` with a digit that adds nothing. -/
def nonMinimalVarint (i : Nat) (last : UInt8) : Bool := 0 < i && last == 0

/-- The loop of the two varint readers, from byte `i` on. They differ in what
they return when the input ends; the bytes left are returned in every case. -/
def varintLoop {ε : Type} (short : ε) (malformed : String → ε) :
    Nat → Nat → UInt32 → Bytes → Except ε UInt32 × Bytes
  | 0, _, _, c => (.error (malformed "variable byte integer too long"), c)
  | _ + 1, _, _, [] => (.error short, [])
  | k + 1, i, value, b :: c =>
    let value := value ||| ((b &&& 0x7F).toUInt32 <<< (7 * i).toUInt32)
    if b &&& 0x80 == 0 then
      if nonMinimalVarint i b then
        (.error (malformed "non-minimal variable byte integer"), c)
      else (.ok value, c)
    else varintLoop short malformed k (i + 1) value c

def readVarint (c : Bytes) : Except WireError (UInt32 × Bytes) :=
  match varintLoop (.malformedPacket "truncated byte") .malformedPacket 4 0 0 c with
  | (.ok v, c) => .ok (v, c)
  | (.error e, _) => .error e

def readString (c : Bytes) : Except WireError (Bytes × Bytes) := do
  let (n, c) ← readUint16 c
  let s := c.take n.toNat
  if c.length < n.toNat then .error (.malformedPacket "truncated string")
  else if !utf8ValidString s then .error (.malformedPacket "string is not well-formed UTF-8")
  else if s.contains 0 then .error (.malformedPacket "string contains U+0000")
  else .ok (s, c.drop n.toNat)

def readBinary (c : Bytes) : Except WireError (Bytes × Bytes) := do
  let (n, c) ← readUint16 c
  if c.length < n.toNat then .error (.malformedPacket "truncated binary data")
  else .ok (c.take n.toNat, c.drop n.toNat)

/-! ## Bits as arithmetic -/

/-- A digit put above a smaller number. -/
theorem or_shiftLeft_eq_add {a d i : Nat} (h : a < 2 ^ i) : a ||| (d <<< i) = a + d * 2 ^ i := by
  rw [Nat.or_comm, ← Nat.shiftLeft_add_eq_or_of_lt h, Nat.shiftLeft_eq, Nat.add_comm]

theorem beUint16_toNat (b0 b1 : UInt8) : (beUint16 b0 b1).toNat = b1.toNat + b0.toNat * 2 ^ 8 := by
  have h0 := b0.toNat_lt
  have h1 := b1.toNat_lt
  have hs : b0.toNat <<< 8 < 2 ^ 16 := by rw [Nat.shiftLeft_eq]; omega
  simp only [beUint16, UInt16.toNat_or, UInt8.toNat_toUInt16, UInt16.toNat_shiftLeft]
  rw [show (8 : UInt16).toNat % 16 = 8 from rfl, Nat.mod_eq_of_lt hs, or_shiftLeft_eq_add h1]

theorem putUint16_beUint16 (b0 b1 : UInt8) : putUint16 (beUint16 b0 b1) = [b0, b1] := by
  have h0 := b0.toNat_lt
  have h1 := b1.toNat_lt
  have hv := beUint16_toNat b0 b1
  simp only [putUint16, List.cons.injEq, and_true, ← UInt8.toNat_inj, UInt16.toNat_toUInt8,
    UInt16.toNat_shiftRight, hv, Nat.shiftRight_eq_div_pow]
  rw [show (8 : UInt16).toNat % 16 = 8 from rfl]
  omega

theorem beUint16_putUint16 (v : UInt16) : beUint16 (v >>> 8).toUInt8 v.toUInt8 = v := by
  have hv := v.toNat_lt
  rw [← UInt16.toNat_inj, beUint16_toNat]
  simp only [UInt16.toNat_toUInt8, UInt16.toNat_shiftRight, Nat.shiftRight_eq_div_pow]
  rw [show (8 : UInt16).toNat % 16 = 8 from rfl]
  omega

theorem beUint32_toNat (b0 b1 b2 b3 : UInt8) : (beUint32 b0 b1 b2 b3).toNat =
    b3.toNat + b2.toNat * 2 ^ 8 + b1.toNat * 2 ^ 16 + b0.toNat * 2 ^ 24 := by
  have h0 := b0.toNat_lt
  have h1 := b1.toNat_lt
  have h2 := b2.toNat_lt
  have h3 := b3.toNat_lt
  have e2 : b2.toNat <<< 8 < 2 ^ 32 := by rw [Nat.shiftLeft_eq]; omega
  have e1 : b1.toNat <<< 16 < 2 ^ 32 := by rw [Nat.shiftLeft_eq]; omega
  have e0 : b0.toNat <<< 24 < 2 ^ 32 := by rw [Nat.shiftLeft_eq]; omega
  simp only [beUint32, UInt32.toNat_or, UInt8.toNat_toUInt32, UInt32.toNat_shiftLeft]
  rw [show (8 : UInt32).toNat % 32 = 8 from rfl, show (16 : UInt32).toNat % 32 = 16 from rfl,
    show (24 : UInt32).toNat % 32 = 24 from rfl, Nat.mod_eq_of_lt e2, Nat.mod_eq_of_lt e1,
    Nat.mod_eq_of_lt e0, or_shiftLeft_eq_add h3]
  rw [or_shiftLeft_eq_add (i := 16) (by omega), or_shiftLeft_eq_add (i := 24) (by omega)]

theorem putUint32_beUint32 (b0 b1 b2 b3 : UInt8) :
    putUint32 (beUint32 b0 b1 b2 b3) = [b0, b1, b2, b3] := by
  have h0 := b0.toNat_lt
  have h1 := b1.toNat_lt
  have h2 := b2.toNat_lt
  have h3 := b3.toNat_lt
  have hv := beUint32_toNat b0 b1 b2 b3
  simp only [putUint32, List.cons.injEq, and_true, ← UInt8.toNat_inj, UInt32.toNat_toUInt8,
    UInt32.toNat_shiftRight, hv, Nat.shiftRight_eq_div_pow]
  rw [show (8 : UInt32).toNat % 32 = 8 from rfl, show (16 : UInt32).toNat % 32 = 16 from rfl,
    show (24 : UInt32).toNat % 32 = 24 from rfl]
  omega

theorem beUint32_putUint32 (v : UInt32) :
    beUint32 (v >>> 24).toUInt8 (v >>> 16).toUInt8 (v >>> 8).toUInt8 v.toUInt8 = v := by
  have hv := v.toNat_lt
  rw [← UInt32.toNat_inj, beUint32_toNat]
  simp only [UInt32.toNat_toUInt8, UInt32.toNat_shiftRight, Nat.shiftRight_eq_div_pow]
  rw [show (8 : UInt32).toNat % 32 = 8 from rfl, show (16 : UInt32).toNat % 32 = 16 from rfl,
    show (24 : UInt32).toNat % 32 = 24 from rfl]
  omega

/-! ## Fixed-width integers -/

theorem readByte_ok {c rest : Bytes} {v : UInt8} : readByte c = .ok (v, rest) ↔ c = v :: rest := by
  cases c <;> simp [readByte]

theorem readUint16_ok {c rest : Bytes} {v : UInt16} :
    readUint16 c = .ok (v, rest) ↔ c = putUint16 v ++ rest := by
  constructor
  · intro h
    unfold readUint16 at h
    split at h
    · cases h
      rw [putUint16_beUint16]
      rfl
    · cases h
  · rintro rfl
    simp only [putUint16, List.cons_append, List.nil_append, readUint16, beUint16_putUint16]

theorem readUint32_ok {c rest : Bytes} {v : UInt32} :
    readUint32 c = .ok (v, rest) ↔ c = putUint32 v ++ rest := by
  constructor
  · intro h
    unfold readUint32 at h
    split at h
    · cases h
      rw [putUint32_beUint32]
      rfl
    · cases h
  · rintro rfl
    simp only [putUint32, List.cons_append, List.nil_append, readUint32, beUint32_putUint32]

/-! ## Variable byte integers -/

theorem toNat_digit (v : UInt32) : ((v &&& 0x7F).toUInt8).toNat = v.toNat % 128 := by
  have : (v &&& 0x7F).toNat = v.toNat % 128 := by
    rw [UInt32.toNat_and]
    exact Nat.and_two_pow_sub_one_eq_mod v.toNat 7
  rw [UInt32.toNat_toUInt8, this]
  omega

theorem toNat_continued {d : UInt8} (h : d.toNat < 128) : (d ||| 0x80).toNat = d.toNat + 128 := by
  rw [UInt8.toNat_or]
  exact or_shiftLeft_eq_add (d := 1) (i := 7) h

theorem toNat_shiftRight_seven (v : UInt32) : (v >>> 7).toNat = v.toNat / 128 := by
  rw [UInt32.toNat_shiftRight, Nat.shiftRight_eq_div_pow]
  rfl

theorem appendVarintLoop_isVarint (k : Nat) {v : UInt32} (h : v.toNat < 128 ^ (k + 1)) :
    IsVarint (appendVarintLoop (k + 1) v) v.toNat := by
  induction k generalizing v with
  | zero =>
    have hz : ¬ v >>> 7 > 0 := by
      simp only [gt_iff_lt, UInt32.lt_iff_toNat_lt, toNat_shiftRight_seven]
      simp
      omega
    simp only [appendVarintLoop, if_neg hz]
    have hd := toNat_digit v
    rw [Nat.mod_eq_of_lt (by omega)] at hd
    rw [← hd]
    exact .last (by omega)
  | succ k ih =>
    have hs := toNat_shiftRight_seven v
    have hd := toNat_digit v
    rw [appendVarintLoop]
    split
    · rename_i hpos
      have hpos : 0 < v.toNat / 128 := by
        simpa only [gt_iff_lt, UInt32.lt_iff_toNat_lt, hs, UInt32.toNat_zero] using hpos
      have htail := ih (v := v >>> 7) (by rw [hs]; rw [Nat.pow_succ] at h; omega)
      have hc := toNat_continued (d := (v &&& 0x7F).toUInt8) (by omega)
      have := IsVarint.more (b := (v &&& 0x7F).toUInt8 ||| 0x80) (by omega) htail (by omega)
      rwa [hc, hs, hd, show (v.toNat % 128 + 128) % 128 + 128 * (v.toNat / 128) = v.toNat by omega]
        at this
    · rename_i hpos
      have hpos : ¬ 0 < v.toNat / 128 := by
        simpa only [gt_iff_lt, UInt32.lt_iff_toNat_lt, hs, UInt32.toNat_zero] using hpos
      rw [Nat.mod_eq_of_lt (by omega)] at hd
      rw [← hd]
      exact .last (by omega)

theorem appendVarint_isVarint (v : UInt32) : IsVarint (appendVarint v) v.toNat :=
  appendVarintLoop_isVarint 4 (by have := v.toNat_lt; omega)

/-- A smaller number takes no more bytes. -/
theorem length_appendVarint_le {v w : UInt32} (h : v.toNat ≤ w.toNat) :
    (appendVarint v).length ≤ (appendVarint w).length := by
  have hw := appendVarint_isVarint w
  rw [(appendVarint_isVarint v).length_le_iff _ hw.length_pos]
  exact h.trans_lt ((hw.length_le_iff _ hw.length_pos).mp le_rfl)

theorem continues_iff (b : UInt8) : (b &&& 0x80 == 0) = true ↔ b.toNat < 128 := by
  have hb := b.toNat_lt
  rw [beq_iff_eq, ← UInt8.toNat_inj, UInt8.toNat_and,
    show b.toNat &&& (0x80 : UInt8).toNat = (b.toNat.testBit 7).toNat * 2 ^ 7 from
      Nat.and_two_pow b.toNat 7, Nat.testBit_eq_decide_div_mod_eq]
  simp only [UInt8.toNat_zero, Nat.mul_eq_zero, Bool.toNat_eq_zero, decide_eq_false_iff_not]
  omega

/-- What one round adds. -/
theorem toNat_round {i : Nat} (hi : i < 4) {value : UInt32} (hv : value.toNat < 128 ^ i) (b : UInt8) :
    (value ||| ((b &&& 0x7F).toUInt32 <<< (7 * i).toUInt32)).toNat =
      value.toNat + 128 ^ i * (b.toNat % 128) := by
  have hb : (b &&& 0x7F).toNat = b.toNat % 128 := by
    rw [UInt8.toNat_and]
    exact Nat.and_two_pow_sub_one_eq_mod b.toNat 7
  have hs : (7 * i).toUInt32.toNat % 32 = 7 * i := by
    rw [Nat.toUInt32_eq, UInt32.toNat_ofNat']
    omega
  have hp : 128 ^ i = 2 ^ (7 * i) := by rw [Nat.pow_mul]
  have hle : 2 ^ (7 * i) ≤ 2 ^ 21 := Nat.pow_le_pow_right (by omega) (by omega)
  have hlt : (b.toNat % 128) <<< (7 * i) < 2 ^ 32 := by
    rw [Nat.shiftLeft_eq]
    calc b.toNat % 128 * 2 ^ (7 * i) ≤ 127 * 2 ^ 21 := Nat.mul_le_mul (by omega) hle
      _ < 2 ^ 32 := by omega
  rw [UInt32.toNat_or, UInt32.toNat_shiftLeft, UInt8.toNat_toUInt32, hb, hs, Nat.mod_eq_of_lt hlt,
    or_shiftLeft_eq_add (by rwa [← hp]), ← hp, Nat.mul_comm]

/-- The loop accepts exactly the minimal spellings that end within its rounds. -/
theorem varintLoop_ok {ε : Type} {short : ε} {malformed : String → ε} {k i : Nat} (hi : i + k = 4)
    {value v : UInt32} (hv : value.toNat < 128 ^ i) {c rest : Bytes} :
    varintLoop short malformed k i value c = (.ok v, rest) ↔
      ∃ bs n, c = bs ++ rest ∧ IsVarint bs n ∧ bs.length ≤ k ∧ (0 < i → 0 < n) ∧
        v.toNat = value.toNat + 128 ^ i * n := by
  induction k generalizing i value c with
  | zero =>
    simp only [varintLoop, Prod.mk.injEq, reduceCtorEq, false_and, false_iff]
    rintro ⟨bs, n, -, h, hlen, -⟩
    have := h.length_pos
    omega
  | succ k ih =>
    cases c with
    | nil =>
      simp only [varintLoop, Prod.mk.injEq, reduceCtorEq, false_and, false_iff]
      rintro ⟨bs, n, heq, h, -⟩
      have := h.length_pos
      have := congrArg List.length heq
      simp at this
      omega
    | cons b c =>
      have hround := toNat_round (by omega) hv b
      rw [varintLoop]
      by_cases hb : b.toNat < 128
      · -- the last byte
        have hmod : b.toNat % 128 = b.toNat := Nat.mod_eq_of_lt hb
        rw [if_pos ((continues_iff b).mpr hb)]
        constructor
        · intro h
          split at h
          · simp at h
          · rename_i hmin
            cases h
            refine ⟨[b], _, rfl, .last hb, by simp, ?_, by rw [hround, hmod]⟩
            intro hi0
            have hb0 : b ≠ 0 := by simpa [nonMinimalVarint, hi0] using hmin
            exact Nat.pos_of_ne_zero fun h => hb0 (UInt8.toNat_inj.mp h)
        · rintro ⟨_ | ⟨b', bs⟩, n, heq, h, hlen, hmin, hval⟩
          · exact absurd h.length_pos (by simp)
          obtain ⟨rfl, rfl⟩ := List.cons.inj heq
          rcases IsVarint.cons_iff.mp h with ⟨-, rfl, rfl⟩ | ⟨hb', -⟩
          · have hz : ¬ nonMinimalVarint i b = true := by
              simp only [nonMinimalVarint, Bool.and_eq_true, decide_eq_true_eq, beq_iff_eq]
              rintro ⟨hi0, rfl⟩
              exact absurd (hmin hi0) (by simp)
            rw [if_neg hz]
            refine Prod.ext (congrArg Except.ok (UInt32.toNat_inj.mp ?_)) rfl
            rw [hround, hval, hmod]
          · omega
      · rw [if_neg (mt (continues_iff b).mp hb)]
        have hlt : (value ||| ((b &&& 0x7F).toUInt32 <<< (7 * i).toUInt32)).toNat < 128 ^ (i + 1) := by
          rw [hround, Nat.pow_succ]
          have : 128 ^ i * (b.toNat % 128) ≤ 128 ^ i * 127 := Nat.mul_le_mul_left _ (by omega)
          omega
        rw [ih (by omega) hlt, hround]
        constructor
        · rintro ⟨bs, n, rfl, h, hlen, hpos, hval⟩
          refine ⟨b :: bs, _, rfl, .more (by omega) h (hpos (by omega)), by simp; omega,
            fun _ => by have := hpos (by omega); omega, ?_⟩
          rw [hval, Nat.pow_succ]
          ring
        · rintro ⟨_ | ⟨b', bs⟩, n, heq, h, hlen, hmin, hval⟩
          · exact absurd h.length_pos (by simp)
          obtain ⟨rfl, rfl⟩ := List.cons.inj heq
          rcases IsVarint.cons_iff.mp h with ⟨hb', -⟩ | ⟨-, m, hm, hpos, rfl⟩
          · exact absurd hb' hb
          · refine ⟨bs, m, rfl, hm, by simpa using hlen, fun _ => hpos, ?_⟩
            rw [hval, Nat.pow_succ]
            ring

theorem readVarint_loop {c rest : Bytes} {v : UInt32} : readVarint c = .ok (v, rest) ↔
    varintLoop (WireError.malformedPacket "truncated byte") WireError.malformedPacket 4 0 0 c =
      (.ok v, rest) := by
  unfold readVarint
  split <;> rename_i heq <;> simp [heq]

theorem readVarint_ok {c rest : Bytes} {v : UInt32} : readVarint c = .ok (v, rest) ↔
    v.toNat ≤ maxVarint ∧ c = appendVarint v ++ rest := by
  rw [readVarint_loop, varintLoop_ok rfl (by simp)]
  constructor
  · rintro ⟨bs, n, rfl, h, hlen, -, hval⟩
    obtain rfl : v.toNat = n := by simpa using hval
    rw [h.length_le_iff 4 (by omega)] at hlen
    rw [h.unique (appendVarint_isVarint v)]
    exact ⟨by unfold maxVarint; omega, rfl⟩
  · rintro ⟨hle, rfl⟩
    have h := appendVarint_isVarint v
    refine ⟨_, _, rfl, h, (h.length_le_iff 4 (by omega)).mpr ?_, by simp, by simp⟩
    unfold maxVarint at hle
    omega

/-- Bytes that all announce another one. -/
def Continues (cs : Bytes) : Prop := ∀ b ∈ cs, b &&& 0x80 ≠ 0

instance (cs : Bytes) : Decidable (Continues cs) := List.decidableBAll (fun b => b &&& 0x80 ≠ 0) cs

/-- The rounds of the loop that read bytes which all continue. -/
theorem varintLoop_continues {ε : Type} (short : ε) (malformed : String → ε) {cs : Bytes}
    (hcs : Continues cs) (k i : Nat) (value : UInt32) (c : Bytes) :
    ∃ value', varintLoop short malformed (cs.length + k) i value (cs ++ c) =
      varintLoop short malformed k (i + cs.length) value' c := by
  induction cs generalizing i value with
  | nil => exact ⟨value, by simp⟩
  | cons b cs ih =>
    have hb : ¬ (b &&& 0x80 == 0) = true := by simpa using hcs b List.mem_cons_self
    obtain ⟨value', heq⟩ := ih (fun b' h => hcs b' (List.mem_cons_of_mem _ h)) (i + 1)
      (value ||| ((b &&& 0x7F).toUInt32 <<< (7 * i).toUInt32))
    refine ⟨value', ?_⟩
    rw [List.length_cons, Nat.add_right_comm, List.cons_append, varintLoop, if_neg hb, heq,
      Nat.add_assoc, Nat.add_comm 1]

/-- Four bytes that all continue are refused, and no fifth is read. -/
theorem varintLoop_tooLong {ε : Type} (short : ε) (malformed : String → ε) {cs : Bytes}
    (hcs : Continues cs) (hlen : cs.length = 4) (c : Bytes) :
    varintLoop short malformed 4 0 0 (cs ++ c) =
      (.error (malformed "variable byte integer too long"), c) := by
  obtain ⟨value, heq⟩ := varintLoop_continues short malformed hcs 0 0 0 c
  rw [← hlen]
  exact heq

/-- A last digit that adds nothing is refused. -/
theorem varintLoop_nonMinimal {ε : Type} (short : ε) (malformed : String → ε) {cs : Bytes}
    (hcs : Continues cs) (hpos : 0 < cs.length) (hlen : cs.length < 4) (c : Bytes) :
    varintLoop short malformed 4 0 0 (cs ++ 0 :: c) =
      (.error (malformed "non-minimal variable byte integer"), c) := by
  obtain ⟨value, heq⟩ := varintLoop_continues short malformed hcs (4 - cs.length) 0 0 (0 :: c)
  obtain ⟨k, hk⟩ : ∃ k, 4 - cs.length = k + 1 := ⟨3 - cs.length, by omega⟩
  rw [Nat.add_sub_cancel' (Nat.le_of_lt hlen)] at heq
  rw [heq, hk, varintLoop, if_pos (by decide), if_pos]
  simpa [nonMinimalVarint] using hpos

/-! ## Strings and binary data -/

/-- What `appendString` accepts. -/
def WellFormed (s : Bytes) : Prop :=
  s.length ≤ maxStringLen ∧ utf8ValidString s = true ∧ s.contains 0 = false

theorem appendString_ok {s b : Bytes} :
    appendString s = .ok b ↔ WellFormed s ∧ b = putUint16 s.length.toUInt16 ++ s := by
  unfold appendString WellFormed
  by_cases h1 : s.length > maxStringLen
  · simp only [h1, if_true, reduceCtorEq, false_iff]
    omega
  generalize utf8ValidString s = u
  generalize s.contains 0 = z
  cases u <;> cases z <;> simp [h1, eq_comm, Nat.le_of_not_lt h1]

theorem appendBinary_ok {s b : Bytes} : appendBinary s = .ok b ↔
    s.length ≤ maxStringLen ∧ b = putUint16 s.length.toUInt16 ++ s := by
  unfold appendBinary
  split
  · simp only [reduceCtorEq, false_iff]
    omega
  · simp_all [eq_comm]

/-- The length prefix of a field that fits. -/
theorem toNat_length {s : Bytes} (h : s.length ≤ maxStringLen) :
    s.length.toUInt16.toNat = s.length := by
  unfold maxStringLen at h
  rw [Nat.toUInt16_eq, UInt16.toNat_ofNat']
  omega

theorem length_take_eq {c : Bytes} {n : UInt16} (h : ¬ c.length < n.toNat) :
    (c.take n.toNat).length = n.toNat ∧ (c.take n.toNat).length ≤ maxStringLen ∧
      (c.take n.toNat).length.toUInt16 = n := by
  have hn := n.toNat_lt
  have hlen : (c.take n.toNat).length = n.toNat := by
    rw [List.length_take]
    omega
  refine ⟨hlen, by unfold maxStringLen; omega, ?_⟩
  rw [hlen, Nat.toUInt16_eq, UInt16.ofNat_toNat]

theorem readString_ok {c rest s : Bytes} :
    readString c = .ok (s, rest) ↔ ∃ b, appendString s = .ok b ∧ c = b ++ rest := by
  simp only [appendString_ok]
  constructor
  · intro h
    unfold readString at h
    obtain ⟨⟨n, c'⟩, hn, h⟩ := bind_eq_ok.mp h
    rw [readUint16_ok] at hn
    dsimp only at h
    split at h
    · cases h
    split at h
    · cases h
    split at h
    · cases h
    cases h
    rename_i hlen hutf hzero
    obtain ⟨-, hle, heq⟩ := length_take_eq hlen
    refine ⟨_, ⟨⟨hle, by simpa using hutf, by simpa using hzero⟩, rfl⟩, ?_⟩
    rw [heq, hn, List.append_assoc, List.take_append_drop]
  · rintro ⟨b, ⟨⟨hlen, hutf, hzero⟩, rfl⟩, rfl⟩
    have hread : readUint16 (putUint16 s.length.toUInt16 ++ (s ++ rest)) =
        .ok (s.length.toUInt16, s ++ rest) := readUint16_ok.mpr rfl
    unfold readString
    rw [List.append_assoc, hread]
    simp only [bind_ok, toNat_length hlen, List.take_left, List.drop_left, hutf, hzero]
    rw [if_neg (by simp)]
    rfl

theorem readBinary_ok {c rest s : Bytes} :
    readBinary c = .ok (s, rest) ↔ ∃ b, appendBinary s = .ok b ∧ c = b ++ rest := by
  simp only [appendBinary_ok]
  constructor
  · intro h
    unfold readBinary at h
    obtain ⟨⟨n, c'⟩, hn, h⟩ := bind_eq_ok.mp h
    rw [readUint16_ok] at hn
    dsimp only at h
    split at h
    · cases h
    cases h
    rename_i hlen
    obtain ⟨-, hle, heq⟩ := length_take_eq hlen
    refine ⟨_, ⟨hle, rfl⟩, ?_⟩
    rw [heq, hn, List.append_assoc, List.take_append_drop]
  · rintro ⟨b, ⟨hlen, rfl⟩, rfl⟩
    have hread : readUint16 (putUint16 s.length.toUInt16 ++ (s ++ rest)) =
        .ok (s.length.toUInt16, s ++ rest) := readUint16_ok.mpr rfl
    unfold readBinary
    rw [List.append_assoc, hread]
    simp only [bind_ok, toNat_length hlen, List.take_left, List.drop_left]
    rw [if_neg (by simp)]

end GoMqtt.Protocol
