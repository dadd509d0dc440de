import GoMqtt.Inbound.Indexed
import GoMqtt.Lib.Simulation

/-! # Decoding stays in bounds

The decoders by index simulate the decoders of the bytes that are left. The readers
there return the rest of a list, which is what a cursor within its buffer has before
it; so no run by index ends with a fault, and what it fails with is what the other
decoder fails with. -/
namespace GoMqtt.Inbound.Indexed
open GoMqtt.Protocol GoMqtt.Client GoMqtt.Lib

/-! ## The cursor and the bytes before it -/

/-- The bytes not yet read. -/
def Cursor.unread (c : Cursor) : Bytes := c.buf.drop c.pos

/-- The position is in the buffer, which has `N` bytes at most. -/
structure Cursor.Within (c : Cursor) (N : Nat) : Prop where
  pos_le : c.pos ≤ c.buf.length
  length_le : c.buf.length ≤ N

/-- The cursor `n` bytes further on. -/
def Cursor.skip (c : Cursor) (n : Nat) : Cursor := { c with pos := c.pos + n }

theorem within_newCursor {b : Bytes} {N : Nat} (h : b.length ≤ N) : (newCursor b).Within N :=
  ⟨Nat.zero_le _, h⟩

variable {c : Cursor} {N : Nat}

theorem length_unread (c : Cursor) : c.unread.length = c.buf.length - c.pos := List.length_drop

theorem remaining_eq (hc : c.Within N) : c.remaining = c.unread.length := by
  have hpos := hc.pos_le
  rw [Cursor.remaining, length_unread]
  omega

theorem length_unread_le (hc : c.Within N) : c.unread.length ≤ N := by
  have hlen := hc.length_le
  rw [length_unread]
  omega

theorem unread_skip (c : Cursor) (n : Nat) : (c.skip n).unread = c.unread.drop n := by
  rw [Cursor.unread, Cursor.unread, List.drop_drop]
  rfl

/-- Bytes that are there can be sliced and passed. -/
theorem slice_unread (hc : c.Within N) {n : Nat} (hn : n ≤ c.unread.length) :
    slice c.buf c.pos (c.pos + n) = .ok (c.unread.take n) := by
  have hpos := hc.pos_le
  rw [length_unread] at hn
  unfold slice
  rw [if_pos ⟨by omega, by omega⟩, Cursor.unread, List.drop_take, Nat.add_sub_cancel_left]

theorem advance_unread (hc : c.Within N) {n : Nat} (hn : n ≤ c.unread.length) :
    c.advance n = .ok (c.skip n) ∧ (c.skip n).Within N := by
  have hpos := hc.pos_le
  rw [length_unread] at hn
  have hle : c.pos + n ≤ c.buf.length := by omega
  exact ⟨if_pos hle, hle, hc.length_le⟩

theorem index_unread {b : UInt8} {rest : Bytes} (h : c.unread = b :: rest) :
    index c.buf c.pos = .ok b := by
  have hget : c.buf[c.pos]? = some b := by
    rw [← List.head?_drop, show c.buf.drop c.pos = b :: rest from h]
    rfl
  unfold index
  rw [hget]

/-! ## The readers -/

/-- The value is the same, and the cursor is before the rest. -/
structure Reads (N : Nat) {α : Type} (x : α × Cursor) (y : α × Bytes) : Prop where
  value : x.1 = y.1
  within : x.2.Within N
  unread : x.2.unread = y.2

/-- The read by index does what the read of the remaining bytes does. -/
abbrev Follows (N : Nat) {α : Type} :
    Outcome (α × Cursor) → Except WireError (α × Bytes) → Prop :=
  Simulates Stop.failed (Reads N)

abbrev Agrees {α : Type} : Outcome α → Except WireError α → Prop :=
  Simulates Stop.failed Eq

theorem readByte_cons (hc : c.Within N) {b : UInt8} {rest : Bytes} (h : c.unread = b :: rest) :
    readByte c = .ok (b, c.skip 1) ∧ (c.skip 1).Within N ∧ (c.skip 1).unread = rest := by
  have hn : 1 ≤ c.unread.length := by simp [h]
  refine ⟨?_, (advance_unread hc hn).2, ?_⟩
  · rw [readByte, remaining_eq hc, if_neg (by omega), index_unread h, (advance_unread hc hn).1]
    rfl
  · rw [unread_skip, h]
    rfl

theorem readByte_follows (hc : c.Within N) : Follows N (readByte c) (Protocol.readByte c.unread) := by
  cases h : c.unread with
  | nil =>
    rw [readByte, remaining_eq hc, h]
    exact .error _
  | cons b rest =>
    obtain ⟨hread, hc', hrest⟩ := readByte_cons hc h
    rw [hread]
    exact .ok ⟨rfl, hc', hrest⟩

theorem readUint16_follows (hc : c.Within N) :
    Follows N (readUint16 c) (Protocol.readUint16 c.unread) := by
  unfold readUint16
  rw [remaining_eq hc]
  rcases h : c.unread with _ | ⟨b0, _ | ⟨b1, rest⟩⟩
  · exact .error _
  · exact .error _
  · have hn : 2 ≤ c.unread.length := by simp [h]
    rw [← h, if_neg (by omega), slice_unread hc hn, (advance_unread hc hn).1, h]
    refine .ok ⟨rfl, (advance_unread hc hn).2, ?_⟩
    rw [unread_skip, h]
    rfl

theorem readUint32_follows (hc : c.Within N) :
    Follows N (readUint32 c) (Protocol.readUint32 c.unread) := by
  unfold readUint32
  rw [remaining_eq hc]
  rcases h : c.unread with _ | ⟨b0, _ | ⟨b1, _ | ⟨b2, _ | ⟨b3, rest⟩⟩⟩⟩
  · exact .error _
  · exact .error _
  · exact .error _
  · exact .error _
  · have hn : 4 ≤ c.unread.length := by simp [h]
    rw [← h, if_neg (by omega), slice_unread hc hn, (advance_unread hc hn).1, h]
    refine .ok ⟨rfl, (advance_unread hc hn).2, ?_⟩
    rw [unread_skip, h]
    rfl

/-- The varint loop of the remaining bytes, as a reader. -/
def varintOf (k i : Nat) (value : UInt32) (s : Bytes) : Except WireError (UInt32 × Bytes) :=
  match varintLoop (.malformedPacket "truncated byte") .malformedPacket k i value s with
  | (.ok v, r) => .ok (v, r)
  | (.error e, _) => .error e

theorem varintOf_succ (k i : Nat) (value : UInt32) (s : Bytes) :
    varintOf (k + 1) i value s = (do
      let (b, s) ← Protocol.readByte s
      let value := value ||| ((b &&& 0x7F).toUInt32 <<< (7 * i).toUInt32)
      if b &&& 0x80 == 0 then
        if nonMinimalVarint i b then
          .error (.malformedPacket "non-minimal variable byte integer")
        else .ok (value, s)
      else varintOf k (i + 1) value s) := by
  cases s with
  | nil => rfl
  | cons b s =>
    rw [varintOf, varintLoop, Protocol.readByte, bind_ok]
    dsimp only
    by_cases hb : (b &&& 0x80 == 0) = true
    · rw [if_pos hb, if_pos hb]
      by_cases hm : nonMinimalVarint i b = true
      · rw [if_pos hm, if_pos hm]
      · rw [if_neg hm, if_neg hm]
    · rw [if_neg hb, if_neg hb]
      rfl

theorem readVarintLoop_follows (k i : Nat) (value : UInt32) (hc : c.Within N) :
    Follows N (readVarintLoop k i value c) (varintOf k i value c.unread) := by
  induction k generalizing i value c with
  | zero => exact .error _
  | succ k ih =>
    rw [readVarintLoop, varintOf_succ]
    refine (readByte_follows hc).bind ?_
    rintro ⟨b, c'⟩ ⟨_, _⟩ ⟨rfl, hc', rfl⟩
    refine .ite Iff.rfl (fun _ => .ite Iff.rfl (fun _ => .error _) fun _ => .ok ⟨rfl, hc', rfl⟩) ?_
    intro _
    exact ih _ _ hc'

theorem readVarint_follows (hc : c.Within N) :
    Follows N (readVarint c) (Protocol.readVarint c.unread) :=
  readVarintLoop_follows 4 0 0 hc

theorem readString_follows (hc : c.Within N) :
    Follows N (readString c) (Protocol.readString c.unread) := by
  refine (readUint16_follows hc).bind ?_
  rintro ⟨n, c'⟩ ⟨_, _⟩ ⟨rfl, hc', rfl⟩
  refine .ite ?_ (fun _ => .error _) fun hn => ?_
  · rw [remaining_eq hc']
    exact Int.ofNat_lt
  rw [remaining_eq hc', Int.ofNat_lt, Nat.not_lt] at hn
  rw [slice_unread hc' hn, bind_ok, (advance_unread hc' hn).1, bind_ok]
  refine .ite Iff.rfl (fun _ => .error _) fun _ => .ite Iff.rfl (fun _ => .error _) fun _ => ?_
  exact .ok ⟨rfl, (advance_unread hc' hn).2, unread_skip c' _⟩

theorem readBinary_follows (hc : c.Within N) :
    Follows N (readBinary c) (Protocol.readBinary c.unread) := by
  refine (readUint16_follows hc).bind ?_
  rintro ⟨n, c'⟩ ⟨_, _⟩ ⟨rfl, hc', rfl⟩
  refine .ite ?_ (fun _ => .error _) fun hn => ?_
  · rw [remaining_eq hc']
    exact Int.ofNat_lt
  rw [remaining_eq hc', Int.ofNat_lt, Nat.not_lt] at hn
  have hmake : makeBytes n.toNat = .ok () := if_neg (by omega)
  rw [hmake, bind_ok, slice_unread hc' hn, bind_ok, (advance_unread hc' hn).1, bind_ok]
  exact .ok ⟨rfl, (advance_unread hc' hn).2, unread_skip c' _⟩

/-- The rest of the body is what is left. -/
theorem readRest_eq (hc : c.Within N) :
    readRest c = .ok (c.unread, { c with pos := c.buf.length }) := by
  have hmake : makeBytes c.remaining = .ok () := by
    rw [makeBytes, remaining_eq hc, if_neg (by omega)]
  have hslice : slice c.buf c.pos c.buf.length = .ok c.unread := by
    rw [slice, if_pos ⟨hc.pos_le, le_refl _⟩, List.take_length]
    rfl
  rw [readRest, hmake, bind_ok, hslice, bind_ok]
  rfl

/-! ## The property block -/

theorem readNumProp_follows {ν : Type} (widen : ν → UInt32) {read : Cursor → Outcome (ν × Cursor)}
    {read' : Bytes → Except WireError (ν × Bytes)} (hread : Follows N (read c) (read' c.unread))
    (id : UInt8) : Follows N (readNumProp widen read c id)
      (Protocol.readNumProp widen read' c.unread id) := by
  refine hread.bind ?_
  rintro ⟨v, c'⟩ ⟨_, _⟩ ⟨rfl, hc', rfl⟩
  dsimp only
  cases propertyValueViolation id (widen v) with
  | some why => exact .error _
  | none => exact .ok ⟨rfl, hc', rfl⟩

theorem store_follows {ν : Type} {x : Outcome (ν × Cursor)} {y : Except WireError (ν × Bytes)}
    (h : Follows N x y) (set : ν → Properties) :
    Follows N (store x set) (y >>= fun a => .ok (set a.1, a.2)) := by
  refine h.bind ?_
  rintro ⟨v, c'⟩ ⟨_, _⟩ ⟨rfl, hc', rfl⟩
  exact .ok ⟨rfl, hc', rfl⟩

theorem subID_follows (p : Properties) (hc : c.Within N) :
    Follows N
      (do
        let (v, c) ← readVarint c
        if v == 0 then wrapMalformed "subscription identifier 0"
        else
          return ({ p with subscriptionIdentifiers := p.subscriptionIdentifiers ++ [v] }, c))
      (do
        let (v, c) ← Protocol.readVarint c.unread
        if v == 0 then .error (.malformedPacket "subscription identifier 0")
        else
          .ok ({ p with subscriptionIdentifiers := p.subscriptionIdentifiers ++ [v] }, c)) := by
  refine (readVarint_follows hc).bind ?_
  rintro ⟨v, c'⟩ ⟨_, _⟩ ⟨rfl, hc', rfl⟩
  exact .ite Iff.rfl (fun _ => .error _) fun _ => .ok ⟨rfl, hc', rfl⟩

theorem userProperty_follows (p : Properties) (hc : c.Within N) :
    Follows N
      (do
        let (k, c) ← readString c
        let (val, c) ← readString c
        return ({ p with userProperties := p.userProperties ++ [UserProperty.mk k val] }, c))
      (do
        let (k, c) ← Protocol.readString c.unread
        let (val, c) ← Protocol.readString c
        .ok ({ p with userProperties := p.userProperties ++ [UserProperty.mk k val] }, c)) := by
  refine (readString_follows hc).bind ?_
  rintro ⟨k, c'⟩ ⟨_, _⟩ ⟨rfl, hc', rfl⟩
  refine (readString_follows hc').bind ?_
  rintro ⟨val, c''⟩ ⟨_, _⟩ ⟨rfl, hc'', rfl⟩
  exact .ok ⟨rfl, hc'', rfl⟩

theorem decodeOne_follows (p : Properties) (hc : c.Within N) {id : UInt8}
    (hid : propertySpec id ≠ 0) : Follows N (decodeOne p c id) (p.decodeOne c.unread id) := by
  have hbyte := readNumProp_follows UInt8.toUInt32 (readByte_follows hc) id
  have hu16 := readNumProp_follows UInt16.toUInt32 (readUint16_follows hc) id
  have hu32 := readNumProp_follows (fun v => v) (readUint32_follows hc) id
  have hstr := readString_follows hc
  have hbin := readBinary_follows hc
  refine .ite Iff.rfl (fun _ => store_follows hbyte _) fun h01 => ?_
  refine .ite Iff.rfl (fun _ => store_follows hu32 _) fun h02 => ?_
  refine .ite Iff.rfl (fun _ => store_follows hstr _) fun h03 => ?_
  refine .ite Iff.rfl (fun _ => store_follows hstr _) fun h08 => ?_
  refine .ite Iff.rfl (fun _ => store_follows hbin _) fun h09 => ?_
  refine .ite Iff.rfl (fun _ => subID_follows p hc) fun h0B => ?_
  refine .ite Iff.rfl (fun _ => store_follows hu32 _) fun h11 => ?_
  refine .ite Iff.rfl (fun _ => store_follows hstr _) fun h12 => ?_
  refine .ite Iff.rfl (fun _ => store_follows hu16 _) fun h13 => ?_
  refine .ite Iff.rfl (fun _ => store_follows hstr _) fun h15 => ?_
  refine .ite Iff.rfl (fun _ => store_follows hbin _) fun h16 => ?_
  refine .ite Iff.rfl (fun _ => store_follows hbyte _) fun h17 => ?_
  refine .ite Iff.rfl (fun _ => store_follows hu32 _) fun h18 => ?_
  refine .ite Iff.rfl (fun _ => store_follows hbyte _) fun h19 => ?_
  refine .ite Iff.rfl (fun _ => store_follows hstr _) fun h1A => ?_
  refine .ite Iff.rfl (fun _ => store_follows hstr _) fun h1C => ?_
  refine .ite Iff.rfl (fun _ => store_follows hstr _) fun h1F => ?_
  refine .ite Iff.rfl (fun _ => store_follows hu16 _) fun h21 => ?_
  refine .ite Iff.rfl (fun _ => store_follows hu16 _) fun h22 => ?_
  refine .ite Iff.rfl (fun _ => store_follows hu16 _) fun h23 => ?_
  refine .ite Iff.rfl (fun _ => store_follows hbyte _) fun h24 => ?_
  refine .ite Iff.rfl (fun _ => store_follows hbyte _) fun h25 => ?_
  refine .ite Iff.rfl (fun _ => userProperty_follows p hc) fun h26 => ?_
  refine .ite Iff.rfl (fun _ => store_follows hu32 _) fun h27 => ?_
  refine .ite Iff.rfl (fun _ => store_follows hbyte _) fun h28 => ?_
  refine .ite Iff.rfl (fun _ => store_follows hbyte _) fun h29 => ?_
  refine .ite Iff.rfl (fun _ => store_follows hbyte _) fun h2A => ?_
  -- no other identifier is in the table
  have hmem := mem_propertyIds hid
  simp only [propertyIds, List.mem_cons, List.not_mem_nil, or_false] at hmem
  simp_all

/-- What one property leaves is no more than what there was. -/
theorem length_decodeOne_le {p q : Properties} {s r : Bytes} {id : UInt8}
    (hid : propertySpec id ≠ 0) (h : p.decodeOne s id = .ok (q, r)) : r.length ≤ s.length := by
  obtain ⟨v, -, rfl, -⟩ := (decodeOne_ok hid).mp h
  rw [List.length_append]
  omega

/-- A loop over the rest of a buffer takes a round for each byte at most. -/
theorem decodeLoop_agrees (target : PropTarget) {rounds : Nat} (p : Properties) (seen : UInt64)
    (hc : c.Within N) (hrounds : c.unread.length ≤ rounds) :
    Agrees (decodeLoop target rounds p seen c) (Protocol.decodeLoop target p seen c.unread) := by
  induction rounds generalizing p seen c with
  | zero =>
    have hnil : c.unread = [] := List.length_eq_zero_iff.mp (Nat.le_zero.mp hrounds)
    rw [decodeLoop, remaining_eq hc, hnil, if_neg (by simp), Protocol.decodeLoop]
    exact .ok rfl
  | succ rounds ih =>
    rw [decodeLoop, remaining_eq hc]
    cases h : c.unread with
    | nil =>
      rw [if_neg (by simp), Protocol.decodeLoop]
      exact .ok rfl
    | cons id rest =>
      obtain ⟨hread, hc', hrest⟩ := readByte_cons hc h
      rw [h, List.length_cons] at hrounds
      rw [if_pos (by simp), hread, bind_ok, Protocol.decodeLoop]
      refine .ite Iff.rfl (fun _ => .error _) fun hid => .ite Iff.rfl (fun _ => .error _) fun _ =>
        .ite Iff.rfl (fun _ => .error _) fun _ => ?_
      have hone := decodeOne_follows p hc' hid
      rw [hrest] at hone
      dsimp only
      generalize decodeOne p (c.skip 1) id = x at hone ⊢
      split <;> rename_i heq <;> rw [heq] at hone
      · cases hone
        exact .error _
      · have hle := length_decodeOne_le hid heq
        cases hone with
        | ok hreads =>
          obtain ⟨hp, hc'', hrest'⟩ := hreads
          dsimp only at hp hc'' hrest'
          rw [bind_ok, hp, ← hrest']
          refine ih _ _ hc'' ?_
          rw [hrest']
          omega

theorem decodeProperties_follows (target : PropTarget) (hc : c.Within N) :
    Follows N (decodeProperties N c target) (Protocol.decodeProperties c.unread target) := by
  refine (readVarint_follows hc).bind ?_
  rintro ⟨length, c'⟩ ⟨_, _⟩ ⟨rfl, hc', rfl⟩
  dsimp only
  refine .ite ?_ (fun _ => .error _) fun hn => ?_
  · rw [remaining_eq hc']
    exact Int.ofNat_lt
  rw [gt_iff_lt, remaining_eq hc', Int.ofNat_lt, Nat.not_lt] at hn
  obtain ⟨hadvance, hskip⟩ := advance_unread hc' hn
  rw [slice_unread hc' hn, bind_ok, hadvance, bind_ok]
  refine .ite Iff.rfl (fun h0 => .ok ⟨rfl, hskip, ?_⟩) fun _ => ?_
  · rw [unread_skip, h0]
    rfl
  · -- the block is a cursor of its own
    have hsub : (c'.unread.take length.toNat).length ≤ N := by
      have hle := length_unread_le hc'
      rw [List.length_take]
      omega
    refine Simulates.bind (decodeLoop_agrees target {} 0 (within_newCursor hsub) hsub) ?_
    rintro p _ rfl
    exact .ok ⟨rfl, hskip, unread_skip c' _⟩

theorem readBlock_follows (v : Version) (target : PropTarget) (hc : c.Within N) :
    Follows N (readBlock N v target c) (Protocol.readBlock v target c.unread) := by
  cases v with
  | v311 => exact .ok ⟨rfl, hc, rfl⟩
  | v50 => exact decodeProperties_follows target hc

/-! ## Packets -/

theorem remaining_zero (hc : c.Within N) : (c.remaining == 0) = c.unread.isEmpty := by
  rw [remaining_eq hc, Bool.eq_iff_iff, beq_iff_eq, Int.natCast_eq_zero, List.length_eq_zero_iff,
    List.isEmpty_iff]

/-- The check that nothing follows. -/
theorem trailing_agrees {α : Type} (why : String) (p : α) (hc : c.Within N) :
    Agrees (if c.remaining != 0 then wrapMalformed why else .ok p)
      (if !c.unread.isEmpty then .error (.malformedPacket why) else .ok p) := by
  rw [bne, remaining_zero hc]
  exact .ite Iff.rfl (fun _ => .error _) fun _ => .ok rfl

theorem readPacketID_follows (qos : UInt8) (hc : c.Within N) :
    Follows N (readPacketID qos c) (Protocol.readPacketID qos c.unread) := by
  refine .ite Iff.rfl (fun _ => ?_) fun _ => .ok ⟨rfl, hc, rfl⟩
  refine (readUint16_follows hc).bind ?_
  rintro ⟨id, c'⟩ ⟨_, _⟩ ⟨rfl, hc', rfl⟩
  exact .ite Iff.rfl (fun _ => .error _) fun _ => .ok ⟨rfl, hc', rfl⟩

theorem decodePublish_agrees (v : Version) (header : UInt8) {body : Bytes} (h : body.length ≤ N) :
    Agrees (decodePublish N v header body) (Protocol.decodePublish v header body) := by
  refine .ite Iff.rfl (fun _ => .error _) fun _ => .ite Iff.rfl (fun _ => .error _) fun _ => ?_
  refine (readString_follows (within_newCursor h)).bind ?_
  rintro ⟨topic, c₁⟩ ⟨_, _⟩ ⟨rfl, hc₁, rfl⟩
  refine .ite Iff.rfl (fun _ => .error _) fun _ => ?_
  refine (readPacketID_follows _ hc₁).bind ?_
  rintro ⟨packetID, c₂⟩ ⟨_, _⟩ ⟨rfl, hc₂, rfl⟩
  refine (readBlock_follows v tgPublish hc₂).bind ?_
  rintro ⟨properties, c₃⟩ ⟨_, _⟩ ⟨rfl, hc₃, rfl⟩
  refine .ite Iff.rfl (fun _ => .error _) fun _ => ?_
  rw [readRest_eq hc₃]
  exact .ok rfl

theorem decodeReason_agrees (target : PropTarget) (trailing : String) (hc : c.Within N) :
    Agrees (decodeReason N target trailing c)
      (Protocol.decodeReason target trailing c.unread) := by
  unfold decodeReason Protocol.decodeReason
  rw [remaining_zero hc]
  refine .ite Iff.rfl (fun _ => .ok rfl) fun _ => ?_
  refine (readByte_follows hc).bind ?_
  rintro ⟨rc, c₁⟩ ⟨_, _⟩ ⟨rfl, hc₁, rfl⟩
  dsimp only
  rw [remaining_zero hc₁]
  refine .ite Iff.rfl (fun _ => .ok rfl) fun _ => ?_
  refine (decodeProperties_follows target hc₁).bind ?_
  rintro ⟨properties, c₂⟩ ⟨_, _⟩ ⟨rfl, hc₂, rfl⟩
  exact trailing_agrees _ _ hc₂

theorem decodeAck_agrees (v : Version) (t : PacketType) {body : Bytes} (h : body.length ≤ N) :
    Agrees (decodeAck N v t body) (Protocol.decodeAck v t body) := by
  unfold decodeAck Protocol.decodeAck
  cases ackTarget t with
  | none => exact .error _
  | some target =>
    refine (readUint16_follows (within_newCursor h)).bind ?_
    rintro ⟨pid, c⟩ ⟨_, _⟩ ⟨rfl, hc, rfl⟩
    refine .ite Iff.rfl (fun _ => .error _) fun _ => ?_
    cases v with
    | v311 => exact trailing_agrees _ _ hc
    | v50 =>
      refine (decodeReason_agrees target _ hc).bind ?_
      rintro ⟨rc, properties⟩ _ rfl
      exact .ok rfl

theorem decodeConnack_agrees (v : Version) {body : Bytes} (h : body.length ≤ N) :
    Agrees (decodeConnack N v body) (Inbound.decodeConnack v body) := by
  refine (readByte_follows (within_newCursor h)).bind ?_
  rintro ⟨ackFlags, c₁⟩ ⟨_, _⟩ ⟨rfl, hc₁, rfl⟩
  refine .ite Iff.rfl (fun _ => .error _) fun _ => ?_
  refine (readByte_follows hc₁).bind ?_
  rintro ⟨rc, c₂⟩ ⟨_, _⟩ ⟨rfl, hc₂, rfl⟩
  refine .ite Iff.rfl (fun _ => .error _) fun _ => ?_
  cases v with
  | v311 => exact trailing_agrees _ _ hc₂
  | v50 =>
    refine (decodeProperties_follows tgConnack hc₂).bind ?_
    rintro ⟨properties, c₃⟩ ⟨_, _⟩ ⟨rfl, hc₃, rfl⟩
    exact trailing_agrees _ _ hc₃

theorem readReasonCodes_agrees (allowed : List UInt8) (undefined : UInt8 → String) {rounds : Nat}
    {c : Cursor} (hc : c.Within N) (hrounds : c.unread.length ≤ rounds) :
    Agrees (readReasonCodes allowed undefined rounds c)
      (Inbound.readReasonCodes allowed undefined c.unread) := by
  induction rounds generalizing c with
  | zero =>
    have hnil := List.length_eq_zero_iff.mp (Nat.le_zero.mp hrounds)
    rw [readReasonCodes, remaining_eq hc, hnil]
    exact .ok rfl
  | succ rounds ih =>
    rw [readReasonCodes, remaining_eq hc]
    cases h : c.unread with
    | nil => exact .ok rfl
    | cons rc rest =>
      obtain ⟨hread, hc', hrest⟩ := readByte_cons hc h
      rw [h, List.length_cons] at hrounds
      rw [if_pos (by simp), hread, bind_ok, Inbound.readReasonCodes]
      refine .ite Iff.rfl (fun _ => .error _) fun _ => ?_
      have hcodes := ih hc' (by rw [hrest]; omega)
      rw [hrest] at hcodes
      refine hcodes.bind ?_
      rintro codes _ rfl
      exact .ok rfl

theorem decodeSuback_agrees (v : Version) {body : Bytes} (h : body.length ≤ N) :
    Agrees (decodeSuback N v body) (Inbound.decodeSuback v body) := by
  refine (readUint16_follows (within_newCursor h)).bind ?_
  rintro ⟨packetID, c₁⟩ ⟨_, _⟩ ⟨rfl, hc₁, rfl⟩
  refine .ite Iff.rfl (fun _ => .error _) fun _ => ?_
  refine (readBlock_follows v tgSuback hc₁).bind ?_
  rintro ⟨properties, c₂⟩ ⟨_, _⟩ ⟨rfl, hc₂, rfl⟩
  dsimp only
  rw [remaining_zero hc₂]
  refine .ite Iff.rfl (fun _ => .error _) fun _ => ?_
  refine (readReasonCodes_agrees _ _ hc₂ (length_unread_le hc₂)).bind ?_
  rintro codes _ rfl
  exact .ok rfl

theorem decodeUnsuback_agrees (v : Version) {body : Bytes} (h : body.length ≤ N) :
    Agrees (decodeUnsuback N v body) (Inbound.decodeUnsuback v body) := by
  refine (readUint16_follows (within_newCursor h)).bind ?_
  rintro ⟨packetID, c₁⟩ ⟨_, _⟩ ⟨rfl, hc₁, rfl⟩
  refine .ite Iff.rfl (fun _ => .error _) fun _ => ?_
  cases v with
  | v311 => exact trailing_agrees _ _ hc₁
  | v50 =>
    refine (decodeProperties_follows tgUnsuback hc₁).bind ?_
    rintro ⟨properties, c₂⟩ ⟨_, _⟩ ⟨rfl, hc₂, rfl⟩
    dsimp only
    rw [remaining_zero hc₂]
    refine .ite Iff.rfl (fun _ => .error _) fun _ => ?_
    refine (readReasonCodes_agrees _ _ hc₂ (length_unread_le hc₂)).bind ?_
    rintro codes _ rfl
    exact .ok rfl

theorem decodeDisconnect_agrees (v : Version) {body : Bytes} (h : body.length ≤ N) :
    Agrees (decodeDisconnect N v body) (Protocol.decodeDisconnect v body) := by
  cases v with
  | v311 =>
    refine .ite ?_ (fun _ => .error _) fun _ => .ok rfl
    simp
  | v50 =>
    refine (decodeReason_agrees tgDisconnect _ (within_newCursor h)).bind ?_
    rintro ⟨rc, properties⟩ _ rfl
    exact .ok rfl

theorem decodeAuth_agrees {body : Bytes} (h : body.length ≤ N) :
    Agrees (decodeAuth N body) (Inbound.decodeAuth body) := by
  refine (decodeReason_agrees tgAuth _ (within_newCursor h)).bind ?_
  rintro ⟨rc, properties⟩ _ rfl
  exact .ok rfl

/-! ## Arbitrary bodies -/

/-- The decoder came to an end without a fault, with a packet or with an error that
wraps `ErrMalformedPacket`. -/
def Safe {α : Type} (x : Outcome α) : Prop := (∃ a, x = .ok a) ∨ ∃ why, x = wrapMalformed why

theorem Safe.of_agrees {α : Type} {x : Outcome α} {y : Except WireError α} (h : Agrees x y)
    (hy : Classified y) : Safe x := by
  cases h with
  | ok h => exact .inl ⟨_, rfl⟩
  | error e =>
    obtain ⟨_, hok⟩ | ⟨why, herr⟩ := hy
    · cases hok
    · cases herr
      exact .inr ⟨why, rfl⟩

/-- Whatever the bytes of a body, its loops end within as many rounds as it has bytes and
no decoder of a packet of the broker meets a fault. -/
theorem decoders_safe (v : Version) (header : UInt8) (t : PacketType) (body : Bytes)
    (rounds : Nat) (h : body.length ≤ rounds) :
    Safe (decodePublish rounds v header body) ∧ Safe (decodeAck rounds v t body) ∧
    Safe (decodeConnack rounds v body) ∧ Safe (decodeSuback rounds v body) ∧
    Safe (decodeUnsuback rounds v body) ∧ Safe (decodeDisconnect rounds v body) ∧
    Safe (decodeAuth rounds body) := by
  refine ⟨?_, ?_, ?_, ?_, ?_, ?_, ?_⟩
  · exact .of_agrees (decodePublish_agrees v header h) (decodePublish_classified v header body)
  · exact .of_agrees (decodeAck_agrees v t h) (decodeAck_classified v t body)
  · exact .of_agrees (decodeConnack_agrees v h) (decodeConnack_classified v body)
  · exact .of_agrees (decodeSuback_agrees v h) (decodeSuback_classified v body)
  · exact .of_agrees (decodeUnsuback_agrees v h) (decodeUnsuback_classified v body)
  · exact .of_agrees (decodeDisconnect_agrees v h) (decodeDisconnect_classified v body)
  · exact .of_agrees (decodeAuth_agrees h) (decodeAuth_classified body)

/-- A PUBLISH body whose property block holds a string that is longer than the block. -/
def overrun : Bytes := [0x00, 0x01, 0x61, 0x03, 0x03, 0x00, 0x05]

theorem decoders_safe_overrun :
    decodePublish 7 .v50 0x30 overrun = wrapMalformed "truncated string" ∧
    Safe (decodePublish 7 .v50 0x30 overrun) ∧ Safe (decodeAck 7 .v50 .puback overrun) ∧
    Safe (decodeConnack 7 .v50 overrun) ∧ Safe (decodeSuback 7 .v50 overrun) ∧
    Safe (decodeUnsuback 7 .v50 overrun) ∧ Safe (decodeDisconnect 7 .v50 overrun) ∧
    Safe (decodeAuth 7 overrun) :=
  ⟨by decide, decoders_safe .v50 0x30 .puback overrun 7 (by decide)⟩

end GoMqtt.Inbound.Indexed
