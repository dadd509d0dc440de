import GoMqtt.Protocol.Cursor

/-! # Framing

`readFrame` cuts one packet off a byte stream and `writePacket` puts one on it. A
stream is the list of the bytes it will deliver, after which it is at its end;
`readFrame` returns what it read, or why it did not, and what is left of the
stream in either case. The size limit counts the whole packet, in arithmetic that
neither wraps nor goes below zero. -/
namespace GoMqtt.Protocol
open GoMqtt.Lib

/-- A fixed-header byte and the bytes after the remaining length. -/
structure Frame where
  header : UInt8
  body : Bytes
  deriving DecidableEq, Repr

/-- The packet type in the high nibble; `none` is the reserved value 0. -/
def Frame.packetType (f : Frame) : Option PacketType :=
  match (f.header >>> 4).toNat with
  | 1 => some .connect
  | 2 => some .connack
  | 3 => some .publish
  | 4 => some .puback
  | 5 => some .pubrec
  | 6 => some .pubrel
  | 7 => some .pubcomp
  | 8 => some .subscribe
  | 9 => some .suback
  | 10 => some .unsubscribe
  | 11 => some .unsuback
  | 12 => some .pingreq
  | 13 => some .pingresp
  | 14 => some .disconnect
  | 15 => some .auth
  | _ => none

/-- `%#02x` of a flag nibble. -/
def flagsHex (flags : UInt8) : String :=
  let digit := if flags < 10 then 48 + flags.toNat else 87 + flags.toNat
  "0x0" ++ String.ofList [Char.ofNat digit]

def reservedFlags (t : PacketType) (want flags : UInt8) : Except WireError Unit :=
  if flags != want then
    .error (.malformedPacket (t.string ++ " with reserved flags " ++ flagsHex flags))
  else .ok ()

def Frame.validateFlags (f : Frame) : Except WireError Unit :=
  let flags := f.header &&& 0x0F
  match f.packetType with
  | some .publish =>
    let qos := (flags >>> 1) &&& 0x03
    if qos == 0x03 then .error (.malformedPacket "PUBLISH with QoS 3")
    else if qos == 0 && flags &&& 0x08 != 0 then
      .error (.malformedPacket "PUBLISH with DUP set at QoS 0")
    else .ok ()
  | some .pubrel => reservedFlags .pubrel 0x02 flags
  | some .subscribe => reservedFlags .subscribe 0x02 flags
  | some .unsubscribe => reservedFlags .unsubscribe 0x02 flags
  | some t => reservedFlags t 0x00 flags
  | none => .error (.malformedPacket "reserved packet type 0")

/-- What ends a read: the stream, at a packet boundary or inside a field, or the
bytes on it. -/
inductive ReadError
  | eof
  | unexpectedEOF
  | wire (e : WireError)
  deriving DecidableEq, Repr

def readVarintFrom (r : Bytes) : Except ReadError UInt32 × Bytes :=
  varintLoop .eof (fun why => .wire (.malformedPacket why)) 4 0 0 r

def varintLen (v : UInt32) : Nat :=
  if v < (1 : UInt32) <<< 7 then 1
  else if v < (1 : UInt32) <<< 14 then 2
  else if v < (1 : UInt32) <<< 21 then 3
  else 4

/-- `io.ReadFull` of `n` bytes. -/
def readFull (n : Nat) (r : Bytes) : Except ReadError Bytes × Bytes :=
  if n ≤ r.length then (.ok (r.take n), r.drop n)
  else (.error (if r.isEmpty then .eof else .unexpectedEOF), [])

def readFrame (r : Bytes) (maxPacketSize : UInt32) : Except ReadError Frame × Bytes :=
  match r with
  | [] => (.error .eof, [])
  | head :: r =>
    match readVarintFrom r with
    | (.error e, r) => (.error e, r)
    | (.ok length, r) =>
      let overhead := (1 + varintLen length).toUInt32
      if maxPacketSize < overhead || length > maxPacketSize - overhead then
        (.error (.wire (.frameTooLarge
          s!"{overhead.toNat + length.toNat} > {maxPacketSize.toNat}")), r)
      else
        match readFull length.toNat r with
        | (.error e, r) => (.error e, r)
        | (.ok body, r) => (.ok ⟨head, body⟩, r)

/-! ## The fixed header -/

theorem readVarintFrom_ok {r rest : Bytes} {v : UInt32} : readVarintFrom r = (.ok v, rest) ↔
    ∃ bs, r = bs ++ rest ∧ IsVarint bs v.toNat ∧ bs.length ≤ 4 := by
  unfold readVarintFrom
  rw [varintLoop_ok rfl (by simp)]
  constructor
  · rintro ⟨bs, n, rfl, h, hlen, -, hval⟩
    obtain rfl : v.toNat = n := by simpa using hval
    exact ⟨bs, rfl, h, hlen⟩
  · rintro ⟨bs, rfl, h, hlen⟩
    exact ⟨bs, _, rfl, h, hlen, by simp, by simp⟩

/-- A varint that cannot be read is malformed or cut short. -/
theorem readVarintFrom_error {r rest : Bytes} {e : ReadError}
    (h : readVarintFrom r = (.error e, rest)) :
    e = .eof ∨ ∃ why, e = .wire (.malformedPacket why) := by
  unfold readVarintFrom at h
  generalize 4 = k at h
  generalize 0 = i at h
  generalize (0 : UInt32) = value at h
  induction k generalizing i value r with
  | zero => cases h; exact .inr ⟨_, rfl⟩
  | succ k ih =>
    cases r with
    | nil => cases h; exact .inl rfl
    | cons b r =>
      rw [varintLoop] at h
      split at h
      · split at h
        · cases h; exact .inr ⟨_, rfl⟩
        · cases h
      · exact ih _ _ h

/-- The number of bytes of the one spelling a length has. -/
theorem varintLen_eq {bs : Bytes} {v : UInt32} (h : IsVarint bs v.toNat) (hlen : bs.length ≤ 4) :
    varintLen v = bs.length := by
  have h1 := h.length_le_iff 1 (by omega)
  have h2 := h.length_le_iff 2 (by omega)
  have h3 := h.length_le_iff 3 (by omega)
  have hpos := h.length_pos
  simp only [varintLen, UInt32.lt_iff_toNat_lt]
  rw [show ((1 : UInt32) <<< 7).toNat = 128 ^ 1 from rfl,
    show ((1 : UInt32) <<< 14).toNat = 128 ^ 2 from rfl,
    show ((1 : UInt32) <<< 21).toNat = 128 ^ 3 from rfl]
  split
  · omega
  split
  · omega
  split <;> omega

/-- For every input, a number is read from the cursor exactly if it is at most 268435455
and the input starts with what `appendVarint` writes for it, which `varintLen` measures.
The reader of the stream accepts the same, with the same rest. Both refuse as malformed an
input that goes on after four bytes, and one whose last digit adds nothing. -/
theorem varint_one_spelling (s : Bytes) :
    (∀ v r, readVarint s = .ok (v, r) ↔ v.toNat ≤ 268435455 ∧ s = appendVarint v ++ r) ∧
    (∀ v r, readVarint s = .ok (v, r) → varintLen v + r.length = s.length) ∧
    (∀ v r, readVarintFrom s = (.ok v, r) ↔ readVarint s = .ok (v, r)) ∧
    (∀ cs r, s = cs ++ r → Continues cs → cs.length = 4 →
      readVarint s = .error (.malformedPacket "variable byte integer too long") ∧
      readVarintFrom s = (.error (.wire (.malformedPacket "variable byte integer too long")), r)) ∧
    ∀ cs r, s = cs ++ 0 :: r → Continues cs → 0 < cs.length → cs.length < 4 →
      readVarint s = .error (.malformedPacket "non-minimal variable byte integer") ∧
      readVarintFrom s =
        (.error (.wire (.malformedPacket "non-minimal variable byte integer")), r) := by
  refine ⟨fun v r => readVarint_ok, ?_, ?_, ?_, ?_⟩
  · intro v r h
    obtain ⟨hle, rfl⟩ := readVarint_ok.mp h
    have hspelt := appendVarint_isVarint v
    have hlen : (appendVarint v).length ≤ 4 := by
      refine (hspelt.length_le_iff 4 (by omega)).mpr ?_
      unfold maxVarint at hle
      omega
    rw [varintLen_eq hspelt hlen, List.length_append]
  · intro v r
    rw [readVarint_loop, varintLoop_ok rfl (by simp)]
    exact varintLoop_ok rfl (by simp)
  · intro cs r hs hcs hlen
    subst hs
    refine ⟨?_, varintLoop_tooLong _ _ hcs hlen r⟩
    unfold readVarint
    rw [varintLoop_tooLong _ _ hcs hlen r]
  · intro cs r hs hcs hpos hlen
    subst hs
    refine ⟨?_, varintLoop_nonMinimal _ _ hcs hpos hlen r⟩
    unfold readVarint
    rw [varintLoop_nonMinimal _ _ hcs hpos hlen r]

/-- One spelt with one byte, one byte too many, and one that does not end. -/
theorem varint_one_spelling_one :
    varintLen 1 + ([7] : Bytes).length = ([1, 7] : Bytes).length ∧
    (readVarint [0x81, 0x00] = .error (.malformedPacket "non-minimal variable byte integer") ∧
      readVarintFrom [0x81, 0x00] =
        (.error (.wire (.malformedPacket "non-minimal variable byte integer")), [])) ∧
    readVarint [0x81, 0x80, 0x80, 0x80, 0x01] =
        .error (.malformedPacket "variable byte integer too long") ∧
      readVarintFrom [0x81, 0x80, 0x80, 0x80, 0x01] =
        (.error (.wire (.malformedPacket "variable byte integer too long")), [0x01]) := by
  obtain ⟨-, hlen, -, -, -⟩ := varint_one_spelling [1, 7]
  obtain ⟨-, -, -, -, hzero⟩ := varint_one_spelling [0x81, 0x00]
  obtain ⟨-, -, -, hlong, -⟩ := varint_one_spelling [0x81, 0x80, 0x80, 0x80, 0x01]
  exact ⟨hlen 1 [7] (by decide), hzero [0x81] [] rfl (by decide) (by decide) (by decide),
    hlong [0x81, 0x80, 0x80, 0x80] [0x01] rfl (by decide) (by decide)⟩

/-- The comparison is the one between the sizes as numbers: nothing wraps. -/
theorem over_limit_iff {length limit : UInt32} {k : Nat} (hk : k ≤ 4) :
    (limit < (1 + k).toUInt32 || length > limit - (1 + k).toUInt32) = true ↔
      limit.toNat < 1 + k + length.toNat := by
  have ho : (1 + k).toUInt32.toNat = 1 + k := by
    rw [Nat.toUInt32_eq, UInt32.toNat_ofNat']
    omega
  rw [Bool.or_eq_true, decide_eq_true_eq, decide_eq_true_eq, gt_iff_lt, UInt32.lt_iff_toNat_lt,
    UInt32.lt_iff_toNat_lt, ho]
  by_cases hlt : limit.toNat < 1 + k
  · omega
  · have hsub : (limit - (1 + k).toUInt32).toNat = limit.toNat - (1 + k) := by
      rw [UInt32.toNat_sub_of_le _ _ (by rw [UInt32.le_iff_toNat_le, ho]; omega), ho]
    rw [hsub]
    omega

theorem readFull_ok {n : Nat} {r b rest : Bytes} :
    readFull n r = (.ok b, rest) ↔ r = b ++ rest ∧ b.length = n := by
  unfold readFull
  constructor
  · intro h
    split at h
    · rename_i hle
      cases h
      exact ⟨(List.take_append_drop n r).symm, by simpa using hle⟩
    · cases h
  · rintro ⟨rfl, rfl⟩
    simp

theorem readFull_error {n : Nat} {r rest : Bytes} {e : ReadError}
    (h : readFull n r = (.error e, rest)) : e = .eof ∨ e = .unexpectedEOF := by
  unfold readFull at h
  split at h
  · cases h
  · cases h
    split
    · exact .inl rfl
    · exact .inr rfl

/-! ## One packet -/

/-- After its fixed header a packet is over the limit, cut short, or read. -/
theorem readFrame_header {head : UInt8} {bs r : Bytes} {n : UInt32} (h : IsVarint bs n.toNat)
    (hlen : bs.length ≤ 4) (maxPacketSize : UInt32) :
    readFrame (head :: (bs ++ r)) maxPacketSize =
      if maxPacketSize.toNat < 1 + bs.length + n.toNat then
        (.error (.wire (.frameTooLarge
          s!"{(1 + bs.length).toUInt32.toNat + n.toNat} > {maxPacketSize.toNat}")), r)
      else
        match readFull n.toNat r with
        | (.error e, r) => (.error e, r)
        | (.ok body, r) => (.ok ⟨head, body⟩, r) := by
  have hv : readVarintFrom (bs ++ r) = (.ok n, r) := readVarintFrom_ok.mpr ⟨bs, rfl, h, hlen⟩
  rw [readFrame, hv]
  dsimp only
  rw [varintLen_eq h hlen]
  by_cases hover : maxPacketSize.toNat < 1 + bs.length + n.toNat
  · rw [if_pos ((over_limit_iff hlen).mpr hover), if_pos hover]
  · rw [if_neg (mt (over_limit_iff hlen).mp hover), if_neg hover]

/-- A stream on which no fixed header can be read gives no packet and is not
over the limit. -/
theorem readFrame_cases (r : Bytes) (maxPacketSize : UInt32) :
    (∃ head bs rest, ∃ n : UInt32, r = head :: (bs ++ rest) ∧ IsVarint bs n.toNat ∧ bs.length ≤ 4) ∨
    ∃ e rest, readFrame r maxPacketSize = (.error e, rest) ∧
      (e = .eof ∨ ∃ why, e = .wire (.malformedPacket why)) := by
  cases r with
  | nil => exact .inr ⟨.eof, [], rfl, .inl rfl⟩
  | cons head r =>
    rcases hv : readVarintFrom r with ⟨e | n, rest⟩
    · refine .inr ⟨e, rest, ?_, readVarintFrom_error hv⟩
      rw [readFrame, hv]
    · obtain ⟨bs, rfl, h, hlen⟩ := readVarintFrom_ok.mp hv
      exact .inl ⟨head, bs, rest, n, rfl, h, hlen⟩

theorem readFrame_ok {r rest : Bytes} {maxPacketSize : UInt32} {f : Frame} :
    readFrame r maxPacketSize = (.ok f, rest) ↔
      ∃ bs, r = f.header :: (bs ++ f.body ++ rest) ∧ IsVarint bs f.body.length ∧ bs.length ≤ 4 ∧
        1 + bs.length + f.body.length ≤ maxPacketSize.toNat := by
  constructor
  · intro h
    rcases readFrame_cases r maxPacketSize with ⟨head, bs, r, n, rfl, hv, hlen⟩ | ⟨e, _, he, -⟩
    · rw [readFrame_header hv hlen] at h
      split at h
      · cases h
      rename_i hle
      rcases hb : readFull n.toNat r with ⟨e | body, r'⟩
      · rw [hb] at h
        cases h
      · rw [hb] at h
        cases h
        obtain ⟨rfl, hn⟩ := readFull_ok.mp hb
        refine ⟨bs, by simp, by rwa [hn], hlen, by simp only [hn]; omega⟩
    · rw [he] at h
      cases h
  · rintro ⟨bs, rfl, hv, hlen, hle⟩
    have hlt := (hv.length_le_iff 4 (by omega)).mp hlen
    have hn : f.body.length.toUInt32.toNat = f.body.length := by
      rw [Nat.toUInt32_eq, UInt32.toNat_ofNat']
      omega
    rw [← hn] at hv
    rw [List.append_assoc, readFrame_header hv hlen, if_neg (by omega),
      readFull_ok.mpr ⟨rfl, hn.symm⟩]

theorem readFrame_tooLarge {r rest : Bytes} {maxPacketSize : UInt32} :
    (∃ why, readFrame r maxPacketSize = (.error (.wire (.frameTooLarge why)), rest)) ↔
      ∃ head bs n, r = head :: (bs ++ rest) ∧ IsVarint bs n ∧ bs.length ≤ 4 ∧
        maxPacketSize.toNat < 1 + bs.length + n := by
  constructor
  · rintro ⟨why, h⟩
    rcases readFrame_cases r maxPacketSize with ⟨head, bs, r, n, rfl, hv, hlen⟩ | ⟨e, _, he, hw⟩
    · rw [readFrame_header hv hlen] at h
      split at h
      · rename_i hlt
        cases h
        exact ⟨head, bs, _, rfl, hv, hlen, hlt⟩
      rcases hb : readFull n.toNat r with ⟨e | body, r'⟩
      · rw [hb] at h
        cases h
        rcases readFull_error hb with h | h <;> cases h
      · rw [hb] at h
        cases h
    · rw [he] at h
      rcases hw with rfl | ⟨_, rfl⟩ <;> cases h
  · rintro ⟨head, bs, n, rfl, hv, hlen, hlt⟩
    have hn : n.toUInt32.toNat = n := by
      have := (hv.length_le_iff 4 (by omega)).mp hlen
      rw [Nat.toUInt32_eq, UInt32.toNat_ofNat']
      omega
    rw [← hn] at hv hlt
    rw [readFrame_header hv hlen, if_pos hlt]
    exact ⟨_, rfl⟩

theorem readFrame_length {r rest : Bytes} {maxPacketSize : UInt32} {f : Frame}
    (h : readFrame r maxPacketSize = (.ok f, rest)) : rest.length < r.length := by
  obtain ⟨bs, rfl, -⟩ := readFrame_ok.mp h
  simp only [List.length_cons, List.length_append]
  omega

/-! ## A stream of packets -/

/-- Read packets until a read fails. -/
def readFrames (maxPacketSize : UInt32) (r : Bytes) : List Frame × ReadError :=
  match _h : readFrame r maxPacketSize with
  | (.error e, _) => ([], e)
  | (.ok f, rest) =>
    let (fs, e) := readFrames maxPacketSize rest
    (f :: fs, e)
termination_by r.length
decreasing_by exact readFrame_length _h

theorem readFrames_ok {r rest : Bytes} {maxPacketSize : UInt32} {f : Frame}
    (h : readFrame r maxPacketSize = (.ok f, rest)) :
    readFrames maxPacketSize r =
      (f :: (readFrames maxPacketSize rest).1, (readFrames maxPacketSize rest).2) := by
  rw [readFrames]
  split
  · rename_i heq
    rw [h] at heq
    cases heq
  · rename_i heq
    rw [h] at heq
    cases heq
    rfl

theorem readFrames_nil (maxPacketSize : UInt32) : readFrames maxPacketSize [] = ([], .eof) := by
  rw [readFrames]
  rfl

theorem writePacket_ok {header : UInt8} {body b : Bytes} : writePacket header body = .ok b ↔
    body.length ≤ maxVarint ∧ b = header :: (appendVarint body.length.toUInt32 ++ body) := by
  unfold writePacket
  split
  · simp only [reduceCtorEq, false_iff]
    omega
  · simp_all [eq_comm]

/-- Reading back one packet of any stream. -/
theorem readFrame_writePacket {header : UInt8} {body b : Bytes} (h : writePacket header body = .ok b)
    (rest : Bytes) {maxPacketSize : UInt32} (hle : b.length ≤ maxPacketSize.toNat) :
    readFrame (b ++ rest) maxPacketSize = (.ok ⟨header, body⟩, rest) := by
  obtain ⟨hlen, rfl⟩ := writePacket_ok.mp h
  have hn : body.length.toUInt32.toNat = body.length := by
    unfold maxVarint at hlen
    rw [Nat.toUInt32_eq, UInt32.toNat_ofNat']
    omega
  have hv := appendVarint_isVarint body.length.toUInt32
  rw [hn] at hv
  refine readFrame_ok.mpr ⟨_, by simp, hv, ?_, ?_⟩
  · rw [hv.length_le_iff 4 (by omega)]
    unfold maxVarint at hlen
    omega
  · simp only [List.length_cons, List.length_append] at hle ⊢
    omega

/-- The packets of `frames`, one after another. -/
def writePackets (frames : List Frame) : Except WireError Bytes :=
  appendAll (frames.map fun f => writePacket f.header f.body)

theorem writePackets_isOk {frames : List Frame} (h : ∀ f ∈ frames, f.body.length ≤ maxVarint) :
    ∃ stream, writePackets frames = .ok stream := by
  induction frames with
  | nil => exact ⟨[], rfl⟩
  | cons f frames ih =>
    obtain ⟨b₂, h₂⟩ := ih fun g hg => h g (List.mem_cons_of_mem _ hg)
    obtain ⟨b₁, h₁⟩ : ∃ b, writePacket f.header f.body = .ok b :=
      ⟨_, writePacket_ok.mpr ⟨h f List.mem_cons_self, rfl⟩⟩
    exact ⟨_, appendAll_cons_ok.mpr ⟨b₁, b₂, h₁, h₂, rfl⟩⟩

theorem readFrames_writePackets {frames : List Frame} {maxPacketSize : UInt32} {stream : Bytes}
    (h : writePackets frames = .ok stream)
    (hle : ∀ f ∈ frames, ∀ b, writePacket f.header f.body = .ok b →
      b.length ≤ maxPacketSize.toNat) :
    readFrames maxPacketSize stream = (frames, .eof) := by
  induction frames generalizing stream with
  | nil =>
    cases h
    exact readFrames_nil maxPacketSize
  | cons f frames ih =>
    obtain ⟨b₁, b₂, h₁, h₂, rfl⟩ := appendAll_cons_ok.mp h
    rw [readFrames_ok (readFrame_writePacket h₁ b₂ (hle f List.mem_cons_self b₁ h₁)),
      ih h₂ fun g hg => hle g (List.mem_cons_of_mem _ hg)]

/-- Packets written one after another are read back as they were, whatever their
number, and then the stream is at its end. On any stream a read succeeds exactly
on a header byte, a minimal length and that many bytes within the limit, and is
refused as too large, with nothing read beyond the length, exactly when the size
announced is over it. -/
theorem framing_exact (maxPacketSize : UInt32) :
    (∀ frames : List Frame, (∀ f ∈ frames, f.body.length ≤ maxVarint) →
      ∃ stream, writePackets frames = .ok stream ∧
        ((∀ f ∈ frames, ∀ b, writePacket f.header f.body = .ok b →
          b.length ≤ maxPacketSize.toNat) →
        readFrames maxPacketSize stream = (frames, .eof))) ∧
    (∀ r f rest, readFrame r maxPacketSize = (.ok f, rest) ↔
      ∃ bs, r = f.header :: (bs ++ f.body ++ rest) ∧ IsVarint bs f.body.length ∧ bs.length ≤ 4 ∧
        1 + bs.length + f.body.length ≤ maxPacketSize.toNat) ∧
    ∀ r rest, (∃ why, readFrame r maxPacketSize = (.error (.wire (.frameTooLarge why)), rest)) ↔
      ∃ head bs n, r = head :: (bs ++ rest) ∧ IsVarint bs n ∧ bs.length ≤ 4 ∧
        maxPacketSize.toNat < 1 + bs.length + n := by
  refine ⟨fun frames h => ?_, fun r f rest => readFrame_ok, fun r rest => readFrame_tooLarge⟩
  obtain ⟨stream, hs⟩ := writePackets_isOk h
  exact ⟨stream, hs, readFrames_writePackets hs⟩

/-- A PUBACK and a PINGREQ, back to back. -/
theorem framing_exact_pair : ∃ stream,
    writePackets [⟨0x40, [0, 7]⟩, ⟨0xC0, []⟩] = .ok stream ∧
      readFrames 4 stream = ([⟨0x40, [0, 7]⟩, ⟨0xC0, []⟩], .eof) := by
  obtain ⟨stream, hs, hr⟩ := (framing_exact 4).1 [⟨0x40, [0, 7]⟩, ⟨0xC0, []⟩] (by decide)
  refine ⟨stream, hs, hr ?_⟩
  simp only [List.mem_cons, List.not_mem_nil, or_false]
  rintro f (rfl | rfl) b hb <;> cases hb <;> decide

end GoMqtt.Protocol
