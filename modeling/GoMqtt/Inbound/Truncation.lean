import GoMqtt.Inbound.Decode
import GoMqtt.Lib.Reader

/-! # Truncated packets

What a decoder makes of the prefixes of a body it accepts. The variable header of
every packet is read by readers that delimit what they read, so a prefix that cuts it
is refused. What may be missing is what has no end of its own: the payload of a
PUBLISH, reason codes, and the optional fields of the MQTT 5.0 short forms. -/
namespace GoMqtt.Inbound
open GoMqtt.Protocol GoMqtt.Client GoMqtt.Lib

/-! ## The readers -/

theorem readByte_delimits : Delimits readByte :=
  .of_grammar (fun v used => used = [v]) fun c v rest => by
    rw [readByte_ok]
    simp

theorem readUint16_delimits : Delimits readUint16 :=
  .of_grammar (fun v used => used = putUint16 v) fun c v rest => by
    rw [readUint16_ok]
    simp

theorem readString_delimits : Delimits readString :=
  .of_grammar (fun s used => appendString s = .ok used) fun _ _ _ => readString_ok

theorem decodeProperties_delimits (target : PropTarget) :
    Delimits fun c => decodeProperties c target := by
  intro c q rest h
  obtain ⟨es, hlen, rfl, hes⟩ := decodeProperties_ok.mp h
  exact ⟨_, rfl, fun r' => decodeProperties_ok.mpr ⟨es, hlen, rfl, hes⟩⟩

theorem readBlock_delimits (v : Version) (target : PropTarget) : Delimits (readBlock v target) := by
  cases v with
  | v311 => exact .pure none
  | v50 => exact decodeProperties_delimits target

theorem readPacketID_delimits (qos : UInt8) : Delimits (readPacketID qos) :=
  .of_grammar (fun id used =>
      (qos > 0 ∧ id ≠ 0 ∧ used = putUint16 id) ∨ (qos = 0 ∧ id = 0 ∧ used = []))
    fun c id rest => by
      rw [readPacketID_ok]
      constructor
      · rintro (⟨hq, hid, rfl⟩ | ⟨hq, hid, rfl⟩)
        · exact ⟨_, .inl ⟨hq, hid, rfl⟩, rfl⟩
        · exact ⟨[], .inr ⟨hq, hid, rfl⟩, rfl⟩
      · rintro ⟨_, ⟨hq, hid, rfl⟩ | ⟨hq, hid, rfl⟩, rfl⟩
        · exact .inl ⟨hq, hid, rfl⟩
        · exact .inr ⟨hq, hid, rfl⟩

/-! ## Variable headers -/

/-- The variable header of a PUBLISH: topic, packet identifier, properties. -/
def publishHeader (v : Version) (qos : UInt8) (c : Bytes) :
    Except WireError ((Bytes × UInt16 × Option Properties) × Bytes) := do
  let (topic, c) ← readString c
  let (packetID, c) ← readPacketID qos c
  let (properties, c) ← readBlock v tgPublish c
  .ok ((topic, packetID, properties), c)

/-- The variable header of a SUBACK or an UNSUBACK. -/
def subackHeader (v : Version) (target : PropTarget) (c : Bytes) :
    Except WireError ((UInt16 × Option Properties) × Bytes) := do
  let (packetID, c) ← readUint16 c
  let (properties, c) ← readBlock v target c
  .ok ((packetID, properties), c)

/-- A CONNACK: flags, code, properties. -/
def connackHeader (v : Version) (c : Bytes) :
    Except WireError ((UInt8 × UInt8 × Option Properties) × Bytes) := do
  let (ackFlags, c) ← readByte c
  let (rc, c) ← readByte c
  let (properties, c) ← readBlock v tgConnack c
  .ok ((ackFlags, rc, properties), c)

theorem publishHeader_delimits (v : Version) (qos : UInt8) : Delimits (publishHeader v qos) :=
  readString_delimits.bind fun topic => (readPacketID_delimits qos).bind fun packetID =>
    (readBlock_delimits v tgPublish).bind fun properties => .pure (topic, packetID, properties)

theorem subackHeader_delimits (v : Version) (target : PropTarget) :
    Delimits (subackHeader v target) :=
  readUint16_delimits.bind fun packetID => (readBlock_delimits v target).bind fun properties =>
    .pure (packetID, properties)

theorem connackHeader_delimits (v : Version) : Delimits (connackHeader v) :=
  readByte_delimits.bind fun ackFlags => readByte_delimits.bind fun rc =>
    (readBlock_delimits v tgConnack).bind fun properties => .pure (ackFlags, rc, properties)

/-! ## Bodies that end with their header -/

/-- No part of the body stands for the whole. -/
def RefusesCuts {α : Type} (decode : Bytes → Except WireError α) (body : Bytes) : Prop :=
  ∀ n < body.length, Refused (decode (body.take n))

theorem decodeConnack_header {v : Version} {body : Bytes} {ack : ConnackPacket}
    (h : decodeConnack v body = .ok ack) : ∃ x, connackHeader v body = .ok (x, []) := by
  unfold decodeConnack at h
  obtain ⟨x, hx, h⟩ := bind_eq_ok.mp h
  obtain ⟨-, h⟩ := guard_eq_ok.mp h
  obtain ⟨y, hy, h⟩ := bind_eq_ok.mp h
  obtain ⟨-, h⟩ := guard_eq_ok.mp h
  have hblock : ∃ q, readBlock v tgConnack y.2 = .ok (q, []) := by
    cases v with
    | v311 =>
      obtain ⟨hempty, -⟩ := guard_eq_ok.mp h
      have hnil : y.2 = [] := by simpa using hempty
      exact ⟨none, by rw [hnil]; rfl⟩
    | v50 =>
      obtain ⟨z, hz, h⟩ := bind_eq_ok.mp h
      obtain ⟨hempty, -⟩ := guard_eq_ok.mp h
      have hnil : z.2 = [] := by simpa using hempty
      exact ⟨z.1, by rw [← hnil]; exact hz⟩
  obtain ⟨q, hq⟩ := hblock
  exact ⟨(x.1, y.1, q), bind_eq_ok.mpr ⟨x, hx, bind_eq_ok.mpr ⟨y, hy, bind_eq_ok.mpr ⟨_, hq, rfl⟩⟩⟩⟩

theorem decodeConnack_cut {v : Version} {body : Bytes} {ack : ConnackPacket}
    (h : decodeConnack v body = .ok ack) : RefusesCuts (decodeConnack v) body := by
  intro n hn
  obtain ⟨x, hx⟩ := decodeConnack_header h
  refine (decodeConnack_classified v _).refused fun a ha => ?_
  obtain ⟨y, hy⟩ := decodeConnack_header ha
  exact (connackHeader_delimits v).take_fails hx hn _ hy

/-! ## Short forms -/

/-- Of the parts of a body that ends in a reason code and properties, those are accepted
that end before the code or before the properties, which begin at `start`. -/
def ShortForms {α : Type} (decode : Bytes → Except WireError α) (start : Nat) (body : Bytes)
    (bare coded : α) : Prop :=
  ∀ n < body.length,
    if n = start then decode (body.take n) = .ok bare
    else if n = start + 1 then decode (body.take n) = .ok coded
    else Refused (decode (body.take n))

theorem decodeReason_cut {target : PropTarget} {trailing : String} {c : Bytes} {rc : ReasonCode}
    {q : Option Properties} (h : decodeReason target trailing c = .ok (rc, q)) :
    ShortForms (decodeReason target trailing) 0 c (.success, none) (rc, none) := by
  intro n hn
  rcases decodeReason_ok.mp h with ⟨rfl, -⟩ | ⟨rfl, -⟩ | ⟨c', rfl, -, hblock⟩
  · exact absurd hn (Nat.not_lt_zero n)
  · obtain rfl : n = 0 := by simpa using hn
    rfl
  · rcases n with _ | _ | n
    · rfl
    · exact decodeReason_ok.mpr (.inr (.inl ⟨rfl, rfl⟩))
    · rw [if_neg (by omega), if_neg (by omega)]
      refine (decodeReason_classified target trailing _).refused fun x hx => ?_
      rcases decodeReason_ok.mp hx with ⟨hnil, -⟩ | ⟨hone, -⟩ | ⟨d, hd, -, hblock'⟩
      · simp at hnil
      · -- one byte of properties is left at least
        simp only [List.take_succ_cons, List.cons.injEq, List.take_eq_nil_iff] at hone
        obtain rfl : c' = [] := by simpa using hone.2
        simp at hn
      · obtain rfl : c'.take (n + 1) = d := by
          simpa using (List.cons.inj hd).2
        refine (decodeProperties_delimits target).take_fails hblock ?_ _ hblock'
        simp only [List.length_cons, List.length_nil] at hn ⊢
        omega

/-- What follows an accepted start is cut as it is on its own. -/
theorem ShortForms.map {α β : Type} {decode : Bytes → Except WireError α}
    {decode' : Bytes → Except WireError β} {c : Bytes} {bare coded : α}
    (h : ShortForms decode 0 c bare coded) (used : Bytes) (f : α → β)
    (heq : ∀ c, decode' (used ++ c) = decode c >>= fun a => .ok (f a))
    (hcut : ∀ n < used.length, Refused (decode' (used.take n))) :
    ShortForms decode' used.length (used ++ c) (f bare) (f coded) := by
  intro n hn
  rw [List.length_append] at hn
  by_cases hlt : n < used.length
  · rw [if_neg (by omega), if_neg (by omega), List.take_append_of_le_length (by omega)]
    exact hcut n hlt
  obtain ⟨k, rfl⟩ := Nat.exists_eq_add_of_le (Nat.le_of_not_lt hlt)
  have hk := h k (by omega)
  rw [List.take_length_add_append, heq]
  rcases k with _ | _ | k
  · rw [if_pos rfl] at hk
    rw [if_pos (Nat.add_zero _), hk]
    rfl
  · rw [if_neg (by omega), if_pos rfl] at hk
    rw [if_neg (by omega), if_pos rfl, hk]
    rfl
  · rw [if_neg (by omega), if_neg (by omega)] at hk ⊢
    obtain ⟨why, hwhy⟩ := hk
    rw [hwhy]
    exact ⟨why, rfl⟩

theorem decodeAuth_cut {body : Bytes} {p : AuthPacket} (h : decodeAuth body = .ok p) :
    ShortForms decodeAuth 0 body { p with reasonCode := .success, properties := none }
      { p with properties := none } := by
  obtain ⟨x, hx, h⟩ := bind_eq_ok.mp h
  cases h
  exact (decodeReason_cut hx).map [] (fun x => AuthPacket.mk x.1 x.2) (fun _ => rfl)
    (fun n hn => by simp at hn)

theorem decodeDisconnect_cut {v : Version} {body : Bytes} {p : DisconnectPacket}
    (h : decodeDisconnect v body = .ok p) :
    ShortForms (decodeDisconnect v) 0 body
      { p with reasonCode := .normalDisconnection, properties := none }
      { p with properties := none } := by
  cases v with
  | v311 =>
    obtain ⟨hempty, -⟩ := guard_eq_ok.mp h
    have hnil : body = [] := by simpa using hempty
    intro n hn
    simp [hnil] at hn
  | v50 =>
    obtain ⟨x, hx, h⟩ := bind_eq_ok.mp h
    cases h
    exact (decodeReason_cut hx).map [] (fun x => DisconnectPacket.mk .v50 x.1 x.2) (fun _ => rfl)
      (fun n hn => by simp at hn)

theorem decodeAck_readID {v : Version} {t : PacketType} {body : Bytes} {p : AckPacket}
    (h : decodeAck v t body = .ok p) : ∃ target x, ackTarget t = some target ∧
      readUint16 body = .ok x ∧ x.1 ≠ 0 ∧
      match v with
      | .v311 => x.2 = []
      | .v50 => ∃ y, decodeReason target "trailing bytes after acknowledgement properties" x.2 =
          .ok y ∧ p = ⟨.v50, t, x.1, y.1, y.2⟩ := by
  unfold decodeAck at h
  split at h
  · cases h
  rename_i target htarget
  obtain ⟨x, hx, h⟩ := bind_eq_ok.mp h
  obtain ⟨hid, h⟩ := guard_eq_ok.mp h
  refine ⟨target, x, htarget, hx, by simpa using hid, ?_⟩
  cases v with
  | v311 =>
    obtain ⟨hempty, -⟩ := guard_eq_ok.mp h
    simpa using hempty
  | v50 =>
    obtain ⟨y, hy, h⟩ := bind_eq_ok.mp h
    cases h
    exact ⟨y, hy, rfl⟩

/-- A prefix without the whole identifier is refused. -/
theorem decodeAck_cutID {v : Version} {t : PacketType} {id : UInt16} {c : Bytes} {n : Nat}
    (hn : n < 2) : Refused (decodeAck v t ((putUint16 id ++ c).take n)) := by
  refine (decodeAck_classified v t _).refused fun p hp => ?_
  obtain ⟨-, x, -, hx, -⟩ := decodeAck_readID hp
  have hread : readUint16 (putUint16 id ++ c) = .ok (id, c) := readUint16_ok.mpr rfl
  refine readUint16_delimits.take_fails hread ?_ x hx
  rw [List.length_append]
  exact Nat.add_lt_add_right hn c.length

theorem decodeAck_cut_v311 {t : PacketType} {body : Bytes} {p : AckPacket}
    (h : decodeAck .v311 t body = .ok p) : RefusesCuts (decodeAck .v311 t) body := by
  obtain ⟨target, x, -, hx, -, hnil⟩ := decodeAck_readID h
  obtain rfl : body = putUint16 x.1 ++ [] := by
    rw [← readUint16_ok, hx, ← show x.2 = [] from hnil]
  intro n hn
  exact decodeAck_cutID hn

theorem decodeAck_cut_v50 {t : PacketType} {body : Bytes} {p : AckPacket}
    (h : decodeAck .v50 t body = .ok p) :
    ShortForms (decodeAck .v50 t) 2 body { p with reasonCode := .success, properties := none }
      { p with properties := none } := by
  obtain ⟨target, x, htarget, hx, hid, y, hy, rfl⟩ := decodeAck_readID h
  obtain rfl : body = putUint16 x.1 ++ x.2 := readUint16_ok.mp hx
  refine (decodeReason_cut hy).map (putUint16 x.1) (fun y => AckPacket.mk .v50 t x.1 y.1 y.2)
    (fun c => ?_) (fun n hn => ?_)
  · have hread : readUint16 (putUint16 x.1 ++ c) = .ok (x.1, c) := readUint16_ok.mpr rfl
    unfold decodeAck
    rw [htarget]
    dsimp only
    rw [hread, bind_ok, if_neg (by simpa using hid)]
  · have hcut : Refused (decodeAck .v50 t ((putUint16 x.1 ++ []).take n)) := decodeAck_cutID hn
    simpa using hcut

/-! ## Open ends -/

theorem publishHeader_ok {v : Version} {qos : UInt8} {c r topic : Bytes} {id : UInt16}
    {q : Option Properties} : publishHeader v qos c = .ok ((topic, id, q), r) ↔
      ∃ c₁ c₂, readString c = .ok (topic, c₁) ∧ readPacketID qos c₁ = .ok (id, c₂) ∧
        readBlock v tgPublish c₂ = .ok (q, r) := by
  unfold publishHeader
  simp only [bind_eq_ok, Prod.exists, Except.ok.injEq, Prod.mk.injEq]
  constructor
  · rintro ⟨_, c₁, h₁, _, c₂, h₂, _, _, h₃, ⟨rfl, rfl, rfl⟩, rfl⟩
    exact ⟨c₁, c₂, h₁, h₂, h₃⟩
  · rintro ⟨c₁, c₂, h₁, h₂, h₃⟩
    exact ⟨_, c₁, h₁, _, c₂, h₂, _, _, h₃, ⟨rfl, rfl, rfl⟩, rfl⟩

/-- A part of a PUBLISH that has its header is the PUBLISH with a part of its payload. -/
theorem decodePublish_cut {v : Version} {header : UInt8} {body : Bytes} {p : PublishPacket}
    (h : decodePublish v header body = .ok p) :
    ∃ used, publishHeader v p.qos used = .ok ((p.topic, p.packetID, p.properties), []) ∧
      body = used ++ p.payload ∧
      ∀ n, if n < used.length then Refused (decodePublish v header (body.take n))
        else decodePublish v header (body.take n) =
          .ok { p with payload := p.payload.take (n - used.length) } := by
  obtain ⟨⟨hqos, h3⟩, hdup, hzero, hretain, hv, hwild, halias, c₁, c₂, hread⟩ :=
    decodePublish_ok.mp h
  have hheader := publishHeader_ok.mpr ⟨c₁, c₂, hread⟩
  obtain ⟨used, rfl, hused⟩ := publishHeader_delimits v p.qos _ _ _ hheader
  refine ⟨used, by simpa using hused [], rfl, fun n => ?_⟩
  split
  · rename_i hn
    refine (decodePublish_classified v header _).refused fun q hq => ?_
    obtain ⟨⟨hqos', -⟩, -, -, -, -, -, -, d₁, d₂, hread'⟩ := decodePublish_ok.mp hq
    rw [← hqos', hqos] at hread'
    refine (publishHeader_delimits v p.qos).take_fails hheader ?_ _
      (publishHeader_ok.mpr ⟨d₁, d₂, hread'⟩)
    rw [List.length_append]
    omega
  · rename_i hn
    rw [List.take_append, List.take_of_length_le (Nat.le_of_not_lt hn)]
    exact decodePublish_ok.mpr ⟨⟨hqos, h3⟩, hdup, hzero, hretain, hv, hwild, halias,
      publishHeader_ok.mp (hused _)⟩

theorem subackHeader_ok {v : Version} {target : PropTarget} {c r : Bytes} {id : UInt16}
    {q : Option Properties} : subackHeader v target c = .ok ((id, q), r) ↔
      ∃ c₁, readUint16 c = .ok (id, c₁) ∧ readBlock v target c₁ = .ok (q, r) := by
  unfold subackHeader
  simp only [bind_eq_ok, Prod.exists, Except.ok.injEq, Prod.mk.injEq]
  constructor
  · rintro ⟨_, c₁, h₁, _, _, h₂, ⟨rfl, rfl⟩, rfl⟩
    exact ⟨c₁, h₁, h₂⟩
  · rintro ⟨c₁, h₁, h₂⟩
    exact ⟨_, c₁, h₁, _, _, h₂, ⟨rfl, rfl⟩, rfl⟩

/-- A SUBACK, or an UNSUBACK of MQTT 5.0: a header and some reason codes. -/
def AcceptsCodes (v : Version) (target : PropTarget) (allowed : List UInt8) (body : Bytes)
    (p : SubackPacket) : Prop :=
  p.packetID ≠ 0 ∧ ∃ c, subackHeader v target body = .ok ((p.packetID, p.properties), c) ∧
    c ≠ [] ∧ (∀ rc ∈ c, rc ∈ allowed) ∧ p.reasonCodes = c.map ReasonCode.mk

theorem acceptsCodes_iff (v : Version) (target : PropTarget) (allowed : List UInt8)
    (zero empty : WireError) (undefined : UInt8 → String) {body : Bytes} {p : SubackPacket} :
    (do
      let (packetID, c) ← readUint16 body
      if packetID == 0 then .error zero
      else
        let (properties, c) ← readBlock v target c
        if c.isEmpty then .error empty
        else
          let reasonCodes ← readReasonCodes allowed undefined c
          .ok (SubackPacket.mk packetID reasonCodes properties)) = .ok p ↔
      AcceptsCodes v target allowed body p := by
  unfold AcceptsCodes
  simp only [bind_eq_ok, guard_eq_ok, readReasonCodes_ok, subackHeader_ok, Prod.exists, beq_iff_eq,
    List.isEmpty_iff, Except.ok.injEq]
  constructor
  · rintro ⟨id, c₁, h₁, hid, q, c, h₂, hne, codes, ⟨hcodes, rfl⟩, rfl⟩
    exact ⟨hid, c, ⟨c₁, h₁, h₂⟩, hne, hcodes, rfl⟩
  · rintro ⟨hid, c, ⟨c₁, h₁, h₂⟩, hne, hcodes, hp⟩
    exact ⟨_, c₁, h₁, hid, _, c, h₂, hne, _, ⟨hcodes, rfl⟩, by rw [← hp]⟩

theorem decodeSuback_ok {v : Version} {body : Bytes} {p : SubackPacket} :
    decodeSuback v body = .ok p ↔
      AcceptsCodes v tgSuback (match v with | .v311 => subackReasonV311 | .v50 => subackReasonV50)
        body p :=
  acceptsCodes_iff v tgSuback _ _ _ _

theorem decodeUnsuback_ok_v50 {body : Bytes} {p : SubackPacket} :
    decodeUnsuback .v50 body = .ok p ↔ AcceptsCodes .v50 tgUnsuback unsubackReasonV50 body p :=
  acceptsCodes_iff .v50 tgUnsuback unsubackReasonV50 _ _ _

theorem decodeUnsuback_ok_v311 {body : Bytes} {p : SubackPacket} :
    decodeUnsuback .v311 body = .ok p ↔
      readUint16 body = .ok (p.packetID, []) ∧ p.packetID ≠ 0 ∧ p = { packetID := p.packetID } := by
  unfold decodeUnsuback
  simp only [bind_eq_ok, guard_eq_ok, Prod.exists, beq_iff_eq, Bool.not_eq_true',
    Bool.not_eq_false, List.isEmpty_iff, Except.ok.injEq]
  constructor
  · rintro ⟨id, c, h, hid, rfl, rfl⟩
    exact ⟨h, hid, rfl⟩
  · rintro ⟨h, hid, hp⟩
    exact ⟨_, [], h, hid, rfl, hp.symm⟩

/-- Of the parts of a body that is a header and reason codes, those are accepted that
have the header and a code. -/
def FewerCodes (decode : Bytes → Except WireError SubackPacket) (v : Version) (target : PropTarget)
    (body : Bytes) (p : SubackPacket) : Prop :=
  ∃ used, subackHeader v target used = .ok ((p.packetID, p.properties), []) ∧
    body = used ++ p.reasonCodes.map ReasonCode.byte ∧
    ∀ n < body.length, if n ≤ used.length then Refused (decode (body.take n))
      else decode (body.take n) =
        .ok { p with reasonCodes := p.reasonCodes.take (n - used.length) }

theorem AcceptsCodes.cut {decode : Bytes → Except WireError SubackPacket} {v : Version}
    {target : PropTarget} {allowed : List UInt8} {body : Bytes} {p : SubackPacket}
    (h : AcceptsCodes v target allowed body p) (hclass : ∀ c, Classified (decode c))
    (hok : ∀ c q, decode c = .ok q ↔ AcceptsCodes v target allowed c q) :
    FewerCodes decode v target body p := by
  obtain ⟨hid, c, hheader, hne, hcodes, hp⟩ := h
  obtain ⟨used, rfl, hused⟩ := subackHeader_delimits v target _ _ _ hheader
  have hbytes : p.reasonCodes.map ReasonCode.byte = c := by
    rw [hp, List.map_map]
    exact List.map_id c
  refine ⟨used, by simpa using hused [], by rw [hbytes], fun n hn => ?_⟩
  split
  · rename_i hle
    refine (hclass _).refused fun q hq => ?_
    obtain ⟨-, d, hheader', hd, -⟩ := (hok _ _).mp hq
    rcases Nat.lt_or_eq_of_le hle with hlt | rfl
    · refine (subackHeader_delimits v target).take_fails hheader ?_ _ hheader'
      rw [List.length_append]
      omega
    · rw [List.take_left, ← List.append_nil used, hused [], Except.ok.injEq] at hheader'
      exact hd (congrArg Prod.snd hheader').symm
  · rename_i hlt
    rw [List.take_append, List.take_of_length_le (Nat.le_of_not_le hlt), hok]
    refine ⟨hid, _, hused _, ?_, fun rc hrc => hcodes rc (List.mem_of_mem_take hrc), ?_⟩
    · rw [ne_eq, List.take_eq_nil_iff, not_or]
      exact ⟨by omega, hne⟩
    · rw [hp, List.map_take]

theorem decodeSuback_cut {v : Version} {body : Bytes} {p : SubackPacket}
    (h : decodeSuback v body = .ok p) : FewerCodes (decodeSuback v) v tgSuback body p :=
  (decodeSuback_ok.mp h).cut (decodeSuback_classified v) fun _ _ => decodeSuback_ok

theorem decodeUnsuback_cut {v : Version} {body : Bytes} {p : SubackPacket}
    (h : decodeUnsuback v body = .ok p) : FewerCodes (decodeUnsuback v) v tgUnsuback body p := by
  cases v with
  | v50 =>
    exact (decodeUnsuback_ok_v50.mp h).cut (decodeUnsuback_classified .v50) fun _ _ =>
      decodeUnsuback_ok_v50
  | v311 =>
    obtain ⟨hread, -, hp⟩ := decodeUnsuback_ok_v311.mp h
    have hcodes : p.reasonCodes = [] := by rw [hp]
    have hprops : p.properties = none := by rw [hp]
    refine ⟨body, ?_, by rw [hcodes]; simp, fun n hn => ?_⟩
    · rw [hprops]
      exact subackHeader_ok.mpr ⟨[], hread, rfl⟩
    · rw [if_pos (Nat.le_of_lt hn)]
      refine (decodeUnsuback_classified .v311 _).refused fun q hq => ?_
      exact readUint16_delimits.take_fails hread hn _ (decodeUnsuback_ok_v311.mp hq).1

/-! ## All of them -/

/-- What a decoder makes of a part of a body it accepts. A part of a CONNACK, of an
acknowledgement, of a DISCONNECT or of an AUTH is refused, but for the short forms of MQTT
5.0. A part of the others is accepted if it has the whole variable header and, where there
are reason codes, one of them; it is then the same packet with less at its end. -/
theorem truncation_detected (v : Version) :
    (∀ body ack, decodeConnack v body = .ok ack → RefusesCuts (decodeConnack v) body) ∧
    (∀ t body p, decodeAck v t body = .ok p →
      (v = .v311 → RefusesCuts (decodeAck v t) body) ∧
      (v = .v50 → ShortForms (decodeAck v t) 2 body
        { p with reasonCode := .success, properties := none } { p with properties := none })) ∧
    (∀ body p, decodeDisconnect v body = .ok p → ShortForms (decodeDisconnect v) 0 body
      { p with reasonCode := .normalDisconnection, properties := none }
      { p with properties := none }) ∧
    (∀ body p, decodeAuth body = .ok p → ShortForms decodeAuth 0 body
      { p with reasonCode := .success, properties := none } { p with properties := none }) ∧
    (∀ header body p, decodePublish v header body = .ok p →
      ∃ used, publishHeader v p.qos used = .ok ((p.topic, p.packetID, p.properties), []) ∧
        body = used ++ p.payload ∧
        ∀ n, if n < used.length then Refused (decodePublish v header (body.take n))
          else decodePublish v header (body.take n) =
            .ok { p with payload := p.payload.take (n - used.length) }) ∧
    (∀ body p, decodeSuback v body = .ok p → FewerCodes (decodeSuback v) v tgSuback body p) ∧
    (∀ body p, decodeUnsuback v body = .ok p →
      FewerCodes (decodeUnsuback v) v tgUnsuback body p) := by
  refine ⟨fun _ _ h => decodeConnack_cut h, fun t body p h => ⟨?_, ?_⟩,
    fun _ _ h => decodeDisconnect_cut h, fun _ _ h => decodeAuth_cut h,
    fun _ _ _ h => decodePublish_cut h, fun _ _ h => decodeSuback_cut h,
    fun _ _ h => decodeUnsuback_cut h⟩
  · rintro rfl
    exact decodeAck_cut_v311 h
  · rintro rfl
    exact decodeAck_cut_v50 h

/-- A PUBLISH with two properties, a payload of two bytes and QoS 1. -/
def cutPublish : Bytes := [0, 1, 0x61, 0, 1, 5, 0x01, 1, 0x23, 0, 7, 0xAA, 0xBB]

/-- Cut between its properties it is refused, cut in its payload it is accepted. -/
theorem truncation_detected_cutPublish :
    Refused (decodePublish .v50 0x32 (cutPublish.take 8)) ∧
    ∃ p, decodePublish .v50 0x32 (cutPublish.take 12) = .ok p ∧ p.payload = [0xAA] := by
  have h : decodePublish .v50 0x32 cutPublish = .ok
      { version := .v50, topic := [0x61], payload := [0xAA, 0xBB], qos := 1, retain := false,
        dup := false, packetID := 1,
        properties := some { payloadFormat := some 1, topicAlias := some 7 } } := by
    decide +kernel
  obtain ⟨used, -, hbody, hcut⟩ := (truncation_detected .v50).2.2.2.2.1 _ _ _ h
  have hlen : used.length = 11 := by simpa [cutPublish] using (congrArg List.length hbody).symm
  rw [hlen] at hcut
  exact ⟨hcut 8, _, hcut 12, rfl⟩

end GoMqtt.Inbound
