import GoMqtt.Client.Connect
import GoMqtt.Inbound.Decode

/-! # What a CONNACK can impose

The limits of an accepted CONNACK. The table of property values keeps a Receive
Maximum of 0 and a Maximum Packet Size of 0 out of every block the decoder returns,
so the client's own check of them never fails and a fresh session has a permit to
send with. -/
namespace GoMqtt.Inbound
open GoMqtt.Protocol GoMqtt.Client

/-- Whatever a decoded block holds may stand in it. -/
theorem decodeProperties_legal {c rest : Bytes} {target : PropTarget} {p : Properties}
    (h : decodeProperties c target = .ok (some p, rest)) : ∀ e ∈ p.entries, e.Legal target := by
  obtain ⟨es, -, -, hlegal, -, hp⟩ := decodeProperties_ok.mp h
  split at hp
  · cases hp
  · cases hp
    intro e he
    exact hlegal e ((entries_build_subperm hlegal).subset he)

theorem mem_entries_num {ν : Type} {p : Properties} (id : UInt8) (wrap : ν → Value) {n : ν}
    {o : Option ν} (hgroup : numEntries id wrap o ∈ p.groups) (ho : o = some n) :
    ⟨id, wrap n⟩ ∈ p.entries := by
  refine List.mem_flatten.mpr ⟨_, hgroup, ?_⟩
  rw [ho]
  exact List.mem_singleton.mpr rfl

/-- The limits of a block are in the ranges of the specification. -/
structure LimitsInRange (p : Properties) : Prop where
  receiveMaximum : p.receiveMaximum ≠ some 0
  maximumPacketSize : p.maximumPacketSize ≠ some 0
  maximumQoS : ∀ q, p.maximumQoS = some q → q ≤ 1

theorem decodeProperties_limits {c rest : Bytes} {target : PropTarget} {p : Properties}
    (h : decodeProperties c target = .ok (some p, rest)) : LimitsInRange p := by
  have hlegal := decodeProperties_legal h
  refine ⟨fun hr => ?_, fun hm => ?_, fun q hq => ?_⟩
  · have hmem := mem_entries_num (p := p) 0x21 .u16 (by simp [Properties.groups]) hr
    exact absurd (hlegal _ hmem).2.2 (by decide)
  · have hmem := mem_entries_num (p := p) 0x27 .u32 (by simp [Properties.groups]) hm
    exact absurd (hlegal _ hmem).2.2 (by decide)
  · have hmem := mem_entries_num (p := p) 0x24 .byte (by simp [Properties.groups]) hq
    have hrange : propertyValueViolation 0x24 q.toUInt32 = none := (hlegal _ hmem).2.2
    unfold propertyValueViolation at hrange
    rw [if_pos (by decide)] at hrange
    split at hrange
    · cases hrange
    · rename_i hle
      simpa [UInt8.le_iff_toNat_le, UInt32.lt_iff_toNat_lt] using hle

variable {v : Version} {body : Bytes} {ack : ConnackPacket}

theorem decodeConnack_accepted (h : decodeConnack v body = .ok ack) :
    (ack.sessionPresent = true → ack.reasonCode = .success) ∧
    LimitsInRange (ack.properties.getD {}) := by
  have hnone : LimitsInRange {} := ⟨nofun, nofun, nofun⟩
  unfold decodeConnack at h
  obtain ⟨x, -, h⟩ := bind_eq_ok.mp h
  dsimp only at h
  split at h
  · cases h
  obtain ⟨y, -, h⟩ := bind_eq_ok.mp h
  split at h
  · cases h
  rename_i hsession
  simp only [Bool.and_eq_true, bne_iff_ne, not_and, not_not] at hsession
  cases v with
  | v311 =>
    dsimp only at h
    split at h
    · cases h
    cases h
    refine ⟨fun hp => ?_, hnone⟩
    rw [if_pos (by simpa using hsession (by simpa using hp))]
  | v50 =>
    obtain ⟨z, hz, h⟩ := bind_eq_ok.mp h
    split at h
    · cases h
    cases h
    refine ⟨fun hp => ?_, ?_⟩
    · rw [hsession (by simpa using hp)]
      rfl
    · obtain ⟨p, rest⟩ := z
      cases p with
      | none => exact hnone
      | some p => exact decodeProperties_limits hz

/-! ## What the client makes of it -/

theorem validateConnackLimits_ok (h : LimitsInRange (ack.properties.getD {})) (v : Version) :
    validateConnackLimits v ack = .ok () := by
  unfold validateConnackLimits
  split
  · rename_i p hp
    rw [hp, Option.getD_some] at h
    rw [if_neg h.receiveMaximum, if_neg h.maximumPacketSize]
  · rfl

theorem receiveMaximum_pos (h : LimitsInRange (ack.properties.getD {})) :
    1 ≤ (buildConnectResult ack).receiveMaximum := by
  unfold buildConnectResult
  cases hr : (ack.properties.getD {}).receiveMaximum with
  | none => simp [hr, defaultReceiveMaximum]
  | some n =>
    have hne : n ≠ 0 := fun h0 => h.receiveMaximum (by rw [hr, h0])
    simp only [hr, Option.getD_some]
    rw [ne_eq, ← UInt16.toNat_inj] at hne
    exact UInt16.le_iff_toNat_le.mpr (Nat.pos_of_ne_zero hne)

theorem maximumQoS_le (h : LimitsInRange (ack.properties.getD {})) :
    (buildConnectResult ack).maximumQoS ≤ 2 := by
  unfold buildConnectResult
  cases hq : (ack.properties.getD {}).maximumQoS with
  | none => simp [hq]
  | some q =>
    simp only [hq, Option.getD_some]
    exact UInt8.le_trans (h.maximumQoS q hq) (by decide)

theorem quotaSize_pos {cfg : TCPConfig} {result : ConnectResult} (h : 1 ≤ result.receiveMaximum) :
    1 ≤ quotaSize cfg result := by
  rw [UInt16.le_iff_toNat_le] at h
  unfold quotaSize
  split
  · exact_mod_cast h
  · split
    · rename_i hne
      have hpos : cfg.maxInflight.toNat ≠ 0 := by simpa [← UInt16.toNat_inj] using hne
      omega
    · decide

/-- A session that starts afresh has the whole quota. -/
theorem avail_applySession {s : State} {result : ConnectResult}
    (h : discards s.cfg result = true) :
    (s.applySession result).quota.avail = quotaSize s.cfg result := by
  have hnonneg := quotaSize_nonneg s.cfg result
  unfold State.applySession
  rw [if_pos h]
  show max (quotaSize s.cfg result - 0) 0 = quotaSize s.cfg result
  omega

/-- An accepted CONNACK passes the client's own check of its limits and leaves it some
of each: a Receive Maximum of at least 1, a Maximum QoS of at most 2, and a Maximum
Packet Size that is 0 only for a broker that sets none. It announces a session only with
success, and a connect that starts afresh has a permit to send with. -/
theorem connack_never_starves (h : decodeConnack v body = .ok ack) :
    validateConnackLimits v ack = .ok () ∧
    1 ≤ (buildConnectResult ack).receiveMaximum ∧
    (buildConnectResult ack).maximumQoS ≤ 2 ∧
    ((buildConnectResult ack).maximumPacketSize = 0 ↔
      (ack.properties.getD {}).maximumPacketSize = none) ∧
    (ack.sessionPresent = true → ack.reasonCode = .success) ∧
    ∀ s : State, s.cfg.protocolVersion = v →
      discards s.cfg (buildConnectResult ack) = true →
      1 ≤ (s.applySession (buildConnectResult ack)).quota.avail := by
  obtain ⟨hsession, hlimits⟩ := decodeConnack_accepted h
  have hreceive := receiveMaximum_pos hlimits
  refine ⟨validateConnackLimits_ok hlimits v, hreceive, maximumQoS_le hlimits, ?_, hsession, ?_⟩
  · unfold buildConnectResult
    cases hm : (ack.properties.getD {}).maximumPacketSize with
    | none => simp [hm]
    | some n =>
      have hne : n ≠ 0 := fun h0 => hlimits.maximumPacketSize (by rw [hm, h0])
      simp [hm, hne]
  · intro s hv hdiscards
    rw [avail_applySession hdiscards]
    exact quotaSize_pos hreceive

/-- A broker that grants a single message in flight. -/
theorem connack_never_starves_single :
    ∃ ack, decodeConnack .v50 [0, 0, 3, 0x21, 0, 1] = .ok ack ∧
      validateConnackLimits .v50 ack = .ok () ∧
      1 ≤ ((newTCPClient { protocolVersion := .v50 }).applySession
        (buildConnectResult ack)).quota.avail := by
  have h : decodeConnack .v50 [0, 0, 3, 0x21, 0, 1] =
      .ok { sessionPresent := false, properties := some { receiveMaximum := some 1 } } := by
    decide +kernel
  have hall := connack_never_starves h
  exact ⟨_, h, hall.1, hall.2.2.2.2.2 _ rfl rfl⟩

end GoMqtt.Inbound
