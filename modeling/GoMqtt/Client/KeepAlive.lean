import GoMqtt.Client.Config

/-! # Keep-alive

How often the client pings, and the keep-alive the broker holds it to. The CONNECT
carries whole seconds in 16 bits, the schedule halves the configured duration in
nanoseconds, and a Server Keep Alive replaces both. Durations are integers: an
`int64` of nanoseconds holds every value that is computed here. -/
namespace GoMqtt.Client
open GoMqtt.Protocol

/-- `time.Second`. -/
def second : Int := 1000000000

def keepAliveFloor : Int := 30 * second

/-- The part of `NewTCPClient` that raises the configured keep-alive to the floor. -/
def defaultedKeepAlive (keepAlive : Int) : Int :=
  if keepAlive < keepAliveFloor then keepAliveFloor else keepAlive

/-- The keep-alive of the CONNECT; Go divides towards zero. -/
def keepAliveSeconds (keepAlive : Int) : UInt16 :=
  let s := keepAlive.tdiv second
  if s > 0xFFFF then 0xFFFF else UInt16.ofInt s

/-- The fields of `ConnectResult` that the ping schedule reads. -/
structure KeepAliveResult where
  serverKeepAlive : Int := 0
  serverKeepAliveSet : Bool := false
  deriving DecidableEq, Repr

/-- The part of `buildConnectResult` that fills them in. -/
def buildKeepAliveResult (ack : ConnackPacket) : KeepAliveResult :=
  match (ack.properties.getD {}).serverKeepAlive with
  | some n => { serverKeepAlive := n.toNat * second, serverKeepAliveSet := true }
  | none => {}

/-- `pingInterval` is the override of the package's tests, 0 without it. -/
def effectivePingInterval (keepAlive pingInterval : Int) (result : KeepAliveResult) : Int :=
  if result.serverKeepAliveSet && result.serverKeepAlive == 0 then 0
  else if pingInterval > 0 then pingInterval
  else
    let ka := if result.serverKeepAlive > 0 then result.serverKeepAlive else keepAlive
    ka.tdiv 2

/-- The Server Keep Alive of a CONNACK, in seconds. -/
def serverKeepAlive (ack : ConnackPacket) : Option UInt16 :=
  (ack.properties.getD {}).serverKeepAlive

/-- The keep-alive the broker enforces: its own, or else what the CONNECT asked for. -/
def keepAliveInForce (keepAlive : Int) (ack : ConnackPacket) : Int :=
  ((serverKeepAlive ack).getD (keepAliveSeconds keepAlive)).toNat * second

/-! ## The interval -/

theorem floor_le_defaultedKeepAlive (keepAlive : Int) :
    keepAliveFloor ≤ defaultedKeepAlive keepAlive := by
  unfold defaultedKeepAlive
  split <;> omega

/-- What the CONNECT carries of a duration that is not negative. -/
theorem keepAliveSeconds_toNat {keepAlive : Int} (h : 0 ≤ keepAlive) :
    ((keepAliveSeconds keepAlive).toNat : Int) = min (keepAlive / second) 0xFFFF := by
  unfold keepAliveSeconds
  rw [Int.tdiv_eq_ediv_of_nonneg h]
  have hs : 0 ≤ keepAlive / second := Int.ediv_nonneg h (by decide)
  dsimp only
  split
  · rw [min_eq_right (by omega)]
    rfl
  · rw [min_eq_left (by omega), UInt16.ofInt, UInt16.toNat_ofNat']
    omega

theorem effectivePingInterval_server {ack : ConnackPacket} {n : UInt16}
    (hn : serverKeepAlive ack = some n) (keepAlive : Int) :
    effectivePingInterval keepAlive 0 (buildKeepAliveResult ack) = n.toNat * second / 2 := by
  unfold serverKeepAlive at hn
  unfold buildKeepAliveResult effectivePingInterval second
  rw [hn]
  simp only [Bool.true_and, beq_iff_eq]
  split
  · omega
  · rw [if_neg (by decide), if_pos (by omega), Int.tdiv_eq_ediv_of_nonneg (by omega)]

theorem effectivePingInterval_own {ack : ConnackPacket} (hn : serverKeepAlive ack = none)
    (keepAlive : Int) :
    effectivePingInterval keepAlive 0 (buildKeepAliveResult ack) = keepAlive.tdiv 2 := by
  unfold serverKeepAlive at hn
  unfold buildKeepAliveResult effectivePingInterval
  rw [hn]
  rfl

theorem effectivePingInterval_le_iff (keepAlive : Int) (ack : ConnackPacket) :
    effectivePingInterval (defaultedKeepAlive keepAlive) 0 (buildKeepAliveResult ack) ≤
        keepAliveInForce (defaultedKeepAlive keepAlive) ack ↔
      serverKeepAlive ack ≠ none ∨ keepAlive / 2 ≤ 65535 * second := by
  have hfloor := floor_le_defaultedKeepAlive keepAlive
  unfold keepAliveInForce
  cases hn : serverKeepAlive ack with
  | some n =>
    rw [effectivePingInterval_server hn]
    simp only [Option.getD_some, ne_eq, reduceCtorEq, not_false_eq_true, true_or, iff_true]
    unfold second
    omega
  | none =>
    have hpos : 0 ≤ defaultedKeepAlive keepAlive := le_trans (by decide) hfloor
    rw [effectivePingInterval_own hn, Option.getD_none, keepAliveSeconds_toNat hpos,
      Int.tdiv_eq_ediv_of_nonneg hpos]
    unfold defaultedKeepAlive keepAliveFloor second
    simp only [ne_eq, not_true_eq_false, false_or]
    split <;> omega

/-- The client does not ping exactly if the broker turned the keep-alive off. Otherwise
it pings, and it does so within the keep-alive the broker enforces exactly if the broker
sets it or half of the configured one is no more than the 65535 seconds a CONNECT can
carry. -/
theorem ping_within_keepAlive (keepAlive : Int) (ack : ConnackPacket) :
    let interval :=
      effectivePingInterval (defaultedKeepAlive keepAlive) 0 (buildKeepAliveResult ack)
    (interval = 0 ↔ serverKeepAlive ack = some 0) ∧ (interval ≠ 0 → 0 < interval) ∧
    (interval ≤ keepAliveInForce (defaultedKeepAlive keepAlive) ack ↔
      serverKeepAlive ack ≠ none ∨ keepAlive / 2 ≤ 65535 * second) := by
  have hle := effectivePingInterval_le_iff keepAlive ack
  cases hn : serverKeepAlive ack with
  | some n =>
    rw [hn] at hle
    have hinterval := effectivePingInterval_server hn (defaultedKeepAlive keepAlive)
    have hzero : n = 0 ↔ n.toNat = 0 := by rw [← UInt16.toNat_inj]; rfl
    refine ⟨?_, fun hne => ?_, hle⟩
    · rw [hinterval, Option.some.injEq, hzero]
      unfold second
      omega
    · rw [hinterval] at hne ⊢
      unfold second at hne ⊢
      omega
  | none =>
    rw [hn] at hle
    have hfloor := floor_le_defaultedKeepAlive keepAlive
    have hpos : 0 < effectivePingInterval (defaultedKeepAlive keepAlive) 0
        (buildKeepAliveResult ack) := by
      rw [effectivePingInterval_own hn, Int.tdiv_eq_ediv_of_nonneg (le_trans (by decide) hfloor)]
      unfold keepAliveFloor second at hfloor
      omega
    refine ⟨?_, fun _ => hpos, hle⟩
    simp only [reduceCtorEq, iff_false]
    omega

/-- A keep-alive of 18 hours and some, of which the CONNECT carries 65535 seconds. -/
theorem ping_within_keepAlive_clamped :
    effectivePingInterval (defaultedKeepAlive (65600 * second)) 0
        (buildKeepAliveResult { sessionPresent := false }) = 32800 * second ∧
      32800 * second ≤
        keepAliveInForce (defaultedKeepAlive (65600 * second)) { sessionPresent := false } := by
  have hall := ping_within_keepAlive (65600 * second) { sessionPresent := false }
  have hinterval : effectivePingInterval (defaultedKeepAlive (65600 * second)) 0
      (buildKeepAliveResult { sessionPresent := false }) = 32800 * second := by decide
  refine ⟨hinterval, ?_⟩
  rw [← hinterval]
  exact hall.2.2.mpr (.inr (by decide))

/-- Of 200000 seconds the CONNECT carries 65535, and the client pings every 100000. -/
theorem ping_after_keepAlive :
    keepAliveSeconds (defaultedKeepAlive (200000 * second)) = 65535 ∧
    effectivePingInterval (defaultedKeepAlive (200000 * second)) 0
      (buildKeepAliveResult { sessionPresent := false }) = 100000 * second ∧
    keepAliveInForce (defaultedKeepAlive (200000 * second)) { sessionPresent := false } =
      65535 * second := by
  decide

end GoMqtt.Client
