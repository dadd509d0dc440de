import GoMqtt.Client.FlowControl

/-! # The limits a link was established with

Publish looks at the Maximum QoS and at Retain Available, `writeFrame` at the
Maximum Packet Size. The replay of a resumed session goes through `writeFrame`
only, so the limits hold for every PUBLISH on a link where the stored ones are
within the first two; and an entry whose frame no longer fits is passed over,
although its permit has been taken. -/
namespace GoMqtt.Client
open GoMqtt.Protocol GoMqtt.Session GoMqtt.Lib

/-! ## The CONNACK of a link -/

/-- The sessions applied so far, one for each link made. -/
def accepted (hist : List Event) : List ConnectResult :=
  hist.filterMap fun
    | .applied result _ => some result
    | _ => none

/-- What the CONNACK that established the link negotiated. -/
def connack (hist : List Event) (l : LinkId) : Option ConnectResult := (accepted hist)[l]?

/-- The QoS and the RETAIN flag are what the broker supports. -/
def Supported (r : ConnectResult) (p : PublishPacket) : Prop :=
  p.qos ≤ r.maximumQoS ∧ (p.retain = true → r.retainAvailable = true)

/-- The encoded packet is within the Maximum Packet Size, 0 being none. -/
def FitsSize (result : ConnectResult) (p : Packet) : Prop :=
  ∃ bytes, p.encode = .ok bytes ∧
    (result.maximumPacketSize = 0 ∨ bytes.length ≤ result.maximumPacketSize.toNat)

theorem accepted_append {hist es : List Event} (h : ∀ e ∈ es, Session.Neutral e) :
    accepted (hist ++ es) = accepted hist := by
  unfold accepted
  rw [List.filterMap_append, List.append_right_eq_self, List.filterMap_eq_nil_iff]
  intro e he
  cases e with
  | applied r n => exact absurd rfl (h _ he r n)
  | _ => rfl

theorem accepted_applied (hist : List Event) (result : ConnectResult) (n : Nat) :
    accepted (hist ++ [Event.applied result n]) = accepted hist ++ [result] := by
  simp [accepted]

/-! ## Sizes -/

theorem length_appendVarintLoop (n : Nat) (v : UInt32) : (appendVarintLoop n v).length ≤ n := by
  induction n generalizing v with
  | zero => simp [appendVarintLoop]
  | succ n ih =>
    unfold appendVarintLoop
    dsimp only
    split
    · simpa using ih _
    · simp

theorem length_writePacket {header : UInt8} {body bytes : Bytes}
    (h : writePacket header body = .ok bytes) : bytes.length ≤ maxVarint + 6 := by
  unfold writePacket at h
  split at h
  · cases h
  · rename_i hmax
    cases h
    have hvar : (appendVarint body.length.toUInt32).length ≤ 5 := length_appendVarintLoop 5 _
    simp only [List.length_cons, List.length_append]
    omega

theorem length_encode {p : Packet} {bytes : Bytes} (h : p.encode = .ok bytes) :
    bytes.length < 2 ^ 32 := by
  have hle : bytes.length ≤ maxVarint + 6 := by
    cases p <;>
      simp only [Packet.encode, PublishPacket.encode, AckPacket.encodeAck, SubscribePacket.encode,
        UnsubscribePacket.encode, encodePingReq, DisconnectPacket.encode, bind, Except.bind, throw,
        throwThe, MonadExceptOf.throw] at h <;>
      (repeat' split at h) <;>
      first
        | exact length_writePacket h
        | cases h
  unfold maxVarint at hle
  omega

/-- A packet fits a link if it is within the limit as a number. -/
theorem fits_iff {k : Link} {result : ConnectResult} (hk : k.outboundMax = result.maximumPacketSize)
    (p : Packet) : k.fits p ↔ FitsSize result p := by
  unfold Link.fits FitsSize
  rw [hk]
  refine exists_congr fun bytes => and_congr_right fun henc => or_congr_right ?_
  rw [UInt32.le_iff_toNat_le, Nat.toUInt32_eq, UInt32.toNat_ofNat',
    Nat.mod_eq_of_lt (length_encode henc)]

/-- A Publish that passes its checks is supported by the broker it goes to. -/
theorem publishChecks_supported {s : State} {req : PublishRequest} {l : LinkId} {r : ConnectResult}
    (h : s.publishChecks req = .ok l) (hr : s.result = some r) :
    Supported r (s.publishPacket req) := by
  unfold State.publishChecks at h
  simp only [hr, bind, Except.bind, pure, Except.pure, throw, throwThe, MonadExceptOf.throw] at h
  by_cases hq : req.qos > r.maximumQoS
  · simp only [hq, if_true] at h
    repeat' split at h
    all_goals cases h
  · by_cases hret : (req.retain && !r.retainAvailable) = true
    · simp only [hq, hret, if_true, if_false] at h
      repeat' split at h
      all_goals cases h
    · refine ⟨UInt8.not_lt.mp hq, fun hretain => ?_⟩
      change req.retain = true at hretain
      simpa [hretain] using hret

/-- What a connect replays was stored before, unless the session is discarded. -/
theorem mem_store_opened {s : State} {result : ConnectResult} {m : StoredMessage}
    (h : m ∈ (opened s result).store.all) : discards s.cfg result = false ∧ m ∈ s.store.all := by
  unfold opened State.applySession at h
  dsimp only at h
  split at h
  · simp [State.setLink, State.log, MemStore.all_reset] at h
  · rename_i hd
    exact ⟨by simpa using hd, h⟩

theorem replayPacket_publish {v : Version} {m : StoredMessage} {q : PublishPacket}
    (h : State.replayPacket v m = some (.publish q)) :
    ∃ p, m.publish = some p ∧ q = { p with dup := true } := by
  unfold State.replayPacket at h
  split at h
  · obtain ⟨p, hp, heq⟩ := Option.map_eq_some_iff.mp h
    cases heq
    exact ⟨p, hp, rfl⟩
  · cases h
  · cases h

/-! ## The invariant -/

/-- Every link has the limits of its CONNACK, and what was written or is parked
for it is within them. -/
structure Limited (s : State) : Prop where
  count : (accepted s.hist).length = s.nextLink
  current : ∀ l, s.link = some l → s.result = connack s.hist l
  limit : ∀ l r, connack s.hist l = some r → (s.links l).outboundMax = r.maximumPacketSize
  parked : ∀ c l pkt, s.calls c = .parked l pkt → ∀ r, connack s.hist l = some r → Supported r pkt
  connected : ∀ l r, .connected l r ∈ s.hist → connack s.hist l = some r
  wrote : ∀ l p, .wrote l (.publish p) ∈ s.hist →
    ∃ r, connack s.hist l = some r ∧ Supported r p ∧ FitsSize r (.publish p)

/-- An event that applies and publishes nothing and writes only what the links of
`hist` allow. -/
def Keeping (hist : List Event) (e : Event) : Prop :=
  e.origin ≠ .connect ∧ ∀ l p, e = .wrote l (.publish p) →
    ∃ r, connack hist l = some r ∧ Supported r p ∧ FitsSize r (.publish p)

theorem admits_keeping (hist : List Event) {o : Origin} (ho : o ≠ .connect) :
    Admits (Keeping hist) o := by
  intro e he hp
  refine ⟨he ▸ ho, ?_⟩
  rintro l p rfl
  cases hp

namespace Limited

variable {s t : State}

theorem exists_connack (h : Limited s) {l : LinkId} (hl : l < s.nextLink) :
    ∃ r, connack s.hist l = some r :=
  ⟨_, List.getElem?_eq_getElem (h.count ▸ hl)⟩

theorem emits (h : Limited s) (he : Emits (Keeping s.hist)
    (fun l pkt => ∀ r, connack s.hist l = some r → Supported r pkt) s t) : Limited t := by
  obtain ⟨⟨es, hhist, hes⟩, hlink, hnext, -, hres, hmax, hpark⟩ := he
  have hacc : accepted t.hist = accepted s.hist := by
    rw [hhist]
    exact accepted_append fun e hm => neutral_of_origin (hes e hm).1
  have hconn : ∀ l, connack t.hist l = connack s.hist l := fun l => by unfold connack; rw [hacc]
  refine ⟨?_, fun l hl => ?_, fun l r hr => ?_, fun c l pkt hc r hr => ?_, fun l r hm => ?_,
    fun l p hm => ?_⟩
  · rw [hacc, hnext]
    exact h.count
  · rw [hres, hconn]
    rcases hlink with heq | heq
    · exact h.current l (heq ▸ hl)
    · rw [heq] at hl
      cases hl
  · rw [hmax]
    exact h.limit l r (hconn l ▸ hr)
  · rw [hconn] at hr
    rcases hpark c l pkt hc with hc | hq
    · exact h.parked c l pkt hc r hr
    · exact hq r hr
  · rw [hhist] at hm
    rw [hconn]
    rcases List.mem_append.mp hm with hm | hm
    · exact h.connected l r hm
    · exact absurd rfl (hes _ hm).1
  · rw [hhist] at hm
    rw [hconn]
    rcases List.mem_append.mp hm with hm | hm
    · exact h.wrote l p hm
    · exact (hes _ hm).2 l p rfl

/-- Steps other than a connect. -/
theorem step (h : Limited s) (hw : Wired none s) {a : Action} (ha : a.connects = false) :
    Limited (s.step a) := by
  refine h.emits (Emits.step ha (admits_keeping _ (by simp)) (admits_keeping _ (by simp))
    (admits_keeping _ (by simp)) (fun _ => admits_keeping _ (by simp)) ?_ ?_)
  · intro req l hl r hr
    have hres := h.current l (State.publishChecks_ok hl)
    exact publishChecks_supported hl (hres.trans hr)
  · intro l pkt id hfrom htakes
    refine ⟨by simp [Event.origin], ?_⟩
    rintro _ _ ⟨⟩
    rcases hfrom with ⟨req, hl, rfl⟩ | ⟨c, hc⟩
    · have hlink := State.publishChecks_ok hl
      obtain ⟨r, hr⟩ := h.exists_connack (hw.live l hlink).1.1
      exact ⟨r, hr, publishChecks_supported hl ((h.current l hlink).trans hr),
        (fits_iff (h.limit l r hr) _).mp htakes.2⟩
    · obtain ⟨r, hr⟩ := h.exists_connack (hw.parked c l pkt hc).1
      exact ⟨r, hr, h.parked c l pkt hc r hr, (fits_iff (h.limit l r hr) _).mp htakes.2⟩

/-- The link a connect is building has the limits of its CONNACK. -/
theorem opened (h : Limited s) (hw : Wired none s) (hlink : s.link = none)
    (result : ConnectResult) : Limited (opened s result) ∧
      connack (Client.opened s result).hist s.nextLink = some result := by
  obtain ⟨es, n, hhist, hes, -⟩ := hist_opened s result
  obtain ⟨hl, hls, hn, hc, -⟩ := applySession_frame { s with nextLink := s.nextLink + 1 } result
  have hacc : accepted (Client.opened s result).hist = accepted s.hist ++ [result] := by
    rw [hhist, accepted_applied, accepted_append]
    intro e hm r k heq
    cases heq.symm.trans (hes e hm)
  have hnew : connack (Client.opened s result).hist s.nextLink = some result := by
    unfold connack
    rw [hacc, ← h.count]
    simp
  have hold : ∀ l, l < s.nextLink → connack (Client.opened s result).hist l = connack s.hist l := by
    intro l hlt
    unfold connack
    rw [hacc, List.getElem?_append_left (h.count ▸ hlt)]
  have hbound : ∀ l r, connack (Client.opened s result).hist l = some r → l ≠ s.nextLink →
      connack s.hist l = some r := by
    intro l r hr hne
    obtain ⟨hlt, -⟩ := List.getElem?_eq_some_iff.mp hr
    rw [hacc, List.length_append, List.length_singleton, h.count] at hlt
    rwa [hold l (Nat.lt_of_le_of_ne (Nat.le_of_lt_succ hlt) hne)] at hr
  have hmem : ∀ e, e ∈ (Client.opened s result).hist → e ≠ .discarded → Session.Neutral e →
      e ∈ s.hist := by
    intro e hm hne hneutral
    rw [hhist] at hm
    simp only [List.mem_append, List.mem_singleton] at hm
    rcases hm with (hm | hm) | hm
    · exact hm
    · exact absurd (hes e hm) hne
    · exact absurd hm (hneutral result n)
  refine ⟨⟨?_, fun l hl' => ?_, fun l r hr => ?_, fun c l pkt hcall r hr => ?_, fun l r hm => ?_,
    fun l p hm => ?_⟩, hnew⟩
  · show _ = ({ s with nextLink := s.nextLink + 1 }.applySession result).nextLink
    rw [hacc, hn, List.length_append, h.count]
    rfl
  · have hnone : (Client.opened s result).link = none := hl.trans hlink
    rw [hnone] at hl'
    cases hl'
  · by_cases hll : l = s.nextLink
    · subst hll
      rw [hnew] at hr
      cases hr
      simp [Client.opened, State.setLink, State.newLink]
    · have hsame : ((Client.opened s result).links l).outboundMax = (s.links l).outboundMax := by
        simp [Client.opened, State.setLink, hll, hls]
      rw [hsame]
      exact h.limit l r (hbound l r hr hll)
  · have hcall' : s.calls c = .parked l pkt := (congrFun hc c).symm.trans hcall
    have hne : l ≠ s.nextLink := Nat.ne_of_lt (hw.parked c l pkt hcall').1
    exact h.parked c l pkt hcall' r (hbound l r hr hne)
  · have hr := h.connected l r (hmem _ hm (by simp) (by simp [Session.Neutral]))
    obtain ⟨hlt, -⟩ := List.getElem?_eq_some_iff.mp hr
    rw [hold l (h.count ▸ hlt)]
    exact hr
  · obtain ⟨r, hr, hp⟩ := h.wrote l p (hmem _ hm (by simp) (by simp [Session.Neutral]))
    obtain ⟨hlt, -⟩ := List.getElem?_eq_some_iff.mp hr
    exact ⟨r, by rw [hold l (h.count ▸ hlt)]; exact hr, hp⟩

/-- The replay and the publication of the link. -/
theorem establish (h : Limited s) (hw : Wired none s) (hlink : s.link = none)
    (result : ConnectResult) (n : Nat)
    (hstored : discards s.cfg result = true ∨
      ∀ m ∈ s.store.all, ∀ p ∈ m.publish, Supported result p) :
    Limited (s.establish result n) := by
  obtain ⟨hopen, hnew⟩ := h.opened hw hlink result
  have ht := admits_keeping (Client.opened s result).hist (o := .transport) (by simp)
  have hlimit := hopen.limit s.nextLink result hnew
  have hreplayed : Limited (replayed s result n) := by
    refine hopen.emits (Moves.resubscribeAll (K := .outboundMax) ((Moves.refl _).replayEntries ht
      s.nextLink (Client.opened s result).store.all n ?_) ht _ _ _ _)
    intro k hk m hm p hp htakes
    refine ⟨by simp [Event.origin], ?_⟩
    rintro _ q ⟨⟩
    refine ⟨result, hnew, ?_, (fits_iff (hk.trans hlimit) _).mp htakes.2⟩
    obtain ⟨hd, hm⟩ := mem_store_opened hm
    obtain ⟨p', hp', rfl⟩ := replayPacket_publish hp
    exact hstored.resolve_left (by simp [hd]) m hm p' hp'
  have hconn : ∀ e, Session.Neutral e → ∀ l,
      connack ((replayed s result n).hist ++ [e]) l = connack (Client.opened s result).hist l := by
    obtain ⟨⟨es, hhist, hes⟩, -⟩ := Logs.replayed s result n
    intro e he l
    unfold connack
    rw [accepted_append (by simpa using he), hhist, accepted_append]
    exact fun e hm => neutral_of_origin (by have := hes e hm; simp_all)
  have hstay : ∀ e, Session.Neutral e → ∀ l,
      connack ((replayed s result n).hist ++ [e]) l = connack (replayed s result n).hist l := by
    intro e he l
    unfold connack
    rw [accepted_append (by simpa using he)]
  rw [establish_eq]
  generalize replayed s result n = t at hreplayed hconn hstay ⊢
  split
  · exact hreplayed
  · have hneutral : Session.Neutral (.connected s.nextLink result) := by simp [Session.Neutral]
    refine ⟨?_, ?_, fun l r hr => ?_, fun c l pkt hc r hr => ?_, fun l r hm => ?_, fun l p hm => ?_⟩
    · show (accepted (t.hist ++ [_])).length = t.nextLink
      rw [accepted_append (by simpa using hneutral)]
      exact hreplayed.count
    · rintro l ⟨⟩
      exact ((hconn _ hneutral _).trans hnew).symm
    · exact hreplayed.limit l r ((hstay _ hneutral l).symm.trans hr)
    · exact hreplayed.parked c l pkt hc r ((hstay _ hneutral l).symm.trans hr)
    · rcases List.mem_append.mp hm with hm | hm
      · exact (hstay _ hneutral l).trans (hreplayed.connected l r hm)
      · cases List.mem_singleton.mp hm
        exact (hconn _ hneutral _).trans hnew
    · rcases List.mem_append.mp hm with hm | hm
      · obtain ⟨r, hr, hp⟩ := hreplayed.wrote l p hm
        exact ⟨r, (hstay _ hneutral l).trans hr, hp⟩
      · cases List.mem_singleton.mp hm

end Limited

/-! ## Every PUBLISH on every link -/

/-- A connect that resumes the session finds every stored PUBLISH supported by the
broker. -/
def ResumesSupported (s : State) : Action → Prop
  | .connect h _ =>
    match s.link, State.negotiate s.cfg h with
    | none, .ok result => discards s.cfg result = true ∨
        ∀ m ∈ s.store.all, ∀ p ∈ m.publish, Supported result p
    | _, _ => True
  | _ => True

instance (r : ConnectResult) (p : PublishPacket) : Decidable (Supported r p) :=
  inferInstanceAs (Decidable (_ ∧ _))

theorem resumesSupported_connect {s : State} {h : State.Handshake} {writes : Nat} :
    (s.link = none → ∀ result ∈ (State.negotiate s.cfg h).toOption,
      discards s.cfg result = true ∨ ∀ m ∈ s.store.all, ∀ p ∈ m.publish, Supported result p) ↔
    ResumesSupported s (.connect h writes) := by
  unfold ResumesSupported
  dsimp only
  generalize State.negotiate s.cfg h = r
  generalize s.link = l
  cases l <;> cases r <;> simp [Except.toOption]

instance (s : State) (a : Action) : Decidable (ResumesSupported s a) :=
  match a with
  | .connect _ _ => decidable_of_iff _ resumesSupported_connect
  | .publish .. | .subscribe .. | .unsubscribe .. | .wake .. | .giveUp ..
  | .collect .. | .frame .. | .readError .. | .tick .. | .disconnect .. => .isTrue trivial

theorem Reach.limited {cfg : TCPConfig} {as : List Action} {s : State}
    (h : Reach ResumesSupported cfg as s) : Limited s := by
  refine (Run.invariant (P := fun s => Wired none s ∧ (view s).Inv ∧ Limited s) h
    ⟨.init cfg, inv_init cfg, ?_⟩ ?_).2.2
  · constructor <;> simp [newTCPClient, accepted, connack]
  · rintro t a _ ⟨hw, hi, hl⟩ ha ⟨⟩
    have hall : Allowed (fun _ _ => True) anyRoll t a := allowed_of_frame fun _ _ _ _ => trivial
    obtain ⟨hw', hm⟩ := step_refines hw hi hall
    refine ⟨hw', hm.inv hi, ?_⟩
    by_cases hc : a.connects = true
    · cases a with
      | connect hd n =>
        show Limited (t.connect hd n)
        unfold State.connect
        split
        · exact hl
        · exact hl
        · rename_i hlink hneg
          simp only [ResumesSupported, hlink, hneg] at ha
          exact hl.establish hw hlink _ n ha
      | _ => cases hc
    · exact hl.step hw (by simpa using hc)

/-- What `message qos` is replayed as under identifier 1. -/
def resent (qos : UInt8) : PublishPacket where
  version := .v50
  topic := [0x74]
  qos := qos
  dup := true
  packetID := 1

/-- The connection breaks with a QoS 1 PUBLISH unacknowledged, and is resumed. -/
def resumedOnce : List Action :=
  [.connect (accept {} false) 9, .publish 0 (message 1) true, .readError,
    .connect (accept { maximumQoS := some 1 } true) 9]

/-- The stored exchanges `applySession` subtracts from the quota. -/
def counted (s : State) (result : ConnectResult) : List StoredMessage :=
  if discards s.cfg result then [] else s.store.all.filter fun m => m.kind.outbound

/-- The packets were tried on `l`: what went out fits the link, and on a link that
is still up everything that fits went out. -/
def Tried (l : LinkId) (ps : List Packet) (s t : State) : Prop :=
  (t.links l).outboundMax = (s.links l).outboundMax ∧
  ((t.links l).stop = false → (s.links l).stop = false) ∧
  ∃ es, t.hist = s.hist ++ es ∧ (∀ p, .wrote l p ∈ es → (s.links l).fits p) ∧
    ((t.links l).stop = false → ∀ p ∈ ps, (s.links l).fits p → .wrote l p ∈ es)

section tried

variable {s t u : State} {l : LinkId}

theorem fits_congr {k k' : Link} (h : k'.outboundMax = k.outboundMax) (p : Packet) :
    k'.fits p ↔ k.fits p := by unfold Link.fits; rw [h]

theorem Tried.refl (s : State) (l : LinkId) : Tried l [] s s :=
  ⟨rfl, id, [], by simp, by simp, by simp⟩

theorem Tried.trans {ps qs : List Packet} (h : Tried l ps s t) (h' : Tried l qs t u) :
    Tried l (ps ++ qs) s u := by
  obtain ⟨hm, hup, es, he, hw, hall⟩ := h
  obtain ⟨hm', hup', es', he', hw', hall'⟩ := h'
  refine ⟨hm'.trans hm, fun hu => hup (hup' hu), es ++ es', by rw [he', he, List.append_assoc],
    fun p hp => ?_, fun hu p hp hfits => ?_⟩
  · rcases List.mem_append.mp hp with hp | hp
    · exact hw p hp
    · exact (fits_congr hm p).mp (hw' p hp)
  · rcases List.mem_append.mp hp with hp | hp
    · exact List.mem_append_left _ (hall (hup' hu) p hp hfits)
    · exact List.mem_append_right _ (hall' hu p hp ((fits_congr hm p).mpr hfits))

/-- A log entry that is no write. -/
theorem Tried.log {ps : List Packet} (h : Tried l ps s t) {e : Event} (he : ∀ p, e ≠ .wrote l p) :
    Tried l ps s (t.log e) := by
  obtain ⟨hm, hup, es, hhist, hw, hall⟩ := h
  refine ⟨hm, hup, es ++ [e], by simp [State.log, hhist], fun p hp => hw p ?_,
    fun hu p hp hfits => List.mem_append_left _ (hall hu p hp hfits)⟩
  rcases List.mem_append.mp hp with hp | hp
  · exact hp
  · exact absurd (List.mem_singleton.mp hp).symm (he p)

theorem Tried.none {ps : List Packet} (h : Tried l ps s t) : Tried l [] s t := by
  obtain ⟨hm, hup, es, he, hw, -⟩ := h
  exact ⟨hm, hup, es, he, hw, by simp⟩

theorem Tried.removeWaiter {ps : List Packet} (h : Tried l ps s t) (id : UInt16) (c : CallId) :
    Tried l ps s (t.removeWaiter id c) := by
  unfold State.removeWaiter
  split
  · split <;> exact h
  · exact h

/-- A link that goes down has taken nothing since. -/
theorem teardownLink_tried (s : State) (l : LinkId) (g : Bool) (ps : List Packet) :
    Tried l ps s (s.teardownLink l g) := by
  have hdown := stop_teardownLink s l g
  have hhist : ∃ es, (s.teardownLink l g).hist = s.hist ++ es ∧ (∀ e ∈ es, e = .tornDown l) ∧
      ((s.teardownLink l g).links l).outboundMax = (s.links l).outboundMax := by
    unfold State.teardownLink
    split
    · exact ⟨[], by simp, by simp, rfl⟩
    · dsimp only
      refine ⟨[.tornDown l], ?_⟩
      split
      · simp [State.log, State.setLink]
      · split <;> simp [State.log, State.setLink, State.failAllWaiters]
  obtain ⟨es, he, hes, hmax⟩ := hhist
  refine ⟨hmax, by simp [hdown], es, he, fun p hp => ?_, by simp [hdown]⟩
  cases hes _ hp

theorem writeFrame_tried (s : State) (l : LinkId) (p : Packet) (io : Bool) :
    Tried l [p] s (s.writeFrame l p io).2 := by
  rcases writeFrame_outcome s l p io with ⟨hno, e, hr⟩ | ⟨hfits, hr⟩ | ⟨htakes, hr⟩ <;> rw [hr]
  · exact ⟨rfl, id, [], by simp, by simp, by simp [hno]⟩
  · exact teardownLink_tried s l _ [p]
  · exact ⟨rfl, fun _ => htakes.1, [.wrote l p], rfl, by simp [htakes.2], by simp⟩

theorem replayWrite_tried (s : State) (l : LinkId) (p : Packet) (io : Bool) :
    Tried l [p] s (s.replayWrite l p io) := by
  have hwrite := writeFrame_tried s l p io
  unfold State.replayWrite
  split <;> rename_i hr <;> rw [hr] at hwrite
  · exact hwrite.log (by simp)
  · exact hwrite

theorem cfg_replayWrite (s : State) (l : LinkId) (p : Packet) (io : Bool) :
    (s.replayWrite l p io).cfg = s.cfg := by
  have hcfg := (Keeps.writeFrame s l p io).cfg
  unfold State.replayWrite
  split <;> rename_i hr <;> rw [hr] at hcfg <;> exact hcfg

theorem replayEntries_tried (l : LinkId) (ms : List StoredMessage) (n : Nat) (s : State) :
    Tried l (ms.filterMap (State.replayPacket s.cfg.protocolVersion)) s
      (State.replayEntries l ms n s).2 := by
  induction ms generalizing n s with
  | nil => exact .refl s l
  | cons m rest ih =>
    unfold State.replayEntries
    split
    · rename_i hp
      rw [List.filterMap_cons_none hp]
      exact ih n s
    · rename_i p hp
      rw [List.filterMap_cons_some hp, ← cfg_replayWrite s l p (0 < n)]
      exact (replayWrite_tried s l p (0 < n)).trans (ih (n - 1) _)

theorem resubscribe_tried (s : State) (l : LinkId) (k : Nat) (sub : Subscription) (io : Bool) :
    Tried l [] s (s.resubscribe l k sub io) := by
  have hrefl : ∀ ids, Tried l [] s { s with ids := ids } := fun _ => .refl s l
  unfold State.resubscribe
  split
  · exact (hrefl _).log (by simp)
  · rename_i id gen ids hid
    have hheld : Tried l [] s ({ s with ids }.registerWaiter id (.resubscribe l k) .suback) :=
      .refl s l
    have hwrite := hheld.trans (writeFrame_tried _ l (.subscribe (State.subscribePacket
      s.cfg.protocolVersion sub.filter sub.options sub.subID id)) io).none
    dsimp only
    split <;> rename_i hr <;> rw [hr] at hwrite
    · refine Tried.log ?_ (by simp)
      exact hwrite.removeWaiter id (.resubscribe l k)
    · exact hwrite

theorem resubscribeAll_tried (l : LinkId) (subs : List Subscription) (k n : Nat) (s : State) :
    Tried l [] s (State.resubscribeAll l subs k n s) := by
  induction subs generalizing k n s with
  | nil => exact .refl s l
  | cons sub rest ih => exact (resubscribe_tried s l k sub _).trans (ih _ _ _)

end tried

theorem mem_counted {s : State} {result : ConnectResult} {m : StoredMessage} :
    m ∈ counted s result ↔ m ∈ (opened s result).store.all ∧ m.kind.outbound = true := by
  unfold counted opened State.applySession
  dsimp only
  split
  · simp [State.setLink, State.log]
  · exact List.mem_filter

theorem length_counted (s : State) (result : ConnectResult) :
    (discards s.cfg result = true → (counted s result).length = 0) ∧
      (discards s.cfg result = false →
        (counted s result).length = State.inflightPermits s.store) := by
  unfold counted State.inflightPermits
  constructor <;> intro hd <;> simp [hd]

/-- Where a connect publishes its link, every exchange whose permit it took has
had its frame written on that link exactly if every such frame fits. -/
theorem counted_written_iff {s : State} {h : State.Handshake} {n : Nat} {result : ConnectResult}
    (hlink : s.link = none) (hok : State.negotiate s.cfg h = .ok result)
    (hpub : (s.step (.connect h n)).link = some s.nextLink) :
    .applied result (counted s result).length ∈ (s.step (.connect h n)).hist.drop s.hist.length ∧
    ((∀ m ∈ counted s result, ∃ p, State.replayPacket s.cfg.protocolVersion m = some p ∧
        .wrote s.nextLink p ∈ (s.step (.connect h n)).hist.drop s.hist.length) ↔
      ∀ m ∈ counted s result, ∃ p, State.replayPacket s.cfg.protocolVersion m = some p ∧
        FitsSize result p) := by
  obtain ⟨es, k, hopen, hes, hzero, hcount⟩ := hist_opened s result
  have htried : Tried s.nextLink ((opened s result).store.all.filterMap
      (State.replayPacket s.cfg.protocolVersion)) (opened s result) (replayed s result n) := by
    have hent := replayEntries_tried s.nextLink (opened s result).store.all n (opened s result)
    rw [cfg_opened] at hent
    have hall := hent.trans (resubscribeAll_tried s.nextLink
      ((opened s result).replaySession s.nextLink n).2.subs.subs 0
      ((opened s result).replaySession s.nextLink n).1
      ((opened s result).replaySession s.nextLink n).2)
    rwa [List.append_nil] at hall
  obtain ⟨hmax, -, es', hhist, hwrote, hall⟩ := htried
  have hlimit : ((opened s result).links s.nextLink).outboundMax = result.maximumPacketSize := by
    simp [opened, State.setLink, State.newLink]
  have hk : k = (counted s result).length := by
    obtain ⟨hzero', hcount'⟩ := length_counted s result
    cases hd : discards s.cfg result with
    | true => rw [hzero hd, hzero' hd]
    | false => rw [hcount hd, hcount' hd]
  -- The link was published, so it is up after the replay.
  rw [State.step_connect n hlink hok, establish_eq] at hpub ⊢
  split at hpub
  · have hnone : (replayed s result n).link = none := by
      have hl := (applySession_frame { s with nextLink := s.nextLink + 1 } result).1
      rcases (Logs.replayed s result n).2.1 with heq | heq
      · exact heq.trans (hl.trans hlink)
      · exact heq
    rw [hnone] at hpub
    cases hpub
  · rename_i hstop
    rw [if_neg hstop]
    have hnew : ({ replayed s result n with
        result := some result, link := some s.nextLink }.log
          (.connected s.nextLink result)).hist.drop s.hist.length =
        es ++ [Event.applied result k] ++ es' ++ [Event.connected s.nextLink result] := by
      simp [State.log, hhist, hopen]
    have hmem : ∀ p, .wrote s.nextLink p ∈
        es ++ [Event.applied result k] ++ es' ++ [Event.connected s.nextLink result] ↔
          .wrote s.nextLink p ∈ es' := by
      intro p
      have hno : .wrote s.nextLink p ∉ es := fun hm => by cases hes _ hm
      simp [hno]
    rw [hnew]
    refine ⟨by simp [hk], forall₂_congr fun m hm => exists_congr fun p => and_congr_right fun hp => ?_⟩
    rw [hmem, ← fits_iff hlimit]
    refine ⟨hwrote p, hall (by simpa using hstop) p ?_⟩
    exact List.mem_filterMap.mpr ⟨m, (mem_counted.mp hm).1, hp⟩

theorem counted_written_iff_resumed :
    let s := runActions durable [.connect (accept (receiveMax 5) false) 9,
      .publish 0 (message 1) true, .readError]
    .applied (negotiated 5 true) (counted s (negotiated 5 true)).length ∈
      (s.step (.connect (accept (receiveMax 5) true) 9)).hist.drop s.hist.length :=
  have hok : State.negotiate durable (accept (receiveMax 5) true) = .ok (negotiated 5 true) := by
    decide +kernel
  (counted_written_iff (n := 9) (by decide +kernel) hok (by decide +kernel)).1

def Event.isWrite : Event → Bool
  | .wrote .. => true
  | _ => false

/-- An unacknowledged PUBLISH of eight bytes is resumed under a Maximum Packet Size
of seven: its permit is taken, nothing is written, and the link is published. -/
theorem counted_not_written :
    let s := runActions durable [.connect (accept (maxPacket 8) false) 9,
      .publish 0 (message 1) true, .readError]
    let t := s.step (.connect (accept (maxPacket 7) true) 9)
    s.hist.any Event.isWrite = true ∧ t.link = some 1 ∧ State.inflightPermits t.store = 1 ∧
      t.quota.avail = 65534 ∧ (t.hist.drop s.hist.length).any Event.isWrite = false := by
  decide +kernel

end GoMqtt.Client
