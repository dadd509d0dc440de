import GoMqtt.Client.Refinement

/-! # What a Publish that returns nil has seen

A Publish at QoS 1 should return nil after its PUBACK, one at QoS 2 after its
PUBREC and its PUBCOMP. The handlers of these packets look at the stored entry
and at its leg but not at the QoS it was sent with, so this is true as long as
the broker acknowledges a PUBLISH with the packets of its QoS. -/
namespace GoMqtt.Client
open GoMqtt.Protocol GoMqtt.Session GoMqtt.Lib
open scoped List

/-! ## Reading the history -/

/-- The PUBLISH last sent under `id`. -/
def lastSent (hist : List Event) (id : UInt16) : Option PublishPacket :=
  hist.foldl (fun last e => match e with
    | .sent _ _ p => if p.packetID = id then some p else last
    | _ => last) none

/-- The entry of a PUBLISH sent at this QoS. -/
def SentAt (qos : UInt8) (m : StoredMessage) : Prop :=
  m.kind = .publish ∧ ∃ p ∈ m.publish, p.qos = qos

instance (qos : UInt8) (m : StoredMessage) : Decidable (SentAt qos m) :=
  inferInstanceAs (Decidable (m.kind = .publish ∧ ∃ p ∈ m.publish, p.qos = qos))

/-- A PUBACK finds no PUBLISH stored that was sent at QoS 2, and a PUBREC none that was
sent at QoS 1. -/
def InKind (out : List StoredMessage) : Frame → Prop
  | .puback a => ∀ m ∈ out, m.id = a.packetID → ¬ SentAt 2 m
  | .pubrec a => ∀ m ∈ out, m.id = a.packetID → ¬ SentAt 1 m
  | _ => True

instance (out : List StoredMessage) (f : Frame) : Decidable (InKind out f) := by
  unfold InKind
  split <;> infer_instance

/-- An event that neither begins a Publish, nor sends it, nor lets it succeed. -/
def Event.silent : Event → Bool
  | .invoked .. | .sent .. | .returned _ (.published none) => false
  | _ => true

theorem lastSent_append {hist es : List Event} (h : ∀ c l p, .sent c l p ∉ es) (id : UInt16) :
    lastSent (hist ++ es) id = lastSent hist id := by
  unfold lastSent
  rw [List.foldl_append]
  induction es generalizing hist with
  | nil => rfl
  | cons e es ih =>
    rw [List.foldl_cons]
    cases e with
    | sent c l p => exact absurd List.mem_cons_self (h c l p)
    | _ => exact ih fun c l p hm => h c l p (List.mem_cons_of_mem _ hm)

theorem lastSent_sent (hist : List Event) (c : CallId) (l : LinkId) (p : PublishPacket)
    (id : UInt16) :
    lastSent (hist ++ [Event.sent c l p]) id =
      if p.packetID = id then some p else lastSent hist id := by
  simp [lastSent]

/-- `c` has sent `p` and got every acknowledgement `p` asks for, then come the
events in `tail`. -/
def Answered (hist : List Event) (c : CallId) (p : PublishPacket) (tail : List Event) : Prop :=
  (p.qos ≠ 2 ∧ ∃ l l₁ a, a.packetID = p.packetID ∧ a.reasonCode.isError = false ∧
    [.sent c l p, .received l₁ (.puback a)] ++ tail <+ hist) ∨
  (p.qos ≠ 1 ∧ ∃ l l₁ a l₂ b, a.packetID = p.packetID ∧ a.reasonCode.isError = false ∧
    b.packetID = p.packetID ∧ b.reasonCode.isError = false ∧
    [.sent c l p, .received l₁ (.pubrec a), .received l₂ (.pubcomp b)] ++ tail <+ hist)

theorem Answered.mono {hist es tail : List Event} {c : CallId} {p : PublishPacket}
    (h : Answered hist c p tail) : Answered (hist ++ es) c p tail := by
  have hsub : ∀ x : List Event, x <+ hist → x <+ hist ++ es :=
    fun x hx => hx.trans (List.sublist_append_left _ _)
  rcases h with ⟨hq, l, l₁, a, ha, hok, hs⟩ | ⟨hq, l, l₁, a, l₂, b, ha, hok, hb, hok', hs⟩
  · exact .inl ⟨hq, l, l₁, a, ha, hok, hsub _ hs⟩
  · exact .inr ⟨hq, l, l₁, a, l₂, b, ha, hok, hb, hok', hsub _ hs⟩

theorem Answered.snoc {hist : List Event} {c : CallId} {p : PublishPacket} (h : Answered hist c p [])
    (e : Event) : Answered (hist ++ [e]) c p [e] := by
  have hsub : ∀ x : List Event, x ++ [] <+ hist → x ++ [e] <+ hist ++ [e] := by
    intro x hx
    rw [List.append_nil] at hx
    exact hx.append (List.Sublist.refl _)
  rcases h with ⟨hq, l, l₁, a, ha, hok, hs⟩ | ⟨hq, l, l₁, a, l₂, b, ha, hok, hb, hok', hs⟩
  · exact .inl ⟨hq, l, l₁, a, ha, hok, hsub _ hs⟩
  · exact .inr ⟨hq, l, l₁, a, l₂, b, ha, hok, hb, hok', hsub _ hs⟩

namespace Session

/-! ## The invariant -/

/-- What the history says about the calls. -/
structure Calls (v : Session) : Prop where
  once : ∀ c req req', .invoked c req ∈ v.hist → .invoked c req' ∈ v.hist → req = req'
  idle : ∀ c, v.calls c = .idle →
    (∀ req, .invoked c req ∉ v.hist) ∧ ∀ l p, .sent c l p ∉ v.hist
  parked : ∀ c l pkt, v.calls c = .parked l pkt →
    pkt.qos ≠ 0 ∧ ∀ req, .invoked c req ∈ v.hist → req.qos = pkt.qos
  sent : ∀ c l p req, .sent c l p ∈ v.hist → .invoked c req ∈ v.hist → req.qos = p.qos

/-- What it says about the exchanges under way and the results delivered. -/
structure Exchanges (v : Session) : Prop where
  exchange : ∀ m ∈ v.out, ∃ p, lastSent v.hist m.id = some p ∧
    (m.kind = .publish → m.publish = some p) ∧ (m.kind = .pubrel → p.qos ≠ 1)
  waiting : ∀ id c, v.waiting id = some c → ∃ l p, p.packetID = id ∧
    lastSent v.hist id = some p ∧ .sent c l p ∈ v.hist ∧
    (v.Has id .pubrel → ∃ l₁ a, a.packetID = id ∧ a.reasonCode.isError = false ∧
      [.sent c l p, .received l₁ (.pubrec a)] <+ v.hist)
  inbox : ∀ c id res, v.calls c = .publishing id → v.inbox c = some res →
    res.failure .publish = none → ∃ p, Answered v.hist c p []

/-- And about the calls that returned nil. -/
def Succeeded (v : Session) : Prop :=
  ∀ c, .returned c (.published none) ∈ v.hist →
    (∃ req, .invoked c req ∈ v.hist ∧ req.qos = 0) ∨
      ∃ p, Answered v.hist c p [.returned c (.published none)]

structure Audit (v : Session) : Prop extends Calls v, Exchanges v where
  succeeded : v.Succeeded

/-- A change that begins no Publish, sends none and lets none succeed. -/
def Mild (v w : Session) : Prop :=
  (∃ es, w.hist = v.hist ++ es ∧ ∀ e ∈ es, e.silent = true) ∧
  (∀ m ∈ w.out, m ∈ v.out) ∧
  (∀ id c, w.waiting id = some c → v.waiting id = some c) ∧
  (∀ c res, w.inbox c = some res → v.inbox c = some res ∨ res.err ≠ none) ∧
  ∀ c, w.calls c = v.calls c ∨ (w.calls c).held ≠ none ∨ w.calls c = .done

namespace Mild

variable {v w x : Session}

theorem refl (v : Session) : Mild v v :=
  ⟨⟨[], by simp, by simp⟩, fun _ h => h, fun _ _ h => h, fun _ _ h => .inl h, fun _ => .inl rfl⟩

theorem trans (h : Mild v w) (h' : Mild w x) : Mild v x := by
  obtain ⟨⟨es, he, hes⟩, hout, hwait, hbox, hcall⟩ := h
  obtain ⟨⟨es', he', hes'⟩, hout', hwait', hbox', hcall'⟩ := h'
  refine ⟨⟨es ++ es', by rw [he', he, List.append_assoc], fun e hm => ?_⟩,
    fun m hm => hout m (hout' m hm), fun id c hc => hwait id c (hwait' id c hc),
    fun c res hr => ?_, fun c => ?_⟩
  · rcases List.mem_append.mp hm with hm | hm
    · exact hes e hm
    · exact hes' e hm
  · rcases hbox' c res hr with hr | hr
    · exact hbox c res hr
    · exact .inr hr
  · rcases hcall' c with hc | hc
    · rw [hc]; exact hcall c
    · exact .inr hc

theorem notes (v : Session) {es : List Event} (h : ∀ e ∈ es, e.silent = true) :
    Mild v (v.notes es) :=
  ⟨⟨es, rfl, h⟩, fun _ h => h, fun _ _ h => h, fun _ _ h => .inl h, fun _ => .inl rfl⟩

theorem setCall (v : Session) (c : CallId) {k : Call} (hk : k.held ≠ none ∨ k = .done) :
    Mild v (v.setCall c k) := by
  refine ⟨⟨[], by simp [Session.setCall], by simp⟩, fun _ h => h, fun _ _ h => h, fun c' res h => ?_,
    fun c' => ?_⟩
  · by_cases hcc : c' = c
    · subst hcc; simp [Session.setCall] at h
    · exact .inl (by simpa [Session.setCall, hcc] using h)
  · by_cases hcc : c' = c
    · subst hcc; simpa [Session.setCall] using .inr hk
    · exact .inl (by simp [Session.setCall, hcc])

theorem finish (v : Session) (c : CallId) {r : Return} (hr : r ≠ .published none) :
    Mild v (v.finish c r) := by
  refine (setCall v c (.inr rfl)).trans (notes _ fun e he => ?_)
  rw [List.mem_singleton] at he
  subst he
  match r, hr with
  | .published (some _), _ => rfl
  | .subscribed .., _ => rfl
  | .unsubscribed .., _ => rfl

theorem hold (v : Session) (c : CallId) (id : UInt16) {k : Call} (hk : k.held ≠ none) :
    Mild v (v.hold c id k) := setCall v c (.inl hk)

theorem unhold (v : Session) (id : UInt16) (gen : Nat) : Mild v (v.unhold id gen) := by
  rw [unhold_eq]; exact refl v

theorem withdraw (v : Session) (r : Request) : Mild v (v.withdraw r) := by
  rw [withdraw_eq]; exact refl v

theorem confirm (v : Session) (r : Request) : Mild v (v.confirm r) := by
  rw [confirm_eq]; exact refl v

theorem register (v : Session) (s : Subscription) : Mild v (v.register s) :=
  notes _ (by simp [Event.silent])

theorem drop (v : Session) (id : UInt16) (c : CallId) : Mild v (v.drop id c) := by
  refine ⟨⟨[], by simp [Session.drop], by simp⟩, fun _ h => h, fun i c' h => ?_, fun _ _ h => .inl h,
    fun _ => .inl rfl⟩
  simp only [Session.drop] at h
  split at h
  · cases h
  · exact h

theorem discard (v : Session) : Mild v v.discard :=
  ⟨⟨[.discarded], rfl, by simp [Event.silent]⟩, by simp [Session.discard, Session.notes],
    fun _ _ h => h, fun _ _ h => .inl h, fun _ => .inl rfl⟩

theorem tear (v : Session) : Mild v v.tear := by
  refine ⟨⟨[], by simp [Session.tear], by simp⟩, fun _ h => h, fun i c' h => ?_, fun c res h => ?_,
    fun _ => .inl rfl⟩
  · cases h
  · simp only [Session.tear] at h
    split at h
    · split at h
      · cases hb : v.inbox c with
        | none => rw [hb] at h; cases h; exact .inr (by simp)
        | some r => rw [hb] at h; exact .inl h
      · exact .inl h
    · exact .inl h

end Mild

/-! ## Histories that grow -/

section grow

variable {v w : Session} {es : List Event}

theorem Exchanges.grow (h : Exchanges v) (he : w.hist = v.hist ++ es)
    (hes : ∀ c l p, .sent c l p ∉ es) (hout : ∀ m ∈ w.out, m ∈ v.out)
    (hwait : ∀ id c, w.waiting id = some c → v.waiting id = some c)
    (hbox : ∀ c res, w.inbox c = some res → v.inbox c = some res ∨ res.err ≠ none)
    (hcall : ∀ c id, w.calls c = .publishing id → v.calls c = .publishing id) : Exchanges w := by
  have hlast : ∀ id, lastSent w.hist id = lastSent v.hist id := by
    intro id
    rw [he]
    exact lastSent_append hes id
  refine ⟨fun m hm => ?_, fun id c hc => ?_, fun c id res hc hr hf => ?_⟩
  · rw [hlast]
    exact h.exchange m (hout m hm)
  · obtain ⟨l, p, hid, hp, hs, hrel⟩ := h.waiting id c (hwait id c hc)
    refine ⟨l, p, hid, by rw [hlast]; exact hp, by rw [he]; exact List.mem_append_left _ hs, ?_⟩
    rintro ⟨m, hm, hmid⟩
    obtain ⟨l₁, a, ha, hok, hsub⟩ := hrel ⟨m, hout m hm, hmid⟩
    exact ⟨l₁, a, ha, hok, by rw [he]; exact hsub.trans (List.sublist_append_left _ _)⟩
  · rcases hbox c res hr with hr | hr
    · obtain ⟨p, hp⟩ := h.inbox c id res (hcall c id hc) hr hf
      exact ⟨p, by rw [he]; exact hp.mono⟩
    · unfold AckResult.failure at hf
      cases herr : res.err with
      | none => exact absurd herr hr
      | some e => simp [herr] at hf

theorem Succeeded.grow (h : v.Succeeded) (he : w.hist = v.hist ++ es)
    (hes : ∀ c, .returned c (.published none) ∉ es) : w.Succeeded := by
  intro c hr
  rw [he] at hr ⊢
  have hr' := (List.mem_append.mp hr).resolve_right (hes c)
  rcases h c hr' with ⟨req, hm, hq⟩ | ⟨p, hp⟩
  · exact .inl ⟨req, List.mem_append_left _ hm, hq⟩
  · exact .inr ⟨p, hp.mono⟩

end grow

/-! ## Every move keeps the audit -/

namespace Audit

variable {v w : Session}

theorem mild (h : Audit v) (hm : Mild v w) : Audit w := by
  obtain ⟨⟨es, he, hes⟩, hout, hwait, hbox, hcall⟩ := hm
  have hnot : ∀ e : Event, e.silent = false → e ∉ es := by
    intro e hsil hmem
    rw [hes e hmem] at hsil
    cases hsil
  have hold : ∀ e : Event, e.silent = false → e ∈ w.hist → e ∈ v.hist := by
    intro e hsil hmem
    rw [he] at hmem
    exact (List.mem_append.mp hmem).resolve_right (hnot e hsil)
  have hsame : ∀ c k, w.calls c = k → k.held = none → k ≠ .done → v.calls c = k := by
    intro c k hk hheld hdone
    rcases hcall c with hc | hc | hc
    · exact hc ▸ hk
    · rw [hk] at hc; exact absurd hheld hc
    · exact absurd (hk ▸ hc) hdone
  refine ⟨⟨fun c req req' h₁ h₂ => ?_, fun c hc => ?_, fun c l pkt hc => ?_,
    fun c l p req h₁ h₂ => ?_⟩, ?_, ?_⟩
  · exact h.once c req req' (hold _ rfl h₁) (hold _ rfl h₂)
  · obtain ⟨h₁, h₂⟩ := h.idle c (hsame c _ hc rfl (by simp))
    exact ⟨fun req hm => h₁ req (hold _ rfl hm), fun l p hm => h₂ l p (hold _ rfl hm)⟩
  · obtain ⟨h₁, h₂⟩ := h.parked c l pkt (hsame c _ hc rfl (by simp))
    exact ⟨h₁, fun req hm => h₂ req (hold _ rfl hm)⟩
  · exact h.sent c l p req (hold _ rfl h₁) (hold _ rfl h₂)
  · exact h.toExchanges.grow he (fun _ _ _ => hnot _ rfl) hout hwait hbox
      fun c id hc => hsame c _ hc rfl (by simp)
  · exact h.succeeded.grow he fun _ => hnot _ rfl

/-- A Publish begins. -/
theorem invoked {c : CallId} (h : Audit v) (hc : v.calls c = .idle) (req : PublishRequest) :
    Audit ((v.notes [.invoked c req]).setCall c .done) := by
  obtain ⟨hinv, hsent⟩ := h.idle c hc
  have hcalls : ∀ c' k, ((v.notes [.invoked c req]).setCall c .done).calls c' = k → k ≠ .done →
      c' ≠ c ∧ v.calls c' = k := by
    intro c' k hk hd
    by_cases hcc : c' = c
    · subst hcc
      exact absurd (by simpa [Session.setCall] using hk.symm) hd
    · exact ⟨hcc, by simpa [Session.setCall, Session.notes, hcc] using hk⟩
  have hmem : ∀ c' req', .invoked c' req' ∈ v.hist ++ [Event.invoked c req] →
      .invoked c' req' ∈ v.hist ∨ c' = c ∧ req' = req := by
    intro c' req' hm
    simpa using hm
  have hold : ∀ c' l p, .sent c' l p ∈ v.hist ++ [Event.invoked c req] → .sent c' l p ∈ v.hist := by
    intro c' l p hm
    simpa using hm
  refine ⟨⟨fun c' r r' h₁ h₂ => ?_, fun c' hk => ?_, fun c' l pkt hk => ?_,
    fun c' l p r h₁ h₂ => ?_⟩, ?_, ?_⟩
  · rcases hmem c' r h₁ with h₁ | ⟨hc₁, hr₁⟩ <;> rcases hmem c' r' h₂ with h₂ | ⟨hc₂, hr₂⟩
    · exact h.once c' r r' h₁ h₂
    · exact absurd (hc₂ ▸ h₁) (hinv r)
    · exact absurd (hc₁ ▸ h₂) (hinv r')
    · exact hr₁.trans hr₂.symm
  · obtain ⟨hne, hk⟩ := hcalls c' _ hk (by simp)
    obtain ⟨h₁, h₂⟩ := h.idle c' hk
    refine ⟨fun r hm => ?_, fun l p hm => h₂ l p (hold c' l p hm)⟩
    rcases hmem c' r hm with hm | ⟨rfl, -⟩
    · exact h₁ r hm
    · exact hne rfl
  · obtain ⟨hne, hk⟩ := hcalls c' _ hk (by simp)
    obtain ⟨h₁, h₂⟩ := h.parked c' l pkt hk
    refine ⟨h₁, fun r hm => ?_⟩
    rcases hmem c' r hm with hm | ⟨rfl, -⟩
    · exact h₂ r hm
    · exact absurd rfl hne
  · rcases hmem c' r h₂ with h₂ | ⟨rfl, rfl⟩
    · exact h.sent c' l p r (hold c' l p h₁) h₂
    · exact absurd (hold c' l p h₁) (hsent l p)
  · refine h.toExchanges.grow rfl (by simp) (fun _ hm => hm) (fun _ _ hw => hw)
      (fun c' res hr => .inl ?_) fun c' id hk => (hcalls c' _ hk (by simp)).2
    by_cases hcc : c' = c
    · subst hcc; simp [Session.setCall] at hr
    · simpa [Session.setCall, Session.notes, hcc] using hr
  · exact h.succeeded.grow rfl (by simp)

/-- A Publish leaves its first place: its request is in the history, under its QoS. -/
theorem opens {c : CallId} {qos : UInt8} {pre : List Event} (h : Audit v)
    (ho : v.Opens c qos pre) :
    Audit ((v.notes pre).setCall c .done) ∧
      (qos = 0 → ∃ req, .invoked c req ∈ v.hist ++ pre ∧ req.qos = 0) ∧
      ∀ req, .invoked c req ∈ v.hist ++ pre → req.qos = qos := by
  rcases ho with ⟨hc, req, rfl, rfl⟩ | ⟨rfl, l, pkt, hc, rfl⟩
  · refine ⟨h.invoked hc req, fun hq => ⟨req, by simp, hq⟩, fun req' hm => ?_⟩
    rcases List.mem_append.mp hm with hm | hm
    · exact absurd hm ((h.idle c hc).1 req')
    · cases List.mem_singleton.mp hm
      rfl
  · obtain ⟨h0, hq⟩ := h.parked c l pkt hc
    have hnil : v.notes [] = v := by simp [Session.notes]
    rw [hnil]
    exact ⟨h.mild (.setCall v c (.inr rfl)), fun hz => absurd hz h0, by simpa using hq⟩

/-- A Publish returns nil for a reason. -/
theorem returns {c : CallId} (h : Audit v)
    (hr : (∃ req, .invoked c req ∈ v.hist ∧ req.qos = 0) ∨
      ∃ p, Answered (v.hist ++ [Event.returned c (.published none)]) c p
        [.returned c (.published none)]) :
    Audit (v.notes [.returned c (.published none)]) := by
  have hold : ∀ e : Event, (∀ c r, e ≠ .returned c r) →
      e ∈ v.hist ++ [Event.returned c (.published none)] → e ∈ v.hist := by
    intro e hne hm
    exact (List.mem_append.mp hm).resolve_right fun hm => hne _ _ (List.mem_singleton.mp hm)
  refine ⟨⟨fun c' r r' h₁ h₂ => ?_, fun c' hk => ?_, fun c' l pkt hk => ?_,
    fun c' l p r h₁ h₂ => ?_⟩, ?_, fun c' hm => ?_⟩
  · exact h.once c' r r' (hold _ (by simp) h₁) (hold _ (by simp) h₂)
  · obtain ⟨h₁, h₂⟩ := h.idle c' hk
    exact ⟨fun r hm => h₁ r (hold _ (by simp) hm), fun l p hm => h₂ l p (hold _ (by simp) hm)⟩
  · obtain ⟨h₁, h₂⟩ := h.parked c' l pkt hk
    exact ⟨h₁, fun r hm => h₂ r (hold _ (by simp) hm)⟩
  · exact h.sent c' l p r (hold _ (by simp) h₁) (hold _ (by simp) h₂)
  · exact h.toExchanges.grow rfl (by simp) (fun _ hm => hm) (fun _ _ hw => hw)
      (fun _ _ hr => .inl hr) fun _ _ hk => hk
  · rcases List.mem_append.mp hm with hm | hm
    · rcases h.succeeded c' hm with ⟨req, hreq, hq⟩ | ⟨p, hp⟩
      · exact .inl ⟨req, List.mem_append_left _ hreq, hq⟩
      · exact .inr ⟨p, hp.mono⟩
    · cases List.mem_singleton.mp hm
      rcases hr with ⟨req, hreq, hq⟩ | hp
      · exact .inl ⟨req, List.mem_append_left _ hreq, hq⟩
      · exact .inr hp

/-- The Publish parks. -/
theorem park {c : CallId} {l : LinkId} {pkt : PublishPacket} (h : Audit v) (h0 : pkt.qos ≠ 0)
    (hq : ∀ req, .invoked c req ∈ v.hist → req.qos = pkt.qos) :
    Audit (v.setCall c (.parked l pkt)) := by
  have hcalls : ∀ c' k, (v.setCall c (.parked l pkt)).calls c' = k → k ≠ .parked l pkt →
      v.calls c' = k := by
    intro c' k hk hne
    by_cases hcc : c' = c
    · subst hcc
      exact absurd (by simpa [Session.setCall] using hk.symm) hne
    · simpa [Session.setCall, hcc] using hk
  refine ⟨⟨h.once, fun c' hk => h.idle c' (hcalls c' _ hk (by simp)), fun c' l' pkt' hk => ?_,
    h.sent⟩, ?_, h.succeeded⟩
  · by_cases hcc : c' = c
    · subst hcc
      have hk' : Call.parked l pkt = .parked l' pkt' := by simpa [Session.setCall] using hk
      cases hk'
      exact ⟨h0, hq⟩
    · exact h.parked c' l' pkt' (by simpa [Session.setCall, hcc] using hk)
  · refine h.toExchanges.grow (List.append_nil v.hist).symm (by simp) (fun _ hm => hm)
      (fun _ _ hw => hw) (fun c' res hr => .inl ?_) fun c' id hk => hcalls c' _ hk (by simp)
    by_cases hcc : c' = c
    · subst hcc; simp [Session.setCall] at hr
    · simpa [Session.setCall, hcc] using hr

/-- The PUBLISH goes out. -/
theorem send {c : CallId} {l : LinkId} {p : PublishPacket} (h : Audit v)
    (hfree : p.packetID ∉ v.out.map StoredMessage.id)
    (hq : ∀ req, .invoked c req ∈ v.hist → req.qos = p.qos) : Audit (v.send c l p) := by
  have hhist : (v.send c l p).hist = v.hist ++ [Event.sent c l p] := rfl
  have hlast : ∀ id, id ≠ p.packetID → lastSent (v.send c l p).hist id = lastSent v.hist id := by
    intro id hne
    rw [hhist, lastSent_sent, if_neg (Ne.symm hne)]
  have hself : lastSent (v.send c l p).hist p.packetID = some p := by
    rw [hhist, lastSent_sent, if_pos rfl]
  have hold : ∀ e : Event, (∀ c l p, e ≠ .sent c l p) → e ∈ (v.send c l p).hist → e ∈ v.hist := by
    intro e hne hm
    rw [hhist] at hm
    exact (List.mem_append.mp hm).resolve_right fun hm => hne _ _ _ (List.mem_singleton.mp hm)
  have hcalls : ∀ c' k, (v.send c l p).calls c' = k → k ≠ .publishing p.packetID →
      c' ≠ c ∧ v.calls c' = k := by
    intro c' k hk hne
    by_cases hcc : c' = c
    · subst hcc
      exact absurd (by simpa [Session.send, Session.setCall] using hk.symm) hne
    · exact ⟨hcc, by simpa [Session.send, Session.setCall, hcc] using hk⟩
  have hout : ∀ m ∈ (v.send c l p).out, m ∈ v.out ∨ m = storedPublish p := by
    intro m hm
    simpa [Session.send] using hm
  refine ⟨⟨fun c' r r' h₁ h₂ => ?_, fun c' hk => ?_, fun c' l' pkt hk => ?_,
    fun c' l' p' r h₁ h₂ => ?_⟩, ⟨fun m hm => ?_, fun id c' hw => ?_, fun c' id res hk hr hf => ?_⟩, ?_⟩
  · exact h.once c' r r' (hold _ (by simp) h₁) (hold _ (by simp) h₂)
  · obtain ⟨hne, hk⟩ := hcalls c' _ hk (by simp)
    obtain ⟨h₁, h₂⟩ := h.idle c' hk
    refine ⟨fun r hm => h₁ r (hold _ (by simp) hm), fun l' p' hm => ?_⟩
    rw [hhist, List.mem_append, List.mem_singleton] at hm
    rcases hm with hm | hm
    · exact h₂ l' p' hm
    · cases hm
      exact hne rfl
  · obtain ⟨-, hk⟩ := hcalls c' _ hk (by simp)
    obtain ⟨h₁, h₂⟩ := h.parked c' l' pkt hk
    exact ⟨h₁, fun r hm => h₂ r (hold _ (by simp) hm)⟩
  · have h₂' := hold _ (by simp) h₂
    rw [hhist, List.mem_append, List.mem_singleton] at h₁
    rcases h₁ with h₁ | h₁
    · exact h.sent c' l' p' r h₁ h₂'
    · cases h₁
      exact hq r h₂'
  · rcases hout m hm with hm | rfl
    · rw [hlast m.id fun heq => hfree (heq ▸ List.mem_map_of_mem hm)]
      exact h.exchange m hm
    · exact ⟨p, hself, fun _ => rfl, fun hk => (by cases hk)⟩
  · by_cases hid : id = p.packetID
    · subst hid
      obtain rfl : c = c' := by simpa [Session.send] using hw
      refine ⟨l, p, rfl, hself, by simp [hhist], ?_⟩
      -- The identifier was free, so the exchange is on its first leg.
      rintro ⟨m, hm, hmid, hkind⟩
      rcases hout m hm with hm | rfl
      · exact absurd (hmid ▸ List.mem_map_of_mem hm) hfree
      · cases hkind
    · obtain ⟨l', p', hid', hp, hs, hrel⟩ := h.waiting id c' (by simpa [Session.send, hid] using hw)
      refine ⟨l', p', hid', by rw [hlast id hid]; exact hp, by simp [hhist, hs], ?_⟩
      rintro ⟨m, hm, hmid, hkind⟩
      rcases hout m hm with hm | rfl
      · obtain ⟨l₁, a, ha, hok, hsub⟩ := hrel ⟨m, hm, hmid, hkind⟩
        exact ⟨l₁, a, ha, hok, hsub.trans (List.sublist_append_left _ _)⟩
      · cases hkind
  · by_cases hcc : c' = c
    · subst hcc; simp [Session.send, Session.setCall] at hr
    · obtain ⟨q, hq'⟩ := h.inbox c' id res (by simpa [Session.send, Session.setCall, hcc] using hk)
        (by simpa [Session.send, Session.setCall, hcc] using hr) hf
      exact ⟨q, hq'.mono⟩
  · exact h.succeeded.grow hhist (by simp)

/-- What is stored is the last PUBLISH sent under its identifier, or its second leg. -/
theorem entry (h : Audit v) {m : StoredMessage} {p : PublishPacket} (hm : m ∈ v.out)
    (hp : lastSent v.hist m.id = some p) :
    (m.kind = .publish → p ∈ m.publish) ∧ (m.kind = .pubrel → p.qos ≠ 1) := by
  obtain ⟨q, hq, hpub, hleg⟩ := h.exchange m hm
  obtain rfl : q = p := Option.some.inj (hq.symm.trans hp)
  exact ⟨hpub, hleg⟩

/-- An exchange ends, and whoever waits gets the result. -/
theorem settle {l : LinkId} {f : Frame} {id : UInt16} {kind : StoredKind} {res : AckResult}
    (h : Audit v) (hi : Inv v) (hok : InKind v.out f) (hf : f.ends = some (id, kind, res))
    (hhas : v.Has id kind) : Audit ((v.notes [.received l f]).settle id kind res) := by
  have hheard : Audit (v.notes [.received l f]) := h.mild (.notes v (by simp [Event.silent]))
  refine ⟨⟨hheard.once, hheard.idle, hheard.parked, hheard.sent⟩, ⟨?_, ?_, ?_⟩, hheard.succeeded⟩
  · intro m hm
    exact hheard.exchange m (Inv.mem_without.mp hm).1
  · intro id' c hw
    have hw' : (v.notes [.received l f]).waiting id' = some c := by
      by_cases hid : id' = id
      · subst hid; simp [Session.settle] at hw
      · simpa [Session.settle, hid] using hw
    obtain ⟨l', p, hid, hp, hs, hrel⟩ := hheard.waiting id' c hw'
    refine ⟨l', p, hid, hp, hs, ?_⟩
    rintro ⟨m, hm, hmid⟩
    exact hrel ⟨m, (Inv.mem_without.mp hm).1, hmid⟩
  · intro c i r hc hr hfail
    cases hw : v.waiting id with
    | none =>
      refine hheard.inbox c i r hc ?_ hfail
      simpa [Session.settle, Session.notes, hw] using hr
    | some c₀ =>
      by_cases hcc : c = c₀
      · subst hcc
        obtain ⟨-, hnone, -⟩ := hi.waiter id c hw
        have hres : r = res := by
          simpa [Session.settle, Session.notes, hw, hnone, eq_comm] using hr
        subst hres
        obtain ⟨l', p, hid, hp, hs, hrel⟩ := h.waiting id c hw
        have hgood : ∀ a : InboundAck,
            r = { code := a.reasonCode, reason := reasonStringOf a.properties } →
            a.reasonCode.isError = false := by
          rintro a rfl
          simpa [AckResult.failure] using hfail
        obtain ⟨m, hm, hmid, hkind⟩ := hhas
        obtain ⟨hpub, hleg⟩ := h.entry hm (hmid.symm ▸ hp)
        refine ⟨p, ?_⟩
        cases f with
        | puback a =>
          cases hf
          have hq : p.qos ≠ 2 := fun h2 => hok m hm hmid ⟨hkind, p, hpub hkind, h2⟩
          refine .inl ⟨hq, l', l, a, hid.symm, hgood a rfl, ?_⟩
          exact (List.singleton_sublist.mpr hs).append (List.Sublist.refl [Event.received l _])
        | pubcomp a =>
          cases hf
          obtain ⟨l₁, b, hb, hbok, hsub⟩ := hrel ⟨m, hm, hmid, hkind⟩
          refine .inr ⟨hleg hkind, l', l₁, b, l, a, hb.trans hid.symm, hbok, hid.symm, hgood a rfl,
            ?_⟩
          exact hsub.append (List.Sublist.refl [Event.received l _])
        | pubrec a =>
          simp only [Frame.ends] at hf
          split at hf
          · rename_i herr
            cases hf
            exact absurd (hgood a rfl) (by simp [herr])
          · cases hf
        | _ => cases hf
      · refine hheard.inbox c i r hc ?_ hfail
        simpa [Session.settle, Session.notes, hw, hcc] using hr

/-- An exchange moves to its PUBREL leg. -/
theorem promote {l : LinkId} {f : Frame} {id : UInt16} (h : Audit v) (hok : InKind v.out f)
    (hf : f.promotes = some id) (hhas : v.Has id .publish) :
    Audit ((v.notes [.received l f]).promote id) := by
  have hheard : Audit (v.notes [.received l f]) := h.mild (.notes v (by simp [Event.silent]))
  obtain ⟨a, rfl, rfl, hgood⟩ : ∃ a, f = .pubrec a ∧ a.packetID = id ∧
      a.reasonCode.isError = false := by
    cases f with
    | pubrec a =>
      simp only [Frame.promotes] at hf
      split at hf
      · cases hf
      · rename_i herr
        exact ⟨a, rfl, Option.some.inj hf, by simpa using herr⟩
    | _ => cases hf
  have hout : ∀ m ∈ ((v.notes [.received l (.pubrec a)]).promote a.packetID).out,
      m ∈ v.out ∨ m = { id := a.packetID, kind := .pubrel } := by
    intro m hm
    rcases List.mem_append.mp hm with hm | hm
    · exact .inl (Inv.mem_without.mp hm).1
    · exact .inr (List.mem_singleton.mp hm)
  refine ⟨⟨hheard.once, hheard.idle, hheard.parked, hheard.sent⟩,
    ⟨fun m hm => ?_, fun id' c hw => ?_, hheard.inbox⟩, hheard.succeeded⟩
  · rcases hout m hm with hm | rfl
    · exact hheard.exchange m hm
    · obtain ⟨m, hm, hid, hkind⟩ := hhas
      obtain ⟨p, hp, hpub, -⟩ := h.exchange m hm
      refine ⟨p, ?_, fun hk => (by cases hk), fun _ h1 => hok m hm hid ⟨hkind, p, hpub hkind, h1⟩⟩
      rw [hid] at hp
      rw [← hp]
      exact lastSent_append (by simp) _
  · obtain ⟨l', p, hid, hp, hs, hrel⟩ := hheard.waiting id' c hw
    refine ⟨l', p, hid, hp, hs, ?_⟩
    rintro ⟨m, hm, hmid, hkind⟩
    rcases hout m hm with hm | rfl
    · exact hrel ⟨m, hm, hmid, hkind⟩
    · have hs' : .sent c l' p ∈ v.hist := by
        simpa [Session.promote, Session.notes] using hs
      exact ⟨l, a, hmid, hgood,
        (List.singleton_sublist.mpr hs').append (List.Sublist.refl [Event.received l _])⟩

/-- A waiting Publish takes its result and returns. -/
theorem answer {c : CallId} {id : UInt16} {res : AckResult} (h : Audit v)
    (hc : v.calls c = .publishing id) (hr : v.inbox c = some res) :
    Audit (v.finish c (.published (res.failure .publish))) := by
  cases hf : res.failure .publish with
  | some e => exact h.mild (.finish v c (by simp))
  | none =>
    obtain ⟨p, hp⟩ := h.inbox c id res hc hr hf
    have hdone : Audit (v.setCall c .done) := h.mild (.setCall v c (.inr rfl))
    exact hdone.returns (.inr ⟨p, hp.snoc _⟩)

theorem move {roll : Subscription → Subscription → Prop} (hi : Inv v) (h : Audit v)
    (hm : Move (fun v f => InKind v.out f) roll v w) : Audit w := by
  cases hm with
  | @refuse c _ pre g e ho hg =>
    obtain ⟨hopen, -⟩ := h.opens ho
    have hw : (v.notes (pre ++ g)).finish c (.published (some e)) =
        ((v.notes pre).setCall c .done).notes (g ++ [Event.returned c (.published (some e))]) := by
      simp [finish, setCall, notes]
    rw [hw]
    refine hopen.mild (.notes _ fun x hx => ?_)
    rcases List.mem_append.mp hx with hx | hx
    · obtain ⟨l, rfl⟩ := hg x hx
      rfl
    · rw [List.mem_singleton.mp hx]
      rfl
  | @shoot c pre err ho =>
    obtain ⟨hopen, hzero, -⟩ := h.opens ho
    cases err with
    | some e => exact hopen.mild (.notes _ (by simp [Event.silent]))
    | none => exact hopen.returns (.inl (hzero rfl))
  | @park c pre l pkt ho h0 =>
    obtain ⟨hopen, -, hq⟩ := h.opens ho
    have hw : (v.notes pre).setCall c (.parked l pkt) =
        ((v.notes pre).setCall c .done).setCall c (.parked l pkt) := by
      simp [setCall]
    rw [hw]
    exact hopen.park h0 hq
  | @send c l p pre ho h0 _ _ hused _ =>
    obtain ⟨hopen, -, hq⟩ := h.opens ho
    have hw : (v.notes (pre ++ [Event.granted c l])).send c l p =
        (((v.notes pre).setCall c .done).notes [.granted c l]).send c l p := by
      simp [Session.send, setCall, notes]
    rw [hw]
    refine Audit.send (hopen.mild (.notes _ (by simp [Event.silent]))) (hi.not_out hused) ?_
    intro req hm
    exact hq req ((List.mem_append.mp hm).resolve_right (by simp))
  | abandon => exact h.mild ((Mild.drop v _ _).trans (.finish _ _ (by simp)))
  | answer hc hr => exact h.answer hc hr
  | reject _ hr => exact h.mild (.finish v _ (by rintro rfl; exact hr))
  | subscribe => exact h.mild ((Mild.register v _).trans (.hold _ _ _ (by simp [Call.held])))
  | subscribeFailed _ hr =>
    exact h.mild (((Mild.register v _).trans (.withdraw _ _)).trans
      (.finish _ _ (by rintro rfl; exact hr)))
  | unsubscribe => exact h.mild (.hold v _ _ (by simp [Call.held]))
  | resubscribe => exact h.mild (.hold v _ _ (by simp [Call.held]))
  | requestFailed _ hr =>
    exact h.mild (((Mild.unhold v _ _).trans (.withdraw _ _)).trans
      (.finish _ _ (by rintro rfl; exact hr)))
  | requestDone _ hr =>
    exact h.mild (((Mild.unhold v _ _).trans (.confirm _ _)).trans
      (.finish _ _ (by rintro rfl; exact hr)))
  | resubscribed => exact h.mild ((Mild.unhold v _ _).trans (.setCall _ _ (.inr rfl)))
  | heard _ _ hes =>
    refine h.mild (.notes v fun e he => ?_)
    rcases List.mem_cons.mp he with rfl | he
    · rfl
    · obtain ⟨p, hs, torn, rfl, -⟩ := hes e he
      rfl
  | ended hok hf hhas => exact h.settle hi hok hf hhas
  | promoted hok hf hhas => exact h.promote hok hf hhas
  | delivered => exact h.mild (.notes v (by simp [Event.silent]))
  | released => exact h.mild (.notes v (by simp [Event.silent]))
  | tear => exact h.mild (.tear v)
  | resume => exact h.mild (.notes v (by simp [Event.silent]))
  | restart => exact h.mild ((Mild.discard v).trans (.notes _ (by simp [Event.silent])))
  | establish => exact h.mild (.notes v (by simp [Event.silent]))

end Audit

end Session

/-! ## The client -/

/-- No acknowledgement arrives for a stored PUBLISH that asks for another kind. -/
def AnswersInKind (s : State) : Action → Prop
  | .frame f _ _ => InKind (outbound s.store) f
  | _ => True

instance (s : State) (a : Action) : Decidable (AnswersInKind s a) := by
  unfold AnswersInKind
  split <;> infer_instance

theorem lastSent_view (s : State) (id : UInt16) :
    lastSent (view s).hist id = lastSent s.hist id := by
  unfold lastSent view
  rw [List.foldl_filter]
  congr 1
  funext last e
  cases e <;> rfl

theorem audit_init (cfg : TCPConfig) : (view (newTCPClient cfg)).Audit := by
  refine ⟨⟨?_, ?_, ?_, ?_⟩, ⟨?_, ?_, ?_⟩, ?_⟩ <;>
    simp [view, newTCPClient, Session.Succeeded, outbound, publisher]

theorem Reach.audit {cfg : TCPConfig} {as : List Action} {s : State}
    (h : Reach AnswersInKind cfg as s) : (view s).Audit := by
  refine (h.session (fun v f => InKind v.out f) anyRoll (P := Session.Audit) ?_ (audit_init cfg)
    fun v w hi ha hm => ha.move hi hm).2.2
  intro t a ha
  refine allowed_of_frame fun f torn io heq => ?_
  subst heq
  exact ha

/-- The events of the session are events of the client, in the same order. -/
theorem sublist_of_view {s : State} {es : List Event} (h : es <+ (view s).hist) : es <+ s.hist :=
  h.trans (List.filter_sublist)

theorem mem_view {s : State} {e : Event} (he : e.session = true) :
    e ∈ (view s).hist ↔ e ∈ s.hist := by
  simp [view, he]

theorem mem_delete {store : MemStore} {m : StoredMessage} {id : UInt16} {kind : StoredKind}
    (hm : m ∈ store.all) (hne : ¬(m.id = id ∧ m.kind = kind)) : m ∈ (store.delete id kind).all := by
  rw [MemStore.all_delete, List.mem_filter, Bool.not_eq_true', decide_eq_false_iff_not]
  exact ⟨hm, hne⟩

theorem store_signalWaiter (s : State) (id : UInt16) (got : AckClass) (res : AckResult) :
    (s.signalWaiter id got res).store = s.store := by
  unfold State.signalWaiter
  split
  · split <;> rfl
  · rfl

/-- A PUBACK touches the PUBLISH entry under its identifier and no other. -/
theorem mem_step_puback {s : State} {m : StoredMessage} {a : InboundAck} (torn io : Bool)
    (hm : m ∈ s.store.all) (hne : ¬(m.id = a.packetID ∧ m.kind = .publish)) :
    m ∈ (s.step (.frame (.puback a) torn io)).store.all := by
  unfold State.step State.onLink
  dsimp only
  split
  · exact hm
  · unfold State.handleFrame State.completeOutbound
    dsimp only
    split
    · unfold State.release
      dsimp only
      rw [store_signalWaiter]
      exact mem_delete hm hne
    · exact hm

/-- Nor does a PUBREC. -/
theorem mem_step_pubrec {s : State} {m : StoredMessage} {a : InboundAck} (torn io : Bool)
    (hm : m ∈ s.store.all) (hkind : m.kind = .publish) (hne : m.id ≠ a.packetID) :
    m ∈ (s.step (.frame (.pubrec a) torn io)).store.all := by
  have hkeep : ¬(m.id = a.packetID ∧ m.kind = .publish) := fun h => hne h.1
  unfold State.step State.onLink
  dsimp only
  split
  · exact hm
  · unfold State.handleFrame State.handlePubrec State.sendAck State.sendAckReason
    dsimp only
    split
    · split
      · unfold State.release
        dsimp only
        rw [store_signalWaiter]
        exact mem_delete hm hkeep
      · rw [(Keeps.writeFrame _ _ _ io).store]
        refine mem_delete (MemStore.mem_all.mpr ?_) hkeep
        rw [MemStore.lookup_save, if_neg (by simp [hkind])]
        exact MemStore.mem_all.mp hm
    · split <;> (rw [(Keeps.writeFrame _ _ _ io).store]; exact hm)

theorem mem_outbound {s : State} {qos : UInt8} {m : StoredMessage} (hm : m ∈ s.store.all)
    (hq : SentAt qos m) : { m with seq := 0 } ∈ outbound s.store :=
  List.mem_map_of_mem (List.mem_filter.mpr ⟨hm, by rw [hq.1]; rfl⟩)

/-- A QoS 2 exchange completed in kind. -/
def exactlyOnce : List Action :=
  [.connect (accept (receiveMax 5) false) 9, .publish 0 (message 2) true,
    .frame (.pubrec { packetID := 1 }) false true, .frame (.pubcomp { packetID := 1 }) false true,
    .collect (.api 0)]

/-- A frame of the second or third leg of a QoS 2 exchange arrives. -/
def Event.isHandshake : Event → Bool
  | .received _ (.pubrec _) | .received _ (.pubcomp _) => true
  | _ => false

end GoMqtt.Client
