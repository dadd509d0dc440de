import GoMqtt.Client.FlowControl
import GoMqtt.Inbound.Connack

/-! # Inbound topic aliases

The alias table of a link against the history. A PUBLISH with an alias and a topic
binds the one to the other; the table of the live link holds the binding that came
last, and a message without a topic is dispatched under it. Nothing but a PUBLISH
changes a table, which `Quiet` says of everything else the client does. -/
namespace GoMqtt.Inbound
open GoMqtt.Protocol GoMqtt.Session GoMqtt.Client GoMqtt.Lib

/-! ## Bindings -/

def aliasOf (p : PublishPacket) : Option UInt16 := p.properties.bind Properties.topicAlias

/-- The topic an event binds the alias to on the link. -/
def binding (l : LinkId) (a : UInt16) : Event → Option Bytes
  | .received l' (.publish p) =>
    if l' = l ∧ aliasOf p.pkt = some a ∧ p.pkt.topic ≠ [] then some p.pkt.topic else none
  | _ => none

/-- The topic of the most recent PUBLISH on the link with the alias and a topic. -/
def lastBinding (l : LinkId) (a : UInt16) (h : List Event) : Option Bytes :=
  (h.filterMap (binding l a)).getLast?

theorem lastBinding_append (l : LinkId) (a : UInt16) (h es : List Event) :
    lastBinding l a (h ++ es) = (lastBinding l a es).or (lastBinding l a h) := by
  unfold lastBinding
  rw [List.filterMap_append, List.getLast?_append]

theorem lastBinding_none {l : LinkId} {a : UInt16} {h : List Event}
    (hnone : ∀ e ∈ h, binding l a e = none) : lastBinding l a h = none := by
  unfold lastBinding
  rw [List.filterMap_eq_nil_iff.mpr hnone]
  rfl

theorem lastBinding_ne_nil {l : LinkId} {a : UInt16} {h : List Event} {topic : Bytes}
    (hb : lastBinding l a h = some topic) : topic ≠ [] := by
  obtain ⟨e, -, he⟩ := List.mem_filterMap.mp (List.mem_of_getLast? hb)
  unfold binding at he
  split at he
  · split at he
    · rename_i hcond
      cases he
      exact hcond.2.2
    · cases he
  · cases he

/-- The events of an inbound message. -/
def heard : Event → Bool
  | .received _ (.publish _) | .dispatched .. => true
  | _ => false

theorem binding_of_not_heard {e : Event} (h : heard e = false) (l : LinkId) (a : UInt16) :
    binding l a e = none := by
  unfold binding
  split
  · cases h
  · rfl

/-! ## What leaves the tables alone -/

/-- The alias table of a link. -/
def aliasTable : Kept (UInt16 → Option Bytes) :=
  ⟨Link.aliases, fun _ => rfl, fun _ => rfl, fun _ _ => rfl⟩

/-- No alias table changes, and no message is received or dispatched. -/
abbrev Quiet : State → State → Prop :=
  Moves aliasTable (fun e => heard e = false) fun _ _ => True

theorem Quiet.aliases {s t : State} (h : Quiet s t) (l : LinkId) :
    (t.links l).aliases = (s.links l).aliases :=
  h.2.2.2.2.2.1 l

/-- Only the frame loop reports a message. -/
theorem admits_unheard {o : Origin} (ho : o ≠ .frame) : Admits (fun e => heard e = false) o := by
  intro e he _
  cases e <;> first | rfl | exact absurd he.symm ho

theorem unheard_of_ne {f : Client.Frame} (hf : ∀ p, f ≠ .publish p) (l : LinkId) :
    heard (.received l f) = false := by
  cases f with
  | publish p => exact absurd rfl (hf p)
  | _ => rfl

/-- Whatever is neither a connect nor a PUBLISH. -/
theorem Quiet.step (s : State) {a : Action} (ha : a.connects = false)
    (hf : ∀ p torn io, a ≠ .frame (.publish p) torn io) : Quiet s (s.step a) := by
  have ht := admits_unheard (o := .transport) (by simp)
  refine Moves.step ha (admits_unheard (by simp)) ht (fun _ => admits_unheard (by simp))
    (fun l f torn io heq => ?_) (fun _ _ _ => trivial) fun _ _ _ _ _ => rfl
  have hne : ∀ p, f ≠ .publish p := fun p hp => hf p torn io (by rw [heq, hp])
  exact ((Moves.refl s).log (unheard_of_ne hne l)).handleOther ht l hne torn io

theorem Quiet.replayed (s : State) (result : ConnectResult) (n : Nat) :
    Quiet (opened s result) (Client.replayed s result n) := by
  have ht := admits_unheard (o := .transport) (by simp)
  refine Moves.resubscribeAll (Moves.replayEntries (.refl _) ht _ _ n ?_) ht _ _ _ _
  exact fun _ _ _ _ _ _ _ => rfl

/-! ## The tables of a run -/

/-- The topic a PUBLISH is dispatched under, given what came before it. -/
structure Names (l : LinkId) (p : PublishPacket) (before : List Event) (topic : Bytes) : Prop where
  own : p.topic ≠ [] → topic = p.topic
  bound : p.topic = [] → ∃ a, aliasOf p = some a ∧ lastBinding l a before = some topic
  ne_nil : topic ≠ []

/-- A dispatched message is the PUBLISH received just before it, under its topic. -/
def Justified (before : List Event) : Event → Prop
  | .dispatched l pkt _ _ => ∃ earlier p, before = earlier ++ [.received l (.publish p)] ∧
      pkt = { p.pkt with topic := pkt.topic } ∧ Names l p.pkt earlier pkt.topic
  | _ => True

/-- Every event is justified by those before it. -/
def Clean (h : List Event) : Prop :=
  ∀ before e after, h = before ++ e :: after → Justified before e

theorem Clean.append {h es : List Event} (hc : Clean h)
    (hes : ∀ before e after, es = before ++ e :: after → Justified (h ++ before) e) :
    Clean (h ++ es) := by
  intro before e after heq
  rcases List.append_eq_append_iff.mp heq with ⟨mid, rfl, hmid⟩ | ⟨mid, rfl, hmid⟩
  · exact hes mid e after hmid
  · cases mid with
    | nil =>
      have hfirst := hes [] e after hmid.symm
      rwa [List.append_nil, List.append_nil] at hfirst
    | cons e' mid =>
      obtain ⟨rfl, -⟩ := List.cons.inj hmid
      exact hc before e mid rfl

theorem justified_of_not_heard {e : Event} (h : heard e = false) (before : List Event) :
    Justified before e := by
  unfold Justified
  split
  · cases h
  · trivial

theorem Clean.snoc {h : List Event} (hc : Clean h) {e : Event} (he : Justified h e) :
    Clean (h ++ [e]) := by
  refine hc.append fun before e' after heq => ?_
  rcases List.append_eq_singleton_iff.mp heq.symm with ⟨rfl, heq'⟩ | ⟨-, heq'⟩
  · obtain ⟨rfl, -⟩ := List.cons.inj heq'
    rwa [List.append_nil]
  · cases heq'

theorem Clean.quiet {h es : List Event} (hc : Clean h) (hes : ∀ e ∈ es, heard e = false) :
    Clean (h ++ es) := by
  refine hc.append fun before e after heq => justified_of_not_heard (hes e ?_) _
  rw [heq]
  exact List.mem_append_right _ List.mem_cons_self

/-- The table of the live link, and the history it comes from. -/
structure Tabled (s : State) : Prop where
  table : ∀ l, s.link = some l → ∀ a, (s.links l).aliases a = lastBinding l a s.hist
  range : ∀ l, s.link = some l → ∀ a topic, (s.links l).aliases a = some topic →
    a ≠ 0 ∧ a ≤ s.cfg.topicAliasMaximum
  known : ∀ l p, .received l (.publish p) ∈ s.hist → l < s.nextLink
  clean : Clean s.hist

namespace Tabled

variable {s t : State}

theorem init (cfg : TCPConfig) : Tabled (newTCPClient cfg) := by
  refine ⟨fun l hl => ?_, fun l hl => ?_, fun l p hm => ?_, fun before e after h => ?_⟩
  · simp [newTCPClient] at hl
  · simp [newTCPClient] at hl
  · simp [newTCPClient] at hm
  · simp [newTCPClient] at h

theorem lastBinding_quiet {h es : List Event} (hes : ∀ e ∈ es, heard e = false) (l : LinkId)
    (a : UInt16) : lastBinding l a (h ++ es) = lastBinding l a h := by
  rw [lastBinding_append, lastBinding_none fun e he => binding_of_not_heard (hes e he) l a]
  rfl

theorem quiet (h : Tabled s) (hq : Quiet s t) : Tabled t := by
  have htables := hq.aliases
  obtain ⟨⟨es, hhist, hes⟩, hl, hn, hc, -⟩ := hq
  have hlive : ∀ l, t.link = some l → s.link = some l := by
    intro l ht
    rcases hl with hl | hl
    · rw [← hl, ht]
    · rw [hl] at ht
      cases ht
  refine ⟨fun l ht a => ?_, fun l ht a topic ha => ?_, fun l p hm => ?_, ?_⟩
  · rw [htables, hhist, lastBinding_quiet hes]
    exact h.table l (hlive l ht) a
  · rw [htables] at ha
    rw [hc]
    exact h.range l (hlive l ht) a topic ha
  · rw [hhist] at hm
    rw [hn]
    rcases List.mem_append.mp hm with hm | hm
    · exact h.known l p hm
    · cases hes _ hm
  · rw [hhist]
    exact h.clean.quiet hes

theorem establish (h : Tabled s) (hlink : s.link = none) (result : ConnectResult) (n : Nat) :
    Tabled (s.establish result n) := by
  obtain ⟨es, es', k, hhist, hes, hes', -⟩ := hist_replayed s result n
  obtain ⟨-, hl, hn, -⟩ := Quiet.replayed s result n
  obtain ⟨hol, -, hon, -⟩ := applySession_frame { s with nextLink := s.nextLink + 1 } result
  have hquiet : ∀ e ∈ es ++ [Event.applied result k] ++ es', heard e = false := by
    intro e he
    simp only [List.mem_append, List.mem_singleton] at he
    rcases he with (he | rfl) | he
    · rw [hes e he]
      rfl
    · rfl
    · have horigin := hes' e he
      unfold heard
      split <;> first | rfl | cases horigin
  rw [List.append_assoc, List.append_assoc, ← List.append_assoc es] at hhist
  have hfresh : ∀ a, ((replayed s result n).links s.nextLink).aliases a = none := by
    intro a
    rw [(Quiet.replayed s result n).aliases]
    simp [opened, State.setLink, State.newLink]
  -- until the link is published there is none
  have hreplayed : Tabled (replayed s result n) := by
    have hnone : (replayed s result n).link = none := by
      rcases hl with hl | hl
      · exact hl.trans (hol.trans hlink)
      · exact hl
    refine ⟨fun l hs => ?_, fun l hs => ?_, fun l p hm => ?_, ?_⟩
    · rw [hnone] at hs
      cases hs
    · rw [hnone] at hs
      cases hs
    · rw [show (replayed s result n).nextLink = s.nextLink + 1 from hn.trans hon]
      rw [hhist] at hm
      rcases List.mem_append.mp hm with hm | hm
      · exact Nat.lt_succ_of_lt (h.known l p hm)
      · cases hquiet _ hm
    · rw [hhist]
      exact h.clean.quiet hquiet
  have hunbound : ∀ a, lastBinding s.nextLink a (replayed s result n).hist = none := by
    intro a
    rw [hhist, lastBinding_quiet hquiet]
    refine lastBinding_none fun e he => ?_
    unfold binding
    split
    · rename_i l' p
      rw [if_neg]
      rintro ⟨rfl, -⟩
      exact absurd (h.known _ p he) (Nat.lt_irrefl _)
    · rfl
  rw [establish_eq]
  generalize replayed s result n = r at hfresh hreplayed hunbound ⊢
  split
  · exact hreplayed
  · refine ⟨?_, ?_, fun l p hm => ?_, ?_⟩
    · rintro l ⟨⟩ a
      show (r.links s.nextLink).aliases a = lastBinding s.nextLink a (r.hist ++ _)
      rw [hfresh, lastBinding_quiet (by simp [heard]), hunbound]
    · rintro l ⟨⟩ a topic ha
      cases (hfresh a).symm.trans ha
    · refine hreplayed.known l p ?_
      rcases List.mem_append.mp hm with hm | hm
      · exact hm
      · cases List.mem_singleton.mp hm
    · exact hreplayed.clean.quiet (by simp [heard])

end Tabled

/-! ## One PUBLISH -/

/-- A PUBLISH that breaks the rules of aliases, given the bindings so far. -/
def Violates (cfg : TCPConfig) (l : LinkId) (p : PublishPacket) (before : List Event) : Prop :=
  ∃ a, aliasOf p = some a ∧
    (cfg.topicAliasMaximum < a ∨ (p.topic = [] ∧ lastBinding l a before = none))

/-- What the decoder guarantees of aliases and empty topics. -/
theorem decodePublish_alias {v : Version} {header : UInt8} {body : Bytes} {p : PublishPacket}
    (h : decodePublish v header body = .ok p) :
    (∀ a, aliasOf p = some a → a ≠ 0) ∧ (p.topic = [] → (aliasOf p).isSome) := by
  obtain ⟨-, -, -, -, -, -, hempty, c, c', -, -, hblock⟩ := decodePublish_ok.mp h
  refine ⟨?_, fun hnil => (hempty hnil).2⟩
  rintro a ha rfl
  obtain ⟨q, hq, halias⟩ := Option.bind_eq_some_iff.mp ha
  cases v with
  | v311 =>
    simp only [readBlock, Except.ok.injEq, Prod.mk.injEq] at hblock
    rw [← hblock.1] at hq
    cases hq
  | v50 =>
    rw [hq] at hblock
    have hmem := mem_entries_num (p := q) 0x23 .u16 (by simp [Properties.groups]) halias
    exact absurd (decodeProperties_legal hblock _ hmem).2.2 (by decide)

/-- The PUBLISHes a run takes are decoded ones. -/
def Decoded (s : State) (a : Action) : Prop :=
  ∀ p torn io, a = .frame (.publish p) torn io →
    ∃ header body, decodePublish s.cfg.protocolVersion header body = .ok p.pkt

section publish

variable {s : State} {l : LinkId} {p : InboundPublish}

theorem lastBinding_received (a : UInt16) :
    lastBinding l a (s.hist ++ [.received l (.publish p)]) =
      if aliasOf p.pkt = some a ∧ p.pkt.topic ≠ [] then some p.pkt.topic
      else lastBinding l a s.hist := by
  have hlast : lastBinding l a [.received l (.publish p)] =
      if aliasOf p.pkt = some a ∧ p.pkt.topic ≠ [] then some p.pkt.topic else none := by
    unfold lastBinding
    by_cases hb : aliasOf p.pkt = some a ∧ p.pkt.topic ≠ []
    · simp [binding, hb]
    · simp [binding, hb]
  rw [lastBinding_append, hlast]
  split <;> rfl

/-- A PUBLISH was received and the table of its link follows it. -/
theorem Tabled.received (h : Tabled s) (hlt : l < s.nextLink) {t : State}
    (hhist : t.hist = s.hist ++ [.received l (.publish p)]) (hnext : t.nextLink = s.nextLink)
    (hlink : t.link = some l)
    (htable : ∀ a, (t.links l).aliases a = lastBinding l a (s.hist ++ [.received l (.publish p)]))
    (hrange : ∀ a topic, (t.links l).aliases a = some topic →
      a ≠ 0 ∧ a ≤ t.cfg.topicAliasMaximum) : Tabled t := by
  refine ⟨fun l' hl' a => ?_, fun l' hl' a topic ha => ?_, fun l' q hm => ?_, ?_⟩
  · cases hlink.symm.trans hl'
    rw [hhist]
    exact htable a
  · cases hlink.symm.trans hl'
    exact hrange a topic ha
  · rw [hnext]
    rw [hhist] at hm
    rcases List.mem_append.mp hm with hm | hm
    · exact h.known l' q hm
    · cases List.mem_singleton.mp hm
      exact hlt
  · rw [hhist]
    exact h.clean.snoc trivial

/-- The topic a PUBLISH resolves to, and the table after it. -/
theorem resolveTopicAlias_spec (h : Tabled s) (hl : s.link = some l) (hlt : l < s.nextLink)
    (halias : ∀ a, aliasOf p.pkt = some a → a ≠ 0)
    (hempty : p.pkt.topic = [] → (aliasOf p.pkt).isSome) :
    (Violates s.cfg l p.pkt s.hist ∧
      (s.log (.received l (.publish p))).resolveTopicAlias l p.pkt =
        (none, s.log (.received l (.publish p)))) ∨
    (¬ Violates s.cfg l p.pkt s.hist ∧ ∃ topic t,
      (s.log (.received l (.publish p))).resolveTopicAlias l p.pkt = (some topic, t) ∧
      Names l p.pkt s.hist topic ∧ Tabled t ∧
      t.hist = s.hist ++ [.received l (.publish p)] ∧ t.store = s.store ∧ t.subs = s.subs) := by
  unfold State.resolveTopicAlias
  cases ha : aliasOf p.pkt with
  | none =>
    have hne : p.pkt.topic ≠ [] := fun hnil => by simpa [ha] using hempty hnil
    rw [show p.pkt.properties.bind Properties.topicAlias = none from ha]
    refine .inr ⟨?_, p.pkt.topic, _, rfl, ⟨fun _ => rfl, fun hnil => absurd hnil hne, hne⟩, ?_,
      rfl, rfl, rfl⟩
    · rintro ⟨a, ha', -⟩
      cases ha.symm.trans ha'
    · refine h.received hlt rfl rfl hl (fun a => ?_) (h.range l hl)
      rw [lastBinding_received, if_neg (by simp [ha])]
      exact h.table l hl a
  | some a =>
    have hne0 := halias a ha
    rw [show p.pkt.properties.bind Properties.topicAlias = some a from ha]
    dsimp only
    by_cases hmax : a > s.cfg.topicAliasMaximum
    · exact .inl ⟨⟨a, ha, .inl hmax⟩, if_pos (.inr hmax)⟩
    have hle : ¬ (a = 0 ∨ a > (s.log (.received l (.publish p))).cfg.topicAliasMaximum) :=
      not_or.mpr ⟨hne0, hmax⟩
    rw [if_neg hle]
    by_cases hnil : p.pkt.topic = []
    · -- the alias stands for the topic
      rw [if_pos hnil]
      have htable := h.table l hl a
      cases hbound : lastBinding l a s.hist with
      | none =>
        refine .inl ⟨⟨a, ha, .inr ⟨hnil, hbound⟩⟩, ?_⟩
        exact Prod.ext (htable.trans hbound) rfl
      | some topic =>
        refine .inr ⟨?_, topic, _, Prod.ext (htable.trans hbound) rfl,
          ⟨fun hne => absurd hnil hne, fun _ => ⟨a, ha, hbound⟩, lastBinding_ne_nil hbound⟩, ?_,
          rfl, rfl, rfl⟩
        · rintro ⟨b, hb, hbad⟩
          cases ha.symm.trans hb
          rcases hbad with hbad | ⟨-, hbad⟩
          · exact hmax hbad
          · cases hbound.symm.trans hbad
        · refine h.received hlt rfl rfl hl (fun b => ?_) (h.range l hl)
          rw [lastBinding_received, if_neg (by simp [hnil])]
          exact h.table l hl b
    · -- the topic is bound to the alias
      rw [if_neg hnil]
      refine .inr ⟨?_, p.pkt.topic, _, rfl, ⟨fun _ => rfl, fun h => absurd h hnil, hnil⟩, ?_,
        rfl, rfl, rfl⟩
      · rintro ⟨b, hb, hbad⟩
        cases ha.symm.trans hb
        rcases hbad with hbad | ⟨hbad, -⟩
        · exact hmax hbad
        · exact hnil hbad
      · refine h.received hlt rfl rfl hl (fun b => ?_) fun b topic hb => ?_
        · rw [lastBinding_received]
          by_cases hab : b = a
          · subst hab
            simp [State.setLink, ha, hnil]
          · simp [State.setLink, State.log, ha, hab, Ne.symm hab, h.table l hl b]
        · by_cases hab : b = a
          · subst hab
            exact ⟨hne0, UInt16.not_lt.mp hmax⟩
          · refine h.range l hl b topic ?_
            simpa [State.setLink, State.log, hab] using hb

/-- The event of a dispatch. -/
def dispatchOf (s : State) (l : LinkId) (p : PublishPacket) (torn : Bool) : Event :=
  .dispatched l p (State.handlersFor s.subs.subs p) torn

theorem Quiet.dispatch (s : State) (l : LinkId) (q : PublishPacket) (torn : Bool) :
    Quiet (s.log (dispatchOf s l q torn)) (s.dispatch l q torn) := by
  unfold State.dispatch
  cases torn with
  | false => exact .refl _
  | true => exact Moves.teardownLink (.refl _) (admits_unheard (by simp)) l _

/-- With its topic a PUBLISH is dispatched, unless it is a duplicate. -/
theorem handlePublish_resolved {t : State} {topic : Bytes}
    (hr : s.resolveTopicAlias l p.pkt = (some topic, t)) (torn io : Bool) :
    Quiet (t.log (dispatchOf t l { p.pkt with topic } torn)) (s.handlePublish l p.pkt torn io) ∨
    (p.pkt.qos = 2 ∧ t.store.contains p.pkt.packetID .inboundID = true ∧
      Quiet t (s.handlePublish l p.pkt torn io)) := by
  have hd := Quiet.dispatch t l { p.pkt with topic } torn
  have ht := admits_unheard (o := .transport) (by simp)
  unfold State.handlePublish
  rw [hr]
  dsimp only
  split
  · exact .inl hd
  · split
    · split
      · exact .inl hd
      · exact .inl (hd.writeOther ht l io rfl)
    · rename_i h0 h1
      have hq : p.pkt.qos = 2 :=
        ((qos_cases p.qos_le).resolve_left h0).resolve_left h1
      unfold State.handleInboundQoS2
      split
      · rename_i hdup
        exact .inr ⟨hq, hdup, Moves.writeOther (.refl t) ht l io rfl⟩
      · dsimp only
        split
        · exact .inl hd
        · refine .inl (Moves.writeOther ?_ ht l io rfl)
          refine Moves.log ?_ rfl
          exact hd

/-- Without one it takes the link down. -/
theorem handlePublish_refused {t : State} (hr : s.resolveTopicAlias l p.pkt = (none, t))
    (torn io : Bool) : Quiet t (s.handlePublish l p.pkt torn io) ∧
      ((s.handlePublish l p.pkt torn io).links l).stop = true := by
  unfold State.handlePublish
  rw [hr]
  refine ⟨Moves.protocolError (.refl t) (admits_unheard (by simp)) l _ io, ?_⟩
  dsimp only
  unfold State.protocolError
  exact stop_teardownLink _ l _

theorem Tabled.dispatched {t : State} (h : Tabled t) {before : List Event} {topic : Bytes}
    (hhist : t.hist = before ++ [.received l (.publish p)]) (hn : Names l p.pkt before topic)
    (torn : Bool) : Tabled (t.log (dispatchOf t l { p.pkt with topic } torn)) := by
  refine ⟨fun l' hl' a => ?_, h.range, fun l' q hm => ?_, ?_⟩
  · show (t.links l').aliases a = lastBinding l' a (t.hist ++ [_])
    rw [lastBinding_append]
    exact h.table l' hl' a
  · rcases List.mem_append.mp hm with hm | hm
    · exact h.known l' q hm
    · cases List.mem_singleton.mp hm
  · exact h.clean.snoc ⟨before, p, hhist, rfl, hn⟩

/-- A PUBLISH was received and the link is down, so there is no table to speak of. -/
theorem Tabled.down {t : State} (h : Tabled s) (hlt : l < s.nextLink) {es : List Event}
    (hhist : t.hist = s.hist ++ [.received l (.publish p)] ++ es)
    (hes : ∀ e ∈ es, heard e = false) (hlink : ∀ l', t.link ≠ some l')
    (hnext : t.nextLink = s.nextLink) : Tabled t := by
  refine ⟨fun l' hl' => absurd hl' (hlink l'), fun l' hl' => absurd hl' (hlink l'),
    fun l' q hm => ?_, ?_⟩
  · rw [hnext]
    rw [hhist] at hm
    simp only [List.append_assoc, List.mem_append, List.mem_singleton] at hm
    rcases hm with hm | hm | hm
    · exact h.known l' q hm
    · cases hm
      exact hlt
    · cases hes _ hm
  · have hreceived : Clean (s.hist ++ [.received l (.publish p)]) := h.clean.snoc trivial
    rw [hhist]
    exact hreceived.quiet hes

/-- What one PUBLISH on the live link does. -/
structure Handled (s : State) (l : LinkId) (p : InboundPublish) (torn : Bool) (t : State) : Prop where
  violation : Violates s.cfg l p.pkt s.hist →
    (t.links l).stop = true ∧ (∀ l', (t.links l').aliases = (s.links l').aliases) ∧
    ∃ es, t.hist = s.hist ++ .received l (.publish p) :: es ∧ ∀ e ∈ es, heard e = false
  resolved : ¬ Violates s.cfg l p.pkt s.hist → ∃ topic es, Names l p.pkt s.hist topic ∧
    (∀ e ∈ es, heard e = false) ∧
    (t.hist = s.hist ++ .received l (.publish p) ::
        dispatchOf s l { p.pkt with topic } torn :: es ∨
      (p.pkt.qos = 2 ∧ s.store.contains p.pkt.packetID .inboundID = true ∧
        t.hist = s.hist ++ .received l (.publish p) :: es))

theorem handled_publish (h : Tabled s) (hw : Wired none s) (hl : s.link = some l) (torn io : Bool)
    (hd : Decoded s (.frame (.publish p) torn io))
    (hw' : Wired none (s.step (.frame (.publish p) torn io))) :
    Handled s l p torn (s.step (.frame (.publish p) torn io)) ∧
      Tabled (s.step (.frame (.publish p) torn io)) := by
  obtain ⟨header, body, hdecode⟩ := hd p torn io rfl
  obtain ⟨halias, hempty⟩ := decodePublish_alias hdecode
  rw [State.step_frame hl] at hw' ⊢
  change Wired none ((s.log (.received l (.publish p))).handlePublish l p.pkt torn io) at hw'
  change Handled s l p torn ((s.log (.received l (.publish p))).handlePublish l p.pkt torn io) ∧
    Tabled ((s.log (.received l (.publish p))).handlePublish l p.pkt torn io)
  have hlt : l < s.nextLink := (hw.live l hl).1.1
  rcases resolveTopicAlias_spec h hl hlt halias hempty with
    ⟨hv, hr⟩ | ⟨hv, topic, u, hr, hnames, htab, hhist, hstore, hsubs⟩
  · obtain ⟨hq, hstop⟩ := handlePublish_refused hr torn io
    have htables := hq.aliases
    obtain ⟨⟨es, hes, hquiet⟩, hlink, hnext, -⟩ := hq
    rw [show (s.log (.received l (.publish p))).hist = s.hist ++ [.received l (.publish p)] from rfl]
      at hes
    refine ⟨⟨fun _ => ⟨hstop, htables, es, by simpa using hes, hquiet⟩, fun hn => absurd hv hn⟩, ?_⟩
    refine h.down hlt hes hquiet (fun l' hl' => ?_) hnext
    rcases hlink with hlink | hlink
    · cases (hl'.symm.trans hlink).trans hl
      cases (hw'.live l hl').2.symm.trans hstop
    · cases hl'.symm.trans hlink
  · rcases handlePublish_resolved hr torn io with hq | ⟨h2, hdup, hq⟩
    · refine ⟨⟨fun hbad => absurd hbad hv, fun _ => ?_⟩, ?_⟩
      · obtain ⟨⟨es, hes, hquiet⟩, -⟩ := hq
        refine ⟨topic, es, hnames, hquiet, .inl ?_⟩
        rw [hes]
        show u.hist ++ [dispatchOf u l _ torn] ++ es = _
        rw [hhist]
        simp [dispatchOf, hsubs]
      · exact (htab.dispatched hhist hnames torn).quiet hq
    · refine ⟨⟨fun hbad => absurd hbad hv, fun _ => ?_⟩, ?_⟩
      · obtain ⟨⟨es, hes, hquiet⟩, -⟩ := hq
        refine ⟨topic, es, hnames, hquiet, .inr ⟨h2, hstore ▸ hdup, ?_⟩⟩
        rw [hes, hhist]
        simp
      · exact htab.quiet hq

end publish

/-! ## Every run -/

theorem Tabled.step {s : State} (h : Tabled s) {a : Action} (hw : Wired none s)
    (hw' : Wired none (s.step a)) (hd : Decoded s a) : Tabled (s.step a) := by
  by_cases hc : a.connects = true
  · cases a with
    | connect hs n =>
      show Tabled (s.connect hs n)
      unfold State.connect
      split
      · exact h
      · exact h
      · rename_i hlink _
        exact h.establish hlink _ n
    | _ => cases hc
  have hc' : a.connects = false := by simpa using hc
  by_cases hp : ∃ p torn io, a = .frame (.publish p) torn io
  · obtain ⟨p, torn, io, rfl⟩ := hp
    cases hl : s.link with
    | none =>
      have heq : s.step (.frame (.publish p) torn io) = s := by
        simp only [State.step, State.onLink, hl]
      rw [heq]
      exact h
    | some l => exact (handled_publish h hw hl torn io hd hw').2
  · exact h.quiet (Quiet.step s hc' fun p torn io heq => hp ⟨p, torn, io, heq⟩)

theorem tabled_of_reach {cfg : TCPConfig} {as : List Action} {s : State}
    (h : Reach Decoded cfg as s) : Tabled s := by
  induction h with
  | nil => exact .init cfg
  | snoc hrun hd hs ih =>
    cases hs
    exact ih.step (Reach.wired hrun).1 (Reach.wired (hrun.snoc hd rfl)).1 hd

/-- In every run, the table of a link that is not torn down holds for each alias the topic
it was last bound to, for aliases of 1 up to the maximum only. Every message is dispatched
right after it was received, under its own topic or the one its alias was last bound to,
and never without one. A PUBLISH with an alias above the maximum or without a binding
takes the link down, and neither changes a table nor is dispatched. -/
theorem aliases_resolve_latest {cfg : TCPConfig} {as : List Action} {s : State}
    (hrun : Reach Decoded cfg as s) :
    (∀ l, l < s.nextLink → (s.links l).stop = false → ∀ a,
      (s.links l).aliases a = lastBinding l a s.hist ∧
      ∀ topic, (s.links l).aliases a = some topic →
        a ≠ 0 ∧ a ≤ cfg.topicAliasMaximum ∧ topic ≠ []) ∧
    (∀ before l pkt hs torn after, s.hist = before ++ .dispatched l pkt hs torn :: after →
      ∃ earlier p, before = earlier ++ [.received l (.publish p)] ∧
        pkt = { p.pkt with topic := pkt.topic } ∧ Names l p.pkt earlier pkt.topic) ∧
    ∀ l p torn io, s.link = some l → Decoded s (.frame (.publish p) torn io) →
      Handled s l p torn (s.step (.frame (.publish p) torn io)) := by
  have htab := tabled_of_reach hrun
  have hw := (Reach.wired hrun).1
  refine ⟨fun l hlt hstop a => ?_, fun before l pkt hs torn after heq => ?_,
    fun l p torn io hl hd => ?_⟩
  · have hl : s.link = some l := by
      by_contra hne
      cases hstop.symm.trans (hw.dead l hlt hne (by simp))
    refine ⟨htab.table l hl a, fun topic ha => ?_⟩
    obtain ⟨hne, hle⟩ := htab.range l hl a topic ha
    rw [hrun.cfg_eq] at hle
    exact ⟨hne, hle, lastBinding_ne_nil ((htab.table l hl a).symm.trans ha)⟩
  · exact htab.clean before _ after heq
  · exact (handled_publish htab hw hl torn io hd (Reach.wired (hrun.snoc hd rfl)).1).1

/-- A client that accepts two aliases. -/
def aliasing : TCPConfig := { protocolVersion := .v50, topicAliasMaximum := 2 }

/-- A PUBLISH of QoS 0 with alias 1. -/
def aliased1 (topic : Bytes) : InboundPublish where
  pkt := { version := .v50, topic, payload := [], qos := 0, retain := false, dup := false,
           packetID := 0, properties := some { topicAlias := some 1 } }
  qos_le := show (0 : UInt8) ≤ 2 by decide
  id_ne := fun h => absurd rfl h

/-- Alias 1 is bound, bound again and used. -/
def rebound : List Action :=
  [.connect (accept (receiveMax 5) false) 0, .frame (.publish (aliased1 [0x61])) false true,
   .frame (.publish (aliased1 [0x62])) false true, .frame (.publish (aliased1 [])) false true]

theorem aliases_resolve_latest_rebound : ∃ s, Reach Decoded aliasing rebound s ∧
    (s.links 0).aliases 1 = some [0x62] ∧ lastBinding 0 1 s.hist = some [0x62] ∧
    Event.dispatched 0 (aliased1 [0x62]).pkt [] false ∈ s.hist := by
  have hok : ∀ s topic body, s.cfg = aliasing →
      decodePublish .v50 0x30 body = .ok (aliased1 topic).pkt →
      Decoded s (.frame (.publish (aliased1 topic)) false true) := by
    rintro s topic body hcfg hbody p torn io heq
    cases heq
    exact ⟨0x30, body, by rw [hcfg]; exact hbody⟩
  have h₁ : Reach Decoded aliasing (rebound.take 1) (runActions aliasing (rebound.take 1)) := by
    refine .snoc .nil ?_ rfl
    rintro p torn io heq
    cases heq
  have h₂ : Reach Decoded aliasing (rebound.take 2) (runActions aliasing (rebound.take 2)) :=
    h₁.snoc (hok _ _ [0, 1, 0x61, 3, 0x23, 0, 1] rfl (by decide +kernel)) rfl
  have h₃ : Reach Decoded aliasing (rebound.take 3) (runActions aliasing (rebound.take 3)) :=
    h₂.snoc (hok _ _ [0, 1, 0x62, 3, 0x23, 0, 1] rfl (by decide +kernel)) rfl
  have hrun : Reach Decoded aliasing rebound (runActions aliasing rebound) :=
    h₃.snoc (hok _ _ [0, 0, 3, 0x23, 0, 1] rfl (by decide +kernel)) rfl
  have hall := (aliases_resolve_latest hrun).1 0 (by decide +kernel) (by decide +kernel) 1
  have hbound : ((runActions aliasing rebound).links 0).aliases 1 = some [0x62] := by
    decide +kernel
  exact ⟨_, hrun, hbound, hall.1 ▸ hbound, by decide +kernel⟩

end GoMqtt.Inbound
