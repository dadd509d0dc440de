import Mathlib.Data.List.Induction
import Mathlib.Data.List.Nodup
import Mathlib.Tactic.Linarith
import GoMqtt.Client.Session

/-! # Who owns which identifier and which permit

The invariant of the abstract session: an identifier in use belongs to exactly
one unfinished exchange or one request, free permits and unfinished exchanges
add up to the ceiling the last connect applied, and whoever waits for an
acknowledgement waits for an exchange that is there. Every move keeps it. -/
namespace GoMqtt.Client.Session
open GoMqtt.Protocol GoMqtt.Session

/-- What the last applied session allows: the negotiated size, or the replay set
where that is larger. -/
def ceiling (cfg : TCPConfig) (hist : List Event) : Int :=
  hist.foldl (fun n e => match e with
    | .applied result inflight => max (quotaSize cfg result) inflight
    | _ => n) 0

/-- An event that reseeds nothing. -/
def Neutral (e : Event) : Prop := ∀ result n, e ≠ .applied result n

theorem ceiling_append {cfg : TCPConfig} {hist es : List Event} (h : ∀ e ∈ es, Neutral e) :
    ceiling cfg (hist ++ es) = ceiling cfg hist := by
  induction es using List.reverseRecOn with
  | nil => simp
  | append_singleton es e ih =>
    have he : Neutral e := h e (by simp)
    rw [← List.append_assoc]
    unfold ceiling at ih ⊢
    rw [List.foldl_append, List.foldl_cons, List.foldl_nil]
    cases e with
    | applied result n => exact absurd rfl (he result n)
    | _ => exact ih fun e he => h e (by simp [he])

theorem ceiling_applied (cfg : TCPConfig) (hist : List Event) (result : ConnectResult) (n : Nat) :
    ceiling cfg (hist ++ [Event.applied result n]) = max (quotaSize cfg result) n := by
  simp [ceiling]

structure Inv (v : Session) : Prop where
  nodup : (v.out.map StoredMessage.id).Nodup
  outbound : ∀ m ∈ v.out, m.kind.outbound = true
  packet : ∀ m ∈ v.out, m.kind = .publish → ∃ p, m.publish = some p ∧ p.packetID = m.id
  used_out : ∀ m ∈ v.out, v.used m.id = true
  used_held : ∀ c id, (v.calls c).held = some (id, v.gen) →
    v.used id = true ∧ id ∉ v.out.map StoredMessage.id
  owned : ∀ id, v.used id = true →
    id ∈ v.out.map StoredMessage.id ∨ ∃ c, (v.calls c).held = some (id, v.gen)
  held_once : ∀ c c' id, (v.calls c).held = some (id, v.gen) →
    (v.calls c').held = some (id, v.gen) → c = c'
  held_gen : ∀ c id gen, (v.calls c).held = some (id, gen) → gen ≤ v.gen ∧ id ≠ 0
  ledger : v.permits + v.out.length = ceiling v.cfg v.hist
  waiter : ∀ id c, v.waiting id = some c →
    v.calls c = .publishing id ∧ v.inbox c = none ∧ id ∈ v.out.map StoredMessage.id
  quiet : v.live = false → ∀ id, v.waiting id = none

namespace Inv

variable {v : Session}

theorem notes (h : Inv v) {es : List Event} (hes : ∀ e ∈ es, Neutral e) : Inv (v.notes es) where
  nodup := h.nodup
  outbound := h.outbound
  packet := h.packet
  used_out := h.used_out
  used_held := h.used_held
  owned := h.owned
  held_once := h.held_once
  held_gen := h.held_gen
  ledger := by simpa [Session.notes, ceiling_append hes] using h.ledger
  waiter := h.waiter
  quiet := h.quiet

theorem subs (h : Inv v) (t : Subs) : Inv { v with subs := t } where
  nodup := h.nodup
  outbound := h.outbound
  packet := h.packet
  used_out := h.used_out
  used_held := h.used_held
  owned := h.owned
  held_once := h.held_once
  held_gen := h.held_gen
  ledger := h.ledger
  waiter := h.waiter
  quiet := h.quiet

/-- Nobody waits who is not publishing. -/
theorem not_waiting (h : Inv v) {c : CallId} (hc : ∀ id, v.calls c ≠ .publishing id) (id : UInt16) :
    v.waiting id ≠ some c := fun hw => hc id (h.waiter id c hw).1

/-- Moving a call without identifier to a place without one changes no holder. -/
theorem held_update {calls : CallId → Call} {c : CallId} {k : Call} (hc : (calls c).held = none)
    (hk : k.held = none) (c' : CallId) :
    (Function.update calls c k c').held = (calls c').held := by
  by_cases hcc : c' = c
  · subst hcc; rw [Function.update_self, hc, hk]
  · rw [Function.update_of_ne hcc]

/-- A call without identifier and without waiter moves on. -/
theorem setCall (h : Inv v) {c : CallId} {k : Call} (hc : (v.calls c).held = none)
    (hw : ∀ id, v.waiting id ≠ some c) (hk : k.held = none) : Inv (v.setCall c k) := by
  have hheld := held_update hc hk
  refine ⟨h.nodup, h.outbound, h.packet, h.used_out, ?_, ?_, ?_, ?_, h.ledger, ?_, h.quiet⟩
  all_goals simp only [Session.setCall, hheld]
  · exact h.used_held
  · exact h.owned
  · exact h.held_once
  · exact h.held_gen
  · intro id c' hw'
    have hne : c' ≠ c := by rintro rfl; exact hw id hw'
    simpa [hne] using h.waiter id c' hw'

theorem finish (h : Inv v) {c : CallId} {r : Return} (hc : (v.calls c).held = none)
    (hw : ∀ id, v.waiting id ≠ some c) : Inv (v.finish c r) :=
  (h.setCall hc hw rfl).notes (by simp [Neutral])

theorem drop (h : Inv v) (id : UInt16) (c : CallId) : Inv (v.drop id c) where
  nodup := h.nodup
  outbound := h.outbound
  packet := h.packet
  used_out := h.used_out
  used_held := h.used_held
  owned := h.owned
  held_once := h.held_once
  held_gen := h.held_gen
  ledger := h.ledger
  waiter id' c' hw := by
    refine h.waiter id' c' ?_
    simp only [Session.drop] at hw
    split at hw
    · cases hw
    · exact hw
  quiet hl id' := by
    simp only [Session.drop]
    split
    · rfl
    · exact h.quiet hl id'

/-- A free identifier belongs to no exchange and no request. -/
theorem not_out (h : Inv v) {id : UInt16} (hid : v.used id = false) :
    id ∉ v.out.map StoredMessage.id := by
  intro hm
  obtain ⟨m, hout, rfl⟩ := List.mem_map.mp hm
  rw [h.used_out m hout] at hid
  cases hid

theorem not_held (h : Inv v) {id : UInt16} (hid : v.used id = false) (c : CallId) :
    (v.calls c).held ≠ some (id, v.gen) := by
  intro hc
  rw [(h.used_held c id hc).1] at hid
  cases hid

theorem send (h : Inv v) {c : CallId} {l : LinkId} {p : PublishPacket}
    (hc : (v.calls c).held = none) (hw : ∀ id, v.waiting id ≠ some c)
    (hlive : v.live = true) (hid : v.used p.packetID = false) : Inv (v.send c l p) := by
  have hheld := held_update hc (k := .publishing p.packetID) rfl
  have hout := h.not_out hid
  constructor <;> simp only [Session.send, Session.setCall, hheld, List.map_append, List.map_cons,
    List.map_nil]
  case nodup => simpa [List.nodup_append] using ⟨h.nodup, by simpa using hout⟩
  case outbound =>
    intro m hm
    rcases List.mem_append.mp hm with hm | hm
    · exact h.outbound m hm
    · rw [List.mem_singleton.mp hm]; rfl
  case packet =>
    intro m hm hk
    rcases List.mem_append.mp hm with hm | hm
    · exact h.packet m hm hk
    · rw [List.mem_singleton.mp hm]; exact ⟨p, rfl, rfl⟩
  case used_out =>
    intro m hm
    rcases List.mem_append.mp hm with hm | hm
    · by_cases hmid : m.id = p.packetID
      · simp [hmid]
      · simpa [hmid] using h.used_out m hm
    · rw [List.mem_singleton.mp hm]; simp
  case used_held =>
    intro c' id hc'
    have hne : id ≠ p.packetID := by rintro rfl; exact h.not_held hid c' hc'
    obtain ⟨hu, hn⟩ := h.used_held c' id hc'
    exact ⟨by simpa [hne] using hu, by simpa [hne] using hn⟩
  case owned =>
    intro id hu
    by_cases hne : id = p.packetID
    · exact .inl (by simp [hne])
    · rcases h.owned id (by simpa [hne] using hu) with ho | ho
      · exact .inl (by simp [ho])
      · exact .inr ho
  case held_once => exact h.held_once
  case held_gen => exact h.held_gen
  case ledger =>
    rw [ceiling_append (by simp [Neutral])]
    have := h.ledger
    simp only [List.length_append, List.length_cons, List.length_nil]
    push_cast
    linarith
  case waiter =>
    intro id c' hw'
    by_cases hne : id = p.packetID
    · subst hne
      obtain rfl : c = c' := by simpa using hw'
      simp
    · rw [Function.update_of_ne hne] at hw'
      have hcc : c' ≠ c := by rintro rfl; exact hw id hw'
      obtain ⟨h₁, h₂, h₃⟩ := h.waiter id c' hw'
      exact ⟨by simpa [hcc] using h₁, by simpa [hcc] using h₂, by simp [h₃]⟩
  case quiet => simp [hlive]

/-- Once `c` holds `id` in the current generation, these are the holders. -/
theorem held_hold {calls : CallId → Call} {c : CallId} {k : Call} {id : UInt16} {gen : Nat}
    (hc : (calls c).held = none) (hk : k.held = some (id, gen)) (c' : CallId) (x : UInt16 × Nat) :
    (Function.update calls c k c').held = some x ↔
      c' = c ∧ x = (id, gen) ∨ (calls c').held = some x := by
  by_cases hcc : c' = c
  · subst hcc
    rw [Function.update_self, hk, hc]
    simp [eq_comm]
  · rw [Function.update_of_ne hcc]
    simp [hcc]

theorem hold (h : Inv v) {c : CallId} {id : UInt16} {k : Call} (hc : v.calls c = .idle)
    (hid : v.used id = false) (h0 : id ≠ 0) (hk : k.held = some (id, v.gen)) :
    Inv (v.hold c id k) := by
  have hnone : (v.calls c).held = none := by rw [hc]; rfl
  have hheld := held_hold hnone hk
  have hout := h.not_out hid
  constructor <;> simp only [Session.hold, Session.setCall, hheld]
  case nodup => exact h.nodup
  case outbound => exact h.outbound
  case packet => exact h.packet
  case used_out =>
    intro m hm
    have hne : m.id ≠ id := by rintro rfl; exact hout (List.mem_map_of_mem hm)
    simpa [hne] using h.used_out m hm
  case used_held =>
    rintro c' i (⟨rfl, heq⟩ | hc')
    · cases heq; exact ⟨by simp, hout⟩
    · obtain ⟨hu, hn⟩ := h.used_held c' i hc'
      have hne : i ≠ id := by rintro rfl; exact h.not_held hid c' hc'
      exact ⟨by simpa [hne] using hu, hn⟩
  case owned =>
    intro i hu
    by_cases hne : i = id
    · subst hne; exact .inr ⟨c, .inl ⟨rfl, rfl⟩⟩
    · rcases h.owned i (by simpa [hne] using hu) with ho | ⟨c', ho⟩
      · exact .inl ho
      · exact .inr ⟨c', .inr ho⟩
  case held_once =>
    rintro c₁ c₂ i (⟨rfl, heq₁⟩ | h₁) (⟨rfl, heq₂⟩ | h₂)
    · rfl
    · cases heq₁; exact absurd h₂ (h.not_held hid c₂)
    · cases heq₂; exact absurd h₁ (h.not_held hid c₁)
    · exact h.held_once c₁ c₂ i h₁ h₂
  case held_gen =>
    rintro c' i gen (⟨rfl, heq⟩ | h')
    · cases heq; exact ⟨le_rfl, h0⟩
    · exact h.held_gen c' i gen h'
  case ledger => exact h.ledger
  case waiter =>
    intro i c' hw
    have hcc : c' ≠ c := by
      rintro rfl
      exact h.not_waiting (by simp [hc]) i hw
    simpa [hcc] using h.waiter i c' hw
  case quiet => exact h.quiet

/-- A request that holds an identifier gives it back and is done. -/
theorem release (h : Inv v) {c : CallId} {id : UInt16} {gen : Nat} {k : Call}
    (hc : (v.calls c).held = some (id, gen)) (hk : k.held = none) :
    Inv ((v.unhold id gen).setCall c k) := by
  have hnot : ∀ i, v.calls c ≠ .publishing i := by
    intro i hi; rw [hi] at hc; cases hc
  have hheld : ∀ c' x, (Function.update v.calls c k c').held = some x ↔
      c' ≠ c ∧ (v.calls c').held = some x := by
    intro c' x
    by_cases hcc : c' = c
    · subst hcc; rw [Function.update_self, hk]; simp
    · rw [Function.update_of_ne hcc]; simp [hcc]
  have hwait : ∀ i c', v.waiting i = some c' →
      Function.update v.calls c k c' = .publishing i ∧
        Function.update v.inbox c none c' = none ∧ i ∈ v.out.map StoredMessage.id := by
    intro i c' hw
    have hcc : c' ≠ c := by rintro rfl; exact h.not_waiting hnot i hw
    simpa [hcc] using h.waiter i c' hw
  by_cases hg : gen = v.gen
  · subst hg
    obtain ⟨-, hout⟩ := h.used_held c id hc
    simp only [Session.unhold, if_true]
    constructor <;> simp only [Session.setCall, hheld]
    case nodup => exact h.nodup
    case outbound => exact h.outbound
    case packet => exact h.packet
    case used_out =>
      intro m hm
      have hne : m.id ≠ id := by rintro rfl; exact hout (List.mem_map_of_mem hm)
      simpa [hne] using h.used_out m hm
    case used_held =>
      rintro c' i ⟨hcc, hc'⟩
      have hne : i ≠ id := by rintro rfl; exact hcc (h.held_once c' c i hc' hc)
      simpa [hne] using h.used_held c' i hc'
    case owned =>
      intro i hu
      have hne : i ≠ id := by rintro rfl; simp at hu
      rcases h.owned i (by simpa [hne] using hu) with ho | ⟨c', ho⟩
      · exact .inl ho
      · refine .inr ⟨c', ?_, ho⟩
        rintro rfl
        rw [hc] at ho
        cases ho
        exact hne rfl
    case held_once => exact fun c₁ c₂ i h₁ h₂ => h.held_once c₁ c₂ i h₁.2 h₂.2
    case held_gen => exact fun c' i gen h' => h.held_gen c' i gen h'.2
    case ledger => exact h.ledger
    case waiter => exact hwait
    case quiet => exact h.quiet
  · simp only [Session.unhold, if_neg hg]
    constructor <;> simp only [Session.setCall, hheld]
    case nodup => exact h.nodup
    case outbound => exact h.outbound
    case packet => exact h.packet
    case used_out => exact h.used_out
    case used_held => exact fun c' i h' => h.used_held c' i h'.2
    case owned =>
      intro i hu
      rcases h.owned i hu with ho | ⟨c', ho⟩
      · exact .inl ho
      · refine .inr ⟨c', ?_, ho⟩
        rintro rfl
        rw [hc] at ho
        cases ho
        exact hg rfl
    case held_once => exact fun c₁ c₂ i h₁ h₂ => h.held_once c₁ c₂ i h₁.2 h₂.2
    case held_gen => exact fun c' i gen h' => h.held_gen c' i gen h'.2
    case ledger => exact h.ledger
    case waiter => exact hwait
    case quiet => exact h.quiet

/-! ## Exchanges that end or move on -/

theorem mem_without {out : List StoredMessage} {id : UInt16} {kind : StoredKind}
    {m : StoredMessage} :
    m ∈ without out id kind ↔ m ∈ out ∧ ¬(m.id = id ∧ m.kind = kind) := by
  rw [without, List.mem_filter, Bool.not_eq_true', decide_eq_false_iff_not]

/-- An exchange is the only one under its identifier. -/
theorem eq_of_id {out : List StoredMessage} (h : (out.map StoredMessage.id).Nodup)
    {m m' : StoredMessage} (hm : m ∈ out) (hm' : m' ∈ out) (hid : m.id = m'.id) : m = m' :=
  List.inj_on_of_nodup_map h hm hm' hid

/-- Removing an entry that is there removes its identifier, and nothing else. -/
theorem mem_ids_without {out : List StoredMessage} (h : (out.map StoredMessage.id).Nodup)
    {m : StoredMessage} (hm : m ∈ out) (i : UInt16) :
    i ∈ (without out m.id m.kind).map StoredMessage.id ↔
      i ∈ out.map StoredMessage.id ∧ i ≠ m.id := by
  constructor
  · intro hi
    obtain ⟨x, hx, rfl⟩ := List.mem_map.mp hi
    obtain ⟨hx, hne⟩ := mem_without.mp hx
    refine ⟨List.mem_map_of_mem hx, fun heq => hne ?_⟩
    rw [eq_of_id h hx hm heq]
    exact ⟨rfl, rfl⟩
  · rintro ⟨hi, hne⟩
    obtain ⟨x, hx, rfl⟩ := List.mem_map.mp hi
    exact List.mem_map_of_mem (mem_without.mpr ⟨hx, fun hk => hne hk.1⟩)

theorem length_without {out : List StoredMessage} (h : (out.map StoredMessage.id).Nodup)
    {m : StoredMessage} (hm : m ∈ out) :
    (without out m.id m.kind).length + 1 = out.length := by
  induction out with
  | nil => cases hm
  | cons x out ih =>
    obtain ⟨hx, hout⟩ := List.nodup_cons.mp h
    rcases List.mem_cons.mp hm with rfl | hm
    · have hall : without out m.id m.kind = out := by
        refine List.filter_eq_self.mpr fun y hy => ?_
        have hne : y.id ≠ m.id := fun heq => hx (heq ▸ List.mem_map_of_mem hy)
        simp [hne]
      rw [without, List.filter_cons_of_neg (by simp)]
      exact congrArg (List.length · + 1) hall
    · have hne : x.id ≠ m.id := fun heq => hx (heq ▸ List.mem_map_of_mem hm)
      rw [without, List.filter_cons_of_pos (by simp [hne])]
      exact congrArg (· + 1) (ih hout hm)

theorem nodup_without {out : List StoredMessage} (h : (out.map StoredMessage.id).Nodup)
    (id : UInt16) (kind : StoredKind) : ((without out id kind).map StoredMessage.id).Nodup :=
  (List.filter_sublist.map _).nodup h

theorem settle (h : Inv v) {id : UInt16} {kind : StoredKind} (res : AckResult)
    (hhas : v.Has id kind) : Inv (v.settle id kind res) := by
  obtain ⟨m, hm, rfl, rfl⟩ := hhas
  have hids := mem_ids_without h.nodup hm
  constructor <;> simp only [Session.settle]
  case nodup => exact nodup_without h.nodup _ _
  case outbound => exact fun x hx => h.outbound x (mem_without.mp hx).1
  case packet => exact fun x hx => h.packet x (mem_without.mp hx).1
  case used_out =>
    intro x hx
    have hne : x.id ≠ m.id := ((hids x.id).mp (List.mem_map_of_mem hx)).2
    simpa [hne] using h.used_out x (mem_without.mp hx).1
  case used_held =>
    intro c i hc
    obtain ⟨hu, hn⟩ := h.used_held c i hc
    have hne : i ≠ m.id := by rintro rfl; exact hn (List.mem_map_of_mem hm)
    exact ⟨by simpa [hne] using hu, fun hi => hn ((hids i).mp hi).1⟩
  case owned =>
    intro i hu
    have hne : i ≠ m.id := by rintro rfl; simp at hu
    rcases h.owned i (by simpa [hne] using hu) with ho | ho
    · exact .inl ((hids i).mpr ⟨ho, hne⟩)
    · exact .inr ho
  case held_once => exact h.held_once
  case held_gen => exact h.held_gen
  case ledger =>
    have hlen := length_without h.nodup hm
    have := h.ledger
    omega
  case waiter =>
    intro i c hw
    have hne : i ≠ m.id := by rintro rfl; simp at hw
    rw [Function.update_of_ne hne] at hw
    obtain ⟨hcall, hbox, hi⟩ := h.waiter i c hw
    refine ⟨hcall, ?_, (hids i).mpr ⟨hi, hne⟩⟩
    cases hw' : v.waiting m.id with
    | none => exact hbox
    | some c' =>
      -- The caller just told waited for another exchange.
      have hcc : c ≠ c' := by
        rintro rfl
        have hcall' := (h.waiter m.id c hw').1
        rw [hcall] at hcall'
        cases hcall'
        exact hne rfl
      simpa [hcc] using hbox
  case quiet =>
    intro hl i
    by_cases hne : i = m.id
    · subst hne; simp
    · simpa [hne] using h.quiet hl i

/-- The identifiers of the unfinished exchanges stay the same when one moves on. -/
theorem mem_ids_promote {out : List StoredMessage} (h : (out.map StoredMessage.id).Nodup)
    {m : StoredMessage} (hm : m ∈ out) (hk : m.kind = .publish) (i : UInt16) :
    i ∈ (without out m.id .publish ++
        [({ id := m.id, kind := .pubrel } : StoredMessage)]).map StoredMessage.id ↔
      i ∈ out.map StoredMessage.id := by
  rw [List.map_append, List.mem_append, ← hk, mem_ids_without h hm]
  constructor
  · rintro (⟨hi, -⟩ | hi)
    · exact hi
    · obtain rfl : i = m.id := by simpa using hi
      exact List.mem_map_of_mem hm
  · intro hi
    by_cases hne : i = m.id
    · exact .inr (by simp [hne])
    · exact .inl ⟨hi, hne⟩

theorem promote (h : Inv v) {id : UInt16} (hhas : v.Has id .publish) : Inv (v.promote id) := by
  obtain ⟨m, hm, rfl, hk⟩ := hhas
  have hids := mem_ids_promote h.nodup hm hk
  constructor <;> simp only [Session.promote, hids]
  case nodup =>
    rw [List.map_append, List.nodup_append]
    refine ⟨nodup_without h.nodup _ _, by simp, ?_⟩
    intro a ha b hb
    obtain rfl : b = m.id := by simpa using hb
    rw [← hk] at ha
    exact ((mem_ids_without h.nodup hm a).mp ha).2
  case outbound =>
    intro x hx
    rcases List.mem_append.mp hx with hx | hx
    · exact h.outbound x (mem_without.mp hx).1
    · rw [List.mem_singleton.mp hx]; rfl
  case packet =>
    intro x hx hkx
    rcases List.mem_append.mp hx with hx | hx
    · exact h.packet x (mem_without.mp hx).1 hkx
    · rw [List.mem_singleton.mp hx] at hkx; cases hkx
  case used_out =>
    intro x hx
    rcases List.mem_append.mp hx with hx | hx
    · exact h.used_out x (mem_without.mp hx).1
    · rw [List.mem_singleton.mp hx]; exact h.used_out m hm
  case used_held => exact h.used_held
  case owned => exact h.owned
  case held_once => exact h.held_once
  case held_gen => exact h.held_gen
  case ledger =>
    have hlen := length_without h.nodup hm
    rw [hk] at hlen
    have := h.ledger
    rw [List.length_append, List.length_singleton, hlen]
    exact this
  case waiter => exact h.waiter
  case quiet => exact h.quiet

/-! ## Connections that go and come -/

theorem tear (h : Inv v) : Inv v.tear where
  nodup := h.nodup
  outbound := h.outbound
  packet := h.packet
  used_out := h.used_out
  used_held := h.used_held
  owned := h.owned
  held_once := h.held_once
  held_gen := h.held_gen
  ledger := h.ledger
  waiter _ _ hw := by cases hw
  quiet _ _ := rfl

theorem reseed (h : Inv v) (result : ConnectResult) : Inv (v.reseed result) := by
  refine ⟨h.nodup, h.outbound, h.packet, h.used_out, h.used_held, h.owned, h.held_once,
    h.held_gen, ?_, h.waiter, h.quiet⟩
  simp only [Session.reseed, Session.notes, ceiling_applied]
  omega

/-- The old session's identifiers are free and its exchanges gone; only stale
holders are left. -/
theorem discard_reseed (h : Inv v) (hl : v.live = false) (result : ConnectResult) :
    Inv (v.discard.reseed result) := by
  have hstale : ∀ c i, (v.calls c).held ≠ some (i, v.gen + 1) := by
    intro c i hc
    have := (h.held_gen c i _ hc).1
    omega
  constructor <;> simp only [Session.reseed, Session.discard, Session.notes, ceiling_applied]
  case nodup => exact List.nodup_nil
  case outbound => simp
  case packet => simp
  case used_out => simp
  case used_held => exact fun c i hc => absurd hc (hstale c i)
  case owned => simp
  case held_once => exact fun c _ i hc => absurd hc (hstale c i)
  case held_gen =>
    intro c i gen hc
    exact ⟨Nat.le_succ_of_le (h.held_gen c i gen hc).1, (h.held_gen c i gen hc).2⟩
  case ledger =>
    simp only [List.length_nil]
    omega
  case waiter => exact fun i c hw => absurd hw (by rw [h.quiet hl i]; simp)
  case quiet => exact h.quiet

theorem establish (h : Inv v) (l : LinkId) (result : ConnectResult) :
    Inv (v.establish l result) := by
  refine ⟨h.nodup, h.outbound, h.packet, h.used_out, h.used_held, h.owned, h.held_once,
    h.held_gen, ?_, h.waiter, fun hf => by cases hf⟩
  have hneutral : ∀ e ∈ [Event.connected l result], Neutral e := by simp [Neutral]
  exact h.ledger.trans (ceiling_append hneutral).symm

theorem record (h : Inv v) (id : UInt16) (b : Bool) :
    Inv { v with inbound := Function.update v.inbound id b } :=
  ⟨h.nodup, h.outbound, h.packet, h.used_out, h.used_held, h.owned, h.held_once, h.held_gen,
    h.ledger, h.waiter, h.quiet⟩

end Inv

/-! ## Every move -/

theorem Opens.free {v : Session} {c : CallId} {qos : UInt8} {pre : List Event}
    (h : v.Opens c qos pre) :
    (v.calls c).held = none ∧ ∀ id, v.calls c ≠ .publishing id := by
  rcases h with ⟨hc, -⟩ | ⟨-, l, pkt, hc, -⟩ <;> rw [hc] <;> exact ⟨rfl, by simp⟩

theorem Opens.neutral {v : Session} {c : CallId} {qos : UInt8} {pre : List Event}
    (h : v.Opens c qos pre) : ∀ e ∈ pre, Neutral e := by
  rcases h with ⟨-, req, rfl, -⟩ | ⟨rfl, -⟩ <;> simp [Neutral]

variable {ok : Session → Frame → Prop} {roll : Subscription → Subscription → Prop}

/-- A request's return changes the registrations on top of giving back its identifier. -/
theorem Inv.requestReturns {v : Session} (h : Inv v) {c : CallId} {r : Request} {id : UInt16}
    {gen : Nat} {ret : Return} (hc : v.calls c = .requesting r id gen) (t : Subs) :
    Inv ({ v.unhold id gen with subs := t }.finish c ret) := by
  have hneutral : ∀ e ∈ [Event.returned c ret], Neutral e := by simp [Neutral]
  exact ((h.release (by rw [hc]; rfl) rfl).notes hneutral).subs t

theorem Move.inv {v w : Session} (h : Inv v) (hm : Move ok roll v w) : Inv w := by
  cases hm with
  | refuse ho hg =>
    have hpre := ho.neutral
    refine (h.notes ?_).finish ho.free.1 (h.not_waiting ho.free.2)
    intro e he
    rcases List.mem_append.mp he with he | he
    · exact hpre e he
    · obtain ⟨l, rfl⟩ := hg e he
      simp [Neutral]
  | shoot ho => exact (h.notes ho.neutral).finish ho.free.1 (h.not_waiting ho.free.2)
  | park ho => exact (h.notes ho.neutral).setCall ho.free.1 (h.not_waiting ho.free.2) rfl
  | send ho _ hl _ hid _ =>
    refine (h.notes ?_).send ho.free.1 (h.not_waiting ho.free.2) hl hid
    intro e he
    rcases List.mem_append.mp he with he | he
    · exact ho.neutral e he
    · rw [List.mem_singleton.mp he]; simp [Neutral]
  | @abandon c id e hc =>
    refine (h.drop id c).finish (by simp [Session.drop, hc, Call.held]) ?_
    intro i hw
    have hi := ((h.drop id c).waiter i c hw).1
    simp only [Session.drop, hc, Call.publishing.injEq] at hi hw
    subst hi
    split at hw
    · cases hw
    · rename_i hne; exact hne ⟨rfl, hw⟩
  | @answer c id res hc hres =>
    refine h.finish (by simp [hc, Call.held]) fun i hw => ?_
    rw [(h.waiter i c hw).2.1] at hres
    cases hres
  | reject hc => exact h.finish (by rw [hc]; rfl) (h.not_waiting (by simp [hc]))
  | subscribe hc hid h0 =>
    exact ((h.subs _).notes (by simp [Neutral])).hold hc hid h0 rfl
  | subscribeFailed hc =>
    refine (((h.subs _).notes (by simp [Neutral])).subs _).finish ?_ (h.not_waiting (by simp [hc]))
    exact (congrArg Call.held hc).trans rfl
  | unsubscribe hc hid h0 => exact h.hold hc hid h0 rfl
  | resubscribe hc hid h0 => exact h.hold hc hid h0 rfl
  | @requestFailed c r id gen ret hc =>
    cases r with
    | subscribe filter prev token => exact h.requestReturns hc _
    | unsubscribe filter snap => exact h.requestReturns hc (v.unhold id gen).subs
  | @requestDone c r id gen ret hc =>
    match r, hc with
    | .subscribe .., hc => exact h.requestReturns hc (v.unhold id gen).subs
    | .unsubscribe _ none, hc => exact h.requestReturns hc (v.unhold id gen).subs
    | .unsubscribe _ (some _), hc => exact h.requestReturns hc _
  | resubscribed hc => exact h.release (by rw [hc]; rfl) rfl
  | heard _ _ hes =>
    refine h.notes fun e he => ?_
    rcases List.mem_cons.mp he with rfl | he
    · simp [Neutral]
    · obtain ⟨p, hs, torn, rfl, -⟩ := hes e he
      simp [Neutral]
  | ended _ _ hhas => exact (h.notes (by simp [Neutral])).settle _ hhas
  | promoted _ _ hhas => exact (h.notes (by simp [Neutral])).promote hhas
  | delivered => exact (h.notes (by simp [Neutral])).record _ _
  | released => exact (h.notes (by simp [Neutral])).record _ _
  | tear => exact h.tear
  | resume => exact h.reseed _
  | restart hl => exact h.discard_reseed hl _
  | establish => exact h.establish _ _

/-- What every move keeps in a state whose accounts add up, any number of moves keep. -/
theorem Moves.invariant {P : Session → Prop} {v w : Session} (hm : Moves ok roll v w) (hi : Inv v)
    (hp : P v) (hmove : ∀ v w, Inv v → P v → Move ok roll v w → P w) : Inv w ∧ P w := by
  induction hm with
  | refl => exact ⟨hi, hp⟩
  | tail _ hm ih => exact ⟨hm.inv ih.1, hmove _ _ ih.1 ih.2 hm⟩

theorem Moves.inv {v w : Session} (h : Inv v) (hm : Moves ok roll v w) : Inv w :=
  (hm.invariant (P := fun _ => True) h trivial fun _ _ _ _ _ => trivial).1

end GoMqtt.Client.Session
