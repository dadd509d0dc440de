import GoMqtt.Client.Subscriptions
import GoMqtt.Lib.Run

/-! # Concurrent calls on one filter

Any number of Subscribe and Unsubscribe calls on one filter, interleaved at the
critical sections of the registration table: the snapshot, the registration, the
rollback of a failed Subscribe and the removal by an acknowledged Unsubscribe.
The snapshot a Subscribe rolls back to is taken in a section of its own, so what
it holds need not be what the registration then displaced, and its owner may
have failed in the meantime. -/
namespace GoMqtt.Concurrent.Registration
open GoMqtt.Protocol (Bytes SubscribeOptions)
open GoMqtt.Client GoMqtt.Lib

/-- Where a call stands. A Subscribe remembers its snapshot; `displaced` is what
its registration replaced and `own` what it registered. -/
inductive Phase
  | idle
  | snapped (prev : Option Subscription)
  | registered (prev displaced : Option Subscription) (own : Subscription)
  | unsubscribing (snap : Option Subscription)
  | returned
  deriving DecidableEq, Repr

def Phase.settled : Phase → Bool
  | .idle | .returned => true
  | _ => false

/-- The table, the calls, and the registrations of the Subscribes that returned. -/
structure World where
  subs : Subs
  calls : Nat → Phase
  succeeded : List Subscription
  failed : List Subscription

inductive Act
  | snapshot (c : Nat)
  | add (c : Nat) (options : SubscribeOptions) (handler : Handler) (subID : UInt32)
  | unsubscribe (c : Nat)
  | succeed (c : Nat)
  | fail (c : Nat)
  deriving DecidableEq, Repr

def start (subs : Subs) : World := ⟨subs, fun _ => .idle, [], []⟩

def World.setCall (w : World) (c : Nat) (k : Phase) : World :=
  { w with calls := Function.update w.calls c k }

/-- One critical section. A Subscribe snapshots, registers and returns, with a
rollback if its round trip failed; an Unsubscribe snapshots and returns, with a
removal if it was acknowledged. -/
def step (f : Bytes) (w : World) : Act → Option World
  | .snapshot c =>
    match w.calls c with
    | .idle => some (w.setCall c (.snapped (w.subs.snapshot f)))
    | _ => none
  | .add c options handler subID =>
    match w.calls c with
    | .snapped prev =>
      let (token, subs) := w.subs.add f options handler subID
      some ({ w with subs }.setCall c
        (.registered prev (w.subs.snapshot f) ⟨f, handler, options, token, subID⟩))
    | _ => none
  | .unsubscribe c =>
    match w.calls c with
    | .idle => some (w.setCall c (.unsubscribing (w.subs.snapshot f)))
    | _ => none
  | .succeed c =>
    match w.calls c with
    | .registered _ _ own => some ({ w with succeeded := own :: w.succeeded }.setCall c .returned)
    | .unsubscribing none => some (w.setCall c .returned)
    | .unsubscribing (some snap) =>
      some ({ w with subs := w.subs.removeIfCurrent f snap.token }.setCall c .returned)
    | _ => none
  | .fail c =>
    match w.calls c with
    | .registered prev _ own =>
      some ({ w with
        subs := w.subs.restore f prev own.token
        failed := own :: w.failed }.setCall c .returned)
    | .unsubscribing _ => some (w.setCall c .returned)
    | _ => none

/-- A rollback that takes effect puts back what the call displaced: its snapshot
is that registration, under the same subscription identifier, and the Subscribe
it belongs to has not failed. -/
def CleanRollback (f : Bytes) (w : World) : Act → Prop
  | .fail c =>
    match w.calls c with
    | .registered prev displaced own =>
      (w.subs.snapshot f).map Subscription.token = some own.token → prev = displaced ∧
        ∀ p ∈ prev, p.subID = own.subID ∧ p.token ∉ w.failed.map Subscription.token
    | _ => True
  | _ => True

instance (f : Bytes) (w : World) (a : Act) : Decidable (CleanRollback f w a) := by
  unfold CleanRollback
  split
  · split <;> infer_instance
  · infer_instance

/-! ## The invariant -/

section

variable (f : Bytes) (first : Subs)

/-- Registered by a Subscribe that has not returned. -/
def World.Pending (w : World) (own : Subscription) : Prop :=
  ∃ c prev displaced, w.calls c = .registered prev displaced own

/-- Nothing, what was there before all calls, or what a Subscribe registered that
has not failed. -/
def World.Sound (w : World) (x : Option Subscription) : Prop :=
  ∀ s ∈ x, first.snapshot f = some s ∨ s ∈ w.succeeded ∨ w.Pending s

structure Inv (w : World) : Prop where
  entry : w.Sound f first (w.subs.snapshot f)
  displaced : ∀ c prev displaced own, w.calls c = .registered prev displaced own →
    ∀ s ∈ displaced, s.token < own.token ∧ s.filter = f ∧
      (s ∈ w.failed ∨ w.Sound f first (some s))
  own : ∀ s, w.Pending s ∨ s ∈ w.succeeded ∨ s ∈ w.failed →
    s.filter = f ∧ first.subSeq < s.token ∧ s.token ≤ w.subs.subSeq
  once : ∀ c d prev prev' displaced displaced' s s', w.calls c = .registered prev displaced s →
    w.calls d = .registered prev' displaced' s' → s.token = s'.token → c = d
  returned : ∀ s s', w.Pending s → s' ∈ w.succeeded ∨ s' ∈ w.failed → s.token ≠ s'.token
  disjoint : ∀ s ∈ w.succeeded, ∀ s' ∈ w.failed, s.token ≠ s'.token
  grown : first.subSeq ≤ w.subs.subSeq

end

/-! ## Every critical section keeps it -/

section steps

variable {f : Bytes} {first : Subs} {w : World} {c : Nat}

theorem setCall_registered {k : Phase} {d : Nat} {prev displaced : Option Subscription}
    {s : Subscription} (hk : ∀ p q o, k ≠ .registered p q o)
    (h : (w.setCall c k).calls d = .registered prev displaced s) :
    d ≠ c ∧ w.calls d = .registered prev displaced s := by
  by_cases hd : d = c
  · subst hd
    exact absurd (by simpa [World.setCall] using h) (hk prev displaced s)
  · exact ⟨hd, by simpa [World.setCall, hd] using h⟩

/-- A step that registers nothing and settles no Subscribe. -/
theorem Inv.setCall (h : Inv f first w) {k : Phase} (hk : ∀ p q o, k ≠ .registered p q o)
    (hc : ∀ p q o, w.calls c ≠ .registered p q o) : Inv f first (w.setCall c k) := by
  have hpend : ∀ s, (w.setCall c k).Pending s ↔ w.Pending s := by
    intro s
    constructor
    · rintro ⟨d, prev, displaced, hd⟩
      exact ⟨d, prev, displaced, (setCall_registered hk hd).2⟩
    · rintro ⟨d, prev, displaced, hd⟩
      have hne : d ≠ c := by rintro rfl; exact hc _ _ _ hd
      exact ⟨d, prev, displaced, by simpa [World.setCall, hne] using hd⟩
  have hsound : ∀ x, (w.setCall c k).Sound f first x ↔ w.Sound f first x := by
    intro x
    simp only [World.Sound, hpend]
    rfl
  refine ⟨(hsound _).mpr h.entry, fun d prev disp own hd s hs => ?_, fun s hs => ?_,
    fun d d' p p' q q' s s' hd hd' => ?_, fun s s' hs => ?_, h.disjoint, h.grown⟩
  · rw [hsound]
    exact h.displaced d prev disp own (setCall_registered hk hd).2 s hs
  · rw [hpend] at hs
    exact h.own s hs
  · exact h.once d d' p p' q q' s s' (setCall_registered hk hd).2 (setCall_registered hk hd').2
  · rw [hpend] at hs
    exact h.returned s s' hs

/-- An acknowledged Unsubscribe removes the entry or leaves it. -/
theorem Inv.remove (h : Inv f first w) (token : Nat) :
    Inv f first { w with subs := w.subs.removeIfCurrent f token } := by
  have hseq := Subs.subSeq_removeIfCurrent w.subs f token
  refine ⟨?_, h.displaced, fun s hs => ?_, h.once, h.returned, h.disjoint, by rw [hseq]; exact h.grown⟩
  · cases hcur : w.subs.snapshot f with
    | none =>
      rw [Subs.removeIfCurrent_superseded (by simp [hcur])]
      exact h.entry
    | some cur =>
      by_cases ht : cur.token = token
      · show World.Sound f first _ ((w.subs.removeIfCurrent f token).snapshot f)
        rw [Subs.snapshot_removeIfCurrent hcur ht]
        intro s hs
        cases hs
      · rw [Subs.removeIfCurrent_superseded (by simpa [hcur] using ht)]
        exact h.entry
  · rw [hseq]
    exact h.own s hs

/-- What the table can hold is bounded by the token counter. -/
theorem Inv.entry_le (h : Inv f first w)
    (hfirst : ∀ s ∈ first.snapshot f, s.token ≤ first.subSeq) :
    ∀ s ∈ w.subs.snapshot f, s.token ≤ w.subs.subSeq := by
  intro s hs
  rcases h.entry s hs with hs | hs | hs
  · exact Nat.le_trans (hfirst s hs) h.grown
  · exact (h.own s (.inr (.inl hs))).2.2
  · exact (h.own s (.inl hs)).2.2

/-- A Subscribe registers under the next token. -/
theorem Inv.add (h : Inv f first w) (hfirst : ∀ s ∈ first.snapshot f, s.token ≤ first.subSeq)
    {prev : Option Subscription} (hc : w.calls c = .snapped prev) {own : Subscription} {subs : Subs}
    (hown : own.filter = f ∧ own.token = w.subs.subSeq + 1) (hseq : subs.subSeq = w.subs.subSeq + 1)
    (hsnap : subs.snapshot f = some own) :
    Inv f first ({ w with subs }.setCall c (.registered prev (w.subs.snapshot f) own)) := by
  have hreg : ∀ d p q s, ({ w with subs }.setCall c
      (.registered prev (w.subs.snapshot f) own)).calls d = .registered p q s →
      (d = c ∧ q = w.subs.snapshot f ∧ s = own) ∨ (d ≠ c ∧ w.calls d = .registered p q s) := by
    intro d p q s hd
    by_cases hdc : d = c
    · subst hdc
      have hd' : Phase.registered prev (w.subs.snapshot f) own = .registered p q s := by
        simpa [World.setCall] using hd
      cases hd'
      exact .inl ⟨rfl, rfl, rfl⟩
    · exact .inr ⟨hdc, by simpa [World.setCall, hdc] using hd⟩
  have hpend : ∀ s, ({ w with subs }.setCall c
      (.registered prev (w.subs.snapshot f) own)).Pending s ↔ s = own ∨ w.Pending s := by
    intro s
    constructor
    · rintro ⟨d, p, q, hd⟩
      rcases hreg d p q s hd with ⟨-, -, rfl⟩ | ⟨-, hd⟩
      · exact .inl rfl
      · exact .inr ⟨d, p, q, hd⟩
    · rintro (rfl | ⟨d, p, q, hd⟩)
      · exact ⟨c, prev, w.subs.snapshot f, by simp [World.setCall]⟩
      · have hne : d ≠ c := by rintro rfl; rw [hc] at hd; cases hd
        exact ⟨d, p, q, by simpa [World.setCall, hne] using hd⟩
  have hsound : ∀ x, w.Sound f first x → ({ w with subs }.setCall c
      (.registered prev (w.subs.snapshot f) own)).Sound f first x := by
    intro x hx s hs
    rcases hx s hs with hs | hs | hs
    · exact .inl hs
    · exact .inr (.inl hs)
    · exact .inr (.inr ((hpend s).mpr (.inr hs)))
  have hle := h.entry_le hfirst
  have hold : ∀ s, w.Pending s ∨ s ∈ w.succeeded ∨ s ∈ w.failed → s.token < own.token := by
    intro s hs
    rw [hown.2]
    exact Nat.lt_succ_of_le (h.own s hs).2.2
  refine ⟨?_, fun d p q s hd x hx => ?_, fun s hs => ?_, fun d d' p p' q q' s s' hd hd' ht => ?_,
    fun s s' hs hs' => ?_, h.disjoint, ?_⟩
  · show World.Sound f first _ (subs.snapshot f)
    rw [hsnap]
    rintro s ⟨⟩
    exact .inr (.inr ((hpend own).mpr (.inl rfl)))
  · rcases hreg d p q s hd with ⟨-, rfl, rfl⟩ | ⟨-, hd⟩
    · refine ⟨?_, findFilter_filter hx, .inr (hsound _ ?_)⟩
      · rw [hown.2]
        exact Nat.lt_succ_of_le (hle x hx)
      · rw [← show w.subs.snapshot f = some x from hx]
        exact h.entry
    · obtain ⟨hlt, hfil, hx'⟩ := h.displaced d p q s hd x hx
      exact ⟨hlt, hfil, hx'.imp id (hsound _)⟩
  · show s.filter = f ∧ first.subSeq < s.token ∧ s.token ≤ subs.subSeq
    rw [hpend] at hs
    rw [hseq]
    rcases hs with (rfl | hs) | hs
    · exact ⟨hown.1, by rw [hown.2]; exact Nat.lt_succ_of_le h.grown, Nat.le_of_eq hown.2⟩
    · obtain ⟨hfil, hlt, hle⟩ := h.own s (.inl hs)
      exact ⟨hfil, hlt, Nat.le_succ_of_le hle⟩
    · obtain ⟨hfil, hlt, hle⟩ := h.own s (.inr hs)
      exact ⟨hfil, hlt, Nat.le_succ_of_le hle⟩
  · rcases hreg d p q s hd with ⟨hdc, -, hs⟩ | ⟨-, hd⟩ <;>
      rcases hreg d' p' q' s' hd' with ⟨hdc', -, hs'⟩ | ⟨-, hd'⟩
    · exact hdc.trans hdc'.symm
    · exact absurd (hs ▸ ht) (Nat.ne_of_gt (hold s' (.inl ⟨d', p', q', hd'⟩)))
    · exact absurd (hs' ▸ ht) (Nat.ne_of_lt (hold s (.inl ⟨d, p, q, hd⟩)))
    · exact h.once d d' p p' q q' s s' hd hd' ht
  · rcases (hpend s).mp hs with rfl | hs
    · exact Nat.ne_of_gt (hold s' (.inr hs'))
    · exact h.returned s s' hs hs'
  · show first.subSeq ≤ subs.subSeq
    rw [hseq]
    exact Nat.le_succ_of_le h.grown

/-- Tokens tell the pending registrations apart. -/
theorem Inv.pending_inj (h : Inv f first w) {prev displaced : Option Subscription}
    {own s : Subscription} (hc : w.calls c = .registered prev displaced own) (hs : w.Pending s)
    (ht : s.token = own.token) : s = own := by
  obtain ⟨d, p, q, hd⟩ := hs
  have hdc := h.once d c p prev q displaced s own hd hc ht
  subst hdc
  rw [hc] at hd
  cases hd
  rfl

/-- The Subscribe whose registration is current. -/
theorem Inv.current (h : Inv f first w) (hfirst : ∀ s ∈ first.snapshot f, s.token ≤ first.subSeq)
    {prev displaced : Option Subscription} {own cur : Subscription}
    (hc : w.calls c = .registered prev displaced own) (hcur : w.subs.snapshot f = some cur)
    (ht : cur.token = own.token) : cur = own := by
  have hpend : w.Pending own := ⟨c, prev, displaced, hc⟩
  rcases h.entry cur hcur with hs | hs | hs
  · have hlt := (h.own own (.inl hpend)).2.1
    have hle := hfirst cur hs
    omega
  · exact absurd ht.symm (h.returned own cur hpend (.inl hs))
  · exact h.pending_inj hc hs ht

/-- The pending registrations when a Subscribe returns. -/
theorem Inv.pending_settle (h : Inv f first w) {prev displaced : Option Subscription}
    {own : Subscription} (hc : w.calls c = .registered prev displaced own) {v : World}
    (hcalls : v.calls = w.calls) (s : Subscription) :
    (v.setCall c .returned).Pending s ↔ w.Pending s ∧ s ≠ own := by
  constructor
  · rintro ⟨d, p, q, hd⟩
    obtain ⟨hne, hd⟩ := setCall_registered (by simp) hd
    rw [hcalls] at hd
    refine ⟨⟨d, p, q, hd⟩, ?_⟩
    rintro rfl
    exact hne (h.once d c p prev q displaced s s hd hc rfl)
  · rintro ⟨⟨d, p, q, hd⟩, hne⟩
    have hdc : d ≠ c := by
      rintro rfl
      rw [hc] at hd
      cases hd
      exact hne rfl
    exact ⟨d, p, q, by simpa [World.setCall, hdc, hcalls] using hd⟩

/-- A Subscribe returns: its registration joins those of the calls that returned. -/
theorem Inv.settle (h : Inv f first w) {prev displaced : Option Subscription} {own : Subscription}
    (hc : w.calls c = .registered prev displaced own) {v : World} (hcalls : v.calls = w.calls)
    (hseq : v.subs.subSeq = w.subs.subSeq)
    (hret : ∀ s, s ∈ v.succeeded ∨ s ∈ v.failed → s = own ∨ s ∈ w.succeeded ∨ s ∈ w.failed)
    (hdisj : ∀ s ∈ v.succeeded, ∀ s' ∈ v.failed, s.token ≠ s'.token)
    (hentry : (v.setCall c .returned).Sound f first (v.subs.snapshot f))
    (hsound : ∀ s, s ∈ w.failed ∨ w.Sound f first (some s) →
      s ∈ v.failed ∨ (v.setCall c .returned).Sound f first (some s)) :
    Inv f first (v.setCall c .returned) := by
  have hpend := h.pending_settle hc hcalls
  have hown : w.Pending own := ⟨c, prev, displaced, hc⟩
  have hback : ∀ {d : Nat} {p q : Option Subscription} {s : Subscription},
      (v.setCall c .returned).calls d = .registered p q s → w.calls d = .registered p q s := by
    intro d p q s hd
    exact hcalls ▸ (setCall_registered (by simp) hd).2
  refine ⟨hentry, fun d p q s hd x hx => ?_, fun s hs => ?_,
    fun d d' p p' q q' s s' hd hd' => ?_, fun s s' hs hs' ht => ?_, hdisj, ?_⟩
  · obtain ⟨hlt, hfil, hx'⟩ := h.displaced d p q s (hback hd) x hx
    exact ⟨hlt, hfil, hsound x hx'⟩
  · show s.filter = f ∧ first.subSeq < s.token ∧ s.token ≤ v.subs.subSeq
    rw [hseq]
    rw [hpend] at hs
    rcases hs with hs | hs
    · exact h.own s (.inl hs.1)
    · rcases hret s hs with rfl | hs
      · exact h.own s (.inl hown)
      · exact h.own s (.inr hs)
  · exact h.once d d' p p' q q' s s' (hback hd) (hback hd')
  · obtain ⟨hw, hne⟩ := (hpend s).mp hs
    rcases hret s' hs' with heq | hs'
    · exact hne (h.pending_inj hc hw (heq ▸ ht))
    · exact h.returned s s' hw hs' ht
  · show first.subSeq ≤ v.subs.subSeq
    rw [hseq]
    exact h.grown

/-- A Subscribe succeeds. -/
theorem Inv.succeed (h : Inv f first w) {prev displaced : Option Subscription} {own : Subscription}
    (hc : w.calls c = .registered prev displaced own) :
    Inv f first ({ w with succeeded := own :: w.succeeded }.setCall c .returned) := by
  have hpend : ∀ s, ({ w with succeeded := own :: w.succeeded }.setCall c .returned).Pending s ↔
      w.Pending s ∧ s ≠ own := h.pending_settle hc rfl
  have hsound : ∀ x, w.Sound f first x →
      ({ w with succeeded := own :: w.succeeded }.setCall c .returned).Sound f first x := by
    intro x hx s hs
    rcases hx s hs with hs | hs | hs
    · exact .inl hs
    · exact .inr (.inl (List.mem_cons_of_mem _ hs))
    · by_cases heq : s = own
      · exact .inr (.inl (heq ▸ List.mem_cons_self))
      · exact .inr (.inr ((hpend s).mpr ⟨hs, heq⟩))
  refine h.settle hc rfl rfl (fun s hs => ?_) (fun s hs s' hs' => ?_) (hsound _ h.entry)
    fun s hs => hs.imp id (hsound _)
  · rwa [List.mem_cons, or_assoc] at hs
  · rcases List.mem_cons.mp hs with rfl | hs
    · exact h.returned s s' ⟨c, prev, displaced, hc⟩ (.inr hs')
    · exact h.disjoint s hs s' hs'

/-- What a clean rollback does: nothing, or it puts back what was displaced. -/
theorem Inv.rollback (h : Inv f first w)
    (hfirst : ∀ s ∈ first.snapshot f, s.token ≤ first.subSeq)
    {prev displaced : Option Subscription} {own : Subscription}
    (hc : w.calls c = .registered prev displaced own) (hclean : CleanRollback f w (.fail c)) :
    ((∀ s ∈ w.subs.snapshot f, s ≠ own) ∧
      (w.subs.restore f prev own.token).snapshot f = w.subs.snapshot f) ∨
    (w.subs.snapshot f = some own ∧ (w.subs.restore f prev own.token).snapshot f = displaced ∧
      ∀ s ∈ displaced, s.token ∉ w.failed.map Subscription.token) := by
  simp only [CleanRollback, hc] at hclean
  by_cases ht : (w.subs.snapshot f).map Subscription.token = some own.token
  · right
    obtain ⟨cur, hcur, htok⟩ := Option.map_eq_some_iff.mp ht
    obtain rfl := h.current hfirst hc hcur htok
    obtain ⟨rfl, hprev⟩ := hclean ht
    refine ⟨hcur, ?_, fun s hs => (hprev s hs).2⟩
    rw [Subs.snapshot_restore hcur rfl]
    cases prev with
    | none => rfl
    | some p =>
      have hfil : cur.filter = f := findFilter_filter hcur
      have hpfil := (h.displaced c _ _ cur hc p rfl).2.1
      have hid := (hprev p rfl).1
      rw [Option.map_some, ← hid, hfil, ← hpfil]
  · left
    have hne : ∀ s ∈ w.subs.snapshot f, s.token ≠ own.token := by
      intro s hs heq
      exact ht (Option.map_eq_some_iff.mpr ⟨s, hs, heq⟩)
    refine ⟨fun s hs heq => hne s hs (heq ▸ rfl), ?_⟩
    rw [Subs.restore_superseded hne]

/-- A Subscribe fails and rolls back cleanly. -/
theorem Inv.fail (h : Inv f first w) (hfirst : ∀ s ∈ first.snapshot f, s.token ≤ first.subSeq)
    {prev displaced : Option Subscription} {own : Subscription}
    (hc : w.calls c = .registered prev displaced own) (hclean : CleanRollback f w (.fail c)) :
    Inv f first ({ w with
      subs := w.subs.restore f prev own.token, failed := own :: w.failed }.setCall c .returned) := by
  have hpend : ∀ s, ({ w with
      subs := w.subs.restore f prev own.token
      failed := own :: w.failed }.setCall c .returned).Pending s ↔ w.Pending s ∧ s ≠ own :=
    h.pending_settle hc rfl
  have hsound : ∀ x, w.Sound f first x → (∀ s ∈ x, s ≠ own) → ({ w with
      subs := w.subs.restore f prev own.token
      failed := own :: w.failed }.setCall c .returned).Sound f first x := by
    intro x hx hne s hs
    exact (hx s hs).imp id (Or.imp id fun hp => (hpend s).mpr ⟨hp, hne s hs⟩)
  refine h.settle hc rfl (Subs.subSeq_restore ..) (fun s hs => ?_) (fun s hs s' hs' => ?_) ?_
    fun s hs => ?_
  · rwa [List.mem_cons, or_left_comm] at hs
  · rcases List.mem_cons.mp hs' with rfl | hs'
    · exact (h.returned s' s ⟨c, prev, displaced, hc⟩ (.inl hs)).symm
    · exact h.disjoint s hs s' hs'
  · rcases h.rollback hfirst hc hclean with ⟨hne, heq⟩ | ⟨-, heq, hfailed⟩
    · rw [heq]
      exact hsound _ h.entry hne
    · rw [heq]
      intro s hs
      obtain ⟨hlt, -, hs'⟩ := h.displaced c prev displaced own hc s hs
      refine hsound (some s) (hs'.resolve_left fun hf => ?_) (fun x hx heq => ?_) s rfl
      · exact hfailed s hs (List.mem_map_of_mem hf)
      · cases hx
        subst heq
        exact Nat.lt_irrefl _ hlt
  · by_cases heq : s = own
    · exact .inl (heq ▸ List.mem_cons_self)
    · exact hs.imp (List.mem_cons_of_mem _) fun hs => hsound _ hs (by rintro x ⟨⟩; exact heq)

theorem Inv.step (h : Inv f first w) (hfirst : ∀ s ∈ first.snapshot f, s.token ≤ first.subSeq)
    {a : Act} {w' : World} (hclean : CleanRollback f w a) (hs : step f w a = some w') :
    Inv f first w' := by
  cases a <;> simp only [Registration.step] at hs
  case snapshot c =>
    split at hs <;> cases hs
    rename_i hc
    exact h.setCall (by simp) (by simp [hc])
  case add c options handler subID =>
    split at hs <;> cases hs
    rename_i prev hc
    obtain ⟨htok, hseq, hsnap⟩ := Subs.snapshot_add w.subs f options handler subID
    exact h.add hfirst hc ⟨rfl, htok⟩ hseq (by rw [hsnap, htok])
  case unsubscribe c =>
    split at hs <;> cases hs
    rename_i hc
    exact h.setCall (by simp) (by simp [hc])
  case succeed c =>
    split at hs <;> cases hs
    case h_1 _ prev displaced own hc => exact h.succeed hc
    case h_2 _ hc => exact h.setCall (by simp) (by simp [hc])
    case h_3 _ snap hc =>
      exact (h.remove snap.token).setCall (c := c) (by simp) (by simp [hc])
  case fail c =>
    split at hs <;> cases hs
    case h_1 _ prev displaced own hc => exact h.fail hfirst hc hclean
    case h_2 _ snap hc => exact h.setCall (by simp) (by simp [hc])

end steps

/-! ## Whole runs -/

theorem inv_start {f : Bytes} {first : Subs} : Inv f first (start first) := by
  refine ⟨fun s hs => .inl hs, ?_, ?_, ?_, ?_, ?_, Nat.le_refl _⟩ <;>
    simp [start, World.Pending]

/-- Any number of Subscribe and Unsubscribe calls on one filter, in any
interleaving in which every rollback that takes effect is clean. Once all have
returned the table holds nothing, what it held before, or what a Subscribe
registered that succeeded; it never holds what a failed Subscribe registered;
and a failing Subscribe changes the entry only from its own registration back to
the one it displaced. -/
theorem registration_settled {f : Bytes} {first : Subs} {as : List Act} {w : World}
    (hfirst : ∀ s ∈ first.snapshot f, s.token ≤ first.subSeq)
    (hrun : Run (step f) (CleanRollback f) (start first) as w) :
    ((∀ c, (w.calls c).settled = true) → w.subs.snapshot f = none ∨
      w.subs.snapshot f = first.snapshot f ∨ ∃ s ∈ w.succeeded, w.subs.snapshot f = some s) ∧
    (∀ s ∈ w.failed, ∀ cur ∈ w.subs.snapshot f, cur.token ≠ s.token) ∧
    ∀ c prev displaced own w', w.calls c = .registered prev displaced own →
      CleanRollback f w (.fail c) → step f w (.fail c) = some w' →
      w'.subs.snapshot f = w.subs.snapshot f ∨
        w.subs.snapshot f = some own ∧ w'.subs.snapshot f = displaced := by
  have h : Inv f first w := hrun.invariant inv_start fun t a u ht ha hu => ht.step hfirst ha hu
  refine ⟨fun hall => ?_, fun s hs cur hcur ht => ?_,
    fun c prev displaced own w' hc hclean hs => ?_⟩
  · cases hcur : w.subs.snapshot f with
    | none => exact .inl rfl
    | some cur =>
      rcases h.entry cur hcur with hs | hs | ⟨c, prev, displaced, hc⟩
      · exact .inr (.inl hs.symm)
      · exact .inr (.inr ⟨cur, hs, rfl⟩)
      · have hset := hall c
        simp [hc, Phase.settled] at hset
  · rcases h.entry cur hcur with hcur | hcur | hcur
    · have hle := hfirst cur hcur
      have hlt := (h.own s (.inr (.inr hs))).2.1
      omega
    · exact h.disjoint cur hcur s hs ht
    · exact h.returned cur s hcur (.inr hs) ht
  · simp only [step, hc] at hs
    cases hs
    rcases h.rollback hfirst hc hclean with ⟨-, heq⟩ | ⟨hown, heq, -⟩
    · exact .inl heq
    · exact .inr ⟨hown, heq⟩

/-- Two overlapping Subscribes: the later one succeeds, then the earlier one fails. -/
def overlapping : List Act :=
  [.snapshot 0, .add 0 {} 10 0, .snapshot 1, .add 1 {} 11 0, .succeed 1, .fail 0]

theorem registration_settled_overlapping :
    ∃ w, Run (step [97]) (CleanRollback [97]) (start Subs.empty) overlapping w ∧
      w.failed = [⟨[97], 10, {}, 1, 0⟩] ∧
      (w.subs.snapshot [97] = none ∨ w.subs.snapshot [97] = Subs.empty.snapshot [97] ∨
        ∃ s ∈ w.succeeded, w.subs.snapshot [97] = some s) := by
  suffices h : ∃ w, Run (step [97]) (CleanRollback [97]) (start Subs.empty) overlapping w ∧
      w.failed = [⟨[97], 10, {}, 1, 0⟩] ∧ ∀ c, (w.calls c).settled = true by
    obtain ⟨w, hrun, hfailed, hall⟩ := h
    exact ⟨w, hrun, hfailed, (registration_settled (by decide) hrun).1 hall⟩
  refine ⟨_, Run.of_execOk rfl, rfl, fun c => ?_⟩
  match c with
  | 0 | 1 | c + 2 => rfl

/-- Two Subscribes that both fail leave the first one's registration behind; and a
Subscribe whose snapshot is older than a registration removes it, although the
Subscribe that made it succeeded. -/
theorem rollback_not_clean :
    (∃ w, Run (step [97]) anyStep (start Subs.empty)
        [.snapshot 0, .add 0 {} 10 0, .snapshot 1, .add 1 {} 11 0, .fail 0, .fail 1] w ∧
      (∀ c, (w.calls c).settled = true) ∧ w.succeeded = [] ∧
      w.subs.snapshot [97] = some ⟨[97], 10, {}, 1, 0⟩ ∧ ⟨[97], 10, {}, 1, 0⟩ ∈ w.failed) ∧
    ∃ w, Run (step [97]) anyStep (start Subs.empty)
        [.snapshot 1, .snapshot 0, .add 0 {} 10 0, .succeed 0, .add 1 {} 11 0, .fail 1] w ∧
      (∀ c, (w.calls c).settled = true) ∧ w.succeeded = [⟨[97], 10, {}, 1, 0⟩] ∧
      w.subs.snapshot [97] = none := by
  refine ⟨⟨_, run_iff_exec.mpr rfl, fun c => ?_, rfl, rfl, by decide⟩,
    _, run_iff_exec.mpr rfl, fun c => ?_, rfl, rfl⟩ <;>
  match c with
  | 0 | 1 | c + 2 => rfl

end GoMqtt.Concurrent.Registration
