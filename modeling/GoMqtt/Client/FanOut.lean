import Mathlib.Data.List.Forall2
import GoMqtt.Client.Pump

/-! # Attributing the broker's fan-out

A broker forwards a message once for several subscriptions or once for each of
them, and stamps every copy with the identifiers of the subscriptions it stands
for. `dispatch` goes by the stamp, so that the number of runs of a handler does
not depend on how the broker bundles its copies. -/
namespace GoMqtt.Client
open GoMqtt.Protocol

/-- The entries reached by a series of copies. -/
def routes (subs : List Subscription) (copies : List PublishPacket) : List Subscription :=
  copies.flatMap fun copy => routed subs (toMessage copy)

/-! ## What dispatching a series of copies runs -/

/-- The handlers a history shows to have run. -/
def handlerRuns (hist : List Event) : List Handler :=
  hist.flatMap fun
    | .dispatched _ _ handlers _ => handlers
    | _ => []

namespace State

theorem teardownLink_handlerRuns (s : State) (l : LinkId) (g : Bool) :
    (s.teardownLink l g).subs = s.subs ∧
      handlerRuns (s.teardownLink l g).hist = handlerRuns s.hist := by
  have hlog : handlerRuns (s.hist ++ [Event.tornDown l]) = handlerRuns s.hist := by
    simp [handlerRuns]
  unfold teardownLink
  split
  · exact ⟨rfl, rfl⟩
  · dsimp only
    split
    · exact ⟨rfl, hlog⟩
    · split
      · exact ⟨rfl, hlog⟩
      · exact ⟨rfl, hlog⟩

theorem dispatch_handlerRuns (s : State) (l : LinkId) (p : PublishPacket) (torn : Bool) :
    (s.dispatch l p torn).subs = s.subs ∧
      handlerRuns (s.dispatch l p torn).hist =
        handlerRuns s.hist ++ (routed s.subs.subs (toMessage p)).map Subscription.handler := by
  have hlog : handlerRuns (s.hist ++ [Event.dispatched l p (handlersFor s.subs.subs p) torn]) =
      handlerRuns s.hist ++ (routed s.subs.subs (toMessage p)).map Subscription.handler := by
    simp [handlerRuns, handlersFor]
  unfold dispatch
  dsimp only
  split
  · obtain ⟨hsubs, hruns⟩ := teardownLink_handlerRuns
      (s.log (.dispatched l p (handlersFor s.subs.subs p) torn)) l _
    exact ⟨hsubs, hruns.trans hlog⟩
  · exact ⟨rfl, hlog⟩

/-- The copies are dispatched one after another; a handler of any of them may
see its link torn down. -/
def dispatchAll (s : State) (l : LinkId) (copies : List (PublishPacket × Bool)) : State :=
  copies.foldl (fun s copy => s.dispatch l copy.1 copy.2) s

theorem dispatchAll_handlerRuns (s : State) (l : LinkId) (copies : List (PublishPacket × Bool)) :
    handlerRuns (s.dispatchAll l copies).hist = handlerRuns s.hist ++
      (routes s.subs.subs (copies.map Prod.fst)).map Subscription.handler := by
  induction copies generalizing s with
  | nil => simp [dispatchAll, routes]
  | cons copy copies ih =>
    obtain ⟨hsubs, hruns⟩ := dispatch_handlerRuns s l copy.1 copy.2
    have hrest := ih (s.dispatch l copy.1 copy.2)
    rw [hsubs, hruns] at hrest
    rw [List.map_cons, routes, List.flatMap_cons, List.map_append, ← List.append_assoc]
    exact hrest

end State

/-! ## A compliant fan-out -/

/-- A subscription registered with an identifier. -/
def Subscription.identified (s : Subscription) : Bool := s.subID != 0

/-- A copy carries the identifiers of the subscriptions it stands for and no
other; a copy for unidentified subscriptions carries none. -/
def Stamped (copy : PublishPacket) (part : List Subscription) : Prop :=
  ∀ id, id ∈ (toMessage copy).subscriptionIdentifiers ↔ id ∈ part.map Subscription.subID

/-- The broker splits the identified subscriptions it matched into parts and
sends a copy for each, between any number of unstamped ones (the empty parts). -/
def FanOut (subs : List Subscription) (matched : Subscription → Bool)
    (copies : List PublishPacket) : Prop :=
  ∃ parts, List.Forall₂ Stamped copies parts ∧
    parts.flatten.Perm (subs.filter fun s => s.identified && matched s)

/-- The non-zero identifiers of the table are pairwise distinct. -/
def DistinctIDs (subs : List Subscription) : Prop :=
  ((subs.filter Subscription.identified).map Subscription.subID).Nodup

theorem eq_of_subID {subs : List Subscription} (hids : DistinctIDs subs) {s t : Subscription}
    (hs : s ∈ subs) (ht : t ∈ subs) (hne : s.identified = true) (h : s.subID = t.subID) :
    s = t := by
  have hne' : t.identified = true := by simpa [Subscription.identified, h] using hne
  exact List.inj_on_of_nodup_map hids (List.mem_filter.mpr ⟨hs, hne⟩)
    (List.mem_filter.mpr ⟨ht, hne'⟩) h

/-- One copy reaches the identified subscriptions of its part, each once. -/
theorem count_routed {subs part : List Subscription} {copy : PublishPacket} {s : Subscription}
    (hnodup : subs.Nodup) (hids : DistinctIDs subs) (hstamp : Stamped copy part)
    (hpart : ∀ t ∈ part, t ∈ subs) (hpnodup : part.Nodup) (hs : s ∈ subs)
    (hne : s.identified = true) :
    (routed subs (toMessage copy)).count s = part.count s := by
  have hmem : s.subID ∈ (toMessage copy).subscriptionIdentifiers ↔ s ∈ part := by
    rw [hstamp, List.mem_map]
    constructor
    · rintro ⟨t, ht, heq⟩
      exact eq_of_subID hids hs (hpart t ht) hne heq.symm ▸ ht
    · exact fun h => ⟨s, h, rfl⟩
  have hrouted : s ∈ routed subs (toMessage copy) ↔ s ∈ part := by
    rw [← hmem]
    unfold routed
    split
    · rw [List.mem_filter]
      simpa [hs, Subscription.identified] using fun _ => hne
    · rename_i hnone
      have hnone := not_not.mp hnone
      have hzero : ¬ s.subID = 0 := by simpa [Subscription.identified] using hne
      simp [hnone, List.mem_filter, hzero]
  have hrnodup : (routed subs (toMessage copy)).Nodup := by
    unfold routed
    split
    · exact hnodup.filter _
    · exact hnodup.filter _
  rw [hrnodup.count, hpnodup.count]
  simp only [hrouted]

/-- Over all copies, a subscription is reached as often as it stands in a part. -/
theorem count_routes {subs : List Subscription} {copies : List PublishPacket}
    {parts : List (List Subscription)} {s : Subscription} (hnodup : subs.Nodup)
    (hids : DistinctIDs subs) (h : List.Forall₂ Stamped copies parts)
    (hparts : ∀ t ∈ parts.flatten, t ∈ subs) (hpnodup : parts.flatten.Nodup) (hs : s ∈ subs)
    (hne : s.identified = true) :
    (routes subs copies).count s = parts.flatten.count s := by
  induction h with
  | nil => rfl
  | cons hstamp _ ih =>
    rw [List.flatten_cons] at hparts hpnodup ⊢
    obtain ⟨hp, hrest, -⟩ := List.nodup_append.mp hpnodup
    have htail := ih (fun t ht => hparts t (List.mem_append_right _ ht)) hrest
    rw [routes] at htail ⊢
    rw [List.flatMap_cons, List.count_append, List.count_append, htail,
      count_routed hnodup hids hstamp (fun t ht => hparts t (List.mem_append_left _ ht)) hp hs hne]

/-- However the broker bundles its copies of a message, dispatching them runs
the handler of each identified subscription it matched once, and that of no
other identified subscription. -/
theorem fanOut_runs_once (s : State) (l : LinkId) (copies : List (PublishPacket × Bool))
    (matched : Subscription → Bool) (hids : DistinctIDs s.subs.subs)
    (h : FanOut s.subs.subs matched (copies.map Prod.fst)) :
    handlerRuns (s.dispatchAll l copies).hist = handlerRuns s.hist ++
        (routes s.subs.subs (copies.map Prod.fst)).map Subscription.handler ∧
      ∀ sub ∈ s.subs.subs, sub.subID ≠ 0 →
        (routes s.subs.subs (copies.map Prod.fst)).count sub = if matched sub then 1 else 0 := by
  obtain ⟨parts, hstamped, hperm⟩ := h
  have hnodup : s.subs.subs.Nodup := List.Nodup.of_map _ s.subs.distinct
  refine ⟨s.dispatchAll_handlerRuns l copies, ?_⟩
  intro sub hsub hne
  have hident : sub.identified = true := by simpa [Subscription.identified] using hne
  rw [count_routes hnodup hids hstamped
      (fun t ht => (List.mem_filter.mp (hperm.mem_iff.mp ht)).1)
      (hperm.nodup_iff.mpr (hnodup.filter _)) hsub hident,
    hperm.count_eq, (hnodup.filter _).count]
  simp [hsub, hident]

/-- `"a/#"`, `"+"` and `"b"` with identifiers, `"a"` without. -/
def overlapping : Subs where
  subs := [⟨[0x61, slash, hash], 1, {}, 1, 4⟩, ⟨[plus], 2, {}, 2, 5⟩, ⟨[0x61], 3, {}, 3, 0⟩,
    ⟨[0x62], 1, {}, 4, 6⟩]
  subSeq := 4
  distinct := by decide

/-- A copy of a message to `"a"`. -/
def copyFor (ids : List UInt32) : PublishPacket :=
  { version := .v50, topic := [0x61], properties := some { subscriptionIdentifiers := ids } }

/-- Two stamped copies around an unstamped one. -/
theorem fanOut_runs_once_overlapping :
    let s := { newTCPClient { protocolVersion := .v50 } with subs := overlapping }
    let copies := [(copyFor [5], false), (copyFor [], false), (copyFor [4], true)]
    handlerRuns (s.dispatchAll 0 copies).hist = [2, 3, 1] ∧
      ∀ sub ∈ overlapping.subs, sub.subID ≠ 0 →
        (routes overlapping.subs (copies.map Prod.fst)).count sub =
          if sub.subID != 6 then 1 else 0 := by
  intro s copies
  have hfan : FanOut s.subs.subs (fun sub => sub.subID != 6) (copies.map Prod.fst) := by
    refine ⟨[[⟨[plus], 2, {}, 2, 5⟩], [], [⟨[0x61, slash, hash], 1, {}, 1, 4⟩]], ?_, ?_⟩
    · refine .cons ?_ (.cons ?_ (.cons ?_ .nil))
      · intro id
        simp [copyFor, toMessage]
      · intro id
        simp [copyFor, toMessage]
      · intro id
        simp [copyFor, toMessage]
    · decide
  obtain ⟨hruns, hcount⟩ := fanOut_runs_once s 0 copies _ (by unfold DistinctIDs; decide) hfan
  refine ⟨?_, hcount⟩
  rw [hruns]
  decide

end GoMqtt.Client
