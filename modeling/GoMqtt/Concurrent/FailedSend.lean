import GoMqtt.Concurrent.AccountRuns

/-! # Failed sends and releases

What `publishAcked` leaves behind when `writeFrame` fails, and how often a permit
and an identifier are given back. Both rest on the generation being read by the
side that gives back, and both fail where the other side has already acted: a
PUBLISH saved after the `Connect` that should have counted it is never counted,
and one acknowledged before its write has failed is given back by both sides. -/
namespace GoMqtt.Concurrent
open GoMqtt.Protocol GoMqtt.Session GoMqtt.Client GoMqtt.Lib

/-! ## All or nothing -/

/-- Nothing of the call is left. -/
def World.Gone (w : World) (c : CallId) : Prop := ¬ w.Own c ∧ ¬ w.Hold c ∧ ¬ w.Charged c

/-- The call's entry is whole, and the last count had it. -/
def World.Adopted (w : World) (c : CallId) : Prop :=
  w.Own c ∧ w.Hold c ∧ w.Charged c ∧ w.Counted c

/-- Where no reset is half done and no read loop is ending its exchange, a call whose
write has failed has left nothing, or an entry that was counted. -/
theorem failed_send_gone_or_adopted {cfg : TCPConfig} {as : List Act} {w : World} {c : CallId}
    (h : Run step Orderly (init cfg) as w) (hpc : (w.procs c).pc = .done)
    (hf : (w.procs c).failed = true) (hc : w.conn.calm = true)
    (hcl : ∀ l < w.mem.nextLink, (w.readers l).closing = true → w.book.closing l ≠ c) :
    (w.Gone c ∨ w.Adopted c) ∧ w.mem.quota.avail + w.book.charged.length = w.book.ceiling := by
  have hacc := accounted_of_run h
  refine ⟨?_, hacc.units.balance⟩
  by_cases ho : w.Own c
  · have hcnt := (hacc.cause c ho).resolve_left fun hcur => hacc.stale c hpc hf hcur ho
    exact .inr ⟨ho, (hacc.units.keeps c (.inr (.inl ho))).1,
      (hacc.units.due c (.inr (.inl ho))).1, hcnt⟩
  -- no one is left to give its identifier or its permit back
  have hopen : ∀ l, (w.readers l).closing = true → w.book.closing l ≠ c := by
    intro l hl
    refine hcl l ?_ hl
    by_contra hlt
    rw [(hacc.units.linked.unknown l (Nat.le_of_not_lt hlt)).1] at hl
    cases hl
  refine .inl ⟨ho, fun hh => ?_, fun hch => ?_⟩
  · rcases hacc.hold c hh with (⟨howes, -⟩ | hown | ⟨l, id, res, hl, hclo, -⟩) | ⟨l, r, hconn⟩
    · simp [Proc.owesId, hpc] at howes
    · exact ho hown
    · exact hopen l (by rw [hl]; rfl) hclo
    · rw [hconn] at hc
      cases hc
  · rcases hacc.charge c hch with (⟨howes, -⟩ | hown | ⟨l, hl, hclo, -⟩) | hcalm
    · simp [Proc.owesPermit, hpc] at howes
    · exact ho hown
    · exact hopen l hl hclo
    · rw [hc] at hcalm
      cases hcalm

/-- One publish is acknowledged. Two more lose their link while writing: one cleans
up before the session is resumed, the other finds it resumed. -/
def brokenWrites : List Act :=
  connecting false ++ publishing (.api 0) 0 1 5 ++ publishing (.api 1) 0 1 4 ++
    publishing (.api 2) 0 1 4 ++ receiving 0 (.puback firstAck) 6 ++
    [.call (.api 1) .broken, .call (.api 2) .broken] ++ tearing 0 ++
    List.replicate 6 (.call (.api 1) .go) ++ List.replicate 2 (.call (.api 2) .go) ++
    connecting true ++ [.call (.api 2) .go]

theorem failed_send_gone_or_adopted_broken : ∃ w, exec step (init durable) brokenWrites = some w ∧
    w.Gone (.api 1) ∧ w.Adopted (.api 2) := by
  have hends : (execOk step Orderly (init durable) brokenWrites).map (fun w =>
      decide (w.conn.calm = true ∧ (∀ l < w.mem.nextLink, (w.readers l).closing = false) ∧
        ∀ c ∈ [CallId.api 1, .api 2], (w.procs c).pc = .done ∧ (w.procs c).failed = true)) =
      some true := by decide +kernel
  obtain ⟨w, hw, hends⟩ := Option.map_eq_some_iff.mp hends
  have hunits : (execOk step Orderly (init durable) brokenWrites).map (fun w =>
      (decide (CallId.api 1 ∈ w.book.charged), w.book.savedBy (w.procs (.api 2)).id,
        w.mem.store.contains (w.procs (.api 2)).id .publish)) =
      some (false, .api 2, true) := by decide +kernel
  rw [decide_eq_true_eq] at hends
  rw [hw, Option.map_some, Option.some.injEq, Prod.mk.injEq, Prod.mk.injEq] at hunits
  obtain ⟨hcalm, hidle, hdone⟩ := hends
  obtain ⟨hfree, hsaved, hstored⟩ := hunits
  have hr := Run.of_execOk hw
  have hcl : ∀ c, ∀ l < w.mem.nextLink, (w.readers l).closing = true → w.book.closing l ≠ c :=
    fun c l hl hb => absurd (hidle l hl) (by simp [hb])
  obtain ⟨hpc, hf⟩ := hdone (.api 1) (by simp)
  obtain ⟨hpc', hf'⟩ := hdone (.api 2) (by simp)
  have hone := (failed_send_gone_or_adopted hr hpc hf hcalm (hcl _)).1
  have htwo := (failed_send_gone_or_adopted hr hpc' hf' hcalm (hcl _)).1
  refine ⟨w, run_iff_exec.mp hr.any, hone.resolve_right fun ha => ?_,
    htwo.resolve_left fun hg => hg.1 ⟨.inl hstored, hsaved⟩⟩
  exact of_decide_eq_false hfree ha.2.2.1

/-- A publish has its permit and its identifier when the link goes down. The session
is resumed, and only then does it save, fail to write on its old link, and find the
generation changed. -/
def savedLate : List Act :=
  connecting false ++ publishing (.api 0) 0 1 2 ++ tearing 0 ++ connecting true ++
    [.call (.api 0) .go, .call (.api 0) .go, .call (.api 0) .broken] ++
    List.replicate 3 (.call (.api 0) .go)

/-- It has returned an error, and its entry and its identifier stay: no `Connect` has
counted it, and the full quota is free besides it. -/
theorem failed_send_left_uncounted : ∃ w, exec step (init durable) savedLate = some w ∧
    (w.procs (.api 0)).pc = .done ∧ (w.procs (.api 0)).failed = true ∧ w.conn = .idle ∧
    w.mem.store.contains 1 .publish = true ∧ w.book.savedBy 1 = .api 0 ∧
    w.mem.ids.inUse 1 = true ∧ w.book.heldBy 1 = .api 0 ∧ w.book.counted = [] ∧
    w.mem.quota.avail = 5 := by
  have hcall : (exec step (init durable) savedLate).map (fun w =>
      ((w.procs (.api 0)).pc, (w.procs (.api 0)).failed, w.conn)) = some (.done, true, .idle) := by
    decide +kernel
  obtain ⟨w, hw, hcall⟩ := Option.map_eq_some_iff.mp hcall
  have hleft : (exec step (init durable) savedLate).map (fun w =>
      (w.mem.store.contains 1 .publish, w.book.savedBy 1, w.mem.ids.inUse 1, w.book.heldBy 1)) =
      some (true, .api 0, true, .api 0) := by decide +kernel
  have hquota : (exec step (init durable) savedLate).map (fun w =>
      (w.book.counted, w.mem.quota.avail)) = some ([], 5) := by decide +kernel
  rw [hw, Option.map_some, Option.some.injEq] at hleft hquota
  simp only [Prod.mk.injEq] at hcall hleft hquota
  obtain ⟨hpc, hf, hc⟩ := hcall
  obtain ⟨hst, hsb, hu, hh⟩ := hleft
  exact ⟨w, hw, hpc, hf, hc, hst, hsb, hu, hh, hquota⟩

/-! ## At most one release -/

/-- Each permit is credited at most once in a generation and each identifier freed at
most once, and what is available stays within what the last reset set and what it
had subtracted for stored exchanges. -/
theorem released_at_most_once {cfg : TCPConfig} {as : List Act} {w : World}
    (h : Run step Settles (init cfg) as w) :
    w.book.credits.Nodup ∧ w.book.frees.Nodup ∧ w.mem.quota.avail ≤ w.book.ceiling := by
  have hu := units_of_run h
  have hbal := hu.balance
  refine ⟨hu.credits.1, hu.frees.1, ?_⟩
  omega

theorem second_ne_zero : (2 : UInt16) ≠ 0 := by decide

/-- An acknowledgement of the second identifier handed out. -/
def secondAck : InboundAck := { packetID := 2, id_ne := second_ne_zero }

/-- One publish is acknowledged before it is written. A second is acknowledged too, and
its read loop has only taken the entry out when the session is resumed on a new link: it
frees the identifier, and its permit is of an old generation. A third fails to write on
the new link and cleans up. -/
def lateReleases : List Act :=
  connecting false ++ publishing (.api 0) 0 1 4 ++ receiving 0 (.puback firstAck) 6 ++
    .call (.api 0) .go :: publishing (.api 1) 0 1 5 ++
    receiving 0 (.puback secondAck) 3 ++ tearing 0 ++ connecting true ++
    List.replicate 3 (.read 0) ++ publishing (.api 2) 1 1 4 ++ .call (.api 2) .broken ::
    tearing 1 ++ List.replicate 6 (.call (.api 2) .go)

theorem released_at_most_once_late : ∃ w, exec step (init durable) lateReleases = some w ∧
    w.book.credits = [(.api 2, 2), (.api 0, 1)] ∧ w.book.frees = [.api 2, .api 1, .api 0] ∧
    w.book.credits.Nodup ∧ w.book.frees.Nodup ∧ w.mem.quota.avail ≤ w.book.ceiling := by
  have hview : (execOk step Settles (init durable) lateReleases).map (fun w =>
      (w.book.credits, w.book.frees)) =
      some ([(.api 2, 2), (.api 0, 1)], [.api 2, .api 1, .api 0]) := by decide +kernel
  obtain ⟨w, hw, hview⟩ := Option.map_eq_some_iff.mp hview
  have hr := Run.of_execOk hw
  rw [Prod.mk.injEq] at hview
  exact ⟨w, run_iff_exec.mp hr.any, hview.1, hview.2, released_at_most_once hr⟩

/-- A PUBACK comes for a PUBLISH that is stored and not written yet. The read loop
ends the exchange, then the write is refused for the server's maximum packet size,
in the same generation. -/
def ackedBeforeRefused : List Act :=
  .connect { negotiated 5 false with maximumPacketSize := 4 } :: List.replicate 7 .conn ++
    publishing (.api 0) 0 1 4 ++ receiving 0 (.puback firstAck) 6 ++
    .call (.api 0) .fail :: List.replicate 5 (.call (.api 0) .go)

/-- Both sides have given the permit and the identifier back, and more is available
than the server's Receive Maximum. -/
theorem permit_credited_twice : ∃ w, exec step (init durable) ackedBeforeRefused = some w ∧
    w.book.credits = [(.api 0, 1), (.api 0, 1)] ∧ w.book.frees = [.api 0, .api 0] ∧
    w.book.ceiling = 5 ∧ w.mem.quota.avail = 6 := by
  have hbook : (exec step (init durable) ackedBeforeRefused).map (fun w =>
      (w.book.credits, w.book.frees)) =
      some ([(.api 0, 1), (.api 0, 1)], [.api 0, .api 0]) := by decide +kernel
  obtain ⟨w, hw, hbook⟩ := Option.map_eq_some_iff.mp hbook
  have hquota : (exec step (init durable) ackedBeforeRefused).map (fun w =>
      (w.book.ceiling, w.mem.quota.avail)) = some (5, 6) := by decide +kernel
  rw [hw, Option.map_some, Option.some.injEq] at hquota
  rw [Prod.mk.injEq] at hbook hquota
  exact ⟨w, hw, hbook.1, hbook.2, hquota⟩

end GoMqtt.Concurrent
