import Mathlib.Data.List.Induction

/-! # Runs of a partial step function

A machine is a step function that may refuse an action. A run is a list of
accepted actions, and a discipline is a condition on the state before each
action. Every result about whole runs goes through `Run.invariant`: what holds
at the start and survives each disciplined step holds in every state reached.
Nothing here mentions a particular machine. -/
namespace GoMqtt.Lib

variable {σ α : Type*}

/-- `Run step ok s as t`: the actions `as` lead from `s` to `t`, every action
being accepted by `step` and meeting `ok` in the state it is taken in. -/
inductive Run (step : σ → α → Option σ) (ok : σ → α → Prop) (s : σ) : List α → σ → Prop
  | nil : Run step ok s [] s
  | snoc {as : List α} {a : α} {t u : σ} :
      Run step ok s as t → ok t a → step t a = some u → Run step ok s (as ++ [a]) u

/-- No condition on the steps. -/
def anyStep (_ : σ) (_ : α) : Prop := True

instance (s : σ) (a : α) : Decidable (anyStep s a) := .isTrue trivial

variable {step : σ → α → Option σ} {ok ok' : σ → α → Prop}

/-- What one disciplined step preserves, a disciplined run preserves. -/
theorem Run.invariant {P : σ → Prop} {s t : σ} {as : List α}
    (hrun : Run step ok s as t) (hs : P s)
    (hstep : ∀ t a u, P t → ok t a → step t a = some u → P u) : P t := by
  induction hrun with
  | nil => exact hs
  | snoc _ ho hu ih => exact hstep _ _ _ ih ho hu

/-- A weaker discipline admits every run of a stronger one. -/
theorem Run.mono {s t : σ} {as : List α} (hrun : Run step ok s as t)
    (h : ∀ t a, ok t a → ok' t a) : Run step ok' s as t := by
  induction hrun with
  | nil => exact .nil
  | snoc _ ho hu ih => exact .snoc ih (h _ _ ho) hu

theorem Run.any {s t : σ} {as : List α} (hrun : Run step ok s as t) :
    Run step anyStep s as t := hrun.mono fun _ _ _ => trivial

/-- One run after another. -/
theorem Run.append {s t u : σ} {as bs : List α} (h : Run step ok s as t) (h' : Run step ok t bs u) :
    Run step ok s (as ++ bs) u := by
  induction h' with
  | nil => simpa using h
  | snoc _ ho hu ih => simpa using ih.snoc ho hu

theorem Run.single {s t : σ} {a : α} (ho : ok s a) (h : step s a = some t) :
    Run step ok s [a] t := Run.snoc .nil ho h

/-- A rank that every step lowers bounds the length of a run. -/
theorem Run.length_le {rank : σ → Nat} {s t : σ} {as : List α} (hrun : Run step ok s as t)
    (hstep : ∀ t a u, ok t a → step t a = some u → rank u < rank t) :
    as.length + rank t ≤ rank s := by
  induction hrun with
  | nil => simp
  | snoc _ ho hu ih =>
    have hlt := hstep _ _ _ ho hu
    rw [List.length_append, List.length_singleton]
    omega

/-- A machine whose every step is matched by some steps of another one is matched by it
over whole runs. -/
theorem Run.simulated {τ β : Type*} {step' : τ → β → Option τ} {good : τ → β → Prop}
    {R : σ → τ → Prop} {s t : σ} {s' : τ} {as : List α} (hrun : Run step ok s as t) (hs : R s s')
    (hstep : ∀ t a u t', R t t' → ok t a → step t a = some u →
      ∃ bs u', Run step' good t' bs u' ∧ R u u') :
    ∃ bs t', Run step' good s' bs t' ∧ R t t' := by
  induction hrun with
  | nil => exact ⟨[], s', .nil, hs⟩
  | snoc _ ho hu ih =>
    obtain ⟨bs, t', hbs, ht⟩ := ih
    obtain ⟨bs', u', hbs', hu'⟩ := hstep _ _ _ _ ht ho hu
    exact ⟨bs ++ bs', u', hbs.append hbs', hu'⟩

/-- Take the actions one after another; stop at the first one refused. -/
def exec (step : σ → α → Option σ) : σ → List α → Option σ
  | s, [] => some s
  | s, a :: as => (step s a).bind fun t => exec step t as

theorem exec_append (s : σ) (as bs : List α) :
    exec step s (as ++ bs) = (exec step s as).bind fun t => exec step t bs := by
  induction as generalizing s with
  | nil => rfl
  | cons a as ih =>
    simp only [List.cons_append, exec, Option.bind_assoc]
    congr 1
    funext t
    exact ih t

/-- Every action list that executes is a run, and nothing else is. -/
theorem run_iff_exec {s t : σ} {as : List α} :
    Run step anyStep s as t ↔ exec step s as = some t := by
  constructor
  · intro hrun
    induction hrun with
    | nil => rfl
    | snoc _ _ hu ih => simp [exec_append, ih, exec, hu]
  · intro h
    induction as using List.reverseRecOn generalizing t with
    | nil => cases h; exact .nil
    | append_singleton as a ih =>
      rw [exec_append] at h
      obtain ⟨m, hm, hu⟩ := Option.bind_eq_some_iff.mp h
      obtain ⟨u, hu, hn⟩ := Option.bind_eq_some_iff.mp hu
      cases hn
      exact .snoc (ih hm) trivial hu

/-- The last action of a run, in the state the actions before it lead to. -/
theorem Run.last {s t u : σ} {as : List α} {a : α} (h : Run step ok' s (as ++ [a]) u)
    (hrun : Run step ok s as t) : Run step ok' s as t ∧ ok' t a := by
  generalize hbs : as ++ [a] = bs at h
  cases h with
  | nil => simp at hbs
  | snoc h ho _ =>
    obtain ⟨rfl, hlast⟩ := List.append_inj' hbs rfl
    cases hlast
    have hsame := (run_iff_exec.mp h.any).symm.trans (run_iff_exec.mp hrun.any)
    cases hsame
    exact ⟨h, ho⟩

/-- A run that meets several disciplines meets all of them at once. -/
theorem Run.inter {ι : Type*} {P : ι → Prop} {oks : ι → σ → α → Prop} {s t : σ} {as : List α}
    (h : Run step ok s as t) (hall : ∀ i, P i → Run step (oks i) s as t) :
    Run step (fun u a => ok u a ∧ ∀ i, P i → oks i u a) s as t := by
  induction h with
  | nil => exact .nil
  | snoc hrun ho hu ih =>
    exact .snoc (ih fun i hi => ((hall i hi).last hrun).1)
      ⟨ho, fun i hi => ((hall i hi).last hrun).2⟩ hu

/-- Like `exec`, and refusing the actions that break the discipline. -/
def execOk (step : σ → α → Option σ) (ok : σ → α → Prop) [∀ s a, Decidable (ok s a)] :
    σ → List α → Option σ
  | s, [] => some s
  | s, a :: as => if ok s a then (step s a).bind fun t => execOk step ok t as else none

theorem Run.of_execOk [∀ s a, Decidable (ok s a)] {s t : σ} {as : List α}
    (h : execOk step ok s as = some t) : Run step ok s as t := by
  suffices hgen : ∀ (bs : List α) (r : σ), Run step ok s bs r →
      execOk step ok r as = some t → Run step ok s (bs ++ as) t by
    simpa using hgen [] s .nil h
  clear h
  induction as with
  | nil => intro bs r hr h; cases h; simpa using hr
  | cons a as ih =>
    intro bs r hr h
    simp only [execOk] at h
    split at h
    · rename_i ho
      obtain ⟨u, hu, hn⟩ := Option.bind_eq_some_iff.mp h
      simpa using ih (bs ++ [a]) u (.snoc hr ho hu) hn
    · cases h

/-- Whether a total machine meets the discipline all along. -/
def okAlong (f : σ → α → σ) (ok : σ → α → Prop) [∀ s a, Decidable (ok s a)] : σ → List α → Bool
  | _, [] => true
  | s, a :: as => decide (ok s a) && okAlong f ok (f s a) as

theorem Run.of_okAlong {f : σ → α → σ} [∀ s a, Decidable (ok s a)] {s : σ} {as : List α}
    (h : okAlong f ok s as = true) : Run (fun s a => some (f s a)) ok s as (as.foldl f s) := by
  suffices hgen : ∀ (bs : List α) (r : σ), Run (fun s a => some (f s a)) ok s bs r →
      okAlong f ok r as = true → Run (fun s a => some (f s a)) ok s (bs ++ as) (as.foldl f r) by
    simpa using hgen [] s .nil h
  clear h
  induction as with
  | nil => intro bs r hr _; simpa using hr
  | cons a as ih =>
    intro bs r hr h
    simp only [okAlong, Bool.and_eq_true, decide_eq_true_eq] at h
    simpa using ih (bs ++ [a]) (f r a) (.snoc hr h.1 rfl) h.2

end GoMqtt.Lib
