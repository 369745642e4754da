import Mathlib.Logic.Basic

/-!
# Transition systems and their runs

A system is an initial state and a partial step function: the label carries
every choice the environment makes (which thread runs, what it is given, which
ready branch is taken), so that a run is a list of labels and can be evaluated.

`ReachableBy cond` is the set of states reached by steps that all meet `cond`
in the state they start from; `Reachable` is the case of no condition. The one
induction over runs is `ReachableBy.invariant`; every safety proof below is an
initial case and a step case handed to it.
-/

namespace Transition

universe u v

/-- A transition system whose steps are labelled by `α`. -/
structure System (σ : Type u) (α : Type v) where
  init : σ
  step : σ → α → Option σ

variable {σ : Type u} {α : Type v} {M : System σ α} {cond : σ → α → Prop}

/-- The state after a list of labels, when every one of them can be taken. -/
def System.run (M : System σ α) : σ → List α → Option σ
  | s, [] => some s
  | s, a :: as => (M.step s a).bind fun s' => M.run s' as

/-- A step with a guard. -/
theorem guarded {p : Prop} [Decidable p] {s s' : σ} :
    (if p then some s else none) = some s' ↔ p ∧ s = s' := by
  rw [Option.ite_none_right_eq_some, Option.some.injEq]

/-- States reached by steps that all meet `cond`. -/
inductive System.ReachableBy (M : System σ α) (cond : σ → α → Prop) : σ → Prop
  | init : M.ReachableBy cond M.init
  | step {s s' : σ} (a : α) : M.ReachableBy cond s → cond s a → M.step s a = some s' →
      M.ReachableBy cond s'

/-- States reached by any steps. -/
def System.Reachable (M : System σ α) : σ → Prop :=
  M.ReachableBy fun _ _ => True

/-- Invariant induction: what holds initially and is kept by every step that
meets the condition holds of every state such steps reach. -/
theorem System.ReachableBy.invariant {inv : σ → Prop} (hinit : inv M.init)
    (hstep : ∀ s a s', inv s → cond s a → M.step s a = some s' → inv s')
    {s : σ} (h : M.ReachableBy cond s) : inv s := by
  induction h with
  | init => exact hinit
  | step a _ hc hs ih => exact hstep _ a _ ih hc hs

/-- The steps of a run all meet `cond`, each in the state it starts from. -/
def System.RunMeets (M : System σ α) (cond : σ → α → Prop) : σ → List α → Prop
  | _, [] => True
  | s, a :: as => cond s a ∧ ∀ s', M.step s a = some s' → M.RunMeets cond s' as

/-- For a decidable condition a run can be checked by evaluation. -/
instance System.decidableRunMeets [∀ s a, Decidable (cond s a)] :
    ∀ (s : σ) (as : List α), Decidable (M.RunMeets cond s as)
  | _, [] => isTrue trivial
  | s, a :: as =>
    match h : M.step s a with
    | none => decidable_of_iff (cond s a) ⟨fun hc => ⟨hc, by simp [h]⟩, fun hc => hc.1⟩
    | some s' =>
      have := System.decidableRunMeets s' as
      decidable_of_iff (cond s a ∧ M.RunMeets cond s' as)
        ⟨fun hc => ⟨hc.1, by simpa [h] using hc.2⟩, fun hc => ⟨hc.1, hc.2 s' h⟩⟩

/-- A run whose steps all meet the condition ends in a state they reach. -/
theorem System.reachableBy_run {s s' : σ} (h : M.ReachableBy cond s) :
    ∀ {as : List α}, M.RunMeets cond s as → M.run s as = some s' → M.ReachableBy cond s' := by
  intro as hmeets hrun
  induction as generalizing s with
  | nil =>
    simp only [System.run, Option.some.injEq] at hrun
    exact hrun ▸ h
  | cons a as ih =>
    simp only [System.run, Option.bind_eq_some_iff] at hrun
    obtain ⟨t, hst, hrest⟩ := hrun
    exact ih (.step a h hmeets.1 hst) (hmeets.2 t hst) hrest

/-- A condition on the labels alone is met label by label. -/
theorem System.runMeets_of_forall {as : List α} (h : ∀ s, ∀ a ∈ as, cond s a) (s : σ) :
    M.RunMeets cond s as := by
  induction as generalizing s with
  | nil => trivial
  | cons a as ih => exact ⟨h s a (by simp), fun s' _ => ih (fun t b hb => h t b (by simp [hb])) s'⟩

/-- A condition on the labels may be met apart from one on the states. -/
theorem System.RunMeets.and {p : α → Prop} {as : List α} {s : σ} (h : M.RunMeets cond s as)
    (hp : ∀ a ∈ as, p a) : M.RunMeets (fun s a => cond s a ∧ p a) s as := by
  induction as generalizing s with
  | nil => trivial
  | cons a as ih =>
    exact ⟨⟨h.1, hp a (by simp)⟩, fun s' hs => ih (h.2 s' hs) fun b hb => hp b (by simp [hb])⟩

/-- The states a run passes through are reachable. -/
theorem System.reachable_run {s s' : σ} (h : M.Reachable s) {as : List α}
    (hrun : M.run s as = some s') : M.Reachable s' :=
  System.reachableBy_run h (System.runMeets_of_forall (fun _ _ _ => trivial) s) hrun

/-- A run from the initial state ends in a reachable state. -/
theorem System.reachable_of_run {s : σ} {as : List α} (h : M.run M.init as = some s) :
    M.Reachable s :=
  System.reachable_run .init h

/-! ## Runs that are evaluated -/

section

variable {s : σ} {p q : σ → Prop} [DecidablePred p]

/-- A run that is evaluated to a state with `p` ends in such a state. -/
theorem System.exists_run (as : List α) (h : (M.run s as).any (fun s' => decide (p s')) = true) :
    ∃ s', M.run s as = some s' ∧ p s' := by
  cases hrun : M.run s as with
  | none => simp [hrun] at h
  | some s' => exact ⟨s', rfl, by simpa [hrun] using h⟩

/-- The same, with what is known of the states that runs end in. -/
theorem System.exists_run_and (as : List α) (hq : ∀ s', M.run s as = some s' → q s')
    (h : (M.run s as).any (fun s' => decide (p s')) = true) :
    ∃ s', M.run s as = some s' ∧ q s' ∧ p s' := by
  rcases System.exists_run as h with ⟨s', hs', hp⟩
  exact ⟨s', hs', hq s' hs', hp⟩

theorem System.exists_run_known (as : List α) (hq : ∀ s', M.run s as = some s' → q s')
    (h : (M.run s as).any (fun s' => decide (p s')) = true) :
    ∃ s', M.run s as = some s' ∧ p s' ∧ q s' := by
  rcases System.exists_run as h with ⟨s', hs', hp⟩
  exact ⟨s', hs', hp, hq s' hs'⟩

theorem System.exists_reachable (as : List α)
    (h : (M.run M.init as).any (fun s => decide (p s)) = true) : ∃ s, M.Reachable s ∧ p s := by
  rcases System.exists_run as h with ⟨s, hs, hp⟩
  exact ⟨s, System.reachable_of_run hs, hp⟩

theorem System.exists_reachableBy (as : List α) (hmeets : M.RunMeets cond M.init as)
    (h : (M.run M.init as).any (fun s => decide (p s)) = true) :
    ∃ s, M.ReachableBy cond s ∧ p s := by
  rcases System.exists_run as h with ⟨s, hs, hp⟩
  exact ⟨s, System.reachableBy_run .init hmeets hs, hp⟩

end

end Transition
