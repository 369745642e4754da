import Mathlib.Data.List.Forall2

/-!
# Two runs of a machine that shows what it may

A machine takes labels, moves and shows an observation. Labels that differ only in what
must stay hidden are *alike*. If one step from one state never tells alike labels apart,
neither in the state it goes to nor in what it shows, then two whole runs over alike labels
pass through the same states and show the same observations.
-/

namespace Noninterference

universe u v w

/-- A machine over states `σ` and labels `α` that shows an `ω` at each step. A step that
has no value does not return. -/
structure Machine (σ : Type u) (α : Type v) (ω : Type w) where
  step : σ → α → Option (σ × ω)

variable {σ : Type u} {α : Type v} {ω : Type w} {M : Machine σ α ω} {alike : α → α → Prop}

/-- The states a run passes through, each with what was shown on the way to it. -/
def Machine.trace (M : Machine σ α ω) : σ → List α → Option (List (σ × ω))
  | _, [] => some []
  | s, a :: as => (M.step s a).bind fun r => (M.trace r.1 as).map (r :: ·)

/-- Steps that do not tell alike labels apart. -/
def Machine.Blind (M : Machine σ α ω) (alike : α → α → Prop) : Prop :=
  ∀ s a b r r', alike a b → M.step s a = some r → M.step s b = some r' → r = r'

/-- Two runs of a blind machine over alike labels are one run. -/
theorem Machine.Blind.trace_eq (h : M.Blind alike) {s : σ} {as bs : List α}
    {t t' : List (σ × ω)} (hab : List.Forall₂ alike as bs) (ht : M.trace s as = some t)
    (ht' : M.trace s bs = some t') : t = t' := by
  induction hab generalizing s t t' with
  | nil => exact Option.some.inj (ht.symm.trans ht')
  | @cons a b as bs hone _ ih =>
    simp only [trace, Option.bind_eq_some_iff, Option.map_eq_some_iff] at ht ht'
    rcases ht with ⟨r, hr, t₀, ht₀, rfl⟩
    rcases ht' with ⟨r', hr', t₀', ht₀', rfl⟩
    -- the first steps agree, so the rests start from one state
    have hrr : r = r' := h s a b r r' hone hr hr'
    subst hrr
    rw [ih ht₀ ht₀']

end Noninterference
