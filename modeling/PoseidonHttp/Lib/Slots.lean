import Mathlib.Data.Nat.Basic
import Mathlib.Tactic.Common

/-!
# Counting over numbered slots

The slots of a state that is a function of the slot number, and how many of the
first `n` have a property. A step changes one slot: `count_update` says what that
does to the count.
-/

namespace Slots

variable {α : Type*} {p : α → Bool} {f : ℕ → α} {n k : ℕ} {x : α}

/-- How many of the first `n` slots have the property. -/
def count (p : α → Bool) (f : ℕ → α) : ℕ → ℕ
  | 0 => 0
  | n + 1 => count p f n + (p (f n)).toNat

theorem count_congr {g : ℕ → α} (h : ∀ i < n, p (f i) = p (g i)) : count p f n = count p g n := by
  induction n with
  | zero => rfl
  | succ n ih =>
    simp only [count, ih fun i hi => h i (Nat.lt_succ_of_lt hi), h n (Nat.lt_succ_self n)]

/-- One slot changes. -/
theorem count_update (hk : k < n) :
    count p (Function.update f k x) n + (p (f k)).toNat = count p f n + (p x).toNat := by
  induction n with
  | zero => exact absurd hk (Nat.not_lt_zero k)
  | succ n ih =>
    simp only [count]
    rcases Nat.lt_succ_iff_lt_or_eq.mp hk with hlt | rfl
    · have hne : n ≠ k := by omega
      rw [Function.update_of_ne hne]
      have := ih hlt
      omega
    · have hsame : count p (Function.update f k x) k = count p f k :=
        count_congr fun i hi => by rw [Function.update_of_ne (by omega)]
      rw [Function.update_self]
      omega

theorem count_pos (hk : k < n) (h : p (f k) = true) : 0 < count p f n := by
  induction n with
  | zero => exact absurd hk (Nat.not_lt_zero k)
  | succ n ih =>
    simp only [count]
    rcases Nat.lt_succ_iff_lt_or_eq.mp hk with hlt | rfl
    · have := ih hlt
      omega
    · simp [h]

/-- Slots without the property do not count. -/
theorem count_of_le {m : ℕ} (hnm : n ≤ m) (h : ∀ i, n ≤ i → p (f i) = false) :
    count p f m = count p f n := by
  induction m, hnm using Nat.le_induction with
  | base => rfl
  | succ m hm ih => simp [count, ih, h m hm]

end Slots
