import Mathlib.Algebra.Order.BigOperators.Group.List
import Mathlib.Algebra.Ring.Nat

/-!
# Weight-bounded queues

A queue is a list, newest element first, whose elements have a weight. `fit m`
drops oldest elements until the rest weighs at most `m`; `push m x` makes room
for `x` and puts it in front, or empties the queue when `x` alone is too heavy.

The point of the module is comparison. Two queues that see the same pushes at
different bounds drift apart, but never out of prefix order: the one with the
smaller bound stays a prefix of the other (`fit_prefix_fit`, `push_prefix_push`).
-/

namespace Fifo

variable {α : Type*} (w : α → ℕ)

/-- The total weight of a queue. -/
def weight (l : List α) : ℕ := (l.map w).sum

/-- The longest prefix that weighs at most `m`. -/
def fit : ℕ → List α → List α
  | _, [] => []
  | m, x :: xs => if w x ≤ m then x :: fit (m - w x) xs else []

/-- Make room for `x` under the bound `m` and put it in front. -/
def push (m : ℕ) (x : α) (l : List α) : List α :=
  if w x ≤ m then x :: fit w (m - w x) l else []

variable {w}

@[simp] theorem weight_nil : weight w [] = 0 := rfl

@[simp] theorem weight_cons (x : α) (l : List α) : weight w (x :: l) = w x + weight w l := by
  simp [weight]

@[simp] theorem weight_append (l l' : List α) :
    weight w (l ++ l') = weight w l + weight w l' := by
  simp [weight]

theorem weight_le_of_prefix {p l : List α} (h : p <+: l) : weight w p ≤ weight w l := by
  obtain ⟨t, rfl⟩ := h
  simp

/-- Every element that weighs at least `k` adds at least `k` to the total. -/
theorem length_mul_le_weight {k : ℕ} (l : List α) (h : ∀ x ∈ l, k ≤ w x) :
    l.length * k ≤ weight w l := by
  induction l with
  | nil => simp
  | cons x xs ih =>
    have hx := h x (by simp)
    have hxs := ih fun y hy => h y (by simp [hy])
    simp only [List.length_cons, weight_cons, Nat.succ_mul]
    omega

theorem fit_isPrefix (m : ℕ) (l : List α) : fit w m l <+: l := by
  induction l generalizing m with
  | nil => simp [fit]
  | cons x xs ih =>
    unfold fit
    split
    · exact List.prefix_cons_inj x |>.mpr (ih _)
    · exact List.nil_prefix

theorem weight_fit_le (m : ℕ) (l : List α) : weight w (fit w m l) ≤ m := by
  induction l generalizing m with
  | nil => simp [fit]
  | cons x xs ih =>
    unfold fit
    split
    · have := ih (m - w x)
      simp only [weight_cons]
      omega
    · simp

/-- `fit` keeps every prefix that is light enough, so it keeps the longest. -/
theorem prefix_fit {m : ℕ} {p l : List α} (hp : p <+: l) (hw : weight w p ≤ m) :
    p <+: fit w m l := by
  induction l generalizing m p with
  | nil => simpa [fit] using hp
  | cons x xs ih =>
    cases p with
    | nil => exact List.nil_prefix
    | cons y ys =>
      obtain ⟨rfl, hys⟩ := List.cons_prefix_cons.mp hp
      simp only [weight_cons] at hw
      have hfit : fit w m (y :: xs) = y :: fit w (m - w y) xs := by
        simp [fit, show w y ≤ m by omega]
      rw [hfit]
      exact List.prefix_cons_inj y |>.mpr (ih hys (by omega))

/-- A queue within its bound is kept whole. -/
theorem fit_eq_self {m : ℕ} {l : List α} (h : weight w l ≤ m) : fit w m l = l := by
  have hlen := (prefix_fit (List.prefix_refl l) h).length_le
  exact (fit_isPrefix m l).eq_of_length_le hlen

/-- Over the bound, dropping the oldest element does not change the result:
one turn of an eviction loop. -/
theorem fit_concat_of_lt {m : ℕ} {l : List α} {x : α} (h : m < weight w (l ++ [x])) :
    fit w m (l ++ [x]) = fit w m l := by
  have hle : fit w m (l ++ [x]) <+: l := by
    rcases (List.prefix_concat_iff.mp (fit_isPrefix m (l ++ [x]))) with heq | hpre
    · have := weight_fit_le (w := w) m (l ++ [x])
      rw [heq] at this
      omega
    · exact hpre
  apply List.IsPrefix.eq_of_length_le (prefix_fit hle (weight_fit_le m _))
  exact (prefix_fit ((fit_isPrefix m l).trans (List.prefix_append l [x]))
    (weight_fit_le m l)).length_le

/-- Shrinking to bounds `n ≤ m` keeps the prefix order. -/
theorem fit_prefix_fit {n m : ℕ} {p q : List α} (hp : p <+: q) (hnm : n ≤ m) :
    fit w n p <+: fit w m q :=
  prefix_fit ((fit_isPrefix n p).trans hp) ((weight_fit_le n p).trans hnm)

/-- Pushing at bounds `n ≤ m` keeps the prefix order, the case where only the
smaller queue is emptied included. -/
theorem push_prefix_push {n m : ℕ} {p q : List α} (x : α) (hp : p <+: q) (hnm : n ≤ m) :
    push w n x p <+: push w m x q := by
  unfold push
  by_cases hn : w x ≤ n
  · rw [if_pos hn, if_pos (hn.trans hnm)]
    exact List.prefix_cons_inj x |>.mpr (fit_prefix_fit hp (Nat.sub_le_sub_right hnm _))
  · rw [if_neg hn]
    exact List.nil_prefix

theorem weight_push_le (m : ℕ) (x : α) (l : List α) : weight w (push w m x l) ≤ m := by
  unfold push
  split
  · have := weight_fit_le (w := w) (m - w x) l
    simp only [weight_cons]
    omega
  · simp

end Fifo
