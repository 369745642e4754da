import Mathlib.Algebra.Ring.Nat

/-!
# Lists cut into pieces

`chunks n l` cuts a list into pieces of `n` elements and a last piece with the rest. A
loop that takes up to `n` elements a turn goes through the pieces one by one
(`chunks_of_ne_nil`, `chunks_of_le`).
-/

namespace Chunks

variable {α : Type*}

/-- Pieces of `n + 1` elements, but for the last. -/
def chunks (n : ℕ) : List α → List (List α)
  | [] => []
  | a :: l => (a :: l).take (n + 1) :: chunks n ((a :: l).drop (n + 1))
termination_by l => l.length

variable {n : ℕ} {l : List α}

@[simp] theorem chunks_nil : chunks n ([] : List α) = [] := by
  simp [chunks]

theorem chunks_of_ne_nil (h : l ≠ []) :
    chunks n l = l.take (n + 1) :: chunks n (l.drop (n + 1)) := by
  cases l with
  | nil => exact absurd rfl h
  | cons a l => rw [chunks]

/-- A last piece. -/
theorem chunks_of_le (h : l ≠ []) (hle : l.length ≤ n + 1) : chunks n l = [l] := by
  rw [chunks_of_ne_nil h, List.take_of_length_le hle, List.drop_of_length_le hle, chunks_nil]

/-- Induction on the pieces. -/
theorem chunks_induction {P : List α → Prop} (n : ℕ) (hnil : P [])
    (hcons : ∀ l, l ≠ [] → P (l.drop (n + 1)) → P l) (l : List α) : P l := by
  fun_induction chunks n l with
  | case1 => exact hnil
  | case2 a l ih => exact hcons (a :: l) (List.cons_ne_nil a l) ih

theorem flatten_chunks (n : ℕ) (l : List α) : (chunks n l).flatten = l := by
  induction l using chunks_induction n with
  | hnil => simp
  | hcons l hne ih => rw [chunks_of_ne_nil hne, List.flatten_cons, ih, List.take_append_drop]

/-- No piece is empty or too long. -/
theorem length_of_mem_chunks {c : List α} (h : c ∈ chunks n l) : 0 < c.length ∧ c.length ≤ n + 1 := by
  induction l using chunks_induction n with
  | hnil => simp at h
  | hcons l hne ih =>
    rw [chunks_of_ne_nil hne, List.mem_cons] at h
    rcases h with rfl | h
    · have hpos := List.length_pos_iff.mpr hne
      rw [List.length_take]
      omega
    · exact ih h

/-- How many pieces there are. -/
theorem length_chunks (n : ℕ) (l : List α) :
    (chunks n l).length = (l.length + n) / (n + 1) := by
  induction l using chunks_induction n with
  | hnil => simp [Nat.div_eq_of_lt]
  | hcons l hne ih =>
    have hpos := List.length_pos_iff.mpr hne
    rw [chunks_of_ne_nil hne, List.length_cons, ih, List.length_drop]
    by_cases hle : l.length ≤ n + 1
    · have hlast : (l.length + n) / (n + 1) = 1 := by
        rw [Nat.div_eq_iff (by omega)]
        omega
      rw [hlast, Nat.sub_eq_zero_of_le hle, Nat.div_eq_of_lt (by omega)]
    · have hfull : l.length + n = l.length - (n + 1) + n + (n + 1) := by omega
      rw [hfull, Nat.add_div_right _ (by omega)]

end Chunks
