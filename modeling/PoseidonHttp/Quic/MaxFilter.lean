import Mathlib.Data.List.Induction
import Mathlib.Data.Nat.Basic

/-!
# The windowed maximum of BBR

The `maxFilter` of `quic/bbr.go` keeps three samples of a window, the largest first and the newest
last. `update_windowed`: what `update` returns is a measurement of the window, and the new one is
not larger.
-/

namespace Quic.Bbr

/-- The times that `update` is given do not decrease, so that no difference of two of them wraps. -/
structure MaxSample where
  t : ℕ
  v : ℕ

structure MaxFilter where
  s0 : MaxSample := ⟨0, 0⟩
  s1 : MaxSample := ⟨0, 0⟩
  s2 : MaxSample := ⟨0, 0⟩
  init : Bool := false

namespace MaxFilter

def reset (t meas : ℕ) : MaxFilter × ℕ :=
  let val : MaxSample := ⟨t, meas⟩
  (⟨val, val, val, true⟩, meas)

def subwinUpdate (m : MaxFilter) (win : ℕ) (val : MaxSample) : MaxFilter × ℕ :=
  let dt := val.t - m.s0.t
  let m :=
    if win < dt then
      -- the primary maximum aged out, and perhaps the runner-up too
      let m := { m with s0 := m.s1, s1 := m.s2, s2 := val }
      if win < val.t - m.s0.t then { m with s0 := m.s1, s1 := m.s2, s2 := val } else m
    else if m.s1.t = m.s0.t ∧ win / 4 < dt then { m with s1 := val, s2 := val }
    else if m.s2.t = m.s1.t ∧ win / 2 < dt then { m with s2 := val }
    else m
  (m, m.s0.v)

def update (m : MaxFilter) (win t meas : ℕ) : MaxFilter × ℕ :=
  if m.init = false ∨ m.s0.v ≤ meas ∨ win < t - m.s2.t then reset t meas
  else
    let val : MaxSample := ⟨t, meas⟩
    let m :=
      if m.s1.v ≤ meas then { m with s1 := val, s2 := val }
      else if m.s2.v ≤ meas then { m with s2 := val }
      else m
    m.subwinUpdate win val

/-- The filter after a sequence of calls. -/
def run (win : ℕ) (xs : List MaxSample) : MaxFilter :=
  xs.foldl (fun m x => (m.update win x.t x.v).1) {}

/-- The three samples are measurements, by value downwards and by time upwards. -/
structure Kept (xs : List MaxSample) (m : MaxFilter) : Prop where
  mem : m.s0 ∈ xs ∧ m.s1 ∈ xs ∧ m.s2 ∈ xs
  values : m.s1.v ≤ m.s0.v ∧ m.s2.v ≤ m.s1.v
  times : m.s0.t ≤ m.s1.t ∧ m.s1.t ≤ m.s2.t

/-- A call for `x` answers with the first sample, which is in the window and no smaller than `x`. -/
structure Answers (win : ℕ) (xs : List MaxSample) (x : MaxSample) (r : MaxFilter × ℕ) : Prop where
  kept : r.1.Kept xs
  value : r.1.s0.v = r.2
  least : x.v ≤ r.2
  fresh : x.t - r.1.s0.t ≤ win

variable {m : MaxFilter} {win : ℕ} {xs : List MaxSample} {x : MaxSample}

/-- The last sample is the newest: it is in the window whenever a promotion asks for it. -/
theorem answers_subwinUpdate (h : m.Kept xs) (hx : x ∈ xs) (hv : x.v ≤ m.s2.v)
    (ht : m.s2.t ≤ x.t) (hfresh : x.t - m.s2.t ≤ win) :
    Answers win xs x (m.subwinUpdate win x) := by
  have ⟨⟨h0, h1, h2⟩, ⟨hv1, hv2⟩, ⟨ht1, ht2⟩⟩ := h
  rw [subwinUpdate]
  dsimp only
  split_ifs with hold hsecond hquarter hhalf
  · exact ⟨⟨⟨h2, hx, hx⟩, ⟨hv, le_rfl⟩, ht, le_rfl⟩, rfl, hv, hfresh⟩
  · exact ⟨⟨⟨h1, h2, hx⟩, ⟨hv2, hv⟩, ht2, ht⟩, rfl, le_trans hv hv2, Nat.le_of_not_lt hsecond⟩
  all_goals
    -- the first sample stays
    have hle : x.t - m.s0.t ≤ win := Nat.le_of_not_lt hold
    have hleast : x.v ≤ m.s0.v := by omega
  · have hnewer : m.s0.t ≤ x.t := by omega
    exact ⟨⟨⟨h0, hx, hx⟩, ⟨hleast, le_rfl⟩, hnewer, le_rfl⟩, rfl, hleast, hle⟩
  · exact ⟨⟨⟨h0, h1, hx⟩, ⟨hv1, le_trans hv hv2⟩, ht1, le_trans ht2 ht⟩, rfl, hleast, hle⟩
  · exact ⟨h, rfl, hleast, hle⟩

theorem answers_update (h : m.init = true → m.Kept xs) (hle : ∀ y ∈ xs, y.t ≤ x.t) :
    Answers win (xs ++ [x]) x (m.update win x.t x.v) := by
  have hx : x ∈ xs ++ [x] := List.mem_concat_self
  by_cases hreset : m.init = false ∨ m.s0.v ≤ x.v ∨ win < x.t - m.s2.t
  · rw [update, if_pos hreset]
    exact ⟨⟨⟨hx, hx, hx⟩, ⟨le_rfl, le_rfl⟩, le_rfl, le_rfl⟩, rfl, le_rfl, by simp [reset]⟩
  rw [update, if_neg hreset]
  rw [not_or, not_or, Bool.not_eq_false] at hreset
  have ⟨hinit, hmax, hwin⟩ := hreset
  have ⟨⟨h0, h1, h2⟩, ⟨hv1, hv2⟩, ⟨ht1, ht2⟩⟩ := h hinit
  have hmem : ∀ y ∈ xs, y ∈ xs ++ [x] := fun y hy => List.mem_append_left [x] hy
  dsimp only
  -- the new measurement takes the places of the samples that are no larger
  split_ifs with hrunner hthird
  · have hkept : Kept (xs ++ [x]) { m with s1 := x, s2 := x } :=
      ⟨⟨hmem _ h0, hx, hx⟩, ⟨Nat.le_of_not_le hmax, le_rfl⟩, hle _ h0, le_rfl⟩
    exact answers_subwinUpdate hkept hx le_rfl le_rfl (by simp)
  · have hkept : Kept (xs ++ [x]) { m with s2 := x } :=
      ⟨⟨hmem _ h0, hmem _ h1, hx⟩, ⟨hv1, Nat.le_of_not_le hrunner⟩, ht1, hle _ h1⟩
    exact answers_subwinUpdate hkept hx le_rfl le_rfl (by simp)
  · have hkept : Kept (xs ++ [x]) m := ⟨⟨hmem _ h0, hmem _ h1, hmem _ h2⟩, ⟨hv1, hv2⟩, ht1, ht2⟩
    exact answers_subwinUpdate hkept hx (Nat.le_of_not_le hthird) (hle _ h2) (Nat.le_of_not_lt hwin)

/-- **The filter stays inside the window.** Each call answers with a measurement that was taken at
most `win` before, and is no smaller than the new one. -/
theorem update_windowed (win : ℕ) (xs : List MaxSample) (x : MaxSample)
    (hsorted : (xs ++ [x]).Pairwise fun y z => y.t ≤ z.t) :
    Answers win (xs ++ [x]) x ((run win xs).update win x.t x.v) := by
  induction xs using List.reverseRecOn generalizing x with
  | nil => exact answers_update nofun nofun
  | append_singleton xs y ih =>
    have ⟨hprior, _, hle⟩ := List.pairwise_append.mp hsorted
    refine answers_update (fun _ => ?_) fun z hz => hle z hz x (List.mem_singleton_self x)
    rw [run, List.foldl_append]
    exact (ih y hprior).kept

theorem update_windowed_aged :
    ((run 4 [⟨0, 5⟩, ⟨2, 3⟩]).update 4 5 2).2 = 3 ∧
      Answers 4 [⟨0, 5⟩, ⟨2, 3⟩, ⟨5, 2⟩] ⟨5, 2⟩ ((run 4 [⟨0, 5⟩, ⟨2, 3⟩]).update 4 5 2) :=
  ⟨by decide, update_windowed 4 [⟨0, 5⟩, ⟨2, 3⟩] ⟨5, 2⟩ (by simp)⟩

end MaxFilter

end Quic.Bbr
