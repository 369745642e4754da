import Mathlib.Algebra.Ring.Int.Defs
import Mathlib.Algebra.Ring.Nat

/-!
# Flow-control windows

The windows of both directions are `int32` values; sums that are compared before they
are stored are `int64` and do not wrap at these sizes.
-/

namespace Conn

/-- Conversion to `int32`. -/
def int32 (x : ℤ) : ℤ := x.bmod (2 ^ 32)

/-- `maxFlowWindow`. -/
def maxFlowWindow : ℤ := 2 ^ 31 - 1

/-- `connInitialRecvWindow`: the window a connection or stream starts with unless a
setting says otherwise. -/
def connInitialRecvWindow : ℤ := 65535

/-- A value in range is stored as it is. -/
theorem int32_eq {x : ℤ} (hlo : -(2 ^ 31) ≤ x) (hhi : x ≤ maxFlowWindow) : int32 x = x := by
  simp only [maxFlowWindow] at hhi
  exact Int.bmod_eq_of_le (by omega) (by omega)

theorem int32_natCast {n : ℕ} (h : (n : ℤ) ≤ maxFlowWindow) : int32 n = n :=
  int32_eq (by omega) h

end Conn
