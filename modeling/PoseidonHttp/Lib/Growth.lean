import PoseidonHttp.Lib.Slice

/-!
# Slices that grow

Appending to a slice writes behind it where the array has room, and otherwise moves to a new array
with room the runtime chooses. `Buf` is such a slice alone. `Arena` keeps the arrays it has moved
away from, since views into them stay in use: `Keeps` says that every view reads as before, and
appending, making room and both in a row are such steps.
-/

namespace Growth

open Slice

variable {α : Type*}

/-- How much room the runtime gives to a slice that has to grow. -/
structure Allocator where
  grow : ℕ → ℕ → ℕ
  fits : ∀ cap n, n ≤ grow cap n

/-- Room doubles where that is enough. -/
def doubling : Allocator := ⟨fun cap n => Nat.max (2 * cap) n, fun _ n => Nat.le_max_right _ n⟩

/-! ## One slice -/

/-- A slice with room behind it. -/
structure Buf (α : Type*) where
  elems : List α
  cap : ℕ
  fits : elems.length ≤ cap

namespace Buf

def append (a : Allocator) (b : Buf α) (xs : List α) : Buf α :=
  if h : b.elems.length + xs.length ≤ b.cap then ⟨b.elems ++ xs, b.cap, by simpa using h⟩
  else
    ⟨b.elems ++ xs, a.grow b.cap (b.elems.length + xs.length), by
      rw [List.length_append]
      exact a.fits _ _⟩

@[simp] theorem append_elems (a : Allocator) (b : Buf α) (xs : List α) :
    (b.append a xs).elems = b.elems ++ xs := by
  unfold append
  split_ifs <;> rfl

/-- An empty slice with room for `n`. -/
def make (n : ℕ) : Buf α := ⟨[], n, Nat.zero_le n⟩

end Buf

/-! ## A slice and the views into its arrays -/

/-- Part of one of the arrays. -/
structure View where
  array : ℕ
  lo : ℕ
  hi : ℕ
  deriving DecidableEq

/-- The arrays a growing slice has left behind, the one it is in now, and how much that holds. -/
structure Arena (α : Type*) where
  left : List (List α) := []
  current : List α := []
  cap : ℕ := 0

namespace Arena

variable (a : Allocator)

/-- An array by its number. -/
def array (m : Arena α) (i : ℕ) : List α := (m.left ++ [m.current])[i]?.getD []

def read (m : Arena α) (v : View) : List α := slice (m.array v.array) v.lo v.hi

/-- The view lies in what has been written. -/
def Holds (m : Arena α) (v : View) : Prop :=
  v.array ≤ m.left.length ∧ v.hi ≤ (m.array v.array).length

/-- `slices.Grow`: room for `n` more. -/
def reserve (m : Arena α) (n : ℕ) : Arena α :=
  if m.cap < m.current.length + n then
    { left := m.left ++ [m.current], current := m.current, cap := a.grow m.cap (m.current.length + n) }
  else m

def append (m : Arena α) (xs : List α) : Arena α :=
  if m.current.length + xs.length ≤ m.cap then { m with current := m.current ++ xs }
  else
    { left := m.left ++ [m.current], current := m.current ++ xs,
      cap := a.grow m.cap (m.current.length + xs.length) }

/-- `s[lo:hi]` of the growing slice as it is now. -/
def view (m : Arena α) (lo hi : ℕ) : View := ⟨m.left.length, lo, hi⟩

variable {a} {m m' m'' : Arena α} {xs : List α} {v : View} {n lo hi : ℕ} {l : List α}

@[simp] theorem array_length (m : Arena α) : m.array m.left.length = m.current := by
  simp [array]

theorem array_of_lt {i : ℕ} (h : i < m.left.length) : m.array i = m.left[i] := by
  simp [array, List.getElem?_append_left h, h]

theorem holds_view (h : hi ≤ m.current.length) : m.Holds (m.view lo hi) := by
  refine ⟨Nat.le_refl _, ?_⟩
  show hi ≤ (m.array m.left.length).length
  rwa [array_length]

theorem read_view : m.read (m.view lo hi) = slice m.current lo hi := by
  show slice (m.array m.left.length) lo hi = _
  rw [array_length]

/-- Every view reads as before. -/
def Keeps (m m' : Arena α) : Prop := ∀ v, m.Holds v → m'.Holds v ∧ m'.read v = m.read v

theorem Keeps.refl : Keeps m m := fun _ h => ⟨h, rfl⟩

theorem Keeps.trans (h : Keeps m m') (h' : Keeps m' m'') : Keeps m m'' := by
  intro v hv
  obtain ⟨hheld, hread⟩ := h v hv
  obtain ⟨hheld', hread'⟩ := h' v hheld
  exact ⟨hheld', hread'.trans hread⟩

/-- It is enough that every array still starts with what was in it. -/
theorem keeps_of_prefix (hlen : m.left.length ≤ m'.left.length)
    (h : ∀ i ≤ m.left.length, m.array i <+: m'.array i) : Keeps m m' := by
  intro v hv
  obtain ⟨hi, hhi⟩ := hv
  obtain ⟨rest, hrest⟩ := h v.array hi
  refine ⟨⟨by omega, ?_⟩, ?_⟩
  · rw [← hrest, List.length_append]
    omega
  · rw [read, read, ← hrest, slice, slice, List.drop_append]
    rw [List.take_append_of_le_length]
    rw [List.length_drop]
    omega

theorem array_left_append {i : ℕ} {c : ℕ} (h : i < m.left.length) :
    (⟨m.left ++ [m.current], l, c⟩ : Arena α).array i = m.array i := by
  rw [array_of_lt h, array_of_lt (by simpa using Nat.lt_succ_of_lt h)]
  simp [List.getElem_append_left h]

theorem array_left_last {c : ℕ} :
    (⟨m.left ++ [m.current], l, c⟩ : Arena α).array m.left.length = m.current := by
  rw [array_of_lt (by simp)]
  simp

/-- Moving to another array leaves the old ones as they are. -/
theorem keeps_move {c : ℕ} : Keeps m ⟨m.left ++ [m.current], l, c⟩ := by
  refine keeps_of_prefix (by simp) ?_
  intro i hi
  rcases Nat.lt_or_eq_of_le hi with hlt | rfl
  · simp only [array_left_append hlt, List.prefix_rfl]
  · simp only [array_left_last, array_length, List.prefix_rfl]

theorem keeps_reserve : Keeps m (m.reserve a n) := by
  unfold reserve
  split_ifs
  · exact keeps_move
  · exact .refl

theorem keeps_append : Keeps m (m.append a xs) := by
  unfold append
  split_ifs
  · refine keeps_of_prefix (Nat.le_refl _) ?_
    intro i hi
    rcases Nat.lt_or_eq_of_le hi with hlt | rfl
    · simp only [array_of_lt hlt, array_of_lt (m := { m with current := m.current ++ xs }) hlt,
        List.prefix_rfl]
    · rw [array_length]
      rw [array_length { m with current := m.current ++ xs }]
      exact List.prefix_append _ _
  · exact keeps_move

@[simp] theorem current_append : (m.append a xs).current = m.current ++ xs := by
  unfold append
  split_ifs <;> rfl

end Arena

end Growth
