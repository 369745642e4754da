import Mathlib.Data.List.FinRange

/-!
# Slot rings

A FIFO kept in a list of slots: the `count` live elements sit at slots
`head, head + 1, …` modulo the number of slots. The ring carries the proof that
its live elements fit its slots, so reading a live element is total.

`toList` is the queue a ring stands for, oldest element first. Each operation
comes with the list operation it implements.
-/

/-- A ring of slots with `count` live elements from slot `head` on. -/
structure SlotRing (α : Type*) where
  slots : List α
  head : ℕ
  count : ℕ
  count_le : count ≤ slots.length

namespace SlotRing

variable {α : Type*} {r : SlotRing α}

/-- The ring with no slots. -/
def empty : SlotRing α := ⟨[], 0, 0, Nat.le_refl 0⟩

/-- The slot of the `i`-th oldest element. -/
def pos (r : SlotRing α) (i : ℕ) : ℕ := (r.head + i) % r.slots.length

theorem pos_lt {n : ℕ} (h : 0 < r.slots.length) : r.pos n < r.slots.length :=
  Nat.mod_lt _ h

/-- The `i`-th oldest element. -/
def get (r : SlotRing α) (i : Fin r.count) : α :=
  r.slots.get ⟨r.pos i, pos_lt (lt_of_lt_of_le i.pos r.count_le)⟩

/-- The live elements, oldest first. -/
def toList (r : SlotRing α) : List α := List.ofFn r.get

@[simp] theorem length_toList (r : SlotRing α) : r.toList.length = r.count := by
  simp [toList]

@[simp] theorem toList_empty : (empty : SlotRing α).toList = [] := rfl

theorem getElem?_toList (r : SlotRing α) {i : ℕ} (h : i < r.count) :
    r.toList[i]? = some (r.get ⟨i, h⟩) := by
  simp [toList, h]

theorem get_eq_slots (r : SlotRing α) (i : Fin r.count) :
    some (r.get i) = r.slots[r.pos i]? := by
  simp [get]

/-- The slots from `head` on hold the elements of `l`. -/
theorem toList_eq {l : List α} (hlen : r.count = l.length)
    (h : ∀ i < l.length, r.slots[r.pos i]? = l[i]?) : r.toList = l := by
  apply List.ext_getElem?
  intro i
  by_cases hi : i < l.length
  · rw [getElem?_toList r (hlen ▸ hi), get_eq_slots, h i hi]
  · rw [List.getElem?_eq_none (by rw [length_toList]; omega), List.getElem?_eq_none (by omega)]

/-- A ring whose slots are the elements of `l`, all live. -/
def ofList (l : List α) : SlotRing α := ⟨l, 0, l.length, Nat.le_refl _⟩

@[simp] theorem toList_ofList (l : List α) : (ofList l).toList = l := by
  refine toList_eq rfl fun i hi => ?_
  simp [ofList, pos, Nat.mod_eq_of_lt hi]

/-- Move the live elements to the front of `n` slots, the rest filled with `d`. -/
def grow (r : SlotRing α) (n : ℕ) (d : α) : SlotRing α :=
  ⟨r.toList ++ List.replicate (n - r.count) d, 0, r.count, by simp⟩

@[simp] theorem toList_grow (r : SlotRing α) (n : ℕ) (d : α) :
    (r.grow n d).toList = r.toList := by
  refine toList_eq (length_toList r).symm fun i hi => ?_
  have hlen : i < (r.toList ++ List.replicate (n - r.count) d).length := by
    rw [List.length_append]
    omega
  simp only [grow, pos, Nat.zero_add, Nat.mod_eq_of_lt hlen]
  rw [List.getElem?_append_left hi]

theorem length_slots_grow (r : SlotRing α) {n : ℕ} (d : α) (h : r.count ≤ n) :
    (r.grow n d).slots.length = n := by
  simp [grow, h]

/-- Write `x` to the slot after the newest element. -/
def pushBack (r : SlotRing α) (x : α) (h : r.count < r.slots.length) : SlotRing α :=
  ⟨r.slots.set (r.pos r.count) x, r.head, r.count + 1, by
    simpa [Nat.succ_le_iff] using h⟩

/-- Slots of distinct offsets below the slot count are distinct. -/
theorem pos_ne {i n : ℕ} (hi : i < n) (hn : n < r.slots.length) :
    r.pos i ≠ r.pos n := by
  intro he
  have hmod : (r.head + n) % r.slots.length = (r.head + i) % r.slots.length := he.symm
  have hd : r.slots.length ∣ (r.head + n) - (r.head + i) :=
    Nat.dvd_of_mod_eq_zero (Nat.sub_mod_eq_zero_of_mod_eq hmod)
  have : (r.head + n) - (r.head + i) = 0 := Nat.eq_zero_of_dvd_of_lt hd (by omega)
  omega

@[simp] theorem toList_pushBack (r : SlotRing α) (x : α) (h : r.count < r.slots.length) :
    (r.pushBack x h).toList = r.toList ++ [x] := by
  refine toList_eq (by simp [pushBack]) fun i hi => ?_
  have hpos : ∀ j, (r.pushBack x h).pos j = r.pos j := by simp [pushBack, pos]
  rw [hpos]
  rcases Nat.lt_succ_iff_lt_or_eq.mp (by simpa using hi) with hi | rfl
  · -- an older element: its slot is not the one written
    rw [List.getElem?_append_left (by simpa using hi), getElem?_toList r hi, get_eq_slots]
    exact List.getElem?_set_ne (pos_ne hi h).symm
  · rw [List.getElem?_append_right (by simp)]
    simp [pushBack, pos_lt (Nat.zero_lt_of_lt h)]

/-- Step over the oldest element. -/
def popFront (r : SlotRing α) : SlotRing α :=
  ⟨r.slots, (r.head + 1) % r.slots.length, r.count - 1, (Nat.sub_le _ _).trans r.count_le⟩

theorem toList_popFront (r : SlotRing α) : r.popFront.toList = r.toList.tail := by
  refine toList_eq (by simp [popFront]) fun i hi => ?_
  have hi : i + 1 < r.count := by
    rw [List.length_tail, length_toList] at hi
    omega
  have hpos : r.popFront.pos i = r.pos (i + 1) := by
    simp only [popFront, pos, Nat.mod_add_mod]
    congr 1
    omega
  rw [List.getElem?_tail, hpos, getElem?_toList r hi, get_eq_slots]
  rfl

end SlotRing
