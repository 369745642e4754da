import Mathlib.Data.List.Basic

/-!
# Slices of a list, and copying into one

`slice l lo hi` is `l[lo:hi]`, and `copyAt buf i src` is `buf` after `copy(buf[i:], src)`:
the copy stops at the end of the shorter of the two. Positions are compared one by one, so
most facts come from the two `getElem?` lemmas.
-/

namespace Slice

universe u

variable {α : Type u}

def slice (l : List α) (lo hi : ℕ) : List α := (l.drop lo).take (hi - lo)

def copyAt (buf : List α) (i : ℕ) (src : List α) : List α :=
  buf.take i ++ (src.take (buf.length - i) ++ buf.drop (i + src.length))

theorem length_slice {l : List α} {lo hi : ℕ} (h : hi ≤ l.length) :
    (slice l lo hi).length = hi - lo := by
  rw [slice, List.length_take, List.length_drop]
  omega

theorem getElem?_slice (l : List α) (lo hi k : ℕ) :
    (slice l lo hi)[k]? = if lo + k < hi then l[lo + k]? else none := by
  rw [slice, List.getElem?_take, List.getElem?_drop]
  split_ifs <;> first | rfl | omega

theorem take_append_slice (l : List α) {m n : ℕ} (h : m ≤ n) :
    l.take m ++ slice l m n = l.take n := by
  obtain ⟨d, rfl⟩ := Nat.exists_eq_add_of_le h
  rw [slice, Nat.add_sub_cancel_left, List.take_add]

theorem slice_append_slice (l : List α) {a b c : ℕ} (hab : a ≤ b) (hbc : b ≤ c) :
    slice l a b ++ slice l b c = slice l a c := by
  apply (List.append_right_inj (l.take a)).mp
  rw [← List.append_assoc, take_append_slice l hab, take_append_slice l hbc,
    take_append_slice l (Nat.le_trans hab hbc)]

theorem drop_slice (l : List α) (lo hi k : ℕ) :
    (slice l lo hi).drop k = slice l (lo + k) hi := by
  rw [slice, slice, List.drop_take, List.drop_drop, Nat.sub_add_eq]

theorem getElem?_copyAt {buf : List α} {i : ℕ} (src : List α) (hi : i ≤ buf.length) (k : ℕ) :
    (copyAt buf i src)[k]? =
      if i ≤ k ∧ k < i + src.length ∧ k < buf.length then src[k - i]? else buf[k]? := by
  have hlen : (buf.take i).length = i := by rw [List.length_take]; omega
  rw [copyAt]
  by_cases hk : k < i
  · rw [List.getElem?_append_left (by omega), List.getElem?_take_of_lt hk, if_neg (by omega)]
  rw [List.getElem?_append_right (by omega), hlen]
  have htake : (src.take (buf.length - i)).length = min (buf.length - i) src.length :=
    List.length_take
  by_cases hin : k < i + src.length ∧ k < buf.length
  · rw [if_pos ⟨by omega, hin⟩, List.getElem?_append_left (by omega),
      List.getElem?_take_of_lt (by omega)]
  · rw [if_neg (fun h => hin h.2), List.getElem?_append_right (by omega), htake,
      List.getElem?_drop]
    -- past the source the old element stays, past the buffer there is none
    by_cases hend : k < buf.length
    · congr 1
      omega
    · rw [List.getElem?_eq_none (by omega), List.getElem?_eq_none (by omega)]

/-- A buffer that has room keeps its length. -/
theorem length_copyAt {buf : List α} {i : ℕ} (src : List α) (hi : i ≤ buf.length) :
    (copyAt buf i src).length = buf.length := by
  rw [copyAt, List.length_append, List.length_append, List.length_take, List.length_take,
    List.length_drop]
  omega

/-- Two slices that overlap or touch, copied into one buffer, are the slice over both. -/
theorem copyAt_slices {l : List α} {lo hi lo' hi' : ℕ} (z : α) (h : lo ≤ hi) (h' : lo' ≤ hi')
    (hlo : lo ≤ hi') (hlo' : lo' ≤ hi) (hle : hi ≤ l.length) (hle' : hi' ≤ l.length) :
    copyAt (copyAt (List.replicate (max hi hi' - min lo lo') z) (lo - min lo lo') (slice l lo hi))
      (lo' - min lo lo') (slice l lo' hi') = slice l (min lo lo') (max hi hi') := by
  have hbuf : (List.replicate (max hi hi' - min lo lo') z).length = max hi hi' - min lo lo' :=
    List.length_replicate
  have hfits : lo - min lo lo' ≤ (List.replicate (max hi hi' - min lo lo') z).length := by omega
  have hinner := length_copyAt (slice l lo hi) hfits
  apply List.ext_getElem?
  intro k
  rw [getElem?_copyAt _ (by omega), getElem?_copyAt _ hfits, hinner, hbuf, length_slice hle,
    length_slice hle', getElem?_slice, getElem?_slice, getElem?_slice, List.getElem?_replicate]
  split_ifs <;> first | rfl | omega | (congr 1; omega)

end Slice
