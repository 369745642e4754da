import PoseidonHttp.Lib.Modify

/-!
# Masking bytes in place

`xorAt buf i mask` is `buf` after `buf[i+k] ^= mask[k]` for every byte of the mask. Where the
mask lies within the buffer, the bytes under it are combined with it one by one, the others
stay, and doing it twice undoes it.
-/

namespace XorMask

/-- Two blocks combined byte by byte. -/
def xor (xs ms : List UInt8) : List UInt8 := List.zipWith (· ^^^ ·) xs ms

def xorAt (buf : List UInt8) (i : ℕ) : List UInt8 → List UInt8
  | [] => buf
  | m :: ms => xorAt (buf.modify i (· ^^^ m)) (i + 1) ms

theorem xor_cancel (x m : UInt8) : (x ^^^ m) ^^^ m = x := by
  rw [UInt8.xor_assoc, UInt8.xor_self, UInt8.xor_zero]

/-- Bits that the mask leaves alone. -/
theorem xor_and_of_disjoint {x m k : UInt8} (h : m &&& k = 0) : (x ^^^ m) &&& k = x &&& k := by
  apply UInt8.toBitVec_inj.mp
  apply BitVec.eq_of_getLsbD_eq
  intro i hi
  have hbit : (m &&& k).toBitVec.getLsbD i = false := by rw [h]; simp
  simp only [UInt8.toBitVec_and, UInt8.toBitVec_xor, BitVec.getLsbD_and,
    BitVec.getLsbD_xor]
  cases hk : k.toBitVec.getLsbD i with
  | false => simp
  | true =>
    have hm : m.toBitVec.getLsbD i = false := by simpa [hk] using hbit
    simp [hm]

@[simp] theorem length_xor (xs ms : List UInt8) :
    (xor xs ms).length = min xs.length ms.length := List.length_zipWith

theorem xor_xor {xs ms : List UInt8} (h : xs.length = ms.length) : xor (xor xs ms) ms = xs := by
  induction xs generalizing ms with
  | nil => simp [xor]
  | cons x xs ih =>
    cases ms with
    | nil => simp at h
    | cons m ms =>
      have htail : xor (xor xs ms) ms = xs := ih (by simpa using h)
      simp only [xor, List.zipWith_cons_cons, xor_cancel] at htail ⊢
      rw [htail]

/-- A block is told by what it makes of a mask of its length. -/
theorem xor_left_injective {xs ys ms : List UInt8} (hx : xs.length = ms.length)
    (hy : ys.length = ms.length) (h : xor ms xs = xor ms ys) : xs = ys := by
  have hcomm : ∀ zs, xor ms zs = xor zs ms := by
    intro zs
    exact List.zipWith_comm_of_comm fun a b => UInt8.xor_comm a b
  rw [hcomm, hcomm] at h
  rw [← xor_xor hx, h, xor_xor hy]

/-- The bytes under the mask change, and the others stay. -/
theorem xorAt_append {xs ms : List UInt8} (h : xs.length = ms.length) (pre post : List UInt8) :
    xorAt (pre ++ (xs ++ post)) pre.length ms = pre ++ (xor xs ms ++ post) := by
  induction ms generalizing pre xs with
  | nil =>
    cases xs with
    | nil => rfl
    | cons x xs => simp at h
  | cons m ms ih =>
    cases xs with
    | nil => simp at h
    | cons x xs =>
      have hlen : xs.length = ms.length := by simpa using h
      have htail := ih hlen (pre ++ [x ^^^ m])
      rw [List.length_append] at htail
      rw [xorAt, List.cons_append, Modify.modify_append]
      simpa [xor] using htail

end XorMask
