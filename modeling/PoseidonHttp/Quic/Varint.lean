import PoseidonHttp.Quic.Types
import PoseidonHttp.Lib.BigEndian

/-!
# Variable-length integers

`internal/bytesx/varint.go`. The two high bits of the first byte say how many bytes the number
takes: one, two, four or eight. `readV_appendV`: a number of at most 62 bits is read back, with
the bytes after it left over.
-/

namespace Quic

open Header (Bytes)

def varintLen (v : ℕ) : ℕ :=
  if v ≤ 63 then 1 else if v ≤ 16383 then 2 else if v ≤ 2 ^ 30 - 1 then 4 else 8

/-- The low `width` bytes of a number, with a tag in the first byte. -/
def tagged (width : ℕ) (tag : UInt8) (v : ℕ) : Bytes :=
  match BigEndian.encode width v with
  | [] => []
  | b :: bs => (b ||| tag) :: bs

/-- The bytes `WriteVarint` writes. -/
def writeVarint (v : ℕ) : Bytes :=
  if v ≤ 63 then [UInt8.ofNat v]
  else if v ≤ 16383 then tagged 2 0x40 v
  else if v ≤ 2 ^ 30 - 1 then tagged 4 0x80 v
  else tagged 8 0xc0 v

/-- The big-endian word in the first `width` bytes, without its two high bits; `(0, 0)` if
there are not that many. -/
def readTagged (width : ℕ) (b : Bytes) : ℕ × ℕ :=
  if b.length < width then (0, 0)
  else (BigEndian.decode (b.take width) % 2 ^ (8 * width - 2), width)

/-- `ReadVarint`: the value and the number of bytes it takes, `(0, 0)` for an incomplete one. -/
def readVarint : Bytes → ℕ × ℕ
  | [] => (0, 0)
  | b :: bs =>
    if b >>> 6 = 0 then (b.toNat, 1)
    else if b >>> 6 = 1 then readTagged 2 (b :: bs)
    else if b >>> 6 = 2 then readTagged 4 (b :: bs)
    else readTagged 8 (b :: bs)

/-- `appendV`, as the bytes it appends. -/
def appendV (v : ℕ) : Bytes := writeVarint v

/-- `readV`: the value and the bytes after it. -/
def readV (src : Bytes) : Option (ℕ × Bytes) :=
  let (x, n) := readVarint src
  if n = 0 then none else some (x, src.drop n)

/-! ## What is written is read -/

theorem shiftRight_six (b : UInt8) : (b >>> 6).toNat = b.toNat / 64 := by
  exact Nat.shiftRight_eq_div_pow _ 6

theorem shiftRight_six_eq {b : UInt8} {t : UInt8} : b >>> 6 = t ↔ b.toNat / 64 = t.toNat := by
  rw [← UInt8.toNat_inj, shiftRight_six]

/-- A tag that is a multiple of 64 adds to a first byte below 64. -/
theorem or_tag {b tag : UInt8} {t : ℕ} (ht : tag.toNat = 64 * t) (hb : b.toNat < 64) :
    (b ||| tag).toNat = b.toNat + 64 * t := by
  rw [UInt8.toNat_or, ht, Nat.or_comm, Nat.mul_comm 64 t, Nat.add_comm]
  have hshift := Nat.shiftLeft_add_eq_or_of_lt (a := t) (i := 6) hb
  rw [Nat.shiftLeft_eq] at hshift
  exact hshift.symm

/-- A number written under a tag: the first byte shows the tag, and the number is what is left
of the word without it. -/
theorem tagged_spec {k t v : ℕ} {tag : UInt8} (ht : tag.toNat = 64 * t)
    (hv : v < 64 * 256 ^ k) :
    ∃ b bs, tagged (k + 1) tag v = b :: bs ∧ b.toNat / 64 = t ∧ bs.length = k ∧
      BigEndian.decode (b :: bs) % 2 ^ (8 * (k + 1) - 2) = v := by
  have hpos : 0 < 256 ^ k := Nat.pow_pos (by decide)
  have hfirst : v / 256 ^ k < 64 := by
    rw [Nat.div_lt_iff_lt_mul hpos]
    exact hv
  have hbyte : (UInt8.ofNat (v / 256 ^ k)).toNat = v / 256 ^ k := by
    exact Nat.mod_eq_of_lt (by omega)
  have hor := or_tag ht (b := UInt8.ofNat (v / 256 ^ k)) (by omega)
  refine ⟨UInt8.ofNat (v / 256 ^ k) ||| tag, BigEndian.encode k v, ?_, ?_, ?_, ?_⟩
  · rw [tagged, BigEndian.encode_succ]
  · omega
  · exact BigEndian.length_encode k v
  · rw [BigEndian.decode_cons, hor, hbyte, BigEndian.length_encode, BigEndian.decode_encode,
      Nat.add_mul, Nat.add_right_comm, Nat.mul_comm (v / 256 ^ k), Nat.div_add_mod]
    have hmod : 2 ^ (8 * (k + 1) - 2) = 64 * 256 ^ k := by
      rw [show 8 * (k + 1) - 2 = 6 + 8 * k by omega, Nat.pow_add, Nat.pow_mul]
    rw [hmod, Nat.mul_right_comm, Nat.add_mul_mod_self_left, Nat.mod_eq_of_lt hv]

/-- The tag `t` of the first byte selects the width it was written with. -/
theorem readVarint_tagged {k t v : ℕ} {tag : UInt8} (ht : tag.toNat = 64 * t)
    (hv : v < 64 * 256 ^ k) (rest : Bytes)
    (hsel : ∀ b bs, b.toNat / 64 = t → readVarint (b :: bs) = readTagged (k + 1) (b :: bs)) :
    readVarint (tagged (k + 1) tag v ++ rest) = (v, k + 1) ∧
      (tagged (k + 1) tag v).length = k + 1 := by
  obtain ⟨b, bs, heq, htag, hlen, hval⟩ := tagged_spec ht hv
  have hlen' : (b :: bs).length = k + 1 := by rw [List.length_cons, hlen]
  rw [heq]
  refine ⟨?_, hlen'⟩
  rw [List.cons_append, hsel b (bs ++ rest) htag, ← List.cons_append]
  have hge : ¬ (b :: bs ++ rest).length < k + 1 := by rw [List.length_append]; omega
  rw [readTagged, if_neg hge, List.take_left' hlen', hval]

theorem readVarint_writeVarint {v : ℕ} (h : v ≤ maxVarint) (rest : Bytes) :
    readVarint (writeVarint v ++ rest) = (v, varintLen v) ∧
      (writeVarint v).length = varintLen v := by
  have hmax : maxVarint = 2 ^ 62 - 1 := rfl
  unfold writeVarint varintLen
  split_ifs
  · have hbyte : (UInt8.ofNat v).toNat = v := by
      exact Nat.mod_eq_of_lt (by omega)
    have hzero : UInt8.ofNat v >>> 6 = 0 := by
      rw [shiftRight_six_eq]
      exact Nat.div_eq_of_lt (by omega)
    refine ⟨?_, rfl⟩
    simp only [List.singleton_append, readVarint, hzero, if_true, hbyte]
  · refine readVarint_tagged (t := 1) rfl (by omega) rest fun b bs ht => ?_
    simp [readVarint, shiftRight_six_eq, ht]
  · refine readVarint_tagged (t := 2) rfl (by omega) rest fun b bs ht => ?_
    simp [readVarint, shiftRight_six_eq, ht]
  · refine readVarint_tagged (t := 3) rfl (by omega) rest fun b bs ht => ?_
    simp [readVarint, shiftRight_six_eq, ht]

/-- A number of at most 62 bits is read back. -/
theorem readV_appendV {v : ℕ} (h : v ≤ maxVarint) (rest : Bytes) :
    readV (appendV v ++ rest) = some (v, rest) := by
  rcases readVarint_writeVarint h rest with ⟨hread, hlen⟩
  have hpos : (writeVarint v).length ≠ 0 := by
    rw [hlen, varintLen]
    split_ifs <;> decide
  rw [hlen] at hpos
  simp only [readV, appendV, hread, if_neg hpos, List.drop_left' hlen]

/-! ## Reading from a string that goes on -/

theorem readTagged_le (width : ℕ) (b : Bytes) : (readTagged width b).2 ≤ b.length := by
  unfold readTagged
  split_ifs
  · exact Nat.zero_le _
  · omega

theorem readVarint_le (src : Bytes) : (readVarint src).2 ≤ src.length := by
  cases src with
  | nil => exact Nat.le_refl 0
  | cons b bs =>
    simp only [readVarint]
    split_ifs
    · exact Nat.succ_le_succ (Nat.zero_le _)
    all_goals exact readTagged_le _ _

theorem readTagged_append_of_ne {width : ℕ} {b : Bytes} (h : (readTagged width b).2 ≠ 0) (t : Bytes) :
    readTagged width (b ++ t) = readTagged width b := by
  unfold readTagged at h ⊢
  split_ifs at h with hlt
  · exact absurd rfl h
  · rw [if_neg (by rw [List.length_append]; omega), if_neg hlt,
      List.take_append_of_le_length (Nat.not_lt.mp hlt)]

/-- A number that is complete is read the same when more follows. -/
theorem readVarint_append {b : Bytes} (h : (readVarint b).2 ≠ 0) (t : Bytes) :
    readVarint (b ++ t) = readVarint b := by
  cases b with
  | nil => exact absurd rfl h
  | cons c cs =>
    simp only [List.cons_append, readVarint] at h ⊢
    split_ifs at h ⊢
    · rfl
    all_goals exact readTagged_append_of_ne h t

end Quic
