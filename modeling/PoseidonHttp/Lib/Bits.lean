import Mathlib.Data.UInt

/-!
# Bit strings of numbers and bytes

`bits k v` is the `k` low bits of `v`, most significant first; `ofBytes` is the
bit string of a byte string. The lemmas say what shifting, masking and
concatenating words do to their bits, as a bit writer uses them.
-/

namespace Bits

/-- The `k` low bits of `v`, most significant first. -/
def bits : ℕ → ℕ → List Bool
  | 0, _ => []
  | k + 1, v => v.testBit k :: bits k v

@[simp] theorem length_bits (k v : ℕ) : (bits k v).length = k := by
  induction k with
  | zero => rfl
  | succ k ih => simp [bits, ih]

theorem bits_congr {k v v' : ℕ} (h : ∀ i < k, v.testBit i = v'.testBit i) :
    bits k v = bits k v' := by
  induction k with
  | zero => rfl
  | succ k ih =>
    simp only [bits, h k (Nat.lt_succ_self k), List.cons.injEq, true_and]
    exact ih fun i hi => h i (Nat.lt_succ_of_lt hi)

/-- The high `j` and the low `k` of `j + k` bits. -/
theorem bits_add (j k v : ℕ) : bits (j + k) v = bits j (v >>> k) ++ bits k v := by
  induction j with
  | zero => simp [bits]
  | succ j ih =>
    rw [Nat.succ_add]
    simp only [bits, ih, List.cons_append, Nat.testBit_shiftRight, Nat.add_comm k j]

theorem bits_mod (k v : ℕ) {w : ℕ} (h : k ≤ w) : bits k (v % 2 ^ w) = bits k v := by
  refine bits_congr fun i hi => ?_
  rw [Nat.testBit_mod_two_pow]
  simp [show i < w by omega]

/-- Below `2^k` a number is determined by its `k` bits. -/
theorem bits_inj {k v w : ℕ} (hv : v < 2 ^ k) (hw : w < 2 ^ k) (h : bits k v = bits k w) :
    v = w := by
  have hbits : ∀ i < k, v.testBit i = w.testBit i := by
    clear hv hw
    induction k with
    | zero => simp
    | succ k ih =>
      simp only [bits, List.cons.injEq] at h
      intro i hi
      rcases Nat.lt_succ_iff_lt_or_eq.mp hi with hi | rfl
      · exact ih h.2 i hi
      · exact h.1
  apply Nat.eq_of_testBit_eq
  intro i
  rcases Nat.lt_or_ge i k with hi | hi
  · exact hbits i hi
  · have hpow : 2 ^ k ≤ 2 ^ i := Nat.pow_le_pow_right (by decide) hi
    rw [Nat.testBit_lt_two_pow (hv.trans_le hpow), Nat.testBit_lt_two_pow (hw.trans_le hpow)]

/-- A number whose bits start with those of `v` has `v` as its high part. -/
theorem eq_shiftRight_of_prefix {k m v w : ℕ} (hv : v < 2 ^ k) (hw : w < 2 ^ m)
    (h : bits k v <+: bits m w) : k ≤ m ∧ v = w >>> (m - k) := by
  have hkm : k ≤ m := by simpa using h.length_le
  refine ⟨hkm, ?_⟩
  obtain ⟨d, rfl⟩ := Nat.exists_eq_add_of_le hkm
  rw [Nat.add_sub_cancel_left]
  rw [bits_add] at h
  have hpre : bits k v <+: bits k (w >>> d) :=
    List.prefix_of_prefix_length_le h (List.prefix_append _ _) (by simp)
  have heq : bits k v = bits k (w >>> d) := hpre.eq_of_length (by simp)
  refine bits_inj hv ?_ heq
  rw [Nat.shiftRight_eq_div_pow, Nat.div_lt_iff_lt_mul (Nat.two_pow_pos d), ← Nat.pow_add]
  exact hw

/-- Shift `c` in from the right of a `w`-bit word. -/
theorem bits_shiftIn {j k v c w : ℕ} (hc : c < 2 ^ k) (hw : j + k ≤ w) :
    bits (j + k) ((v <<< k ||| c) % 2 ^ w) = bits j v ++ bits k c := by
  rw [bits_mod _ _ hw, bits_add]
  congr 1
  · refine bits_congr fun i hi => ?_
    have hci : c.testBit (k + i) = false :=
      Nat.testBit_lt_two_pow (hc.trans_le (Nat.pow_le_pow_right (by decide) (by omega)))
    simp [Nat.testBit_shiftRight, Nat.testBit_or, Nat.testBit_shiftLeft, hci]
  · refine bits_congr fun i hi => ?_
    simp [Nat.testBit_or, Nat.testBit_shiftLeft, show ¬ k ≤ i by omega]

theorem bits_ones (k : ℕ) : bits k (2 ^ k - 1) = List.replicate k true := by
  apply List.eq_replicate_iff.mpr
  refine ⟨length_bits _ _, ?_⟩
  suffices h : ∀ j ≤ k, ∀ b ∈ bits j (2 ^ k - 1), b = true from h k le_rfl
  intro j
  induction j with
  | zero => simp [bits]
  | succ j ih =>
    intro hj b hb
    rcases List.mem_cons.mp hb with rfl | hb
    · rw [Nat.testBit_two_pow_sub_one]
      exact decide_eq_true (by omega)
    · exact ih (by omega) b hb

/-- The bits of a byte string. -/
def ofBytes (l : List UInt8) : List Bool := l.flatMap fun b => bits 8 b.toNat

@[simp] theorem ofBytes_nil : ofBytes [] = [] := rfl

@[simp] theorem ofBytes_cons (b : UInt8) (l : List UInt8) :
    ofBytes (b :: l) = bits 8 b.toNat ++ ofBytes l := rfl

@[simp] theorem ofBytes_append (l l' : List UInt8) :
    ofBytes (l ++ l') = ofBytes l ++ ofBytes l' := by
  simp [ofBytes]

theorem length_ofBytes (l : List UInt8) : (ofBytes l).length = 8 * l.length := by
  induction l with
  | nil => rfl
  | cons b l ih =>
    simp only [ofBytes_cons, List.length_append, length_bits, ih, List.length_cons]
    omega

/-- A word cut down to a byte keeps its low eight bits. -/
theorem bits_byte (v : ℕ) : bits 8 (UInt8.ofNat v).toNat = bits 8 v := by
  rw [UInt8.toNat_ofNat']
  exact bits_mod 8 v le_rfl

/-- The two halves of a byte. -/
theorem bits_nibbles (b : ℕ) : bits 8 b = bits 4 (b >>> 4) ++ bits 4 b :=
  bits_add 4 4 b

end Bits
