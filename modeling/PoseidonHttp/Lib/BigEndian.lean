import Mathlib.Data.UInt

/-!
# Big-endian numbers

A natural number in a given number of bytes, most significant byte first. A number
that does not fit is cut to its low bytes, as a conversion to a narrower machine
integer cuts it.
-/

namespace BigEndian

/-- The low `width` bytes of a number. -/
def encode : ℕ → ℕ → List UInt8
  | 0, _ => []
  | width + 1, n => encode width (n / 256) ++ [UInt8.ofNat n]

def decode (bs : List UInt8) : ℕ := bs.foldl (fun n b => n * 256 + b.toNat) 0

@[simp] theorem length_encode (width n : ℕ) : (encode width n).length = width := by
  induction width generalizing n with
  | zero => rfl
  | succ width ih => simp [encode, ih]

@[simp] theorem decode_nil : decode [] = 0 := rfl

@[simp] theorem decode_concat (bs : List UInt8) (b : UInt8) :
    decode (bs ++ [b]) = decode bs * 256 + b.toNat := by
  simp [decode]

theorem decode_encode (width n : ℕ) : decode (encode width n) = n % 256 ^ width := by
  induction width generalizing n with
  | zero => simp [encode, Nat.mod_one]
  | succ width ih =>
    have hbyte : (UInt8.ofNat n).toNat = n % 256 := by simp
    rw [encode, decode_concat, ih, Nat.pow_succ, Nat.mul_comm (256 ^ width), Nat.mod_mul]
    omega

/-- A number that fits comes back. -/
theorem decode_encode_of_lt {width n : ℕ} (h : n < 256 ^ width) : decode (encode width n) = n := by
  rw [decode_encode, Nat.mod_eq_of_lt h]

/-- The most significant byte comes first. -/
theorem encode_succ (width n : ℕ) :
    encode (width + 1) n = UInt8.ofNat (n / 256 ^ width) :: encode width n := by
  induction width generalizing n with
  | zero => simp [encode]
  | succ width ih =>
    rw [encode, ih, encode, Nat.div_div_eq_div_mul, Nat.mul_comm 256]
    rfl

theorem decode_cons (b : UInt8) (bs : List UInt8) :
    decode (b :: bs) = b.toNat * 256 ^ bs.length + decode bs := by
  induction bs using List.reverseRecOn with
  | nil => simp [decode]
  | append_singleton bs c ih =>
    rw [← List.cons_append, decode_concat, ih, decode_concat, List.length_append,
      List.length_singleton, Nat.pow_succ, Nat.add_mul, Nat.mul_assoc, Nat.add_assoc]

theorem decode_lt (bs : List UInt8) : decode bs < 256 ^ bs.length := by
  induction bs using List.reverseRecOn with
  | nil => simp
  | append_singleton bs b ih =>
    have hb := b.toNat_lt
    rw [decode_concat, List.length_append, List.length_singleton, Nat.pow_succ]
    omega

end BigEndian
