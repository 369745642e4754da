import PoseidonHttp.Hpack.StringLiteral

/-!
# QPACK integers and string literals

Prefix integers are read up to 2^62 - 1. A string literal has its Huffman flag
right above a length prefix of any width; it is Huffman-coded when that is
strictly shorter. The two readers of the source differ only in what they make of
a literal that is not all there: `scanLiteral` is what they share, `readInstrString`
waits for more bytes, `readString` fails.

* `prefixIntegers_exact`: what the integer readers of HPACK and QPACK accept.
* `scanLiteral_encodeStringLiteral`: what was written is read back, whatever follows.
* `scanLiteral_stands`: an answer other than that it is short stands whatever follows.
-/

namespace Qpack

open Header (Bytes)
open Hpack (encodeInteger huffmanEncode huffmanEncodedLen huffmanDecode)

/-- The error conditions of the package. -/
inductive Error where
  | decompressionFailed
  | encoderStream
  | decoderStream
  deriving DecidableEq, Repr

/-- The ceiling of a QPACK prefix integer. -/
def maxQPACKInteger : ℕ := 2 ^ 62 - 1

/-- `decodeInt`. -/
def decodeInt (src : Bytes) (prefixBits : ℕ) : Except Hpack.Error (ℕ × ℕ) :=
  Hpack.decodeIntegerMax src prefixBits maxQPACKInteger

/-- The bytes `encodeStringLiteral` appends. -/
def encodeStringLiteral (s : Bytes) (prefixBits : ℕ) (baseByte : UInt8) : Bytes :=
  let hBit := UInt8.ofNat (2 ^ prefixBits)
  if huffmanEncodedLen s < s.length then
    encodeInteger prefixBits (baseByte ||| hBit) (huffmanEncodedLen s) ++ huffmanEncode s
  else encodeInteger prefixBits baseByte s.length ++ s

/-- The bytes `encodeLiteralName` appends: a string with a 3-bit prefix, marked
when the field is sensitive. -/
def encodeLiteralName (name : Bytes) (sensitive : Bool) : Bytes :=
  encodeStringLiteral name 3 (if sensitive then 0x30 else 0x20)

/-- A string literal at the front of some bytes: not all there, malformed, or the
string and the bytes it took. -/
inductive Literal where
  | short
  | malformed
  | ok (s : Bytes) (n : ℕ)
  deriving DecidableEq

/-- Read a string literal whose flag is bit `prefixBits`. -/
def scanLiteral (src : Bytes) (prefixBits : ℕ) : Literal :=
  match src with
  | [] => .short
  | b :: _ =>
    match decodeInt src prefixBits with
    | .error e => if e = .truncated then .short else .malformed
    | .ok (length, n) =>
      if src.length - n < length then .short
      else
        let raw := (src.drop n).take length
        if b &&& UInt8.ofNat (2 ^ prefixBits) = 0 then .ok raw (n + length)
        else match huffmanDecode raw with
          | .error _ => .malformed
          | .ok s => .ok s (n + length)

/-! ## The shape of a written literal -/

/-- The pattern bits of a literal leave room for the flag and the length. -/
structure Shape (k : ℕ) (base : UInt8) : Prop where
  le : k ≤ 7
  low : base.toNat % 2 ^ (k + 1) = 0

theorem shape_value : Shape 7 0x00 := ⟨by decide, by decide⟩

theorem shape_instrName : Shape 5 0x40 := ⟨by decide, by decide⟩

theorem shape_lineName (sensitive : Bool) : Shape 3 (if sensitive then 0x30 else 0x20) := by
  cases sensitive
  · exact ⟨by decide, by decide⟩
  · exact ⟨by decide, by decide⟩

variable {k : ℕ} {base : UInt8} {src : Bytes}

theorem flag_eq_zero_iff (b : UInt8) (hk : k ≤ 7) :
    b &&& UInt8.ofNat (2 ^ k) = 0 ↔ b.toNat / 2 ^ k % 2 = 0 := by
  have hpow : 2 ^ k ≤ 2 ^ 7 := Nat.pow_le_pow_right (by decide) hk
  rw [← UInt8.toNat_inj, UInt8.toNat_and, Hpack.toNat_ofNat_of_lt (by omega), Nat.and_two_pow,
    Nat.testBit_eq_decide_div_mod_eq]
  rcases Nat.mod_two_eq_zero_or_one (b.toNat / 2 ^ k) with h | h <;> simp [h]

/-- The two first bytes a literal can have, without and with the flag. -/
theorem Shape.flagged (h : Shape k base) :
    (base ||| UInt8.ofNat (2 ^ k)).toNat = base.toNat + 2 ^ k ∧
      (base ||| UInt8.ofNat (2 ^ k)).toNat % 2 ^ k = 0 ∧ base.toNat % 2 ^ k = 0 := by
  have hpow : (2 : ℕ) ^ (k + 1) = 2 * 2 ^ k := by rw [Nat.pow_succ, Nat.mul_comm]
  have hpos := Nat.two_pow_pos k
  have hsum : (base ||| UInt8.ofNat (2 ^ k)).toNat = base.toNat + 2 ^ k :=
    Hpack.or_low_toNat h.low (Nat.succ_le_succ h.le) (by omega)
  have hbase : base.toNat % 2 ^ k = 0 :=
    Nat.mod_eq_zero_of_dvd ((Dvd.intro_left 2 hpow.symm).trans (Nat.dvd_of_mod_eq_zero h.low))
  exact ⟨hsum, by rw [hsum, Nat.add_mod_right]; exact hbase, hbase⟩

/-- The flag bit of the first byte, for a body written with or without it. -/
theorem Shape.flag_iff (h : Shape k base) {b : UInt8} {v : ℕ} (hv : v < 2 ^ k) (huff : Bool)
    (hb : b.toNat = (if huff then base ||| UInt8.ofNat (2 ^ k) else base).toNat + v) :
    b &&& UInt8.ofNat (2 ^ k) = 0 ↔ huff = false := by
  obtain ⟨q, hq⟩ := Nat.dvd_of_mod_eq_zero h.low
  have hpow : (2 : ℕ) ^ (k + 1) = 2 ^ k * 2 := Nat.pow_succ 2 k
  rw [flag_eq_zero_iff b h.le, hb]
  have hpos := Nat.two_pow_pos k
  cases huff with
  | false =>
    have hdiv : (base.toNat + v) / 2 ^ k = 2 * q := by
      rw [hq, hpow, Nat.mul_assoc, Nat.mul_add_div hpos, Nat.div_eq_of_lt hv, Nat.add_zero]
    simp [hdiv]
  | true =>
    have hdiv : (base.toNat + 2 ^ k + v) / 2 ^ k = 2 * q + 1 := by
      rw [hq, hpow, Nat.mul_assoc, show 2 ^ k * (2 * q) + 2 ^ k + v = 2 ^ k * (2 * q + 1) + v by ring,
        Nat.mul_add_div hpos, Nat.div_eq_of_lt hv, Nat.add_zero]
    have hodd : (2 * q + 1) % 2 = 1 := by omega
    simp [h.flagged.1, hdiv, hodd]

/-! ## Reading -/

theorem decodeInt_encodeInteger {n i : ℕ} {p : UInt8} (rest : Bytes) (hn : n ≤ 8)
    (hp : p.toNat % 2 ^ n = 0) (hi : i < 2 ^ 62) :
    decodeInt (encodeInteger n p i ++ rest) n = .ok (i, (encodeInteger n p i).length) :=
  Hpack.decodeIntegerWith_encodeInteger rest hn hp (by decide) (by decide) (by decide)
    (by simp only [maxQPACKInteger]; omega)

/-- An answer other than truncation stands whatever bytes follow. -/
theorem decodeInt_append {n : ℕ} (more : Bytes)
    (h : decodeInt src n ≠ .error .truncated) : decodeInt (src ++ more) n = decodeInt src n :=
  @Hpack.decodeIntegerWith_append src maxQPACKInteger 63 n more h

theorem decodeInt_ok {n i c : ℕ} (h : decodeInt src n = .ok (i, c)) :
    i ≤ maxQPACKInteger ∧ 0 < c ∧ c ≤ src.length :=
  @Hpack.decodeIntegerWith_ok src i maxQPACKInteger 63 n c (by decide) h

/-- Both readers are exact: HPACK reads values up to 2^32 - 1 in at most five
continuation octets, QPACK up to 2^62 - 1 in at most nine, and the `uint64`
arithmetic of neither wraps. -/
theorem prefixIntegers_exact (n : ℕ) (hn : n ≤ 8) :
    Hpack.Exact n (2 ^ 32 - 1) 5 (fun src => Hpack.decodeInteger src n) ∧
      Hpack.Exact n (2 ^ 62 - 1) 9 (fun src => decodeInt src n) ∧
      ∀ src, Hpack.decodeInteger64 src n (2 ^ 32 - 1) 32 = Hpack.decodeInteger src n ∧
        Hpack.decodeInteger64 src n (2 ^ 62 - 1) 63 = decodeInt src n := by
  refine ⟨?_, ?_, ?_⟩
  · have h := @Hpack.decodeIntegerWith_exact (2 ^ 32 - 1) 32 n hn (by decide) (by decide) (by decide)
    exact h
  · have h := @Hpack.decodeIntegerWith_exact (2 ^ 62 - 1) 63 n hn (by decide) (by decide) (by decide)
    exact h
  · intro src
    constructor
    · apply Hpack.decodeInteger64_eq <;> decide
    · apply Hpack.decodeInteger64_eq <;> decide

/-- The integer 1337 with a five-bit prefix, followed by another byte. -/
theorem prefixIntegers_exact_five :
    5 ≤ 8 ∧ Hpack.decodeInteger (encodeInteger 5 0 1337 ++ [0x7f]) 5 = .ok (1337, 3) := by
  have h5 : 5 ≤ 8 := by decide
  exact ⟨h5, (prefixIntegers_exact 5 h5).1.readsBack 0 1337 [0x7f] (by decide) (by decide)⟩

/-- A length and a body under a flag. -/
theorem scanLiteral_append (h : Shape k base) (huff : Bool) {body : Bytes} (rest : Bytes)
    (hlen : body.length < 2 ^ 62) {enc : Bytes}
    (henc : enc = encodeInteger k (if huff then base ||| UInt8.ofNat (2 ^ k) else base)
      body.length ++ body) :
    scanLiteral (enc ++ rest) k =
      if huff then
        match huffmanDecode body with
        | .error _ => .malformed
        | .ok s => .ok s enc.length
      else .ok body enc.length := by
  set p := if huff then base ||| UInt8.ofNat (2 ^ k) else base with hp
  have hk8 : k ≤ 8 := h.le.trans (by decide)
  have hpk : p.toNat % 2 ^ k = 0 := by
    rw [hp]
    split
    · exact h.flagged.2.1
    · exact h.flagged.2.2
  obtain ⟨b, tail, v, hcons, hv, hb⟩ := Hpack.encodeInteger_cons body.length hk8 hpk
  have hdec := decodeInt_encodeInteger (body ++ rest) hk8 hpk hlen
  have hflag := h.flag_iff hv huff hb
  subst henc
  rw [hcons] at hdec ⊢
  have hsrc : b :: tail ++ body ++ rest = b :: (tail ++ (body ++ rest)) := by simp
  rw [hsrc]
  rw [List.cons_append] at hdec
  have hroom : ¬ (b :: (tail ++ (body ++ rest))).length - (b :: tail).length < body.length := by
    simp
  have hraw : ((b :: (tail ++ (body ++ rest))).drop (b :: tail).length).take body.length = body := by
    rw [← List.cons_append, List.drop_left, List.take_left]
  have hend : (b :: tail).length + body.length = (b :: tail ++ body).length := by
    rw [List.length_append]
  simp only [scanLiteral, hdec, if_neg hroom, hraw, hflag, hend]
  cases huff <;> rfl

/-- What `encodeStringLiteral` wrote is read back, whatever follows. -/
theorem scanLiteral_encodeStringLiteral (h : Shape k base) {s : Bytes} (hs : s.length < 2 ^ 62)
    (rest : Bytes) :
    scanLiteral (encodeStringLiteral s k base ++ rest) k =
      .ok s (encodeStringLiteral s k base).length := by
  by_cases hshort : huffmanEncodedLen s < s.length
  · have hdef : encodeStringLiteral s k base =
        encodeInteger k (if true then base ||| UInt8.ofNat (2 ^ k) else base)
          (huffmanEncode s).length ++ huffmanEncode s := by
      simp [encodeStringLiteral, hshort, Hpack.length_huffmanEncode]
    rw [scanLiteral_append h true rest (by rw [Hpack.length_huffmanEncode]; omega) hdef]
    simp [Hpack.huffmanDecode_huffmanEncode]
  · have hdef : encodeStringLiteral s k base =
        encodeInteger k (if false then base ||| UInt8.ofNat (2 ^ k) else base) s.length ++ s := by
      simp [encodeStringLiteral, hshort]
    rw [scanLiteral_append h false rest hs hdef]
    simp

/-- An answer other than `short` stands whatever bytes follow. -/
theorem scanLiteral_stands (more : Bytes) (h : scanLiteral src k ≠ .short) :
    scanLiteral (src ++ more) k = scanLiteral src k := by
  cases src with
  | nil => exact absurd rfl h
  | cons b src =>
    have hint : decodeInt (b :: src) k ≠ .error .truncated := by
      intro htr
      simp [scanLiteral, htr] at h
    have hsame : decodeInt (b :: (src ++ more)) k = decodeInt (b :: src) k := decodeInt_append more hint
    simp only [List.cons_append, scanLiteral, hsame] at h ⊢
    cases hdec : decodeInt (b :: src) k with
    | error e => rfl
    | ok r =>
      obtain ⟨length, c⟩ := r
      have hc := (decodeInt_ok hdec).2.2
      simp only [hdec] at h ⊢
      by_cases hcut : (b :: src).length - c < length
      · rw [if_pos hcut] at h
        exact absurd rfl h
      -- the whole literal is there
      have hroom : ¬ (b :: (src ++ more)).length - c < length := by
        rw [← List.cons_append, List.length_append]
        omega
      have hraw : ((b :: (src ++ more)).drop c).take length = ((b :: src).drop c).take length := by
        rw [← List.cons_append, List.drop_append_of_le_length hc,
          List.take_append_of_le_length (by rw [List.length_drop]; omega)]
      rw [if_neg hroom, if_neg hcut, hraw]

theorem scanLiteral_le {src s : Bytes} {n : ℕ} (h : scanLiteral src k = .ok s n) :
    0 < n ∧ n ≤ src.length := by
  cases src with
  | nil => cases h
  | cons b src =>
    simp only [scanLiteral] at h
    cases hdec : decodeInt (b :: src) k with
    | error e =>
      simp only [hdec] at h
      split at h <;> cases h
    | ok r =>
      have hc := (decodeInt_ok hdec).2
      simp only [hdec] at h
      split at h
      · cases h
      · have hn : n = r.2 + r.1 := by
          split at h
          · exact (Literal.ok.inj h).2.symm
          · split at h
            · cases h
            · exact (Literal.ok.inj h).2.symm
        omega

end Qpack
