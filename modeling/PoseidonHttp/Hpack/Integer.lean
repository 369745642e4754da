import Mathlib.Data.Nat.Bitwise
import Mathlib.Tactic.Ring
import PoseidonHttp.Header

/-!
# Prefix integers

The N-bit prefix integer of RFC 7541 §5.1 as `hpack/integer.go` writes and reads
it. The writer takes a 64-bit value; the reader rejects values above `max` and
continuation runs that shift past `maxShift` bits. HPACK reads with 2^32 - 1 and
32, QPACK with 2^62 - 1 and 63.

* `decodeIntegerWith_encodeInteger`: what the writer wrote is read back, whatever
  follows it, for every value up to `max`.
* `decodeIntegerWith_ok`: an accepted value is at most `max`, and its bytes were
  there.
* `decodeIntegerWith_exact`: which inputs are read, as which values, and when more
  input is asked for; `decodeInteger64_eq`: no `uint64` operation wraps.
* `decodeIntegerWith_append`: an answer other than `truncated` stands whatever follows.
-/

namespace Hpack

open Header (Bytes)

/-- The sentinel errors of the package. -/
inductive Error where
  | truncated
  | integerOverflow
  | invalidIndex
  | invalidHuffman
  | tableSizeUpdate
  | headerListTooLarge
  | invalidPrefix
  | notStreaming
  deriving DecidableEq, Repr

/-! ## Bytes and masks -/

variable {src : Bytes} {i m max maxShift n v : ℕ}

theorem toNat_ofNat_of_lt (h : v < 256) : (UInt8.ofNat v).toNat = v := by
  exact Nat.mod_eq_of_lt h

theorem and_mask_toNat (b : UInt8) (hn : n ≤ 8) :
    (b &&& UInt8.ofNat (2 ^ n - 1)).toNat = b.toNat % 2 ^ n := by
  have hmask : (UInt8.ofNat (2 ^ n - 1)).toNat = 2 ^ n - 1 := by
    have : 2 ^ n ≤ 2 ^ 8 := Nat.pow_le_pow_right (by decide) hn
    exact toNat_ofNat_of_lt (by omega)
  rw [UInt8.toNat_and, hmask, Nat.and_two_pow_sub_one_eq_mod]

theorem and_0x7f_toNat (b : UInt8) : (b &&& 0x7f).toNat = b.toNat % 128 :=
  and_mask_toNat b (n := 7) (by decide)

theorem and_0x80_eq_zero (b : UInt8) : b &&& 0x80 = 0 ↔ b.toNat < 128 := by
  have hall : ∀ b : Fin 256, (UInt8.ofFin b &&& 0x80 = 0 ↔ b.val < 128) := by decide +kernel
  exact hall b.toFin

/-- A byte with its low `n` bits clear takes a value below `2^n` in them. -/
theorem or_low_toNat {p : UInt8} (hp : p.toNat % 2 ^ n = 0) (hn : n ≤ 8) (hv : v < 2 ^ n) :
    (p ||| UInt8.ofNat v).toNat = p.toNat + v := by
  have hpow : 2 ^ n ≤ 2 ^ 8 := Nat.pow_le_pow_right (by decide) hn
  rw [UInt8.toNat_or, toNat_ofNat_of_lt (by omega)]
  obtain ⟨q, hq⟩ := Nat.dvd_of_mod_eq_zero hp
  rw [hq, Nat.two_pow_add_eq_or_of_lt hv]

/-! ## The writer -/

/-- The continuation loop of `EncodeInteger`. Ten groups of seven bits cover
every 64-bit value, so `fuel` starts at 10. -/
def encodeGroups : ℕ → ℕ → Bytes
  | 0, _ => []
  | fuel + 1, i =>
    if 128 ≤ i then UInt8.ofNat (i &&& 0x7f ||| 0x80) :: encodeGroups fuel (i >>> 7)
    else [UInt8.ofNat i]

/-- The bytes `EncodeInteger` appends: `i` as an `n`-bit prefix integer. -/
def encodeInteger (n : ℕ) (prefixByte : UInt8) (i : ℕ) : Bytes :=
  let max := 2 ^ n - 1
  if i < max then [prefixByte ||| UInt8.ofNat i]
  else (prefixByte ||| UInt8.ofNat max) :: encodeGroups 10 (i - max)

/-! ## The reader -/

/-- The continuation loop of `decodeInteger`: the value so far, the shift, and
the number of bytes read. -/
def decodeGroups (max maxShift : ℕ) : Bytes → ℕ → ℕ → ℕ → Except Error (ℕ × ℕ)
  | [], _, _, _ => .error .truncated
  | b :: src, v, m, consumed =>
    if maxShift ≤ m then .error .integerOverflow
    else
      let chunk := (b &&& 0x7f).toNat
      let add := (chunk <<< m) % 2 ^ 64
      if add >>> m ≠ chunk ∨ max - v < add then .error .integerOverflow
      else if b &&& 0x80 = 0 then .ok (v + add, consumed + 1)
      else decodeGroups max maxShift src (v + add) (m + 7) (consumed + 1)

/-- Read an `n`-bit prefix integer: the value and the bytes consumed. -/
def decodeIntegerWith (src : Bytes) (n max maxShift : ℕ) : Except Error (ℕ × ℕ) :=
  match src with
  | [] => .error .truncated
  | b :: rest =>
    let mask := UInt8.ofNat (2 ^ n - 1)
    let v := (b &&& mask).toNat
    if v < mask.toNat then .ok (v, 1) else decodeGroups max maxShift rest v 0 1

/-- `DecodeInteger`: the HPACK ceiling. -/
def decodeInteger (src : Bytes) (n : ℕ) : Except Error (ℕ × ℕ) :=
  decodeIntegerWith src n (2 ^ 32 - 1) 32

/-- `DecodeIntegerMax`: the caller's ceiling. -/
def decodeIntegerMax (src : Bytes) (n max : ℕ) : Except Error (ℕ × ℕ) :=
  decodeIntegerWith src n max 63

/-! ## What the reader accepts -/

theorem decodeGroups_ok :
    ∀ {v m consumed i n : ℕ}, decodeGroups max maxShift src v m consumed = .ok (i, n) → v ≤ max →
      i ≤ max ∧ consumed < n ∧ n ≤ consumed + src.length := by
  induction src with
  | nil => intro v m consumed i n h; simp [decodeGroups] at h
  | cons b src ih =>
    intro v m consumed i n h hv
    simp only [decodeGroups] at h
    split at h
    · cases h
    split at h
    · cases h
    rename_i hadd
    split at h
    · simp only [Except.ok.injEq, Prod.mk.injEq] at h
      simp only [List.length_cons]
      omega
    · have := ih h (by omega)
      simp only [List.length_cons]
      omega

/-- An accepted value respects the ceiling, and its bytes were there. -/
theorem decodeIntegerWith_ok {c : ℕ} (hmax : 255 ≤ max)
    (h : decodeIntegerWith src n max maxShift = .ok (i, c)) :
    i ≤ max ∧ 0 < c ∧ c ≤ src.length := by
  cases src with
  | nil => simp [decodeIntegerWith] at h
  | cons b rest =>
    have hb : (b &&& UInt8.ofNat (2 ^ n - 1)).toNat ≤ max := (Nat.le_of_lt_succ (by
      simpa using (b &&& UInt8.ofNat (2 ^ n - 1)).toNat_lt)).trans hmax
    simp only [decodeIntegerWith] at h
    split at h
    · simp only [Except.ok.injEq, Prod.mk.injEq] at h
      simp only [List.length_cons]
      omega
    · have := decodeGroups_ok h hb
      simp only [List.length_cons]
      omega

/-! ## Reading a stream in pieces -/

theorem decodeGroups_append (more : Bytes) :
    ∀ {v m consumed : ℕ}, decodeGroups max maxShift src v m consumed ≠ .error .truncated →
      decodeGroups max maxShift (src ++ more) v m consumed =
        decodeGroups max maxShift src v m consumed := by
  induction src with
  | nil => intro v m consumed h; simp [decodeGroups] at h
  | cons b src ih =>
    intro v m consumed h
    simp only [List.cons_append, decodeGroups] at h ⊢
    split_ifs at h ⊢
    · rfl
    · rfl
    · rfl
    · exact ih h

/-- An answer other than truncation stands whatever bytes follow. -/
theorem decodeIntegerWith_append (more : Bytes)
    (h : decodeIntegerWith src n max maxShift ≠ .error .truncated) :
    decodeIntegerWith (src ++ more) n max maxShift = decodeIntegerWith src n max maxShift := by
  cases src with
  | nil => simp [decodeIntegerWith] at h
  | cons b rest =>
    simp only [List.cons_append, decodeIntegerWith] at h ⊢
    split_ifs at h ⊢
    · rfl
    · exact decodeGroups_append more h

/-! ## Exactly what is read

The continuation octets as mathematics: every octet but the last has its high bit
set, and seven bits each make up the value, lowest first. -/

/-- The octets of a continuation that has come to its end. -/
inductive Complete : Bytes → Prop
  | last {b : UInt8} (h : b.toNat < 128) : Complete [b]
  | more {b : UInt8} {bs : Bytes} (h : 128 ≤ b.toNat) (hbs : Complete bs) : Complete (b :: bs)

/-- The value continuation octets stand for. -/
def groupsValue : Bytes → ℕ
  | [] => 0
  | b :: bs => b.toNat % 128 + 128 * groupsValue bs

/-- `src` starts with a complete integer of value `v` and `k` continuation octets. -/
inductive Starts (n : ℕ) : Bytes → ℕ → ℕ → Prop
  | short {b : UInt8} {rest : Bytes} (h : b.toNat % 2 ^ n < 2 ^ n - 1) :
    Starts n (b :: rest) 0 (b.toNat % 2 ^ n)
  | long {b : UInt8} {octets rest : Bytes} (h : b.toNat % 2 ^ n = 2 ^ n - 1)
    (hc : Complete octets) :
    Starts n (b :: (octets ++ rest)) octets.length (2 ^ n - 1 + groupsValue octets)

/-- `src` ends before its first integer does: more octets may follow. -/
inductive Unfinished (n : ℕ) : Bytes → Prop
  | empty : Unfinished n []
  | open {b : UInt8} {octets : Bytes} (h : b.toNat % 2 ^ n = 2 ^ n - 1)
    (hall : ∀ c ∈ octets, 128 ≤ c.toNat) : Unfinished n (b :: octets)

/-- How many continuation octets the shift cap lets through. -/
def octetLimit (maxShift : ℕ) : ℕ := (maxShift + 6) / 7

theorem groupsValue_concat_zero (octets : Bytes) :
    groupsValue (octets ++ [0]) = groupsValue octets := by
  induction octets with
  | nil => rfl
  | cons b octets ih =>
    simp only [List.cons_append, groupsValue, ih]

theorem complete_concat_zero {octets : Bytes} (h : ∀ c ∈ octets, 128 ≤ c.toNat) :
    Complete (octets ++ [0]) := by
  induction octets with
  | nil => exact .last (by decide)
  | cons b octets ih =>
    apply Complete.more (h b (List.mem_cons_self ..))
    apply ih
    intro c hc
    exact h c (List.mem_cons_of_mem _ hc)

/-- One octet further, the shift is seven bits more. -/
theorem groupsValue_cons_mul (b : UInt8) (bs : Bytes) (v j : ℕ) :
    v + groupsValue (b :: bs) * 2 ^ (7 * j) =
      v + b.toNat % 128 * 2 ^ (7 * j) + groupsValue bs * 2 ^ (7 * (j + 1)) := by
  simp only [groupsValue]
  ring

section
variable {max maxShift : ℕ}

/-- One octet, with the shift cap read as a limit on the octets and the lost-bits
test gone: a shift below 63 keeps the seven bits. -/
theorem decodeGroups_step (hshift : maxShift ≤ 63) {b : UInt8} {src : Bytes} {v j consumed : ℕ}
    (hv : v ≤ max) :
    decodeGroups max maxShift (b :: src) v (7 * j) consumed =
      if octetLimit maxShift ≤ j ∨ max < v + b.toNat % 128 * 2 ^ (7 * j) then
        .error .integerOverflow
      else if b.toNat < 128 then .ok (v + b.toNat % 128 * 2 ^ (7 * j), consumed + 1)
      else decodeGroups max maxShift src (v + b.toNat % 128 * 2 ^ (7 * j)) (7 * (j + 1))
        (consumed + 1) := by
  have hlimit : maxShift ≤ 7 * j ↔ octetLimit maxShift ≤ j := by
    unfold octetLimit
    omega
  by_cases hj : octetLimit maxShift ≤ j
  · rw [if_pos (.inl hj)]
    simp only [decodeGroups]
    rw [if_pos (hlimit.mpr hj)]
  have hcap : 7 * j ≤ 56 := by
    omega
  have hpow : 2 ^ (7 * j) ≤ 2 ^ 56 := Nat.pow_le_pow_right (by decide) hcap
  have hfit : b.toNat % 128 * 2 ^ (7 * j) < 2 ^ 64 := by
    have hb : b.toNat % 128 ≤ 127 := by omega
    calc b.toNat % 128 * 2 ^ (7 * j) ≤ 127 * 2 ^ 56 := Nat.mul_le_mul hb hpow
      _ < 2 ^ 64 := by decide
  have hadd : (b.toNat % 128) <<< (7 * j) % 2 ^ 64 = b.toNat % 128 * 2 ^ (7 * j) := by
    rw [Nat.shiftLeft_eq]
    exact Nat.mod_eq_of_lt hfit
  have hback : (b.toNat % 128 * 2 ^ (7 * j)) >>> (7 * j) = b.toNat % 128 := by
    rw [Nat.shiftRight_eq_div_pow, Nat.mul_div_cancel _ (Nat.two_pow_pos _)]
  have hover : max - v < b.toNat % 128 * 2 ^ (7 * j) ↔
      max < v + b.toNat % 128 * 2 ^ (7 * j) := by
    omega
  simp only [decodeGroups, and_0x7f_toNat, hadd, hback, and_0x80_eq_zero, ne_eq,
    not_true_eq_false, false_or, hover, hj]
  rw [if_neg (by rwa [hlimit]), show 7 * j + 7 = 7 * (j + 1) by ring]

theorem decodeGroups_eq_ok_iff (hshift : maxShift ≤ 63) :
    ∀ (src : Bytes) {v j consumed w c : ℕ}, v ≤ max →
      (decodeGroups max maxShift src v (7 * j) consumed = .ok (w, c) ↔
        ∃ octets rest, src = octets ++ rest ∧ Complete octets ∧
          j + octets.length ≤ octetLimit maxShift ∧ w = v + groupsValue octets * 2 ^ (7 * j) ∧
          w ≤ max ∧ c = consumed + octets.length) := by
  intro src
  induction src with
  | nil =>
    intro v j consumed w c hv
    constructor
    · intro h
      cases h
    · rintro ⟨octets, rest, hsrc, hc, -⟩
      rw [List.nil_eq_append_iff] at hsrc
      rw [hsrc.1] at hc
      cases hc
  | cons b src ih =>
    intro v j consumed w c hv
    rw [decodeGroups_step hshift hv]
    constructor
    · intro h
      split_ifs at h with hover hlast
      · -- the octet ends the integer
        simp only [Except.ok.injEq, Prod.mk.injEq] at h
        refine ⟨[b], src, rfl, .last hlast, ?_, ?_, by omega, ?_⟩
        · rw [List.length_singleton]
          omega
        · exact h.1.symm
        · exact h.2.symm
      · rw [not_or, not_lt] at hover
        obtain ⟨octets, rest, rfl, hc, hlen, hw, hle, hcons⟩ := (ih hover.2).mp h
        refine ⟨b :: octets, rest, rfl, .more (by omega) hc, ?_, ?_, hle, ?_⟩
        · rw [List.length_cons]
          omega
        · rw [groupsValue_cons_mul]
          exact hw
        · rw [List.length_cons]
          omega
    · rintro ⟨octets, rest, hsrc, hc, hlen, hw, hle, hcons⟩
      cases hc with
      | last hb =>
        obtain ⟨rfl, rfl⟩ := hsrc
        rw [groupsValue_cons_mul, groupsValue, Nat.zero_mul, Nat.add_zero] at hw
        rw [List.length_singleton] at hlen hcons
        rw [if_neg (by omega), if_pos hb, ← hw, hcons]
      | @more _ bs hb hbs =>
        obtain ⟨rfl, rfl⟩ := hsrc
        rw [groupsValue_cons_mul] at hw
        rw [List.length_cons] at hlen hcons
        have hpart : v + b.toNat % 128 * 2 ^ (7 * j) ≤ max := by omega
        rw [if_neg (by omega), if_neg (by omega)]
        exact (ih hpart).mpr ⟨bs, rest, rfl, hbs, by omega, hw, hle, by omega⟩

theorem decodeGroups_eq_truncated (hshift : maxShift ≤ 63) :
    ∀ (src : Bytes) {v j consumed : ℕ}, v ≤ max →
      decodeGroups max maxShift src v (7 * j) consumed = .error .truncated →
      (∀ b ∈ src, 128 ≤ b.toNat) ∧ v + groupsValue src * 2 ^ (7 * j) ≤ max := by
  intro src
  induction src with
  | nil =>
    intro v j consumed hv h
    refine ⟨?_, by simpa [groupsValue] using hv⟩
    intro b hb
    cases hb
  | cons b src ih =>
    intro v j consumed hv h
    rw [decodeGroups_step hshift hv] at h
    split_ifs at h with hover hlast
    · cases h
    · rw [not_or, not_lt] at hover
      obtain ⟨hall, hle⟩ := ih hover.2 h
      constructor
      · exact List.forall_mem_cons.mpr ⟨by omega, hall⟩
      · rw [groupsValue_cons_mul]
        exact hle

end

variable {max maxShift n : ℕ}

theorem prefix_full {b : UInt8} (h : ¬ b.toNat % 2 ^ n < 2 ^ n - 1) : b.toNat % 2 ^ n = 2 ^ n - 1 := by
  omega

/-- `decodeInteger` reads the first byte under its mask. -/
theorem decodeIntegerWith_cons {b : UInt8} {rest : Bytes} (hn : n ≤ 8) :
    decodeIntegerWith (b :: rest) n max maxShift =
      if b.toNat % 2 ^ n < 2 ^ n - 1 then .ok (b.toNat % 2 ^ n, 1)
      else decodeGroups max maxShift rest (2 ^ n - 1) (7 * 0) 1 := by
  have hpow : 2 ^ n ≤ 2 ^ 8 := Nat.pow_le_pow_right (by decide) hn
  have hmask : (UInt8.ofNat (2 ^ n - 1)).toNat = 2 ^ n - 1 := toNat_ofNat_of_lt (by omega)
  simp only [decodeIntegerWith, and_mask_toNat _ hn, hmask]
  split_ifs with hlt
  · rfl
  · rw [prefix_full hlt]

/-! ## Reading back what was written -/

theorem encodeGroups_of_lt {fuel : ℕ} (h : i < 128) :
    encodeGroups (fuel + 1) i = [UInt8.ofNat i] := by
  simp [encodeGroups, show ¬ 128 ≤ i by omega]

theorem encodeGroups_of_ge {fuel : ℕ} (h : 128 ≤ i) :
    encodeGroups (fuel + 1) i =
      UInt8.ofNat (i % 128 + 128) :: encodeGroups fuel (i / 128) := by
  have hlow : i &&& 0x7f ||| 0x80 = i % 128 + 128 := by
    have hand : i &&& 0x7f = i % 128 := Nat.and_two_pow_sub_one_eq_mod i 7
    have hlt : i % 128 < 2 ^ 7 := Nat.mod_lt _ (by decide)
    have hor := Nat.two_pow_add_eq_or_of_lt hlt 1
    rw [hand, Nat.lor_comm]
    simpa [Nat.add_comm] using hor.symm
  simp only [encodeGroups, if_pos h, hlow, Nat.shiftRight_eq_div_pow, Nat.reducePow]

/-- The writer's groups are a continuation of the value, with no more octets than it needs. -/
theorem encodeGroups_complete (fuel : ℕ) : ∀ {i : ℕ}, i < 128 ^ (fuel + 1) →
    Complete (encodeGroups (fuel + 1) i) ∧ groupsValue (encodeGroups (fuel + 1) i) = i ∧
      ∀ {k : ℕ}, 0 < k → i < 128 ^ k → (encodeGroups (fuel + 1) i).length ≤ k := by
  have hlast : ∀ {i : ℕ}, i < 128 → Complete [UInt8.ofNat i] ∧ groupsValue [UInt8.ofNat i] = i := by
    intro i hi
    have hb : (UInt8.ofNat i).toNat = i := toNat_ofNat_of_lt (by omega)
    refine ⟨.last (by omega), ?_⟩
    simp only [groupsValue, hb]
    omega
  induction fuel with
  | zero =>
    intro i hi
    rw [encodeGroups_of_lt hi]
    exact ⟨(hlast hi).1, (hlast hi).2, fun hk _ => hk⟩
  | succ fuel ih =>
    intro i hi
    by_cases h128 : i < 128
    · rw [encodeGroups_of_lt h128]
      exact ⟨(hlast h128).1, (hlast h128).2, fun hk _ => hk⟩
    -- the low seven bits go out with the continuation bit, the rest is shifted by seven
    have hb : (UInt8.ofNat (i % 128 + 128)).toNat = i % 128 + 128 := toNat_ofNat_of_lt (by omega)
    have hdiv : ∀ k, i < 128 ^ (k + 1) → i / 128 < 128 ^ k := by
      intro k hk
      rw [Nat.div_lt_iff_lt_mul (by decide)]
      rwa [Nat.pow_succ] at hk
    obtain ⟨hc, hv, hlen⟩ := ih (hdiv _ hi)
    rw [encodeGroups_of_ge (by omega)]
    refine ⟨.more (by omega) hc, ?_, ?_⟩
    · rw [groupsValue, hv]
      omega
    · intro k hk hik
      obtain ⟨k, rfl⟩ := Nat.exists_eq_succ_of_ne_zero (Nat.ne_of_gt hk)
      have hk : 0 < k := by
        rcases Nat.eq_zero_or_pos k with rfl | hk
        · exact absurd hik h128
        · exact hk
      exact Nat.succ_le_succ (hlen hk (hdiv k hik))

/-- The reader accepts what the writer wrote, for every value up to its ceiling. -/
theorem decodeIntegerWith_encodeInteger {p : UInt8} {i : ℕ} (rest : Bytes) (hn : n ≤ 8)
    (hp : p.toNat % 2 ^ n = 0) (hshift : maxShift ≤ 63) (hmax : max < 2 ^ maxShift)
    (hlow : 255 ≤ max) (hi : i ≤ max) :
    decodeIntegerWith (encodeInteger n p i ++ rest) n max maxShift =
      .ok (i, (encodeInteger n p i).length) := by
  have hprefix : ∀ v, v < 2 ^ n → (p ||| UInt8.ofNat v).toNat % 2 ^ n = v := by
    intro v hv
    rw [or_low_toNat hp hn hv, Nat.add_mod, hp, Nat.zero_add, Nat.mod_mod, Nat.mod_eq_of_lt hv]
  unfold encodeInteger
  dsimp only
  split_ifs with hlt
  · rw [List.singleton_append, decodeIntegerWith_cons hn, hprefix i (by omega), if_pos hlt]
    rfl
  have h63 : 2 ^ maxShift ≤ 2 ^ 63 := Nat.pow_le_pow_right (by decide) hshift
  obtain ⟨hc, hv, hlen⟩ := encodeGroups_complete 9 (i := i - (2 ^ n - 1)) (by omega)
  have hlimit : 2 ^ maxShift ≤ 128 ^ octetLimit maxShift := by
    rw [show 128 = 2 ^ 7 by rfl, ← pow_mul]
    refine Nat.pow_le_pow_right (by decide) ?_
    unfold octetLimit
    omega
  have hone : 0 < octetLimit maxShift := by
    by_contra h0
    rw [Nat.eq_zero_of_not_pos h0] at hlimit
    omega
  rw [List.cons_append, decodeIntegerWith_cons hn, hprefix _ (by omega), if_neg (Nat.lt_irrefl _),
    decodeGroups_eq_ok_iff hshift _ (by omega)]
  refine ⟨_, rest, rfl, hc, ?_, ?_, hi, ?_⟩
  · rw [Nat.zero_add]
    exact hlen hone (by omega)
  · rw [hv, pow_zero]
    omega
  · rw [List.length_cons, Nat.add_comm]

/-- The reader's answers under a ceiling and a limit on the continuation octets. -/
structure Exact (n ceiling octets : ℕ) (read : Bytes → Except Error (ℕ × ℕ)) : Prop where
  /-- What the writer wrote is read back, whatever follows. -/
  readsBack : ∀ (p : UInt8) (v : ℕ) (rest : Bytes), p.toNat % 2 ^ n = 0 → v ≤ ceiling →
    read (encodeInteger n p v ++ rest) = .ok (v, (encodeInteger n p v).length)
  /-- It reads the complete integers within its limits, as their value. -/
  accepts : ∀ (src : Bytes) (v c : ℕ), read src = .ok (v, c) ↔
    ∃ k, Starts n src k v ∧ v ≤ ceiling ∧ k ≤ octets ∧ c = k + 1
  /-- It asks for more only if the integer has not ended; unless the limit is
  used up, some continuation of the input is then read. -/
  waits : ∀ src : Bytes, read src = .error .truncated →
    Unfinished n src ∧ (src.length ≤ octets → ∃ more r, read (src ++ more) = .ok r)

theorem decodeIntegerWith_exact (hn : n ≤ 8) (hlow : 255 ≤ max) (hshift : maxShift ≤ 63)
    (hmax : max < 2 ^ maxShift) :
    Exact n max (octetLimit maxShift) fun src => decodeIntegerWith src n max maxShift := by
  have hpow : 2 ^ n ≤ 2 ^ 8 := Nat.pow_le_pow_right (by decide) hn
  have hstart : 2 ^ n - 1 ≤ max := by omega
  refine ⟨?_, ?_, ?_⟩
  · intro p v rest hp hv
    exact decodeIntegerWith_encodeInteger rest hn hp hshift hmax hlow hv
  · intro src v c
    cases src with
    | nil =>
      constructor
      · intro h
        cases h
      · rintro ⟨k, hs, -⟩
        cases hs
    | cons b rest =>
      simp only [decodeIntegerWith_cons hn]
      by_cases hlt : b.toNat % 2 ^ n < 2 ^ n - 1
      · -- the value fits the prefix
        rw [if_pos hlt]
        simp only [Except.ok.injEq, Prod.mk.injEq]
        constructor
        · rintro ⟨rfl, rfl⟩
          exact ⟨0, .short hlt, by omega, Nat.zero_le _, rfl⟩
        · rintro ⟨k, hs, -, -, hc⟩
          cases hs with
          | short => exact ⟨rfl, hc.symm⟩
          | long hfull => omega
      · rw [if_neg hlt, decodeGroups_eq_ok_iff hshift rest hstart]
        have hfull := prefix_full hlt
        constructor
        · rintro ⟨octets, more, rfl, hc, hlen, hw, hle, hcons⟩
          rw [pow_zero, Nat.mul_one] at hw
          subst hw
          exact ⟨octets.length, .long hfull hc, hle, by omega, by omega⟩
        · rintro ⟨k, hs, hle, hk, hc⟩
          cases hs with
          | short h => exact absurd h hlt
          | @long _ octets more _ hcomplete =>
            refine ⟨octets, more, rfl, hcomplete, by omega, ?_, hle, by omega⟩
            rw [pow_zero, Nat.mul_one]
  · intro src h
    cases src with
    | nil =>
      refine ⟨.empty, ?_⟩
      intro _
      have hzero := decodeIntegerWith_encodeInteger (p := 0) [] hn (Nat.zero_mod _) hshift hmax hlow
        (Nat.zero_le _)
      exact ⟨encodeInteger n 0 0, _, by simpa using hzero⟩
    | cons b rest =>
      simp only [decodeIntegerWith_cons hn] at h
      by_cases hlt : b.toNat % 2 ^ n < 2 ^ n - 1
      · rw [if_pos hlt] at h
        cases h
      rw [if_neg hlt] at h
      have hfull := prefix_full hlt
      obtain ⟨hall, hle⟩ := decodeGroups_eq_truncated hshift rest hstart h
      refine ⟨.open hfull hall, ?_⟩
      -- a last octet without bits ends the integer at the value it has
      intro hlen
      rw [List.length_cons] at hlen
      refine ⟨[0], (2 ^ n - 1 + groupsValue rest, rest.length + 2), ?_⟩
      simp only [List.cons_append, decodeIntegerWith_cons hn]
      rw [if_neg hlt, decodeGroups_eq_ok_iff hshift _ hstart]
      refine ⟨rest ++ [0], [], by simp, complete_concat_zero hall, ?_, ?_, ?_, ?_⟩
      · rw [List.length_append, List.length_singleton]
        omega
      · rw [groupsValue_concat_zero, pow_zero, Nat.mul_one]
      · simpa using hle
      · rw [List.length_append, List.length_singleton]
        omega

/-! ## Machine arithmetic -/

/-- The loop of `decodeInteger` with every operation on `uint64` as the machine does
it. -/
def decodeGroups64 (max maxShift : ℕ) : Bytes → ℕ → ℕ → ℕ → Except Error (ℕ × ℕ)
  | [], _, _, _ => .error .truncated
  | b :: src, v, m, consumed =>
    if maxShift ≤ m then .error .integerOverflow
    else
      let chunk := (b &&& 0x7f).toNat
      let add := (chunk <<< m) % 2 ^ 64
      if add >>> m ≠ chunk ∨ (2 ^ 64 + max - v) % 2 ^ 64 < add then .error .integerOverflow
      else if b &&& 0x80 = 0 then .ok ((v + add) % 2 ^ 64, consumed + 1)
      else decodeGroups64 max maxShift src ((v + add) % 2 ^ 64) (m + 7) (consumed + 1)

/-- `decodeInteger` on `uint64`. -/
def decodeInteger64 (src : Bytes) (n max maxShift : ℕ) : Except Error (ℕ × ℕ) :=
  match src with
  | [] => .error .truncated
  | b :: rest =>
    let mask := UInt8.ofNat (2 ^ n - 1)
    let v := (b &&& mask).toNat
    if v < mask.toNat then .ok (v, 1) else decodeGroups64 max maxShift rest v 0 1

/-- The value never passes the ceiling, so neither the subtraction nor the sum wraps. -/
theorem decodeGroups64_eq (hmax : max < 2 ^ 64) :
    ∀ (src : Bytes) {v m consumed : ℕ}, v ≤ max →
      decodeGroups64 max maxShift src v m consumed = decodeGroups max maxShift src v m consumed := by
  intro src
  induction src with
  | nil => intro v m consumed hv; rfl
  | cons b src ih =>
    intro v m consumed hv
    have hsub : (2 ^ 64 + max - v) % 2 ^ 64 = max - v := by omega
    simp only [decodeGroups64, decodeGroups, hsub]
    split_ifs
    · rfl
    · rfl
    · rw [Nat.mod_eq_of_lt (by omega)]
    · rw [Nat.mod_eq_of_lt (by omega)]
      exact ih (by omega)

theorem decodeInteger64_eq (hlow : 255 ≤ max) (hmax : max < 2 ^ 64) (src : Bytes) :
    decodeInteger64 src n max maxShift = decodeIntegerWith src n max maxShift := by
  cases src with
  | nil => rfl
  | cons b rest =>
    simp only [decodeInteger64, decodeIntegerWith]
    split_ifs
    · rfl
    · apply decodeGroups64_eq hmax
      have := (b &&& UInt8.ofNat (2 ^ n - 1)).toNat_lt
      omega

end Hpack
