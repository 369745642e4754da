import PoseidonHttp.Hpack.Huffman

/-!
# String literals

`string_literal.go`: a Huffman flag and a 7-bit-prefix length, then the string.
-/

namespace Hpack

open Header (Bytes)

/-- The bytes `encodeStringLiteral` appends. -/
def encodeStringLiteral (s : Bytes) (huffman : Bool) : Bytes :=
  if huffman then encodeInteger 7 0x80 (huffmanEncodedLen s) ++ huffmanEncode s
  else encodeInteger 7 0x00 s.length ++ s

/-- The string at the front of `src` and the bytes it took. -/
def decodeStringLiteral (src : Bytes) : Except Error (Bytes × ℕ) :=
  match src with
  | [] => .error .truncated
  | b :: _ =>
    match decodeInteger src 7 with
    | .error e => .error e
    | .ok (length, n) =>
      if src.length - n < length then .error .truncated
      else
        let body := (src.drop n).take length
        if b &&& 0x80 ≠ 0 then (huffmanDecode body).map fun s => (s, n + length)
        else .ok (body, n + length)

/-- The first byte of a prefix integer keeps the bits above the prefix. -/
theorem encodeInteger_cons {n : ℕ} {p : UInt8} (i : ℕ) (hn : n ≤ 8) (hp : p.toNat % 2 ^ n = 0) :
    ∃ b tail v, encodeInteger n p i = b :: tail ∧ v < 2 ^ n ∧ b.toNat = p.toNat + v := by
  by_cases h : i < 2 ^ n - 1
  · exact ⟨p ||| UInt8.ofNat i, [], i, by simp [encodeInteger, h], by omega,
      or_low_toNat hp hn (by omega)⟩
  · exact ⟨p ||| UInt8.ofNat (2 ^ n - 1), encodeGroups 10 (i - (2 ^ n - 1)), 2 ^ n - 1,
      by simp [encodeInteger, h], by omega, or_low_toNat hp hn (by omega)⟩

/-- `DecodeInteger` reads back what `EncodeInteger` wrote. -/
theorem decodeInteger_encodeInteger {n i : ℕ} {p : UInt8} (rest : Bytes) (hn : n ≤ 8)
    (hp : p.toNat % 2 ^ n = 0) (hi : i < 2 ^ 32) :
    decodeInteger (encodeInteger n p i ++ rest) n = .ok (i, (encodeInteger n p i).length) :=
  decodeIntegerWith_encodeInteger rest hn hp (by decide) (by decide) (by decide) (by omega)

/-- A length and a body, under either flag. -/
theorem decodeStringLiteral_append {p : UInt8} (hp : p = 0x00 ∨ p = 0x80) {body : Bytes}
    (rest : Bytes) (hlen : body.length < 2 ^ 32) :
    decodeStringLiteral (encodeInteger 7 p body.length ++ body ++ rest) =
      if p = 0x80 then
        (huffmanDecode body).map fun s => (s, (encodeInteger 7 p body.length ++ body).length)
      else .ok (body, (encodeInteger 7 p body.length ++ body).length) := by
  have hp7 : p.toNat % 2 ^ 7 = 0 := by rcases hp with rfl | rfl <;> decide
  obtain ⟨b, tail, v, henc, hv, hb⟩ := encodeInteger_cons body.length (by decide) hp7
  have hdec := decodeInteger_encodeInteger (body ++ rest) (by decide) hp7 hlen
  have hflag : b &&& 0x80 ≠ 0 ↔ p = 0x80 := by
    rw [ne_eq, and_0x80_eq_zero, hb]
    rcases hp with rfl | rfl
    · simpa using hv
    · simp
  rw [List.append_assoc, henc, List.cons_append] at *
  simp only [decodeStringLiteral, hdec, hflag]
  rw [if_neg (by simp), ← List.cons_append, List.drop_left, List.take_left]
  simp only [List.length_cons, List.length_append, Nat.add_right_comm, List.cons_append]

/-- What `encodeStringLiteral` wrote is read back, plain or Huffman-coded. -/
theorem decodeStringLiteral_encodeStringLiteral (s : Bytes) (huffman : Bool) (rest : Bytes)
    (hlen : (if huffman then huffmanEncodedLen s else s.length) < 2 ^ 32) :
    decodeStringLiteral (encodeStringLiteral s huffman ++ rest) =
      .ok (s, (encodeStringLiteral s huffman).length) := by
  cases huffman with
  | false =>
    simp only [encodeStringLiteral, Bool.false_eq_true, if_false]
    rw [decodeStringLiteral_append (.inl rfl) rest hlen, if_neg (by decide)]
  | true =>
    rw [← length_huffmanEncode] at hlen
    simp only [encodeStringLiteral, if_true, ← length_huffmanEncode]
    rw [decodeStringLiteral_append (.inr rfl) rest hlen, huffmanDecode_huffmanEncode]
    rfl

/-! ## Reading a string that arrives in pieces -/

variable {src : Bytes}

/-- An answer other than truncation stands whatever bytes follow. -/
theorem decodeInteger_stands {n : ℕ} (more : Bytes)
    (h : decodeInteger src n ≠ .error .truncated) :
    decodeInteger (src ++ more) n = decodeInteger src n :=
  decodeIntegerWith_append more h

theorem decodeInteger_size {n i c : ℕ} (h : decodeInteger src n = .ok (i, c)) :
    0 < c ∧ c ≤ src.length :=
  (decodeIntegerWith_ok (by decide) h).2

theorem decodeStringLiteral_le {src s : Bytes} {c : ℕ}
    (h : decodeStringLiteral src = .ok (s, c)) : c ≤ src.length := by
  cases src with
  | nil => cases h
  | cons b rest =>
    simp only [decodeStringLiteral] at h
    cases hint : decodeInteger (b :: rest) 7 with
    | error e =>
      rw [hint] at h
      cases h
    | ok r =>
      have hle := (decodeInteger_size hint).2
      rw [hint] at h
      dsimp only at h
      split_ifs at h
      · cases hbody : huffmanDecode (((b :: rest).drop r.2).take r.1) with
        | error e =>
          rw [hbody] at h
          cases h
        | ok out =>
          rw [hbody] at h
          simp only [Except.map, Except.ok.injEq, Prod.mk.injEq] at h
          omega
      · simp only [Except.ok.injEq, Prod.mk.injEq] at h
        omega

theorem decodeStringLiteral_stands (more : Bytes)
    (h : decodeStringLiteral src ≠ .error .truncated) :
    decodeStringLiteral (src ++ more) = decodeStringLiteral src := by
  cases src with
  | nil => exact absurd rfl h
  | cons b rest =>
    simp only [decodeStringLiteral, List.cons_append] at h ⊢
    cases hint : decodeInteger (b :: rest) 7 with
    | error e =>
      have hne : decodeInteger (b :: rest) 7 ≠ .error .truncated := by
        intro he
        rw [he] at h
        exact h rfl
      have hmore := decodeInteger_stands more hne
      rw [List.cons_append] at hmore
      rw [hmore, hint]
    | ok r =>
      have hmore : decodeInteger (b :: rest ++ more) 7 = decodeInteger (b :: rest) 7 :=
        decodeInteger_stands more (by rw [hint]; intro he; cases he)
      rw [List.cons_append] at hmore
      have hle := (decodeInteger_size hint).2
      rw [hmore, hint]
      rw [hint] at h
      dsimp only at h ⊢
      by_cases hshort : (b :: rest).length - r.2 < r.1
      · rw [if_pos hshort] at h
        exact absurd rfl h
      -- the body is all there, and stays the same
      have hroom : ¬ (b :: (rest ++ more)).length - r.2 < r.1 := by
        simp only [List.length_cons, List.length_append] at hshort ⊢
        omega
      have hbody : ((b :: (rest ++ more)).drop r.2).take r.1 = ((b :: rest).drop r.2).take r.1 := by
        rw [← List.cons_append, List.drop_append_of_le_length hle, List.take_append_of_le_length]
        rw [List.length_drop]
        omega
      rw [if_neg hshort, if_neg hroom, hbody]

end Hpack
