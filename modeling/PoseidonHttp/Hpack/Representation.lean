import PoseidonHttp.Hpack.Decoder
import PoseidonHttp.Hpack.Encoder

/-!
# Representations read back

What the decoder does with each representation the encoder writes, whatever bytes
follow it. The visitor here records the fields it is given, and no header-list
limit is set.
-/

namespace Hpack

open Header (Bytes Field indexIncremental indexWithout indexNever)
open Encoder (literalBody)

/-- The visitor that keeps every field. -/
def record : Visitor (List Field) Empty := fun v f => (v ++ [f], none)

namespace Decoder

variable {d : Decoder} {v : List Field}

theorem visited_record (hlimit : d.maxListSize = 0) (f : Field) (n : ℕ) :
    visited record (d, v) f n = ((d, v ++ [f]), .ok n) := by
  simp [visited, guardedVisitor, hlimit, record]

/-- The first byte of a prefix integer lies between its pattern and the next. -/
theorem encodeInteger_first (n : ℕ) (p : UInt8) (i : ℕ) (rest : Bytes) (hn : n ≤ 8)
    (hp : p.toNat % 2 ^ n = 0) :
    ∃ b tail, encodeInteger n p i ++ rest = b :: tail ∧
      p.toNat ≤ b.toNat ∧ b.toNat < p.toNat + 2 ^ n := by
  obtain ⟨b, tail, v, henc, hv, hb⟩ := encodeInteger_cons i hn hp
  exact ⟨b, tail ++ rest, by simp [henc], by omega, by omega⟩

theorem reads_indexed {idx : ℕ} {e : Bytes × Bytes} (hidx : idx < 2 ^ 32)
    (hlook : (d.lookup idx : Except (Fault Empty) _) = .ok e) (hlimit : d.maxListSize = 0) :
    Reads record (d, v) (encodeInteger 7 0x80 idx)
      (d, v ++ [⟨e.1, e.2, indexIncremental⟩]) := by
  apply Reads.of_decodeOne
  intro rest
  have hdec := decodeInteger_encodeInteger (n := 7) (p := 0x80) rest (by decide) (by decide) hidx
  obtain ⟨b, tail, hsrc, hlo, -⟩ :=
    encodeInteger_first 7 0x80 idx rest (by decide) (by decide)
  rw [hsrc] at hdec ⊢
  simp only [decodeOne, isIndexed_iff, hdec, hlook]
  rw [if_pos (show 128 ≤ b.toNat from hlo)]
  exact visited_record hlimit _ _

theorem reads_sizeUpdate {n : ℕ} {dt : DynamicTable} (hn : n < 2 ^ 32) (hle : n ≤ d.maxLocal)
    (hset : d.dt.setMaxSize n = some dt) :
    Reads record (d, v) (encodeInteger 5 0x20 n) ({ d with dt := dt }, v) := by
  apply Reads.of_decodeOne
  intro rest
  have hdec := decodeInteger_encodeInteger (n := 5) (p := 0x20) rest (by decide) (by decide) hn
  obtain ⟨b, tail, hsrc, hlo, hhi⟩ :=
    encodeInteger_first 5 0x20 n rest (by decide) (by decide)
  rw [hsrc] at hdec ⊢
  have hlo' : 32 ≤ b.toNat := hlo
  have hhi' : b.toNat < 64 := hhi
  simp only [decodeOne, isIndexed_iff, isIncremental_iff, isSizeUpdate_iff, hdec,
    Nat.mod_eq_of_lt hn, if_neg (Nat.not_lt.mpr hle), hset]
  rw [if_neg (by omega), if_neg (by omega), if_pos ⟨hlo', hhi'⟩]

/-- The name of a literal is its own string, or that of the entry it refers to. -/
def NameOf (d : Decoder) (nameIdx : ℕ) (name : Bytes) : Prop :=
  nameIdx ≠ 0 → ∃ value, (d.lookup nameIdx : Except (Fault Empty) _) = .ok (name, value)

/-- The conditions under which a literal is read back. -/
structure Writable (d : Decoder) (nameIdx : ℕ) (name value : Bytes) : Prop where
  nameIdx_lt : nameIdx < 2 ^ 32
  name_lt : name.length < 2 ^ 32
  value_lt : value.length < 2 ^ 32
  ref : d.NameOf nameIdx name

variable {name value : Bytes} {nameIdx : ℕ}

variable (hw : d.Writable nameIdx name value)

include hw

theorem parseLiteral_literal {bits : ℕ} {p : UInt8} (rest : Bytes) (hbits : bits ≤ 8)
    (hp : p.toNat % 2 ^ bits = 0) :
    (d.parseLiteral (encodeInteger bits p nameIdx ++ (literalBody nameIdx name value ++ rest))
      bits : Except (Fault Empty) _) =
      .ok (name, value,
        (encodeInteger bits p nameIdx ++ literalBody nameIdx name value).length) := by
  have hval := decodeStringLiteral_encodeStringLiteral value false rest
    (by simpa using hw.value_lt)
  rw [parseLiteral, decodeInteger_encodeInteger _ hbits hp hw.nameIdx_lt]
  by_cases h0 : nameIdx = 0
  · have hnam := decodeStringLiteral_encodeStringLiteral name false
      (encodeStringLiteral value false ++ rest) (by simpa using hw.name_lt)
    subst h0
    simp only [literalBody, if_true, List.append_assoc, List.drop_left, parseLiteralName,
      hnam]
    rw [← List.drop_drop, List.drop_left, List.drop_left, hval]
    simp [Nat.add_assoc]
  · obtain ⟨v, hlook⟩ := hw.ref h0
    simp [literalBody, parseLiteralName, h0, hlook, hval]

/-- The source a literal makes: its first byte falls in the range of its pattern,
and it parses to its name and value. -/
theorem literal_source (bits : ℕ) (p : UInt8) (rest : Bytes) (hbits : bits ≤ 8)
    (hp : p.toNat % 2 ^ bits = 0) :
    ∃ b tail, encodeInteger bits p nameIdx ++ literalBody nameIdx name value ++ rest =
        b :: tail ∧ p.toNat ≤ b.toNat ∧ b.toNat < p.toNat + 2 ^ bits ∧
      (d.parseLiteral (b :: tail) bits : Except (Fault Empty) _) = .ok (name, value,
        (encodeInteger bits p nameIdx ++ literalBody nameIdx name value).length) := by
  obtain ⟨b, tail, hsrc, hlo, hhi⟩ := encodeInteger_first bits p nameIdx
    (literalBody nameIdx name value ++ rest) hbits hp
  refine ⟨b, tail, by rw [List.append_assoc, hsrc], hlo, hhi, ?_⟩
  rw [← hsrc]
  exact parseLiteral_literal hw rest hbits hp

theorem reads_never (hlimit : d.maxListSize = 0) :
    Reads record (d, v) (encodeInteger 4 0x10 nameIdx ++ literalBody nameIdx name value)
      (d, v ++ [⟨name, value, indexNever⟩]) := by
  apply Reads.of_decodeOne
  intro rest
  obtain ⟨b, tail, hsrc, hlo, hhi, hlit⟩ :=
    literal_source hw 4 0x10 rest (by decide) (by decide)
  have hlo' : 16 ≤ b.toNat := hlo
  have hhi' : b.toNat < 32 := hhi
  rw [hsrc]
  simp only [decodeOne, isIndexed_iff, isIncremental_iff, isSizeUpdate_iff, isNever_iff, hlit]
  rw [if_neg (by omega), if_neg (by omega), if_neg (by omega), if_pos ⟨hlo', hhi'⟩]
  exact visited_record hlimit _ _

theorem reads_without (hlimit : d.maxListSize = 0) :
    Reads record (d, v) (encodeInteger 4 0x00 nameIdx ++ literalBody nameIdx name value)
      (d, v ++ [⟨name, value, indexWithout⟩]) := by
  apply Reads.of_decodeOne
  intro rest
  obtain ⟨b, tail, hsrc, -, hhi, hlit⟩ :=
    literal_source hw 4 0x00 rest (by decide) (by decide)
  have hhi' : b.toNat < 16 := hhi
  rw [hsrc]
  simp only [decodeOne, isIndexed_iff, isIncremental_iff, isSizeUpdate_iff, isNever_iff,
    isWithout_iff, hlit]
  rw [if_neg (by omega), if_neg (by omega), if_neg (by omega), if_neg (by omega), if_pos hhi']
  exact visited_record hlimit _ _

theorem reads_incremental {dt : DynamicTable}
    (hadd : d.dt.add name value = some dt) (hlimit : d.maxListSize = 0) :
    Reads record (d, v) (encodeInteger 6 0x40 nameIdx ++ literalBody nameIdx name value)
      ({ d with dt := dt }, v ++ [⟨name, value, indexIncremental⟩]) := by
  apply Reads.of_decodeOne
  intro rest
  obtain ⟨b, tail, hsrc, hlo, hhi, hlit⟩ :=
    literal_source hw 6 0x40 rest (by decide) (by decide)
  have hlo' : 64 ≤ b.toNat := hlo
  have hhi' : b.toNat < 128 := hhi
  rw [hsrc]
  simp only [decodeOne, isIndexed_iff, isIncremental_iff, hlit, hadd]
  rw [if_neg (by omega), if_pos ⟨hlo', hhi'⟩]
  exact visited_record (d := { d with dt := dt }) hlimit _ _

end Decoder

end Hpack
