import PoseidonHttp.Hpack.Integer
import PoseidonHttp.Lib.Bits
import PoseidonHttp.Lib.CodeTrie

/-!
# Huffman coding

The code of RFC 7541 Appendix B (`huffman_table.go`), the bit-accumulator writer
(`huffman.go`) and the 4-bit state machine that reads it (`huffman_fsm.go`).

A state of the machine is a node of the code trie: the source numbers the nodes
and keeps the transitions in a table, the model computes the transition from the
node. A nibble that runs off the trie or completes the EOS code is invalid, and
an entry keeps at most two symbols.

* `ofBytes_huffmanEncode`: the bits written are the codes of the symbols, then
  fewer than eight ones.
* `huffmanDecode_eq_ok_iff`: the strings read are exactly the codes of some
  symbols followed by at most seven ones.
* `huffmanDecode_huffmanEncode`: decoding undoes encoding.
-/

namespace Hpack

open Bits CodeTrie
open Header (Bytes)

/-- One row of the code table. -/
structure HuffmanCode where
  code : ℕ
  nbits : ℕ
  deriving DecidableEq

/-- The 256 byte symbols and, last, EOS. -/
def huffmanCodes : List HuffmanCode :=
  [(0x1ff8, 13), (0x7fffd8, 23), (0xfffffe2, 28), (0xfffffe3, 28), (0xfffffe4, 28), (0xfffffe5, 28),
   (0xfffffe6, 28), (0xfffffe7, 28), (0xfffffe8, 28), (0xffffea, 24), (0x3ffffffc, 30),
   (0xfffffe9, 28), (0xfffffea, 28), (0x3ffffffd, 30), (0xfffffeb, 28), (0xfffffec, 28),
   (0xfffffed, 28), (0xfffffee, 28), (0xfffffef, 28), (0xffffff0, 28), (0xffffff1, 28),
   (0xffffff2, 28), (0x3ffffffe, 30), (0xffffff3, 28), (0xffffff4, 28), (0xffffff5, 28),
   (0xffffff6, 28), (0xffffff7, 28), (0xffffff8, 28), (0xffffff9, 28), (0xffffffa, 28),
   (0xffffffb, 28), (0x14, 6), (0x3f8, 10), (0x3f9, 10), (0xffa, 12), (0x1ff9, 13), (0x15, 6),
   (0xf8, 8), (0x7fa, 11), (0x3fa, 10), (0x3fb, 10), (0xf9, 8), (0x7fb, 11), (0xfa, 8), (0x16, 6),
   (0x17, 6), (0x18, 6), (0x0, 5), (0x1, 5), (0x2, 5), (0x19, 6), (0x1a, 6), (0x1b, 6), (0x1c, 6),
   (0x1d, 6), (0x1e, 6), (0x1f, 6), (0x5c, 7), (0xfb, 8), (0x7ffc, 15), (0x20, 6), (0xffb, 12),
   (0x3fc, 10), (0x1ffa, 13), (0x21, 6), (0x5d, 7), (0x5e, 7), (0x5f, 7), (0x60, 7), (0x61, 7),
   (0x62, 7), (0x63, 7), (0x64, 7), (0x65, 7), (0x66, 7), (0x67, 7), (0x68, 7), (0x69, 7),
   (0x6a, 7), (0x6b, 7), (0x6c, 7), (0x6d, 7), (0x6e, 7), (0x6f, 7), (0x70, 7), (0x71, 7),
   (0x72, 7), (0xfc, 8), (0x73, 7), (0xfd, 8), (0x1ffb, 13), (0x7fff0, 19), (0x1ffc, 13),
   (0x3ffc, 14), (0x22, 6), (0x7ffd, 15), (0x3, 5), (0x23, 6), (0x4, 5), (0x24, 6), (0x5, 5),
   (0x25, 6), (0x26, 6), (0x27, 6), (0x6, 5), (0x74, 7), (0x75, 7), (0x28, 6), (0x29, 6), (0x2a, 6),
   (0x7, 5), (0x2b, 6), (0x76, 7), (0x2c, 6), (0x8, 5), (0x9, 5), (0x2d, 6), (0x77, 7), (0x78, 7),
   (0x79, 7), (0x7a, 7), (0x7b, 7), (0x7ffe, 15), (0x7fc, 11), (0x3ffd, 14), (0x1ffd, 13),
   (0xffffffc, 28), (0xfffe6, 20), (0x3fffd2, 22), (0xfffe7, 20), (0xfffe8, 20), (0x3fffd3, 22),
   (0x3fffd4, 22), (0x3fffd5, 22), (0x7fffd9, 23), (0x3fffd6, 22), (0x7fffda, 23), (0x7fffdb, 23),
   (0x7fffdc, 23), (0x7fffdd, 23), (0x7fffde, 23), (0xffffeb, 24), (0x7fffdf, 23), (0xffffec, 24),
   (0xffffed, 24), (0x3fffd7, 22), (0x7fffe0, 23), (0xffffee, 24), (0x7fffe1, 23), (0x7fffe2, 23),
   (0x7fffe3, 23), (0x7fffe4, 23), (0x1fffdc, 21), (0x3fffd8, 22), (0x7fffe5, 23), (0x3fffd9, 22),
   (0x7fffe6, 23), (0x7fffe7, 23), (0xffffef, 24), (0x3fffda, 22), (0x1fffdd, 21), (0xfffe9, 20),
   (0x3fffdb, 22), (0x3fffdc, 22), (0x7fffe8, 23), (0x7fffe9, 23), (0x1fffde, 21), (0x7fffea, 23),
   (0x3fffdd, 22), (0x3fffde, 22), (0xfffff0, 24), (0x1fffdf, 21), (0x3fffdf, 22), (0x7fffeb, 23),
   (0x7fffec, 23), (0x1fffe0, 21), (0x1fffe1, 21), (0x3fffe0, 22), (0x1fffe2, 21), (0x7fffed, 23),
   (0x3fffe1, 22), (0x7fffee, 23), (0x7fffef, 23), (0xfffea, 20), (0x3fffe2, 22), (0x3fffe3, 22),
   (0x3fffe4, 22), (0x7ffff0, 23), (0x3fffe5, 22), (0x3fffe6, 22), (0x7ffff1, 23), (0x3ffffe0, 26),
   (0x3ffffe1, 26), (0xfffeb, 20), (0x7fff1, 19), (0x3fffe7, 22), (0x7ffff2, 23), (0x3fffe8, 22),
   (0x1ffffec, 25), (0x3ffffe2, 26), (0x3ffffe3, 26), (0x3ffffe4, 26), (0x7ffffde, 27),
   (0x7ffffdf, 27), (0x3ffffe5, 26), (0xfffff1, 24), (0x1ffffed, 25), (0x7fff2, 19), (0x1fffe3, 21),
   (0x3ffffe6, 26), (0x7ffffe0, 27), (0x7ffffe1, 27), (0x3ffffe7, 26), (0x7ffffe2, 27),
   (0xfffff2, 24), (0x1fffe4, 21), (0x1fffe5, 21), (0x3ffffe8, 26), (0x3ffffe9, 26),
   (0xffffffd, 28), (0x7ffffe3, 27), (0x7ffffe4, 27), (0x7ffffe5, 27), (0xfffec, 20),
   (0xfffff3, 24), (0xfffed, 20), (0x1fffe6, 21), (0x3fffe9, 22), (0x1fffe7, 21), (0x1fffe8, 21),
   (0x7ffff3, 23), (0x3fffea, 22), (0x3fffeb, 22), (0x1ffffee, 25), (0x1ffffef, 25), (0xfffff4, 24),
   (0xfffff5, 24), (0x3ffffea, 26), (0x7ffff4, 23), (0x3ffffeb, 26), (0x7ffffe6, 27),
   (0x3ffffec, 26), (0x3ffffed, 26), (0x7ffffe7, 27), (0x7ffffe8, 27), (0x7ffffe9, 27),
   (0x7ffffea, 27), (0x7ffffeb, 27), (0xffffffe, 28), (0x7ffffec, 27), (0x7ffffed, 27),
   (0x7ffffee, 27), (0x7ffffef, 27), (0x7fffff0, 27), (0x3ffffee, 26),
   (0x3fffffff, 30)].map fun (code, nbits) => ⟨code, nbits⟩

/-- The end-of-string symbol. -/
def eos : ℕ := 256

/-- The row of a symbol. -/
def huffmanCode (s : ℕ) : HuffmanCode := huffmanCodes.getD s ⟨0, 0⟩

/-- The code of a symbol as a bit string. -/
def codeBits (s : ℕ) : List Bool := bits (huffmanCode s).nbits (huffmanCode s).code

/-! ## The writer -/

/-- `HuffmanEncodedLen`. -/
def huffmanEncodedLen (src : Bytes) : ℕ :=
  ((src.map fun b => (huffmanCode b.toNat).nbits).sum + 7) / 8

/-- Take whole bytes off the `n` pending bits of the accumulator; the bytes and
the number of bits left. -/
def flushBytes (buf : ℕ) : ℕ → Bytes × ℕ
  | n + 8 => (UInt8.ofNat (buf >>> n) :: (flushBytes buf n).1, (flushBytes buf n).2)
  | n => ([], n)

/-- The loop of `HuffmanEncode`: `buf` is the 64-bit accumulator, `nbuf` the number
of bits pending in it. -/
def huffmanEncodeFrom : Bytes → ℕ → ℕ → Bytes
  | [], buf, nbuf =>
    if 0 < nbuf then [UInt8.ofNat (buf <<< (8 - nbuf) ||| (1 <<< (8 - nbuf) - 1))] else []
  | b :: src, buf, nbuf =>
    let c := huffmanCode b.toNat
    let buf := (buf <<< c.nbits ||| c.code) % 2 ^ 64
    let r := flushBytes buf (nbuf + c.nbits)
    r.1 ++ huffmanEncodeFrom src buf r.2

/-- The bytes `HuffmanEncode` appends. -/
def huffmanEncode (src : Bytes) : Bytes := huffmanEncodeFrom src 0 0

/-! ## The reader -/

/-- `newHufTrie`. -/
def newHufTrie : Trie ℕ := Trie.ofCode codeBits (List.range (eos + 1))

/-- The table entry of a state and a nibble: up to two symbols and the next
state, or `none` when it is marked invalid. -/
def hufFSM (state : Trie ℕ) (nib : ℕ) : Option (List ℕ × Trie ℕ) :=
  (walk newHufTrie (· != eos) state (bits 4 nib)).map fun r => (r.1.take 2, r.2)

/-- The longest padding a reader may accept. -/
def maxPadBits : ℕ := 7

/-- Whether the input may end in a state. -/
def hufStatePadOK : Trie ℕ → Bool
  | .nil => false
  | .node _ depth allOnes _ _ => allOnes && depth ≤ maxPadBits

/-- The loop of `huffmanDecodeFSM`, two nibbles a byte. -/
def huffmanDecodeFrom : Trie ℕ → Bytes → Option (Bytes × Trie ℕ)
  | state, [] => some ([], state)
  | state, b :: src => do
    let (hi, state) ← hufFSM state ((b >>> 4) &&& 0x0f).toNat
    let (lo, state) ← hufFSM state (b &&& 0x0f).toNat
    let (rest, state) ← huffmanDecodeFrom state src
    return (hi.map UInt8.ofNat ++ lo.map UInt8.ofNat ++ rest, state)

/-- `HuffmanDecode`. -/
def huffmanDecode (src : Bytes) : Except Error Bytes :=
  match huffmanDecodeFrom newHufTrie src with
  | none => .error .invalidHuffman
  | some (dst, state) => if hufStatePadOK state then .ok dst else .error .invalidHuffman

/-! ## The table is a prefix code -/

/-- The 30-bit words that start with a code. -/
def HuffmanCode.range (c : HuffmanCode) : ℕ × ℕ :=
  (c.code <<< (30 - c.nbits), (c.code + 1) <<< (30 - c.nbits))

/-- The ranges in a list are pairwise disjoint. -/
def disjointRanges : List (ℕ × ℕ) → Bool
  | [] => true
  | r :: rs => rs.all (fun r' => r.2.ble r'.1 || r'.2.ble r.1) && disjointRanges rs

theorem disjointRanges_huffmanCodes : disjointRanges (huffmanCodes.map HuffmanCode.range) := by
  decide +kernel

theorem huffmanCodes_bounds :
    ∀ c ∈ huffmanCodes, 5 ≤ c.nbits ∧ c.nbits ≤ 30 ∧ c.code < 2 ^ c.nbits := by
  decide +kernel

theorem pairwise_of_disjointRanges {rs : List (ℕ × ℕ)} (h : disjointRanges rs = true) :
    rs.Pairwise fun r r' => r.2 ≤ r'.1 ∨ r'.2 ≤ r.1 := by
  induction rs with
  | nil => exact .nil
  | cons r rs ih =>
    simp only [disjointRanges, Bool.and_eq_true, List.all_eq_true, Bool.or_eq_true,
      Nat.ble_eq] at h
    exact .cons h.1 (ih h.2)

theorem length_huffmanCodes : huffmanCodes.length = eos + 1 := by
  decide +kernel

theorem huffmanCode_mem {s : ℕ} (hs : s ≤ eos) : huffmanCode s ∈ huffmanCodes := by
  have hlen : s < huffmanCodes.length := by
    rw [length_huffmanCodes]
    omega
  rw [huffmanCode, List.getD_eq_getElem _ _ hlen]
  exact List.getElem_mem hlen

/-- Distinct symbols have disjoint ranges. -/
theorem huffmanCode_disjoint {s t : ℕ} (hs : s ≤ eos) (ht : t ≤ eos) (hne : s ≠ t) :
    (huffmanCode s).range.2 ≤ (huffmanCode t).range.1 ∨
      (huffmanCode t).range.2 ≤ (huffmanCode s).range.1 := by
  have hpw := pairwise_of_disjointRanges disjointRanges_huffmanCodes
  rw [List.pairwise_map, List.pairwise_iff_getElem] at hpw
  have hlen := length_huffmanCodes
  have hs' : s < huffmanCodes.length := by omega
  have ht' : t < huffmanCodes.length := by omega
  simp only [huffmanCode, List.getD_eq_getElem _ _ hs', List.getD_eq_getElem _ _ ht']
  rcases Nat.lt_or_gt_of_ne hne with hlt | hlt
  · exact hpw s t hs' ht' hlt
  · exact (hpw t s ht' hs' hlt).symm

/-- A code that starts with another lies in its range. -/
theorem range_of_prefix {c d : HuffmanCode} (hc : c.code < 2 ^ c.nbits)
    (hd : d.code < 2 ^ d.nbits) (hd30 : d.nbits ≤ 30)
    (h : bits c.nbits c.code <+: bits d.nbits d.code) :
    c.range.1 < d.range.2 ∧ d.range.1 < c.range.2 := by
  obtain ⟨hle, hcode⟩ := eq_shiftRight_of_prefix hc hd h
  obtain ⟨k, hk⟩ := Nat.exists_eq_add_of_le hle
  have hshift : 30 - c.nbits = k + (30 - d.nbits) := by omega
  rw [show d.nbits - c.nbits = k by omega, Nat.shiftRight_eq_div_pow] at hcode
  have hlow : c.code * 2 ^ k ≤ d.code := hcode ▸ Nat.div_mul_le_self _ _
  have hhigh : d.code < (c.code + 1) * 2 ^ k := by
    rw [hcode]
    exact Nat.lt_mul_of_div_lt (Nat.lt_succ_self _) (Nat.two_pow_pos k)
  have hpos := Nat.two_pow_pos (30 - d.nbits)
  simp only [HuffmanCode.range, Nat.shiftLeft_eq, hshift, Nat.pow_add, ← Nat.mul_assoc]
  exact ⟨Nat.mul_lt_mul_of_pos_right (Nat.lt_succ_of_le hlow) hpos,
    Nat.mul_lt_mul_of_pos_right hhigh hpos⟩

theorem prefixCode_codeBits : PrefixCode codeBits (List.range (eos + 1)) := by
  have hb : ∀ s ∈ List.range (eos + 1), _ := fun s hs =>
    huffmanCodes_bounds _ (huffmanCode_mem (Nat.le_of_lt_succ (List.mem_range.mp hs)))
  refine ⟨fun s hs he => ?_, fun s hs t ht hpre => ?_⟩
  · have := congrArg List.length he
    rw [codeBits] at this
    have := (hb s hs).1
    simp at *
    omega
  · by_contra hne
    have hr := range_of_prefix (hb s hs).2.2 (hb t ht).2.2 (hb t ht).2.1 hpre
    have := huffmanCode_disjoint (Nat.le_of_lt_succ (List.mem_range.mp hs))
      (Nat.le_of_lt_succ (List.mem_range.mp ht)) hne
    omega

theorem codeBits_length {s : ℕ} (hs : s ≤ eos) :
    5 ≤ (codeBits s).length ∧ (codeBits s).length ≤ 30 := by
  have := huffmanCodes_bounds _ (huffmanCode_mem hs)
  simp only [codeBits, length_bits]
  omega

theorem byte_le_eos (b : UInt8) : b.toNat ≤ eos := by
  have := b.toNat_lt
  simp only [eos]
  omega

/-! ## What the writer writes -/

/-- The codes of a byte string, one after another. -/
def symbolBits (src : Bytes) : List Bool := src.flatMap fun b => codeBits b.toNat

theorem bits_flushBytes (buf n : ℕ) :
    bits n buf = ofBytes (flushBytes buf n).1 ++ bits (flushBytes buf n).2 buf ∧
      (flushBytes buf n).2 < 8 := by
  fun_induction flushBytes buf n with
  | case1 n ih =>
    obtain ⟨hbits, hlt⟩ := ih
    refine ⟨?_, hlt⟩
    show bits (n + 8) buf = _
    rw [Nat.add_comm, bits_add, hbits, ofBytes_cons, bits_byte, List.append_assoc]
  | case2 n hn =>
    refine ⟨by simp, ?_⟩
    by_contra hge
    exact hn (n - 8) (by omega)

/-- The accumulator loop writes the pending bits, the codes, then fewer than
eight ones. -/
theorem ofBytes_huffmanEncodeFrom (src : Bytes) :
    ∀ buf nbuf : ℕ, nbuf < 8 → ∃ pad < 8,
      ofBytes (huffmanEncodeFrom src buf nbuf) =
        bits nbuf buf ++ symbolBits src ++ List.replicate pad true := by
  induction src with
  | nil =>
    intro buf nbuf hn
    by_cases h0 : 0 < nbuf
    · refine ⟨8 - nbuf, by omega, ?_⟩
      have hones : (1 <<< (8 - nbuf) - 1 : ℕ) = 2 ^ (8 - nbuf) - 1 := by
        rw [Nat.one_shiftLeft]
      have hlt : 2 ^ (8 - nbuf) - 1 < 2 ^ (8 - nbuf) :=
        Nat.sub_lt (Nat.two_pow_pos _) (by decide)
      have hin := bits_shiftIn (v := buf) hlt (show nbuf + (8 - nbuf) ≤ 8 by omega)
      rw [show nbuf + (8 - nbuf) = 8 by omega, bits_mod 8 _ le_rfl, bits_ones] at hin
      simp only [huffmanEncodeFrom, if_pos h0, hones, ofBytes_cons, ofBytes_nil, bits_byte, hin]
      simp [symbolBits]
    · have : nbuf = 0 := by omega
      subst this
      exact ⟨0, by decide, by simp [huffmanEncodeFrom, symbolBits, bits]⟩
  | cons b src ih =>
    intro buf nbuf hn
    have hb := huffmanCodes_bounds _ (huffmanCode_mem (byte_le_eos b))
    set c := huffmanCode b.toNat with hc
    obtain ⟨hflush, hlt⟩ :=
      bits_flushBytes ((buf <<< c.nbits ||| c.code) % 2 ^ 64) (nbuf + c.nbits)
    obtain ⟨pad, hpad, hrest⟩ := ih ((buf <<< c.nbits ||| c.code) % 2 ^ 64) _ hlt
    refine ⟨pad, hpad, ?_⟩
    rw [bits_shiftIn hb.2.2 (by omega)] at hflush
    have hsym : symbolBits (b :: src) = bits c.nbits c.code ++ symbolBits src := rfl
    simp only [huffmanEncodeFrom, ← hc, ofBytes_append, hrest, hsym]
    simp only [← List.append_assoc]
    rw [← hflush]

/-- The bits written are the codes of the string, then fewer than eight ones. -/
theorem ofBytes_huffmanEncode (src : Bytes) : ∃ pad < 8,
    ofBytes (huffmanEncode src) = symbolBits src ++ List.replicate pad true := by
  obtain ⟨pad, hpad, h⟩ := ofBytes_huffmanEncodeFrom src 0 0 (by decide)
  exact ⟨pad, hpad, by simpa [huffmanEncode, bits] using h⟩

theorem length_symbolBits (src : Bytes) :
    (symbolBits src).length = (src.map fun b => (huffmanCode b.toNat).nbits).sum := by
  induction src with
  | nil => rfl
  | cons b src ih =>
    simp only [symbolBits, List.flatMap_cons, List.length_append, List.map_cons,
      List.sum_cons] at ih ⊢
    rw [ih, codeBits, length_bits]

/-- `HuffmanEncodedLen` is the length of what `HuffmanEncode` writes. -/
theorem length_huffmanEncode (src : Bytes) :
    (huffmanEncode src).length = huffmanEncodedLen src := by
  obtain ⟨pad, hpad, h⟩ := ofBytes_huffmanEncode src
  have hlen := congrArg List.length h
  rw [length_ofBytes, List.length_append, List.length_replicate, length_symbolBits] at hlen
  rw [huffmanEncodedLen]
  omega

/-! ## What the reader reads -/

/-- Symbols that stand for bytes. -/
def byteSyms (dst : Bytes) : List ℕ := dst.map UInt8.toNat

theorem flatMap_byteSyms (dst : Bytes) : (byteSyms dst).flatMap codeBits = symbolBits dst := by
  simp [byteSyms, symbolBits, List.flatMap_map]

/-- Codes are longer than a nibble, so four bits complete at most one. -/
theorem walk_nibble_length {p : List Bool} (hp : Inner codeBits (List.range (eos + 1)) p)
    {nib : ℕ} {r : List ℕ × Trie ℕ}
    (h : walk newHufTrie (· != eos) (newHufTrie.find p) (bits 4 nib) = some r) :
    r.1.length ≤ 1 := by
  obtain ⟨q, -, -, he, hss⟩ := (walk_eq_some_iff prefixCode_codeBits _ hp).mp h
  match hr : r.1 with
  | [] => simp
  | [_] => simp
  | s :: t :: ss =>
    rw [hr] at he hss
    have hs := hss s (by simp)
    have ht := (codeBits_length (Nat.le_of_lt_succ (List.mem_range.mp (hss t (by simp)).1))).1
    have hlen := congrArg List.length he
    simp only [List.flatMap_cons, List.length_append, length_bits] at hlen
    -- the first code goes past `p`, which lies inside a code
    have hps : (codeBits s).length ≤ p.length := by omega
    refine absurd ?_ (not_code_prefix_of_inner prefixCode_codeBits hp hs.1)
    have hpre : codeBits s <+: p ++ bits 4 nib :=
      ⟨codeBits t ++ (ss.flatMap codeBits ++ q), by simp [he]⟩
    exact List.prefix_of_prefix_length_le hpre (List.prefix_append _ _) hps

theorem hufFSM_eq_walk {p : List Bool} (hp : Inner codeBits (List.range (eos + 1)) p) (nib : ℕ) :
    hufFSM (newHufTrie.find p) nib =
      walk newHufTrie (· != eos) (newHufTrie.find p) (bits 4 nib) := by
  unfold hufFSM
  cases h : walk newHufTrie (· != eos) (newHufTrie.find p) (bits 4 nib) with
  | none => rfl
  | some r =>
    have hlen := walk_nibble_length hp h
    simp [List.take_of_length_le (show r.1.length ≤ 2 by omega)]

theorem bits_nibble_hi (b : UInt8) :
    bits 4 ((b >>> 4) &&& 0x0f).toNat = bits 4 (b.toNat >>> 4) := by
  have hand : ((b >>> 4) &&& 0x0f).toNat = (b >>> 4).toNat % 2 ^ 4 :=
    and_mask_toNat (b >>> 4) (n := 4) (by decide)
  rw [hand, bits_mod 4 _ le_rfl]
  rfl

theorem bits_nibble_lo (b : UInt8) : bits 4 (b &&& 0x0f).toNat = bits 4 b.toNat := by
  have hand : (b &&& 0x0f).toNat = b.toNat % 2 ^ 4 := and_mask_toNat b (n := 4) (by decide)
  rw [hand, bits_mod 4 _ le_rfl]

/-- Two nibbles a byte, the machine walks the trie along the bits of the input. -/
theorem huffmanDecodeFrom_eq_walk (src : Bytes) :
    ∀ {p : List Bool}, Inner codeBits (List.range (eos + 1)) p →
      huffmanDecodeFrom (newHufTrie.find p) src =
        (walk newHufTrie (· != eos) (newHufTrie.find p) (ofBytes src)).map
          fun r => (r.1.map UInt8.ofNat, r.2) := by
  induction src with
  | nil => intro p hp; rfl
  | cons b src ih =>
    intro p hp
    have hnext : ∀ {p bs r}, Inner codeBits (List.range (eos + 1)) p →
        walk newHufTrie (· != eos) (newHufTrie.find p) bs = some r →
        ∃ q, Inner codeBits (List.range (eos + 1)) q ∧ r.2 = newHufTrie.find q := by
      intro p bs r hp h
      obtain ⟨q, hq, hr, -⟩ := (walk_eq_some_iff prefixCode_codeBits bs hp).mp h
      exact ⟨q, hq, hr⟩
    simp only [huffmanDecodeFrom, ofBytes_cons, bits_nibbles b.toNat, List.append_assoc,
      walk_append, hufFSM_eq_walk hp, bits_nibble_hi]
    cases hhi : walk newHufTrie (· != eos) (newHufTrie.find p) (bits 4 (b.toNat >>> 4)) with
    | none => rfl
    | some r =>
      obtain ⟨q, hq, hr⟩ := hnext hp hhi
      simp only [Option.bind_eq_bind, Option.bind_some, hr, hufFSM_eq_walk hq, bits_nibble_lo]
      cases hlo : walk newHufTrie (· != eos) (newHufTrie.find q) (bits 4 b.toNat) with
      | none => rfl
      | some r' =>
        obtain ⟨q', hq', hr'⟩ := hnext hq hlo
        simp only [Option.bind_some, hr', ih hq']
        cases walk newHufTrie (· != eos) (newHufTrie.find q') (ofBytes src) <;> simp

theorem codeBits_eos : codeBits eos = List.replicate 30 true := by
  decide +kernel

/-- The states in which the input may end are those reached by at most seven ones. -/
theorem hufStatePadOK_find {p : List Bool} (hp : Inner codeBits (List.range (eos + 1)) p) :
    hufStatePadOK (newHufTrie.find p) = true ↔ ∃ pad ≤ maxPadBits, p = List.replicate pad true := by
  obtain ⟨l, r, hf⟩ := find_of_inner prefixCode_codeBits hp
  rw [newHufTrie, hf]
  simp only [hufStatePadOK, Bool.and_eq_true, decide_eq_true_eq, List.all_eq_true, id_eq]
  constructor
  · rintro ⟨hall, hle⟩
    exact ⟨p.length, hle, List.eq_replicate_iff.mpr ⟨rfl, hall⟩⟩
  · rintro ⟨pad, hle, rfl⟩
    exact ⟨fun b hb => (List.mem_replicate.mp hb).2, by simpa using hle⟩

theorem inner_ones {pad : ℕ} (h : pad ≤ maxPadBits) :
    Inner codeBits (List.range (eos + 1)) (List.replicate pad true) := by
  have h7 : pad ≤ 7 := h
  refine .inr ⟨eos, by simp, ?_, ?_⟩
  · rw [codeBits_eos]
    exact ⟨List.replicate (30 - pad) true, by
      rw [List.replicate_append_replicate, show pad + (30 - pad) = 30 by omega]⟩
  · intro he
    have := congrArg List.length he
    rw [codeBits_eos, List.length_replicate, List.length_replicate] at this
    omega

/-- The reader accepts exactly the codes of a byte string followed by at most
seven ones, and returns that string. -/
theorem huffmanDecode_eq_ok_iff (src dst : Bytes) :
    huffmanDecode src = .ok dst ↔
      ∃ pad ≤ maxPadBits, ofBytes src = symbolBits dst ++ List.replicate pad true := by
  have hroot : Inner codeBits (List.range (eos + 1)) [] := .inl rfl
  have hstart : huffmanDecodeFrom newHufTrie src = huffmanDecodeFrom (newHufTrie.find []) src := by
    rw [find_nil_path]
  unfold huffmanDecode
  rw [hstart, huffmanDecodeFrom_eq_walk src hroot]
  constructor
  · intro h
    cases hw : walk newHufTrie (· != eos) (newHufTrie.find []) (ofBytes src) with
    | none =>
      rw [hw] at h
      cases h
    | some r =>
      obtain ⟨q, hq, hr, he, hss⟩ := (walk_eq_some_iff prefixCode_codeBits _ hroot).mp hw
      simp only [hw, Option.map_some] at h
      split_ifs at h with hpad
      rw [Except.ok.injEq] at h
      rw [show r.2 = newHufTrie.find q from hr] at hpad
      obtain ⟨pad, hle, rfl⟩ := (hufStatePadOK_find hq).mp hpad
      refine ⟨pad, hle, ?_⟩
      have hsyms : byteSyms dst = r.1 := by
        rw [← h, byteSyms, List.map_map]
        refine (List.map_congr_left fun s hs => ?_).trans (List.map_id _)
        have hs' := hss s hs
        simp only [List.mem_range, eos, bne_iff_ne] at hs'
        exact toNat_ofNat_of_lt (by omega)
      rw [← flatMap_byteSyms, hsyms]
      simpa using he
  · rintro ⟨pad, hle, he⟩
    have hw : walk newHufTrie (· != eos) (newHufTrie.find []) (ofBytes src) =
        some (byteSyms dst, newHufTrie.find (List.replicate pad true)) := by
      refine (walk_eq_some_iff prefixCode_codeBits _ hroot).mpr
        ⟨List.replicate pad true, inner_ones hle, rfl, ?_, ?_⟩
      · rw [flatMap_byteSyms, List.nil_append, he]
      · intro s hs
        obtain ⟨b, -, rfl⟩ := List.mem_map.mp hs
        have := b.toNat_lt
        simp only [List.mem_range, eos, bne_iff_ne]
        omega
    have hdst : (byteSyms dst).map UInt8.ofNat = dst := by
      simp [byteSyms, Function.comp_def]
    have hok := (hufStatePadOK_find (inner_ones hle)).mpr ⟨pad, hle, rfl⟩
    simp only [hw, Option.map_some, hdst, hok, if_true]

/-- Decoding undoes encoding. -/
theorem huffmanDecode_huffmanEncode (src : Bytes) : huffmanDecode (huffmanEncode src) = .ok src := by
  obtain ⟨pad, hpad, h⟩ := ofBytes_huffmanEncode src
  exact (huffmanDecode_eq_ok_iff _ _).mpr ⟨pad, Nat.le_of_lt_succ hpad, h⟩

end Hpack
