import PoseidonHttp.Hpack.DynamicTable
import PoseidonHttp.Hpack.StaticTable
import PoseidonHttp.Hpack.StringLiteral

/-!
# The HPACK decoder

`decoder.go`, whole blocks. The visitor is any state and function, and may refuse
a field; the decoder's own state and the visitor's are kept whether or not a
representation succeeds. A `Fault` is an error of the package, the visitor's
refusal, or a slice out of bounds.

The decoder's scratch buffer is left out: it only holds the copies that `name` and
`value` are here.
-/

namespace Hpack

open Header (Bytes Field indexIncremental indexWithout indexNever)

structure Decoder where
  dt : DynamicTable
  maxLocal : ℕ
  maxListSize : ℕ
  listTotal : ℕ

/-- Why a decode stops. -/
inductive Fault (E : Type*) where
  | err (e : Error)
  | visit (e : E)
  | panic
  deriving DecidableEq, Repr

/-- `FieldVisitor` as a function on its own state. -/
abbrev Visitor (σ E : Type*) := σ → Field → σ × Option E

namespace Decoder

variable {σ E : Type*}

/-- `NewDecoder`. -/
def new : Decoder := ⟨.new defaultMaxDynamicTableSize, defaultMaxDynamicTableSize, 0, 0⟩

def setMaxDynamicTableSize (d : Decoder) (n : ℕ) : Option Decoder :=
  (d.dt.setMaxSize n).map fun dt => { d with maxLocal := n, dt := dt }

/-- Hand a field to the visitor, behind the header-list limit when one is set. -/
def guardedVisitor (visit : Visitor σ E) (s : Decoder × σ) (f : Field) :
    (Decoder × σ) × Option (Fault E) :=
  let d := s.1
  if d.maxListSize = 0 then ((d, (visit s.2 f).1), (visit s.2 f).2.map .visit)
  else
    let d := { d with listTotal := d.listTotal + f.size }
    if d.maxListSize < d.listTotal then ((d, s.2), some (.err .headerListTooLarge))
    else ((d, (visit s.2 f).1), (visit s.2 f).2.map .visit)

/-- The entry an index names. -/
def lookup (d : Decoder) (idx : ℕ) : Except (Fault E) (Bytes × Bytes) :=
  if idx = 0 then .error (.err .invalidIndex)
  else if idx ≤ staticTableLen then .ok (staticRow idx)
  else
    let dynIdx := idx - staticTableLen
    if d.dt.count < dynIdx then .error (.err .invalidIndex)
    else match d.dt.entryAt dynIdx with
      | none => .error .panic
      | some e => .ok e

/-- The name of a literal: the entry's, or a string of its own. The bytes it took
are returned with it. -/
def parseLiteralName (d : Decoder) (idx : ℕ) (src : Bytes) : Except (Fault E) (Bytes × ℕ) :=
  if idx = 0 then
    match decodeStringLiteral src with
    | .error e => .error (.err e)
    | .ok r => .ok r
  else
    match d.lookup idx with
    | .error e => .error e
    | .ok e => .ok (e.1, 0)

/-- A literal's name, its value, and the bytes consumed. -/
def parseLiteral (d : Decoder) (src : Bytes) (namePrefixBits : ℕ) :
    Except (Fault E) (Bytes × Bytes × ℕ) :=
  match decodeInteger src namePrefixBits with
  | .error e => .error (.err e)
  | .ok (idx, n) =>
    match d.parseLiteralName idx (src.drop n) with
    | .error e => .error e
    | .ok (name, nb) =>
      match decodeStringLiteral (src.drop (n + nb)) with
      | .error e => .error (.err e)
      | .ok (value, vb) => .ok (name, value, n + nb + vb)

/-- Visit a decoded field; `n` bytes are consumed when the visitor takes it. -/
def visited (visit : Visitor σ E) (s : Decoder × σ) (f : Field) (n : ℕ) :
    (Decoder × σ) × Except (Fault E) ℕ :=
  match guardedVisitor visit s f with
  | (s, none) => (s, .ok n)
  | (s, some e) => (s, .error e)

/-- One representation: the bytes consumed. -/
def decodeOne (visit : Visitor σ E) (s : Decoder × σ) (src : Bytes) :
    (Decoder × σ) × Except (Fault E) ℕ :=
  let d := s.1
  match src with
  | [] => (s, .error (.err .truncated))
  | b :: _ =>
    if b &&& 0x80 ≠ 0 then
      match decodeInteger src 7 with
      | .error e => (s, .error (.err e))
      | .ok (idx, n) =>
        match d.lookup idx with
        | .error e => (s, .error e)
        | .ok e => visited visit s ⟨e.1, e.2, indexIncremental⟩ n
    else if b &&& 0xc0 = 0x40 then
      match d.parseLiteral src 6 with
      | .error e => (s, .error e)
      | .ok (name, value, n) =>
        match d.dt.add name value with
        | none => (s, .error .panic)
        | some dt => visited visit ({ d with dt := dt }, s.2) ⟨name, value, indexIncremental⟩ n
    else if b &&& 0xe0 = 0x20 then
      match decodeInteger src 5 with
      | .error e => (s, .error (.err e))
      | .ok (nval, n) =>
        if d.maxLocal < nval % 2 ^ 32 then (s, .error (.err .tableSizeUpdate))
        else match d.dt.setMaxSize (nval % 2 ^ 32) with
          | none => (s, .error .panic)
          | some dt => (({ d with dt := dt }, s.2), .ok n)
    else if b &&& 0xf0 = 0x10 then
      match d.parseLiteral src 4 with
      | .error e => (s, .error e)
      | .ok (name, value, n) => visited visit s ⟨name, value, indexNever⟩ n
    else if b &&& 0xf0 = 0x00 then
      match d.parseLiteral src 4 with
      | .error e => (s, .error e)
      | .ok (name, value, n) => visited visit s ⟨name, value, indexWithout⟩ n
    else (s, .error (.err .invalidPrefix))

/-- The loop of `decodeFragment`. Every turn consumes a byte, so `fuel` starts at
the length of the input. -/
def decodeFragmentFrom (visit : Visitor σ E) :
    ℕ → Decoder × σ → Bytes → (Decoder × σ) × Option (Fault E)
  | 0, s, _ => (s, none)
  | _ + 1, s, [] => (s, none)
  | fuel + 1, s, src =>
    match decodeOne visit s src with
    | (s, .error e) => (s, some e)
    | (s, .ok n) => decodeFragmentFrom visit fuel s (src.drop n)

def decodeFragment (visit : Visitor σ E) (s : Decoder × σ) (src : Bytes) :
    (Decoder × σ) × Option (Fault E) :=
  decodeFragmentFrom visit src.length s src

/-- `DecodeBlock`: the decoder and visitor after the block, and why it stopped. -/
def decodeBlock (visit : Visitor σ E) (d : Decoder) (v : σ) (block : Bytes) :
    (Decoder × σ) × Option (Fault E) :=
  decodeFragment visit ({ d with listTotal := 0 }, v) block

/-! ## Which representation a first byte starts -/

theorem ofFin_toFin_forall {p : UInt8 → Prop} (h : ∀ n : Fin 256, p (UInt8.ofFin n)) (b : UInt8) :
    p b :=
  h b.toFin

theorem isIndexed_iff (b : UInt8) : b &&& 0x80 ≠ 0 ↔ 128 ≤ b.toNat :=
  ofFin_toFin_forall (p := fun b => b &&& 0x80 ≠ 0 ↔ 128 ≤ b.toNat) (by decide +kernel) b

theorem isIncremental_iff (b : UInt8) : b &&& 0xc0 = 0x40 ↔ 64 ≤ b.toNat ∧ b.toNat < 128 :=
  ofFin_toFin_forall (p := fun b => b &&& 0xc0 = 0x40 ↔ 64 ≤ b.toNat ∧ b.toNat < 128)
    (by decide +kernel) b

theorem isSizeUpdate_iff (b : UInt8) : b &&& 0xe0 = 0x20 ↔ 32 ≤ b.toNat ∧ b.toNat < 64 :=
  ofFin_toFin_forall (p := fun b => b &&& 0xe0 = 0x20 ↔ 32 ≤ b.toNat ∧ b.toNat < 64)
    (by decide +kernel) b

theorem isNever_iff (b : UInt8) : b &&& 0xf0 = 0x10 ↔ 16 ≤ b.toNat ∧ b.toNat < 32 :=
  ofFin_toFin_forall (p := fun b => b &&& 0xf0 = 0x10 ↔ 16 ≤ b.toNat ∧ b.toNat < 32)
    (by decide +kernel) b

theorem isWithout_iff (b : UInt8) : b &&& 0xf0 = 0x00 ↔ b.toNat < 16 :=
  ofFin_toFin_forall (p := fun b => b &&& 0xf0 = 0x00 ↔ b.toNat < 16) (by decide +kernel) b

/-! ## Progress -/

theorem visited_ok {visit : Visitor σ E} {s : Decoder × σ} {f : Field} {n m : ℕ}
    (h : (visited visit s f n).2 = .ok m) : m = n := by
  unfold visited at h
  split at h
  · exact (Except.ok.inj h).symm
  · cases h

theorem parseLiteralName_le {d : Decoder} {idx : ℕ} {src name : Bytes} {n : ℕ}
    (h : (d.parseLiteralName idx src : Except (Fault E) _) = .ok (name, n)) : n ≤ src.length := by
  unfold parseLiteralName at h
  split_ifs at h
  · split at h
    · cases h
    · rename_i hs
      rw [Except.ok.injEq] at h
      subst h
      exact decodeStringLiteral_le hs
  · split at h
    · cases h
    · simp only [Except.ok.injEq, Prod.mk.injEq] at h
      omega

theorem parseLiteral_size {d : Decoder} {src : Bytes} {bits : ℕ} {name value : Bytes} {n : ℕ}
    (h : (d.parseLiteral src bits : Except (Fault E) _) = .ok (name, value, n)) :
    0 < n ∧ n ≤ src.length := by
  unfold parseLiteral at h
  split at h
  · cases h
  rename_i idx c hint
  split at h
  · cases h
  rename_i nm nb hname
  split at h
  · cases h
  · rename_i val vb hval
    simp only [Except.ok.injEq, Prod.mk.injEq] at h
    have h₁ := decodeInteger_size hint
    have h₂ := parseLiteralName_le hname
    have h₃ := decodeStringLiteral_le hval
    rw [List.length_drop] at h₂ h₃
    omega

/-- A representation takes at least one byte, and no more than there are. -/
theorem decodeOne_size (visit : Visitor σ E) (s : Decoder × σ) (src : Bytes) {n : ℕ}
    (h : (decodeOne visit s src).2 = .ok n) : 0 < n ∧ n ≤ src.length := by
  simp only [decodeOne] at h
  split at h
  · cases h
  split_ifs at h
  · split at h
    · cases h
    · rename_i hint
      split at h
      · cases h
      · exact visited_ok h ▸ decodeInteger_size hint
  · split at h
    · cases h
    · rename_i hlit
      split at h
      · cases h
      · exact visited_ok h ▸ parseLiteral_size hlit
  · split at h
    · cases h
    · rename_i hint
      split_ifs at h
      split at h
      · cases h
      · exact Except.ok.inj h ▸ decodeInteger_size hint
  · split at h
    · cases h
    · rename_i hlit
      exact visited_ok h ▸ parseLiteral_size hlit
  · split at h
    · cases h
    · rename_i hlit
      exact visited_ok h ▸ parseLiteral_size hlit

/-- Fuel beyond the length of the input changes nothing. -/
theorem decodeFragmentFrom_fuel {visit : Visitor σ E} (fuel : ℕ) :
    ∀ {s : Decoder × σ} {src : Bytes}, src.length ≤ fuel →
      decodeFragmentFrom visit fuel s src = decodeFragment visit s src := by
  induction fuel using Nat.strong_induction_on with
  | _ fuel ih =>
    intro s src hlen
    cases src with
    | nil => cases fuel <;> rfl
    | cons b src =>
      obtain ⟨fuel, rfl⟩ := Nat.exists_eq_succ_of_ne_zero (show fuel ≠ 0 by
        simp only [List.length_cons] at hlen
        omega)
      simp only [decodeFragment, List.length_cons, decodeFragmentFrom]
      cases hone : decodeOne visit s (b :: src) with
      | mk s' r =>
        cases r with
        | error e => rfl
        | ok n =>
          have hn := (decodeOne_size visit s (b :: src) (by rw [hone])).1
          simp only [List.length_cons] at hlen
          have hdrop : ((b :: src).drop n).length ≤ src.length := by
            simp only [List.length_drop, List.length_cons]
            omega
          show decodeFragmentFrom visit fuel s' _ = decodeFragmentFrom visit src.length s' _
          rw [ih fuel (Nat.lt_succ_self _) (by omega), ih src.length (by omega) hdrop]

/-! ## Reading a block piece by piece -/

/-- From `s` the decoder reads `bytes`, whatever follows, and is then in `s'`. -/
def Reads (visit : Visitor σ E) (s : Decoder × σ) (bytes : Bytes) (s' : Decoder × σ) : Prop :=
  ∀ rest, decodeFragment visit s (bytes ++ rest) = decodeFragment visit s' rest

variable {visit : Visitor σ E} {s s' s'' : Decoder × σ}

theorem Reads.nil (s : Decoder × σ) : Reads visit s [] s := fun _ => rfl

theorem Reads.append {a b : Bytes} (h : Reads visit s a s') (h' : Reads visit s' b s'') :
    Reads visit s (a ++ b) s'' := by
  intro rest
  rw [List.append_assoc, h, h']

/-- A block that is read piece by piece is read without a fault. -/
theorem Reads.decodeFragment_eq {bytes : Bytes} (h : Reads visit s bytes s') :
    decodeFragment visit s bytes = (s', none) := by
  have := h []
  rwa [List.append_nil] at this

theorem Reads.of_decodeOne {bytes : Bytes}
    (h : ∀ rest, decodeOne visit s (bytes ++ rest) = (s', .ok bytes.length)) :
    Reads visit s bytes s' := by
  intro rest
  have hpos : 0 < bytes.length :=
    (decodeOne_size visit s (bytes ++ rest) (by rw [h])).1
  obtain ⟨b, bytes, rfl⟩ := List.exists_cons_of_length_pos hpos
  have hone := h rest
  rw [List.cons_append] at hone ⊢
  rw [decodeFragment, List.length_cons, decodeFragmentFrom, hone]
  · show decodeFragmentFrom visit _ s' _ = _
    rw [← List.cons_append, List.drop_left]
    exact decodeFragmentFrom_fuel _ (by simp)
  · simp

end Decoder

end Hpack
