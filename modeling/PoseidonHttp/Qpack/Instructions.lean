import PoseidonHttp.Lib.Incremental
import PoseidonHttp.Qpack.DynamicTable
import PoseidonHttp.Qpack.StaticTable

/-!
# QPACK instruction streams

`instructions.go`: the Insert Count Increment the decoder's side writes, and the
parser of encoder instructions. The parser applies whole instructions and leaves a
partial one unconsumed; the stream may be cut anywhere.

`Remaining peer bytes l` relates a table to the part of the stream it has not
consumed: those bytes are exactly the instructions that bring it to `l`.
`Remaining.parse` is the step lemma of delivery: on any initial part of the
remaining stream the parser rejects nothing, and what it leaves is remaining again.
-/

namespace Qpack

open Header (Bytes pairSize)
open Hpack (encodeInteger huffmanEncode huffmanEncodedLen)
open Incremental

/-- `AppendInsertCountIncrement`. -/
def insertCountIncrement (increment : ℕ) : Bytes := encodeInteger 6 0x00 increment

/-- The outcome of one instruction. -/
inductive Parsed where
  | needMore
  | err (e : Error)
  | done (n : ℕ) (dt : DynamicTable)

/-- A truncated integer waits for more bytes, any other error is malformed. -/
def needMoreOrErr (e : Hpack.Error) : Parsed :=
  if e = .truncated then .needMore else .err .encoderStream

namespace DynamicTable

variable (dt : DynamicTable)

/-- Insert what an instruction of `n` bytes named. -/
def applyInsert (name value : Bytes) (n : ℕ) : Option Parsed :=
  (dt.insert name value).map fun
    | none => .err .encoderStream
    | some dt => .done n dt

/-- The value that ends an insert instruction, `n` bytes into it. -/
def parseValue (name src : Bytes) (n : ℕ) : Option Parsed :=
  match scanLiteral src 7 with
  | .short => some .needMore
  | .malformed => some (.err .encoderStream)
  | .ok value nv => dt.applyInsert name value (n + nv)

def parseInsertWithNameRef (src : Bytes) (static : Bool) : Option Parsed :=
  match decodeInt src 6 with
  | .error e => some (needMoreOrErr e)
  | .ok (idx, ni) =>
    if static then
      if staticTable.length ≤ idx then some (.err .encoderStream)
      else dt.parseValue (staticRow idx).1 (src.drop ni) ni
    else do
      match ← dt.atInsertCountRelative idx with
      | none => return .err .encoderStream
      | some e => dt.parseValue e.1 (src.drop ni) ni

def parseInsertWithLiteralName (src : Bytes) : Option Parsed :=
  match scanLiteral src 5 with
  | .short => some .needMore
  | .malformed => some (.err .encoderStream)
  | .ok name nn => dt.parseValue name (src.drop nn) nn

def parseDuplicate (src : Bytes) : Option Parsed :=
  match decodeInt src 5 with
  | .error e => some (needMoreOrErr e)
  | .ok (idx, ni) => do
    match ← dt.atInsertCountRelative idx with
    | none => return .err .encoderStream
    | some e => dt.applyInsert e.1 e.2 ni

def parseSetCapacity (src : Bytes) : Option Parsed :=
  match decodeInt src 5 with
  | .error e => some (needMoreOrErr e)
  | .ok (capacity, nc) =>
    (dt.setCapacity capacity).map fun
      | .error e => .err e
      | .ok dt => .done nc dt

def parseOneEncoderInstruction (src : Bytes) : Option Parsed :=
  match src with
  -- the loop never asks this of no bytes
  | [] => none
  | b :: _ =>
    if b &&& 0x80 ≠ 0 then dt.parseInsertWithNameRef src (b &&& 0x40 ≠ 0)
    else if b &&& 0x40 ≠ 0 then dt.parseInsertWithLiteralName src
    else if b &&& 0x20 ≠ 0 then dt.parseSetCapacity src
    else dt.parseDuplicate src

/-- The loop of `ParseEncoderInstructions`, `p` bytes in: the bytes consumed, the
table, and the error that stopped it. Every turn consumes a byte, so `fuel` starts
at the length of the input. -/
def parseFrom : ℕ → DynamicTable → Bytes → ℕ → Option (ℕ × DynamicTable × Option Error)
  | 0, dt, _, p => some (p, dt, none)
  | _ + 1, dt, [], p => some (p, dt, none)
  | fuel + 1, dt, src, p =>
    match dt.parseOneEncoderInstruction src with
    | none => none
    | some .needMore => some (p, dt, none)
    | some (.err e) => some (p, dt, some e)
    | some (.done n dt') => parseFrom fuel dt' (src.drop n) (p + n)

def parseEncoderInstructions (src : Bytes) : Option (ℕ × DynamicTable × Option Error) :=
  parseFrom src.length dt src 0

end DynamicTable

/-! ## What one instruction does -/

namespace DynamicTable

variable {dt dt' : DynamicTable} {src name value : Bytes} {n k : ℕ}

/-- The table after an instruction is that after an insertion or a change of the capacity. -/
def Changes (dt dt' : DynamicTable) : Prop :=
  (∃ name value, dt.insert name value = some (some dt')) ∨ ∃ c, dt.setCapacity c = some (.ok dt')

theorem applyInsert_done (h : dt.applyInsert name value k = some (.done n dt')) :
    n = k ∧ dt.Changes dt' := by
  obtain ⟨out, hinsert, hout⟩ := Option.map_eq_some_iff.mp h
  cases out with
  | none => cases hout
  | some dt₁ =>
    obtain ⟨hn, rfl⟩ := Parsed.done.inj hout
    exact ⟨hn.symm, .inl ⟨name, value, hinsert⟩⟩

theorem parseValue_done (h : dt.parseValue name src k = some (.done n dt')) :
    k < n ∧ n ≤ k + src.length ∧ dt.Changes dt' := by
  unfold parseValue at h
  cases hscan : scanLiteral src 7 with
  | short | malformed => simp [hscan] at h
  | ok value nv =>
    rw [hscan] at h
    obtain ⟨rfl, hchanges⟩ := applyInsert_done h
    have hle := scanLiteral_le hscan
    exact ⟨by omega, by omega, hchanges⟩

theorem parseValue_stands (more : Bytes) (h : dt.parseValue name src k ≠ some .needMore) :
    dt.parseValue name (src ++ more) k = dt.parseValue name src k := by
  unfold parseValue at h ⊢
  rw [scanLiteral_stands more]
  intro hshort
  rw [hshort] at h
  exact h rfl

/-- An integer at the front of an instruction, and what is done with it. -/
def withInt (src : Bytes) (k : ℕ) (f : ℕ → ℕ → Option Parsed) : Option Parsed :=
  match decodeInt src k with
  | .error e => some (needMoreOrErr e)
  | .ok (i, n) => f i n

variable {f g : ℕ → ℕ → Option Parsed}

theorem withInt_done (h : withInt src k f = some (.done n dt')) :
    ∃ i c, 0 < c ∧ c ≤ src.length ∧ f i c = some (.done n dt') := by
  unfold withInt at h
  cases hint : decodeInt src k with
  | error e =>
    rw [hint, Option.some.injEq] at h
    dsimp only [needMoreOrErr] at h
    split_ifs at h
  | ok r =>
    rw [hint] at h
    exact ⟨r.1, r.2, (decodeInt_ok hint).2.1, (decodeInt_ok hint).2.2, h⟩

theorem withInt_stands (more : Bytes) (h : withInt src k f ≠ some .needMore)
    (hf : ∀ i c, c ≤ src.length → f i c ≠ some .needMore → g i c = f i c) :
    withInt (src ++ more) k g = withInt src k f := by
  unfold withInt at h ⊢
  rw [decodeInt_append more]
  · cases hint : decodeInt src k with
    | error e => rfl
    | ok r =>
      rw [hint] at h
      exact hf r.1 r.2 (decodeInt_ok hint).2.2 h
  · intro htr
    rw [htr] at h
    exact h rfl

theorem parseInsertWithNameRef_done {static : Bool}
    (h : dt.parseInsertWithNameRef src static = some (.done n dt')) :
    0 < n ∧ n ≤ src.length ∧ dt.Changes dt' := by
  obtain ⟨idx, c, hpos, hle, h⟩ := withInt_done h
  have hvalue : ∀ {name : Bytes}, dt.parseValue name (src.drop c) c = some (.done n dt') →
      0 < n ∧ n ≤ src.length ∧ dt.Changes dt' := by
    intro name hdone
    obtain ⟨hlow, hhigh, hchanges⟩ := parseValue_done hdone
    rw [List.length_drop] at hhigh
    exact ⟨by omega, by omega, hchanges⟩
  split_ifs at h
  · cases h
  · exact hvalue h
  · obtain ⟨entry, -, h⟩ := Option.bind_eq_some_iff.mp h
    cases entry with
    | none => cases h
    | some e => exact hvalue h

theorem parseInsertWithNameRef_stands {static : Bool} (more : Bytes)
    (h : dt.parseInsertWithNameRef src static ≠ some .needMore) :
    dt.parseInsertWithNameRef (src ++ more) static = dt.parseInsertWithNameRef src static := by
  refine withInt_stands more h ?_
  intro idx c hle hidx
  rw [List.drop_append_of_le_length hle]
  split_ifs at hidx ⊢
  · rfl
  · exact parseValue_stands more hidx
  · rcases hentry : dt.atInsertCountRelative idx with _ | _ | e
    · rfl
    · rfl
    · rw [hentry] at hidx
      exact parseValue_stands more hidx

theorem parseInsertWithLiteralName_done
    (h : dt.parseInsertWithLiteralName src = some (.done n dt')) :
    0 < n ∧ n ≤ src.length ∧ dt.Changes dt' := by
  unfold parseInsertWithLiteralName at h
  cases hscan : scanLiteral src 5 with
  | short | malformed => simp [hscan] at h
  | ok name nn =>
    rw [hscan] at h
    obtain ⟨hlow, hhigh, hchanges⟩ := parseValue_done h
    rw [List.length_drop] at hhigh
    exact ⟨by omega, by omega, hchanges⟩

theorem parseInsertWithLiteralName_stands (more : Bytes)
    (h : dt.parseInsertWithLiteralName src ≠ some .needMore) :
    dt.parseInsertWithLiteralName (src ++ more) = dt.parseInsertWithLiteralName src := by
  unfold parseInsertWithLiteralName at h ⊢
  rw [scanLiteral_stands more]
  · cases hscan : scanLiteral src 5 with
    | short | malformed => rfl
    | ok name nn =>
      rw [hscan] at h
      dsimp only
      rw [List.drop_append_of_le_length (scanLiteral_le hscan).2]
      exact parseValue_stands more h
  · intro hshort
    rw [hshort] at h
    exact h rfl

theorem parseOne_done (h : dt.parseOneEncoderInstruction src = some (.done n dt')) :
    0 < n ∧ n ≤ src.length ∧ dt.Changes dt' := by
  unfold parseOneEncoderInstruction at h
  cases src with
  | nil => cases h
  | cons b src =>
    dsimp only at h
    split_ifs at h
    · exact parseInsertWithNameRef_done h
    · exact parseInsertWithLiteralName_done h
    · obtain ⟨c, m, hpos, hle, h⟩ := withInt_done h
      obtain ⟨out, hset, hout⟩ := Option.map_eq_some_iff.mp h
      cases out with
      | error e => cases hout
      | ok dt₁ =>
        obtain ⟨rfl, rfl⟩ := Parsed.done.inj hout
        exact ⟨hpos, hle, .inr ⟨c, hset⟩⟩
    · obtain ⟨idx, m, hpos, hle, h⟩ :=
        withInt_done h
      obtain ⟨entry, -, h⟩ := Option.bind_eq_some_iff.mp h
      cases entry with
      | none => cases h
      | some e =>
        obtain ⟨rfl, hchanges⟩ := applyInsert_done h
        exact ⟨hpos, hle, hchanges⟩

/-- An answer to an instruction stands whatever bytes follow. -/
theorem parseOne_stands (more : Bytes) (h : dt.parseOneEncoderInstruction src ≠ some .needMore)
    (hsrc : src ≠ []) :
    dt.parseOneEncoderInstruction (src ++ more) = dt.parseOneEncoderInstruction src := by
  obtain ⟨b, src, rfl⟩ := List.exists_cons_of_ne_nil hsrc
  unfold parseOneEncoderInstruction at h ⊢
  dsimp only [List.cons_append] at h ⊢
  split_ifs at h ⊢
  · exact parseInsertWithNameRef_stands more h
  · exact parseInsertWithLiteralName_stands more h
  · exact withInt_stands more h fun _ _ _ _ => rfl
  · exact withInt_stands more h fun _ _ _ _ => rfl

end DynamicTable

/-! ## The loop -/

def Parsed.step : Parsed → Step DynamicTable Error
  | .needMore => .wait
  | .err e => .fail e
  | .done n dt => .take n dt

def encoderParser : Parser DynamicTable UInt8 Error where
  step dt src := (dt.parseOneEncoderInstruction src).map Parsed.step
  size := by
    intro dt dt' src n h
    obtain ⟨out, hone, hout⟩ := Option.map_eq_some_iff.mp h
    cases out with
    | needMore | err => cases hout
    | done m dt₁ =>
      cases hout
      obtain ⟨hpos, hle, -⟩ := DynamicTable.parseOne_done hone
      exact ⟨hpos, hle⟩
  stands := by
    intro dt src more hsrc hwait
    rw [DynamicTable.parseOne_stands more _ hsrc]
    intro hmore
    rw [hmore] at hwait
    exact hwait rfl

theorem parseFrom_eq (fuel : ℕ) (dt : DynamicTable) (src : Bytes) (p : ℕ) :
    dt.parseFrom fuel src p = (encoderParser.loop fuel dt src).after p := by
  induction fuel generalizing dt src p with
  | zero => rfl
  | succ fuel ih =>
    cases src with
    | nil => rfl
    | cons b src =>
      simp only [DynamicTable.parseFrom, Parser.loop, encoderParser]
      rcases dt.parseOneEncoderInstruction (b :: src) with _ | _ | e | ⟨n, dt'⟩
      · rfl
      · rfl
      · rfl
      · exact (ih dt' _ _).trans (Result.after_after p n _).symm

theorem parseEncoderInstructions_eq : DynamicTable.parseEncoderInstructions = encoderParser.parse := by
  funext dt src
  exact (parseFrom_eq _ dt src 0).trans (Result.after_zero _)

/-! ## Instructions as they are written -/

/-- Set Dynamic Table Capacity. -/
def setCapacityInstruction (n : ℕ) : Bytes := encodeInteger 5 0x20 n

/-- The instruction that inserts an entry: with a static name reference when the
name has one, else with a literal name. -/
def insertInstruction (x : Bytes × Bytes) : Bytes :=
  match lookupStatic x.1 x.2 with
  | (idx, _, true) => encodeInteger 6 0xc0 idx ++ encodeStringLiteral x.2 7 0x00
  | (_, _, false) => encodeStringLiteral x.1 5 0x40 ++ encodeStringLiteral x.2 7 0x00

/-- Strings whose lengths a QPACK integer can carry. -/
def Sendable (x : Bytes × Bytes) : Prop := x.1.length < 2 ^ 62 ∧ x.2.length < 2 ^ 62

/-- On `dt` the parser takes `bytes` as one whole instruction that leads to `dt'`,
whatever follows. -/
def Takes (dt : DynamicTable) (bytes : Bytes) (dt' : DynamicTable) : Prop :=
  ∀ rest, dt.parseOneEncoderInstruction (bytes ++ rest) = some (.done bytes.length dt')

/-! ## One instruction -/

variable {dt dt' : DynamicTable} {b : UInt8} {tail : Bytes}

theorem and_0x40_eq_zero (b : UInt8) : b &&& 0x40 = 0 ↔ b.toNat / 64 % 2 = 0 :=
  @flag_eq_zero_iff 6 b (by decide)

theorem and_0x20_eq_zero (b : UInt8) : b &&& 0x20 = 0 ↔ b.toNat / 32 % 2 = 0 :=
  @flag_eq_zero_iff 5 b (by decide)

/-- The first byte selects the instruction. -/
theorem parseOne_of_cons {src : Bytes} (h : src = b :: tail) : dt.parseOneEncoderInstruction src =
    if 128 ≤ b.toNat then dt.parseInsertWithNameRef src (b.toNat / 64 % 2 = 1)
    else if 64 ≤ b.toNat then dt.parseInsertWithLiteralName src
    else if 32 ≤ b.toNat then dt.parseSetCapacity src
    else dt.parseDuplicate src := by
  subst h
  simp only [DynamicTable.parseOneEncoderInstruction, ne_eq, Hpack.and_0x80_eq_zero,
    and_0x40_eq_zero, and_0x20_eq_zero, Nat.mod_two_not_eq_zero, Nat.not_lt]
  split_ifs <;> first | rfl | omega

theorem encodeStringLiteral_cons {k : ℕ} {base : UInt8} (h : Shape k base) (s : Bytes) :
    ∃ b tail v, encodeStringLiteral s k base = b :: tail ∧ v < 2 ^ (k + 1) ∧
      b.toNat = base.toNat + v := by
  have hk : k ≤ 8 := h.le.trans (by decide)
  obtain ⟨hsum, hflag, hbase⟩ := h.flagged
  by_cases hshort : huffmanEncodedLen s < s.length
  · obtain ⟨b, tail, v, henc, hv, hb⟩ :=
      Hpack.encodeInteger_cons (huffmanEncodedLen s) hk hflag
    exact ⟨b, tail ++ huffmanEncode s, 2 ^ k + v,
      by simp [encodeStringLiteral, hshort, henc], by omega, by omega⟩
  · obtain ⟨b, tail, v, henc, hv, hb⟩ := Hpack.encodeInteger_cons s.length hk hbase
    exact ⟨b, tail ++ s, v, by simp [encodeStringLiteral, hshort, henc], by omega, by omega⟩

theorem parseValue_encodeStringLiteral {name value : Bytes} (rest : Bytes) (n : ℕ)
    (hv : value.length < 2 ^ 62) (hins : dt.insert name value = some (some dt')) :
    dt.parseValue name (encodeStringLiteral value 7 0x00 ++ rest) n =
      some (.done (n + (encodeStringLiteral value 7 0x00).length) dt') := by
  simp only [DynamicTable.parseValue, scanLiteral_encodeStringLiteral shape_value hv,
    DynamicTable.applyInsert, hins, Option.map_some]

theorem takes_setCapacity {n : ℕ} (hn : n < 2 ^ 62) (hset : dt.setCapacity n = some (.ok dt')) :
    Takes dt (setCapacityInstruction n) dt' := by
  obtain ⟨b, tail, v, henc, hv, hb⟩ :=
    Hpack.encodeInteger_cons (n := 5) (p := 0x20) n (by decide) (by decide)
  have hb' : b.toNat = 32 + v := hb
  rw [setCapacityInstruction]
  intro rest
  rw [parseOne_of_cons (congrArg (· ++ rest) henc), if_neg (by omega), if_neg (by omega),
    if_pos (by omega)]
  simp only [DynamicTable.parseSetCapacity,
    decodeInt_encodeInteger rest (by decide) (show (0x20 : UInt8).toNat % 2 ^ 5 = 0 by decide) hn,
    hset, Option.map_some]

/-- An insertion with a static name reference. -/
theorem takes_insertWithNameRef {idx : ℕ} {value : Bytes} (hidx : idx < staticTable.length)
    (hv : value.length < 2 ^ 62) (hins : dt.insert (staticRow idx).1 value = some (some dt')) :
    Takes dt (encodeInteger 6 0xc0 idx ++ encodeStringLiteral value 7 0x00) dt' := by
  have hi : idx < 2 ^ 62 := by rw [length_staticTable] at hidx; omega
  have hp : (0xc0 : UInt8).toNat % 2 ^ 6 = 0 := by decide
  obtain ⟨b, tail, v, henc, hvlt, hb⟩ := Hpack.encodeInteger_cons idx (by decide) hp
  have hb' : b.toNat = 192 + v := hb
  intro rest
  rw [List.append_assoc, parseOne_of_cons (congrArg (· ++ _) henc), if_pos (by omega),
    decide_eq_true (by omega)]
  simp only [DynamicTable.parseInsertWithNameRef, decodeInt_encodeInteger _ (by decide) hp hi,
    if_true, if_neg (Nat.not_le.mpr hidx), List.drop_left,
    parseValue_encodeStringLiteral rest _ hv hins, List.length_append]

/-- An insertion with a literal name. -/
theorem takes_insertWithLiteralName {x : Bytes × Bytes} (hx : Sendable x)
    (hins : dt.insert x.1 x.2 = some (some dt')) :
    Takes dt (encodeStringLiteral x.1 5 0x40 ++ encodeStringLiteral x.2 7 0x00) dt' := by
  obtain ⟨b, tail, v, henc, hvlt, hb⟩ := encodeStringLiteral_cons shape_instrName x.1
  have hb' : b.toNat = 64 + v := hb
  intro rest
  rw [List.append_assoc, parseOne_of_cons (congrArg (· ++ _) henc), if_neg (by omega),
    if_pos (by omega)]
  simp only [DynamicTable.parseInsertWithLiteralName,
    scanLiteral_encodeStringLiteral shape_instrName hx.1, List.drop_left,
    parseValue_encodeStringLiteral rest _ hx.2 hins, List.length_append]

theorem takes_insertInstruction {x : Bytes × Bytes} (hx : Sendable x)
    (hins : dt.insert x.1 x.2 = some (some dt')) : Takes dt (insertInstruction x) dt' := by
  obtain ⟨idx, exact, nameMatch, hl⟩ : ∃ idx exact nameMatch,
      lookupStatic x.1 x.2 = (idx, exact, nameMatch) := ⟨_, _, _, rfl⟩
  rw [insertInstruction, hl]
  cases nameMatch with
  | true =>
    obtain ⟨hidx, hname, -⟩ := lookupStatic_row hl (.inr rfl)
    exact takes_insertWithNameRef hidx hx.2 (hname ▸ hins)
  | false => exact takes_insertWithLiteralName hx hins

/-! ## The stream that is still to come -/

/-- The entries of a table under the capacity its owner chose. -/
structure Fits (maxCapacity capacity : ℕ) (l : List (Bytes × Bytes)) : Prop where
  le_max : capacity ≤ maxCapacity
  bound : capacity ≤ DynamicTable.capacityBound
  weight : Fifo.weight pairSize l ≤ capacity

/-- `bytes` are the instructions that bring the table `peer` to the entries `l`. -/
inductive Remaining (maxCapacity capacity : ℕ) (l : List (Bytes × Bytes)) :
    DynamicTable → Bytes → Prop
  /-- Before the capacity was set. -/
  | fresh {peer : DynamicTable} (hmax : peer.maxCapacity = maxCapacity) (hrep : peer.Rep []) :
    Remaining maxCapacity capacity l peer
      (setCapacityInstruction capacity ++ l.flatMap insertInstruction)
  /-- After `k` insertions. -/
  | inserted {peer : DynamicTable} (k : ℕ) (hk : k ≤ l.length)
    (hmax : peer.maxCapacity = maxCapacity) (hcap : peer.capacity = capacity)
    (hrep : peer.Rep (l.take k)) :
    Remaining maxCapacity capacity l peer ((l.drop k).flatMap insertInstruction)

namespace Remaining

variable {maxCapacity capacity : ℕ} {l : List (Bytes × Bytes)} {peer : DynamicTable}
  {bytes : Bytes}

/-- The table holds an initial part of the entries. -/
theorem exists_rep (h : Remaining maxCapacity capacity l peer bytes) :
    ∃ k ≤ l.length, peer.maxCapacity = maxCapacity ∧ peer.Rep (l.take k) := by
  cases h with
  | fresh hmax hrep => exact ⟨0, Nat.zero_le _, hmax, by rwa [List.take_zero]⟩
  | inserted k hk hmax _ hrep => exact ⟨k, hk, hmax, hrep⟩

/-- Entries more to insert are instructions more at the end. -/
theorem append (h : Remaining maxCapacity capacity l peer bytes)
    (added : List (Bytes × Bytes)) :
    Remaining maxCapacity capacity (l ++ added) peer
      (bytes ++ added.flatMap insertInstruction) := by
  cases h with
  | fresh hmax hrep =>
    rw [List.append_assoc, ← List.flatMap_append]
    exact .fresh hmax hrep
  | inserted k hk hmax hcap hrep =>
    rw [← List.flatMap_append, ← List.drop_append_of_le_length hk]
    refine .inserted k (hk.trans (by simp)) hmax hcap ?_
    rwa [List.take_append_of_le_length hk]

/-- What is left of the stream is nothing, or starts with an instruction the table
takes and goes on with what is then left. -/
theorem next (hf : Fits maxCapacity capacity l) (h : Remaining maxCapacity capacity l peer bytes) :
    bytes = [] ∨ ∃ b rest peer', bytes = b ++ rest ∧ Takes peer b peer' ∧
      Remaining maxCapacity capacity l peer' rest ∧ peer.insertCount ≤ peer'.insertCount := by
  have hbound : capacity ≤ 2 ^ 32 + 31 := hf.bound
  cases h with
  | fresh hmax hrep =>
    right
    obtain ⟨hset, hrep'⟩ := hrep.setCapacity (hmax ▸ hf.le_max) hf.bound
      (by rw [hrep.size]; exact Nat.zero_le _)
    refine ⟨_, _, _, rfl, takes_setCapacity (by omega) hset, ?_, le_rfl⟩
    exact .inserted 0 (Nat.zero_le _) hmax rfl hrep'
  | inserted k hk hmax hcap hrep =>
    rcases Nat.lt_or_eq_of_le hk with hlt | rfl
    · right
      have hdrop : l.drop k = l[k] :: l.drop (k + 1) := List.drop_eq_getElem_cons hlt
      have htake : l.take (k + 1) = l.take k ++ [l[k]] := (List.take_concat_get' l k hlt).symm
      -- an initial part of the entries weighs no more than all of them
      have hle : Fifo.weight pairSize (l.take (k + 1)) ≤ Fifo.weight pairSize l :=
        Fifo.weight_le_of_prefix (List.take_prefix _ _)
      have hsum : Fifo.weight pairSize (l.take (k + 1)) =
          Fifo.weight pairSize (l.take k) + pairSize l[k] := by
        rw [htake, Fifo.weight_append]
        rfl
      have hweight := hf.weight
      have hsize := hrep.size
      obtain ⟨peer', hins, hrep', hmax', hcap'⟩ :=
        @DynamicTable.Rep.insert peer (l.take k) hrep l[k].1 l[k].2 (by
          show peer.size + pairSize l[k] ≤ peer.capacity
          omega)
      have hsend : Sendable l[k] := by
        have hpair : pairSize l[k] = l[k].1.length + l[k].2.length + 32 := rfl
        constructor <;> omega
      refine ⟨insertInstruction l[k], (l.drop (k + 1)).flatMap insertInstruction, peer', ?_,
        takes_insertInstruction hsend hins, ?_, ?_⟩
      · rw [hdrop, List.flatMap_cons]
      · refine .inserted (k + 1) hlt (hmax'.trans hmax) (hcap'.trans hcap) ?_
        rwa [htake]
      · rw [hrep.insertCount, hrep'.insertCount, List.length_append]
        exact Nat.le_add_right _ _
    · left
      simp

/-- Delivery of any initial part of the remaining stream: whole instructions are
applied, a partial one is left, nothing is rejected. -/
theorem parse (hf : Fits maxCapacity capacity l) {src more : Bytes}
    (h : Remaining maxCapacity capacity l peer (src ++ more)) :
    ∃ n peer', peer.parseEncoderInstructions src = some (n, peer', none) ∧
      Remaining maxCapacity capacity l peer' (src.drop n ++ more) ∧
      peer.insertCount ≤ peer'.insertCount := by
  rw [parseEncoderInstructions_eq]
  apply encoderParser.parse_of_rest fun dt bytes =>
    Remaining maxCapacity capacity l dt bytes ∧ peer.insertCount ≤ dt.insertCount
  · rintro dt bytes ⟨hrem, hle⟩
    rcases hrem.next hf with hnil | ⟨b, rest, dt', hsplit, htakes, hrest, hcount⟩
    · exact .inl hnil
    · have hdone := htakes []
      rw [List.append_nil] at hdone
      exact .inr ⟨b, rest, dt', hsplit, by simp [encoderParser, hdone, Parsed.step], hrest,
        hle.trans hcount⟩
  · exact ⟨h, le_rfl⟩

end Remaining

/-! ## The insert count -/

namespace DynamicTable

variable {src : Bytes} {n : ℕ}

/-- An instruction counts at most one insert, on a 64-bit counter. -/
def CountsOne (dt dt' : DynamicTable) : Prop :=
  dt'.insertCount = dt.insertCount ∨ dt'.insertCount = (dt.insertCount + 1) % u64

theorem countsOne_parseOne (h : dt.parseOneEncoderInstruction src = some (.done n dt')) :
    dt.CountsOne dt' := by
  rcases (parseOne_done h).2.2 with ⟨name, value, hinsert⟩ | ⟨c, hset⟩
  · exact .inr (insertCount_insert hinsert)
  · exact .inl (insertCount_setCapacity hset)

/-- While the counter does not wrap, the bytes of a pass count inserts, each at most one. -/
theorem insertCount_parse {perr : Option Error} (hroom : dt.insertCount + src.length < u64)
    (h : dt.parseEncoderInstructions src = some (n, dt', perr)) :
    dt.insertCount ≤ dt'.insertCount ∧ dt'.insertCount ≤ dt.insertCount + src.length := by
  rw [parseEncoderInstructions_eq] at h
  have hitems := (encoderParser.items_of_parse h).1
  clear h
  induction hitems with
  | nil => exact ⟨le_rfl, Nat.le_add_right _ _⟩
  | @cons dt dt₁ _ src n _ hstep _ ih =>
    have hsize := encoderParser.size hstep
    obtain ⟨out, hone, hout⟩ := Option.map_eq_some_iff.mp hstep
    cases out <;> cases hout
    have hcount : dt₁.insertCount = dt.insertCount ∨ dt₁.insertCount = dt.insertCount + 1 := by
      rcases countsOne_parseOne hone with hsame | hmore
      · exact .inl hsame
      · rw [Nat.mod_eq_of_lt (by omega)] at hmore
        exact .inr hmore
    rw [List.length_drop] at ih
    omega

end DynamicTable

end Qpack
