import PoseidonHttp.Qpack.Encoder

/-!
# The QPACK decoder

`qpack/decoder.go`: field sections are resolved against a table, or against none in
the static-only profile. A section is decoded at once; nothing waits for the encoder
stream.

`decodeFieldSection_eq`: a section written by the encoder, decoded with any table
that holds the entries it references, is emitted field by field.
-/

namespace Qpack

open Header (Bytes Field)
open Hpack (encodeInteger)
open Encoder (encodeRequiredInsertCount fieldLine fieldLines sectionPrefix nameRefLine literalLine)

/-- Why decoding stopped: an error of the package, an error of `emit`, or a slice
out of bounds. -/
inductive Fault (E : Type) where
  | err (e : Error)
  | emit (e : E)
  | panic
  deriving DecidableEq

/-- The `emit` callback, over a state of its own. -/
abbrev Emit (σ E : Type) := σ → Bytes × Bytes → σ × Option E

namespace Decoder

variable {σ E : Type}

/-- The decoding of the required insert count. -/
def reqInsertCountFromEncoded (encInsertCount maxEntries totalInserts : ℕ) : Except Error ℕ :=
  if encInsertCount = 0 then .ok 0
  else
    let fullRange := 2 * maxEntries
    if fullRange = 0 ∨ fullRange < encInsertCount then .error .decompressionFailed
    else
      let maxValue := (totalInserts + maxEntries) % u64
      let maxWrapped := maxValue / fullRange * fullRange
      let ric := (maxWrapped + encInsertCount - 1) % u64
      if maxValue < ric ∧ ric ≤ fullRange then .error .decompressionFailed
      else
        let ric := if maxValue < ric then ric - fullRange else ric
        if ric = 0 then .error .decompressionFailed else .ok ric

/-- Without a table there are no entries. -/
def decodeRequiredInsertCount (encInsertCount : ℕ) : Option DynamicTable → Except Error ℕ
  | none => reqInsertCountFromEncoded encInsertCount 0 0
  | some dt => reqInsertCountFromEncoded encInsertCount dt.maxEntries dt.insertCount

/-- The base, the required insert count and the bytes of the section prefix. -/
def parsePrefix (src : Bytes) (dt : Option DynamicTable) : Except Error (ℕ × ℕ × ℕ) :=
  match decodeInt src 8 with
  | .error _ => .error .decompressionFailed
  | .ok (encIC, n) =>
    match decodeRequiredInsertCount encIC dt with
    | .error e => .error e
    | .ok ric =>
      match src.drop n with
      | [] => .error .decompressionFailed
      | b :: rest =>
        match decodeInt (b :: rest) 7 with
        | .error _ => .error .decompressionFailed
        | .ok (delta, m) =>
          if b &&& 0x80 ≠ 0 then
            if ric < delta + 1 then .error .decompressionFailed
            else .ok (ric - delta - 1, ric, n + m)
          else .ok ((ric + delta) % u64, ric, n + m)

def baseRelativeWithinRIC (base ric relIndex : ℕ) : Bool :=
  relIndex < base ∧ base - relIndex - 1 < ric

def postBaseWithinRIC (base ric postIndex : ℕ) : Bool :=
  let abs := (base + postIndex) % u64
  base ≤ abs ∧ abs < ric

/-- `readString`: the string and the bytes it took. -/
def readString (src : Bytes) (prefixBits : ℕ) : Except (Fault E) (Bytes × ℕ) :=
  match scanLiteral src prefixBits with
  | .ok s n => .ok (s, n)
  | _ => .error (.err .decompressionFailed)

/-- The answer of a table lookup as a result. -/
def resolved (r : Option (Option (Bytes × Bytes))) : Except (Fault E) (Bytes × Bytes) :=
  match r with
  | none => .error .panic
  | some none => .error (.err .decompressionFailed)
  | some (some e) => .ok e

/-- `resolveIndexed`; `resolveNameRef` takes the name of the same entry. -/
def resolveIndexed (dt : Option DynamicTable) (base ric idx : ℕ) (static : Bool) :
    Except (Fault E) (Bytes × Bytes) :=
  if static then
    if staticTable.length ≤ idx then .error (.err .decompressionFailed) else .ok (staticRow idx)
  else
    match dt with
    | none => .error (.err .decompressionFailed)
    | some dt =>
      if baseRelativeWithinRIC base ric idx then resolved (dt.atBaseRelative base idx)
      else .error (.err .decompressionFailed)

/-- The entry a post-base index names. -/
def resolvePostBase (dt : Option DynamicTable) (base ric idx : ℕ) :
    Except (Fault E) (Bytes × Bytes) :=
  match dt with
  | none => .error (.err .decompressionFailed)
  | some dt =>
    if postBaseWithinRIC base ric idx then resolved (dt.atPostBase base idx)
    else .error (.err .decompressionFailed)

/-- Emit a field; `n` bytes are consumed when the callback takes it. -/
def emitted (emit : Emit σ E) (s : σ) (x : Bytes × Bytes) (n : ℕ) : σ × Except (Fault E) ℕ :=
  match emit s x with
  | (s, none) => (s, .ok n)
  | (s, some e) => (s, .error (.emit e))

/-- An integer that names an entry, which is emitted whole. -/
def decodeEntry (emit : Emit σ E) (s : σ) (src : Bytes) (prefixBits : ℕ)
    (resolve : ℕ → Except (Fault E) (Bytes × Bytes)) : σ × Except (Fault E) ℕ :=
  match decodeInt src prefixBits with
  | .error _ => (s, .error (.err .decompressionFailed))
  | .ok (idx, n) =>
    match resolve idx with
    | .error e => (s, .error e)
    | .ok x => emitted emit s x n

/-- An integer that names an entry, whose name is emitted with a literal value. -/
def decodeNamed (emit : Emit σ E) (s : σ) (src : Bytes) (prefixBits : ℕ)
    (resolve : ℕ → Except (Fault E) (Bytes × Bytes)) : σ × Except (Fault E) ℕ :=
  match decodeInt src prefixBits with
  | .error _ => (s, .error (.err .decompressionFailed))
  | .ok (idx, n) =>
    match resolve idx with
    | .error e => (s, .error e)
    | .ok x =>
      match readString (src.drop n) 7 with
      | .error e => (s, .error e)
      | .ok (value, nv) => emitted emit s (x.1, value) (n + nv)

def decodeLiteralName (emit : Emit σ E) (s : σ) (src : Bytes) : σ × Except (Fault E) ℕ :=
  match readString src 3 with
  | .error e => (s, .error e)
  | .ok (name, nn) =>
    match readString (src.drop nn) 7 with
    | .error e => (s, .error e)
    | .ok (value, nv) => emitted emit s (name, value) (nn + nv)

/-- One field line: the bytes consumed. -/
def decodeLine (emit : Emit σ E) (dt : Option DynamicTable) (base ric : ℕ) (s : σ)
    (src : Bytes) : σ × Except (Fault E) ℕ :=
  match src with
  | [] => (s, .ok 0)
  | b :: _ =>
    if b &&& 0x80 ≠ 0 then
      decodeEntry emit s src 6 fun idx => resolveIndexed dt base ric idx (b &&& 0x40 ≠ 0)
    else if b &&& 0x40 ≠ 0 then
      decodeNamed emit s src 4 fun idx => resolveIndexed dt base ric idx (b &&& 0x10 ≠ 0)
    else if b &&& 0x20 ≠ 0 then decodeLiteralName emit s src
    else if b &&& 0x10 ≠ 0 then decodeEntry emit s src 4 (resolvePostBase dt base ric)
    else decodeNamed emit s src 3 (resolvePostBase dt base ric)

/-- The loop over the field lines. Every turn consumes a byte, so `fuel` starts at
the length of the input. -/
def decodeLines (emit : Emit σ E) (dt : Option DynamicTable) (base ric : ℕ) :
    ℕ → σ → Bytes → σ × Option (Fault E)
  | 0, s, _ => (s, none)
  | _ + 1, s, [] => (s, none)
  | fuel + 1, s, src =>
    match decodeLine emit dt base ric s src with
    | (s, .error e) => (s, some e)
    | (s, .ok n) => decodeLines emit dt base ric fuel s (src.drop n)

/-- The table is still short of the required insert count. -/
def behind (ric : ℕ) : Option DynamicTable → Bool
  | none => true
  | some dt => dt.insertCount < ric

/-- `DecodeFieldSection`. -/
def decodeFieldSection (emit : Emit σ E) (s : σ) (src : Bytes) (dt : Option DynamicTable) :
    σ × Option (Fault E) :=
  match parsePrefix src dt with
  | .error e => (s, some (.err e))
  | .ok (base, ric, p) =>
    if 0 < ric ∧ behind ric dt then (s, some (.err .decompressionFailed))
    else decodeLines emit dt base ric src.length s (src.drop p)

/-! ## What the encoder wrote -/

/-- Emit fields in order until the callback refuses one. -/
def emitAll (emit : Emit σ E) : σ → List (Bytes × Bytes) → σ × Option (Fault E)
  | s, [] => (s, none)
  | s, x :: xs =>
    match emit s x with
    | (s, none) => emitAll emit s xs
    | (s, some e) => (s, some (.emit e))

variable {emit : Emit σ E} {dt : DynamicTable} {s : σ} {f : Field} {base ric : ℕ} {idx : ℕ}

theorem and_0x10_eq_zero (b : UInt8) : b &&& 0x10 = 0 ↔ b.toNat / 16 % 2 = 0 :=
  @flag_eq_zero_iff 4 b (by decide)

theorem readString_encodeStringLiteral {k : ℕ} {p : UInt8} (h : Shape k p) {t : Bytes}
    (ht : t.length < 2 ^ 62) (rest : Bytes) :
    readString (E := E) (encodeStringLiteral t k p ++ rest) k =
      .ok (t, (encodeStringLiteral t k p).length) := by
  rw [readString, scanLiteral_encodeStringLiteral h ht rest]

theorem lt_of_static (h : idx < staticTable.length) : idx < 2 ^ 62 := by
  rw [length_staticTable] at h
  omega

/-- A static index, either in an indexed line or as a name. -/
theorem resolveIndexed_static (h : idx < staticTable.length) (dt : Option DynamicTable) :
    resolveIndexed (E := E) dt base ric idx true = .ok (staticRow idx) := by
  simp [resolveIndexed, h]

/-- The first byte selects the form of a line. -/
theorem decodeLine_of_cons {src tail : Bytes} {b : UInt8} {dt : Option DynamicTable}
    (h : src = b :: tail) : decodeLine emit dt base ric s src =
      if 128 ≤ b.toNat then
        decodeEntry emit s src 6 fun idx => resolveIndexed dt base ric idx (b.toNat / 64 % 2 = 1)
      else if 64 ≤ b.toNat then
        decodeNamed emit s src 4 fun idx => resolveIndexed dt base ric idx (b.toNat / 16 % 2 = 1)
      else if 32 ≤ b.toNat then decodeLiteralName emit s src
      else if 16 ≤ b.toNat then decodeEntry emit s src 4 (resolvePostBase dt base ric)
      else decodeNamed emit s src 3 (resolvePostBase dt base ric) := by
  subst h
  simp only [decodeLine, ne_eq, Hpack.and_0x80_eq_zero, and_0x40_eq_zero, and_0x20_eq_zero,
    and_0x10_eq_zero, Nat.mod_two_not_eq_zero, Nat.not_lt]
  split_ifs <;> first | rfl | omega

/-- An indexed line: the bit after the first tells the table. -/
theorem decodeLine_indexed {static : Bool} {p : UInt8} {x : Bytes × Bytes}
    {dt : Option DynamicTable} (hp : p = if static then 0xc0 else 0x80) (hidx : idx < 2 ^ 62)
    (hres : resolveIndexed (E := E) dt base ric idx static = .ok x) (rest : Bytes) :
    decodeLine emit dt base ric s (encodeInteger 6 p idx ++ rest) =
      emitted emit s x (encodeInteger 6 p idx).length := by
  have hlow : p.toNat % 2 ^ 6 = 0 ∧ p.toNat = 128 + 64 * static.toNat := by
    rw [hp]
    cases static <;> decide
  obtain ⟨b, tail, v, henc, hv, hb⟩ := Hpack.encodeInteger_cons idx (by decide) hlow.1
  have hstatic : decide (b.toNat / 64 % 2 = 1) = static := by
    rw [hb, hlow.2]
    cases static <;> simp <;> omega
  rw [decodeLine_of_cons (congrArg (· ++ rest) henc), if_pos (by omega), hstatic]
  simp only [decodeEntry, decodeInt_encodeInteger rest (by decide) hlow.1 hidx, hres]

theorem resolveIndexed_dynamic {abs : ℕ} {x : Bytes × Bytes} (habs : abs < ric)
    (hx : dt.entryAt abs = some (some x)) :
    resolveIndexed (E := E) (some dt) ric ric (ric - abs - 1) false = .ok x := by
  -- the base-relative index leads back to the absolute one
  have hback : ric - (ric - abs - 1) - 1 = abs := by omega
  have hrel : ¬ ric ≤ ric - abs - 1 := by omega
  have hin : baseRelativeWithinRIC ric ric (ric - abs - 1) = true := by
    simp only [baseRelativeWithinRIC, decide_eq_true_eq]
    omega
  simp only [resolveIndexed, Bool.false_eq_true, if_false, hin, if_true,
    DynamicTable.atBaseRelative, if_neg hrel, hback, hx, resolved]

theorem decodeLine_nameRef (hidx : idx < staticTable.length)
    (hname : (staticRow idx).1 = f.name) (hv : f.value.length < 2 ^ 62)
    (dt : Option DynamicTable) (rest : Bytes) :
    decodeLine emit dt base ric s (nameRefLine f idx ++ rest) =
      emitted emit s f.pair (nameRefLine f idx).length := by
  have hp : (Encoder.staticNameRefByte f.sensitive).toNat % 2 ^ 4 = 0 := by
    cases f.sensitive <;> decide
  obtain ⟨b, tail, v, henc, hvlt, hb⟩ := Hpack.encodeInteger_cons idx (by decide) hp
  -- both forms of the line have the reference and the static bit
  have hb' : b.toNat = 80 + v ∨ b.toNat = 112 + v := by
    rw [hb]
    cases f.sensitive
    · exact .inl rfl
    · exact .inr rfl
  rw [nameRefLine, List.append_assoc, decodeLine_of_cons (congrArg (· ++ _) henc),
    if_neg (by omega), if_pos (by omega), decide_eq_true (by omega)]
  simp only [decodeNamed, decodeInt_encodeInteger _ (by decide) hp (lt_of_static hidx),
    resolveIndexed_static hidx, List.drop_left, readString_encodeStringLiteral shape_value hv,
    hname, List.length_append, Field.pair]

theorem decodeLine_literal (hsend : Sendable f.pair) (dt : Option DynamicTable) (rest : Bytes) :
    decodeLine emit dt base ric s (literalLine f ++ rest) =
      emitted emit s f.pair (literalLine f).length := by
  have hshape := shape_lineName f.sensitive
  have hname : f.name.length < 2 ^ 62 := hsend.1
  have hvalue : f.value.length < 2 ^ 62 := hsend.2
  obtain ⟨b, tail, v, henc, hv, hb⟩ := encodeStringLiteral_cons hshape f.name
  have hb' : b.toNat = 32 + v ∨ b.toNat = 48 + v := by
    rw [hb]
    cases f.sensitive
    · exact .inl rfl
    · exact .inr rfl
  rw [literalLine, encodeLiteralName, List.append_assoc,
    decodeLine_of_cons (congrArg (· ++ _) henc), if_neg (by omega), if_neg (by omega),
    if_pos (by omega)]
  simp only [decodeLiteralName, readString_encodeStringLiteral hshape hname, List.drop_left,
    readString_encodeStringLiteral shape_value hvalue, List.length_append, Field.pair]

/-- A table serves a representation when it holds the entry it references. -/
def Serves (dt : DynamicTable) (ric : ℕ) (f : Field) : FieldRep → Prop
  | .staticIndexed idx => idx < staticTable.length ∧ staticRow idx = f.pair
  | .dynamicIndexed abs => abs < ric ∧ dt.entryAt abs = some (some f.pair)
  | .staticNameRef idx => idx < staticTable.length ∧ (staticRow idx).1 = f.name
  | .literal => True

theorem decodeLine_fieldLine {rep : FieldRep} (hric : ric < 2 ^ 62) (hsend : Sendable f.pair)
    (h : Serves dt ric f rep) (rest : Bytes) :
    decodeLine emit (some dt) ric ric s (fieldLine ric f rep ++ rest) =
      emitted emit s f.pair (fieldLine ric f rep).length := by
  cases rep with
  | staticIndexed idx =>
    rw [← h.2]
    exact decodeLine_indexed rfl (lt_of_static h.1) (resolveIndexed_static h.1 _) rest
  | dynamicIndexed abs =>
    exact decodeLine_indexed rfl (by omega) (resolveIndexed_dynamic h.1 h.2) rest
  | staticNameRef idx => exact decodeLine_nameRef h.1 h.2 hsend.2 _ rest
  | literal => exact decodeLine_literal hsend _ rest

theorem fieldLine_ne_nil (rep : FieldRep) : fieldLine base f rep ≠ [] := by
  have hint : ∀ (n i : ℕ) (p : UInt8), n ≤ 8 → p.toNat % 2 ^ n = 0 → encodeInteger n p i ≠ [] := by
    intro n i p hn hp
    obtain ⟨b, tail, v, henc, -⟩ := Hpack.encodeInteger_cons i hn hp
    simp [henc]
  cases rep with
  | staticIndexed idx => exact hint 6 idx 0xc0 (by decide) (by decide)
  | dynamicIndexed abs => exact hint 6 (base - abs - 1) 0x80 (by decide) (by decide)
  | staticNameRef idx =>
    have hp : (Encoder.staticNameRefByte f.sensitive).toNat % 2 ^ 4 = 0 := by
      cases f.sensitive <;> decide
    simp [fieldLine, nameRefLine, hint 4 idx _ (by decide) hp]
  | literal =>
    obtain ⟨b, tail, v, henc, -⟩ := encodeStringLiteral_cons (shape_lineName f.sensitive) f.name
    simp [fieldLine, literalLine, encodeLiteralName, henc]

/-- The lines of a section are emitted in order. -/
theorem decodeLines_fieldLines (hric : ric < 2 ^ 62) {fields : List Field} {reps : List FieldRep}
    (hsend : ∀ f ∈ fields, Sendable f.pair) (h : List.Forall₂ (Serves dt ric) fields reps)
    (fuel : ℕ) (hfuel : (fieldLines ric fields reps).length ≤ fuel) (s : σ) :
    decodeLines emit (some dt) ric ric fuel s (fieldLines ric fields reps) =
      emitAll emit s (fields.map Field.pair) := by
  induction h generalizing fuel s with
  | nil => cases fuel <;> rfl
  | @cons f rep fields reps hone hall ih =>
    have hsplit : fieldLines ric (f :: fields) (rep :: reps) =
        fieldLine ric f rep ++ fieldLines ric fields reps := rfl
    have hpos : 0 < (fieldLine ric f rep).length :=
      List.length_pos_of_ne_nil (fieldLine_ne_nil rep)
    rw [hsplit, List.length_append] at hfuel
    obtain ⟨fuel, rfl⟩ : ∃ n, fuel = n + 1 := ⟨fuel - 1, by omega⟩
    have hline := @decodeLine_fieldLine σ E emit dt s f ric rep hric
      (hsend f List.mem_cons_self) hone (fieldLines ric fields reps)
    obtain ⟨b, tail, hcons⟩ := List.exists_cons_of_ne_nil (@fieldLine_ne_nil f ric rep)
    rw [hsplit, hcons, List.cons_append]
    simp only [decodeLines]
    rw [← List.cons_append, ← hcons, hline, emitted, List.map_cons, emitAll]
    cases hem : emit s f.pair with
    | mk s' r =>
      cases r with
      | some e => rfl
      | none =>
        simp only [List.drop_left]
        exact ih (fun g hg => hsend g (List.mem_cons_of_mem f hg)) fuel (by omega) s'

section InsertCount

variable {M T e r r' : ℕ}

/-- The counts the wraparound leaves possible: one of the `2 * M` around the total, with the residue
that was sent. -/
def InWindow (M T e r : ℕ) : Prop := r ≡ e - 1 [MOD 2 * M] ∧ T < r + M ∧ r ≤ T + M

theorem InWindow.unique (h : InWindow M T e r) (h' : InWindow M T e r') : r = r' := by
  wlog hle : r ≤ r' with hsymm
  · exact (hsymm h' h (by omega)).symm
  · have hdvd := (Nat.modEq_iff_dvd' hle).mp (h.1.trans h'.1.symm)
    have hlt : r' - r < 2 * M := by
      have hlow := h.2.1
      have hhigh := h'.2.2
      omega
    have hzero := Nat.eq_zero_of_dvd_of_lt hdvd hlt
    omega

/-- The decoding finds the count in the window, and refuses when there is none. -/
theorem reqInsertCountFromEncoded_eq_ok (hM : 1 ≤ M) (hmax : M < 2 ^ 59) (hT : T < 2 ^ 62)
    (hr : 0 < r) :
    reqInsertCountFromEncoded e M T = .ok r ↔ 1 ≤ e ∧ e ≤ 2 * M ∧ InWindow M T e r := by
  unfold reqInsertCountFromEncoded
  split_ifs
  · constructor
    · intro h
      have hzero := Except.ok.inj h
      omega
    · intro h
      omega
  · dsimp only
    by_cases hrange : 2 * M = 0 ∨ 2 * M < e
    · rw [if_pos hrange]
      constructor
      · intro h
        cases h
      · intro h
        omega
    · rw [if_neg hrange]
      have hu : u64 = 2 ^ 64 := rfl
      have hvalue : (T + M) % u64 = T + M := Nat.mod_eq_of_lt (by omega)
      have hlow := Nat.div_mul_le_self (T + M) (2 * M)
      have hhigh := Nat.lt_div_mul_add (a := T + M) (show 0 < 2 * M by omega)
      have hmult : 2 * M ∣ (T + M) / (2 * M) * (2 * M) := Nat.dvd_mul_left _ _
      rw [hvalue]
      generalize (T + M) / (2 * M) * (2 * M) = w at hlow hhigh hmult
      have hric : (w + e - 1) % u64 = w + (e - 1) := by
        rw [Nat.mod_eq_of_lt (by omega)]
        omega
      have hres : w + (e - 1) ≡ e - 1 [MOD 2 * M] := by
        simpa using ((Nat.modEq_zero_iff_dvd.mpr hmult).add_right (e - 1))
      rw [hric]
      by_cases hpast : T + M < w + (e - 1)
      · -- the count is one round back, where that is not before the first
        by_cases hfirst : w + (e - 1) ≤ 2 * M
        · rw [if_pos ⟨hpast, hfirst⟩]
          constructor
          · intro h
            cases h
          · rintro ⟨-, -, hmod, -, hle⟩
            have hdvd := (Nat.modEq_iff_dvd' (by omega)).mp (hmod.trans hres.symm)
            have hstep := Nat.le_of_dvd (by omega) hdvd
            omega
        · have hback : InWindow M T e (w + (e - 1) - 2 * M) := by
            refine ⟨?_, by omega, by omega⟩
            refine Nat.ModEq.add_right_cancel' (2 * M) ?_
            rw [Nat.sub_add_cancel (by omega)]
            simpa [Nat.ModEq] using hres
          rw [if_neg (fun h => hfirst h.2), if_pos hpast, if_neg (by omega), Except.ok.injEq]
          constructor
          · rintro rfl
            exact ⟨by omega, by omega, hback⟩
          · rintro ⟨-, -, h⟩
            exact hback.unique h
      · have hhere : InWindow M T e (w + (e - 1)) := ⟨hres, by omega, by omega⟩
        rw [if_neg (fun h => hpast h.1), if_neg hpast]
        constructor
        · intro h
          split_ifs at h
          obtain rfl := Except.ok.inj h
          exact ⟨by omega, by omega, hhere⟩
        · rintro ⟨-, -, h⟩
          obtain rfl := hhere.unique h
          rw [if_neg (by omega)]

theorem inWindow_encode (h₁ : T < r + M) (h₂ : r ≤ T + M) (hr : 0 < r) :
    InWindow M T (encodeRequiredInsertCount r M) r := by
  refine ⟨?_, h₁, h₂⟩
  rw [encodeRequiredInsertCount, if_neg (by omega)]
  exact (Nat.mod_modEq r (2 * M)).symm

theorem encode_le (hM : 1 ≤ M) (hr : 0 < r) :
    1 ≤ encodeRequiredInsertCount r M ∧ encodeRequiredInsertCount r M ≤ 2 * M := by
  have hlt : r % (2 * M) < 2 * M := Nat.mod_lt _ (by omega)
  rw [encodeRequiredInsertCount, if_neg (by omega)]
  omega

/-- A count in the window survives its encoding. -/
theorem reqInsertCount_roundtrip (hM : 1 ≤ M) (hmax : M < 2 ^ 59) (hT : T < 2 ^ 62) (hr : 0 < r)
    (hlow : T < r + M) (hhigh : r ≤ T + M) :
    reqInsertCountFromEncoded (encodeRequiredInsertCount r M) M T = .ok r :=
  (reqInsertCountFromEncoded_eq_ok hM hmax hT hr).mpr
    ⟨(encode_le hM hr).1, (encode_le hM hr).2, inWindow_encode hlow hhigh hr⟩

/-- The coding of the required insert count is exact: an encoded value is accepted for a count
exactly if the count is the one in the window with its residue. -/
theorem requiredInsertCount_exact {maxCapacity : ℕ} (hcap : maxCapacity ≤ 2 ^ 62 - 1)
    (hentries : maxCapacity / Header.entryOverhead = M) (hM : 1 ≤ M) (hT : T < 2 ^ 62) :
    (∀ e, (∃ r, 0 < r ∧ reqInsertCountFromEncoded e M T = .ok r) ↔
        (1 ≤ e ∧ e ≤ 2 * M) ∧ ∃ r, 0 < r ∧ InWindow M T e r) ∧
      (∀ e r, 0 < r → reqInsertCountFromEncoded e M T = .ok r →
        InWindow M T e r ∧ ∀ r', InWindow M T e r' → r' = r) ∧
      ∀ ric, 0 < ric → T < ric + M → ric ≤ T + M →
        reqInsertCountFromEncoded (encodeRequiredInsertCount ric M) M T = .ok ric := by
  have hmax : M < 2 ^ 59 := by
    rw [← hentries, Header.entryOverhead]
    omega
  refine ⟨?_, ?_, ?_⟩
  · intro e
    constructor
    · rintro ⟨r, hr, h⟩
      obtain ⟨hlow, hhigh, hin⟩ := (reqInsertCountFromEncoded_eq_ok hM hmax hT hr).mp h
      exact ⟨⟨hlow, hhigh⟩, r, hr, hin⟩
    · rintro ⟨⟨hlow, hhigh⟩, r, hr, hin⟩
      exact ⟨r, hr, (reqInsertCountFromEncoded_eq_ok hM hmax hT hr).mpr ⟨hlow, hhigh, hin⟩⟩
  · intro e r hr h
    obtain ⟨-, -, hin⟩ := (reqInsertCountFromEncoded_eq_ok hM hmax hT hr).mp h
    exact ⟨hin, fun r' hin' => hin'.unique hin⟩
  · intro ric hr hlow hhigh
    exact reqInsertCount_roundtrip hM hmax hT hr hlow hhigh

/-- The default capacity, after the counter has gone round once. -/
theorem requiredInsertCount_exact_wrapped :
    reqInsertCountFromEncoded (encodeRequiredInsertCount 300 128) 128 310 = .ok 300 :=
  (requiredInsertCount_exact (show 4096 ≤ 2 ^ 62 - 1 by decide) (by decide) (by decide)
    (by decide)).2.2 300 (by decide) (by decide) (by decide)

end InsertCount

/-- The prefix is read back with the base equal to the required insert count. -/
theorem parsePrefix_sectionPrefix (hle : ric ≤ dt.insertCount)
    (htotal : dt.insertCount ≤ dt.maxEntries) (hmax : dt.maxEntries < 2 ^ 59) (rest : Bytes) :
    parsePrefix (sectionPrefix dt.maxEntries ric ++ rest) (some dt) =
      .ok (ric, ric, (sectionPrefix dt.maxEntries ric).length) := by
  have hu : u64 = 2 ^ 64 := rfl
  have hdelta : ∀ rest : Bytes, decodeInt (0x00 :: rest) 7 = .ok (0, 1) := fun rest =>
    decodeInt_encodeInteger (n := 7) (i := 0) (p := 0x00) rest (by decide) (by decide) (by decide)
  have hnot : ¬ ((0x00 : UInt8) &&& 0x80 ≠ 0) := by decide
  have hbase : (ric + 0) % u64 = ric := Nat.mod_eq_of_lt (by omega)
  rcases Nat.eq_zero_or_pos ric with rfl | hpos
  · -- two zero bytes, and no count to reconstruct
    rfl
  have hne : ric ≠ 0 := by omega
  have h62 : encodeRequiredInsertCount ric dt.maxEntries < 2 ^ 62 := by
    rw [encodeRequiredInsertCount, if_neg hne, Nat.mod_eq_of_lt (by omega)]
    omega
  have hp : (0x00 : UInt8).toNat % 2 ^ 8 = 0 := by decide
  have hcount := reqInsertCount_roundtrip (T := dt.insertCount) (by omega) hmax
    (by omega) hpos (by omega) (by omega)
  simp only [sectionPrefix, if_neg hne, parsePrefix, List.append_assoc,
    decodeInt_encodeInteger _ (Nat.le_refl 8) hp h62, decodeRequiredInsertCount,
    hcount, List.drop_left, List.cons_append,
    List.nil_append, hdelta, if_neg hnot, hbase, List.length_append, List.length_singleton]

/-- A section whose references the table holds decodes to its fields. -/
theorem decodeFieldSection_eq {fields : List Field} {reps : List FieldRep}
    (hsend : ∀ f ∈ fields, Sendable f.pair) (h : List.Forall₂ (Serves dt ric) fields reps)
    (hle : ric ≤ dt.insertCount) (htotal : dt.insertCount ≤ dt.maxEntries)
    (hmax : dt.maxEntries < 2 ^ 59) (emit : Emit σ E) (s : σ) :
    decodeFieldSection emit s
        (sectionPrefix dt.maxEntries ric ++ fieldLines ric fields reps) (some dt) =
      emitAll emit s (fields.map Field.pair) := by
  have hready : ¬ (0 < ric ∧ behind ric (some dt) = true) := by
    simp only [behind, decide_eq_true_eq]
    omega
  simp only [decodeFieldSection, parsePrefix_sectionPrefix hle htotal hmax, if_neg hready,
    List.drop_left]
  exact decodeLines_fieldLines (by omega) hsend h _ (by simp) s

end Decoder

end Qpack
