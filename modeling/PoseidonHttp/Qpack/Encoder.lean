import PoseidonHttp.Qpack.Instructions

/-!
# The QPACK encoder

`qpack/encoder.go`. A section is encoded in two passes: the first chooses a
representation for each field and may insert it in the table, the second writes the
lines under a base equal to the required insert count. An entry is referenced only
below the Known Received Count.

`chooseReps_spec` says what the first pass does to a table that never evicted: it
appends entries to it, queues exactly their instructions, and every representation
it chose shows its field.
-/

namespace Qpack

open Header (Bytes Field pairSize)
open Incremental
open Hpack (encodeInteger)

/-- `repKind` with the index it carries: a static index, or an absolute one. -/
inductive FieldRep where
  | staticIndexed (idx : ℕ)
  | dynamicIndexed (abs : ℕ)
  | staticNameRef (idx : ℕ)
  | literal
  deriving DecidableEq, Repr

/-- An encoder; without a table it is the static-only profile. -/
structure Encoder where
  dt : Option DynamicTable
  known : ℕ
  pending : Bytes

namespace Encoder

/-- `NewEncoder`. -/
def new : Encoder := ⟨none, 0, []⟩

/-- `NewDynamicEncoder`. -/
def newDynamic (maxCapacity tableCapacity : ℕ) : Option (Except Error Encoder) :=
  if maxCapacity < Header.entryOverhead then some (.error .encoderStream)
  else
    let tableCapacity := if maxCapacity < tableCapacity then maxCapacity else tableCapacity
    ((DynamicTable.new maxCapacity).setCapacity tableCapacity).map fun
      | .error e => .error e
      | .ok dt => .ok ⟨some dt, 0, setCapacityInstruction tableCapacity⟩

/-- `DrainEncoderInstructions`: the bytes handed out. -/
def drainEncoderInstructions (e : Encoder) : Bytes × Encoder :=
  (e.pending, { e with pending := [] })

def insertCount (e : Encoder) : ℕ :=
  match e.dt with
  | none => 0
  | some dt => dt.insertCount

def staticNameRefByte (sensitive : Bool) : UInt8 := if sensitive then 0x70 else 0x50

/-- A field line with a static name reference. -/
def nameRefLine (f : Field) (idx : ℕ) : Bytes :=
  encodeInteger 4 (staticNameRefByte f.sensitive) idx ++ encodeStringLiteral f.value 7 0x00

/-- A field line with a literal name. -/
def literalLine (f : Field) : Bytes :=
  encodeLiteralName f.name f.sensitive ++ encodeStringLiteral f.value 7 0x00

def staticFieldLine (f : Field) : Bytes :=
  match lookupStatic f.name f.value with
  | (idx, true, _) => encodeInteger 6 0xc0 idx
  | (idx, false, true) => nameRefLine f idx
  | (_, false, false) => literalLine f

def encodeRequiredInsertCount (ric maxEntries : ℕ) : ℕ :=
  if ric = 0 then 0 else ric % (2 * maxEntries) + 1

/-- The section prefix; the base equals the required insert count. -/
def sectionPrefix (maxEntries ric : ℕ) : Bytes :=
  if ric = 0 then [0x00, 0x00]
  else encodeInteger 8 0x00 (encodeRequiredInsertCount ric maxEntries) ++ [0x00]

/-- `insertEntry` on the table and the queue: an insertion that does not fit queues
nothing. -/
def insertEntry (dt : DynamicTable) (pending name value : Bytes) (staticIdx : ℕ)
    (nameMatch : Bool) : Option (DynamicTable × Bytes) := do
  match ← dt.insert name value with
  | none => return (dt, pending)
  | some dt =>
    if nameMatch then
      return (dt, pending ++ encodeInteger 6 0xc0 staticIdx ++ encodeStringLiteral value 7 0x00)
    else
      return (dt, pending ++ encodeStringLiteral name 5 0x40 ++ encodeStringLiteral value 7 0x00)

/-- The first pass on one field. -/
def chooseRep (known : ℕ) (dt : DynamicTable) (pending : Bytes) (f : Field) :
    Option (FieldRep × DynamicTable × Bytes) :=
  let (idx, exact, nameMatch) := lookupStatic f.name f.value
  if exact then some (.staticIndexed idx, dt, pending)
  else
    let rep : FieldRep := if nameMatch then .staticNameRef idx else .literal
    if f.sensitive then some (rep, dt, pending)
    else do
      match ← dt.lookupDynamic f.name f.value with
      | some abs =>
        if abs < known then return (.dynamicIndexed abs, dt, pending)
        else return (rep, dt, pending)
      | none =>
        if dt.canInsertWithoutEvict f.name.length f.value.length then
          let (dt, pending) ← insertEntry dt pending f.name f.value idx nameMatch
          return (rep, dt, pending)
        else return (rep, dt, pending)

/-- The first pass. -/
def chooseReps (known : ℕ) :
    DynamicTable → Bytes → List Field → Option (List FieldRep × DynamicTable × Bytes)
  | dt, pending, [] => some ([], dt, pending)
  | dt, pending, f :: fields => do
    let (rep, dt, pending) ← chooseRep known dt pending f
    let (reps, dt, pending) ← chooseReps known dt pending fields
    return (rep :: reps, dt, pending)

/-- The largest absolute index referenced so far. -/
def noteRef (maxRefAbs : Option ℕ) : FieldRep → Option ℕ
  | .dynamicIndexed abs =>
    match maxRefAbs with
    | none => some abs
    | some m => if m < abs then some abs else some m
  | _ => maxRefAbs

def requiredInsertCount (reps : List FieldRep) : ℕ :=
  match reps.foldl noteRef none with
  | none => 0
  | some maxRefAbs => maxRefAbs + 1

/-- The second pass on one field. -/
def fieldLine (base : ℕ) (f : Field) : FieldRep → Bytes
  | .staticIndexed idx => encodeInteger 6 0xc0 idx
  | .dynamicIndexed abs => encodeInteger 6 0x80 (base - abs - 1)
  | .staticNameRef idx => nameRefLine f idx
  | .literal => literalLine f

/-- The second pass. -/
def fieldLines (base : ℕ) (fields : List Field) (reps : List FieldRep) : Bytes :=
  (List.zipWith (fieldLine base) fields reps).flatten

/-- `EncodeFieldSection`. -/
def encodeFieldSection (e : Encoder) (fields : List Field) : Option (Bytes × Encoder) :=
  match e.dt with
  | none => some ([0x00, 0x00] ++ fields.flatMap staticFieldLine, e)
  | some dt => do
    let (reps, dt, pending) ← chooseReps e.known dt e.pending fields
    let ric := requiredInsertCount reps
    return (sectionPrefix dt.maxEntries ric ++ fieldLines ric fields reps,
      { e with dt := some dt, pending := pending })

/-- The loop of `ParseDecoderInstructions`, `p` bytes in: the bytes consumed, the
encoder, and the error that stopped it. -/
def parseDecoderFrom : ℕ → Encoder → Bytes → ℕ → ℕ × Encoder × Option Error
  | 0, e, _, p => (p, e, none)
  | _ + 1, e, [], p => (p, e, none)
  | fuel + 1, e, b :: src, p =>
    let isIncrement := b &&& 0x80 = 0 ∧ b &&& 0x40 = 0
    match decodeInt (b :: src) (if b &&& 0x80 ≠ 0 then 7 else 6) with
    | .error err => if err = .truncated then (p, e, none) else (p, e, some .decoderStream)
    | .ok (val, n) =>
      if isIncrement then
        if val = 0 ∨ e.insertCount < (e.known + val) % u64 then (p, e, some .decoderStream)
        else parseDecoderFrom fuel { e with known := (e.known + val) % u64 }
          ((b :: src).drop n) (p + n)
      else parseDecoderFrom fuel e ((b :: src).drop n) (p + n)

/-- `ParseDecoderInstructions`. -/
def parseDecoderInstructions (e : Encoder) (src : Bytes) : ℕ × Encoder × Option Error :=
  parseDecoderFrom src.length e src 0

/-! ## The first pass -/

/-- A representation shows a field over the entries `l`, of which those below
`known` may be referenced. -/
def Shows (l : List (Bytes × Bytes)) (known : ℕ) (f : Field) : FieldRep → Prop
  | .staticIndexed idx => idx < staticTable.length ∧ staticRow idx = f.pair
  | .dynamicIndexed abs => abs < known ∧ l[abs]? = some f.pair
  | .staticNameRef idx => idx < staticTable.length ∧ (staticRow idx).1 = f.name
  | .literal => True

variable {dt : DynamicTable} {l : List (Bytes × Bytes)} {known : ℕ} {f : Field}

theorem Shows.append {rep : FieldRep} (h : Shows l known f rep) (added : List (Bytes × Bytes)) :
    Shows (l ++ added) known f rep := by
  cases rep with
  | dynamicIndexed abs =>
    rcases h with ⟨hlt, hget⟩
    have hlen := (List.getElem?_eq_some_iff.mp hget).1
    exact ⟨hlt, by rw [List.getElem?_append_left hlen, hget]⟩
  | _ => exact h

/-- The representation that does not use the dynamic table shows its field. -/
theorem shows_fallback {idx : ℕ} {exact nameMatch : Bool}
    (hl : lookupStatic f.name f.value = (idx, exact, nameMatch)) :
    Shows l known f (if nameMatch then .staticNameRef idx else .literal) := by
  cases nameMatch with
  | true =>
    obtain ⟨hlt, hname, -⟩ := lookupStatic_row hl (.inr rfl)
    exact ⟨hlt, hname⟩
  | false => exact True.intro

/-- An insertion with room appends the entry and queues its instruction. -/
theorem insertEntry_spec (hrep : dt.Rep l) (hsend : Sendable f.pair)
    (hroom : dt.canInsertWithoutEvict f.name.length f.value.length = true) {idx : ℕ}
    {exact nameMatch : Bool} (hl : lookupStatic f.name f.value = (idx, exact, nameMatch))
    (pending : Bytes) :
    ∃ dt', insertEntry dt pending f.name f.value idx nameMatch =
        some (dt', pending ++ insertInstruction f.pair) ∧
      dt'.Rep (l ++ [f.pair]) ∧ DynamicTable.Frame dt dt' := by
  have hcap : dt.capacity ≤ 2 ^ 32 + 31 := hrep.capacity
  have hfit := hrep.fits
  have hu : u64 = 2 ^ 64 := rfl
  have hname : f.name.length < 2 ^ 62 := hsend.1
  have hvalue : f.value.length < 2 ^ 62 := hsend.2
  have hpair : pairSize (f.name, f.value) = f.name.length + f.value.length + 32 := rfl
  -- no 64-bit sum wraps, so the test is the one over the naturals
  have hes : entrySize f.name.length f.value.length = pairSize (f.name, f.value) :=
    Nat.mod_eq_of_lt (by simp only [Header.entryOverhead]; omega)
  have hfits : dt.size + pairSize (f.name, f.value) ≤ dt.capacity := by
    simp only [DynamicTable.canInsertWithoutEvict, hes, decide_eq_true_eq] at hroom
    rwa [Nat.mod_eq_of_lt (by omega)] at hroom
  obtain ⟨dt', hins, hrep', hframe⟩ := hrep.insert hfits
  refine ⟨dt', ?_, hrep', hframe⟩
  have hinstr : insertInstruction f.pair =
      if nameMatch then encodeInteger 6 0xc0 idx ++ encodeStringLiteral f.value 7 0x00
      else encodeStringLiteral f.name 5 0x40 ++ encodeStringLiteral f.value 7 0x00 := by
    simp only [insertInstruction, Field.pair, hl]
    cases nameMatch <;> rfl
  simp only [insertEntry, hins, hinstr, Option.bind_eq_bind, Option.bind_some]
  cases nameMatch <;> simp

/-- What the first pass does with one field. -/
theorem chooseRep_spec (known : ℕ) (hrep : dt.Rep l) (hsend : Sendable f.pair) (pending : Bytes) :
    ∃ rep added dt',
      chooseRep known dt pending f = some (rep, dt', pending ++ added.flatMap insertInstruction) ∧
      dt'.Rep (l ++ added) ∧ DynamicTable.Frame dt dt' ∧ Shows l known f rep := by
  obtain ⟨idx, exact, nameMatch, hl⟩ : ∃ idx exact nameMatch,
      lookupStatic f.name f.value = (idx, exact, nameMatch) := ⟨_, _, _, rfl⟩
  have hkeep : ∀ rep : FieldRep, Shows l known f rep →
      chooseRep known dt pending f = some (rep, dt, pending) →
      ∃ rep added dt', chooseRep known dt pending f =
          some (rep, dt', pending ++ added.flatMap insertInstruction) ∧
        dt'.Rep (l ++ added) ∧ DynamicTable.Frame dt dt' ∧ Shows l known f rep := by
    intro rep hshow h
    exact ⟨rep, [], dt, by simpa using h, by simpa using hrep, ⟨rfl, rfl⟩, hshow⟩
  cases exact with
  | true =>
    obtain ⟨hlt, hname, hvalue⟩ := lookupStatic_row hl (.inl rfl)
    exact hkeep (.staticIndexed idx) ⟨hlt, Prod.ext hname (hvalue rfl)⟩ (by simp [chooseRep, hl])
  | false =>
    cases hsens : f.sensitive with
    | true => exact hkeep _ (shows_fallback hl) (by simp [chooseRep, hl, hsens])
    | false =>
      have hlook := hrep.lookupDynamic f.name f.value
      cases hfind : l.findIdx? (· = (f.name, f.value)) with
      | some abs =>
        rw [hfind] at hlook
        by_cases hknown : abs < known
        · -- present and acknowledged
          have hget : l[abs]? = some f.pair := by
            obtain ⟨hlt, hp, -⟩ := List.findIdx?_eq_some_iff_getElem.mp hfind
            rw [List.getElem?_eq_getElem hlt]
            simpa [Field.pair] using hp
          exact hkeep (.dynamicIndexed abs) ⟨hknown, hget⟩
            (by simp [chooseRep, hl, hsens, hlook, hknown])
        · -- present, not acknowledged
          exact hkeep _ (shows_fallback hl) (by simp [chooseRep, hl, hsens, hlook, hknown])
      | none =>
        rw [hfind] at hlook
        cases hroom : dt.canInsertWithoutEvict f.name.length f.value.length with
        | true =>
          obtain ⟨dt', hins, hrep', hframe⟩ := insertEntry_spec hrep hsend hroom hl pending
          refine ⟨_, [f.pair], dt', ?_, hrep', hframe, shows_fallback hl⟩
          simp [chooseRep, hl, hsens, hlook, hroom, hins]
        | false =>
          exact hkeep _ (shows_fallback hl) (by simp [chooseRep, hl, hsens, hlook, hroom])

variable {fields : List Field} {reps : List FieldRep}

theorem chooseReps_spec (known : ℕ) (hrep : dt.Rep l) (hsend : ∀ f ∈ fields, Sendable f.pair)
    (pending : Bytes) :
    ∃ reps added dt',
      chooseReps known dt pending fields =
        some (reps, dt', pending ++ added.flatMap insertInstruction) ∧
      dt'.Rep (l ++ added) ∧ DynamicTable.Frame dt dt' ∧
      List.Forall₂ (Shows (l ++ added) known) fields reps := by
  induction fields generalizing dt l pending with
  | nil => exact ⟨[], [], dt, by simp [chooseReps], by simpa using hrep, ⟨rfl, rfl⟩, .nil⟩
  | cons f fields ih =>
    obtain ⟨rep, added₁, dt₁, hone, hrep₁, hframe₁, hshow⟩ :=
      chooseRep_spec known hrep (hsend f List.mem_cons_self) pending
    obtain ⟨reps, added₂, dt₂, hall, hrep₂, hframe₂, hshows⟩ :=
      ih hrep₁ (fun g hg => hsend g (List.mem_cons_of_mem f hg))
        (pending ++ added₁.flatMap insertInstruction)
    refine ⟨rep :: reps, added₁ ++ added₂, dt₂, ?_, ?_, ?_, .cons ?_ ?_⟩
    · simp [chooseReps, hone, hall]
    · rwa [← List.append_assoc]
    · exact ⟨hframe₂.1.trans hframe₁.1, hframe₂.2.trans hframe₁.2⟩
    · exact hshow.append (added₁ ++ added₂)
    · rwa [← List.append_assoc]

/-! ## The required insert count -/

/-- The fold keeps the largest of what it started with and what it met. -/
theorem foldl_noteRef (reps : List FieldRep) (m : Option ℕ) :
    (∀ a, m = some a ∨ .dynamicIndexed a ∈ reps → ∃ b, reps.foldl noteRef m = some b ∧ a ≤ b) ∧
    ∀ b, reps.foldl noteRef m = some b → m = some b ∨ .dynamicIndexed b ∈ reps := by
  induction reps generalizing m with
  | nil =>
    simp only [List.foldl_nil, List.not_mem_nil, or_false]
    exact ⟨fun a ha => ⟨a, ha, le_rfl⟩, fun b hb => hb⟩
  | cons rep reps ih =>
    obtain ⟨hmet, hfrom⟩ := ih (noteRef m rep)
    have hstep : (∀ a, m = some a ∨ .dynamicIndexed a = rep → ∃ b, noteRef m rep = some b ∧ a ≤ b) ∧
        ∀ b, noteRef m rep = some b → m = some b ∨ .dynamicIndexed b = rep := by
      rcases rep with _ | abs | _ | _ <;> rcases m with _ | m <;> simp [noteRef]
      split <;> simp <;> omega
    obtain ⟨hs, hf⟩ := hstep
    simp only [List.mem_cons, ← or_assoc]
    constructor
    · rintro a (ha | ha)
      · obtain ⟨b, hb, hab⟩ := hs a ha
        obtain ⟨c, hc, hbc⟩ := hmet b (.inl hb)
        exact ⟨c, hc, hab.trans hbc⟩
      · exact hmet a (.inr ha)
    · intro b hb
      exact (hfrom b hb).imp_left (hf b)

/-- Every reference is below the required insert count. -/
theorem lt_requiredInsertCount {abs : ℕ} (h : .dynamicIndexed abs ∈ reps) :
    abs < requiredInsertCount reps := by
  obtain ⟨b, hb, hle⟩ := (foldl_noteRef reps none).1 abs (.inr h)
  simp only [requiredInsertCount, hb]
  omega

/-- The required insert count is at most any bound on the references. -/
theorem requiredInsertCount_le {bound : ℕ} (h : ∀ abs, .dynamicIndexed abs ∈ reps → abs < bound) :
    requiredInsertCount reps ≤ bound := by
  cases hb : reps.foldl noteRef none with
  | none => simp [requiredInsertCount, hb]
  | some b =>
    rcases (foldl_noteRef reps none).2 b hb with hnone | hmem
    · cases hnone
    · simp only [requiredInsertCount, hb]
      exact h b hmem

/-- What a pass references is below `known`. -/
theorem lt_known_of_shows (h : List.Forall₂ (Shows l known) fields reps) {abs : ℕ}
    (hmem : .dynamicIndexed abs ∈ reps) : abs < known := by
  induction h with
  | nil => cases hmem
  | cons hone _ ih =>
    rcases List.mem_cons.mp hmem with rfl | hmem
    · exact hone.1
    · exact ih hmem

/-- A tighter bound on the references. -/
theorem shows_of_lt {bound : ℕ} (h : List.Forall₂ (Shows l known) fields reps)
    (hlt : ∀ abs, .dynamicIndexed abs ∈ reps → abs < bound) :
    List.Forall₂ (Shows l bound) fields reps := by
  induction h with
  | nil => exact .nil
  | @cons f rep fields reps hone _ ih =>
    refine .cons ?_ (ih fun abs hmem => hlt abs (List.mem_cons_of_mem rep hmem))
    cases rep with
    | dynamicIndexed abs => exact ⟨hlt abs List.mem_cons_self, hone.2⟩
    | _ => exact hone

/-! ## Acknowledgments -/

/-- One turn of the loop of `ParseDecoderInstructions`. -/
def decoderStep (e : Encoder) : Bytes → Step Encoder Error
  | [] => .wait
  | b :: src =>
    match decodeInt (b :: src) (if b &&& 0x80 ≠ 0 then 7 else 6) with
    | .error err => if err = .truncated then .wait else .fail .decoderStream
    | .ok (val, n) =>
      if b &&& 0x80 = 0 ∧ b &&& 0x40 = 0 then
        if val = 0 ∨ e.insertCount < (e.known + val) % u64 then .fail .decoderStream
        else .take n { e with known := (e.known + val) % u64 }
      else .take n e

def decoderParser : Parser Encoder UInt8 Error where
  step e src := some (e.decoderStep src)
  size := by
    intro e e' src n h
    cases src with
    | nil => cases h
    | cons b src =>
      rw [Option.some.injEq, decoderStep] at h
      rcases hint : decodeInt (b :: src) (if b &&& 0x80 ≠ 0 then 7 else 6) with err | ⟨val, m⟩
      · rw [hint] at h
        dsimp only at h
        split_ifs at h
      rw [hint] at h
      have hn : m = n := by
        dsimp only at h
        split_ifs at h
        · exact (Step.take.inj h).1
        · exact (Step.take.inj h).1
      rw [← hn]
      exact (decodeInt_ok hint).2
  stands := by
    intro e src more hsrc hwait
    obtain ⟨b, src, rfl⟩ := List.exists_cons_of_ne_nil hsrc
    have hint : ∀ k, decodeInt (b :: src) k ≠ .error .truncated →
        decodeInt (b :: (src ++ more)) k = decodeInt (b :: src) k := fun k => decodeInt_append more
    rw [List.cons_append, decoderStep, decoderStep, hint]
    intro htr
    rw [decoderStep, htr] at hwait
    exact hwait rfl

theorem parseDecoderFrom_eq (fuel : ℕ) (e : Encoder) (src : Bytes) (p : ℕ) :
    some (parseDecoderFrom fuel e src p) = (decoderParser.loop fuel e src).after p := by
  induction fuel generalizing e src p with
  | zero => rfl
  | succ fuel ih =>
    cases src with
    | nil => rfl
    | cons b src =>
      simp only [parseDecoderFrom, Parser.loop, decoderParser, decoderStep]
      rcases decodeInt (b :: src) (if b &&& 0x80 ≠ 0 then 7 else 6) with err | ⟨val, n⟩
      · dsimp only
        split_ifs <;> rfl
      · dsimp only
        split_ifs
        · rfl
        · exact (ih _ _ _).trans (Result.after_after p n _).symm
        · exact (ih _ _ _).trans (Result.after_after p n _).symm

theorem parseDecoderInstructions_eq :
    (fun (e : Encoder) src => some (e.parseDecoderInstructions src)) = decoderParser.parse := by
  funext e src
  exact (parseDecoderFrom_eq _ e src 0).trans (Result.after_zero _)

/-- An increment within the insert count is taken. -/
theorem decoderStep_increment {e : Encoder} {v : ℕ} (hv : 0 < v) (hle : e.known + v ≤ e.insertCount)
    (hcount : e.insertCount < 2 ^ 62) :
    e.decoderStep (insertCountIncrement v) =
      .take (insertCountIncrement v).length { e with known := e.known + v } := by
  have hp : (0x00 : UInt8).toNat % 2 ^ 6 = 0 := by decide
  obtain ⟨b, tail, w, henc, hw, hb⟩ := Hpack.encodeInteger_cons v (by decide) hp
  have hb' : b.toNat = 0 + w := hb
  have h1 : b &&& 0x80 = 0 := by rw [Hpack.and_0x80_eq_zero]; omega
  have h2 : b &&& 0x40 = 0 := by rw [and_0x40_eq_zero]; omega
  have hdec := decodeInt_encodeInteger [] (by decide) hp (show v < 2 ^ 62 by omega)
  have hmod : (e.known + v) % u64 = e.known + v := Nat.mod_eq_of_lt (by simp only [u64]; omega)
  have hok : ¬ (v = 0 ∨ e.insertCount < e.known + v) := by omega
  rw [List.append_nil, henc] at hdec
  rw [insertCountIncrement, henc]
  simp only [decoderStep, h1, h2, hdec, ne_eq, not_true_eq_false, if_false, and_self, if_true, hmod,
    if_neg hok]

/-- Delivery of any initial part of a stream of increments that stay within the
insert count: whole increments are applied, a partial one is left. -/
theorem parseDecoder_increments (e : Encoder) {src more : Bytes} {vs : List ℕ}
    (hsplit : src ++ more = vs.flatMap insertCountIncrement) (hpos : ∀ v ∈ vs, 0 < v)
    (hsum : e.known + vs.sum ≤ e.insertCount) (hcount : e.insertCount < 2 ^ 62) :
    ∃ n k, e.parseDecoderInstructions src =
        (n, { e with known := e.known + (vs.take k).sum }, none) ∧
      src.drop n ++ more = (vs.drop k).flatMap insertCountIncrement := by
  -- what is left after `k` increments
  have hrest := decoderParser.parse_of_rest (s := e) (fun e' bytes => ∃ k,
    e' = { e with known := e.known + (vs.take k).sum } ∧
      bytes = (vs.drop k).flatMap insertCountIncrement) ?_ ⟨0, by simp, by simpa using hsplit⟩
  · obtain ⟨n, e', hparse, k, rfl, hleft⟩ := hrest
    rw [← parseDecoderInstructions_eq, Option.some.injEq] at hparse
    exact ⟨n, k, hparse, hleft⟩
  rintro e' bytes ⟨k, rfl, rfl⟩
  rcases Nat.lt_or_ge k vs.length with hk | hk
  · right
    have hdrop : vs.drop k = vs[k] :: vs.drop (k + 1) := List.drop_eq_getElem_cons hk
    have htake : (vs.take (k + 1)).sum = (vs.take k).sum + vs[k] := by
      rw [List.take_succ_eq_append_getElem hk, List.sum_append, List.sum_singleton]
    have hall : (vs.take (k + 1)).sum + (vs.drop (k + 1)).sum = vs.sum := by
      rw [← List.sum_append, List.take_append_drop]
    refine ⟨insertCountIncrement vs[k], (vs.drop (k + 1)).flatMap insertCountIncrement, _, ?_,
      congrArg some (decoderStep_increment (hpos _ (List.getElem_mem hk)) ?_ hcount), k + 1, ?_, rfl⟩
    · rw [hdrop, List.flatMap_cons]
    · show e.known + (vs.take k).sum + vs[k] ≤ e.insertCount
      omega
    · rw [htake, Nat.add_assoc]
  · left
    rw [List.drop_eq_nil_of_le hk, List.flatMap_nil]

end Encoder

/-- On either stream, whatever the table or the encoder: chunks with the rest carried over come to
what the whole stream does in one call, and a call goes from one whole instruction to the next. It
stops at the end, in front of a partial instruction or in front of the one it refuses. -/
theorem instructions_whole :
    encoderParser.Whole DynamicTable.parseEncoderInstructions ∧
      Encoder.decoderParser.Whole fun e src => some (e.parseDecoderInstructions src) := by
  rw [parseEncoderInstructions_eq, Encoder.parseDecoderInstructions_eq]
  exact ⟨encoderParser.whole, Encoder.decoderParser.whole⟩

end Qpack
