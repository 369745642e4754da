import PoseidonHttp.Hpack.Reset
import PoseidonHttp.Qpack.Encoder
import PoseidonHttp.Lib.Noninterference

/-!
# Never-indexed values stay out of the shared state

Two runs of an encoder are given the same calls, up to the values of the fields marked
`indexNever`. Each run shows, for every block, the encodings of its other fields and the
encoder it left. `indexNever_values_do_not_interfere`: in HPACK and in QPACK the two runs
show the same.

The encodings of a block are taken field by field (`writeEach`, `sectionPieces`); the
bytes the encoder returns are their concatenation (`encodeBlock_eq`,
`encodeFieldSection_eq`).
-/

namespace Header

/-- The same field, up to the value of a never-indexed one. -/
structure Field.Alike (f g : Field) : Prop where
  name : f.name = g.name
  indexing : f.indexing = g.indexing
  value : f.indexing ≠ indexNever → f.value = g.value

theorem Field.Alike.eq {f g : Field} (h : f.Alike g) (hf : f.indexing ≠ indexNever) : f = g := by
  rcases f with ⟨name, value, indexing⟩
  rcases g with ⟨name', value', indexing'⟩
  have hname : name = name' := h.name
  have hindexing : indexing = indexing' := h.indexing
  have hvalue : value = value' := h.value hf
  rw [hname, hindexing, hvalue]

theorem Field.sensitive_iff {f : Field} : f.sensitive = true ↔ f.indexing = indexNever :=
  beq_iff_eq

/-- What a field's encoding shows: nothing if the field is never indexed. -/
def Field.shown (f : Field) (piece : Bytes) : Option Bytes :=
  if f.indexing = indexNever then none else some piece

end Header

/-! ## HPACK -/

namespace Hpack.Encoder

open Header (Bytes Field indexNever indexIncremental)
open Noninterference (Machine)

variable {e : Encoder}

/-- The loop of `EncodeBlock`, one encoding for each field. -/
def writeEach (e : Encoder) : List Field → Option (List Bytes × Encoder)
  | [] => some ([], e)
  | f :: fields => do
    let (piece, e) ← e.writeFieldAlreadyFlushedSize f.name f.value f.indexing
    let (pieces, e) ← e.writeEach fields
    return (piece :: pieces, e)

theorem writeFields_eq (e : Encoder) (fields : List Field) :
    e.writeFields fields = (e.writeEach fields).map fun r => (r.1.flatten, r.2) := by
  induction fields generalizing e with
  | nil => rfl
  | cons f fields ih =>
    simp only [writeFields, writeEach, Option.bind_eq_bind]
    cases e.writeFieldAlreadyFlushedSize f.name f.value f.indexing with
    | none => rfl
    | some r =>
      simp only [Option.bind_some, ih]
      cases r.2.writeEach fields <;> simp

/-- A block is its size update, if one is due, and the encodings of its fields. -/
theorem encodeBlock_eq (e : Encoder) (fields : List Field) :
    e.encodeBlock fields = (e.maybeEmitSizeUpdate.2.writeEach fields).map fun r =>
      (e.maybeEmitSizeUpdate.1 ++ r.1.flatten, r.2) := by
  simp only [encodeBlock, writeFields_eq, Option.bind_eq_bind]
  cases e.maybeEmitSizeUpdate.2.writeEach fields <;> rfl

/-- A call on an encoder. -/
inductive Use where
  | encodeBlock (fields : List Field)
  | writeField (f : Field)
  | setMaxDynamicTableSize (n : ℕ)
  | setMaxDynamicTableSizeLimit (n : ℕ)
  | reset

/-- The same call, up to the values of never-indexed fields. -/
inductive Use.Alike : Use → Use → Prop
  | encodeBlock {fields fields' : List Field} (h : List.Forall₂ Field.Alike fields fields') :
      Alike (.encodeBlock fields) (.encodeBlock fields')
  | writeField {f g : Field} (h : f.Alike g) : Alike (.writeField f) (.writeField g)
  | setMaxDynamicTableSize (n : ℕ) : Alike (.setMaxDynamicTableSize n) (.setMaxDynamicTableSize n)
  | setMaxDynamicTableSizeLimit (n : ℕ) :
      Alike (.setMaxDynamicTableSizeLimit n) (.setMaxDynamicTableSizeLimit n)
  | reset : Alike .reset .reset

/-- What a block shows: its size update, and the encoding of each field that is not
never indexed. -/
def shownBlock (update : Bytes) (fields : List Field) (pieces : List Bytes) :
    List (Option Bytes) :=
  some update :: List.zipWith Field.shown fields pieces

/-- The encoder as a machine that shows its blocks. `WriteField` writes a block of one
field. -/
def machine : Machine Encoder Use (List (Option Bytes)) where
  step e
    | .encodeBlock fields => (e.maybeEmitSizeUpdate.2.writeEach fields).map fun r =>
        (r.2, shownBlock e.maybeEmitSizeUpdate.1 fields r.1)
    | .writeField f => (e.maybeEmitSizeUpdate.2.writeEach [f]).map fun r =>
        (r.2, shownBlock e.maybeEmitSizeUpdate.1 [f] r.1)
    | .setMaxDynamicTableSize n => (e.setMaxDynamicTableSize n).map fun e => (e, [])
    | .setMaxDynamicTableSizeLimit n => (e.setMaxDynamicTableSizeLimit n).map fun e => (e, [])
    | .reset => e.reset.map fun e => (e, [])

/-- A never-indexed field leaves the encoder as it was: it is not looked for as a whole,
and it is not inserted. -/
theorem writeField_indexNever {name value piece : Bytes} {e' : Encoder}
    (h : e.writeFieldAlreadyFlushedSize name value indexNever = some (piece, e')) : e' = e := by
  have hmode : indexNever ≠ indexIncremental := by decide
  simp only [writeFieldAlreadyFlushedSize, ne_eq, not_true_eq_false, and_false, if_false,
    if_neg hmode, Option.bind_eq_bind, Option.bind_eq_some_iff] at h
  rcases h with ⟨dyn, -, h⟩
  exact (Prod.mk.inj (Option.some.inj h)).2.symm

/-- Alike fields written by one encoder leave one encoder, and show the same. -/
theorem writeField_alike {f g : Field} (h : f.Alike g) {piece piece' : Bytes} {e₁ e₂ : Encoder}
    (hf : e.writeFieldAlreadyFlushedSize f.name f.value f.indexing = some (piece, e₁))
    (hg : e.writeFieldAlreadyFlushedSize g.name g.value g.indexing = some (piece', e₂)) :
    e₁ = e₂ ∧ f.shown piece = g.shown piece' := by
  by_cases hnever : f.indexing = indexNever
  · have hnever' : g.indexing = indexNever := h.indexing.symm.trans hnever
    rw [hnever] at hf
    rw [hnever'] at hg
    constructor
    · rw [writeField_indexNever hf, writeField_indexNever hg]
    · rw [Field.shown, Field.shown, if_pos hnever, if_pos hnever']
  · have heq : f = g := h.eq hnever
    subst heq
    have hsame := Prod.mk.inj (Option.some.inj (hf.symm.trans hg))
    exact ⟨hsame.2, by rw [hsame.1]⟩

variable {fields fields' : List Field}

theorem writeEach_alike
    (h : List.Forall₂ Field.Alike fields fields') {r r' : List Bytes × Encoder}
    (hr : e.writeEach fields = some r) (hr' : e.writeEach fields' = some r') :
    r.2 = r'.2 ∧ List.zipWith Field.shown fields r.1 = List.zipWith Field.shown fields' r'.1 := by
  induction h generalizing e r r' with
  | nil =>
    cases hr
    cases hr'
    exact ⟨rfl, rfl⟩
  | cons hone _ ih =>
    simp only [writeEach, Option.bind_eq_bind, Option.bind_eq_some_iff] at hr hr'
    rcases hr with ⟨⟨piece, e₁⟩, hpiece, ⟨pieces, e₂⟩, hpieces, hr⟩
    rcases hr' with ⟨⟨piece', e₁'⟩, hpiece', ⟨pieces', e₂'⟩, hpieces', hr'⟩
    cases hr
    cases hr'
    -- the field leaves one encoder, from which the rest is written
    rcases writeField_alike hone hpiece hpiece' with ⟨rfl, hshown⟩
    rcases ih hpieces hpieces' with ⟨hend, hrest⟩
    exact ⟨hend, by rw [List.zipWith_cons_cons, List.zipWith_cons_cons, hshown, hrest]⟩

theorem shownBlock_alike {update : Bytes}
    (h : List.Forall₂ Field.Alike fields fields') {r r' : Encoder × List (Option Bytes)}
    (hr : (e.writeEach fields).map (fun r => (r.2, shownBlock update fields r.1)) = some r)
    (hr' : (e.writeEach fields').map (fun r => (r.2, shownBlock update fields' r.1)) = some r') :
    r = r' := by
  rw [Option.map_eq_some_iff] at hr hr'
  rcases hr with ⟨w, hw, rfl⟩
  rcases hr' with ⟨w', hw', rfl⟩
  rcases writeEach_alike h hw hw' with ⟨hend, hshown⟩
  rw [shownBlock, shownBlock, hend, hshown]

theorem machine_blind : machine.Blind Use.Alike := by
  intro e a b r r' hab hr hr'
  cases hab with
  | encodeBlock h => exact shownBlock_alike h hr hr'
  | writeField h => exact shownBlock_alike (.cons h .nil) hr hr'
  | setMaxDynamicTableSize n | setMaxDynamicTableSizeLimit n | reset =>
    exact Option.some.inj (hr.symm.trans hr')

end Hpack.Encoder

/-! ## QPACK -/

namespace Qpack

/-- A representation that does not refer to the dynamic table. -/
def FieldRep.isStatic : FieldRep → Bool
  | .dynamicIndexed _ => false
  | _ => true

namespace Encoder

open Header (Bytes Field indexNever)
open Noninterference (Machine)

/-- `EncodeFieldSection`, taken apart: the section prefix, and one line for each field. -/
def sectionPieces (e : Encoder) (fields : List Field) : Option (Bytes × List Bytes × Encoder) :=
  match e.dt with
  | none => some ([0x00, 0x00], fields.map staticFieldLine, e)
  | some dt => do
    let (reps, dt, pending) ← chooseReps e.known dt e.pending fields
    let ric := requiredInsertCount reps
    return (sectionPrefix dt.maxEntries ric, List.zipWith (fieldLine ric) fields reps,
      { e with dt := some dt, pending := pending })

/-- A section is its header and the lines of its fields. -/
theorem encodeFieldSection_eq (e : Encoder) (fields : List Field) :
    e.encodeFieldSection fields =
      (e.sectionPieces fields).map fun r => (r.1 ++ r.2.1.flatten, r.2.2) := by
  unfold encodeFieldSection sectionPieces
  cases e.dt with
  | none => rw [Option.map_some, List.flatMap_def]
  | some dt =>
    simp only [Option.bind_eq_bind]
    cases chooseReps e.known dt e.pending fields <;> rfl

/-- A call on an encoder. -/
inductive Use where
  | encodeFieldSection (fields : List Field)
  | drainEncoderInstructions
  | parseDecoderInstructions (src : Bytes)

/-- The same call, up to the values of never-indexed fields. -/
inductive Use.Alike : Use → Use → Prop
  | encodeFieldSection {fields fields' : List Field}
      (h : List.Forall₂ Field.Alike fields fields') :
      Alike (.encodeFieldSection fields) (.encodeFieldSection fields')
  | drainEncoderInstructions : Alike .drainEncoderInstructions .drainEncoderInstructions
  | parseDecoderInstructions (src : Bytes) :
      Alike (.parseDecoderInstructions src) (.parseDecoderInstructions src)

/-- The encoder as a machine that shows its sections and its instructions. -/
def machine : Machine Encoder Use (List (Option Bytes)) where
  step e
    | .encodeFieldSection fields => (e.sectionPieces fields).map fun r =>
        (r.2.2, some r.1 :: List.zipWith Field.shown fields r.2.1)
    | .drainEncoderInstructions =>
      some (e.drainEncoderInstructions.2, [some e.drainEncoderInstructions.1])
    | .parseDecoderInstructions src => some ((e.parseDecoderInstructions src).2.1, [])

theorem noteRef_of_isStatic {rep : FieldRep} (h : rep.isStatic = true) (m : Option ℕ) :
    noteRef m rep = m := by
  cases rep with
  | dynamicIndexed abs => cases h
  | _ => rfl

/-- A never-indexed field leaves the table and the queue as they were, and refers to
neither. -/
theorem chooseRep_sensitive (known : ℕ) (dt : DynamicTable) (pending : Bytes) {f : Field}
    (h : f.sensitive = true) :
    ∃ rep : FieldRep, rep.isStatic = true ∧
      chooseRep known dt pending f = some (rep, dt, pending) := by
  simp only [chooseRep, h, if_true]
  split_ifs
  · exact ⟨_, rfl, rfl⟩
  · exact ⟨_, rfl, rfl⟩
  · exact ⟨_, rfl, rfl⟩

variable {known : ℕ} {dt : DynamicTable} {pending : Bytes} {fields fields' : List Field}

/-- One field of the first pass in two runs. -/
theorem chooseRep_alike {f g : Field} (h : f.Alike g) {r r' : FieldRep × DynamicTable × Bytes}
    (hr : chooseRep known dt pending f = some r) (hr' : chooseRep known dt pending g = some r') :
    r.2 = r'.2 ∧ (∀ m, noteRef m r.1 = noteRef m r'.1) ∧
      ∀ base, f.shown (fieldLine base f r.1) = g.shown (fieldLine base g r'.1) := by
  by_cases hnever : f.indexing = indexNever
  · have hnever' : g.indexing = indexNever := h.indexing.symm.trans hnever
    have hsens : f.sensitive = true := Field.sensitive_iff.mpr hnever
    have hsens' : g.sensitive = true := Field.sensitive_iff.mpr hnever'
    rcases chooseRep_sensitive known dt pending hsens with ⟨rep, hrep, hchoose⟩
    rcases chooseRep_sensitive known dt pending hsens' with ⟨rep', hrep', hchoose'⟩
    cases hchoose.symm.trans hr
    cases hchoose'.symm.trans hr'
    refine ⟨rfl, fun m => ?_, fun base => ?_⟩
    · rw [noteRef_of_isStatic hrep, noteRef_of_isStatic hrep']
    · rw [Field.shown, Field.shown, if_pos hnever, if_pos hnever']
  · have heq : f = g := h.eq hnever
    subst heq
    cases hr.symm.trans hr'
    exact ⟨rfl, fun _ => rfl, fun _ => rfl⟩

/-- The first pass in two runs: one table, one queue, one required insert count, and the
same lines shown under any base. -/
theorem chooseReps_alike
    (h : List.Forall₂ Field.Alike fields fields') {r r' : List FieldRep × DynamicTable × Bytes}
    (hr : chooseReps known dt pending fields = some r)
    (hr' : chooseReps known dt pending fields' = some r') :
    r.2 = r'.2 ∧ (∀ m, r.1.foldl noteRef m = r'.1.foldl noteRef m) ∧
      ∀ base, List.zipWith Field.shown fields (List.zipWith (fieldLine base) fields r.1) =
        List.zipWith Field.shown fields' (List.zipWith (fieldLine base) fields' r'.1) := by
  induction h generalizing dt pending r r' with
  | nil =>
    cases hr
    cases hr'
    exact ⟨rfl, fun _ => rfl, fun _ => rfl⟩
  | cons hone _ ih =>
    simp only [chooseReps, Option.bind_eq_bind, Option.bind_eq_some_iff] at hr hr'
    rcases hr with ⟨⟨rep, mid⟩, hrep, ⟨reps, last⟩, hreps, hr⟩
    rcases hr' with ⟨⟨rep', mid'⟩, hrep', ⟨reps', last'⟩, hreps', hr'⟩
    cases hr
    cases hr'
    rcases chooseRep_alike hone hrep hrep' with ⟨hmid, hnote, hline⟩
    cases hmid
    rcases ih hreps hreps' with ⟨hlast, hnotes, hlines⟩
    refine ⟨hlast, fun m => ?_, fun base => ?_⟩
    · rw [List.foldl_cons, List.foldl_cons, hnote m, hnotes]
    · simp only [List.zipWith_cons_cons]
      rw [hline base, hlines base]

/-- Without a table every line depends on its own field only. -/
theorem staticFieldLines_alike
    (h : List.Forall₂ Field.Alike fields fields') :
    List.zipWith Field.shown fields (fields.map staticFieldLine) =
      List.zipWith Field.shown fields' (fields'.map staticFieldLine) := by
  induction h with
  | nil => rfl
  | @cons f g _ _ hone _ ih =>
    have hshown : f.shown (staticFieldLine f) = g.shown (staticFieldLine g) := by
      by_cases hnever : f.indexing = indexNever
      · rw [Field.shown, Field.shown, if_pos hnever, if_pos (hone.indexing.symm.trans hnever)]
      · rw [hone.eq hnever]
    simp only [List.map_cons, List.zipWith_cons_cons, hshown, ih]

theorem sectionPieces_alike {e : Encoder}
    (h : List.Forall₂ Field.Alike fields fields') {r r' : Bytes × List Bytes × Encoder}
    (hr : e.sectionPieces fields = some r) (hr' : e.sectionPieces fields' = some r') :
    r.2.2 = r'.2.2 ∧ r.1 = r'.1 ∧
      List.zipWith Field.shown fields r.2.1 = List.zipWith Field.shown fields' r'.2.1 := by
  unfold sectionPieces at hr hr'
  cases hdt : e.dt with
  | none =>
    simp only [hdt, Option.some.injEq] at hr hr'
    subst hr hr'
    exact ⟨rfl, rfl, staticFieldLines_alike h⟩
  | some dt =>
    simp only [hdt, Option.bind_eq_bind, Option.bind_eq_some_iff] at hr hr'
    rcases hr with ⟨⟨reps, last⟩, hreps, hr⟩
    rcases hr' with ⟨⟨reps', last'⟩, hreps', hr'⟩
    rcases chooseReps_alike h hreps hreps' with ⟨hlast, hnotes, hlines⟩
    cases hlast
    cases hr
    cases hr'
    have hric : requiredInsertCount reps = requiredInsertCount reps' := by
      rw [requiredInsertCount, requiredInsertCount, hnotes none]
    exact ⟨rfl, by rw [hric], by simpa only [hric] using hlines (requiredInsertCount reps')⟩

theorem machine_blind : machine.Blind Use.Alike := by
  intro e a b r r' hab hr hr'
  cases hab with
  | encodeFieldSection h =>
    simp only [machine, Option.map_eq_some_iff] at hr hr'
    rcases hr with ⟨w, hw, rfl⟩
    rcases hr' with ⟨w', hw', rfl⟩
    rcases sectionPieces_alike h hw hw' with ⟨hend, hhead, hshown⟩
    rw [hend, hhead, hshown]
  | drainEncoderInstructions | parseDecoderInstructions =>
    exact Option.some.inj (hr.symm.trans hr')

end Encoder

end Qpack

/-! ## Both codecs -/

namespace Secrecy

open Header (Field ascii indexNever indexIncremental)

/-- Two runs that start from one encoder, over the same calls up to the values of
never-indexed fields, leave the same encoder after every call and show the same encoding of
every other field. The encoder holds everything later blocks depend on: in HPACK the dynamic
table and the pending size update, in QPACK the table, the instructions not yet drained and
the Known Received Count. -/
theorem indexNever_values_do_not_interfere :
    (∀ (e : Hpack.Encoder) (calls calls' : List Hpack.Encoder.Use)
      (t t' : List (Hpack.Encoder × List (Option Header.Bytes))),
      List.Forall₂ Hpack.Encoder.Use.Alike calls calls' →
      Hpack.Encoder.machine.trace e calls = some t →
      Hpack.Encoder.machine.trace e calls' = some t' → t = t') ∧
    ∀ (e : Qpack.Encoder) (calls calls' : List Qpack.Encoder.Use)
      (t t' : List (Qpack.Encoder × List (Option Header.Bytes))),
      List.Forall₂ Qpack.Encoder.Use.Alike calls calls' →
      Qpack.Encoder.machine.trace e calls = some t →
      Qpack.Encoder.machine.trace e calls' = some t' → t = t' := by
  constructor
  · intro e calls calls' t t' hcalls ht ht'
    exact Hpack.Encoder.machine_blind.trace_eq hcalls ht ht'
  · intro e calls calls' t t' hcalls ht ht'
    exact Qpack.Encoder.machine_blind.trace_eq hcalls ht ht'

/-- A request with a secret and a field that enters the table. -/
def request (secret : String) : List Field :=
  [⟨ascii "authorization", ascii secret, indexNever⟩, ⟨ascii "x-id", ascii "7", indexIncremental⟩]

theorem request_alike (secret secret' : String) :
    List.Forall₂ Field.Alike (request secret) (request secret') :=
  .cons ⟨rfl, rfl, fun h => absurd rfl h⟩ (.cons ⟨rfl, rfl, fun _ => rfl⟩ .nil)

/-- Two requests of each run, with different secrets, and an acknowledgment between them. -/
theorem indexNever_values_do_not_interfere_request :
    (∃ t, Hpack.Encoder.machine.trace (.new fun _ => 0)
        [.encodeBlock (request "a"), .encodeBlock (request "bc")] = some t ∧
      Hpack.Encoder.machine.trace (.new fun _ => 0)
        [.encodeBlock (request ""), .encodeBlock (request "7")] = some t) ∧
    ∃ e t, Qpack.Encoder.newDynamic 4096 4096 = some (.ok e) ∧
      Qpack.Encoder.machine.trace e [.encodeFieldSection (request "a"),
        .parseDecoderInstructions [0x01], .encodeFieldSection (request "bc")] = some t ∧
      Qpack.Encoder.machine.trace e [.encodeFieldSection (request ""),
        .parseDecoderInstructions [0x01], .encodeFieldSection (request "7")] = some t := by
  constructor
  · have hrun : ∀ secrets ∈ [("a", "bc"), ("", "7")],
        (Hpack.Encoder.machine.trace (.new fun _ => 0) [.encodeBlock (request secrets.1),
          .encodeBlock (request secrets.2)]).isSome = true := by decide +kernel
    rcases Option.isSome_iff_exists.mp (hrun ("a", "bc") (by simp)) with ⟨t, ht⟩
    rcases Option.isSome_iff_exists.mp (hrun ("", "7") (by simp)) with ⟨t', ht'⟩
    have heq : t = t' := indexNever_values_do_not_interfere.1 _ _ _ t t'
      (.cons (.encodeBlock (request_alike _ _)) (.cons (.encodeBlock (request_alike _ _)) .nil))
      ht ht'
    exact ⟨t, ht, heq ▸ ht'⟩
  · have hrun : ((Qpack.Encoder.newDynamic 4096 4096).bind Except.toOption).any (fun e =>
        [("a", "bc"), ("", "7")].all fun secrets =>
          (Qpack.Encoder.machine.trace e [.encodeFieldSection (request secrets.1),
            .parseDecoderInstructions [0x01],
            .encodeFieldSection (request secrets.2)]).isSome) = true := by decide +kernel
    rcases hnew : Qpack.Encoder.newDynamic 4096 4096 with _ | _ | e
    · rw [hnew] at hrun
      cases hrun
    · rw [hnew] at hrun
      cases hrun
    · simp only [hnew, Option.bind_some, Except.toOption, Option.any_some, List.all_cons,
        List.all_nil, Bool.and_true, Bool.and_eq_true] at hrun
      rcases Option.isSome_iff_exists.mp hrun.1 with ⟨t, ht⟩
      rcases Option.isSome_iff_exists.mp hrun.2 with ⟨t', ht'⟩
      have heq : t = t' := indexNever_values_do_not_interfere.2 _ _ _ t t'
        (.cons (.encodeFieldSection (request_alike _ _)) (.cons (.parseDecoderInstructions _)
          (.cons (.encodeFieldSection (request_alike _ _)) .nil))) ht ht'
      exact ⟨e, t, rfl, ht, heq ▸ ht'⟩

end Secrecy
