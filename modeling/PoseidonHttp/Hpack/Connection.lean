import PoseidonHttp.Hpack.Representation
import PoseidonHttp.Lib.Transition

/-!
# An HPACK connection

An encoder and a decoder, the block being written, and the record of the blocks
decoded so far. A step writes fields, ends the block and decodes it, or changes a
table limit: the peer's on both sides between two blocks, the caller's on the
encoder at any time. Limits and field sizes stay below 2^31.

The two tables are allowed to differ: the encoder may work under a smaller limit
than the decoder, whose table then keeps more. `Linked` relates them: the
encoder's entries are a newest-first prefix of the decoder's, and a limit the
decoder does not know yet is pending.

* `undeclared_mode_diverges`: a field written in a mode that is none of the three
  is read as inserted but not inserted, and a later index names the wrong entry.
* `agreed_of_declared_modes`: in every run that only uses the named modes, under
  limits of at most a third of the 32-bit range, every block decodes to the
  fields it was written from.
-/

namespace Hpack

open Header (Bytes Field indexIncremental indexWithout indexNever pairSize ascii)
open Transition

/-! ## The system -/

/-- A block that has been decoded: what it was written from, what was visited, and
why decoding stopped, if it did. -/
structure Delivery where
  sent : List Field
  visited : List Field
  fault : Option (Fault Empty)
  deriving DecidableEq

/-- The two ends, the block under construction, and the blocks decoded. -/
structure Conn where
  enc : Encoder
  dec : Decoder
  block : Bytes
  fields : List Field
  delivered : List Delivery
  panicked : Bool

inductive Op where
  | encodeBlock (fields : List Field)
  | writeField (f : Field)
  | endBlock
  | setMaxDynamicTableSize (n : ℕ)
  | setMaxDynamicTableSizeLimit (n : ℕ)

/-- Limits and entry sizes of the connections considered. -/
def sizeBound : ℕ := 2 ^ 31

/-- The entry size of the field is in bounds. -/
def InBounds (f : Field) : Prop := pairSize f.pair < sizeBound

instance (f : Field) : Decidable (InBounds f) := inferInstanceAs (Decidable (_ < _))

namespace Conn

def init (hash : Bytes → UInt64) : Conn := ⟨.new hash, .new, [], [], [], false⟩

/-- Append what the encoder wrote to the block. -/
def wrote (s : Conn) (fields : List Field) : Option (Bytes × Encoder) → Conn
  | none => { s with panicked := true }
  | some (bytes, enc) =>
    { s with enc := enc, block := s.block ++ bytes, fields := s.fields ++ fields }

/-- Decode the block. -/
def deliver (s : Conn) : Conn :=
  let r := Decoder.decodeBlock record s.dec [] s.block
  { s with
    dec := r.1.1
    block := []
    fields := []
    delivered := s.delivered ++ [⟨s.fields, r.1.2, r.2⟩] }

/-- Change the peer's limit on both sides. -/
def resize (s : Conn) (n : ℕ) : Conn :=
  match s.enc.setMaxDynamicTableSize n, s.dec.setMaxDynamicTableSize n with
  | some enc, some dec => { s with enc := enc, dec := dec }
  | _, _ => { s with panicked := true }

/-- Change the caller's limit. -/
def relimit (s : Conn) (n : ℕ) : Conn :=
  match s.enc.setMaxDynamicTableSizeLimit n with
  | some enc => { s with enc := enc }
  | none => { s with panicked := true }

def step (s : Conn) : Op → Option Conn
  | .encodeBlock fields =>
    if ∀ f ∈ fields, InBounds f then some (s.wrote fields (s.enc.encodeBlock fields)) else none
  | .writeField f =>
    if InBounds f then some (s.wrote [f] (s.enc.writeField f.name f.value f.indexing)) else none
  | .endBlock => some s.deliver
  | .setMaxDynamicTableSize n =>
    if n < sizeBound ∧ s.block = [] ∧ s.fields = [] then some (s.resize n) else none
  | .setMaxDynamicTableSizeLimit n => if n < sizeBound then some (s.relimit n) else none

/-- The system, for one hash function of the encoder's index. -/
def system (hash : Bytes → UInt64) : System Conn Op := ⟨init hash, step⟩

end Conn

/-- The entries of a table, newest first. -/
def DynamicTable.entries (d : DynamicTable) : Option (List (Bytes × Bytes)) :=
  (List.range d.count).mapM fun i => d.entryAt (i + 1)

/-- What a block must decode to: the pairs it was written from, in order, with
never-indexed fields still marked. -/
structure Delivery.Faithful (δ : Delivery) : Prop where
  fault : δ.fault = none
  pairs : δ.visited.map Field.pair = δ.sent.map Field.pair
  never : List.Forall₂ (fun f g => f.indexing = indexNever → g.indexing = indexNever)
    δ.sent δ.visited

/-- The agreement the two ends owe each other. -/
structure Conn.Agreed (s : Conn) : Prop where
  running : s.panicked = false
  faithful : ∀ δ ∈ s.delivered, δ.Faithful
  tables : s.block = [] → ∃ p q, s.enc.dt.entries = some p ∧ s.dec.dt.entries = some q ∧ p <+: q

/-! ## How the two tables are linked -/

/-- The largest limit whose table always stays addressable by 32-bit offsets. -/
def tableBound : ℕ := 2 ^ 32 / 3

theorem three_mul_tableBound : 3 * tableBound ≤ PairArena.word := by decide

/-- The encoder's table holds `p`, within its limit; a pending update announces
that limit. -/
structure EncoderRep (enc : Encoder) (p : List (Bytes × Bytes)) : Prop where
  table : enc.dt.Rep tableBound p
  indexed : enc.dt.index.isSome
  limit : enc.dt.maxSize = enc.localLimit
  fits : Fifo.weight pairSize p ≤ enc.localLimit
  pending : enc.hasPendingUpdate = true → enc.pendingSizeUpdate = enc.localLimit

/-- The encoder's table holds `p`, the decoder's `q`, and the encoder refers to
nothing the decoder does not hold. -/
structure LinkedBy (enc : Encoder) (dec : Decoder) (p q : List (Bytes × Bytes)) : Prop where
  encoder : EncoderRep enc p
  decoder : dec.dt.Rep tableBound q
  sub : p <+: q
  localLimit : enc.localLimit = min enc.callerLimit enc.peerMaxSize
  peer : dec.maxLocal = enc.peerMaxSize
  peer_le : enc.peerMaxSize ≤ tableBound
  dec_le : dec.dt.maxSize ≤ tableBound
  current : enc.hasPendingUpdate = false → enc.localLimit ≤ dec.dt.maxSize
  unlimited : dec.maxListSize = 0

def Linked (enc : Encoder) (dec : Decoder) : Prop := ∃ p q, LinkedBy enc dec p q

variable {enc : Encoder} {dec : Decoder} {p q : List (Bytes × Bytes)}

theorem linkedBy_init (hash : Bytes → UInt64) : LinkedBy (.new hash) .new [] [] where
  encoder := {
    table := ⟨PairArena.holds_empty, rfl, Nat.zero_le _, Nat.zero_le _, by
      intro x hx
      obtain rfl := Option.some.inj hx
      exact DynamicTableIndex.indexes_new hash⟩
    indexed := rfl
    limit := rfl
    fits := Nat.zero_le _
    pending := by simp [Encoder.new] }
  decoder := DynamicTable.rep_new
  sub := List.nil_prefix
  localLimit := rfl
  peer := rfl
  peer_le := show defaultMaxDynamicTableSize ≤ tableBound by decide
  dec_le := show defaultMaxDynamicTableSize ≤ tableBound by decide
  current := fun _ => le_rfl
  unlimited := rfl

theorem LinkedBy.localLimit_le_peer (h : LinkedBy enc dec p q) :
    enc.localLimit ≤ enc.peerMaxSize := by
  rw [h.localLimit]
  exact min_le_right _ _

/-! ### Limits -/

/-- Recomputing the limit shrinks the encoder's table to it, and leaves an update
pending unless nothing changed. -/
theorem EncoderRep.recomputeLocalLimit (h : EncoderRep enc p) :
    ∃ enc', enc.recomputeLocalLimit = some enc' ∧
      EncoderRep enc' (Fifo.fit pairSize enc'.localLimit p) ∧
      enc'.localLimit = min enc.callerLimit enc.peerMaxSize ∧
      enc'.callerLimit = enc.callerLimit ∧ enc'.peerMaxSize = enc.peerMaxSize ∧
      (enc'.hasPendingUpdate = false → enc' = enc) := by
  have hmin : (if enc.callerLimit < enc.peerMaxSize then enc.callerLimit else enc.peerMaxSize) =
      min enc.callerLimit enc.peerMaxSize := by
    split_ifs <;> omega
  simp only [Encoder.recomputeLocalLimit, hmin]
  split_ifs with hsame
  · refine ⟨enc, rfl, ?_, hsame.symm, rfl, rfl, fun _ => rfl⟩
    rwa [Fifo.fit_eq_self h.fits]
  · obtain ⟨dt, hset, hrep, hframe⟩ :=
      h.table.setMaxSize (by decide) (min enc.callerLimit enc.peerMaxSize)
    rw [hset]
    exact ⟨_, rfl, ⟨hrep, hframe.2.trans h.indexed, hframe.1, Fifo.weight_fit_le _ p, fun _ => rfl⟩,
      rfl, rfl, rfl, by simp⟩

/-- The caller's limit: the encoder keeps a prefix of what it had. -/
theorem LinkedBy.setMaxDynamicTableSizeLimit (h : LinkedBy enc dec p q) (n : ℕ) :
    ∃ enc', enc.setMaxDynamicTableSizeLimit n = some enc' ∧ Linked enc' dec := by
  have h₀ : EncoderRep { enc with callerLimit := n } p :=
    ⟨h.encoder.table, h.encoder.indexed, h.encoder.limit, h.encoder.fits, h.encoder.pending⟩
  obtain ⟨enc', hset, hrep, hlim, hcaller, hpeer, hsame⟩ := h₀.recomputeLocalLimit
  refine ⟨enc', hset, _, q, hrep, h.decoder, (Fifo.fit_isPrefix _ p).trans h.sub, ?_, ?_, ?_,
    h.dec_le, fun hp => ?_, h.unlimited⟩
  · rw [hlim, hcaller, hpeer]
  · rw [hpeer]
    exact h.peer
  · rw [hpeer]
    exact h.peer_le
  · have heq := hsame hp
    subst heq
    exact h.current hp

/-- The peer's limit on both sides: the encoder's new limit is within it. -/
theorem LinkedBy.setMaxDynamicTableSize (h : LinkedBy enc dec p q) {n : ℕ} (hn : n ≤ tableBound) :
    ∃ enc' dec', enc.setMaxDynamicTableSize n = some enc' ∧
      dec.setMaxDynamicTableSize n = some dec' ∧ Linked enc' dec' := by
  have h₀ : EncoderRep { enc with peerMaxSize := n } p :=
    ⟨h.encoder.table, h.encoder.indexed, h.encoder.limit, h.encoder.fits, h.encoder.pending⟩
  obtain ⟨enc', hset, hrep, hlim, hcaller, hpeer, -⟩ := h₀.recomputeLocalLimit
  obtain ⟨dt, hdset, hdrep, hdframe⟩ := h.decoder.setMaxSize (by decide) n
  have hdmax : dt.maxSize = n := hdframe.1
  have hle : enc'.localLimit ≤ n := by
    rw [hlim]
    exact min_le_right _ _
  refine ⟨enc', { dec with maxLocal := n, dt := dt }, hset, ?_, _, _, hrep, hdrep,
    Fifo.fit_prefix_fit h.sub hle, ?_, hpeer.symm, ?_, ?_, fun _ => ?_, h.unlimited⟩
  · simp [Decoder.setMaxDynamicTableSize, hdset]
  · rw [hlim, hcaller, hpeer]
  · rw [hpeer]
    exact hn
  · show dt.maxSize ≤ _
    omega
  · show _ ≤ dt.maxSize
    omega

/-- A pending update is read before anything else, and brings the decoder's limit
down to the encoder's. -/
theorem LinkedBy.maybeEmitSizeUpdate (h : LinkedBy enc dec p q) (v : List Field) :
    ∃ dec', Decoder.Reads record (dec, v) enc.maybeEmitSizeUpdate.1 (dec', v) ∧
      Linked enc.maybeEmitSizeUpdate.2 dec' ∧
      enc.maybeEmitSizeUpdate.2.hasPendingUpdate = false := by
  unfold Encoder.maybeEmitSizeUpdate
  cases hp : enc.hasPendingUpdate with
  | false => exact ⟨dec, .nil _, ⟨p, q, h⟩, hp⟩
  | true =>
    have hval := h.encoder.pending hp
    have hle : enc.localLimit ≤ dec.maxLocal := h.peer ▸ h.localLimit_le_peer
    have hword : enc.localLimit < 2 ^ 32 := by
      have := h.localLimit_le_peer.trans h.peer_le
      simp only [tableBound] at this
      omega
    obtain ⟨dt, hset, hrep, hframe⟩ := h.decoder.setMaxSize (by decide) enc.localLimit
    have hmax : dt.maxSize = enc.localLimit := hframe.1
    refine ⟨{ dec with dt := dt }, ?_, ⟨p, _, ?_, hrep, Fifo.prefix_fit h.sub h.encoder.fits,
      h.localLimit, h.peer, h.peer_le, ?_, fun _ => hmax.ge, h.unlimited⟩, rfl⟩
    · simp only [hval, if_true]
      exact Decoder.reads_sizeUpdate hword hle hset
    · exact ⟨h.encoder.table, h.encoder.indexed, h.encoder.limit, h.encoder.fits, by simp⟩
    · rw [hmax]
      exact h.localLimit_le_peer.trans h.peer_le

/-! ### Fields -/

theorem lookup_static {idx : ℕ} (h : 1 ≤ idx ∧ idx ≤ staticTableLen) :
    (dec.lookup idx : Except (Fault Empty) _) = .ok (staticRow idx) := by
  rw [Decoder.lookup, if_neg (by omega), if_pos h.2]

variable {name value : Bytes} {s : Conn} {fields : List Field} {i : ℕ}

/-- The decoder finds the encoder's entries under the encoder's indices. -/
theorem LinkedBy.lookup_dynamic (h : LinkedBy enc dec p q) (hi : i < p.length) :
    (dec.lookup (i + 1 + staticTableLen) : Except (Fault Empty) _) = .ok p[i] := by
  have hiq : i < q.length := hi.trans_le h.sub.length_le
  rw [Decoder.lookup, if_neg (by omega), if_neg (by omega), Nat.add_sub_cancel]
  simp only [h.decoder.count_eq, if_neg (show ¬ q.length < i + 1 by omega),
    h.decoder.entryAt hiq, h.sub.getElem hi]

/-- Indices fit the prefix integers they are written in. -/
theorem LinkedBy.index_lt (h : LinkedBy enc dec p q) (hi : i < p.length) :
    i + 1 + staticTableLen < 2 ^ 32 := by
  have hmul := Fifo.length_mul_le_weight (w := pairSize) (k := 32) p fun x _ => by
    simp [pairSize, Header.entryOverhead]
  have := h.encoder.table.weight
  simp only [tableBound, staticTableLen] at *
  omega

theorem bestMatch_entry {full : Bool} (h : DynamicTable.bestMatch p name value = (i, full))
    (hfound : full = true ∨ i ≠ 0) :
    ∃ j, ∃ hj : j < p.length, i = j + 1 ∧ (p[j]).1 = name ∧ (full = true → (p[j]).2 = value) := by
  unfold DynamicTable.bestMatch at h
  cases hf : p.findIdx? (· = (name, value)) with
  | some j =>
    obtain ⟨hj, he, -⟩ := List.findIdx?_eq_some_iff_getElem.mp hf
    simp only [hf, Prod.mk.injEq] at h
    have he' : p[j] = (name, value) := by simpa using he
    exact ⟨j, hj, h.1.symm, by rw [he'], fun _ => by rw [he']⟩
  | none =>
    simp only [hf] at h
    cases hn : p.findIdx? (·.1 = name) with
    | some j =>
      obtain ⟨hj, he, -⟩ := List.findIdx?_eq_some_iff_getElem.mp hn
      simp only [hn, Prod.mk.injEq] at h
      obtain ⟨rfl, rfl⟩ := h
      exact ⟨j, hj, rfl, by simpa using he, fun h => by cases h⟩
    | none =>
      simp only [hn, Prod.mk.injEq] at h
      obtain ⟨rfl, rfl⟩ := h
      simp at hfound

/-- A literal's name reference resolves to the name on the decoder's side. -/
theorem LinkedBy.writable (h : LinkedBy enc dec p q) {staticIdx dynIdx : ℕ}
    {fullStatic fullDyn : Bool} (hs : staticIndex name value = (staticIdx, fullStatic))
    (hd : DynamicTable.bestMatch p name value = (dynIdx, fullDyn))
    (hsize : pairSize (name, value) < sizeBound) :
    dec.Writable (Encoder.nameIndex staticIdx dynIdx) name value := by
  have hbound : pairSize (name, value) < 2 ^ 31 := hsize
  simp only [pairSize] at hbound
  have hidx : Encoder.nameIndex staticIdx dynIdx < 2 ^ 32 ∧
      dec.NameOf (Encoder.nameIndex staticIdx dynIdx) name := by
    unfold Encoder.nameIndex Decoder.NameOf
    split_ifs with h1 h2
    · obtain ⟨hr, hname, -⟩ := staticIndex_row hs (.inr h1)
      refine ⟨by simp only [staticTableLen] at hr; omega, fun _ => ⟨(staticRow staticIdx).2, ?_⟩⟩
      rw [lookup_static hr, ← hname]
    · obtain ⟨j, hj, rfl, hname, -⟩ := bestMatch_entry hd (.inr h2)
      refine ⟨h.index_lt hj, fun _ => ⟨(p[j]).2, ?_⟩⟩
      rw [h.lookup_dynamic hj, ← hname]
    · exact ⟨by decide, fun h0 => absurd rfl h0⟩
  exact ⟨hidx.1, by omega, by omega, hidx.2⟩

/-- A field as it is visited: the same pair, a never-indexed one still marked. -/
def SameField (f g : Field) : Prop :=
  g.pair = f.pair ∧ (f.indexing = indexNever → g.indexing = indexNever)

/-- Inserting on both sides keeps the prefix, the encoder's limit being the smaller. -/
theorem LinkedBy.add (h : LinkedBy enc dec p q) (hp : enc.hasPendingUpdate = false)
    (hsize : pairSize (name, value) < sizeBound) :
    ∃ dt dt', enc.dt.add name value = some dt ∧ dec.dt.add name value = some dt' ∧
      Linked { enc with dt := dt } { dec with dt := dt' } := by
  have hword : pairSize (name, value) < PairArena.word := hsize.trans (by decide)
  have hlim : enc.dt.maxSize ≤ tableBound := by
    rw [h.encoder.limit]
    exact h.localLimit_le_peer.trans h.peer_le
  obtain ⟨dt, hadd, hrep, -, hframe⟩ := h.encoder.table.add hlim three_mul_tableBound hword
  obtain ⟨dt', hadd', hrep', -, hframe'⟩ := h.decoder.add h.dec_le three_mul_tableBound hword
  have hle : enc.dt.maxSize ≤ dec.dt.maxSize := h.encoder.limit ▸ h.current hp
  have hmax : dt.maxSize = enc.localLimit := hframe.1.trans h.encoder.limit
  have hmax' : dt'.maxSize = dec.dt.maxSize := hframe'.1
  refine ⟨dt, dt', hadd, hadd', _, _, ⟨hrep, hframe.2.trans h.encoder.indexed, hmax, ?_,
    h.encoder.pending⟩, hrep', Fifo.push_prefix_push _ h.sub hle, h.localLimit, h.peer, h.peer_le,
    ?_, fun _ => ?_, h.unlimited⟩
  · rw [h.encoder.limit]
    exact Fifo.weight_push_le _ _ p
  · exact hmax' ▸ h.dec_le
  · exact hmax' ▸ h.current hp

/-- One field, with no size update pending: the decoder reads its bytes, visits
the field, and the tables stay linked. -/
theorem Linked.writeFieldAlreadyFlushedSize (h : Linked enc dec)
    (hp : enc.hasPendingUpdate = false) {f : Field} (hf : InBounds f) (hm : f.indexing.Declared)
    (v : List Field) :
    ∃ bytes enc' dec' g,
      enc.writeFieldAlreadyFlushedSize f.name f.value f.indexing = some (bytes, enc') ∧
      Decoder.Reads record (dec, v) bytes (dec', v ++ [g]) ∧ SameField f g ∧
      Linked enc' dec' ∧ enc'.hasPendingUpdate = false := by
  obtain ⟨p, q, h⟩ := h
  obtain ⟨x, hx⟩ := Option.isSome_iff_exists.mp h.encoder.indexed
  have hdyn : enc.dynamicLookup f.name f.value = some (DynamicTable.bestMatch p f.name f.value) := by
    rw [Encoder.dynamicLookup, hx]
    exact h.encoder.table.lookup hx f.name f.value
  unfold Encoder.writeFieldAlreadyFlushedSize
  rcases hs : staticIndex f.name f.value with ⟨staticIdx, fullStatic⟩
  rcases hd : DynamicTable.bestMatch p f.name f.value with ⟨dynIdx, fullDyn⟩
  simp only [hdyn, hd, Option.bind_eq_bind, Option.bind_some]
  have hw := h.writable hs hd hf
  split_ifs with h1 h2 h3
  · -- a row of the static table
    obtain ⟨rfl, hmode⟩ := h1
    obtain ⟨hr, hname, hvalue⟩ := staticIndex_row hs (.inl rfl)
    refine ⟨_, enc, dec, _, rfl, Decoder.reads_indexed ?_ (lookup_static hr) h.unlimited, ?_,
      ⟨p, q, h⟩, hp⟩
    · simp only [staticTableLen] at hr
      omega
    · rw [hname, hvalue rfl]
      exact ⟨rfl, fun hn => absurd hn hmode⟩
  · -- an entry of the dynamic table
    obtain ⟨rfl, hmode⟩ := h2
    obtain ⟨j, hj, rfl, hname, hvalue⟩ := bestMatch_entry hd (.inl rfl)
    refine ⟨_, enc, dec, _, rfl,
      Decoder.reads_indexed (h.index_lt hj) (h.lookup_dynamic hj) h.unlimited, ?_, ⟨p, q, h⟩, hp⟩
    rw [hname, hvalue rfl]
    exact ⟨rfl, fun hn => absurd hn hmode⟩
  · -- a literal that both sides insert
    obtain ⟨dt, dt', hadd, hadd', hlink⟩ := h.add hp hf
    refine ⟨_, { enc with dt := dt }, { dec with dt := dt' }, ⟨f.name, f.value, indexIncremental⟩,
      by rw [hadd]; rfl, ?_, ?_, hlink, hp⟩
    · rw [h3]
      exact Decoder.reads_incremental hw hadd' h.unlimited
    · exact ⟨rfl, fun hn => absurd (h3.symm.trans hn) (by decide)⟩
  · -- a literal that neither side inserts
    rcases hm with hm | hm | hm
    · exact absurd hm h3
    · refine ⟨_, enc, dec, ⟨f.name, f.value, indexWithout⟩, rfl, ?_, ?_, ⟨p, q, h⟩, hp⟩
      · rw [hm]
        exact Decoder.reads_without hw h.unlimited
      · exact ⟨rfl, fun hn => absurd (hm.symm.trans hn) (by decide)⟩
    · refine ⟨_, enc, dec, ⟨f.name, f.value, indexNever⟩, rfl, ?_, ⟨rfl, fun _ => rfl⟩,
        ⟨p, q, h⟩, hp⟩
      rw [hm]
      exact Decoder.reads_never hw h.unlimited

/-- Any number of fields, by induction on the list. -/
theorem Linked.writeFields :
    ∀ {enc : Encoder} {dec : Decoder} {v : List Field}, Linked enc dec →
      enc.hasPendingUpdate = false → (∀ f ∈ fields, InBounds f ∧ f.indexing.Declared) →
      ∃ bytes enc' dec' vis, enc.writeFields fields = some (bytes, enc') ∧
        Decoder.Reads record (dec, v) bytes (dec', v ++ vis) ∧ List.Forall₂ SameField fields vis ∧
        Linked enc' dec' := by
  induction fields with
  | nil =>
    intro enc dec v h _ _
    exact ⟨[], enc, dec, [], rfl, by simpa using Decoder.Reads.nil _, .nil, h⟩
  | cons f fields ih =>
    intro enc dec v h hp hall
    obtain ⟨hf, hm⟩ := hall f (by simp)
    obtain ⟨b₁, enc₁, dec₁, g, hw₁, hr₁, hsame, h₁, hp₁⟩ :=
      h.writeFieldAlreadyFlushedSize hp hf hm v
    obtain ⟨b₂, enc₂, dec₂, vis, hw₂, hr₂, hsames, h₂⟩ :=
      ih h₁ hp₁ fun f' hf' => hall f' (by simp [hf'])
    refine ⟨b₁ ++ b₂, enc₂, dec₂, g :: vis, ?_, ?_, .cons hsame hsames, h₂⟩
    · simp [Encoder.writeFields, hw₁, hw₂]
    · have := hr₁.append hr₂
      rwa [List.append_assoc, List.singleton_append] at this

/-- A call of `EncodeBlock`: the pending update, if any, then the fields. -/
theorem Linked.encodeBlock (h : Linked enc dec)
    (hall : ∀ f ∈ fields, InBounds f ∧ f.indexing.Declared) (v : List Field) :
    ∃ bytes enc' dec' vis, enc.encodeBlock fields = some (bytes, enc') ∧
      Decoder.Reads record (dec, v) bytes (dec', v ++ vis) ∧ List.Forall₂ SameField fields vis ∧
      Linked enc' dec' := by
  obtain ⟨p, q, h⟩ := h
  obtain ⟨dec₁, hr₁, h₁, hp₁⟩ := h.maybeEmitSizeUpdate v
  obtain ⟨b₂, enc₂, dec₂, vis, hw₂, hr₂, hsames, h₂⟩ := h₁.writeFields hp₁ hall
  exact ⟨_, enc₂, dec₂, vis, by simp [Encoder.encodeBlock, hw₂], hr₁.append hr₂, hsames, h₂⟩

/-- `WriteField` is `EncodeBlock` of one field. -/
theorem writeField_eq (enc : Encoder) (f : Field) :
    enc.writeField f.name f.value f.indexing = enc.encodeBlock [f] := by
  simp only [Encoder.writeField, Encoder.encodeBlock, Encoder.writeFields, Option.bind_eq_bind]
  cases enc.maybeEmitSizeUpdate.2.writeFieldAlreadyFlushedSize f.name f.value f.indexing <;> simp

/-! ## Runs -/

/-- The invariant of runs: the open block, read from the decoder's present state,
visits the fields written into it and leaves the tables linked. -/
structure Conn.Inv (s : Conn) : Prop where
  running : s.panicked = false
  faithful : ∀ δ ∈ s.delivered, δ.Faithful
  ahead : ∃ dec vis, Decoder.Reads record ({ s.dec with listTotal := 0 }, []) s.block (dec, vis) ∧
    List.Forall₂ SameField s.fields vis ∧ Linked s.enc dec

theorem Linked.resetTotal (h : Linked enc dec) : Linked enc { dec with listTotal := 0 } := by
  obtain ⟨p, q, h⟩ := h
  exact ⟨p, q, { h with }⟩

theorem Linked.of_resetTotal (h : Linked enc { dec with listTotal := 0 }) : Linked enc dec := by
  obtain ⟨p, q, h⟩ := h
  exact ⟨p, q, { h with }⟩

/-- At a block boundary nothing is ahead: the two ends are linked as they are. -/
theorem Conn.Inv.linked (h : s.Inv) (hb : s.block = []) :
    Linked s.enc s.dec ∧ s.fields = [] := by
  obtain ⟨dec, vis, hr, hsame, hlink⟩ := h.ahead
  rw [hb] at hr
  have heq := hr.decodeFragment_eq
  obtain ⟨rfl, rfl⟩ := heq
  exact ⟨hlink.of_resetTotal, List.forall₂_nil_right_iff.mp hsame⟩

theorem Conn.inv_init (hash : Bytes → UInt64) : (Conn.init hash).Inv :=
  ⟨rfl, by simp [Conn.init], _, [], .nil _, .nil, [], [], linkedBy_init hash⟩

/-- Writing fields extends what is ahead. -/
theorem Conn.Inv.wrote (h : s.Inv) (hall : ∀ f ∈ fields, InBounds f ∧ f.indexing.Declared) :
    (s.wrote fields (s.enc.encodeBlock fields)).Inv := by
  obtain ⟨dec, vis, hr, hsame, hlink⟩ := h.ahead
  obtain ⟨bytes, enc', dec', vis', hw, hr', hsame', hlink'⟩ := hlink.encodeBlock hall vis
  rw [hw]
  exact ⟨h.running, h.faithful, dec', vis ++ vis', hr.append hr', List.rel_append hsame hsame',
    hlink'⟩

theorem faithful_of_sameField {sent vis : List Field} (h : List.Forall₂ SameField sent vis) :
    (⟨sent, vis, none⟩ : Delivery).Faithful := by
  refine ⟨rfl, ?_, h.imp fun _ _ hfg => hfg.2⟩
  induction h with
  | nil => rfl
  | cons hfg _ ih => simpa [hfg.1] using ih

/-- Decoding the block catches up with the encoder. -/
theorem Conn.Inv.deliver (h : s.Inv) : s.deliver.Inv := by
  obtain ⟨dec, vis, hr, hsame, hlink⟩ := h.ahead
  have hdec : Decoder.decodeBlock record s.dec [] s.block = ((dec, vis), none) :=
    hr.decodeFragment_eq
  simp only [Conn.deliver, hdec]
  refine ⟨h.running, List.forall_mem_append.mpr ⟨h.faithful, ?_⟩, _, [], .nil _, .nil,
    hlink.resetTotal⟩
  exact List.forall_mem_singleton.mpr (faithful_of_sameField hsame)

theorem Conn.Inv.resize (h : s.Inv) (hb : s.block = []) {n : ℕ} (hn : n ≤ tableBound) :
    (s.resize n).Inv := by
  obtain ⟨⟨p, q, hlink⟩, hfields⟩ := h.linked hb
  obtain ⟨enc', dec', he, hd, hlink'⟩ := hlink.setMaxDynamicTableSize hn
  simp only [Conn.resize, he, hd]
  refine ⟨h.running, h.faithful, { dec' with listTotal := 0 }, [], ?_, ?_, hlink'.resetTotal⟩
  · rw [hb]
    exact .nil _
  · rw [hfields]
    exact .nil

theorem Conn.Inv.relimit (h : s.Inv) (n : ℕ) : (s.relimit n).Inv := by
  obtain ⟨dec, vis, hr, hsame, p, q, hlink⟩ := h.ahead
  obtain ⟨enc', he, hlink'⟩ := hlink.setMaxDynamicTableSizeLimit n
  simp only [Conn.relimit, he]
  exact ⟨h.running, h.faithful, dec, vis, hr, hsame, hlink'⟩

/-- The condition on a step: fields in a named mode, limits of the peer of at most
a third of the 32-bit range. -/
def Regular (_ : Conn) : Op → Prop
  | .encodeBlock fields => ∀ f ∈ fields, f.indexing.Declared
  | .writeField f => f.indexing.Declared
  | .endBlock => True
  | .setMaxDynamicTableSize n => n ≤ tableBound
  | .setMaxDynamicTableSizeLimit _ => True

theorem Conn.Inv.step {s' : Conn} {a : Op} (h : s.Inv) (ha : Regular s a) (hs : s.step a = some s') :
    s'.Inv := by
  cases a with
  | encodeBlock fields =>
    simp only [Conn.step, Transition.guarded] at hs
    obtain ⟨hb, rfl⟩ := hs
    exact h.wrote fun f hf => ⟨hb f hf, ha f hf⟩
  | writeField f =>
    simp only [Conn.step, Transition.guarded, writeField_eq] at hs
    obtain ⟨hb, rfl⟩ := hs
    refine h.wrote fun g hg => ?_
    obtain rfl := List.mem_singleton.mp hg
    exact ⟨hb, ha⟩
  | endBlock =>
    obtain rfl := Option.some.inj hs
    exact h.deliver
  | setMaxDynamicTableSize n =>
    simp only [Conn.step, Transition.guarded] at hs
    obtain ⟨⟨-, hb, -⟩, rfl⟩ := hs
    exact h.resize hb ha
  | setMaxDynamicTableSizeLimit n =>
    simp only [Conn.step, Transition.guarded] at hs
    obtain ⟨-, rfl⟩ := hs
    exact h.relimit n

theorem DynamicTable.Rep.entries {M : ℕ} {d : DynamicTable} {l : List (Bytes × Bytes)}
    (h : d.Rep M l) : d.entries = some l := by
  suffices hall : ∀ pre suf, l = pre ++ suf →
      (List.range' pre.length suf.length).mapM (fun i => d.entryAt (i + 1)) = some suf by
    have := hall [] l rfl
    rwa [List.length_nil, ← List.range_eq_range', ← h.count_eq] at this
  intro pre suf
  induction suf generalizing pre with
  | nil => intro _; rfl
  | cons e suf ih =>
    intro hl
    have hread : d.entryAt (pre.length + 1) = some e := by
      rw [h.entryAt (by simp [hl])]
      simp [hl]
    have hrest := ih (pre ++ [e]) (by simp [hl])
    rw [List.length_append, List.length_singleton] at hrest
    simp [List.range'_succ, List.mapM_cons, hread, hrest]

theorem Conn.Inv.agreed (h : s.Inv) : s.Agreed := by
  refine ⟨h.running, h.faithful, fun hb => ?_⟩
  obtain ⟨⟨p, q, hlink⟩, -⟩ := h.linked hb
  exact ⟨p, q, hlink.encoder.table.entries, hlink.decoder.entries, hlink.sub⟩

/-- Under the named modes the two ends agree in every state a run reaches, whatever
hash function the encoder drew. -/
theorem agreed_of_declared_modes (hash : Bytes → UInt64) {s : Conn}
    (h : (Conn.system hash).ReachableBy Regular s) : s.Agreed :=
  Conn.Inv.agreed <|
    h.invariant (Conn.inv_init hash) fun _ _ _ hinv ha hs => hinv.step ha hs

/-- A run with a size change, insertions, an indexed field and a never-indexed one. -/
def regularRun : List Op :=
  [.setMaxDynamicTableSizeLimit 100,
    .writeField ⟨ascii "x-a", ascii "1", indexIncremental⟩,
    .encodeBlock [⟨ascii "x-a", ascii "1", indexWithout⟩,
      ⟨ascii "cookie", ascii "k", indexNever⟩],
    .endBlock, .setMaxDynamicTableSize 64,
    .writeField ⟨ascii "x-b", ascii "2", indexIncremental⟩, .endBlock]

theorem agreed_of_declared_modes_regularRun :
    ∃ s, (Conn.system fun _ => 0).run (Conn.init fun _ => 0) regularRun = some s ∧
      s.delivered.length = 2 ∧ s.Agreed := by
  apply System.exists_run_known regularRun
  · intro s hs
    apply agreed_of_declared_modes fun _ => 0
    refine System.reachableBy_run .init (System.runMeets_of_forall (fun s a ha => ?_) _) hs
    simp only [regularRun, List.mem_cons, List.not_mem_nil, or_false] at ha
    rcases ha with rfl | rfl | rfl | rfl | rfl | rfl | rfl <;> simp [Regular] <;> decide
  · decide +kernel

/-- A field in a mode past the named ones goes out as an insertion the encoder does
not make. -/
def undeclaredRun : List Op :=
  [.writeField ⟨ascii "b", ascii "1", indexIncremental⟩, .endBlock,
    .writeField ⟨ascii "c", ascii "2", 3⟩, .endBlock,
    .writeField ⟨ascii "b", ascii "1", indexIncremental⟩, .endBlock]

/-- After it the index of the entry `b: 1` names `c: 2` on the other side. -/
theorem undeclared_mode_diverges :
    ∃ s, (Conn.system fun _ => 0).Reachable s ∧
      ⟨[⟨ascii "b", ascii "1", indexIncremental⟩],
        [⟨ascii "c", ascii "2", indexIncremental⟩], none⟩ ∈ s.delivered ∧
      ¬ s.Agreed := by
  have hrun : ∃ s, (Conn.system fun _ => 0).Reachable s ∧
      ⟨[⟨ascii "b", ascii "1", indexIncremental⟩],
        [⟨ascii "c", ascii "2", indexIncremental⟩], none⟩ ∈ s.delivered := by
    apply System.exists_reachable undeclaredRun
    decide +kernel
  obtain ⟨s, hs, hmem⟩ := hrun
  refine ⟨s, hs, hmem, fun hagreed => ?_⟩
  exact absurd (hagreed.faithful _ hmem).pairs (by decide)

end Hpack
