import PoseidonHttp.Qpack.Decoder
import PoseidonHttp.Lib.Transition

/-!
# Reference after acknowledgment

An encoder with a dynamic table, the table of its peer, and the two streams between
them: encoder instructions, drained and then delivered in chunks of any size, and
insert count increments, which the peer may send for what it has inserted. Encoded
sections are kept: each may be decoded in any later state.

`Net.Sound` is what the design promises: no instruction is rejected, nothing is
evicted, the Known Received Count stays behind the peer, and every section decodes,
at once, to its fields. It rests on one list, the entries the encoder has inserted:
the peer holds an initial part of it and the instruction stream is the rest.

* `sound_of_capacity_le`: it holds in every run while the table's capacity stays
  within what 32-bit arena offsets address.
* `large_capacity_panics`: one byte more, and the encoder stops on its own table.
-/

namespace Qpack

open Header (Bytes Field)
open Transition
open PairArena (spanAt)

/-! ## The system -/

/-- Both ends and what is between them. -/
structure Net where
  enc : Encoder
  /-- Instructions drained and not delivered. -/
  wire : Bytes
  /-- Instructions delivered and left unconsumed. -/
  tail : Bytes
  peer : DynamicTable
  /-- The sum of the increments the peer sent. -/
  acked : ℕ
  ackWire : Bytes
  ackTail : Bytes
  /-- The sections encoded so far, each with its fields. -/
  sections : List (Bytes × List Field)
  fault : Option (Fault Empty)

inductive Op where
  | encodeFieldSection (fields : List Field)
  | drain
  /-- The next `n` bytes of the encoder stream arrive. -/
  | deliver (n : ℕ)
  | increment (v : ℕ)
  /-- The next `n` bytes of the decoder stream arrive. -/
  | acknowledge (n : ℕ)

namespace Net

def init (maxCapacity : ℕ) (enc : Encoder) : Net :=
  ⟨enc, [], [], .new maxCapacity, 0, [], [], [], none⟩

def encode (s : Net) (fields : List Field) : Net :=
  match s.enc.encodeFieldSection fields with
  | none => { s with fault := some .panic }
  | some (bytes, enc) => { s with enc := enc, sections := s.sections ++ [(bytes, fields)] }

def drain (s : Net) : Net :=
  let r := s.enc.drainEncoderInstructions
  { s with enc := r.2, wire := s.wire ++ r.1 }

def deliver (s : Net) (n : ℕ) : Net :=
  let src := s.tail ++ s.wire.take n
  match s.peer.parseEncoderInstructions src with
  | none => { s with fault := some .panic }
  | some (p, peer, err) =>
    { s with peer := peer, tail := src.drop p, wire := s.wire.drop n, fault := err.map .err }

def increment (s : Net) (v : ℕ) : Net :=
  { s with acked := s.acked + v, ackWire := s.ackWire ++ insertCountIncrement v }

def acknowledge (s : Net) (n : ℕ) : Net :=
  let src := s.ackTail ++ s.ackWire.take n
  let r := s.enc.parseDecoderInstructions src
  { s with
    enc := r.2.1
    ackTail := src.drop r.1
    ackWire := s.ackWire.drop n
    fault := r.2.2.map .err }

/-- One step; a faulted connection takes none. -/
def step (s : Net) (op : Op) : Option Net :=
  if s.fault ≠ none then none
  else match op with
    | .encodeFieldSection fields => some (s.encode fields)
    | .drain => some s.drain
    | .deliver n => some (s.deliver n)
    | .increment v => if s.acked + v ≤ s.peer.insertCount then some (s.increment v) else none
    | .acknowledge n => some (s.acknowledge n)

def system (maxCapacity : ℕ) (enc : Encoder) : System Net Op := ⟨init maxCapacity enc, step⟩

/-- Collect what is emitted. -/
def collect : Emit (List (Bytes × Bytes)) Empty := fun xs x => (xs ++ [x], none)

/-- What holds of a connection in every state. -/
structure Sound (s : Net) : Prop where
  /-- Nothing was rejected. -/
  fault : s.fault = none
  known_le : s.enc.known ≤ s.peer.insertCount
  insertCount_le : s.peer.insertCount ≤ s.enc.insertCount
  /-- The encoder's table still holds everything it inserted. -/
  kept : ∀ dt, s.enc.dt = some dt → dt.count = dt.insertCount
  /-- So does the peer's. -/
  peerKept : s.peer.count = s.peer.insertCount
  /-- Delivered now, every section decodes to its fields. -/
  decodes : ∀ sec ∈ s.sections,
    Decoder.decodeFieldSection collect [] sec.1 (some s.peer) = (sec.2.map Field.pair, none)

end Net

/-- The steps of a connection that keeps to what integers can carry: strings shorter
than 2^62 bytes, and no increment of zero. -/
def Op.Regular : Op → Prop
  | .encodeFieldSection fields => ∀ f ∈ fields, Sendable f.pair
  | .increment v => 0 < v
  | _ => True

/-! ## The invariant -/

/-- A section over the entries `l`, whose references are all below `known`. -/
def Written (maxEntries : ℕ) (l : List (Bytes × Bytes)) (known : ℕ) (sec : Bytes × List Field) :
    Prop :=
  (∀ f ∈ sec.2, Sendable f.pair) ∧ ∃ ric reps, ric ≤ known ∧
    sec.1 = Encoder.sectionPrefix maxEntries ric ++ Encoder.fieldLines ric sec.2 reps ∧
    List.Forall₂ (Encoder.Shows l ric) sec.2 reps

theorem Written.mono {maxEntries known known' : ℕ} {l : List (Bytes × Bytes)}
    {sec : Bytes × List Field} (h : Written maxEntries l known sec) (hle : known ≤ known')
    (added : List (Bytes × Bytes)) : Written maxEntries (l ++ added) known' sec := by
  rcases h with ⟨hsend, ric, reps, hric, hbytes, hshows⟩
  exact ⟨hsend, ric, reps, hric.trans hle, hbytes, hshows.imp fun _ _ h => h.append added⟩

/-- The connection when the encoder has inserted `l`, with the increments `vs` on
their way. -/
structure Net.Inv (maxCapacity capacity : ℕ) (s : Net) (dt : DynamicTable)
    (l : List (Bytes × Bytes)) (vs : List ℕ) : Prop where
  fault : s.fault = none
  table : s.enc.dt = some dt
  maxCapacity_eq : dt.maxCapacity = maxCapacity
  capacity_eq : dt.capacity = capacity
  rep : dt.Rep l
  stream : Remaining maxCapacity capacity l s.peer (s.tail ++ s.wire ++ s.enc.pending)
  acks : s.ackTail ++ s.ackWire = vs.flatMap insertCountIncrement
  acks_pos : ∀ v ∈ vs, 0 < v
  acked : s.enc.known + vs.sum = s.acked
  acked_le : s.acked ≤ s.peer.insertCount
  sections : ∀ sec ∈ s.sections, Written (maxCapacity / Header.entryOverhead) l s.enc.known sec

/-- The connection is in such a state for some entries and increments. -/
def Net.Linked (maxCapacity capacity : ℕ) (s : Net) : Prop :=
  ∃ dt l vs, s.Inv maxCapacity capacity dt l vs

namespace Net

variable {maxCapacity capacity : ℕ} {s : Net} {dt : DynamicTable} {l : List (Bytes × Bytes)}
  {vs : List ℕ}

theorem Inv.fits (h : s.Inv maxCapacity capacity dt l vs) (hle : capacity ≤ maxCapacity) :
    Fits maxCapacity capacity l := by
  refine ⟨hle, h.capacity_eq ▸ h.rep.capacity, ?_⟩
  rw [← h.rep.size, ← h.capacity_eq]
  exact h.rep.fits

/-- Every entry is accounted at least its overhead. -/
theorem Inv.length_le (h : s.Inv maxCapacity capacity dt l vs) (hle : capacity ≤ maxCapacity) :
    l.length * 32 ≤ capacity :=
  (Fifo.length_mul_le_weight l fun _ _ => Nat.le_add_left _ _).trans (h.fits hle).weight

theorem emitAll_collect (xs ys : List (Bytes × Bytes)) :
    Decoder.emitAll collect xs ys = (xs ++ ys, none) := by
  induction ys generalizing xs with
  | nil => simp [Decoder.emitAll]
  | cons y ys ih => simp [Decoder.emitAll, collect, ih]

/-- A table that holds the first `k` entries serves what refers below `k`. -/
theorem serves_of_shows {peer : DynamicTable} {k ric : ℕ} (hrep : peer.Rep (l.take k))
    (hric : ric ≤ k) {f : Field} {rep : FieldRep} (h : Encoder.Shows l ric f rep) :
    Decoder.Serves peer ric f rep := by
  cases rep with
  | dynamicIndexed abs =>
    rcases h with ⟨hlt, hget⟩
    exact ⟨hlt, by rw [hrep.entryAt, List.getElem?_take_of_lt (by omega), hget]⟩
  | _ => exact h

section Sections

variable (h : s.Inv maxCapacity capacity dt l vs)

include h

theorem Inv.sound (hle : capacity ≤ maxCapacity) (hmax : maxCapacity < 2 ^ 64) : s.Sound := by
  obtain ⟨k, hk, hpeermax, hpeer⟩ := h.stream.exists_rep
  have hover : Header.entryOverhead = 32 := rfl
  have hentries := h.length_le hle
  have hlen : (l.take k).length = k := List.length_take_of_le hk
  have hcount : s.peer.insertCount = k := hpeer.insertCount.trans hlen
  have hmaxEntries : s.peer.maxEntries = maxCapacity / Header.entryOverhead := by
    rw [DynamicTable.maxEntries, hpeermax]
  have hk_le : k ≤ maxCapacity / Header.entryOverhead := by
    rw [hover]
    omega
  refine ⟨h.fault, ?_, ?_, ?_, ?_, ?_⟩
  · have hacked := h.acked
    have hacked_le := h.acked_le
    omega
  · simp only [Encoder.insertCount, h.table, h.rep.insertCount]
    omega
  · intro dt' hdt'
    rw [h.table, Option.some.injEq] at hdt'
    subst hdt'
    rw [h.rep.count_eq, h.rep.insertCount]
  · rw [hpeer.count_eq, hpeer.insertCount]
  · intro sec hsec
    obtain ⟨hsend, ric, reps, hric, hbytes, hshows⟩ := h.sections sec hsec
    have hacked := h.acked
    have hacked_le := h.acked_le
    have hserves := hshows.imp fun _ _ hs =>
      serves_of_shows hpeer (by omega) hs
    rw [hbytes, ← hmaxEntries]
    rw [Decoder.decodeFieldSection_eq hsend hserves (by omega) (by omega)
      (by rw [hmaxEntries, hover]; omega), emitAll_collect, List.nil_append]

/-! ## Steps -/

theorem Inv.encode {fields : List Field}
    (hsend : ∀ f ∈ fields, Sendable f.pair) :
    (s.encode fields).Linked maxCapacity capacity := by
  obtain ⟨reps, added, dt', hchoose, hrep, ⟨hmax, hcap⟩, hshows⟩ :=
    Encoder.chooseReps_spec s.enc.known h.rep hsend s.enc.pending
  -- the references are below the required insert count, and that is at most `known`
  have hric : Encoder.requiredInsertCount reps ≤ s.enc.known :=
    Encoder.requiredInsertCount_le fun _ hmem => Encoder.lt_known_of_shows hshows hmem
  have hnew := Encoder.shows_of_lt hshows fun _ hmem => Encoder.lt_requiredInsertCount hmem
  have hsec : s.enc.encodeFieldSection fields = some
      (Encoder.sectionPrefix (maxCapacity / Header.entryOverhead)
          (Encoder.requiredInsertCount reps) ++
        Encoder.fieldLines (Encoder.requiredInsertCount reps) fields reps,
      { s.enc with dt := some dt', pending := s.enc.pending ++ added.flatMap insertInstruction }) := by
    simp only [Encoder.encodeFieldSection, h.table, hchoose, Option.bind_eq_bind, Option.bind_some,
      DynamicTable.maxEntries, hmax, h.maxCapacity_eq]
    rfl
  refine ⟨dt', l ++ added, vs, ?_⟩
  rw [Net.encode, hsec]
  refine ⟨h.fault, rfl, hmax.trans h.maxCapacity_eq, hcap.trans h.capacity_eq, hrep, ?_, h.acks,
    h.acks_pos, h.acked, h.acked_le, ?_⟩
  · rw [← List.append_assoc]
    exact h.stream.append added
  · refine List.forall_mem_append.mpr ⟨?_, List.forall_mem_singleton.mpr ?_⟩
    · exact fun sec hold => (h.sections sec hold).mono le_rfl added
    · exact ⟨hsend, _, reps, hric, rfl, hnew⟩

theorem Inv.drain : s.drain.Inv maxCapacity capacity dt l vs := by
  refine { h with stream := ?_ }
  simpa [Net.drain, Encoder.drainEncoderInstructions] using h.stream

theorem Inv.deliver (hle : capacity ≤ maxCapacity)
    (n : ℕ) : (s.deliver n).Inv maxCapacity capacity dt l vs := by
  -- the chunk is an initial part of what the peer has still to read
  have hsplit : s.tail ++ s.wire ++ s.enc.pending =
      (s.tail ++ s.wire.take n) ++ (s.wire.drop n ++ s.enc.pending) := by
    rw [List.append_assoc, List.append_assoc, ← List.append_assoc (s.wire.take n),
      List.take_append_drop]
  obtain ⟨p, peer, hparse, hrest, hcount⟩ := Remaining.parse (h.fits hle) (hsplit ▸ h.stream)
  simp only [Net.deliver, hparse]
  refine { h with fault := rfl, stream := ?_, acked_le := h.acked_le.trans hcount }
  simpa only [List.append_assoc] using hrest

theorem Inv.increment {v : ℕ} (hv : 0 < v)
    (hle : s.acked + v ≤ s.peer.insertCount) :
    (s.increment v).Inv maxCapacity capacity dt l (vs ++ [v]) := by
  refine { h with acks := ?_, acks_pos := ?_, acked := ?_, acked_le := hle }
  · simp only [Net.increment, ← List.append_assoc, h.acks]
    simp
  · exact List.forall_mem_append.mpr ⟨h.acks_pos, List.forall_mem_singleton.mpr ‹_›⟩
  · simp only [Net.increment, List.sum_append, List.sum_singleton, ← h.acked, Nat.add_assoc]

theorem Inv.acknowledge (hle : capacity ≤ maxCapacity)
    (n : ℕ) : (s.acknowledge n).Linked maxCapacity capacity := by
  have hsplit : (s.ackTail ++ s.ackWire.take n) ++ s.ackWire.drop n =
      vs.flatMap insertCountIncrement := by
    rw [List.append_assoc, List.take_append_drop, h.acks]
  have hcount : s.enc.insertCount = l.length := by
    simp only [Encoder.insertCount, h.table, h.rep.insertCount]
  obtain ⟨k, hk, -, hpeer⟩ := h.stream.exists_rep
  have hpeerCount : s.peer.insertCount ≤ l.length := by
    rw [hpeer.insertCount, List.length_take_of_le hk]
    exact hk
  have hlen : l.length < 2 ^ 62 := by
    have hentries := h.length_le hle
    have hbound : capacity ≤ 2 ^ 32 + 31 := (h.fits hle).bound
    omega
  have hacked := h.acked
  have hacked_le := h.acked_le
  obtain ⟨p, j, hparse, hleft⟩ := s.enc.parseDecoder_increments hsplit h.acks_pos
    (by omega) (by omega)
  have hsum : (vs.take j).sum + (vs.drop j).sum = vs.sum := by
    rw [← List.sum_append, List.take_append_drop]
  refine ⟨dt, l, vs.drop j, ?_⟩
  simp only [Net.acknowledge, hparse]
  refine { h with fault := rfl, acks := hleft, acks_pos := ?_, acked := ?_, sections := ?_ }
  · intro v hv
    exact h.acks_pos v (List.mem_of_mem_drop hv)
  · show s.enc.known + (vs.take j).sum + (vs.drop j).sum = s.acked
    omega
  · intro sec hsec
    simpa using (h.sections sec hsec).mono (Nat.le_add_right _ (vs.take j).sum) []

end Sections

theorem inv_init {tableCapacity : ℕ} {enc : Encoder}
    (hbound : min maxCapacity tableCapacity ≤ DynamicTable.capacityBound)
    (henc : Encoder.newDynamic maxCapacity tableCapacity = some (.ok enc)) :
    (init maxCapacity enc).Linked maxCapacity (min maxCapacity tableCapacity) := by
  have hchosen : (if maxCapacity < tableCapacity then maxCapacity else tableCapacity) =
      min maxCapacity tableCapacity := by
    split <;> omega
  obtain ⟨hset, hrep⟩ := (DynamicTable.rep_new maxCapacity).setCapacity
    (min_le_left maxCapacity tableCapacity) hbound (Nat.zero_le _)
  simp only [Encoder.newDynamic, hchosen, hset, Option.map_some] at henc
  split at henc
  · cases henc
  obtain rfl := Except.ok.inj (Option.some.inj henc)
  refine ⟨_, [], [], rfl, rfl, rfl, rfl, hrep, ?_, rfl, ?_, rfl, le_rfl, ?_⟩
  · have hfresh : Remaining maxCapacity (min maxCapacity tableCapacity) [] (.new maxCapacity)
        (setCapacityInstruction (min maxCapacity tableCapacity) ++ []) :=
      .fresh rfl (DynamicTable.rep_new maxCapacity)
    rwa [List.append_nil] at hfresh
  · intro v hv
    cases hv
  · intro sec hsec
    cases hsec

theorem Inv.step {s' : Net} {op : Op} (h : s.Inv maxCapacity capacity dt l vs)
    (hle : capacity ≤ maxCapacity) (hop : op.Regular) (hs : s.step op = some s') :
    s'.Linked maxCapacity capacity := by
  simp only [Net.step, h.fault, ne_eq, not_true_eq_false, if_false] at hs
  cases op with
  | encodeFieldSection fields =>
    rw [← Option.some.inj hs]
    exact h.encode hop
  | drain =>
    rw [← Option.some.inj hs]
    exact ⟨_, _, _, h.drain⟩
  | deliver n =>
    rw [← Option.some.inj hs]
    exact ⟨_, _, _, h.deliver hle n⟩
  | increment v =>
    simp only at hs
    split at hs
    · rename_i hcount
      rw [← Option.some.inj hs]
      exact ⟨_, _, _, h.increment hop hcount⟩
    · cases hs
  | acknowledge n =>
    rw [← Option.some.inj hs]
    exact h.acknowledge hle n

end Net

/-! ## Main results -/

/-- While the chosen capacity keeps the table within 32-bit offsets, the protocol
neither fails nor waits, in whatever order its streams and sections are delivered. -/
theorem sound_of_capacity_le {maxCapacity tableCapacity : ℕ} {enc : Encoder}
    (hmax : maxCapacity < 2 ^ 64)
    (hbound : min maxCapacity tableCapacity ≤ DynamicTable.capacityBound)
    (henc : Encoder.newDynamic maxCapacity tableCapacity = some (.ok enc)) {s : Net}
    (h : (Net.system maxCapacity enc).ReachableBy (fun _ op => op.Regular) s) : s.Sound := by
  have hle : min maxCapacity tableCapacity ≤ maxCapacity := min_le_left _ _
  have hinv : s.Linked maxCapacity (min maxCapacity tableCapacity) := by
    refine h.invariant (Net.inv_init hbound henc) ?_
    rintro s op s' ⟨dt, l, vs, hs⟩ hop hstep
    exact hs.step hle hop hstep
  obtain ⟨dt, l, vs, hs⟩ := hinv
  exact hs.sound hle hmax

/-- An encoder under the capacity of its peer. -/
def sampleEncoder : Encoder :=
  ⟨some { DynamicTable.new 4096 with capacity := 220 }, 0, setCapacityInstruction 220⟩

/-- A field is inserted, its instruction arrives in two pieces, it is acknowledged,
and then it is referenced. -/
def referenceRun : List Op :=
  let fields : List Field := [⟨Header.ascii "x-a", Header.ascii "1", 0⟩]
  [.encodeFieldSection fields, .drain, .deliver 3, .deliver 9, .increment 1, .acknowledge 1,
    .encodeFieldSection fields]

theorem sound_of_capacity_le_referenceRun :
    ∃ s, (Net.system 4096 sampleEncoder).run (Net.init 4096 sampleEncoder) referenceRun = some s ∧
      (s.enc.known = 1 ∧ s.sections.length = 2) ∧ s.Sound := by
  apply System.exists_run_known referenceRun
  · intro s hs
    refine @sound_of_capacity_le 4096 220 sampleEncoder (by decide) (by decide) rfl s ?_
    refine System.reachableBy_run .init (System.runMeets_of_forall (fun s op hop => ?_) _) hs
    simp only [referenceRun, List.mem_cons, List.not_mem_nil, or_false] at hop
    rcases hop with rfl | rfl | rfl | rfl | rfl | rfl | rfl <;>
      simp [Op.Regular, Sendable] <;> decide
  · decide +kernel

/-! ## Past 32-bit offsets -/

/-- A capacity one byte over the bound, and a table of it. -/
def largeCapacity : ℕ := DynamicTable.capacityBound + 1

def largeTable : DynamicTable := { DynamicTable.new largeCapacity with capacity := largeCapacity }

/-- The table after one entry with a name of one byte. -/
def filledTable (value : Bytes) : DynamicTable where
  store := PairArena.empty.append [0x61] value
  maxCapacity := largeCapacity
  capacity := largeCapacity
  size := largeCapacity
  insertCount := 1

variable {value : Bytes}

theorem insert_largeTable (hlen : value.length = 2 ^ 32 - 1) :
    largeTable.insert [0x61] value = some (some (filledTable value)) := by
  have hes : entrySize ([0x61] : Bytes).length value.length = largeCapacity := by
    rw [hlen]
    rfl
  have hfit : ¬ largeTable.capacity < largeCapacity := by decide
  have hloop : DynamicTable.evictFor largeCapacity largeTable.count largeTable = some largeTable := rfl
  have hused : (largeTable.store.append [0x61] value).used = 0 := by
    simp only [PairArena.append, List.length_singleton, hlen]
    rfl
  have harena : (largeTable.store.append [0x61] value).arena.length % PairArena.word = 0 := by
    simp only [PairArena.append, List.length_append, List.length_singleton, hlen]
    rfl
  simp only [DynamicTable.insert, hes, if_neg hfit, hloop, Option.bind_eq_bind, Option.bind_some,
    hused, harena]
  rfl

theorem toList_filledTable (value : Bytes) :
    (filledTable value).store.entries.toList = [spanAt [] [0x61] value] :=
  PairArena.toList_pushSpan _ _

/-- The entry cannot be read back: the end of its value wraps to offset 0. -/
theorem read_filledTable (hlen : value.length = 2 ^ 32 - 1) :
    (filledTable value).store.read 0 = none := by
  have hlist := toList_filledTable value
  have hwrap : PairArena.slice (filledTable value).store.arena
      (spanAt [] [0x61] value).valueOff (spanAt [] [0x61] value).valueLen =
      none := by
    simp only [PairArena.slice, spanAt, hlen]
    exact if_neg fun h => absurd h.1 (by decide)
  simp only [PairArena.read, PairArena.span, hlist, List.getElem?_cons_zero, Option.bind_some,
    PairArena.Span.read, hwrap, Option.bind_eq_bind, Option.bind_none, Option.bind_fun_none]

theorem lookupDynamic_filledTable (hlen : value.length = 2 ^ 32 - 1)
    (x : Bytes × Bytes) : (filledTable value).lookupDynamic x.1 x.2 = none := by
  have hcount : (filledTable value).count = 1 := by
    have hlen := congrArg List.length (toList_filledTable value)
    rwa [SlotRing.length_toList] at hlen
  have hinsert : (filledTable value).insertCount = 1 := rfl
  have hat : (filledTable value).entryAt 0 = none := by
    simp only [DynamicTable.entryAt, DynamicTable.oldestAbs, hcount, hinsert, Nat.sub_self]
    rw [read_filledTable hlen]
    rfl
  simp only [DynamicTable.lookupDynamic, hcount, DynamicTable.oldestAbs, hinsert, Nat.sub_self,
    DynamicTable.lookupFrom, hat, Option.bind_eq_bind, Option.bind_none]

/-- With a capacity one byte over the bound, a field that fills the table is inserted
and the next section stops the encoder. -/
theorem large_capacity_panics :
    ∃ enc s, Encoder.newDynamic largeCapacity largeCapacity = some (.ok enc) ∧
      (Net.system largeCapacity enc).ReachableBy (fun _ op => op.Regular) s ∧
      s.fault = some .panic ∧ ¬ s.Sound := by
  obtain ⟨value, hlen⟩ : ∃ value : Bytes, value.length = 2 ^ 32 - 1 :=
    ⟨List.replicate _ 0, List.length_replicate⟩
  set enc : Encoder := ⟨some largeTable, 0, setCapacityInstruction largeCapacity⟩ with henc
  have hstatic : ∀ v, lookupStatic [0x61] v = (0, false, false) := by
    intro v
    have hnone : staticByName [0x61] = [] := by decide +kernel
    simp [lookupStatic, hnone]
  -- the first section inserts the field
  have hfirst : ∃ bytes pending, enc.encodeFieldSection [⟨[0x61], value, 0⟩] =
      some (bytes, ⟨some (filledTable value), 0, pending⟩) := by
    have hroom : largeTable.canInsertWithoutEvict 1 value.length = true := by
      rw [hlen]
      decide
    have hlook : largeTable.lookupDynamic [0x61] value = some none := rfl
    simp [henc, Encoder.encodeFieldSection, Encoder.chooseReps, Encoder.chooseRep, hstatic,
      Field.sensitive, Header.indexNever, hlook, hroom, Encoder.insertEntry,
      insert_largeTable hlen]
  obtain ⟨bytes, pending, hfirst⟩ := hfirst
  -- the second one looks a field up
  have hsecond : Encoder.encodeFieldSection ⟨some (filledTable value), 0, pending⟩
      [⟨[0x61], [], 0⟩] = none := by
    have hlook := lookupDynamic_filledTable hlen ([0x61], [])
    simp [Encoder.encodeFieldSection, Encoder.chooseReps, Encoder.chooseRep, hstatic,
      Field.sensitive, Header.indexNever, hlook]
  set s₁ : Net := (Net.init largeCapacity enc).encode [⟨[0x61], value, 0⟩] with hs₁
  have henc₁ : s₁.enc = ⟨some (filledTable value), 0, pending⟩ := by
    simp only [hs₁, Net.encode, Net.init, hfirst]
  have hfault₁ : s₁.fault = none := by
    simp only [hs₁, Net.encode, Net.init, hfirst]
  refine ⟨enc, s₁.encode [⟨[0x61], [], 0⟩], rfl, ?_, ?_, ?_⟩
  · have hreach₁ : (Net.system largeCapacity enc).ReachableBy (fun _ op => op.Regular) s₁ := by
      refine .step (.encodeFieldSection [⟨[0x61], value, 0⟩]) .init ?_ rfl
      simp [Op.Regular, Sendable, Field.pair, hlen]
    refine .step (.encodeFieldSection [⟨[0x61], [], 0⟩]) hreach₁ ?_ ?_
    · simp [Op.Regular, Sendable, Field.pair]
    · simp [Net.system, Net.step, hfault₁]
  · simp only [Net.encode, henc₁, hsecond]
  · intro hsound
    have hfault := hsound.fault
    simp [Net.encode, henc₁, hsecond] at hfault

end Qpack
