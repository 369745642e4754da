import PoseidonHttp.Quic.Types
import PoseidonHttp.Lib.Slice

/-!
# Reassembly of a stream's receive direction

`recvStream` of `stream.go`. `data` is the contiguous run that has not been read, `base` the
offset it starts at; a frame beyond it waits in `pending`, where `bufferGap` merges it in one
pass with every chunk it overlaps or touches.

The specifications are relative to the bytes `B` the peer sends: chunks *held* are slices of
`B` at their offset. `mergeGap_spec`: the pass keeps the chunks held and separated, and covers
what was covered and the new frame. `absorbFrom_spec`: the chunks the run has reached go to it.
-/

namespace Quic

open Header (Bytes)
open Slice (slice copyAt)

/-- A run of received bytes that waits for the bytes before it. -/
structure StreamChunk where
  offset : ℕ
  data : Bytes
  deriving DecidableEq, Repr

structure RecvStream where
  data : Bytes
  pending : List StreamChunk
  base : ℕ
  highest : ℕ
  fin : Bool
  finalKnown : Bool
  finalSize : ℕ
  deriving DecidableEq, Repr

/-- The zero value. -/
def RecvStream.empty : RecvStream := ⟨[], [], 0, 0, false, false, 0⟩

def maxRecvGapChunks : ℕ := 512

namespace RecvStream

variable (r : RecvStream)

/-- The absolute end of the contiguous run. -/
def prefixEnd : ℕ := (r.base + r.data.length) % u64

/-- A chunk fused into the new interval: its bytes win where the two overlap. -/
def fuse (lo hi : ℕ) (data : Bytes) (c : StreamChunk) (cHi : ℕ) : Bytes :=
  let nLo := min lo c.offset
  let buf := List.replicate (max hi cHi - nLo) 0
  copyAt (copyAt buf (lo - nLo) data) (c.offset - nLo) c.data

/-- The pass of `bufferGap` over the chunks left, with the new interval as it has grown. -/
def mergeGap : ℕ → ℕ → Bytes → Bool → List StreamChunk → List StreamChunk
  | lo, _, data, placed, [] => if placed then [] else [⟨lo, data⟩]
  | lo, hi, data, placed, c :: rest =>
    let cHi := (c.offset + c.data.length) % u64
    if cHi < lo ∨ c.offset > hi then
      if c.offset > hi ∧ placed = false then ⟨lo, data⟩ :: c :: mergeGap lo hi data true rest
      else c :: mergeGap lo hi data placed rest
    else mergeGap (min lo c.offset) (max hi cHi) (fuse lo hi data c cHi) placed rest

def bufferGap (offset : ℕ) (data : Bytes) : RecvStream :=
  { r with
    pending := mergeGap offset ((offset + data.length) % u64) data false r.pending }

/-- The loop of `absorb`. -/
def absorbFrom (base : ℕ) : Bytes → List StreamChunk → Bytes × List StreamChunk
  | data, [] => (data, [])
  | data, c :: rest =>
    let have_ := (base + data.length) % u64
    if (c.offset + c.data.length) % u64 ≤ have_ then absorbFrom base data rest
    else if c.offset > have_ then (data, c :: rest)
    else absorbFrom base (data ++ c.data.drop (have_ - c.offset)) rest

def absorb : RecvStream :=
  let (data, pending) := absorbFrom r.base r.data r.pending
  { r with data := data, pending := pending }

def insert (offset : ℕ) (data : Bytes) : RecvStream :=
  if (offset + data.length) % u64 ≤ r.prefixEnd then r
  else if offset ≤ r.prefixEnd then
    { r with data := r.data ++ data.drop (r.prefixEnd - offset) }.absorb
  else r.bufferGap offset data

/-- `receive`: the stream after the frame, and the error returned. -/
def receive (offset : ℕ) (data : Bytes) (fin : Bool) : RecvStream × Option Error :=
  let stop := (offset + data.length) % u64
  if r.finalKnown ∧ (stop > r.finalSize ∨ fin ∧ stop ≠ r.finalSize) then (r, some .finalSize)
  else if fin ∧ stop < r.highest then (r, some .finalSize)
  else
    let r := if fin then { r with fin := true, finalKnown := true, finalSize := stop } else r
    let r := if stop > r.highest then { r with highest := stop } else r
    let r := r.insert offset data
    (r, if r.pending.length > maxRecvGapChunks then some .protocolViolation else none)

/-- `read`: the bytes returned, and the stream without them. -/
def read : Bytes × RecvStream :=
  (r.data, { r with base := (r.base + r.data.length) % u64, data := [] })

def complete : Bool :=
  r.fin && r.prefixEnd == r.finalSize && r.pending.isEmpty

end RecvStream

/-! ## Chunks of the bytes sent -/

namespace StreamChunk

/-- The offset after the chunk. -/
def stop (c : StreamChunk) : ℕ := c.offset + c.data.length

/-- The chunk is a slice of `B` at its offset. -/
structure Held (B : Bytes) (c : StreamChunk) : Prop where
  data : c.data = slice B c.offset c.stop
  stop_le : c.stop ≤ B.length

instance (B : Bytes) (c : StreamChunk) : Decidable (c.Held B) :=
  decidable_of_iff (c.data = slice B c.offset c.stop ∧ c.stop ≤ B.length)
    ⟨fun h => ⟨h.1, h.2⟩, fun h => ⟨h.1, h.2⟩⟩

/-- The slice of `B` from `lo` to `hi` is held. -/
theorem held_slice {B : Bytes} {lo hi : ℕ} (h : lo ≤ hi) (hle : hi ≤ B.length) :
    Held B ⟨lo, slice B lo hi⟩ := by
  have hstop : lo + (slice B lo hi).length = hi := by rw [Slice.length_slice hle]; omega
  exact ⟨by rw [stop, hstop], by rw [stop, hstop]; exact hle⟩

variable {c : StreamChunk}

theorem offset_le_stop (c : StreamChunk) : c.offset ≤ c.stop := Nat.le_add_right _ _

theorem stop_mod {n : ℕ} (h : c.stop ≤ n) (hn : n < u64) :
    (c.offset + c.data.length) % u64 = c.stop :=
  Nat.mod_eq_of_lt (lt_of_le_of_lt h hn)

/-- The bytes of the chunk behind a run that reaches it. -/
theorem Held.extend {B data : Bytes} {base n : ℕ} (hc : c.Held B)
    (hdata : data = slice B base n) (hbase : base ≤ n) (hgap : c.offset ≤ n) (hstop : n ≤ c.stop) :
    data ++ c.data.drop (n - c.offset) = slice B base c.stop := by
  rw [hdata, hc.data, Slice.drop_slice, Nat.add_sub_cancel' hgap]
  exact Slice.slice_append_slice B hbase hstop

/-- The chunk covers the offset `x`. -/
def Covers (c : StreamChunk) (x : ℕ) : Prop := c.offset ≤ x ∧ x < c.stop

end StreamChunk

/-- Some chunk of the list covers `x`. -/
def Covered (chunks : List StreamChunk) (x : ℕ) : Prop := ∃ c ∈ chunks, c.Covers x

/-- In order, disjoint, and no two adjacent. -/
def Separated (chunks : List StreamChunk) : Prop :=
  chunks.Pairwise fun c d => c.stop < d.offset

theorem covered_cons {c : StreamChunk} {chunks : List StreamChunk} {x : ℕ} :
    Covered (c :: chunks) x ↔ c.Covers x ∨ Covered chunks x := by
  simp only [Covered, List.mem_cons, exists_eq_or_imp]

theorem not_covered_nil (x : ℕ) : ¬ Covered [] x := by
  rintro ⟨c, hc, -⟩
  cases hc

/-- A list of separated chunks of `B`, all beyond `m`. -/
structure Waiting (B : Bytes) (m : ℕ) (chunks : List StreamChunk) : Prop where
  separated : Separated chunks
  held : ∀ c ∈ chunks, c.Held B
  beyond : ∀ c ∈ chunks, m < c.offset

namespace Waiting

variable {B : Bytes} {m : ℕ} {c : StreamChunk} {chunks : List StreamChunk}

protected theorem nil : Waiting B m [] :=
  ⟨List.Pairwise.nil, fun _ hc => (nomatch hc), fun _ hc => (nomatch hc)⟩

theorem tail (h : Waiting B m (c :: chunks)) : Waiting B m chunks :=
  ⟨(List.pairwise_cons.mp h.separated).2, fun d hd => h.held d (List.mem_cons_of_mem c hd),
    fun d hd => h.beyond d (List.mem_cons_of_mem c hd)⟩

/-- What follows a chunk is beyond its end. -/
theorem tail_beyond (h : Waiting B m (c :: chunks)) : Waiting B c.stop chunks :=
  ⟨h.tail.separated, h.tail.held, (List.pairwise_cons.mp h.separated).1⟩

theorem cons (hc : c.Held B) (hm : m < c.offset) (h : Waiting B c.stop chunks) :
    Waiting B m (c :: chunks) := by
  refine ⟨List.pairwise_cons.mpr ⟨h.beyond, h.separated⟩, ?_, ?_⟩
  · exact List.forall_mem_cons.mpr ⟨hc, h.held⟩
  · refine List.forall_mem_cons.mpr ⟨hm, fun d hd => ?_⟩
    exact (hm.trans_le c.offset_le_stop).trans (h.beyond d hd)

end Waiting

namespace RecvStream

open StreamChunk (Covers Held held_slice stop_mod)

variable {B : Bytes}

/-! ## The pass over the chunks that wait -/

variable {data : Bytes} {r : RecvStream} {hi lo m n : ℕ}

/-- Once the new interval is out, the chunks left are all beyond it and stay. -/
theorem mergeGap_placed :
    ∀ {chunks : List StreamChunk}, (∀ c ∈ chunks, hi < c.offset) →
      mergeGap lo hi data true chunks = chunks
  | [], _ => rfl
  | c :: chunks, h => by
    have hc : hi < c.offset := h c List.mem_cons_self
    rw [mergeGap, if_pos (Or.inr hc), if_neg (by simp),
      mergeGap_placed fun d hd => h d (List.mem_cons_of_mem c hd)]

/-- The pass of `bufferGap`. The interval `[lo, hi)` grows along it, and stays a slice of `B`. -/
theorem mergeGap_spec (hB : B.length < u64) {chunks : List StreamChunk} (hlt : m < lo)
    (hle : lo ≤ hi) (hhi : hi ≤ B.length) (h : Waiting B m chunks) :
    Waiting B m (mergeGap lo hi (slice B lo hi) false chunks) ∧
      ∀ x, Covered (mergeGap lo hi (slice B lo hi) false chunks) x ↔
        (lo ≤ x ∧ x < hi) ∨ Covered chunks x := by
  induction chunks generalizing m lo hi with
  | nil =>
    have hheld : Held B ⟨lo, slice B lo hi⟩ := held_slice hle hhi
    refine ⟨.cons hheld hlt .nil, fun x => ?_⟩
    simp only [mergeGap, Bool.false_eq_true, if_false, covered_cons, Covers,
      StreamChunk.stop, Slice.length_slice hhi, Nat.add_sub_cancel' hle]
  | cons c chunks ih =>
    have hc : c.Held B := h.held c List.mem_cons_self
    have hm : m < c.offset := h.beyond c List.mem_cons_self
    have hcHi := stop_mod hc.stop_le hB
    have hstop := c.offset_le_stop
    simp only [mergeGap, hcHi]
    by_cases hapart : c.stop < lo ∨ c.offset > hi
    · rw [if_pos hapart]
      by_cases hbeyond : c.offset > hi
      · -- the first chunk beyond the new interval: the interval goes before it
        rw [if_pos ⟨hbeyond, trivial⟩, mergeGap_placed fun d hd =>
          (hbeyond.trans_le hstop).trans (h.tail_beyond.beyond d hd)]
        have hnew : Held B ⟨lo, slice B lo hi⟩ := held_slice hle hhi
        have hend : StreamChunk.stop ⟨lo, slice B lo hi⟩ = hi := by
          simp only [StreamChunk.stop, Slice.length_slice hhi]
          omega
        refine ⟨.cons hnew hlt (.cons hc (by rw [hend]; exact hbeyond) h.tail_beyond), fun x => ?_⟩
        rw [covered_cons, Covers, hend]
      · -- a chunk before it stays where it is
        rw [if_neg fun hh => hbeyond hh.1]
        have hbefore : c.stop < lo := hapart.resolve_right hbeyond
        rcases ih hbefore hle hhi h.tail_beyond with ⟨hwait, hcov⟩
        refine ⟨.cons hc hm hwait, fun x => ?_⟩
        rw [covered_cons, covered_cons, hcov]
        tauto
    · -- overlap or adjacency: the interval grows by the chunk
      rw [if_neg hapart]
      push Not at hapart
      have hfuse : fuse lo hi (slice B lo hi) c c.stop = slice B (min lo c.offset) (max hi c.stop) := by
        rw [fuse, hc.data]
        exact Slice.copyAt_slices 0 hle c.offset_le_stop hapart.1 hapart.2 hhi hc.stop_le
      rw [hfuse]
      rcases ih (lt_min hlt hm) (by omega) (max_le hhi hc.stop_le) h.tail with ⟨hwait, hcov⟩
      refine ⟨hwait, fun x => ?_⟩
      rw [hcov, covered_cons, Covers]
      have hunion : (min lo c.offset ≤ x ∧ x < max hi c.stop) ↔
          (lo ≤ x ∧ x < hi) ∨ (c.offset ≤ x ∧ x < c.stop) := by omega
      rw [hunion, or_assoc]

/-! ## Absorbing what the run has reached -/

/-- The chunks that wait, given to a run that may have reached some of them. The run stays
what was covered from the start, and the chunks left are beyond it. -/
theorem absorbFrom_spec (hB : B.length < u64) {base : ℕ} {chunks : List StreamChunk}
    (hbase : base + data.length = n) (hn : n ≤ B.length) (hdata : data = slice B base n)
    (h : Waiting B m chunks) :
    ∃ n', (absorbFrom base data chunks).1 = slice B base n' ∧
      base + (absorbFrom base data chunks).1.length = n' ∧ n ≤ n' ∧ n' ≤ B.length ∧
      Waiting B n' (absorbFrom base data chunks).2 ∧
      ∀ x, x < n' ∨ Covered (absorbFrom base data chunks).2 x ↔ x < n ∨ Covered chunks x := by
  induction chunks generalizing n data with
  | nil => exact ⟨n, hdata, hbase, le_rfl, hn, .nil, fun x => Iff.rfl⟩
  | cons c chunks ih =>
    have hc : c.Held B := h.held c List.mem_cons_self
    have hhave : (base + data.length) % u64 = n := by rw [hbase]; exact Nat.mod_eq_of_lt (by omega)
    have hcHi := stop_mod hc.stop_le hB
    simp only [absorbFrom, hhave, hcHi]
    by_cases hdup : c.stop ≤ n
    · -- wholly inside the run
      rw [if_pos hdup]
      rcases ih hbase hn hdata h.tail with ⟨n', hrun, hlen, hge, hle, hwait, hcov⟩
      refine ⟨n', hrun, hlen, hge, hle, hwait, fun x => ?_⟩
      rw [hcov, covered_cons, Covers]
      have : c.offset ≤ x ∧ x < c.stop → x < n := by omega
      tauto
    · rw [if_neg hdup]
      by_cases hgap : c.offset > n
      · -- still a gap, and so are all the later ones
        rw [if_pos hgap]
        exact ⟨n, hdata, hbase, le_rfl, hn, .cons hc hgap h.tail_beyond, fun x => Iff.rfl⟩
      rw [if_neg hgap, hc.extend hdata (by omega) (by omega) (by omega)]
      have hlong : base + (slice B base c.stop).length = c.stop := by
        rw [Slice.length_slice hc.stop_le]
        omega
      rcases ih hlong hc.stop_le rfl h.tail with ⟨n', hrun, hlen, hge, hle, hwait, hcov⟩
      refine ⟨n', hrun, hlen, by omega, hle, hwait, fun x => ?_⟩
      rw [hcov, covered_cons]
      have hreach : x < c.stop ↔ x < n ∨ (c.offset ≤ x ∧ x < c.stop) := by omega
      exact (or_congr_left hreach).trans or_assoc

/-! ## One frame -/

/-- The run ends at `n`, holds `B` from `base` on, and the chunks that wait are beyond it. -/
structure Holds (B : Bytes) (r : RecvStream) (n : ℕ) : Prop where
  data : r.data = slice B r.base n
  stop : r.base + r.data.length = n
  le : n ≤ B.length
  waiting : Waiting B n r.pending

theorem Holds.prefixEnd_eq (h : r.Holds B n) (hB : B.length < u64) : r.prefixEnd = n := by
  rw [prefixEnd, h.stop]
  exact Nat.mod_eq_of_lt (lt_of_le_of_lt h.le hB)

/-- The fields `insert` leaves alone. -/
theorem insert_fields (r : RecvStream) (offset : ℕ) (data : Bytes) :
    (r.insert offset data).base = r.base ∧ (r.insert offset data).highest = r.highest ∧
    (r.insert offset data).fin = r.fin ∧ (r.insert offset data).finalKnown = r.finalKnown ∧
    (r.insert offset data).finalSize = r.finalSize := by
  unfold insert absorb bufferGap
  split_ifs <;> exact ⟨rfl, rfl, rfl, rfl, rfl⟩

/-- A frame of `B`: the stream then covers what it covered and the frame. -/
theorem insert_spec (hB : B.length < u64) (h : r.Holds B n) {f : StreamChunk} (hf : f.Held B) :
    ∃ n', (r.insert f.offset f.data).Holds B n' ∧
      ∀ x, x < n' ∨ Covered (r.insert f.offset f.data).pending x ↔
        (x < n ∨ Covered r.pending x) ∨ f.Covers x := by
  have hstop := stop_mod hf.stop_le hB
  have hle := f.offset_le_stop
  rw [insert, h.prefixEnd_eq hB, hstop]
  by_cases hdup : f.stop ≤ n
  · -- wholly duplicate
    rw [if_pos hdup]
    refine ⟨n, h, fun x => ?_⟩
    have : f.Covers x → x < n := fun hx => hx.2.trans_le hdup
    tauto
  · rw [if_neg hdup]
    by_cases hgap : f.offset ≤ n
    · -- it extends the run, which may now reach chunks that waited
      have hbase : r.base ≤ n := h.stop ▸ Nat.le_add_right _ _
      have hlen : r.base + (slice B r.base f.stop).length = f.stop := by
        rw [Slice.length_slice hf.stop_le]
        omega
      rw [if_pos hgap, hf.extend h.data hbase hgap (by omega)]
      rcases absorbFrom_spec hB hlen hf.stop_le rfl h.waiting with
        ⟨n', hrun, hend, -, hle', hwait, hcov⟩
      refine ⟨n', ⟨hrun, hend, hle', hwait⟩, fun x => ?_⟩
      have hreach : x < f.stop ↔ x < n ∨ f.Covers x := by
        simp only [Covers]
        omega
      refine (hcov x).trans ?_
      tauto
    · -- it leaves a gap
      rw [if_neg hgap]
      push Not at hgap
      have hspec := mergeGap_spec hB hgap hle hf.stop_le h.waiting
      rw [← hf.data, ← hstop] at hspec
      refine ⟨n, ⟨h.data, h.stop, h.le, hspec.1⟩, fun x => ?_⟩
      rw [bufferGap, hspec.2, hstop, ← Covers]
      tauto

/-- `read` hands out the run. -/
theorem Holds.read (h : r.Holds B n) (hB : B.length < u64) :
    r.read.2.Holds B n ∧ r.read.2.base = n := by
  have hbase : (r.base + r.data.length) % u64 = n := h.prefixEnd_eq hB
  refine ⟨⟨?_, hbase, h.le, h.waiting⟩, hbase⟩
  rw [RecvStream.read]
  simp only [hbase, slice, Nat.sub_self, List.take_zero]

/-! ## Extent

How far what is kept reaches, whatever the bytes are: the peer may send different bytes for one
offset. -/

/-- Nothing that is kept reaches beyond `n`. -/
structure Within (n : ℕ) (r : RecvStream) : Prop where
  run : r.base + r.data.length ≤ n
  waiting : ∀ c ∈ r.pending, c.stop ≤ n

theorem Within.mono (h : r.Within n) (hle : n ≤ m) : r.Within m :=
  ⟨Nat.le_trans h.run hle, fun c hc => Nat.le_trans (h.waiting c hc) hle⟩

theorem length_fuse {cHi : ℕ} (data : Bytes) {c : StreamChunk} (h : lo ≤ hi) (hc : c.offset ≤ cHi) :
    (fuse lo hi data c cHi).length = max hi cHi - min lo c.offset := by
  have hbuf : (List.replicate (max hi cHi - min lo c.offset) (0 : UInt8)).length =
      max hi cHi - min lo c.offset := List.length_replicate
  have hfirst : (copyAt (List.replicate (max hi cHi - min lo c.offset) (0 : UInt8))
      (lo - min lo c.offset) data).length = max hi cHi - min lo c.offset := by
    rw [Slice.length_copyAt data (by omega), hbuf]
  rw [fuse, Slice.length_copyAt c.data (by omega), hfirst]

/-- The pass keeps the chunks within `n`: the new interval grows only over chunks that are. -/
theorem mergeGap_within (hn : n < u64) :
    ∀ (chunks : List StreamChunk) (lo hi : ℕ) (data : Bytes) (placed : Bool), lo ≤ hi →
      data.length = hi - lo → hi ≤ n → (∀ c ∈ chunks, c.stop ≤ n) →
      ∀ c ∈ mergeGap lo hi data placed chunks, c.stop ≤ n := by
  intro chunks
  induction chunks with
  | nil =>
    intro lo hi data placed hle hlen hhi _ c hc
    simp only [mergeGap] at hc
    split_ifs at hc
    · simp at hc
    · rw [List.mem_singleton] at hc
      subst hc
      simp only [StreamChunk.stop]
      omega
  | cons d chunks ih =>
    intro lo hi data placed hle hlen hhi hin c hc
    have hd := hin d (by simp)
    have hrest : ∀ c ∈ chunks, c.stop ≤ n := fun c hc => hin c (by simp [hc])
    have hdmod := stop_mod hd hn
    have hdle := d.offset_le_stop
    simp only [mergeGap, hdmod] at hc
    split_ifs at hc
    · -- the new chunk goes in front of `d`
      rcases List.mem_cons.mp hc with rfl | hc
      · simp only [StreamChunk.stop]
        omega
      rcases List.mem_cons.mp hc with rfl | hc
      · exact hd
      · exact ih lo hi data true hle hlen hhi hrest c hc
    · rcases List.mem_cons.mp hc with rfl | hc
      · exact hd
      · exact ih lo hi data placed hle hlen hhi hrest c hc
    · exact ih _ _ _ placed (by omega) (length_fuse data hle hdle) (by omega) hrest c hc

theorem absorbFrom_within {base : ℕ} (hn : n < u64) :
    ∀ (chunks : List StreamChunk) (data : Bytes), base + data.length ≤ n →
      (∀ c ∈ chunks, c.stop ≤ n) →
      base + (absorbFrom base data chunks).1.length ≤ n ∧
        ∀ c ∈ (absorbFrom base data chunks).2, c.stop ≤ n := by
  intro chunks
  induction chunks with
  | nil => exact fun data hdata hin => ⟨hdata, hin⟩
  | cons d chunks ih =>
    intro data hdata hin
    have hd := hin d (by simp)
    have hrest : ∀ c ∈ chunks, c.stop ≤ n := fun c hc => hin c (by simp [hc])
    have hmod : (base + data.length) % u64 = base + data.length :=
      Nat.mod_eq_of_lt (lt_of_le_of_lt hdata hn)
    have hdmod := stop_mod hd hn
    simp only [absorbFrom, hmod, hdmod]
    split_ifs with hdup hgap
    · exact ih data hdata hrest
    · exact ⟨hdata, hin⟩
    · apply ih _ _ hrest
      rw [List.length_append, List.length_drop]
      simp only [StreamChunk.stop] at hd hdup
      omega

theorem insert_within (hn : n < u64) (h : r.Within n) {offset : ℕ}
    (hstop : offset + data.length ≤ n) : (r.insert offset data).Within n := by
  have hmod : (offset + data.length) % u64 = offset + data.length :=
    Nat.mod_eq_of_lt (lt_of_le_of_lt hstop hn)
  have hend : r.prefixEnd = r.base + r.data.length :=
    Nat.mod_eq_of_lt (lt_of_le_of_lt h.run hn)
  unfold insert
  rw [hend]
  split_ifs
  · exact h
  · have hrun : r.base + (r.data ++ data.drop (r.base + r.data.length - offset)).length ≤ n := by
      rw [List.length_append, List.length_drop]
      omega
    rcases absorbFrom_within hn r.pending _ hrun h.waiting with ⟨hdata, hpending⟩
    exact ⟨hdata, hpending⟩
  · refine ⟨h.run, ?_⟩
    unfold bufferGap
    rw [hmod]
    exact mergeGap_within hn r.pending offset (offset + data.length) data false (by omega)
      (by omega) hstop h.waiting

/-- A frame that ends within `n` keeps the stream within `n`, and reads nothing. -/
theorem receive_within (hn : n < u64) (h : r.Within n) {offset : ℕ}
    (hstop : offset + data.length ≤ n) (fin : Bool) :
    (r.receive offset data fin).1.Within n ∧ (r.receive offset data fin).1.base = r.base := by
  unfold receive
  dsimp only
  split_ifs
  · exact ⟨h, rfl⟩
  · exact ⟨h, rfl⟩
  all_goals
    constructor
    · apply insert_within hn _ hstop
      exact ⟨h.run, h.waiting⟩
    · exact (insert_fields _ offset data).1

end RecvStream

end Quic
