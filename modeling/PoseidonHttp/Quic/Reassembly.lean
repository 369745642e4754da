import PoseidonHttp.Quic.RecvStream
import PoseidonHttp.Lib.Transition

/-!
# A stream is reassembled into the bytes sent

The peer sends the bytes `B`, cut into frames in any way: frames may overlap, repeat, be empty
and arrive in any order, and any frame that ends at the end of `B` may carry the FIN. The
application reads in between. `reassembled`: what has been read and what can be read are the
longest prefix of `B` that the frames cover. No such frame breaks the rules of the final size;
the one error left, too many chunks that wait, is returned after the frame has been taken in,
and the statement holds after it as well.
-/

namespace Quic.Reassembly

open Header (Bytes)
open Transition

/-- A stream in use, the frames received and the bytes read so far. -/
structure Use where
  recv : RecvStream
  frames : List StreamChunk
  fins : List Bool
  out : Bytes

inductive Op where
  | receive (f : StreamChunk) (fin : Bool)
  | read

def init : Use := ⟨.empty, [], [], []⟩

def receiveFrame (s : Use) (f : StreamChunk) (fin : Bool) : Use :=
  { s with
    recv := (s.recv.receive f.offset f.data fin).1
    frames := s.frames ++ [f]
    fins := s.fins ++ [fin] }

/-- The peer sends slices of `B`, and the FIN only with a frame that ends with it. -/
def step (B : Bytes) (s : Use) : Op → Option Use
  | .receive f fin =>
    if f.Held B ∧ (fin = true → f.stop = B.length) then some (receiveFrame s f fin) else none
  | .read => some { s with recv := s.recv.read.2, out := s.out ++ s.recv.read.1 }

def system (B : Bytes) : System Use Op := ⟨init, step B⟩

/-- What has been read and what waits, when the frames cover `B` from the start up to `m`. -/
structure Reassembled (B : Bytes) (s : Use) (m : ℕ) : Prop where
  /-- `m` is the largest number below which every offset has been covered. -/
  greatest : IsGreatest {m | ∀ x < m, Covered s.frames x} m
  /-- The bytes read and the bytes to read are `B` up to `m`. -/
  delivered : s.out ++ s.recv.data = B.take m
  le : m ≤ B.length
  /-- The chunks that wait are in order, apart from each other, beyond `m`, and right. -/
  separated : Separated s.recv.pending
  beyond : ∀ c ∈ s.recv.pending, m < c.offset
  held : ∀ c ∈ s.recv.pending, c.Held B
  complete : s.recv.complete = true ↔ true ∈ s.fins ∧ m = B.length

/-! ## The invariant -/

/-- The FIN fields say whether a FIN was received, and where `B` ends. -/
structure Ends (B : Bytes) (s : Use) : Prop where
  fin : s.recv.fin = true ↔ true ∈ s.fins
  known : s.recv.finalKnown = s.recv.fin
  size : s.recv.fin = true → s.recv.finalSize = B.length
  highest : s.recv.highest ≤ B.length

/-- The run ends at `n`, and the run and the chunks that wait are what the frames cover. -/
structure Inv (B : Bytes) (s : Use) (n : ℕ) : Prop where
  holds : s.recv.Holds B n
  out : s.out = B.take s.recv.base
  covered : ∀ x, Covered s.frames x ↔ x < n ∨ Covered s.recv.pending x
  ends : Ends B s

/-- The run ends somewhere. -/
def Tracked (B : Bytes) (s : Use) : Prop := ∃ n, Inv B s n

variable {B : Bytes} {s : Use} {n : ℕ}

/-- The stream as `receive` updates it before the insertion: a frame of `B` passes the checks
of the final size. -/
def noteEnd (r : RecvStream) (stop : ℕ) (fin : Bool) : RecvStream :=
  let r := if fin then { r with fin := true, finalKnown := true, finalSize := stop } else r
  if stop > r.highest then { r with highest := stop } else r

theorem receive_eq (hB : B.length < u64) (h : Ends B s) {f : StreamChunk} (hf : f.Held B)
    {fin : Bool} (hfin : fin = true → f.stop = B.length) :
    (s.recv.receive f.offset f.data fin).1 =
      (noteEnd s.recv f.stop fin).insert f.offset f.data := by
  have hstop : (f.offset + f.data.length) % u64 = f.stop :=
    Nat.mod_eq_of_lt (lt_of_le_of_lt hf.stop_le hB)
  have hfirst : ¬ (s.recv.finalKnown = true ∧
      (f.stop > s.recv.finalSize ∨ fin = true ∧ f.stop ≠ s.recv.finalSize)) := by
    rintro ⟨hknown, hbad⟩
    rw [h.known] at hknown
    rw [h.size hknown] at hbad
    rcases hbad with hbad | ⟨hf', hbad⟩
    · exact absurd hf.stop_le (by omega)
    · exact hbad (hfin hf')
  have hsecond : ¬ (fin = true ∧ f.stop < s.recv.highest) := by
    rintro ⟨hf', hbad⟩
    have := h.highest
    have := hfin hf'
    omega
  simp only [RecvStream.receive, hstop, if_neg hfirst, if_neg hsecond, noteEnd]

/-- The fields of `noteEnd`. -/
theorem noteEnd_fields (r : RecvStream) (stop : ℕ) (fin : Bool) :
    (noteEnd r stop fin).data = r.data ∧ (noteEnd r stop fin).base = r.base ∧
    (noteEnd r stop fin).pending = r.pending ∧
    (noteEnd r stop fin).highest = max r.highest stop ∧
    (noteEnd r stop fin).fin = (r.fin || fin) ∧
    (noteEnd r stop fin).finalKnown = (r.finalKnown || fin) ∧
    (noteEnd r stop fin).finalSize = if fin then stop else r.finalSize := by
  unfold noteEnd
  cases fin <;> simp only [Bool.false_eq_true, if_false, if_true, Bool.or_false, Bool.or_true] <;>
    split_ifs with h <;> refine ⟨rfl, rfl, rfl, ?_, rfl, rfl, rfl⟩ <;>
    first | exact (max_eq_right (le_of_lt h)).symm | exact (max_eq_left (not_lt.mp h)).symm

/-- A frame of `B` keeps the invariant. -/
theorem Inv.receiveFrame (hB : B.length < u64) (h : Inv B s n) {f : StreamChunk} (hf : f.Held B)
    {fin : Bool} (hfin : fin = true → f.stop = B.length) :
    Tracked B (receiveFrame s f fin) := by
  obtain ⟨hdata, hbase, hpending, hhighest, hfins, hknown, hsize⟩ :=
    noteEnd_fields s.recv f.stop fin
  have hholds : (noteEnd s.recv f.stop fin).Holds B n := by
    refine ⟨?_, ?_, h.holds.le, hpending ▸ h.holds.waiting⟩
    · rw [hdata, hbase]
      exact h.holds.data
    · rw [hdata, hbase]
      exact h.holds.stop
  rcases RecvStream.insert_spec hB hholds hf with ⟨n', hins, hcov⟩
  have hfields := RecvStream.insert_fields (noteEnd s.recv f.stop fin) f.offset f.data
  have heq : (Reassembly.receiveFrame s f fin).recv =
      (noteEnd s.recv f.stop fin).insert f.offset f.data := receive_eq hB h.ends hf hfin
  refine ⟨n', heq ▸ hins, ?_, fun x => ?_, ⟨?_, ?_, ?_, ?_⟩⟩
  · rw [heq, hfields.1, hbase]
    exact h.out
  · rw [heq, hcov, hpending, ← h.covered]
    simp [Covered, Reassembly.receiveFrame, or_and_right, exists_or]
  · rw [heq, hfields.2.2.1, hfins, Bool.or_eq_true, h.ends.fin]
    simp only [Reassembly.receiveFrame, List.mem_append, List.mem_singleton, eq_comm]
  · rw [heq, hfields.2.2.1, hfields.2.2.2.1, hfins, hknown, h.ends.known]
  · rw [heq, hfields.2.2.1, hfields.2.2.2.2, hfins, hsize]
    intro hor
    cases fin with
    | true => exact hfin rfl
    | false => exact h.ends.size (by simpa using hor)
  · rw [heq, hfields.2.1, hhighest]
    exact max_le h.ends.highest hf.stop_le

theorem Inv.read (hB : B.length < u64) (h : Inv B s n) :
    Inv B { s with recv := s.recv.read.2, out := s.out ++ s.recv.read.1 } n := by
  rcases h.holds.read hB with ⟨hholds, hbase⟩
  refine ⟨hholds, ?_, h.covered, ⟨h.ends.fin, h.ends.known, h.ends.size, h.ends.highest⟩⟩
  show s.out ++ s.recv.data = B.take s.recv.read.2.base
  rw [hbase, h.out, h.holds.data]
  exact Slice.take_append_slice B (h.holds.stop ▸ Nat.le_add_right _ _)

theorem inv_init (B : Bytes) : Inv B init 0 where
  holds := ⟨rfl, rfl, Nat.zero_le _, .nil⟩
  out := rfl
  covered := by
    intro x
    have hnone : ¬ Covered init.frames x := not_covered_nil x
    have hnone' : ¬ Covered init.recv.pending x := not_covered_nil x
    simp [hnone, hnone']
  ends := ⟨by simp [init, RecvStream.empty], rfl, by simp [init, RecvStream.empty], Nat.zero_le _⟩

theorem tracked_of_reachable (hB : B.length < u64) (h : (system B).Reachable s) :
    Tracked B s := by
  refine h.invariant ?_ ?_
  · exact ⟨0, inv_init B⟩
  rintro s op s' ⟨n, hinv⟩ - hstep
  cases op with
  | receive f fin =>
    simp only [system, step, Transition.guarded] at hstep
    rcases hstep with ⟨⟨hf, hfin⟩, rfl⟩
    exact hinv.receiveFrame hB hf hfin
  | read =>
    obtain rfl := Option.some.inj hstep
    exact ⟨n, hinv.read hB⟩

/-! ## What the invariant gives -/

theorem Inv.complete_iff (hB : B.length < u64) (h : Inv B s n) :
    s.recv.complete = true ↔ true ∈ s.fins ∧ n = B.length := by
  simp only [RecvStream.complete, Bool.and_eq_true, beq_iff_eq, List.isEmpty_iff,
    h.holds.prefixEnd_eq hB, h.ends.fin]
  constructor
  · rintro ⟨⟨hfin, hend⟩, -⟩
    exact ⟨hfin, hend.trans (h.ends.size (h.ends.fin.mpr hfin))⟩
  rintro ⟨hfin, hend⟩
  refine ⟨⟨hfin, hend.trans (h.ends.size (h.ends.fin.mpr hfin)).symm⟩, ?_⟩
  -- a chunk that waits would begin beyond the end of the stream
  rw [List.eq_nil_iff_forall_not_mem]
  intro c hc
  have := h.holds.waiting.beyond c hc
  have := (h.holds.waiting.held c hc).stop_le
  have := c.offset_le_stop
  omega

theorem Inv.greatest (h : Inv B s n) : IsGreatest {m | ∀ x < m, Covered s.frames x} n := by
  constructor
  · intro x hx
    exact (h.covered x).mpr (.inl hx)
  · intro m hm
    by_contra hlt
    -- the end of the run is not covered: the chunks that wait are beyond it
    rcases (h.covered n).mp (hm n (by omega)) with hself | ⟨c, hc, hcov⟩
    · exact lt_irrefl n hself
    · exact absurd (h.holds.waiting.beyond c hc) (not_lt.mpr hcov.1)

/-- In every run, what has been read and what can be read are the longest prefix of the bytes
sent that the frames received cover. The length of the bytes is a 64-bit word, as every length
and offset is. -/
theorem reassembled (B : Bytes) (hB : B.length < u64) (s : Use) (h : (system B).Reachable s) :
    ∃ m, Reassembled B s m := by
  rcases tracked_of_reachable hB h with ⟨n, hinv⟩
  refine ⟨n, hinv.greatest, ?_, hinv.holds.le, hinv.holds.waiting.separated,
    hinv.holds.waiting.beyond, hinv.holds.waiting.held, hinv.complete_iff hB⟩
  rw [hinv.out, hinv.holds.data]
  exact Slice.take_append_slice B (hinv.holds.stop ▸ Nat.le_add_right _ _)

/-- Out of order, overlapping, with an empty frame ahead and a repeated FIN. -/
def shuffled : List Op :=
  [.receive ⟨5, []⟩ false, .receive ⟨3, [3, 4, 5]⟩ true, .receive ⟨0, [0, 1]⟩ false, .read,
    .receive ⟨1, [1, 2, 3]⟩ false, .read, .receive ⟨5, [5]⟩ true]

theorem reassembled_shuffled :
    ∃ s, (system [0, 1, 2, 3, 4, 5]).Reachable s ∧ s.out = [0, 1, 2, 3, 4, 5] ∧
      s.recv.complete = true ∧ ∃ m, Reassembled [0, 1, 2, 3, 4, 5] s m := by
  have hrun : ∃ s, (system [0, 1, 2, 3, 4, 5]).Reachable s ∧ s.out = [0, 1, 2, 3, 4, 5] ∧
      s.recv.complete = true := by
    apply System.exists_reachable shuffled
    decide +kernel
  rcases hrun with ⟨s, hs, hout, hcomplete⟩
  exact ⟨s, hs, hout, hcomplete, reassembled _ (by decide) s hs⟩

end Quic.Reassembly
