import PoseidonHttp.Quic.Types
import Mathlib.Data.List.TakeWhile

/-!
# Received packet numbers

`ack_tracker.go`. The numbers received in one packet-number space are kept as ranges, the
highest first, with a gap between any two. At most `maxAckRanges` are kept; the lowest is
dropped, and `lowWater` is raised above it: below it the tracker no longer knows what it has
received, and takes every number for seen.
-/

namespace Quic

/-- An inclusive range of packet numbers. -/
structure PnRange where
  lo : ℕ
  hi : ℕ
  deriving DecidableEq, Repr

def maxAckRanges : ℕ := 32

structure AckTracker where
  ranges : List PnRange
  pending : Bool
  immediate : Bool
  elicitCount : ℕ
  lowWater : ℕ
  truncated : Bool
  deriving DecidableEq, Repr

namespace AckTracker

/-- The zero value. -/
def empty : AckTracker := ⟨[], false, false, 0, 0, false⟩

variable (a : AckTracker)

/-- The loop that looks for a range with `pn` in it. -/
def contains (pn : ℕ) : Bool :=
  a.ranges.any fun r => decide (r.lo ≤ pn ∧ pn ≤ r.hi)

def seen (pn : ℕ) : Bool :=
  a.contains pn || (a.truncated && decide (pn < a.lowWater))

def largest : Option ℕ := a.ranges.head?.map (·.hi)

/-- The four cases of `insert`, between the ranges above `pn` and those below it. -/
def placeRange (pn : ℕ) (above below : List PnRange) : List PnRange :=
  let up := above.getLast?.getD ⟨0, 0⟩
  let down := below.headD ⟨0, 0⟩
  let mergeUp := above ≠ [] ∧ up.lo = (pn + 1) % u64
  let mergeDown := below ≠ [] ∧ (down.hi + 1) % u64 = pn
  if mergeUp ∧ mergeDown then above.dropLast ++ ⟨down.lo, up.hi⟩ :: below.tail
  else if mergeUp then above.dropLast ++ ⟨pn, up.hi⟩ :: below
  else if mergeDown then above ++ ⟨down.lo, pn⟩ :: below.tail
  else above ++ ⟨pn, pn⟩ :: below

/-- `insert`: the ranges are cut at the first one whose upper bound is below `pn`. -/
def insertRange (ranges : List PnRange) (pn : ℕ) : List PnRange :=
  placeRange pn (ranges.takeWhile fun r => decide (pn ≤ r.hi))
    (ranges.dropWhile fun r => decide (pn ≤ r.hi))

/-- Drop what is past the cap, and raise the floor above it. -/
def truncate : AckTracker :=
  match a.ranges[maxAckRanges]? with
  | none => a
  | some dropped =>
    let lw := (dropped.hi + 1) % u64
    { a with
      ranges := a.ranges.take maxAckRanges
      lowWater := if a.truncated = false ∨ lw > a.lowWater then lw else a.lowWater
      truncated := true }

/-- What an ack-eliciting packet does to the owed acknowledgment: it is due at once if it is
the second one, or out of order. -/
def elicited (pn : ℕ) (isNew : Bool) : AckTracker :=
  if isNew then
    { a with
      pending := true
      elicitCount := a.elicitCount + 1
      immediate := a.immediate || decide (a.elicitCount + 1 ≥ 2) ||
        a.largest.any fun hi => decide (pn ≠ (hi + 1) % u64) }
  else { a with pending := true }

def receive (pn : ℕ) (ackEliciting : Bool) : AckTracker :=
  let isNew := !a.contains pn
  let a := if ackEliciting then a.elicited pn isNew else a
  if isNew then { a with ranges := insertRange a.ranges pn }.truncate else a

def acked : AckTracker :=
  { a with pending := false, immediate := false, elicitCount := 0 }

end AckTracker

/-! ## Ranges in order -/

/-- Highest first, each a range, and a number missing between any two. -/
structure Canonical (ranges : List PnRange) : Prop where
  apart : ranges.Pairwise fun r s => s.hi + 1 < r.lo
  ordered : ∀ r ∈ ranges, r.lo ≤ r.hi

/-- Some range has `x` in it. -/
def InRanges (ranges : List PnRange) (x : ℕ) : Prop := ∃ r ∈ ranges, r.lo ≤ x ∧ x ≤ r.hi

theorem contains_iff {a : AckTracker} {pn : ℕ} :
    a.contains pn = true ↔ InRanges a.ranges pn := by
  simp only [AckTracker.contains, List.any_eq_true, decide_eq_true_eq, InRanges]

theorem inRanges_append {l l' : List PnRange} {x : ℕ} :
    InRanges (l ++ l') x ↔ InRanges l x ∨ InRanges l' x := by
  simp only [InRanges, List.mem_append, or_and_right, exists_or]

variable {l : List PnRange}

theorem inRanges_cons {r : PnRange} {x : ℕ} :
    InRanges (r :: l) x ↔ (r.lo ≤ x ∧ x ≤ r.hi) ∨ InRanges l x := by
  simp only [InRanges, List.mem_cons, exists_eq_or_imp]

theorem not_inRanges_nil (x : ℕ) : ¬ InRanges [] x := by
  rintro ⟨r, hr, -⟩
  cases hr

/-- A list of ranges around one of them. -/
theorem canonical_append_cons {l l' : List PnRange} {r : PnRange} :
    Canonical (l ++ r :: l') ↔ Canonical l ∧ Canonical l' ∧ r.lo ≤ r.hi ∧
      (∀ s ∈ l, r.hi + 1 < s.lo) ∧ ∀ s ∈ l', s.hi + 1 < r.lo := by
  constructor
  · rintro ⟨hp, ho⟩
    rw [List.pairwise_append, List.pairwise_cons] at hp
    refine ⟨⟨hp.1, fun s hs => ho s (List.mem_append_left _ hs)⟩, ⟨hp.2.1.2, fun s hs => ?_⟩,
      ho r (by simp), fun s hs => hp.2.2 s hs r (by simp), hp.2.1.1⟩
    exact ho s (List.mem_append_right _ (List.mem_cons_of_mem r hs))
  · rintro ⟨hl, hl', hr, habove, hbelow⟩
    constructor
    · rw [List.pairwise_append, List.pairwise_cons]
      refine ⟨hl.apart, ⟨hbelow, hl'.apart⟩, fun s hs t ht => ?_⟩
      rcases List.mem_cons.mp ht with rfl | ht
      · exact habove s hs
      · have := habove s hs
        have := hbelow t ht
        omega
    · exact List.forall_mem_append.mpr
        ⟨hl.ordered, List.forall_mem_cons.mpr ⟨hr, hl'.ordered⟩⟩

theorem canonical_concat {r : PnRange} :
    Canonical (l ++ [r]) ↔ Canonical l ∧ r.lo ≤ r.hi ∧ ∀ s ∈ l, r.hi + 1 < s.lo := by
  have hnil : Canonical [] := ⟨.nil, by simp⟩
  rw [canonical_append_cons]
  simp [hnil]

theorem canonical_cons {r : PnRange} :
    Canonical (r :: l) ↔ Canonical l ∧ r.lo ≤ r.hi ∧ ∀ s ∈ l, s.hi + 1 < r.lo := by
  have hnil : Canonical [] := ⟨.nil, by simp⟩
  have hiff := @canonical_append_cons [] l r
  simpa [hnil] using hiff

theorem Canonical.sublist {ranges l : List PnRange} (h : Canonical ranges) (hl : l.Sublist ranges) :
    Canonical l :=
  ⟨h.apart.sublist hl, fun r hr => h.ordered r (hl.subset hr)⟩

/-! ## Insertion -/

namespace AckTracker

variable {pn : ℕ} {above below ranges : List PnRange}

/-- Where the ranges are cut: those before the cut are above `pn`, the others below it. -/
theorem cut_spec (h : Canonical ranges) (hnot : ¬ InRanges ranges pn) :
    (∀ r ∈ ranges.takeWhile fun r => decide (pn ≤ r.hi), pn < r.lo) ∧
      ∀ r ∈ ranges.dropWhile fun r => decide (pn ≤ r.hi), r.hi < pn := by
  constructor
  · intro r hr
    have hhi : pn ≤ r.hi := by simpa using List.mem_takeWhile_imp hr
    have hmem : r ∈ ranges := (List.takeWhile_sublist _).subset hr
    by_contra hlo
    exact hnot ⟨r, hmem, by omega, hhi⟩
  · have hsub := h.sublist (List.dropWhile_sublist fun r => decide (pn ≤ r.hi))
    have hhead := List.head?_dropWhile_not (fun r : PnRange => decide (pn ≤ r.hi)) ranges
    cases hdrop : ranges.dropWhile fun r => decide (pn ≤ r.hi) with
    | nil => simp
    | cons d rest =>
      rw [hdrop] at hsub hhead
      have hd : d.hi < pn := by simpa using hhead
      rcases canonical_cons.mp hsub with ⟨-, hlo, hrest⟩
      refine List.forall_mem_cons.mpr ⟨hd, fun r hr => ?_⟩
      have := hrest r hr
      omega

/-- Whether the range above reaches down to `pn`: the last one does, or all are further. -/
theorem above_cases (ha : Canonical above) (habove : ∀ r ∈ above, pn < r.lo) :
    (∃ l u, above = l ++ [u] ∧ u.lo = pn + 1) ∨
      (¬ (above ≠ [] ∧ (above.getLast?.getD ⟨0, 0⟩).lo = pn + 1) ∧ ∀ r ∈ above, pn + 1 < r.lo) := by
  rcases List.eq_nil_or_concat above with rfl | ⟨l, u, rfl⟩
  · exact .inr ⟨fun h => h.1 rfl, by simp⟩
  rw [List.concat_eq_append] at ha habove ⊢
  have hlt := habove u (by simp)
  rcases canonical_concat.mp ha with ⟨-, hle, hl⟩
  by_cases hu : u.lo = pn + 1
  · exact .inl ⟨l, u, rfl, hu⟩
  · refine .inr ⟨fun h => hu (by simpa using h.2), fun r hr => ?_⟩
    rcases List.mem_append.mp hr with hr | hr
    · have := hl r hr
      omega
    · obtain rfl := List.mem_singleton.mp hr
      omega

/-- Whether the range below reaches up to `pn`: the first one does, or all are further. -/
theorem below_cases (hb : Canonical below) (hbelow : ∀ r ∈ below, r.hi < pn) (hpn : pn < u64) :
    (∃ d l, below = d :: l ∧ d.hi + 1 = pn) ∨
      (¬ (below ≠ [] ∧ ((below.headD ⟨0, 0⟩).hi + 1) % u64 = pn) ∧ ∀ r ∈ below, r.hi + 1 < pn) := by
  cases below with
  | nil => exact .inr ⟨fun h => h.1 rfl, by simp⟩
  | cons d l =>
    have hlt := hbelow d List.mem_cons_self
    have hmod : (d.hi + 1) % u64 = d.hi + 1 := Nat.mod_eq_of_lt (by omega)
    rcases canonical_cons.mp hb with ⟨-, hle, hl⟩
    by_cases hd : d.hi + 1 = pn
    · exact .inl ⟨d, l, rfl, hd⟩
    · refine .inr ⟨fun h => hd (by simpa [hmod] using h.2), fun r hr => ?_⟩
      rcases List.mem_cons.mp hr with rfl | hr
      · omega
      · have := hl r hr
        omega

/-- A number that belongs to none of the ranges, put between those above and those below. -/
theorem placeRange_spec (ha : Canonical above) (hb : Canonical below)
    (habove : ∀ r ∈ above, pn < r.lo) (hbelow : ∀ r ∈ below, r.hi < pn) (hpn : pn + 1 < u64) :
    Canonical (placeRange pn above below) ∧
      ∀ x, InRanges (placeRange pn above below) x ↔
        x = pn ∨ InRanges above x ∨ InRanges below x := by
  have hup : (pn + 1) % u64 = pn + 1 := Nat.mod_eq_of_lt hpn
  simp only [placeRange, hup]
  rcases above_cases ha habove with ⟨l, u, rfl, hu⟩ | ⟨hnoUp, hfar⟩ <;>
    rcases below_cases hb hbelow (by omega) with ⟨d, l', rfl, hd⟩ | ⟨hnoDown, hlow⟩
  · -- the last hole between two ranges
    rcases canonical_concat.mp ha with ⟨hl, hule, hlu⟩
    rcases canonical_cons.mp hb with ⟨hl', hdle, hld⟩
    have hmod : (d.hi + 1) % u64 = pn := by rw [hd]; exact Nat.mod_eq_of_lt (by omega)
    simp only [List.getLast?_concat, Option.getD_some, List.headD_cons, List.dropLast_concat,
      List.tail_cons, hu, hmod]
    rw [if_pos (by simp)]
    refine ⟨canonical_append_cons.mpr ⟨hl, hl', by simp only; omega, hlu, hld⟩, fun x => ?_⟩
    have hx : (d.lo ≤ x ∧ x ≤ u.hi) ↔ x = pn ∨ (u.lo ≤ x ∧ x ≤ u.hi) ∨ (d.lo ≤ x ∧ x ≤ d.hi) := by
      omega
    simp only [inRanges_append, inRanges_cons, not_inRanges_nil, hx]
    simp only [false_or, or_assoc, or_comm, or_left_comm]
  · -- the range above grows downwards
    rcases canonical_concat.mp ha with ⟨hl, hule, hlu⟩
    rw [if_neg (fun h => hnoDown h.2)]
    simp only [List.getLast?_concat, Option.getD_some, List.dropLast_concat, hu]
    rw [if_pos (by simp)]
    refine ⟨canonical_append_cons.mpr ⟨hl, hb, by simp only; omega, hlu, hlow⟩, fun x => ?_⟩
    have hx : (pn ≤ x ∧ x ≤ u.hi) ↔ x = pn ∨ (u.lo ≤ x ∧ x ≤ u.hi) := by omega
    simp only [inRanges_append, inRanges_cons, not_inRanges_nil, hx]
    simp only [false_or, or_assoc, or_comm, or_left_comm]
  · -- the range below grows upwards
    rcases canonical_cons.mp hb with ⟨hl', hdle, hld⟩
    have hmod : (d.hi + 1) % u64 = pn := by rw [hd]; exact Nat.mod_eq_of_lt (by omega)
    rw [if_neg (fun h => hnoUp h.1), if_neg hnoUp]
    simp only [List.headD_cons, List.tail_cons, hmod]
    rw [if_pos (by simp)]
    refine ⟨canonical_append_cons.mpr ⟨ha, hl', by simp only; omega, hfar, hld⟩, fun x => ?_⟩
    have hx : (d.lo ≤ x ∧ x ≤ pn) ↔ x = pn ∨ (d.lo ≤ x ∧ x ≤ d.hi) := by omega
    simp only [inRanges_append, inRanges_cons, hx]
    simp only [or_assoc, or_left_comm]
  · -- a range of its own
    rw [if_neg (fun h => hnoUp h.1), if_neg hnoUp, if_neg hnoDown]
    refine ⟨canonical_append_cons.mpr ⟨ha, hb, le_rfl, hfar, hlow⟩, fun x => ?_⟩
    have hx : (pn ≤ x ∧ x ≤ pn) ↔ x = pn := by omega
    simp only [inRanges_append, inRanges_cons, hx]
    simp only [or_left_comm]

/-- `insert` adds the number and nothing else, and keeps the ranges in order. -/
theorem insertRange_spec (h : Canonical ranges) (hnot : ¬ InRanges ranges pn)
    (hpn : pn + 1 < u64) :
    Canonical (insertRange ranges pn) ∧
      ∀ x, InRanges (insertRange ranges pn) x ↔ x = pn ∨ InRanges ranges x := by
  rcases cut_spec h hnot with ⟨habove, hbelow⟩
  have hsplit := List.takeWhile_append_dropWhile (p := fun r : PnRange => decide (pn ≤ r.hi))
    (l := ranges)
  rcases placeRange_spec (h.sublist (List.takeWhile_sublist _)) (h.sublist (List.dropWhile_sublist _))
    habove hbelow hpn with ⟨hcan, hmem⟩
  refine ⟨hcan, fun x => ?_⟩
  rw [insertRange, hmem, ← inRanges_append, hsplit]

end AckTracker

end Quic
