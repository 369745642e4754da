import PoseidonHttp.Quic.AckFrame
import PoseidonHttp.Lib.Transition

/-!
# Packets are processed once and acknowledged truthfully

Packet numbers arrive in any order, with repetitions and gaps, and are handled as
`processPacket` does: a number the tracker has seen is dropped, any other is processed and
received. In between acknowledgments are sent.

* `processed_once_acked_truthfully`: no number is processed twice, the ranges hold processed
  numbers only, all of them down to the floor, and the ACK frame says exactly the ranges.
* `fewer_ranges_miss_a_number`: once the floor has been raised, ranges that merge leave room
  again, but the numbers dropped do not come back.
-/

namespace Quic.Received

open Header (Bytes)
open Transition
open AckTracker (insertRange insertRange_spec)

/-- A packet-number space, and the numbers that passed the test, in order. -/
structure Space where
  acks : AckTracker
  processed : List ℕ
  deriving DecidableEq

inductive Op where
  | arrive (pn : ℕ) (ackEliciting : Bool)
  | sendAck

def init : Space := ⟨.empty, []⟩

/-- `processPacket`, as far as the number is concerned. -/
def arrive (s : Space) (pn : ℕ) (ackEliciting : Bool) : Space :=
  if s.acks.seen pn then s
  else ⟨s.acks.receive pn ackEliciting, s.processed ++ [pn]⟩

def step (s : Space) : Op → Option Space
  | .arrive pn ackEliciting => if pn ≤ maxVarint then some (arrive s pn ackEliciting) else none
  | .sendAck => some { s with acks := s.acks.acked }

def system : System Space Op := ⟨init, step⟩

/-- What the tracker owes the packets processed. -/
structure Truthful (s : Space) : Prop where
  /-- No number passes the test twice. -/
  once : s.processed.Nodup
  /-- The ranges descend, with a gap between any two. -/
  canonical : Canonical s.acks.ranges
  length : s.acks.ranges.length ≤ maxAckRanges
  /-- Only numbers processed are in the ranges, the largest always. -/
  only : ∀ x, InRanges s.acks.ranges x → x ∈ s.processed
  largest : ∀ x ∈ s.processed, (∀ y ∈ s.processed, y ≤ x) → InRanges s.acks.ranges x
  /-- Until a range is dropped all of them are, and from the floor on always. -/
  all : s.acks.truncated = false → ∀ x ∈ s.processed, InRanges s.acks.ranges x
  kept : ∀ x ∈ s.processed, s.acks.lowWater ≤ x → InRanges s.acks.ranges x
  /-- A number never processed is refused only below the floor. -/
  refused : ∀ x ∉ s.processed, s.acks.seen x = true → x < s.acks.lowWater
  /-- The peer, which has sent these numbers, decodes the frame into the ranges. -/
  frame : ∀ (r : AckReader) (ackDelay : ℕ) (rest : Bytes), ackDelay ≤ maxVarint →
    (∀ x ∈ s.processed, x < r.sendPN) → s.processed ≠ [] →
    ∃ body low, s.acks.buildACK ackDelay = 0x02 :: body ∧
      parseAck connAckHandler false r (body ++ rest) =
        ({ r with acked := r.acked ++ s.acks.ranges, ackLow := low }, .ok rest)

/-! ## The invariant -/

structure Inv (s : Space) : Prop where
  canonical : Canonical s.acks.ranges
  length : s.acks.ranges.length ≤ maxAckRanges
  once : s.processed.Nodup
  words : ∀ x ∈ s.processed, x ≤ maxVarint
  only : ∀ x, InRanges s.acks.ranges x → x ∈ s.processed
  seen : ∀ x ∈ s.processed, s.acks.seen x = true
  floor : s.acks.truncated = false → s.acks.lowWater = 0
  top : ∀ x ∈ s.processed, ∃ r, s.acks.ranges.head? = some r ∧ x ≤ r.hi

variable {s : Space} {a : AckTracker} {x : ℕ}

theorem seen_iff :
    a.seen x = true ↔ InRanges a.ranges x ∨ (a.truncated = true ∧ x < a.lowWater) := by
  rw [AckTracker.seen, Bool.or_eq_true, contains_iff, Bool.and_eq_true, decide_eq_true_eq]

/-- The first range is the highest. -/
theorem le_head {ranges : List PnRange} (h : Canonical ranges) (hx : InRanges ranges x) :
    ∃ r, ranges.head? = some r ∧ x ≤ r.hi := by
  cases ranges with
  | nil => exact absurd hx (not_inRanges_nil x)
  | cons r rest =>
    refine ⟨r, rfl, ?_⟩
    rcases canonical_cons.mp h with ⟨-, hr, hbelow⟩
    rcases inRanges_cons.mp hx with hx | ⟨t, ht, hx⟩
    · exact hx.2
    · have := hbelow t ht
      omega

/-- What `truncate` does: a prefix of the ranges is kept, the numbers dropped are below the
floor, and the floor does not sink. -/
theorem truncate_spec (h : Canonical a.ranges)
    (hword : ∀ r ∈ a.ranges, r.hi + 1 < u64) (hfloor : a.truncated = false → a.lowWater = 0) :
    a.truncate.ranges = a.ranges.take maxAckRanges ∧ a.lowWater ≤ a.truncate.lowWater ∧
      (a.truncate.truncated = false → a.truncate.lowWater = 0) ∧
      ∀ x, a.seen x = true → a.truncate.seen x = true := by
  unfold AckTracker.truncate
  cases hget : a.ranges[maxAckRanges]? with
  | none =>
    have hlen : a.ranges.length ≤ maxAckRanges := List.getElem?_eq_none_iff.mp hget
    exact ⟨(List.take_of_length_le hlen).symm, le_rfl, hfloor, fun x hx => hx⟩
  | some d =>
    obtain ⟨hlt, hd⟩ := List.getElem?_eq_some_iff.mp hget
    have hmem : d ∈ a.ranges := hd ▸ List.getElem_mem hlt
    have hmod : (d.hi + 1) % u64 = d.hi + 1 := Nat.mod_eq_of_lt (hword d hmem)
    have hraise : a.lowWater ≤ (if a.truncated = false ∨ d.hi + 1 > a.lowWater then d.hi + 1
        else a.lowWater) ∧ d.hi + 1 ≤ (if a.truncated = false ∨ d.hi + 1 > a.lowWater then d.hi + 1
        else a.lowWater) := by
      split_ifs with hcond
      · refine ⟨?_, le_rfl⟩
        rcases hcond with hno | hgt
        · rw [hfloor hno]
          exact Nat.zero_le _
        · exact le_of_lt hgt
      · push Not at hcond
        exact ⟨le_rfl, hcond.2⟩
    simp only [hmod]
    refine ⟨trivial, hraise.1, by simp, fun x hx => ?_⟩
    rw [seen_iff] at hx ⊢
    rcases hx with hx | ⟨-, hx⟩
    · -- in a range kept, or in one dropped and then below the floor
      have hsplit : a.ranges = a.ranges.take maxAckRanges ++ d :: a.ranges.drop (maxAckRanges + 1) := by
        rw [← hd, List.getElem_cons_drop, List.take_append_drop]
      rw [hsplit] at h hx
      rcases inRanges_append.mp hx with hx | hx
      · exact .inl hx
      · right
        refine ⟨rfl, lt_of_lt_of_le ?_ hraise.2⟩
        rcases canonical_append_cons.mp h with ⟨-, -, hle, -, hbelow⟩
        rcases inRanges_cons.mp hx with hx | ⟨t, ht, hx⟩
        · omega
        · have := hbelow t ht
          omega
    · exact .inr ⟨rfl, lt_of_lt_of_le hx hraise.1⟩

/-- The owed acknowledgment does not touch the ranges or the floor. -/
theorem elicited_fields (a : AckTracker) (pn : ℕ) (isNew : Bool) :
    (a.elicited pn isNew).ranges = a.ranges ∧ (a.elicited pn isNew).lowWater = a.lowWater ∧
      (a.elicited pn isNew).truncated = a.truncated := by
  unfold AckTracker.elicited
  split_ifs <;> exact ⟨rfl, rfl, rfl⟩

/-- `receive` of a number that was not seen: insertion, then truncation. -/
theorem receive_spec (h : Canonical a.ranges) {pn : ℕ} (hpn : pn ≤ maxVarint)
    (hwords : ∀ r ∈ a.ranges, r.hi ≤ maxVarint) (hfloor : a.truncated = false → a.lowWater = 0)
    (hnew : a.seen pn = false) (ackEliciting : Bool) :
    (a.receive pn ackEliciting).ranges =
        (insertRange a.ranges pn).take maxAckRanges ∧
      a.lowWater ≤ (a.receive pn ackEliciting).lowWater ∧
      ((a.receive pn ackEliciting).truncated = false →
        (a.receive pn ackEliciting).lowWater = 0) ∧
      ∀ x, x = pn ∨ a.seen x = true → (a.receive pn ackEliciting).seen x = true := by
  have hword : maxVarint + 1 < u64 := by decide
  have hnotSeen : ¬ (a.seen pn = true) := by rw [hnew]; exact Bool.false_ne_true
  have hnot : ¬ InRanges a.ranges pn := fun hin => hnotSeen (seen_iff.mpr (.inl hin))
  have hcontains : a.contains pn = false := by
    rw [← Bool.not_eq_true, contains_iff]
    exact hnot
  -- the tracker whose ranges the number goes into
  have hbase : ∃ b : AckTracker, b.ranges = a.ranges ∧ b.lowWater = a.lowWater ∧
      b.truncated = a.truncated ∧ a.receive pn ackEliciting =
        { b with ranges := insertRange b.ranges pn }.truncate := by
    cases ackEliciting with
    | true =>
      refine ⟨a.elicited pn true, (elicited_fields a pn true).1, (elicited_fields a pn true).2.1,
        (elicited_fields a pn true).2.2, ?_⟩
      simp [AckTracker.receive, hcontains]
    | false => exact ⟨a, rfl, rfl, rfl, by simp [AckTracker.receive, hcontains]⟩
  rcases hbase with ⟨b, hr, hl, ht, heq⟩
  rcases insertRange_spec h hnot (by omega) with ⟨hcan, hmem⟩
  have hends : ∀ r ∈ insertRange a.ranges pn, r.hi + 1 < u64 := by
    intro r hin
    have hle := hcan.ordered r hin
    rcases (hmem r.hi).mp ⟨r, hin, hle, le_rfl⟩ with hx | ⟨t, htm, -, hx⟩
    · omega
    · have := hwords t htm
      omega
  have hspec := truncate_spec (a := { b with ranges := insertRange b.ranges pn })
    (by simpa only [hr] using hcan) (by simpa only [hr] using hends)
    (by simpa only [hl, ht] using hfloor)
  rw [heq]
  rcases hspec with ⟨hranges, hmono, hzero, hseen⟩
  refine ⟨by rw [hranges, hr], hl ▸ hmono, hzero, fun x hx => hseen x ?_⟩
  rw [seen_iff]
  simp only [hr, hl, ht, hmem]
  rcases hx with rfl | hx
  · exact .inl (.inl rfl)
  · rcases seen_iff.mp hx with hx | hx
    · exact .inl (.inr hx)
    · exact .inr hx

/-- The ranges end at processed numbers. -/
theorem Inv.ends (h : Inv s) : Encodable s.acks.ranges := by
  intro r hr
  exact h.words r.hi (h.only r.hi ⟨r, hr, h.canonical.ordered r hr, le_rfl⟩)

theorem Inv.arrive (h : Inv s) {pn : ℕ} (hpn : pn ≤ maxVarint) (ackEliciting : Bool) :
    Inv (arrive s pn ackEliciting) ∧
      s.acks.lowWater ≤ (Received.arrive s pn ackEliciting).acks.lowWater := by
  unfold Received.arrive
  split_ifs with hseen
  · exact ⟨h, le_rfl⟩
  have hnew : s.acks.seen pn = false := by simpa using hseen
  have hnot : ¬ InRanges s.acks.ranges pn := fun hin => hseen (seen_iff.mpr (.inl hin))
  have hword : maxVarint + 1 < u64 := by decide
  rcases receive_spec h.canonical hpn h.ends h.floor hnew ackEliciting with
    ⟨hranges, hmono, hzero, hkeep⟩
  rcases insertRange_spec h.canonical hnot (by omega) with ⟨hcan, hmem⟩
  refine ⟨⟨?_, ?_, ?_, ?_, ?_, ?_, hzero, ?_⟩, hmono⟩
  · rw [hranges]
    exact hcan.sublist (List.take_sublist _ _)
  · rw [hranges]
    exact List.length_take_le _ _
  · refine List.nodup_append.mpr ⟨h.once, List.nodup_singleton pn, fun x hx y hy => ?_⟩
    obtain rfl := List.mem_singleton.mp hy
    rintro rfl
    exact hseen (h.seen x hx)
  · exact List.forall_mem_append.mpr ⟨h.words, List.forall_mem_singleton.mpr hpn⟩
  · intro x hx
    rw [hranges] at hx
    rcases hx with ⟨r, hr, hx⟩
    rcases (hmem x).mp ⟨r, List.mem_of_mem_take hr, hx⟩ with rfl | hx
    · simp
    · exact List.mem_append_left _ (h.only x hx)
  · intro x hx
    rcases List.mem_append.mp hx with hx | hx
    · exact hkeep x (.inr (h.seen x hx))
    · exact hkeep x (.inl (List.mem_singleton.mp hx))
  · intro x hx
    -- what bounds the processed numbers is in the new ranges, so it is below their first
    have hin : ∃ y, InRanges (insertRange s.acks.ranges pn) y ∧ x ≤ y := by
      rcases List.mem_append.mp hx with hx | hx
      · rcases h.top x hx with ⟨r, hr, hle⟩
        have hmemr : r ∈ s.acks.ranges := List.mem_of_mem_head? hr
        exact ⟨r.hi, (hmem r.hi).mpr (.inr ⟨r, hmemr, h.canonical.ordered r hmemr, le_rfl⟩), hle⟩
      · exact ⟨pn, (hmem pn).mpr (.inl rfl), (List.mem_singleton.mp hx).le⟩
    rcases hin with ⟨y, hy, hle⟩
    rcases le_head hcan hy with ⟨r, hr, hyr⟩
    refine ⟨r, ?_, hle.trans hyr⟩
    rw [hranges, List.head?_take]
    exact hr

theorem inv_init : Inv init where
  canonical := ⟨.nil, by simp [init, AckTracker.empty]⟩
  length := by simp [init, AckTracker.empty]
  once := List.nodup_nil
  words := by simp [init]
  only := fun x hx => absurd hx (not_inRanges_nil x)
  seen := by simp [init]
  floor := fun _ => rfl
  top := by simp [init]

/-- One step keeps the invariant, and does not lower the floor. -/
theorem Inv.step {s' : Space} {op : Op} (h : Inv s) (hstep : step s op = some s') :
    Inv s' ∧ s.acks.lowWater ≤ s'.acks.lowWater := by
  cases op with
  | arrive pn ackEliciting =>
    simp only [Received.step, Transition.guarded] at hstep
    rcases hstep with ⟨hpn, rfl⟩
    exact h.arrive hpn ackEliciting
  | sendAck =>
    obtain rfl := Option.some.inj hstep
    exact ⟨{ h with }, le_rfl⟩

theorem inv_of_reachable (h : system.Reachable s) : Inv s :=
  h.invariant inv_init fun _ _ _ hinv _ hstep => (hinv.step hstep).1

/-- A processed number from the floor on is in the ranges. -/
theorem Inv.kept (h : Inv s) (hx : x ∈ s.processed)
    (hfloor : ¬ (s.acks.truncated = true ∧ x < s.acks.lowWater)) : InRanges s.acks.ranges x :=
  (seen_iff.mp (h.seen x hx)).resolve_right hfloor

theorem Inv.largest (h : Inv s) (hx : x ∈ s.processed)
    (hmax : ∀ y ∈ s.processed, y ≤ x) : InRanges s.acks.ranges x := by
  rcases h.top x hx with ⟨r, hr, hle⟩
  have hmem : r ∈ s.acks.ranges := List.mem_of_mem_head? hr
  have hend : InRanges s.acks.ranges r.hi := ⟨r, hmem, h.canonical.ordered r hmem, le_rfl⟩
  have hge : r.hi ≤ x := hmax r.hi (h.only r.hi hend)
  exact (le_antisymm hge hle) ▸ hend

theorem Inv.truthful (h : Inv s) : Truthful s where
  once := h.once
  canonical := h.canonical
  length := h.length
  only := h.only
  largest := fun _ hx hmax => h.largest hx hmax
  all := by
    intro hno x hx
    exact h.kept hx fun hbad => by simp [hno] at hbad
  kept := fun x hx hle => h.kept hx fun hbad => absurd hbad.2 (not_lt.mpr hle)
  refused := by
    intro x hx hseen
    rcases seen_iff.mp hseen with hin | hlow
    · exact absurd (h.only x hin) hx
    · exact hlow.2
  frame := by
    intro r ackDelay rest hdelay hsent hne
    rcases List.exists_mem_of_ne_nil _ hne with ⟨x, hx⟩
    rcases h.top x hx with ⟨first, hfirst, -⟩
    have hmem : first ∈ s.acks.ranges := List.mem_of_mem_head? hfirst
    have hhi : first.hi < r.sendPN :=
      hsent first.hi (h.only first.hi ⟨first, hmem, h.canonical.ordered first hmem, le_rfl⟩)
    rcases List.head?_eq_some_iff.mp hfirst with ⟨ranges, heq⟩
    have hcount : s.acks.ranges.length ≤ maxVarint := h.length.trans (by decide)
    exact parseAck_buildACK heq h.canonical h.ends hcount hdelay r hhi rest

/-- In every run the tracker is truthful, and its floor never sinks. -/
theorem processed_once_acked_truthfully :
    (∀ s, system.Reachable s → Truthful s) ∧
      ∀ s op s', system.Reachable s → system.step s op = some s' →
        s.acks.lowWater ≤ s'.acks.lowWater := by
  constructor
  · intro s hs
    exact (inv_of_reachable hs).truthful
  · intro s op s' hs hstep
    exact ((inv_of_reachable hs).step hstep).2

/-- One more range than the tracker keeps, and then a number that joins two of them. -/
def gapsThenMerge : List Op :=
  (List.range 33).map (fun i => .arrive (2 * i) true) ++ [.arrive 3 true]

theorem processed_once_acked_truthfully_gaps :
    ∃ s, system.run init gapsThenMerge = some s ∧ s.processed.length = 34 ∧ Truthful s := by
  apply System.exists_run_known gapsThenMerge
  · intro s hs
    exact processed_once_acked_truthfully.1 s (System.reachable_of_run hs)
  · decide +kernel

/-- After the merge there are fewer than `maxAckRanges` ranges, and the number 0, which was
processed, is in none of them. -/
theorem fewer_ranges_miss_a_number :
    ∃ s, system.Reachable s ∧ s.acks.ranges.length < maxAckRanges ∧ 0 ∈ s.processed ∧
      ¬ InRanges s.acks.ranges 0 := by
  have hrun : ∃ s, system.Reachable s ∧ s.acks.ranges.length < maxAckRanges ∧ 0 ∈ s.processed ∧
      s.acks.contains 0 = false := by
    apply System.exists_reachable gapsThenMerge
    decide +kernel
  rcases hrun with ⟨s, hs, hfew, hprocessed, hnot⟩
  refine ⟨s, hs, hfew, hprocessed, fun hin => ?_⟩
  rw [contains_iff.mpr hin] at hnot
  cases hnot

end Quic.Received
