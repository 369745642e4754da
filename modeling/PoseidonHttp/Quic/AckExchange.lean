import PoseidonHttp.Quic.Received

/-!
# Acknowledgments between two ends

One end sends packets; the other processes them and answers with ACK frames. Both are
lost, repeated and reordered.

`acknowledged_truthfully`: no ACK frame is refused, however late it comes; the sender takes a
packet for acknowledged only if it was processed; and the next frame that gets through tells it of
all that were, down to the floor.
-/

namespace Quic.AckExchange

open Header (Bytes)
open Received (arrive)
open Transition

/-- The two ends, and the ACK frames sent. -/
structure State where
  sender : AckReader := ⟨0, 0, []⟩
  receiver : Received.Space := Received.init
  frames : List Bytes := []
  refused : Bool := false

inductive Op where
  | send
  | deliver (pn : ℕ) (ackEliciting : Bool)
  | sendAck (ackDelay : ℕ)
  | deliverAck (i : ℕ) (rest : Bytes)

def step (s : State) : Op → Option State
  | .send => some { s with sender := { s.sender with sendPN := s.sender.sendPN + 1 } }
  | .deliver pn ackEliciting =>
    -- any packet sent, at any time, any number of times; numbers have 62 bits
    if pn < s.sender.sendPN ∧ pn ≤ maxVarint then
      some { s with receiver := arrive s.receiver pn ackEliciting }
    else none
  | .sendAck ackDelay =>
    if ackDelay ≤ maxVarint then
      some { s with
        receiver := { s.receiver with acks := s.receiver.acks.acked }
        frames := s.frames ++ [s.receiver.acks.buildACK ackDelay] }
    else none
  | .deliverAck i rest =>
    -- the type byte has been read, and other frames follow
    match s.frames[i]? with
    | some (_ :: body) =>
      match parseAck connAckHandler false s.sender (body ++ rest) with
      | (sender, .ok _) => some { s with sender }
      | (sender, .error _) => some { s with sender, refused := true }
    | _ => none

def system : System State Op := ⟨{}, step⟩

/-- A frame was written by the receiver as it once was. -/
def Written (processed : List ℕ) (frame : Bytes) : Prop :=
  ∃ r ackDelay, Received.Inv r ∧ r.processed ⊆ processed ∧ ackDelay ≤ maxVarint ∧
    frame = r.acks.buildACK ackDelay

structure Inv (s : State) : Prop where
  receiver : Received.Inv s.receiver
  sent : ∀ x ∈ s.receiver.processed, x < s.sender.sendPN
  frames : ∀ b ∈ s.frames, Written s.receiver.processed b
  acked : ∀ x, InRanges s.sender.acked x → x ∈ s.receiver.processed
  accepted : s.refused = false

variable {s s' : State}

theorem Inv.deliver (h : Inv s) {pn : ℕ} (hpn : pn < s.sender.sendPN ∧ pn ≤ maxVarint)
    (ackEliciting : Bool) : Inv { s with receiver := arrive s.receiver pn ackEliciting } := by
  have hprocessed : s.receiver.processed ⊆ (arrive s.receiver pn ackEliciting).processed ∧
      ∀ x ∈ (arrive s.receiver pn ackEliciting).processed, x < s.sender.sendPN := by
    unfold arrive
    split_ifs
    · exact ⟨List.Subset.refl _, h.sent⟩
    · refine ⟨List.subset_append_left _ _, ?_⟩
      exact List.forall_mem_append.mpr ⟨h.sent, List.forall_mem_singleton.mpr hpn.1⟩
  rcases hprocessed with ⟨hsub, hsent⟩
  refine ⟨(h.receiver.arrive hpn.2 ackEliciting).1, hsent, ?_, ?_, h.accepted⟩
  · intro b hb
    rcases h.frames b hb with ⟨r, ackDelay, hr, hold, hframe⟩
    exact ⟨r, ackDelay, hr, List.Subset.trans hold hsub, hframe⟩
  · exact fun x hx => hsub (h.acked x hx)

/-- A frame is taken in, however old. -/
theorem Inv.parsed (h : Inv s) {t : UInt8} {body : Bytes} (hb : t :: body ∈ s.frames)
    (rest : Bytes) : ∃ ranges low, (∀ x, InRanges ranges x → x ∈ s.receiver.processed) ∧
      parseAck connAckHandler false s.sender (body ++ rest) =
        ({ s.sender with acked := s.sender.acked ++ ranges, ackLow := low }, .ok rest) := by
  rcases h.frames _ hb with ⟨r, ackDelay, hr, hold, hdelay, hframe⟩
  have hne : r.processed ≠ [] := by
    -- who has processed nothing writes no frame
    intro hnil
    have hranges : r.acks.ranges = [] := by
      refine List.eq_nil_iff_forall_not_mem.mpr fun range hmem => ?_
      have hlo := hr.only range.lo ⟨range, hmem, le_rfl, hr.canonical.ordered range hmem⟩
      simp [hnil] at hlo
    simp [AckTracker.buildACK, hranges] at hframe
  rcases hr.truthful.frame s.sender ackDelay rest hdelay (fun x hx => h.sent x (hold hx)) hne
    with ⟨_, low, hbuild, hparse⟩
  rw [hbuild] at hframe
  cases hframe
  exact ⟨r.acks.ranges, low, fun x hx => hold (hr.only x hx), hparse⟩

theorem Inv.step {op : Op} (h : Inv s) (hs : step s op = some s') : Inv s' := by
  cases op with
  | send =>
    cases hs
    exact { h with sent := fun x hx => Nat.lt_succ_of_lt (h.sent x hx) }
  | deliver pn ackEliciting =>
    simp only [AckExchange.step, guarded] at hs
    rcases hs with ⟨hpn, rfl⟩
    exact h.deliver hpn ackEliciting
  | sendAck ackDelay =>
    simp only [AckExchange.step, guarded] at hs
    rcases hs with ⟨hdelay, rfl⟩
    refine { h with receiver := { h.receiver with }, frames := ?_ }
    refine List.forall_mem_append.mpr ⟨h.frames, List.forall_mem_singleton.mpr ?_⟩
    exact ⟨s.receiver, ackDelay, h.receiver, List.Subset.refl _, hdelay, rfl⟩
  | deliverAck i rest =>
    simp only [AckExchange.step] at hs
    split at hs
    · next body hframe =>
      rcases h.parsed (List.mem_of_getElem? hframe) rest with ⟨ranges, low, honly, hparse⟩
      rw [hparse] at hs
      cases hs
      exact { h with acked := fun x hx => (inRanges_append.mp hx).elim (h.acked x) (honly x) }
    · cases hs

theorem inv_of_reachable (h : system.Reachable s) : Inv s := by
  refine h.invariant ?_ ?_
  · exact ⟨Received.inv_init, by simp [system, Received.init], by simp [system],
      fun x hx => absurd hx (not_inRanges_nil x), rfl⟩
  · exact fun _ _ _ hinv _ hstep => hinv.step hstep

theorem acknowledged_truthfully (h : system.Reachable s) : s.refused = false ∧
    (∀ x, InRanges s.sender.acked x → x ∈ s.receiver.processed ∧ x < s.sender.sendPN) ∧
    ∀ rest, s.receiver.processed ≠ [] →
      ∃ s', system.run s [.sendAck 0, .deliverAck s.frames.length rest] = some s' ∧
        ∀ x ∈ s.receiver.processed, s.receiver.acks.lowWater ≤ x → InRanges s'.sender.acked x := by
  have hinv := inv_of_reachable h
  refine ⟨hinv.accepted, fun x hx => ⟨hinv.acked x hx, hinv.sent x (hinv.acked x hx)⟩, ?_⟩
  intro rest hne
  have htruth := hinv.receiver.truthful
  rcases htruth.frame s.sender 0 rest (by decide) hinv.sent hne with ⟨_, _, hbuild, hparse⟩
  refine ⟨_, by simp [System.run, system, step, hbuild, hparse]; rfl, ?_⟩
  exact fun x hx hle => inRanges_append.mpr (.inr (htruth.kept x hx hle))

theorem acknowledged_reordered :
    ∃ s, system.run {} [.send, .send, .deliver 1 true, .sendAck 0, .deliver 0 true, .sendAck 0,
        .deliverAck 1 [], .deliverAck 0 []] = some s ∧
      s.sender.acked = [⟨0, 1⟩, ⟨1, 1⟩] ∧ s.refused = false := by
  apply System.exists_run_known
  · intro s hs
    exact (acknowledged_truthfully (System.reachable_of_run hs)).1
  · decide +kernel

end Quic.AckExchange
