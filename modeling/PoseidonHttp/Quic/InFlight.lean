import PoseidonHttp.Lib.Transition
import PoseidonHttp.Quic.Recovery
import Mathlib.Algebra.BigOperators.Group.List.Basic

/-!
# Bytes in flight

The congestion controller keeps one number for the bytes in flight, while the packets it
stands for are kept in three spaces and leave them through an acknowledgment, a loss, a
probe, a Retry or the discarding of a space. `Balanced` says that the number is the sum over
the packets. Every way out is a `Leaves`: packets leave one space, and the number falls by
what they weigh. That is all the invariant needs to know of them. Where their frames go is
said along with it, for those who follow the frames.
-/

namespace Quic

open Transition
open Function (update_self update_of_ne update)

namespace Recovery

/-- What the ack-eliciting packets of a list weigh. -/
def flight (packets : List Entry) : ℕ :=
  ((packets.filter fun e => e.2.ackEliciting).map fun e => e.2.size).sum

@[simp] theorem flight_nil : flight [] = 0 := rfl

@[simp] theorem flight_cons (e : Entry) (packets : List Entry) :
    flight (e :: packets) = (if e.2.ackEliciting then e.2.size else 0) + flight packets := by
  by_cases h : e.2.ackEliciting <;> simp [flight, h]

@[simp] theorem flight_append (xs ys : List Entry) : flight (xs ++ ys) = flight xs + flight ys := by
  simp [flight]

theorem flight_perm {xs ys : List Entry} (h : xs.Perm ys) : flight xs = flight ys :=
  ((h.filter _).map _).sum_eq

/-- What is in flight over the three spaces. -/
def inFlight (r : Recovery) : ℕ :=
  flight (r.sent .initial).packets + flight (r.sent .handshake).packets +
    flight (r.sent .app).packets

theorem flight_le_inFlight (r : Recovery) (sp : Space) :
    flight (r.sent sp).packets ≤ r.inFlight := by
  cases sp <;> simp only [inFlight] <;> omega

/-- The number kept for the bytes in flight is what the packets weigh, it was never cut at
zero, and packet numbers are used once. -/
structure Balanced (r : Recovery) : Prop where
  exact : r.bytesInFlight = r.inFlight
  unsaturated : r.saturated = false
  fresh : ∀ sp, ∀ e ∈ (r.sent sp).packets, e.1 < r.sendPN sp
  nodup : ∀ sp, ((r.sent sp).packets.map Prod.fst).Nodup

/-! ## Leaving the flight -/

/-- `n` bytes leave the number, and the packets and all that carries data stay. -/
structure Freed (n : ℕ) (r r' : Recovery) : Prop where
  sendPN : r'.sendPN = r.sendPN
  packets : ∀ sp, (r'.sent sp).packets = (r.sent sp).packets
  queue : r'.retransQueue = r.retransQueue
  free : r'.retransFree = r.retransFree
  heap : r'.heap = r.heap
  sealedLog : r'.sealedLog = r.sealedLog
  ackedLog : r'.ackedLog = r.ackedLog
  saturated : r'.saturated = r.saturated
  bytes : r'.bytesInFlight + n = r.bytesInFlight

namespace Freed

theorem refl (r : Recovery) : Freed 0 r r :=
  ⟨rfl, fun _ => rfl, rfl, rfl, rfl, rfl, rfl, rfl, rfl⟩

theorem trans {n m : ℕ} {r s t : Recovery} (h : Freed n r s) (h' : Freed m s t) :
    Freed (n + m) r t where
  sendPN := h'.sendPN.trans h.sendPN
  packets := fun sp => (h'.packets sp).trans (h.packets sp)
  queue := h'.queue.trans h.queue
  free := h'.free.trans h.free
  heap := h'.heap.trans h.heap
  sealedLog := h'.sealedLog.trans h.sealedLog
  ackedLog := h'.ackedLog.trans h.ackedLog
  saturated := h'.saturated.trans h.saturated
  bytes := by
    have hs := h.bytes
    have ht := h'.bytes
    omega

end Freed

variable {r : Recovery}

theorem removeInFlight_freed {size : ℕ} (h : size ≤ r.bytesInFlight) :
    Freed size r (r.removeInFlight size) := by
  unfold removeInFlight
  rw [if_pos h]
  exact { Freed.refl r with bytes := Nat.sub_add_cancel h }

theorem onPacketAcked_freed {p : SentPacket} (limited : Bool)
    (h : p.size ≤ r.bytesInFlight) : Freed p.size r (r.onPacketAcked p limited) := by
  have hfreed := removeInFlight_freed h
  -- after the subtraction only the window moves
  unfold onPacketAcked
  dsimp only
  split_ifs <;> exact { hfreed with }

/-- A loop that takes ack-eliciting packets out of flight, one call each. -/
theorem foldl_freed {leave : Recovery → Entry → Recovery}
    (hleave : ∀ r e, e.2.size ≤ r.bytesInFlight → Freed e.2.size r (leave r e))
    (packets : List Entry) (r : Recovery) (h : flight packets ≤ r.bytesInFlight) :
    Freed (flight packets) r ((packets.filter fun e => e.2.ackEliciting).foldl leave r) := by
  induction packets generalizing r with
  | nil => exact Freed.refl r
  | cons e packets ih =>
    rw [flight_cons] at h ⊢
    by_cases he : e.2.ackEliciting
    · simp only [he, if_true, List.filter_cons, List.foldl_cons] at h ⊢
      have hfirst := hleave r e (by omega)
      have hbytes := hfirst.bytes
      exact hfirst.trans (ih _ (by omega))
    · simp only [he, Bool.false_eq_true, if_false, List.filter_cons, Nat.zero_add] at h ⊢
      exact ih r h

theorem removeAll_freed {packets : List Entry}
    (h : flight packets ≤ r.bytesInFlight) : Freed (flight packets) r (r.removeAll packets) :=
  foldl_freed (fun _ _ => removeInFlight_freed) packets r h

theorem onCongestionEvent_freed (r : Recovery) (sentTime now : ℤ) :
    Freed 0 r (r.onCongestionEvent sentTime now) := by
  unfold onCongestionEvent
  split_ifs <;> exact { Freed.refl r with }

theorem onPersistentCongestion_freed (r : Recovery) : Freed 0 r r.onPersistentCongestion := by
  unfold onPersistentCongestion
  split_ifs <;> exact { Freed.refl r with }

theorem onLosses_freed (r : Recovery) (sp : Space) (lost : List Entry) (now : ℤ) :
    Freed 0 r (r.onLosses sp lost now) := by
  unfold onLosses
  dsimp only
  split
  · exact Freed.refl r
  · rename_i newest _
    have hevent := onCongestionEvent_freed r newest now
    split
    · split_ifs
      · exact hevent.trans (onPersistentCongestion_freed _)
      · exact hevent
    · exact hevent

/-- The packets `out` leave the space `sp`, and the number falls by what they weigh. -/
structure Leaves (sp : Space) (out : List Entry) (r r' : Recovery) : Prop where
  sendPN : r'.sendPN = r.sendPN
  packets : (r.sent sp).packets.Perm (out ++ (r'.sent sp).packets)
  others : ∀ other, other ≠ sp → (r'.sent other).packets = (r.sent other).packets
  saturated : r'.saturated = r.saturated
  bytes : r'.bytesInFlight + flight out = r.bytesInFlight

variable {sp : Space}

/-- One space changes and a total over the spaces follows it. -/
theorem total_of_others {g g' : Space → ℕ} (h : ∀ other, other ≠ sp → g' other = g other) :
    g' .initial + g' .handshake + g' .app + g sp = g .initial + g .handshake + g .app + g' sp := by
  cases sp with
  | initial =>
    rw [h .handshake (by decide), h .app (by decide)]
    omega
  | handshake =>
    rw [h .initial (by decide), h .app (by decide)]
    omega
  | app =>
    rw [h .initial (by decide), h .handshake (by decide)]
    omega

theorem inFlight_of_others {r r' : Recovery}
    (h : ∀ other, other ≠ sp → (r'.sent other).packets = (r.sent other).packets) :
    r'.inFlight + flight (r.sent sp).packets = r.inFlight + flight (r'.sent sp).packets :=
  total_of_others fun other ho =>
    congrArg flight (h other ho)

namespace Balanced

theorem leaves {r r' : Recovery} {out : List Entry} (hb : r.Balanced)
    (h : Leaves sp out r r') : r'.Balanced := by
  constructor
  · have htotal := inFlight_of_others h.others
    have hsplit := flight_perm h.packets
    rw [flight_append] at hsplit
    have hbytes := h.bytes
    have hexact := hb.exact
    omega
  · exact h.saturated.trans hb.unsaturated
  · intro other e he
    rw [h.sendPN]
    by_cases ho : other = sp
    · subst ho
      exact hb.fresh other e (h.packets.symm.subset (List.mem_append_right out he))
    · exact hb.fresh other e (h.others other ho ▸ he)
  · intro other
    by_cases ho : other = sp
    · subst ho
      have hnodup := (h.packets.map Prod.fst).nodup_iff.mp (hb.nodup other)
      rw [List.map_append] at hnodup
      exact hnodup.of_append_right
    · rw [h.others other ho]
      exact hb.nodup other

theorem flight_le (hb : r.Balanced) (sp : Space) :
    flight (r.sent sp).packets ≤ r.bytesInFlight :=
  hb.exact ▸ r.flight_le_inFlight sp

theorem flight_filter_le (hb : r.Balanced) (sp : Space) (test : Entry → Bool) :
    flight ((r.sent sp).packets.filter test) ≤ r.bytesInFlight := by
  have hsplit := flight_perm (List.filter_append_perm test (r.sent sp).packets)
  rw [flight_append] at hsplit
  have hle := hb.flight_le sp
  omega

end Balanced

/-- The packets and the number stand as they were. -/
structure SameFlight (r r' : Recovery) : Prop where
  sendPN : r'.sendPN = r.sendPN
  packets : ∀ sp, (r'.sent sp).packets = (r.sent sp).packets
  saturated : r'.saturated = r.saturated
  bytes : r'.bytesInFlight = r.bytesInFlight

variable {e : Entry} {packets : List Entry} {r r' : Recovery} {sp : Space}

theorem Balanced.same (hb : r.Balanced) (h : SameFlight r r') : r'.Balanced := by
  have hleaves : Leaves .app [] r r' :=
    ⟨h.sendPN, by rw [h.packets, List.nil_append], fun sp _ => h.packets sp, h.saturated, h.bytes⟩
  exact hb.leaves hleaves

theorem Freed.same (h : Freed 0 r r') : SameFlight r r' :=
  ⟨h.sendPN, h.packets, h.saturated, h.bytes⟩

theorem setQueue_same (r : Recovery) (sp : Space) (queue : List RetransFrame) :
    SameFlight r (r.setQueue sp queue) :=
  ⟨rfl, fun _ => rfl, rfl, rfl⟩

/-- A space changes and keeps its packets. -/
theorem update_packets {s : SentSpace} (h : s.packets = (r.sent sp).packets) (other : Space) :
    (update r.sent sp s other).packets = (r.sent other).packets := by
  by_cases ho : other = sp
  · subst ho
    rw [update_self, h]
  · rw [update_of_ne ho]

theorem pruneAcked_freed (r : Recovery) (sp : Space) :
    Freed 0 r { r with sent := update r.sent sp (pruneAcked (r.sent sp)) } := by
  have hprune : (pruneAcked (r.sent sp)).packets = (r.sent sp).packets := by
    unfold pruneAcked
    split <;> rfl
  exact { Freed.refl r with packets := update_packets hprune }

/-! ## The ways out -/

/-- The frame refers to the buffer. -/
def holds (b : ℕ) (f : RetransFrame) : Bool := decide (f.data = some b)

/-- A frame in hand counts as one more reference to its buffer. -/
def inHand (hand : Option ℕ) (b : ℕ) : ℕ := if hand = some b then 1 else 0

/-- The bytes of a frame depend on the heap only. -/
theorem carried_congr (h : r'.heap = r.heap) (f : RetransFrame) : r'.carried f = r.carried f := by
  simp only [carried, payload, h]

/-- The packets `out` leave the space `sp`, and their frames wait to be sent again. -/
structure Requeues (sp : Space) (out : List Entry) (r r' : Recovery) : Prop
    extends Leaves sp out r r' where
  queue : r'.retransQueue sp = r.retransQueue sp ++ out.filterMap fun e => e.2.frame
  otherQueues : ∀ other, other ≠ sp → r'.retransQueue other = r.retransQueue other
  heap : r'.heap = r.heap
  free : r'.retransFree = r.retransFree
  sealedLog : r'.sealedLog = r.sealedLog
  ackedLog : r'.ackedLog = r.ackedLog

/-- The packets `out` leave the space `sp`, their frames for the log and their buffers for the free
list. -/
structure Acks (sp : Space) (out : List Entry) (r r' : Recovery) : Prop
    extends Leaves sp out r r' where
  queue : r'.retransQueue = r.retransQueue
  heap : r'.heap = r.heap
  free : ∀ b, r'.retransFree.count b ≤
    r.retransFree.count b + (out.filterMap fun e => e.2.frame).countP (holds b)
  sealedLog : r'.sealedLog = r.sealedLog
  ackedLog : r'.ackedLog = r.ackedLog ++ (out.filterMap fun e => e.2.frame).map r.carried

/-- Packets that leave, one space and one reason after the other. -/
inductive Releases (r : Recovery) : Recovery → Prop
  | refl : Releases r r
  | requeue {s t : Recovery} (sp : Space) (out : List Entry) (h : Releases r s)
    (hstep : Requeues sp out s t) : Releases r t
  | ack {s t : Recovery} {sp : Space} {out : List Entry} (h : Releases r s)
    (hstep : Acks sp out s t) : Releases r t

theorem Releases.balanced (hb : r.Balanced) (h : Releases r r') : r'.Balanced := by
  induction h with
  | refl => exact hb
  | requeue _ _ _ hstep ih => exact ih.leaves hstep.toLeaves
  | ack _ hstep ih => exact ih.leaves hstep.toLeaves

/-- What moves neither packets nor frames. -/
theorem Releases.freed {s : Recovery} (h : Releases r s) (hfreed : Freed 0 s r') : Releases r r' := by
  refine .requeue .app [] h ⟨⟨hfreed.sendPN, ?_, fun sp _ => hfreed.packets sp,
    hfreed.saturated, hfreed.bytes⟩, ?_, ?_, hfreed.heap, hfreed.free, hfreed.sealedLog, hfreed.ackedLog⟩
  · rw [hfreed.packets, List.nil_append]
  · rw [hfreed.queue, List.filterMap_nil, List.append_nil]
  · intro other _
    rw [hfreed.queue]

theorem retransPut_spec (r : Recovery) (d : Option ℕ) :
    ∃ free, r.retransPut d = { r with retransFree := free } ∧
      ∀ b, free.count b ≤ r.retransFree.count b + inHand d b := by
  unfold retransPut
  split
  · exact ⟨r.retransFree, rfl, fun _ => Nat.le_add_right _ _⟩
  rename_i d
  dsimp only
  split_ifs
  · exact ⟨r.retransFree, rfl, fun _ => Nat.le_add_right _ _⟩
  · refine ⟨d :: r.retransFree, rfl, ?_⟩
    intro b
    by_cases hd : d = b
    · simp [inHand, hd]
    · simp [inHand, hd]

/-- The free list grows by buffers of the acknowledged packets only. -/
theorem foldl_retransPut_spec (acked : List Entry) (r : Recovery) :
    ∃ free, acked.foldl (fun r e => r.retransPut (e.2.frame.bind fun f => f.data)) r =
        { r with retransFree := free } ∧
      ∀ b, free.count b ≤
        r.retransFree.count b + (acked.filterMap fun e => e.2.frame).countP (holds b) := by
  induction acked generalizing r with
  | nil => exact ⟨r.retransFree, rfl, fun _ => Nat.le_add_right _ _⟩
  | cons e acked ih =>
    rcases retransPut_spec r (e.2.frame.bind fun f => f.data) with ⟨free, hfirst, hcount⟩
    rcases ih { r with retransFree := free } with ⟨free', hrest, hcount'⟩
    refine ⟨free', by rw [List.foldl_cons, hfirst, hrest], ?_⟩
    intro b
    have hput := hcount b
    have hputs := hcount' b
    dsimp only at hputs
    cases hframe : e.2.frame with
    | none =>
      simp only [hframe, Option.bind_none, inHand, reduceCtorEq, if_false, List.filterMap_cons]
        at hput ⊢
      omega
    | some f =>
      simp only [hframe, Option.bind_some, List.filterMap_cons, List.countP_cons, inHand, holds,
        decide_eq_true_eq] at hput hputs ⊢
      omega

/-- The credit for a range is what its packets weigh. -/
theorem creditAcked_freed (hb : r.Balanced) (sp : Space) (low high : ℕ) (limited : Bool) :
    Freed (flight ((r.sent sp).packets.filter (inRange low high))) r
      (r.creditAcked sp low high limited) := by
  have hleave : ∀ (r : Recovery) (e : Entry), e.2.size ≤ r.bytesInFlight →
      Freed e.2.size r (r.onPacketAcked e.2 limited) := fun _ _ h => onPacketAcked_freed limited h
  have hfreed := foldl_freed hleave _ r (hb.flight_filter_le sp (inRange low high))
  refine { hfreed with packets := ?_ }
  intro other
  rw [← hfreed.packets other]
  apply update_packets
  rfl

/-- An acknowledged range takes its packets out of the space, once they are credited. -/
theorem ack_acks {low high : ℕ}
    (h : Freed (flight ((r.sent sp).packets.filter (inRange low high))) r r') :
    Acks sp ((r.sent sp).packets.filter (inRange low high)) r (r'.ack sp low high).2 := by
  unfold ack
  dsimp only
  rw [h.packets]
  rcases foldl_retransPut_spec ((r.sent sp).packets.filter (inRange low high)) _ with
    ⟨free, hput, hcount⟩
  rw [hput]
  refine ⟨⟨h.sendPN, ?_, ?_, h.saturated, h.bytes⟩, h.queue, h.heap, ?_, h.sealedLog, ?_⟩
  · simp only [update_self]
    exact (List.filter_append_perm (inRange low high) (r.sent sp).packets).symm
  · intro other ho
    rw [← h.packets other]
    simp only [update_of_ne ho]
  · exact h.free ▸ hcount
  · have hcarried : r'.carried = r.carried := funext (carried_congr h.heap)
    rw [h.ackedLog, hcarried]

theorem onAckRange_acks (hb : r.Balanced) (sp : Space) (low high : ℕ) (ackDelay : ℤ) (prior : ℕ)
    (now : ℤ) :
    Acks sp ((r.sent sp).packets.filter (inRange low high)) r
      (r.onAckRange sp low high ackDelay prior now) := by
  have hack := ack_acks (creditAcked_freed hb sp low high (r.cwndLimited prior))
  unfold onAckRange
  split
  · rename_i r' hres
    rw [hres] at hack
    exact hack
  · -- the sample moves the estimates only
    rename_i sendTime r' hres
    rw [hres] at hack
    exact { hack with }

/-- Ranges may repeat and overlap: what an earlier one took is not there for a later one. -/
theorem onAckFrame_releases (hb : r.Balanced) (sp : Space) (ranges : List (ℕ × ℕ))
    (ackDelay now : ℤ) : Releases r (r.onAckFrame sp ranges ackDelay now) := by
  have hloop : ∀ (rest : List (ℕ × ℕ)) (s : Recovery), Releases r s → Releases r
      (rest.foldl (fun s range => s.onAckRange sp range.1 range.2 0 r.bytesInFlight now) s) := by
    intro rest
    induction rest with
    | nil => exact fun _ h => h
    | cons range rest ih =>
      intro s h
      exact ih _ (h.ack (onAckRange_acks (h.balanced hb) sp range.1 range.2 0 r.bytesInFlight now))
  unfold onAckFrame
  split
  · exact .refl
  · exact hloop _ _ (.ack .refl (onAckRange_acks hb sp _ _ _ _ _))

/-- Packets taken out of flight and out of their space, with their frames queued. -/
theorem removeAll_requeues (hb : r.Balanced) {out kept : List Entry}
    (h : (r.sent sp).packets.Perm (out ++ kept)) :
    Requeues sp out r (((r.removeAll out).setPackets sp kept).setQueue sp
      (r.retransQueue sp ++ out.filterMap fun e => e.2.frame)) := by
  have hfreed : Freed (flight out) r (r.removeAll out) := by
    apply removeAll_freed
    have hle := hb.flight_le sp
    rw [flight_perm h, flight_append] at hle
    omega
  refine ⟨⟨hfreed.sendPN, ?_, ?_, hfreed.saturated, hfreed.bytes⟩, ?_, ?_, hfreed.heap, hfreed.free,
    hfreed.sealedLog, hfreed.ackedLog⟩
  · simp only [setQueue, setPackets, update_self]
    exact h
  · intro other ho
    simp only [setQueue, setPackets, update_of_ne ho, hfreed.packets]
  · simp only [setQueue, update_self]
  · intro other ho
    simp only [setQueue, setPackets, update_of_ne ho, hfreed.queue]

theorem detectLost_releases (hb : r.Balanced) (sp : Space) (now : ℤ) :
    Releases r (r.detectLost sp now) := by
  unfold detectLost
  split_ifs
  · exact .refl
  · have hlost := removeAll_requeues hb
      (List.filter_append_perm (r.isLost sp now) (r.sent sp).packets).symm
    exact ((Releases.refl.requeue sp _ hlost).freed (onLosses_freed _ sp _ now)).freed
      (pruneAcked_freed _ sp)

/-- The oldest probe is one of the packets, and it elicits an acknowledgment. -/
theorem oldestProbe_spec (h : oldestProbe packets = some e) :
    e ∈ packets ∧ e.2.ackEliciting = true := by
  -- the loop keeps what it holds or takes an eligible packet of the list
  have hloop : ∀ (rest : List Entry) (oldest : Option Entry),
      (∀ o ∈ oldest, o ∈ packets ∧ o.2.ackEliciting = true) → (∀ x ∈ rest, x ∈ packets) →
      ∀ o ∈ rest.foldl probeStep oldest, o ∈ packets ∧ o.2.ackEliciting = true := by
    intro rest
    induction rest with
    | nil => exact fun _ hold _ => hold
    | cons x rest ih =>
      intro oldest hold hrest
      apply ih
      · intro o ho
        rcases probeStep_cases oldest x with hkeep | ⟨htake, helig⟩
        · exact hold o (hkeep ▸ ho)
        · rw [htake, Option.mem_some_iff] at ho
          exact ho ▸ ⟨hrest x (by simp), helig⟩
      · exact fun y hy => hrest y (by simp [hy])
  exact hloop packets none (by simp) (fun _ hx => hx) e h

/-- Deleting a number deletes one packet. -/
theorem perm_delete (hnodup : (packets.map Prod.fst).Nodup) (hmem : e ∈ packets) :
    packets.Perm (e :: packets.filter fun x => decide (x.1 ≠ e.1)) := by
  have herase : (packets.filter fun x => decide (x.1 ≠ e.1)) = packets.erase e := by
    rw [hnodup.of_map.erase_eq_filter]
    apply List.filter_congr
    intro x hx
    -- no other packet has the number
    have hiff : x.1 = e.1 ↔ x = e := ⟨List.inj_on_of_nodup_map hnodup hx hmem, congrArg Prod.fst⟩
    rw [Bool.eq_iff_iff]
    simp [hiff]
  rw [herase]
  exact List.perm_cons_erase hmem

theorem queueOldestProbe_releases {s : Recovery} (hb : r.Balanced) (h : Releases s r) (sp : Space) :
    Releases s (r.queueOldestProbe sp).2 := by
  unfold queueOldestProbe
  split
  · exact h
  rename_i pn p hprobe
  rcases oldestProbe_spec hprobe with ⟨hmem, helicit⟩
  -- a probe is taken out of flight like a lost packet, only in another order
  have hperm : (r.sent sp).packets.Perm ([(pn, p)] ++ _) := perm_delete (hb.nodup sp) hmem
  have hout := removeAll_requeues hb hperm
  have hone : r.removeAll [(pn, p)] = r.removeInFlight p.size := by
    simp [removeAll, show p.ackEliciting = true from helicit]
  have hframe : [(pn, p)].filterMap (fun e => e.2.frame) = p.frame.toList := by
    cases hp : p.frame <;> simp [hp]
  rw [hone] at hout
  have hqueue : (r.setQueue sp (r.retransQueue sp ++ p.frame.toList)).removeInFlight p.size =
      (r.removeInFlight p.size).setQueue sp (r.retransQueue sp ++ p.frame.toList) := by
    unfold removeInFlight setQueue
    split_ifs <;> rfl
  have hsent : (r.removeInFlight p.size).sent = r.sent := by
    unfold removeInFlight
    split_ifs <;> rfl
  dsimp only
  rw [hqueue]
  dsimp only [setQueue, setPackets] at hout ⊢
  rw [hsent] at hout ⊢
  exact h.requeue sp _ hout

theorem queueProbes_releases (hb : r.Balanced) (spaces : List Space) :
    ∀ s, Releases r s → Releases r (s.queueProbes spaces).2 := by
  induction spaces with
  | nil => exact fun _ h => h
  | cons sp rest ih =>
    intro s h
    simp only [queueProbes]
    split_ifs
    · exact ih _ (queueOldestProbe_releases (h.balanced hb) h sp)
    · exact ih s h

theorem onPTO_releases (hb : r.Balanced) : Releases r r.onPTO := by
  have hprobes := queueProbes_releases hb spaces r .refl
  -- what follows the loop sets flags and the backoff
  unfold onPTO
  dsimp only
  split_ifs <;> exact hprobes.freed { Freed.refl _ with }

theorem requeueInitialForRetry_releases (hb : r.Balanced) : Releases r r.requeueInitialForRetry := by
  apply Releases.refl.requeue .initial (r.sent .initial).packets
  exact removeAll_requeues hb (by rw [List.append_nil])

theorem setPackets_releases (h : packets.Perm (r.sent sp).packets) :
    Releases r (r.setPackets sp packets) := by
  refine .requeue sp [] .refl ⟨⟨rfl, ?_, ?_, rfl, rfl⟩, ?_, fun _ _ => rfl, rfl, rfl, rfl, rfl⟩
  · simp only [setPackets, update_self]
    exact h.symm
  · intro other ho
    simp only [setPackets, update_of_ne ho]
  · rw [List.filterMap_nil, List.append_nil]
    rfl

theorem discardSpace_leaves (hb : r.Balanced) (sp : Space) :
    Leaves sp (r.sent sp).packets r (r.discardSpace sp) := by
  have hfreed := removeAll_freed (hb.flight_le sp)
  refine ⟨hfreed.sendPN, ?_, ?_, hfreed.saturated, hfreed.bytes⟩
  · simp only [discardSpace, update_self, SentSpace.empty, List.append_nil, List.Perm.refl]
  · intro other ho
    simp only [discardSpace, update_of_ne ho, hfreed.packets]

theorem scrubResetStreamData_balanced (hb : r.Balanced) (id : ℕ) :
    (r.scrubResetStreamData id).Balanced := by
  -- a packet that loses its frame keeps its number, its size and its place in flight
  have hflight : ∀ packets : List Entry,
      flight (packets.map fun e => (e.1, scrubPacket id e.2)) = flight packets := by
    intro packets
    induction packets with
    | nil => rfl
    | cons e packets ih =>
      rw [List.map_cons, flight_cons, flight_cons, ih]
      rfl
  constructor
  · have htotal : (r.scrubResetStreamData id).inFlight = r.inFlight := by
      simp [inFlight, scrubResetStreamData, setPackets, setQueue, hflight]
    exact hb.exact.trans htotal.symm
  · exact hb.unsaturated
  · intro sp e he
    cases sp with
    | app =>
      simp only [scrubResetStreamData, setPackets, setQueue, update_self,
        List.mem_map] at he
      rcases he with ⟨x, hx, rfl⟩
      exact hb.fresh .app x hx
    | initial => exact hb.fresh .initial e he
    | handshake => exact hb.fresh .handshake e he
  · intro sp
    cases sp with
    | app =>
      have happ := hb.nodup .app
      simpa [scrubResetStreamData, setPackets, setQueue, Function.comp_def] using happ
    | initial => exact hb.nodup .initial
    | handshake => exact hb.nodup .handshake

/-! ## Joining the flight -/

/-- A packet joins the space `sp` under the next number. -/
structure Adds (sp : Space) (p : SentPacket) (r r' : Recovery) : Prop where
  sendPN : r'.sendPN = update r.sendPN sp (r.sendPN sp + 1)
  packets : (r'.sent sp).packets = (r.sent sp).packets ++ [(r.sendPN sp, p)]
  others : ∀ other, other ≠ sp → (r'.sent other).packets = (r.sent other).packets
  saturated : r'.saturated = r.saturated
  bytes : r'.bytesInFlight = r.bytesInFlight + if p.ackEliciting then p.size else 0

theorem Balanced.adds {p : SentPacket} (hb : r.Balanced) (h : Adds sp p r r') : r'.Balanced := by
  constructor
  · have htotal := inFlight_of_others h.others
    rw [h.packets, flight_append, flight_cons, flight_nil] at htotal
    dsimp only at htotal
    have hbytes := h.bytes
    have hexact := hb.exact
    omega
  · exact h.saturated.trans hb.unsaturated
  · intro other e he
    by_cases ho : other = sp
    · subst ho
      rw [h.packets, List.mem_append, List.mem_singleton] at he
      rw [h.sendPN, update_self]
      rcases he with he | rfl
      · exact Nat.lt_succ_of_lt (hb.fresh other e he)
      · exact Nat.lt_succ_self _
    · rw [h.others other ho] at he
      rw [h.sendPN, update_of_ne ho]
      exact hb.fresh other e he
  · intro other
    by_cases ho : other = sp
    · subst ho
      -- the number is above every number in use
      have hnew : r.sendPN other ∉ (r.sent other).packets.map Prod.fst := by
        intro hmem
        rcases List.mem_map.mp hmem with ⟨e, he, heq⟩
        have hlt := hb.fresh other e he
        omega
      rw [h.packets, List.map_append, List.map_singleton, ← List.concat_eq_append]
      exact (hb.nodup other).concat hnew
    · rw [h.others other ho]
      exact hb.nodup other

/-- The size recorded with a packet: packets that elicit nothing are not counted. -/
def recordedSize (ackEliciting : Bool) : Sealing → ℕ
  | .sealed size _ => if ackEliciting then size else 0
  | _ => 0

theorem onSent_packets {pn : ℕ} (p : SentPacket) (hfresh : ∀ e ∈ (r.sent sp).packets, e.1 < pn) :
    ((r.onSent sp pn p).sent sp).packets = (r.sent sp).packets ++ [(pn, p)] := by
  have hkeep : ((r.sent sp).packets.filter fun e => decide (e.1 ≠ pn)) = (r.sent sp).packets := by
    apply List.filter_eq_self.mpr
    intro e he
    have hlt := hfresh e he
    simpa using Nat.ne_of_lt hlt
  simp only [onSent, setPackets, update_self, hkeep]

/-- A packet that was not refused joins its space, with its size when it was sealed. -/
theorem sealPacket_adds (hb : r.Balanced) (sp : Space) (ackEliciting : Bool)
    (frame : Option RetransFrame) {outcome : Sealing} (now : ℤ) (h : outcome ≠ .limit) :
    Adds sp ⟨now, recordedSize ackEliciting outcome, frame, ackEliciting⟩ r
      (r.sealPacket sp ackEliciting frame outcome now) := by
  have hrecorded : Adds sp ⟨now, 0, frame, ackEliciting⟩ r
      (({ r with sendPN := update r.sendPN sp (r.sendPN sp + 1) } : Recovery).onSent sp
        (r.sendPN sp) ⟨now, 0, frame, ackEliciting⟩) := by
    refine ⟨rfl, onSent_packets _ (hb.fresh sp), ?_, rfl, by simp [onSent, setPackets]⟩
    intro other ho
    simp only [onSent, setPackets, update_of_ne ho]
  cases outcome with
  | limit => exact absurd rfl h
  | failed => exact hrecorded
  | sealed size written =>
    cases ackEliciting with
    | false =>
      exact { hrecorded with }
    | true =>
      -- the size is written to the packet just recorded and to no other
      have hold : (r.sent sp).packets.map (fun e : Entry =>
          if e.1 = r.sendPN sp then (e.1, { e.2 with size := size }) else e) =
          (r.sent sp).packets := by
        have hsame : ∀ e ∈ (r.sent sp).packets,
            (if e.1 = r.sendPN sp then (e.1, { e.2 with size := size }) else e) = id e :=
          fun e he => if_neg (Nat.ne_of_lt (hb.fresh sp e he))
        rw [List.map_congr_left hsame, List.map_id]
      refine ⟨hrecorded.sendPN, ?_, ?_, hrecorded.saturated, ?_⟩
      · simp only [sealPacket, onPacketSent, setPackets, hrecorded.packets,
          List.map_append, hold]
        simp [recordedSize]
      · intro other ho
        simp only [sealPacket, onPacketSent, setPackets]
        simp [update_of_ne ho, hrecorded.others other ho]
      · simp [sealPacket, onPacketSent, setPackets, onSent, recordedSize]

theorem sealPacket_balanced (hb : r.Balanced) (sp : Space) (ackEliciting : Bool)
    (frame : Option RetransFrame) (outcome : Sealing) (now : ℤ) :
    (r.sealPacket sp ackEliciting frame outcome now).Balanced := by
  by_cases h : outcome = .limit
  · subst h
    exact hb
  · exact hb.adds (sealPacket_adds hb sp ackEliciting frame now h)

theorem flushRetransmits_balanced (hb : r.Balanced) (sp : Space)
    (resend : RetransFrame → Option RetransFrame) (wire : Wire) :
    (r.flushRetransmits sp resend wire).Balanced := by
  apply flushRetransmits_keeps _ _ _ hb
  · intro r hb
    exact hb.same ⟨rfl, fun _ => rfl, rfl, rfl⟩
  · intro r f queue hb _ _
    exact hb.same (setQueue_same r sp queue)
  · intro r f queue f' hb _ _
    exact sealPacket_balanced (hb.same (setQueue_same r sp queue)) sp true (some f') _ _

/-! ## The steps of a connection -/

/-- A connection with the controller it was made with. -/
def system (bbr : Bool) : System Recovery Op := ⟨new bbr, step⟩

theorem new_balanced (bbr : Bool) : (new bbr).Balanced :=
  ⟨rfl, rfl, by simp [new, SentSpace.empty], by simp [new, SentSpace.empty]⟩

theorem step_balanced {op : Op} (hb : r.Balanced) (h : r.step op = some r') :
    r'.Balanced := by
  -- a step that moves neither packets nor the number
  have hflags : ∀ s : Recovery, SameFlight r s → s.Balanced := fun s hs => hb.same hs
  cases op <;> simp only [step, Option.some.injEq, Option.ite_none_right_eq_some] at h
  case bbrSetWindow => exact h.2 ▸ hflags _ ⟨rfl, fun _ => rfl, rfl, rfl⟩
  case reorder => exact h.2 ▸ (setPackets_releases h.1).balanced hb
  all_goals subst h
  case sealPacket sp ackEliciting frame outcome now =>
    exact sealPacket_balanced hb sp ackEliciting frame outcome now
  case ackFrame sp ranges ackDelay now =>
    exact (onAckFrame_releases hb sp ranges ackDelay now).balanced hb
  case detectLost sp now => exact (detectLost_releases hb sp now).balanced hb
  case onPTO => exact (onPTO_releases hb).balanced hb
  case retry => exact (requeueInitialForRetry_releases hb).balanced hb
  case scrub id => exact scrubResetStreamData_balanced hb id
  case discardSpace sp => exact hb.leaves (discardSpace_leaves hb sp)
  case flushRetransmits sp resend wire => exact flushRetransmits_balanced hb sp resend wire
  case queueRetire seq => exact hflags _ (setQueue_same r .app _)
  case handshakeDone =>
    have hdone := hflags { r with handshakeComplete := true, handshakeConfirmed := true }
      ⟨rfl, fun _ => rfl, rfl, rfl⟩
    exact hdone.leaves (discardSpace_leaves hdone .handshake)
  all_goals exact hflags _ ⟨rfl, fun _ => rfl, rfl, rfl⟩

theorem reachable_balanced (bbr : Bool) (h : (system bbr).Reachable r) :
    r.Balanced := by
  refine h.invariant ?_ ?_
  · exact new_balanced bbr
  · intro s op s' hb _ hstep
    exact step_balanced hb hstep

/-- Whatever the connection does, the bytes in flight are what its ack-eliciting packets weigh,
the subtraction was never cut at zero, and with no such packet outstanding nothing is in
flight. -/
theorem bytesInFlight_exact (bbr : Bool) {r : Recovery} (h : (system bbr).Reachable r) :
    r.bytesInFlight = r.inFlight ∧ r.saturated = false ∧
      ((∀ sp, ∀ e ∈ (r.sent sp).packets, e.2.ackEliciting = false) → r.bytesInFlight = 0) := by
  have hb := reachable_balanced bbr h
  refine ⟨hb.exact, hb.unsaturated, ?_⟩
  intro hidle
  have hnone : ∀ sp, flight (r.sent sp).packets = 0 := by
    intro sp
    have hfilter : ((r.sent sp).packets.filter fun e => e.2.ackEliciting) = [] :=
      List.filter_eq_nil_iff.mpr fun e he => by simp [hidle sp e he]
    simp [flight, hfilter]
  rw [hb.exact, inFlight, hnone, hnone, hnone]

/-- Packets in all three spaces, one of them a bare ACK; an ACK frame whose ranges overlap, a
loss and its resend, a probe, and the end of two spaces leave 1200 bytes in flight. -/
theorem bytesInFlight_exact_handshake :
    ∃ r, (system false).Reachable r ∧ r.bytesInFlight = 1200 ∧ r.bytesInFlight = r.inFlight ∧
      r.saturated = false := by
  have hrun : ∃ r, (system false).Reachable r ∧ r.bytesInFlight = 1200 := by
    apply System.exists_reachable
      [.sealPacket .initial true (some ⟨.crypto, 0, 0, 0, none, false⟩) (.sealed 1200 true) 0,
       .retry,
       .flushRetransmits .initial some ⟨fun _ => .sealed 1200 true, fun _ => 0, 1⟩,
       .sealPacket .initial false none (.sealed 40 true) 2,
       .sealPacket .handshake true none (.sealed 300 true) 3,
       .discardSpace .initial,
       .sealPacket .app true (some ⟨.stream, 0, 0, 0, none, false⟩) (.sealed 1200 true) 4,
       .sealPacket .app true none .failed 5,
       .sealPacket .app true none (.sealed 500 true) 6,
       .sealPacket .app true none (.sealed 600 true) 7,
       .ackFrame .app [(2, 3), (1, 3), (2, 2)] 0 8,
       .detectLost .app 9,
       .flushRetransmits .app some ⟨fun _ => .sealed 1200 true, fun _ => 0, 10⟩,
       .handshakeDone,
       .onPTO,
       .flushRetransmits .app some ⟨fun _ => .sealed 1200 true, fun _ => 0, 11⟩]
    decide +kernel
  rcases hrun with ⟨r, hreach, hbytes⟩
  rcases bytesInFlight_exact false hreach with ⟨hexact, hsaturated, _⟩
  exact ⟨r, hreach, hbytes, hexact, hsaturated⟩

end Recovery

end Quic
