import PoseidonHttp.Quic.InFlight

/-!
# Who holds a payload

The payload of a frame that may be sent again is a buffer. It is reachable from a packet, from a
retransmit queue, or, once it is dead, from the free list, and the next send writes over what it
takes from the free list. `Custody` says that nothing is reachable twice.

What the connection does to the frames it holds is a `Passes`: frames go from packets to the
queue and back, out to an acknowledgment, or are dropped by name, and no STREAM frame comes in.
New ones come in through `retransCopy` and `sealPacket` only.
-/

namespace Quic

open Header (Bytes)

namespace Recovery

/-- The frames of a space that may be sent again: those of its packets and the queued ones. -/
def frames (r : Recovery) (sp : Space) : List RetransFrame :=
  ((r.sent sp).packets.filterMap fun e => e.2.frame) ++ r.retransQueue sp

/-- How often a buffer is referred to, by packets, by queued frames and by the free list. -/
def references (r : Recovery) (b : ℕ) : ℕ :=
  (r.frames .initial).countP (holds b) + (r.frames .handshake).countP (holds b) +
    (r.frames .app).countP (holds b) + r.retransFree.count b

/-- The STREAM frames that may be sent again, with their bytes. -/
def letters (r : Recovery) : List (RetransFrame × Bytes) :=
  ((r.frames .app).filter fun f => decide (f.kind = .stream)).map r.carried

variable {x : RetransFrame × Bytes}

theorem mem_letters {r : Recovery} :
    x ∈ r.letters ↔ ∃ f ∈ r.frames .app, f.kind = .stream ∧ r.carried f = x := by
  simp only [letters, List.mem_map, List.mem_filter, decide_eq_true_eq, and_assoc]

/-- No buffer is referred to twice, with the one in hand counted, every buffer referred to was
allocated, and STREAM frames are in the application space. -/
structure Custody (r : Recovery) (hand : Option ℕ) : Prop where
  once : ∀ b, r.references b + inHand hand b ≤ 1
  allocated : ∀ b, 0 < r.references b + inHand hand b → b < r.heap.length
  placed : ∀ sp, ∀ f ∈ r.frames sp, f.kind = .stream → sp = .app

/-- The frames move and nothing new comes in. A STREAM frame leaves when it is acknowledged, or
when it is one of those dropped. -/
structure Passes (dropped : RetransFrame → Prop) (r r' : Recovery) : Prop where
  heap : r'.heap = r.heap
  references : ∀ b, r'.references b ≤ r.references b
  frames : ∀ sp, ∀ f ∈ r'.frames sp, f.kind = .stream → f ∈ r.frames sp
  sealedLog : ∃ log, r'.sealedLog = r.sealedLog ++ log ∧
    ∀ x ∈ log, x.1.kind = .stream → x ∈ r.letters
  kept : ∀ x ∈ r.letters, dropped x.1 ∨ x ∈ r'.letters ∨ x ∈ r'.ackedLog
  acked : ∀ x ∈ r.ackedLog, x ∈ r'.ackedLog

namespace Passes

variable {dropped : RetransFrame → Prop} {r s t : Recovery}

/-- Nothing new among the STREAM frames. -/
theorem letters (h : Passes dropped r s) (hx : x ∈ s.letters) :
    x ∈ r.letters := by
  rcases mem_letters.mp hx with ⟨f, hf, hkind, rfl⟩
  exact mem_letters.mpr ⟨f, h.frames .app f hf hkind, hkind, (carried_congr h.heap f).symm⟩

theorem refl (r : Recovery) : Passes dropped r r where
  heap := rfl
  references := fun _ => Nat.le_refl _
  frames := fun _ _ hf _ => hf
  sealedLog := ⟨[], by simp, by simp⟩
  kept := fun _ hx => .inr (.inl hx)
  acked := fun _ hx => hx

theorem trans (h : Passes dropped r s) (h' : Passes dropped s t) : Passes dropped r t where
  heap := h'.heap.trans h.heap
  references := fun b => Nat.le_trans (h'.references b) (h.references b)
  frames := fun sp f hf hkind => h.frames sp f (h'.frames sp f hf hkind) hkind
  sealedLog := by
    rcases h.sealedLog with ⟨log, hlog, hfrom⟩
    rcases h'.sealedLog with ⟨log', hlog', hfrom'⟩
    refine ⟨log ++ log', by rw [hlog', hlog, List.append_assoc], ?_⟩
    intro x hx hkind
    rcases List.mem_append.mp hx with hx | hx
    · exact hfrom x hx hkind
    · exact h.letters (hfrom' x hx hkind)
  kept := by
    intro x hx
    rcases h.kept x hx with hd | hx | hx
    · exact .inl hd
    · exact h'.kept x hx
    · exact .inr (.inr (h'.acked x hx))
  acked := fun x hx => h'.acked x (h.acked x hx)

end Passes

variable {r r' : Recovery} {sp : Space} {dropped : RetransFrame → Prop}

theorem Custody.passes {hand : Option ℕ} (hc : r.Custody hand)
    (h : Passes dropped r r') : r'.Custody hand where
  once := by
    intro b
    have honce := hc.once b
    have hle := h.references b
    omega
  allocated := by
    intro b hb
    have hle := h.references b
    rw [h.heap]
    exact hc.allocated b (by omega)
  placed := fun sp f hf hkind => hc.placed sp f (h.frames sp f hf hkind) hkind

/-! ## Frames that leave -/

/-- The references to a buffer, space by space: what a change in one space does to them. -/
theorem references_inSpace (hothers : ∀ other, other ≠ sp → r'.frames other = r.frames other)
    (b : ℕ) :
    r'.references b + (r.frames sp).countP (holds b) + r.retransFree.count b =
      r.references b + (r'.frames sp).countP (holds b) + r'.retransFree.count b := by
  have htotal := total_of_others
    fun other ho => congrArg (List.countP (holds b)) (hothers other ho)
  simp only [references]
  omega

theorem nothing_sealed (h : r'.sealedLog = r.sealedLog) :
    ∃ log, r'.sealedLog = r.sealedLog ++ log ∧ ∀ x ∈ log, x ∈ [].map r.carried :=
  ⟨[], by rw [h, List.append_nil], by simp⟩

/-- In one space frames leave, to the log of the acknowledged or because they are dropped, and
their buffers may go to the free list; what comes in and is sealed is no new STREAM frame. -/
theorem passes_inSpace (sp : Space) (gone come : List RetransFrame)
    (hheap : r'.heap = r.heap)
    (hself : (come ++ r.frames sp).Perm (gone ++ r'.frames sp))
    (hothers : ∀ other, other ≠ sp → r'.frames other = r.frames other)
    (hfree : ∀ b, r'.retransFree.count b + come.countP (holds b) ≤
      r.retransFree.count b + gone.countP (holds b))
    (hsealed : ∃ log, r'.sealedLog = r.sealedLog ++ log ∧ ∀ x ∈ log, x ∈ come.map r.carried)
    (hacked : ∀ x ∈ r.ackedLog, x ∈ r'.ackedLog)
    (hcome : ∀ f ∈ come, f.kind = .stream → sp = .app ∧ f ∈ r.frames sp)
    (hgone : ∀ f ∈ gone, f.kind = .stream →
      dropped f ∨ f ∈ r'.frames sp ∨ r.carried f ∈ r'.ackedLog) :
    Passes dropped r r' where
  heap := hheap
  references := by
    intro b
    have hspace := references_inSpace hothers b
    have hcount := hself.countP_eq (holds b)
    have hput := hfree b
    rw [List.countP_append, List.countP_append] at hcount
    omega
  frames := by
    intro other f hf hkind
    by_cases ho : other = sp
    · subst ho
      rcases List.mem_append.mp (hself.symm.subset (List.mem_append_right _ hf)) with hf | hf
      · exact (hcome f hf hkind).2
      · exact hf
    · exact hothers other ho ▸ hf
  sealedLog := by
    rcases hsealed with ⟨log, hlog, hfrom⟩
    refine ⟨log, hlog, ?_⟩
    intro x hx hkind
    rcases List.mem_map.mp (hfrom x hx) with ⟨f, hf, rfl⟩
    rcases hcome f hf hkind with ⟨rfl, hf⟩
    exact mem_letters.mpr ⟨f, hf, hkind, rfl⟩
  kept := by
    intro x hx
    rcases mem_letters.mp hx with ⟨f, hf, hkind, rfl⟩
    have hstays : f ∈ r'.frames .app → r.carried f ∈ r'.letters :=
      fun hf' => mem_letters.mpr ⟨f, hf', hkind, carried_congr hheap f⟩
    by_cases ho : Space.app = sp
    · subst ho
      rcases List.mem_append.mp (hself.subset (List.mem_append_right _ hf)) with hf' | hf'
      · exact (hgone f hf' hkind).imp_right (Or.imp_left hstays)
      · exact .inr (.inl (hstays hf'))
    · exact .inr (.inl (hstays (hothers .app ho ▸ hf)))
  acked := hacked

variable {out : List Entry}

/-- The frames of the packets that leave, and those that stay. -/
theorem Leaves.frames_perm (h : Leaves sp out r r') :
    (r.frames sp).Perm ((out.filterMap fun e => e.2.frame) ++
      (((r'.sent sp).packets.filterMap fun e => e.2.frame) ++ r.retransQueue sp)) := by
  have hsplit := h.packets.filterMap fun e => e.2.frame
  rw [List.filterMap_append] at hsplit
  rw [← List.append_assoc]
  exact hsplit.append_right _

theorem Requeues.passes (h : Requeues sp out r r')
    (dropped : RetransFrame → Prop) : Passes dropped r r' := by
  refine passes_inSpace sp [] [] h.heap (h.frames_perm.trans ?_) ?_ ?_ (nothing_sealed h.sealedLog)
    ?_ (by simp) (by simp)
  · rw [frames, h.queue, ← List.append_assoc _ (r.retransQueue sp)]
    exact List.perm_append_comm
  · intro other ho
    rw [frames, frames, h.others other ho, h.otherQueues other ho]
  · intro b
    rw [h.free]
  · exact fun x hx => h.ackedLog ▸ hx

theorem Acks.passes (h : Acks sp out r r') (dropped : RetransFrame → Prop) :
    Passes dropped r r' := by
  refine passes_inSpace sp _ [] h.heap (h.frames_perm.trans ?_) ?_ h.free
    (nothing_sealed h.sealedLog) ?_ (by simp) ?_
  · rw [frames, h.queue]
  · intro other ho
    rw [frames, frames, h.others other ho, h.queue]
  · intro x hx
    rw [h.ackedLog]
    exact List.mem_append_left _ hx
  · intro f hf _
    right
    right
    rw [h.ackedLog]
    exact List.mem_append_right _ (List.mem_map_of_mem hf)

theorem Releases.passes (h : Releases r r') (dropped : RetransFrame → Prop) :
    Passes dropped r r' := by
  induction h with
  | refl => exact Passes.refl r
  | requeue _ _ _ hstep ih => exact ih.trans (hstep.passes dropped)
  | ack _ hstep ih => exact ih.trans (hstep.passes dropped)

theorem Freed.passes (h : Freed 0 r r') (dropped : RetransFrame → Prop) : Passes dropped r r' :=
  (Releases.refl.freed h).passes dropped

theorem discardSpace_passes (hb : r.Balanced) {hand : Option ℕ} (hc : r.Custody hand)
    (hsp : sp ≠ .app) :
    Passes (fun _ => False) r (r.discardSpace sp) := by
  have hfreed := removeAll_freed (hb.flight_le sp)
  have hleaves := discardSpace_leaves hb sp
  refine passes_inSpace sp (r.frames sp) [] hfreed.heap ?_ ?_ ?_
    (nothing_sealed hfreed.sealedLog) ?_ (by simp) ?_
  · simp [frames, discardSpace, SentSpace.empty]
  · intro other ho
    rw [frames, hleaves.others other ho]
    simp only [frames, discardSpace, Function.update_of_ne ho, hfreed.queue]
  · intro b
    simp only [discardSpace, hfreed.free]
    exact Nat.le_add_right _ _
  · exact fun x hx => hfreed.ackedLog ▸ hx
  · -- no STREAM frame is in another space than that of the application
    intro f hf hkind
    exact absurd (hc.placed sp f hf hkind) hsp

theorem scrubResetStreamData_passes (r : Recovery) (id : ℕ) :
    Passes (fun f => isStreamData id f = true) r (r.scrubResetStreamData id) := by
  have hpackets : ∀ packets : List Entry,
      (packets.map fun e => (e.1, scrubPacket id e.2)).filterMap (fun e => e.2.frame) =
        (packets.filterMap fun e => e.2.frame).filter fun f => !isStreamData id f := by
    intro packets
    induction packets with
    | nil => rfl
    | cons e packets ih =>
      rw [List.map_cons, List.filterMap_cons, ih]
      cases hframe : e.2.frame with
      | none => simp [scrubPacket, hframe]
      | some f => by_cases hf : isStreamData id f <;> simp [scrubPacket, hframe, hf, Option.filter]
  have hself : (r.scrubResetStreamData id).frames .app =
      (r.frames .app).filter fun f => !isStreamData id f := by
    simp only [frames, List.filter_append, ← hpackets]
    simp [scrubResetStreamData, setQueue, setPackets]
  refine passes_inSpace .app ((r.frames .app).filter (isStreamData id)) [] rfl ?_ ?_
    (fun _ => Nat.le_add_right _ _) (nothing_sealed rfl) (fun _ hx => hx) (by simp) ?_
  · rw [hself]
    exact (List.filter_append_perm (isStreamData id) _).symm
  · intro other ho
    simp only [frames, scrubResetStreamData, setQueue, setPackets, Function.update_of_ne ho]
  · intro f hf _
    exact .inl (List.mem_filter.mp hf).2

/-- After the scrub no STREAM frame of the stream is left. -/
theorem scrubResetStreamData_letters {id : ℕ}
    (hx : x ∈ (r.scrubResetStreamData id).letters) : x.1.streamID ≠ id := by
  rcases mem_letters.mp hx with ⟨f, hf, hkind, rfl⟩
  intro hid
  simp only [frames, scrubResetStreamData, setQueue, setPackets, Function.update_self,
    List.mem_append, List.mem_filterMap, List.mem_map, List.mem_filter] at hf
  rcases hf with ⟨e, ⟨e', _, rfl⟩, hframe⟩ | ⟨_, hf⟩
  · rcases Option.filter_eq_some_iff.mp hframe with ⟨_, hf⟩
    simp [isStreamData, hkind] at hf
    exact hf hid
  · simp [isStreamData, hkind] at hf
    exact hf hid

/-! ## Frames that come in -/

/-- A frame joins the space `sp`, and may be recorded as sealed. -/
structure Joins (sp : Space) (frame : Option RetransFrame) (r r' : Recovery) : Prop where
  heap : r'.heap = r.heap
  free : r'.retransFree = r.retransFree
  ackedLog : r'.ackedLog = r.ackedLog
  self : (r'.frames sp).Perm (frame.toList ++ r.frames sp)
  others : ∀ other, other ≠ sp → r'.frames other = r.frames other
  sealedLog : ∃ log, r'.sealedLog = r.sealedLog ++ log ∧ ∀ x ∈ log, x ∈ frame.toList.map r.carried

theorem sealPacket_joins (hb : r.Balanced) (sp : Space) (ackEliciting : Bool)
    (frame : Option RetransFrame) {outcome : Sealing} (now : ℤ) (h : outcome ≠ .limit) :
    Joins sp frame r (r.sealPacket sp ackEliciting frame outcome now) := by
  have hadds := sealPacket_adds hb sp ackEliciting frame now h
  -- the queues and the buffers are not touched
  have hrest : ∀ outcome, (r.sealPacket sp ackEliciting frame outcome now).heap = r.heap ∧
      (r.sealPacket sp ackEliciting frame outcome now).retransFree = r.retransFree ∧
      (r.sealPacket sp ackEliciting frame outcome now).ackedLog = r.ackedLog ∧
      (r.sealPacket sp ackEliciting frame outcome now).retransQueue = r.retransQueue ∧
      ∃ log, (r.sealPacket sp ackEliciting frame outcome now).sealedLog = r.sealedLog ++ log ∧
        ∀ x ∈ log, x ∈ frame.toList.map r.carried := by
    intro outcome
    cases outcome with
    | limit => exact ⟨rfl, rfl, rfl, rfl, [], by simp [sealPacket], by simp⟩
    | failed =>
      exact ⟨rfl, rfl, rfl, rfl, [], by simp [sealPacket, onSent, setPackets], by simp⟩
    | sealed size written =>
      cases ackEliciting <;> exact ⟨rfl, rfl, rfl, rfl, _, rfl, fun _ hx => hx⟩
  rcases hrest outcome with ⟨hheap, hfree, hacked, hqueue, hsealed⟩
  refine ⟨hheap, hfree, hacked, ?_, ?_, hsealed⟩
  · rw [frames, hadds.packets, hqueue, List.filterMap_append, List.append_assoc]
    cases frame with
    | none => exact .refl _
    | some f => exact List.perm_middle
  · intro other ho
    rw [frames, hadds.others other ho, hqueue]
    rfl

namespace Joins

variable {sp : Space} {frame : Option RetransFrame} {r r' : Recovery}

/-- The frame in hand becomes the frame of a packet, and its buffer has the one holder. -/
theorem custody (h : Joins sp frame r r') (hc : r.Custody (frame.bind fun f => f.data))
    (hplaced : ∀ f ∈ frame, f.kind = .stream → sp = .app) : r'.Custody none := by
  have hcount : ∀ b, r'.references b + inHand none b =
      r.references b + inHand (frame.bind fun f => f.data) b := by
    intro b
    have hspace := references_inSpace h.others b
    have hself := h.self.countP_eq (holds b)
    rw [List.countP_append] at hself
    rw [h.free] at hspace
    have hone : frame.toList.countP (holds b) = inHand (frame.bind fun f => f.data) b := by
      cases frame with
      | none => rfl
      | some f => simp [holds, inHand]
    have hnone : inHand none b = 0 := rfl
    omega
  refine ⟨?_, ?_, ?_⟩
  · intro b
    rw [hcount b]
    exact hc.once b
  · intro b hb
    rw [hcount b] at hb
    rw [h.heap]
    exact hc.allocated b hb
  · intro other f hf hkind
    by_cases ho : other = sp
    · subst ho
      rcases List.mem_append.mp (h.self.subset hf) with hf | hf
      · exact hplaced f (Option.mem_toList.mp hf) hkind
      · exact hc.placed other f hf hkind
    · exact hc.placed other f (h.others other ho ▸ hf) hkind

theorem mem_letters (h : Joins sp frame r r') :
    x ∈ r'.letters ↔
      x ∈ r.letters ∨ ∃ f ∈ frame, sp = .app ∧ f.kind = .stream ∧ r.carried f = x := by
  have hframes : ∀ f, f ∈ r'.frames .app ↔ f ∈ r.frames .app ∨ (f ∈ frame ∧ sp = .app) := by
    intro f
    by_cases ho : Space.app = sp
    · subst ho
      rw [h.self.mem_iff, List.mem_append]
      simp [or_comm]
    · rw [h.others .app ho]
      simp [Ne.symm ho]
  simp only [Recovery.mem_letters, hframes, carried_congr h.heap]
  constructor
  · rintro ⟨f, hf | ⟨hf, hsp⟩, hkind, hx⟩
    · exact .inl ⟨f, hf, hkind, hx⟩
    · exact .inr ⟨f, hf, hsp, hkind, hx⟩
  · rintro (⟨f, hf, hkind, hx⟩ | ⟨f, hf, hsp, hkind, hx⟩)
    · exact ⟨f, .inl hf, hkind, hx⟩
    · exact ⟨f, .inr ⟨hf, hsp⟩, hkind, hx⟩

/-- A frame without a payload that is not of a stream changes nothing. -/
theorem passes (h : Joins sp frame r r')
    (hplain : ∀ f ∈ frame, f.kind ≠ .stream ∧ f.data = none) (dropped : RetransFrame → Prop) :
    Passes dropped r r' := by
  refine passes_inSpace sp [] frame.toList h.heap h.self.symm h.others ?_ h.sealedLog ?_ ?_ (by simp)
  · intro b
    have hnone : frame.toList.countP (holds b) = 0 := by
      rw [List.countP_eq_zero]
      intro f hf
      simp [holds, (hplain f (Option.mem_toList.mp hf)).2]
    rw [h.free, hnone]
    exact Nat.le_add_right _ _
  · exact fun x hx => h.ackedLog ▸ hx
  · intro f hf hkind
    exact absurd hkind (hplain f (Option.mem_toList.mp hf)).1

end Joins

theorem queueRetire_joins (r : Recovery) (seq : ℕ) :
    Joins .app (some ⟨.retire, 0, seq, 0, none, false⟩) r (r.queueRetire seq) := by
  refine ⟨rfl, rfl, rfl, ?_, ?_, [], by simp [queueRetire, setQueue], by simp⟩
  · simp only [frames, queueRetire, setQueue, Function.update_self, ← List.append_assoc]
    exact List.perm_append_singleton _ _
  · intro other ho
    simp only [frames, queueRetire, setQueue, Function.update_of_ne ho]

variable {r r' : Recovery} {f : RetransFrame} {sp : Space} {queue : List RetransFrame}

/-- A packet with nothing to send again. -/
theorem sealPacket_passes (hb : r.Balanced) (sp : Space) (ackEliciting : Bool)
    {frame : Option RetransFrame} (outcome : Sealing) (now : ℤ)
    (hplain : ∀ f ∈ frame, f.kind ≠ .stream ∧ f.data = none) (dropped : RetransFrame → Prop) :
    Passes dropped r (r.sealPacket sp ackEliciting frame outcome now) := by
  by_cases h : outcome = .limit
  · subst h
    exact Passes.refl r
  · exact (sealPacket_joins hb sp ackEliciting frame now h).passes hplain dropped

/-- What the connection does without looking at its streams passes the frames on. -/
theorem step_own_passes {op : Op} (hb : r.Balanced) (hc : r.Custody none) (hown : op.own = true)
    (h : r.step op = some r') : Passes (fun _ => False) r r' := by
  have hflags : ∀ s, Freed 0 r s → Passes (fun _ => False) r s := fun s hs => hs.passes _
  cases op <;> simp only [step, Option.some.injEq, Option.ite_none_right_eq_some] at h
  case bbrSetWindow => exact h.2 ▸ hflags _ { Freed.refl r with }
  case reorder => exact h.2 ▸ (setPackets_releases h.1).passes _
  case scrub | flushRetransmits => exact absurd hown (by simp [Op.own])
  all_goals subst h
  case sealPacket sp ackEliciting frame outcome now =>
    simp only [Op.own, Option.isNone_iff_eq_none] at hown
    subst hown
    exact sealPacket_passes hb sp ackEliciting outcome now (by simp) _
  case ackFrame sp ranges ackDelay now => exact (onAckFrame_releases hb sp ranges ackDelay now).passes _
  case detectLost sp now => exact (detectLost_releases hb sp now).passes _
  case onPTO => exact (onPTO_releases hb).passes _
  case retry => exact (requeueInitialForRetry_releases hb).passes _
  case discardSpace sp => exact discardSpace_passes hb hc (by simpa [Op.own] using hown)
  case queueRetire seq => exact (queueRetire_joins r seq).passes (by simp) _
  case handshakeDone =>
    have hdone : Freed 0 r { r with handshakeComplete := true, handshakeConfirmed := true } :=
      { Freed.refl r with }
    have hpasses := hflags _ hdone
    exact hpasses.trans (discardSpace_passes (hb.same hdone.same) (hc.passes hpasses) (by decide))
  all_goals exact hflags _ { Freed.refl r with }

/-! ## Sending the queue again -/

/-- No packet is refused at the limit of the key. -/
def Wire.Unrefused (wire : Wire) : Prop := ∀ pn, wire.outcome pn ≠ .limit

/-- A queued frame is taken off the queue and in hand. -/
theorem setQueue_passes
    (hqueue : r.retransQueue sp = f :: queue) (hdropped : f.kind = .stream → dropped f) :
    Passes dropped r (r.setQueue sp queue) := by
  refine passes_inSpace sp [f] [] rfl ?_ ?_ (fun _ => Nat.le_add_right _ _)
    (nothing_sealed rfl) (fun _ hx => hx) (by simp) ?_
  · simp only [frames, setQueue, Function.update_self, hqueue]
    exact List.perm_middle
  · intro other ho
    simp only [frames, setQueue, Function.update_of_ne ho]
  · intro g hg hkind
    obtain rfl := List.mem_singleton.mp hg
    exact .inl (hdropped hkind)

/-- What is sent in the place of a queued frame refers to the same buffer, and a STREAM frame is
sent as it is. -/
def Faithful (resend : RetransFrame → Option RetransFrame) : Prop :=
  ∀ f f', resend f = some f' → f'.kind = f.kind ∧ f'.data = f.data ∧ (f.kind = .stream → f' = f)

/-- A queued frame goes out in a packet. -/
theorem resend_passes (hb : r.Balanced) (hc : r.Custody none)
    {f' : RetransFrame} (hqueue : r.retransQueue sp = f :: queue)
    (hkind : f'.kind = f.kind) (hdata : f'.data = f.data) (hsame : f.kind = .stream → f' = f)
    {outcome : Sealing} (now : ℤ) (houtcome : outcome = .limit → dropped f) :
    Passes dropped r ((r.setQueue sp queue).sealPacket sp true (some f') outcome now) := by
  by_cases hlimit : outcome = .limit
  · subst hlimit
    exact setQueue_passes hqueue fun _ => houtcome rfl
  have hjoins := sealPacket_joins (hb.same (setQueue_same r sp queue)) sp true (some f') now hlimit
  generalize (r.setQueue sp queue).sealPacket sp true (some f') outcome now = r' at hjoins
  have hperm : (r.frames sp).Perm (f :: (r.setQueue sp queue).frames sp) := by
    simp only [frames, setQueue, Function.update_self, hqueue]
    exact List.perm_middle
  have hf : f ∈ r.frames sp := hperm.symm.subset List.mem_cons_self
  have hf' : f' ∈ r'.frames sp := hjoins.self.symm.subset List.mem_cons_self
  refine passes_inSpace sp [f] [f'] hjoins.heap ?_ ?_ ?_ hjoins.sealedLog ?_ ?_ ?_
  · -- the frames of the space are the same, with `f'` in the place of `f`
    exact (hperm.cons f').trans ((List.Perm.swap f f' _).trans (hjoins.self.symm.cons f))
  · intro other ho
    rw [hjoins.others other ho]
    simp only [frames, setQueue, Function.update_of_ne ho]
  · intro b
    have hholds : holds b f' = holds b f := by simp only [holds, hdata]
    have hfree : r'.retransFree = r.retransFree := hjoins.free
    rw [List.countP_singleton, List.countP_singleton, hholds, hfree]
  · intro x hx
    rw [hjoins.ackedLog]
    exact hx
  · intro g hg hstream
    obtain rfl := List.mem_singleton.mp hg
    have hkind' : f.kind = .stream := hkind ▸ hstream
    exact ⟨hc.placed sp f hf hkind', hsame hkind' ▸ hf⟩
  · intro g hg hstream
    obtain rfl := List.mem_singleton.mp hg
    exact .inr (.inl (hsame hstream ▸ hf'))

/-- A flush drops what is not to be sent again, and no more when no packet is refused. -/
theorem flushRetransmits_passes (hb : r.Balanced) (hc : r.Custody none) (sp : Space)
    {resend : RetransFrame → Option RetransFrame} (hresend : Faithful resend) (wire : Wire) :
    Passes (fun f => resend f = none ∨ ¬ wire.Unrefused) r (r.flushRetransmits sp resend wire) := by
  have hloop : (r.flushRetransmits sp resend wire).Balanced ∧
      Passes (fun f => resend f = none ∨ ¬ wire.Unrefused) r (r.flushRetransmits sp resend wire) := by
    apply flushRetransmits_keeps (P := fun s => s.Balanced ∧
      Passes (fun f => resend f = none ∨ ¬ wire.Unrefused) r s)
    · rintro s ⟨hs, hpasses⟩
      have hspent : Freed 0 s { s with ptoExempt := false } := { Freed.refl s with }
      exact ⟨hs.same hspent.same, hpasses.trans (hspent.passes _)⟩
    · rintro s f queue ⟨hs, hpasses⟩ hqueue hnone
      exact ⟨hs.same (setQueue_same s sp queue),
        hpasses.trans (setQueue_passes hqueue fun _ => .inl hnone)⟩
    · rintro s f queue f' ⟨hs, hpasses⟩ hqueue hsome
      rcases hresend f f' hsome with ⟨hkind, hdata, hsame⟩
      refine ⟨sealPacket_balanced (hs.same (setQueue_same s sp queue)) sp true (some f') _ _,
        hpasses.trans (resend_passes hs (hc.passes hpasses) hqueue hkind hdata hsame _ ?_)⟩
      intro hlimit
      right
      intro hopen
      exact hopen (s.sendPN sp) hlimit
    · exact ⟨hb, Passes.refl r⟩
  exact hloop.2

/-! ## A buffer for a new frame -/

/-- A buffer with `src` in it is in hand, and nothing else that is held has changed. -/
structure Lends (src : Bytes) (data : Option ℕ) (r r' : Recovery) : Prop where
  same : SameFlight r r'
  queue : r'.retransQueue = r.retransQueue
  sealedLog : r'.sealedLog = r.sealedLog
  ackedLog : r'.ackedLog = r.ackedLog
  custody : r'.Custody data
  payload : ∀ f : RetransFrame, f.data = data → r'.payload f = src
  carried : ∀ sp, ∀ f ∈ r.frames sp, r'.carried f = r.carried f

theorem Lends.frames {src : Bytes} {data : Option ℕ} (h : Lends src data r r') (sp : Space) :
    r'.frames sp = r.frames sp := by
  rw [Recovery.frames, Recovery.frames, h.same.packets, h.queue]

theorem Lends.mem_letters {src : Bytes} {data : Option ℕ} (h : Lends src data r r')
    : x ∈ r'.letters ↔ x ∈ r.letters := by
  rw [Recovery.mem_letters, Recovery.mem_letters, h.frames]
  constructor
  · rintro ⟨f, hf, hkind, hx⟩
    exact ⟨f, hf, hkind, (h.carried .app f hf) ▸ hx⟩
  · rintro ⟨f, hf, hkind, hx⟩
    exact ⟨f, hf, hkind, (h.carried .app f hf).trans hx⟩

/-- A buffer that a frame refers to is counted. -/
theorem references_pos (hf : f ∈ r.frames sp) {b : ℕ} (hb : f.data = some b) :
    0 < (r.frames sp).countP (holds b) := by
  rw [List.countP_pos_iff]
  exact ⟨f, hf, by simp [holds, hb]⟩

theorem countP_le_references (r : Recovery) (sp : Space) (b : ℕ) :
    (r.frames sp).countP (holds b) + r.retransFree.count b ≤ r.references b := by
  cases sp <;> simp only [references] <;> omega

/-- The bytes of a frame do not change when another buffer is written. -/
theorem carried_of_heap (h : ∀ b, f.data = some b → r'.heap[b]? = r.heap[b]?) :
    r'.carried f = r.carried f := by
  cases hd : f.data with
  | none => simp [carried, payload, hd]
  | some b => simp [carried, payload, hd, h b hd]

/-- A new buffer is referred to by nobody. -/
theorem allocate_lends (hc : r.Custody none) (cap : ℕ) (src : Bytes) :
    Lends src (r.allocate cap src).1 r (r.allocate cap src).2 := by
  refine ⟨⟨rfl, fun _ => rfl, rfl, rfl⟩, rfl, rfl, rfl, ⟨?_, ?_, hc.placed⟩, ?_, ?_⟩
  · intro b
    have honce := hc.once b
    by_cases hb : r.heap.length = b
    · -- nothing refers to an address that was not allocated
      have hzero : r.references b = 0 := by
        by_contra hpos
        have hlt := hc.allocated b (by omega)
        omega
      simp only [allocate, inHand, hb, if_true]
      change r.references b + 1 ≤ 1
      omega
    · simp only [allocate, inHand, Option.some.injEq, hb, if_false]
      change r.references b + 0 ≤ 1
      omega
  · intro b hb
    simp only [allocate, List.length_append, List.length_singleton]
    by_cases heq : r.heap.length = b
    · omega
    · have hpos : 0 < r.references b := by
        simp only [allocate, inHand, Option.some.injEq, heq, if_false] at hb
        exact hb
      have hlt := hc.allocated b (by omega)
      omega
  · intro f hf
    simp [payload, hf, allocate]
  · intro sp f hf
    apply carried_of_heap
    intro b hb
    have hpos := references_pos hf hb
    have hle := countP_le_references r sp b
    have hlt := hc.allocated b (by omega)
    exact List.getElem?_append_left hlt

/-- The top of the free list is referred to by the list alone, and written over. -/
theorem recycle_lends (hc : r.Custody none) {b : ℕ} (hhead : r.retransFree.head? = some b)
    (src : Bytes) :
    Lends src (some b) r { r with
      retransFree := r.retransFree.tail
      heap := r.heap.modify b fun buf => { buf with bytes := src } } := by
  rcases List.head?_eq_some_iff.mp hhead with ⟨rest, hfree⟩
  have hmoved : ∀ x, ({ r with
      retransFree := r.retransFree.tail
      heap := r.heap.modify b fun buf => { buf with bytes := src } } : Recovery).references x +
        inHand (some b) x = r.references x := by
    intro x
    have hcons : r.retransFree.count x = r.retransFree.tail.count x + inHand (some b) x := by
      rw [hfree, List.count_cons]
      simp [inHand]
    simp only [references, hcons]
    rw [Nat.add_assoc]
    rfl
  have hcons : 0 < r.retransFree.count b := by
    rw [hfree]
    simp
  have hlt : b < r.heap.length := by
    apply hc.allocated b
    simp only [references]
    omega
  refine ⟨⟨rfl, fun _ => rfl, rfl, rfl⟩, rfl, rfl, rfl, ⟨?_, ?_, hc.placed⟩, ?_, ?_⟩
  · intro x
    rw [hmoved x]
    exact hc.once x
  · intro x hx
    rw [hmoved x] at hx
    rw [List.length_modify]
    exact hc.allocated x hx
  · intro f hf
    simp [payload, hf, List.getElem?_eq_getElem hlt]
  · intro sp f hf
    apply carried_of_heap
    intro x hx
    -- a live frame with this buffer would be a second reference
    have hne : b ≠ x := by
      rintro rfl
      have hpos := references_pos hf hx
      have hle := countP_le_references r sp b
      have honce := hc.once b
      omega
    exact List.getElem?_modify_ne _ _ hne

/-- A copy takes a buffer that nobody refers to: the top of the free list, or a new one. -/
theorem retransCopy_lends (hc : r.Custody none) (src : Bytes) (cap : ℕ) :
    Lends src (r.retransCopy src cap).1 r (r.retransCopy src cap).2 := by
  unfold retransCopy
  split_ifs with hempty hfits
  · refine ⟨⟨rfl, fun _ => rfl, rfl, rfl⟩, rfl, rfl, rfl, hc, ?_, fun _ _ _ => rfl⟩
    intro f hf
    rw [List.length_eq_zero_iff.mp hempty]
    simp [payload, hf]
  all_goals
    split
    · rename_i b hb
      rcases Option.filter_eq_some_iff.mp hb with ⟨hhead, _⟩
      exact recycle_lends hc hhead src
    · exact allocate_lends hc _ src

end Recovery

end Quic
