import PoseidonHttp.Quic.SendLimits

/-!
# Nothing sent is forgotten

A byte that was written to a stream is the connection's to deliver until it is acknowledged, or
until the stream is reset. `Remembers` says that it is: every byte is with a frame that was
acknowledged, or with one that is still held, at its offset; and of a reset stream nothing is
held and nothing is sealed any more.

A frame changes hands many times, from a packet to the queue and from the queue to a packet. All
of that is `Carries`, so the proof looks at a chunk being written and at a stream being reset.
-/

namespace Quic

open Header (Bytes)
open Transition

/-- The frame carries the byte at `i`, as it was written. -/
structure Outgoing.CarriedBy (s : Outgoing) (i : ℕ) (y : RetransFrame × Bytes) : Prop where
  kind : y.1.kind = .stream
  id : y.1.streamID = s.id
  low : y.1.offset ≤ i
  high : i < y.1.offset + y.2.length
  byte : y.2[i - y.1.offset]? = s.sentBytes[i]?

/-- The frame carries the end of the stream. -/
structure Outgoing.EndedBy (s : Outgoing) (y : RetransFrame × Bytes) : Prop where
  kind : y.1.kind = .stream
  id : y.1.streamID = s.id
  fin : y.1.fin = true
  offset : y.1.offset + y.2.length = s.sendOffset

namespace Sender

open Recovery (Carries)

/-- A STREAM frame that was acknowledged, or is still held. -/
def Has (x : Sender) (y : RetransFrame × Bytes) : Prop :=
  y ∈ x.recovery.letters ∨ y ∈ x.recovery.ackedLog

structure Remembers (x : Sender) : Prop where
  sound : x.recovery.Sound
  written : ∀ s ∈ x.streams, s.sentBytes.length = s.sendOffset
  bytes : ∀ s ∈ x.streams, s.sendReset = false → ∀ i < s.sendOffset, ∃ y, x.Has y ∧ s.CarriedBy i y
  ended : ∀ s ∈ x.streams, s.sendReset = false → s.finSent = true → ∃ y, x.Has y ∧ s.EndedBy y
  gone : ∀ s ∈ x.streams, s.sendReset = true → (∀ y ∈ x.recovery.letters, y.1.streamID ≠ s.id) ∧
    s.resetAt ≤ x.recovery.sealedLog.length ∧
    ∀ y ∈ x.recovery.sealedLog.drop s.resetAt, y.1.kind = .stream → y.1.streamID ≠ s.id

/-- What a flush may drop: frames of a stream that was reset. -/
def ofReset (x : Sender) (f : RetransFrame) : Prop :=
  ∃ s ∈ x.streams, s.id = f.streamID ∧ s.sendReset = true

/-- No two streams have one identifier. -/
def Distinct (x : Sender) : Prop := (x.streams.map Outgoing.id).Nodup

variable {chunk : Bytes} {new : List (RetransFrame × Bytes)} {s t : Outgoing} {r : Recovery}
  {f : RetransFrame} {dropped : RetransFrame → Prop} {x y : Sender} {h : ℕ}

theorem Distinct.eq (hd : x.Distinct) (hs : s ∈ x.streams) (ht : t ∈ x.streams) (h : s.id = t.id) :
    s = t :=
  List.inj_on_of_nodup_map hd hs ht h

/-- A frame that a stream still needs is not dropped. -/
theorem Has.carries (h : Carries dropped new x.recovery r) {y : RetransFrame × Bytes} (hy : x.Has y)
    (hdropped : ¬ dropped y.1) :
    { x with recovery := r }.Has y := by
  rcases hy with hy | hy
  · rcases h.kept y hy with hd | hy | hy
    · exact absurd hd hdropped
    · exact .inl hy
    · exact .inr hy
  · exact .inr (h.acked y hy)

/-- Nothing of a reset stream comes back when nothing new is of it. -/
theorem Remembers.gone_carries (hx : x.Remembers) (h : Carries dropped new x.recovery r)
    (hs : s ∈ x.streams) (hreset : s.sendReset = true) (hnew : ∀ y ∈ new, y.1.streamID ≠ s.id) :
    (∀ y ∈ r.letters, y.1.streamID ≠ s.id) ∧ s.resetAt ≤ r.sealedLog.length ∧
      ∀ y ∈ r.sealedLog.drop s.resetAt, y.1.kind = .stream → y.1.streamID ≠ s.id := by
  rcases hx.gone s hs hreset with ⟨hheld, hle, hsealed⟩
  rcases h.sealedLog with ⟨log, hlog, hfrom⟩
  refine ⟨?_, ?_, ?_⟩
  · intro y hy
    rcases h.letters y hy with hy | hy
    · exact hheld y hy
    · exact hnew y hy
  · rw [hlog, List.length_append]
    omega
  · intro y hy hkind
    rw [hlog, List.drop_append_of_le_length hle, List.mem_append] at hy
    rcases hy with hy | hy
    · exact hsealed y hy hkind
    · rcases hfrom y hy hkind with hy | hy
      · exact hheld y hy
      · exact hnew y hy

/-- Frames are carried on: what is dropped is of reset streams, what is new is of others. -/
theorem Remembers.carries (hx : x.Remembers) (h : Carries dropped new x.recovery r)
    (hdropped : ∀ s ∈ x.streams, s.sendReset = false → ∀ f, f.streamID = s.id → ¬ dropped f)
    (hnew : ∀ s ∈ x.streams, s.sendReset = true → ∀ y ∈ new, y.1.streamID ≠ s.id) :
    { x with recovery := r }.Remembers where
  sound := h.sound
  written := hx.written
  bytes := by
    intro s hs hreset i hi
    rcases hx.bytes s hs hreset i hi with ⟨y, hy, hcarried⟩
    exact ⟨y, hy.carries h (hdropped s hs hreset y.1 hcarried.id), hcarried⟩
  ended := by
    intro s hs hreset hfin
    rcases hx.ended s hs hreset hfin with ⟨y, hy, hend⟩
    exact ⟨y, hy.carries h (hdropped s hs hreset y.1 hend.id), hend⟩
  gone := fun s hs hreset => hx.gone_carries h hs hreset (hnew s hs hreset)

/-- A new frame of a stream that is open is of no reset stream. -/
theorem Distinct.continues (hd : x.Distinct) (hs : s ∈ x.streams) (ht : t ∈ x.streams)
    (hreset : t.sendReset = true) (hf : x.Continues s f chunk) : f.streamID ≠ t.id := by
  intro heq
  rw [hf.id] at heq
  have hopen := hf.unfinished.1
  rw [hd.eq hs ht heq, hreset] at hopen
  exact Bool.noConfusion hopen

theorem Remembers.record (hx : x.Remembers) (hd : x.Distinct) (hs : s ∈ x.streams)
    (hf : x.Continues s f chunk) (hr : Carries (fun _ => False) [(f, chunk)] x.recovery r) :
    { x with recovery := r }.Remembers := by
  apply hx.carries hr
  · exact fun _ _ _ _ _ hfalse => hfalse
  · intro t ht hreset y hy
    rw [List.mem_singleton] at hy
    rw [hy]
    exact hd.continues hs ht hreset hf

/-- A chunk is written: its bytes are with the new frame, the others where they were. -/
theorem Remembers.write (hx : x.Remembers) (hd : x.Distinct) (hs : x.streams[h]? = some s)
    (hf : x.Continues s f chunk) (hr : Carries (fun _ => False) [(f, chunk)] x.recovery r)
    (hheld : (f, chunk) ∈ r.letters) :
    { x with
      recovery := r
      streams := x.streams.modify h fun s => { s with
        sendOffset := s.sendOffset + chunk.length
        finSent := s.finSent || f.fin
        sentBytes := s.sentBytes ++ chunk }
      connSent := x.connSent + chunk.length }.Remembers := by
  have hmem := List.mem_of_getElem? hs
  have hrecorded := hx.record hd hmem hf hr
  have hlength := hx.written s hmem
  refine ⟨hr.sound, ?_, ?_, ?_, ?_⟩
  · apply Modify.forall_modify hs hx.written
    simp [hlength]
  · apply Modify.forall_modify hs hrecorded.bytes
    intro _ i hi
    by_cases hold : i < s.sendOffset
    · -- an old byte: the bytes appended do not move it
      rcases hrecorded.bytes s hmem hf.unfinished.1 i hold with ⟨y, hy, hcarried⟩
      refine ⟨y, hy, hcarried.kind, hcarried.id, hcarried.low, hcarried.high, ?_⟩
      rw [hcarried.byte, List.getElem?_append_left (by omega)]
    · refine ⟨(f, chunk), .inl hheld, hf.kind, hf.id, ?_, ?_, ?_⟩
      · rw [hf.offset]
        omega
      · rw [hf.offset]
        exact hi
      · rw [hf.offset, List.getElem?_append_right (by omega), hlength]
  · apply Modify.forall_modify hs hrecorded.ended
    intro _ hfin
    have hfin' : f.fin = true := by simpa [hf.unfinished.2] using hfin
    refine ⟨(f, chunk), .inl hheld, hf.kind, hf.id, hfin', ?_⟩
    rw [hf.offset]
  · apply Modify.forall_modify hs hrecorded.gone
    intro hreset
    rw [hf.unfinished.1] at hreset
    exact Bool.noConfusion hreset

/-- A stream is reset: its frames are gone, and those of the others are not. -/
theorem Remembers.reset (hx : x.Remembers) (hd : x.Distinct) (hs : x.streams[h]? = some s)
    (hr : Carries (fun f => f.streamID = s.id) [] x.recovery r)
    (hsealed : r.sealedLog = x.recovery.sealedLog) (hgone : ∀ y ∈ r.letters, y.1.streamID ≠ s.id) :
    { x with
      recovery := r
      streams := x.streams.modify h fun s => { s with
        sendReset := true, resetAt := x.recovery.sealedLog.length } }.Remembers := by
  have hmem := List.mem_of_getElem? hs
  -- the streams are the others, as they were, and the one that was reset
  have hcases : ∀ t ∈ x.streams.modify h fun s => { s with
      sendReset := true, resetAt := x.recovery.sealedLog.length },
      (t ∈ x.streams ∧ t.id ≠ s.id) ∨
        t = { s with sendReset := true, resetAt := x.recovery.sealedLog.length } := by
    intro t ht
    rcases Modify.getElem?_of_mem_modify hs ht with ⟨i, hi, hti⟩ | ht
    · exact .inl ⟨List.mem_of_getElem? hti, fun hid => hi (Modify.place_unique hd hti hs hid)⟩
    · exact .inr ht
  refine ⟨hr.sound, ?_, ?_, ?_, ?_⟩
  · intro t ht
    rcases hcases t ht with ⟨ht, _⟩ | rfl
    · exact hx.written t ht
    · exact hx.written s hmem
  · intro t ht hreset i hi
    rcases hcases t ht with ⟨ht, hne⟩ | rfl
    · rcases hx.bytes t ht hreset i hi with ⟨y, hy, hcarried⟩
      exact ⟨y, hy.carries hr (hcarried.id ▸ hne), hcarried⟩
    · exact Bool.noConfusion hreset
  · intro t ht hreset hfin
    rcases hcases t ht with ⟨ht, hne⟩ | rfl
    · rcases hx.ended t ht hreset hfin with ⟨y, hy, hend⟩
      exact ⟨y, hy.carries hr (hend.id ▸ hne), hend⟩
    · exact Bool.noConfusion hreset
  · intro t ht hreset
    rcases hcases t ht with ⟨ht, _⟩ | rfl
    · exact hx.gone_carries hr ht hreset (by simp)
    · refine ⟨hgone, hsealed ▸ Nat.le_refl _, ?_⟩
      rw [hsealed]
      simp

theorem Move.remembers (hx : x.Remembers) (hd : x.Distinct) (h : Move ofReset x y) :
    y.Remembers := by
  cases h with
  | pass h =>
    apply hx.carries (h hx.sound)
    · rintro s hs hopen f hid ⟨t, ht, htid, hreset⟩
      rw [hd.eq ht hs (htid.trans hid), hopen] at hreset
      exact Bool.noConfusion hreset
    · simp
  | record hs hf hr => exact hx.record hd (List.mem_of_getElem? hs) hf (hr hx.sound)
  | write hs hf hr => exact hx.write hd hs hf (hr hx.sound).1 (hr hx.sound).2
  | reset hs _ hr =>
    rcases hr hx.sound with ⟨hcarries, hsealed, hgone⟩
    exact hx.reset hd hs hcarries hsealed hgone
  | make id sendMax =>
    -- nothing was written to a new stream
    have hnew : ∀ {P : Outgoing → Prop}, (∀ t ∈ x.streams, P t) →
        P ⟨id, 0, sendMax, false, false, [], 0⟩ →
        ∀ t ∈ x.streams ++ [⟨id, 0, sendMax, false, false, [], 0⟩], P t := by
      intro P hold hlast
      exact List.forall_mem_append.mpr ⟨hold, List.forall_mem_singleton.mpr hlast⟩
    refine ⟨hx.sound, hnew hx.written rfl, hnew hx.bytes ?_, hnew hx.ended ?_, hnew hx.gone ?_⟩
    · intro _ i hi
      exact absurd hi (Nat.not_lt_zero i)
    · exact fun _ hfin => Bool.noConfusion hfin
    · exact fun hreset => Bool.noConfusion hreset
  | maxData | maxStreams | note => exact { hx with }
  | maxStreamData n hs =>
    have hmem := List.mem_of_getElem? hs
    refine ⟨hx.sound, Modify.forall_modify hs hx.written ?_, Modify.forall_modify hs hx.bytes ?_,
      Modify.forall_modify hs hx.ended ?_, Modify.forall_modify hs hx.gone ?_⟩
    · have hwritten := hx.written _ hmem
      exact hwritten
    · intro hreset i hi
      rcases hx.bytes _ hmem hreset i hi with ⟨y, hy, hc⟩
      exact ⟨y, hy, { hc with }⟩
    · intro hreset hfin
      rcases hx.ended _ hmem hreset hfin with ⟨y, hy, hend⟩
      exact ⟨y, hy, { hend with }⟩
    · have hgone := hx.gone _ hmem
      exact hgone

/-- Streams are not taken away, so identifiers that are distinct were distinct before. -/
theorem Move.distinct {dropped : Sender → RetransFrame → Prop} (h : Move dropped x y)
    (hd : y.Distinct) : x.Distinct := by
  have hmodify : ∀ {k : ℕ} {f : Outgoing → Outgoing},
      ((x.streams.modify k f).map Outgoing.id).Nodup → (∀ s, (f s).id = s.id) → x.Distinct := by
    intro k f hd hf
    rw [Modify.map_modify_of_eq hf] at hd
    exact hd
  cases h with
  | pass | record | maxData | maxStreams | note => exact hd
  | make =>
    simp only [Distinct, List.map_append] at hd
    exact (List.nodup_append.mp hd).1
  | write | reset | maxStreamData => exact hmodify hd fun _ => rfl

theorem Moves.remembers (hx : x.Remembers) (h : Moves ofReset x y) : y.Distinct → y.Remembers := by
  induction h with
  | refl => exact fun _ => hx
  | tail _ hmove ih =>
    intro hd
    have hd' := hmove.distinct hd
    exact hmove.remembers (ih hd') hd'

end Sender

namespace Conn

/-- No packet of a flush is refused at the limit of the key, and no STREAM frame comes for a
stream of the peer that was accepted and has been retired. -/
def Steady (c : Conn) (op : Op) : Prop :=
  c.InTime op ∧ ∀ sp wire, op = .flushRetransmits sp wire → wire.Unrefused

variable {c : Conn}

/-- A flush drops frames of reset streams only. -/
theorem resend_dropped (hr : c.Routed) {wire : Recovery.Wire} (hopen : wire.Unrefused)
    {f : RetransFrame} (hkind : f.kind = .stream) (hd : c.Dropped wire f) : c.sender.ofReset f := by
  rcases hd with hnone | hrefused
  · unfold resend at hnone
    rw [hkind] at hnone
    split_ifs at hnone with hreset
    rcases hl : c.lookup f.streamID with _ | ⟨h, s⟩
    · simp [hl] at hreset
    · rcases hr.lookup hl with ⟨hs, hid⟩
      refine ⟨s.outgoing, ?_, hid, ?_⟩
      · exact List.mem_of_getElem? (sender_getElem? hs)
      · rw [hl] at hreset
        exact hreset
  · exact absurd hopen hrefused

theorem new_remembers (params : Params) : (new params).sender.Remembers :=
  ⟨(new_limited params).sound, by simp [sender, new], by simp [sender, new], by simp [sender, new],
    by simp [sender, new]⟩

/-- The connection knows its streams apart and has all of what was written to them. -/
def Remembering (c : Conn) : Prop := c.Single ∧ c.sender.Remembers

theorem Single.distinct (hi : c.Single) : c.sender.Distinct := by
  have hids := hi.ids
  simp only [Sender.Distinct, sender, List.map_map]
  exact hids

theorem reachable_remembering {params : Params}
    (h : (system params).ReachableBy Steady c) : c.Remembering := by
  refine h.invariant ?_ ?_
  · exact ⟨new_single params, new_remembers params⟩
  rintro d op d' ⟨hsingle, hremembers⟩ ⟨htime, hwire⟩ hstep
  have hsingle' : d'.Single := by
    apply step_single hsingle _ hstep
    intro id offset fin data hop
    subst hop
    exact htime
  have hmoves : Sender.Moves Sender.ofReset d.sender d'.sender := by
    apply step_moves ⟨rfl, hsingle.nextBidi, hsingle.routed⟩ _ hstep
    intro sp wire hop f hkind hdropped
    exact resend_dropped hsingle.routed (hwire sp wire hop) hkind hdropped
  exact ⟨hsingle', hmoves.remembers hremembers hsingle'.distinct⟩

/-- In every interleaving of writes, flushes, acknowledgments, losses, probes, resets and the
retirement of streams: every byte written to a stream that was not reset, and its FIN, is with a
STREAM frame of an acknowledged packet, or with a frame of a packet or of the queue that carries
it where and as it was written; nothing of a reset stream has been sealed since; and no payload
buffer is referred to twice. -/
theorem nothing_forgotten {params : Params} {c : Conn} (h : (system params).ReachableBy Steady c) :
    (∀ s ∈ c.streams, s.sendReset = false →
      (∀ i < s.sendOffset, ∃ y, (y ∈ c.recovery.ackedLog ∨ y ∈ c.recovery.letters) ∧
        s.outgoing.CarriedBy i y) ∧
      (s.finSent = true → ∃ y, (y ∈ c.recovery.ackedLog ∨ y ∈ c.recovery.letters) ∧
        s.outgoing.EndedBy y)) ∧
    (∀ s ∈ c.streams, s.sendReset = true → ∀ y ∈ c.recovery.sealedLog.drop s.resetAt,
      y.1.kind = .stream → y.1.streamID ≠ s.id) ∧
    ∀ b, c.recovery.references b ≤ 1 := by
  have hx := (reachable_remembering h).2
  have hmem : ∀ s ∈ c.streams, s.outgoing ∈ c.sender.streams :=
    fun s hs => List.mem_map_of_mem hs
  refine ⟨?_, ?_, ?_⟩
  · intro s hs hopen
    constructor
    · intro i hi
      rcases hx.bytes s.outgoing (hmem s hs) hopen i hi with ⟨y, hy, hcarried⟩
      exact ⟨y, hy.symm, hcarried⟩
    · intro hfin
      rcases hx.ended s.outgoing (hmem s hs) hopen hfin with ⟨y, hy, hend⟩
      exact ⟨y, hy.symm, hend⟩
  · intro s hs hreset
    exact (hx.gone s.outgoing (hmem s hs) hreset).2.2
  · intro b
    have honce := hx.sound.custody.once b
    exact Nat.le_of_add_right_le honce

/-- Two uploads: a packet is acknowledged and its buffer used again, one is sent again for a
probe, one upload ends and the other is reset. The four bytes of the first are all held. -/
theorem nothing_forgotten_uploads :
    ∃ c, (system { smallServer with isServer := false }).ReachableBy Steady c ∧
      c.streams.map (fun s => (s.id, s.sendOffset, s.finSent, s.sendReset)) =
        [(0, 4, true, false), (4, 3, false, true)] ∧
      c.recovery.letters.map Prod.snd = [[1, 2, 3], [4]] ∧
      (∀ s ∈ c.streams, s.sendReset = false → ∀ i < s.sendOffset,
        ∃ y, (y ∈ c.recovery.ackedLog ∨ y ∈ c.recovery.letters) ∧ s.outgoing.CarriedBy i y) ∧
      ∀ b, c.recovery.references b ≤ 1 := by
  have hrun : ∃ c, (system { smallServer with isServer := false }).ReachableBy Steady c ∧
      c.streams.map (fun s => (s.id, s.sendOffset, s.finSent, s.sendReset)) =
        [(0, 4, true, false), (4, 3, false, true)] ∧
      c.recovery.letters.map Prod.snd = [[1, 2, 3], [4]] := by
    apply System.exists_reachableBy
      [.establish, .openStream fairWire, .openStream fairWire, .send 0 [1, 2, 3] false fairWire,
       .send 1 [7, 8] false fairWire, .recovery .handshakeDone,
       .recovery (.ackFrame .app [(1, 1)] 0 1), .recovery .onPTO, .flushRetransmits .app fairWire,
       .send 0 [4] true fairWire, .send 1 [9] false fairWire, .reset 1 0 fairWire]
    · refine (show System.RunMeets _ InTime _ _ from ?_).and ?_
      · decide +kernel
      · intro op hop sp wire heq
        subst heq
        simp only [List.mem_cons, reduceCtorEq, Op.flushRetransmits.injEq, List.not_mem_nil,
          or_false, false_or] at hop
        rw [hop.2]
        intro pn
        simp [fairWire]
    · decide +kernel
  rcases hrun with ⟨c, hreach, hstreams, hletters⟩
  rcases nothing_forgotten hreach with ⟨hheld, _, honce⟩
  exact ⟨c, hreach, hstreams, hletters, fun s hs hopen => (hheld s hs hopen).1, honce⟩

end Conn

end Quic
