import PoseidonHttp.Quic.Custody
import PoseidonHttp.Quic.StreamLife

/-!
# The send side of a connection

What a connection sends is decided by the limits its peer has set, by how far its streams have
come and by the frames it still holds. `Sender` is that part of a connection. Its moves say once
what any step can do to it: frames pass on, a chunk is written, a stream is reset or made, a
limit is set. `Conn.step_moves` is the simulation: every step of a connection is a run of moves,
so what every move keeps, a connection keeps.

A move that passes frames on may drop some. Which ones is a parameter, since what is said of
limits does not care, and what is said of retransmission does.
-/

namespace Quic

open Header (Bytes)

/-- The send side of a stream. -/
structure Outgoing where
  id : ℕ
  sendOffset : ℕ
  sendMax : ℕ
  finSent : Bool
  sendReset : Bool
  sentBytes : Bytes
  resetAt : ℕ
  deriving DecidableEq

def Stream.outgoing (s : Stream) : Outgoing :=
  ⟨s.id, s.sendOffset, s.sendMax, s.finSent, s.sendReset, s.sentBytes, s.resetAt⟩

structure Sender where
  recovery : Recovery
  streams : List Outgoing
  grants : List Grant
  connSent : ℕ
  connMax : ℕ
  openedBidi : ℕ
  openedUni : ℕ
  maxStreamsBidi : ℕ
  maxStreamsUni : ℕ
  wrapped : Bool

def Conn.sender (c : Conn) : Sender where
  recovery := c.recovery
  streams := c.streams.map Stream.outgoing
  grants := c.grants
  connSent := c.connSent
  connMax := c.connMax
  openedBidi := c.openedBidi
  openedUni := c.openedUni
  maxStreamsBidi := c.maxStreamsBidi
  maxStreamsUni := c.maxStreamsUni
  wrapped := c.wrapped

namespace Recovery

/-- Nothing is referred to twice, and packet numbers are used once. -/
structure Sound (r : Recovery) : Prop where
  balanced : r.Balanced
  custody : r.Custody none

/-- The STREAM frames held are those held before and the new ones. One leaves when it is
acknowledged or dropped, and only those held are sealed. -/
structure Carries (dropped : RetransFrame → Prop) (new : List (RetransFrame × Bytes))
    (r r' : Recovery) : Prop where
  sound : r'.Sound
  letters : ∀ x ∈ r'.letters, x ∈ r.letters ∨ x ∈ new
  sealedLog : ∃ log, r'.sealedLog = r.sealedLog ++ log ∧
    ∀ x ∈ log, x.1.kind = .stream → x ∈ r.letters ∨ x ∈ new
  kept : ∀ x ∈ r.letters, dropped x.1 ∨ x ∈ r'.letters ∨ x ∈ r'.ackedLog
  acked : ∀ x ∈ r.ackedLog, x ∈ r'.ackedLog

variable {dropped : RetransFrame → Prop} {r r' r'' : Recovery} {new : List (RetransFrame × Bytes)}
  {src : Bytes}

theorem Passes.carries (hs : r.Sound) (hb : r'.Balanced) (h : Passes dropped r r') :
    Carries dropped [] r r' where
  sound := ⟨hb, hs.custody.passes h⟩
  letters := fun _ hx => .inl (h.letters hx)
  sealedLog := by
    rcases h.sealedLog with ⟨log, hlog, hfrom⟩
    exact ⟨log, hlog, fun x hx hkind => .inl (hfrom x hx hkind)⟩
  kept := h.kept
  acked := h.acked

theorem kind_of_mem_letters {x : RetransFrame × Bytes} (hx : x ∈ r.letters) :
    x.1.kind = .stream := by
  rcases mem_letters.mp hx with ⟨f, _, hkind, rfl⟩
  exact hkind

/-- More STREAM frames may be dropped. -/
theorem Carries.mono {dropped' : RetransFrame → Prop}
    (h : Carries dropped new r r') (hmono : ∀ f, f.kind = .stream → dropped f → dropped' f) :
    Carries dropped' new r r' := by
  refine { h with kept := ?_ }
  intro x hx
  have hkind := kind_of_mem_letters hx
  exact (h.kept x hx).imp (hmono x.1 hkind) id

/-- A buffer in hand may be let go. -/
theorem Custody.drop {hand : Option ℕ} (hc : r.Custody hand) : r.Custody none where
  once := by
    intro b
    have honce := hc.once b
    have hnone : inHand none b = 0 := rfl
    omega
  allocated := by
    intro b hb
    have hnone : inHand none b = 0 := rfl
    exact hc.allocated b (by omega)
  placed := hc.placed

theorem Lends.carries {data : Option ℕ} (hs : r.Sound) (h : Lends src data r r') :
    Carries dropped [] r r' where
  sound := ⟨hs.balanced.same h.same, h.custody.drop⟩
  letters := fun _ hx => .inl (h.mem_letters.mp hx)
  sealedLog := ⟨[], by simp [h.sealedLog], by simp⟩
  kept := fun _ hx => .inr (.inl (h.mem_letters.mpr hx))
  acked := fun _ hx => h.ackedLog ▸ hx

theorem Lends.carried_new {data : Option ℕ} (h : Lends src data r r')
    {f : RetransFrame} (hf : f.data = data) : r'.carried f = (f, src) := by
  rw [Recovery.carried, h.payload f hf]

/-- A new frame takes a buffer and goes out in a packet. -/
theorem Lends.joins {f : RetransFrame} {sp : Space} (h : Lends src f.data r r')
    (hb : r''.Balanced) (hj : Joins sp (some f) r' r'') (hplaced : f.kind = .stream → sp = .app) :
    Carries dropped [(f, src)] r r'' where
  sound := by
    refine ⟨hb, hj.custody h.custody ?_⟩
    intro g hg
    rw [Option.mem_some_iff] at hg
    exact hg ▸ hplaced
  letters := by
    intro x hx
    rcases hj.mem_letters.mp hx with hx | ⟨g, hg, _, _, rfl⟩
    · exact .inl (h.mem_letters.mp hx)
    · rw [Option.mem_some_iff] at hg
      subst hg
      right
      exact List.mem_singleton.mpr (h.carried_new rfl)
  sealedLog := by
    rcases hj.sealedLog with ⟨log, hlog, hfrom⟩
    refine ⟨log, by rw [hlog, h.sealedLog], ?_⟩
    intro x hx _
    rcases List.mem_map.mp (hfrom x hx) with ⟨g, hg, rfl⟩
    rw [Option.mem_toList, Option.some.injEq] at hg
    subst hg
    right
    exact List.mem_singleton.mpr (h.carried_new rfl)
  kept := fun x hx => .inr (.inl (hj.mem_letters.mpr (.inl (h.mem_letters.mpr hx))))
  acked := by
    intro x hx
    rw [hj.ackedLog, h.ackedLog]
    exact hx

/-- A new frame that is not of a stream is none of the STREAM frames. -/
theorem Carries.plain (h : Carries dropped new r r')
    (hnew : ∀ x ∈ new, x.1.kind ≠ .stream) : Carries dropped [] r r' := by
  refine { h with letters := ?_, sealedLog := ?_ }
  · intro x hx
    rcases h.letters x hx with hx' | hx'
    · exact .inl hx'
    · exact absurd (kind_of_mem_letters hx) (hnew x hx')
  · rcases h.sealedLog with ⟨log, hlog, hfrom⟩
    refine ⟨log, hlog, ?_⟩
    intro x hx hkind
    rcases hfrom x hx hkind with hx' | hx'
    · exact .inl hx'
    · exact absurd hkind (hnew x hx')

end Recovery

namespace Sender

open Recovery (Carries)

/-- What the limits of the stream, of the connection and of offsets leave. -/
def credit (x : Sender) (s : Outgoing) : ℕ :=
  min (min (sub64 s.sendMax s.sendOffset) (sub64 x.connMax x.connSent))
    (sub64 maxVarint s.sendOffset)

/-- A subtraction of `credit` wraps. -/
def wraps (x : Sender) (s : Outgoing) : Bool :=
  decide (s.sendMax < s.sendOffset) || decide (x.connMax < x.connSent) ||
    decide (maxVarint < s.sendOffset)

/-- A STREAM frame that continues the stream within the credit. -/
structure Continues (x : Sender) (s : Outgoing) (f : RetransFrame) (chunk : Bytes) : Prop where
  unfinished : s.sendReset = false ∧ s.finSent = false
  kind : f.kind = .stream
  id : f.streamID = s.id
  offset : f.offset = s.sendOffset
  admitted : chunk = [] ∨ chunk.length ≤ x.credit s

/-- What can happen to the send side of a connection. -/
inductive Move (dropped : Sender → RetransFrame → Prop) (x : Sender) : Sender → Prop
  /-- frames pass on -/
  | pass {r : Recovery} (h : x.recovery.Sound → Carries (dropped x) [] x.recovery r) :
    Move dropped x { x with recovery := r }
  /-- a frame is recorded, but the write fails and is not counted -/
  | record {h : ℕ} {s : Outgoing} {f : RetransFrame} {chunk : Bytes} {r : Recovery}
    (hs : x.streams[h]? = some s) (hf : x.Continues s f chunk)
    (hr : x.recovery.Sound → Carries (fun _ => False) [(f, chunk)] x.recovery r) :
    Move dropped x { x with recovery := r }
  /-- a frame is written -/
  | write {h : ℕ} {s : Outgoing} {f : RetransFrame} {chunk : Bytes} {r : Recovery}
    (hs : x.streams[h]? = some s) (hf : x.Continues s f chunk)
    (hr : x.recovery.Sound → Carries (fun _ => False) [(f, chunk)] x.recovery r ∧
      (f, chunk) ∈ r.letters) :
    Move dropped x { x with
      recovery := r
      streams := x.streams.modify h fun s => { s with
        sendOffset := s.sendOffset + chunk.length
        finSent := s.finSent || f.fin
        sentBytes := s.sentBytes ++ chunk }
      connSent := x.connSent + chunk.length }
  /-- a stream is reset, and its frames are dropped -/
  | reset {h : ℕ} {s : Outgoing} {r : Recovery} (hs : x.streams[h]? = some s)
    (hopen : s.sendReset = false ∧ s.finSent = false)
    (hr : x.recovery.Sound →
      Carries (fun f => f.streamID = s.id) [] x.recovery r ∧ r.sealedLog = x.recovery.sealedLog ∧
        ∀ y ∈ r.letters, y.1.streamID ≠ s.id) :
    Move dropped x { x with
      recovery := r
      streams := x.streams.modify h fun s => { s with
        sendReset := true, resetAt := x.recovery.sealedLog.length } }
  /-- a stream is made, with the limit the peer has set for such streams -/
  | make (id sendMax : ℕ) (bidi uni : ℕ) (hbidi : bidi ≤ max x.openedBidi x.maxStreamsBidi)
    (huni : uni ≤ max x.openedUni x.maxStreamsUni) :
    Move dropped x { x with
      streams := x.streams ++ [⟨id, 0, sendMax, false, false, [], 0⟩]
      grants := x.grants ++ [.streamData id sendMax]
      openedBidi := bidi
      openedUni := uni }
  /-- the peer sets a limit, and it may be no higher than the old one -/
  | maxData (n : ℕ) :
    Move dropped x { x with grants := x.grants ++ [.data n], connMax := max x.connMax n }
  | maxStreamData {h : ℕ} {s : Outgoing} (n : ℕ) (hs : x.streams[h]? = some s) :
    Move dropped x { x with
      grants := x.grants ++ [.streamData s.id n]
      streams := x.streams.modify h fun s => { s with sendMax := max s.sendMax n } }
  | maxStreams (uni : Bool) (n : ℕ) :
    Move dropped x { x with
      grants := x.grants ++ [.streams uni n]
      maxStreamsBidi := if uni then x.maxStreamsBidi else max x.maxStreamsBidi n
      maxStreamsUni := if uni then max x.maxStreamsUni n else x.maxStreamsUni }
  /-- the credit is computed -/
  | note {h : ℕ} {s : Outgoing} (hs : x.streams[h]? = some s) :
    Move dropped x { x with wrapped := x.wrapped || x.wraps s }

/-- A run of moves. -/
def Moves (dropped : Sender → RetransFrame → Prop) : Sender → Sender → Prop :=
  Relation.ReflTransGen (Move dropped)

theorem Move.moves {dropped : Sender → RetransFrame → Prop} {x y z : Sender}
    (h : Move dropped x y) (heq : z = y) : Moves dropped x z :=
  heq ▸ Relation.ReflTransGen.single h

end Sender

namespace Conn

open Recovery (Carries Wire sealPacket_balanced sealPacket_joins)
open Sender (Move Moves)

variable {dropped : Sender → RetransFrame → Prop}

/-! ## What the send side does not see -/

theorem modifyStream_sender (c : Conn) (h : ℕ) {f : Stream → Stream}
    (hf : ∀ s, (f s).outgoing = s.outgoing) : (c.modifyStream h f).sender = c.sender := by
  simp only [sender, modifyStream, Modify.map_modify_of_eq hf]

@[simp] theorem maybeRetire_sender (c : Conn) (h : ℕ) : (c.maybeRetire h).sender = c.sender := by
  unfold maybeRetire
  split
  · rfl
  · split_ifs <;> rfl

/-- What arrives, and reading it, is not seen by the send side. -/
theorem sender_hears {R : Sender → Prop} : Hears fun c => R c.sender where
  charge {c h} _ _ hr _ _ := by
    rw [← modifyStream_sender c h] at hr
    · exact hr
    · exact fun _ => rfl
  modify h _ _ _ hr := by
    rw [modifyStream_sender]
    · exact hr
    · exact fun _ => rfl
  retire h hr := by
    rw [maybeRetire_sender]
    exact hr
  count _ _ hr := hr

/-! ## Packets with nothing of a stream -/

theorem writeAppFrames_plain (c : Conn) {frame : Option RetransFrame} (wire : Wire)
    (hplain : ∀ f ∈ frame, f.kind ≠ .stream ∧ f.data = none) :
    Moves dropped c.sender (c.writeAppFrames frame wire).2.sender := by
  unfold writeAppFrames
  split_ifs
  · exact .refl
  · apply Relation.ReflTransGen.single
    apply Move.pass
    intro hs
    exact (Recovery.sealPacket_passes hs.balanced .app true _ wire.now hplain _).carries hs
      (sealPacket_balanced hs.balanced .app true frame _ wire.now)

theorem emitStreamsBlocked_moves (c : Conn) (uni : Bool) (limit : ℕ) (wire : Wire) :
    Moves dropped c.sender (c.emitStreamsBlocked uni limit wire).sender := by
  have hwrite : Moves dropped c.sender
      (c.writeAppFrames (some ⟨.streamsBlocked, 0, limit, 0, none, uni⟩) wire).2.sender :=
    writeAppFrames_plain c wire (by simp)
  unfold emitStreamsBlocked
  split_ifs
  · exact .refl
  · exact .refl
  · split
    all_goals
      rename_i heq
      rw [heq] at hwrite
      exact hwrite

theorem emitBlocked_moves (c : Conn) (h : ℕ) (s : Stream) (kind : BlockKind)
    (wire : Wire) : Moves dropped c.sender (c.emitBlocked h s kind wire).sender := by
  unfold emitBlocked
  split
  · split_ifs
    · exact .refl
    · have hlatch : (c.modifyStream h fun s => { s with sdBlocked := some s.sendMax }).sender =
          c.sender := by
        apply modifyStream_sender
        exact fun _ => rfl
      rw [← hlatch]
      exact writeAppFrames_plain _ wire (by simp)
  · split_ifs
    · exact .refl
    · exact writeAppFrames_plain { c with dataBlocked := some c.connMax } wire (by simp)
  · exact .refl

theorem stopSending_moves (c : Conn) (h errCode : ℕ) (wire : Wire) :
    Moves dropped c.sender (c.stopSending h errCode wire).2.sender := by
  unfold stopSending
  split
  · exact .refl
  split_ifs
  · exact .refl
  · exact .refl
  · have hstop : ((c.modifyStream h fun s => { s with recvReset := true }).maybeRetire h).sender =
        c.sender := by
      rw [maybeRetire_sender, modifyStream_sender]
      exact fun _ => rfl
    rw [← hstop]
    exact writeAppFrames_plain _ wire (by simp)

/-! ## Writing and resetting -/

variable {c : Conn} {s : Stream} {h : ℕ}

theorem sender_getElem? (hs : c.streams[h]? = some s) : c.sender.streams[h]? = some s.outgoing := by
  simp [sender, hs]

/-- What `grantable` admits is within the credit. -/
theorem grantable_le (c : Conn) (s : Stream) (remaining paced : ℕ) :
    (c.grantable s remaining paced).1 ≤ c.sender.credit s.outgoing := by
  unfold grantable
  change _ ≤ min (min (sub64 s.sendMax s.sendOffset) (sub64 c.connMax c.connSent))
    (sub64 maxVarint s.sendOffset)
  dsimp only [subWraps]
  split_ifs <;> dsimp only <;> omega

/-- No subtraction wraps but those of the credit: the congestion window is compared before it is
subtracted from. -/
theorem grantable_wraps (c : Conn) (s : Stream) (remaining paced : ℕ) :
    (c.grantable s remaining paced).2.2 = c.sender.wraps s.outgoing := by
  have hcredit : c.sender.wraps s.outgoing = (decide (s.sendMax < s.sendOffset) ||
    decide (c.connMax < c.connSent) || decide (maxVarint < s.sendOffset)) := rfl
  rw [hcredit]
  unfold grantable
  dsimp only [subWraps]
  split_ifs with _ _ hfull <;> dsimp only
  all_goals
    have hwindow : ¬ c.recovery.cwnd < c.recovery.bytesInFlight := by omega
    rw [decide_eq_false hwindow, Bool.or_false]

theorem advance_sender (c : Conn) (h : ℕ) (chunk : Bytes) (fin : Bool) :
    (c.advance h chunk fin).sender = { c.sender with
      streams := c.sender.streams.modify h fun s => { s with
        sendOffset := s.sendOffset + chunk.length
        finSent := s.finSent || fin
        sentBytes := s.sentBytes ++ chunk }
      connSent := c.sender.connSent + chunk.length } := by
  unfold advance
  -- the send side does not see the stream retire
  rw [apply_ite sender, maybeRetire_sender, ite_self]
  simp only [sender, modifyStream, Sender.mk.injEq, true_and, and_true]
  apply Modify.map_modify
  exact fun _ => rfl

/-- A packet is not made, or it is recorded with its frame. -/
theorem writeAppFrames_cases (c : Conn) (frame : Option RetransFrame) (wire : Wire) :
    ((c.writeAppFrames frame wire).1.isSome = true ∧
      (c.writeAppFrames frame wire).2.sender = c.sender) ∨
    ∃ outcome, outcome ≠ .limit ∧ (c.writeAppFrames frame wire).2.sender = { c.sender with
      recovery := c.recovery.sealPacket .app true frame outcome wire.now } := by
  unfold writeAppFrames
  split_ifs
  · exact .inl ⟨rfl, rfl⟩
  · generalize wire.outcome (c.recovery.sendPN .app) = outcome
    by_cases hlimit : outcome = .limit
    · subst hlimit
      exact .inl ⟨rfl, rfl⟩
    · exact .inr ⟨outcome, hlimit, rfl⟩

/-- `writeStreamFrame` continues the stream, and counts the chunk when it is written. -/
theorem writeStreamFrame_moves {chunk : Bytes} (fin : Bool) (wire : Wire)
    (hs : c.streams[h]? = some s) (hopen : s.sendReset = false ∧ s.finSent = false)
    (hchunk : chunk = [] ∨ chunk.length ≤ c.sender.credit s.outgoing) :
    Moves dropped c.sender (c.writeStreamFrame h s chunk fin wire).2.sender := by
  have hlends : c.recovery.Sound → Recovery.Lends chunk (c.keepChunk s chunk fin).1.data
      c.recovery (c.keepChunk s chunk fin).2.recovery :=
    fun hsound => Recovery.retransCopy_lends hsound.custody chunk 0
  have hcontinues : c.sender.Continues s.outgoing (c.keepChunk s chunk fin).1 chunk :=
    ⟨hopen, rfl, rfl, rfl, hchunk⟩
  have hfin : (c.keepChunk s chunk fin).1.fin = fin := rfl
  have hkept : (c.keepChunk s chunk fin).2.sender =
      { c.sender with recovery := (c.keepChunk s chunk fin).2.recovery } := rfl
  unfold writeStreamFrame
  dsimp only
  generalize (c.keepChunk s chunk fin).1 = f at hlends hcontinues hfin
  generalize (c.keepChunk s chunk fin).2 = d at hlends hkept
  -- the packet that takes the frame
  have htaken : ∀ outcome, outcome ≠ .limit → c.recovery.Sound →
      Carries (fun _ => False) [(f, chunk)] c.recovery
        (d.recovery.sealPacket .app true (some f) outcome wire.now) ∧
        (f, chunk) ∈ (d.recovery.sealPacket .app true (some f) outcome wire.now).letters := by
    intro outcome hlimit hsound
    have hl := hlends hsound
    have hb := hsound.balanced.same hl.same
    have hj := sealPacket_joins hb .app true (some f) wire.now hlimit
    refine ⟨hl.joins (sealPacket_balanced hb .app true _ outcome wire.now) hj
      (fun _ => rfl), hj.mem_letters.mpr (.inr ⟨f, rfl, rfl, hcontinues.kind, ?_⟩)⟩
    exact hl.carried_new rfl
  rcases writeAppFrames_cases d (some f) wire with ⟨herr, hsender⟩ | ⟨outcome, hlimit, hsender⟩
  · -- no packet: the copy is let go
    split
    · rename_i heq
      rw [heq] at hsender
      rw [hsender, hkept]
      apply Relation.ReflTransGen.single
      apply Move.pass
      exact fun hsound => (hlends hsound).carries hsound
    · rename_i heq
      rw [heq] at herr
      simp at herr
  · rw [hkept] at hsender
    split
    · rename_i heq
      rw [heq] at hsender
      rw [hsender]
      apply Relation.ReflTransGen.single
      apply Move.record (sender_getElem? hs) hcontinues
      exact fun hsound => (htaken outcome hlimit hsound).1
    · rename_i heq
      rw [heq] at hsender
      rw [advance_sender, hsender, ← hfin]
      apply Relation.ReflTransGen.single
      apply Move.write (sender_getElem? hs) hcontinues
      exact htaken outcome hlimit

theorem noteWraps_moves (hs : c.streams[h]? = some s) (remaining paced : ℕ) :
    Moves dropped c.sender (c.noteWraps (c.grantable s remaining paced).2.2).sender := by
  rw [grantable_wraps]
  exact .single (Move.note (sender_getElem? hs))

theorem send_moves (c : Conn) (h : ℕ) (data : Bytes) (fin : Bool) (wire : Wire) :
    Moves dropped c.sender (c.send h data fin wire).2.2.sender := by
  apply send_keeps (P := fun d => Moves dropped c.sender d.sender)
  · intro d s remaining paced hd hs
    exact hd.trans (noteWraps_moves hs remaining paced)
  · intro d s kind hd _
    exact hd.trans (emitBlocked_moves d h s kind wire)
  · intro d s chunk last hd hs hreset hfin hchunk
    refine hd.trans (writeStreamFrame_moves last wire hs ⟨hreset, hfin⟩ ?_)
    rcases hchunk with hchunk | ⟨remaining, paced, hchunk⟩
    · exact .inl hchunk
    · exact .inr (hchunk.trans (grantable_le d s remaining paced))
  · exact .refl

theorem reset_moves (c : Conn) (h errCode : ℕ) (wire : Wire) :
    Moves dropped c.sender (c.reset h errCode wire).2.sender := by
  unfold reset
  split
  · exact .refl
  rename_i s hs
  split_ifs with hended
  · exact .refl
  · exact .refl
  · have hopen : s.sendReset = false ∧ s.finSent = false := by simpa [and_comm] using hended
    -- the stream is marked and its frames are scrubbed, then the frame goes out
    have hscrub : Moves dropped c.sender ({ c.modifyStream h fun s => { s with
        sendReset := true, resetAt := c.recovery.sealedLog.length } with
        recovery := c.recovery.scrubResetStreamData s.id } : Conn).sender := by
      refine (Move.reset (r := c.recovery.scrubResetStreamData s.id)
        (sender_getElem? hs) hopen ?_).moves ?_
      · intro hsound
        have hpasses := Recovery.scrubResetStreamData_passes c.recovery s.id
        have hbalanced := Recovery.scrubResetStreamData_balanced hsound.balanced s.id
        refine ⟨(hpasses.carries hsound hbalanced).mono ?_, rfl, ?_⟩
        · intro f _ hf
          exact (of_decide_eq_true hf).2
        · exact fun y hy => Recovery.scrubResetStreamData_letters hy
      · simp only [sender, modifyStream, Sender.mk.injEq, true_and, and_true]
        apply Modify.map_modify
        exact fun _ => rfl
    have hplain : ∀ f ∈ some (RetransFrame.mk .reset s.id s.sendOffset errCode none false),
        f.kind ≠ .stream ∧ f.data = none := by simp
    have hwrite := hscrub.trans (writeAppFrames_plain _ wire hplain)
    dsimp only
    split
    · rename_i heq
      rw [← congrArg (fun res : Option Error × Conn => res.2.sender) heq]
      exact hwrite
    · rename_i heq
      rw [maybeRetire_sender, ← congrArg (fun res : Option Error × Conn => res.2.sender) heq]
      exact hwrite

theorem onStopSending_moves (c : Conn) (id errCode : ℕ) (wire : Wire) :
    Moves dropped c.sender (c.onStopSending id errCode wire).2.sender := by
  unfold onStopSending
  split
  · exact .refl
  · split
    · exact reset_moves c _ errCode wire
    · exact .refl

/-! ## Making streams and setting limits -/

/-- A stream is made with the limit the peer has set for its kind, and the counters of opened
streams stay within the limits. -/
theorem make_moves {d : Conn} {id sendMax bidi uni : ℕ} (hmax : c.initialStreamData id = sendMax)
    (hbidi : bidi ≤ max c.openedBidi c.maxStreamsBidi)
    (huni : uni ≤ max c.openedUni c.maxStreamsUni)
    (hd : d.sender = ({ c.addStream id sendMax with openedBidi := bidi, openedUni := uni } :
      Conn).sender) : Moves dropped c.sender d.sender := by
  apply (Move.make id sendMax bidi uni hbidi huni).moves
  rw [hd]
  simp [sender, addStream, Stream.outgoing, Stream.new, hmax]

theorem openStream_moves {p : Params} (hk : c.Kept p) (wire : Wire) :
    Moves dropped c.sender (c.openStream wire).2.sender := by
  unfold openStream
  split_ifs
  · exact emitStreamsBlocked_moves c false _ wire
  · have hbidi : c.openedBidi + 1 ≤ max c.openedBidi c.maxStreamsBidi := by omega
    refine make_moves ?_ hbidi (Nat.le_max_left _ _) rfl
    simp [initialStreamData, hk.ours_bidi]

theorem openUniStream_moves (c : Conn) (wire : Wire) :
    Moves dropped c.sender (c.openUniStream wire).2.sender := by
  unfold openUniStream
  split_ifs
  · exact emitStreamsBlocked_moves c true _ wire
  · have huni : c.openedUni + 1 ≤ max c.openedUni c.maxStreamsUni := by omega
    refine make_moves ?_ (Nat.le_max_left _ _) huni rfl
    simp [initialStreamData, ours_uni]

theorem onStream_moves (c : Conn) (id offset : ℕ) (fin : Bool) (data : Bytes) :
    Moves dropped c.sender (c.onStream id offset fin data).2.sender := by
  apply Hears.onStream sender_hears
  · exact .refl
  · intro d _ hd
    rcases onUnknownStream_ok hd with ⟨_, uni, bidi, rfl⟩
    exact make_moves rfl (Nat.le_max_left _ _) (Nat.le_max_left _ _) rfl

theorem onMaxData_moves (c : Conn) (maximum : ℕ) :
    Moves dropped c.sender (c.onMaxData maximum).sender := by
  apply (Move.maxData maximum).moves
  unfold onMaxData
  dsimp only
  split_ifs with hraise
  · have hmax : max c.connMax maximum = maximum := Nat.max_eq_right (Nat.le_of_lt hraise)
    simp [sender, granted, hmax]
  · have hmax : max c.connMax maximum = c.connMax := Nat.max_eq_left (Nat.le_of_not_lt hraise)
    simp [sender, granted, hmax]

theorem onMaxStreamData_moves (id maximum : ℕ)
    (hrouted : ∀ h s, c.lookup id = some (h, s) → c.streams[h]? = some s ∧ s.id = id) :
    Moves dropped c.sender (c.onMaxStreamData id maximum).2.sender := by
  unfold onMaxStreamData
  split
  · exact .refl
  split
  · rename_i h s hl
    rcases hrouted h s hl with ⟨hs, rfl⟩
    apply (Move.maxStreamData maximum (sender_getElem? hs)).moves
    split_ifs with hraise
    · have hmax : max s.sendMax maximum = maximum := Nat.max_eq_right (Nat.le_of_lt hraise)
      simp only [sender, granted, modifyStream, Sender.mk.injEq, true_and, and_true]
      refine ⟨?_, rfl⟩
      refine (Modify.map_modify (k := fun s => { s with sendMax := maximum }) ?_ _ h).trans ?_
      · exact fun _ => rfl
      · apply Modify.modify_congr (sender_getElem? hs)
        simp [Stream.outgoing, hmax]
    · have hmax : max s.sendMax maximum = s.sendMax := Nat.max_eq_left (Nat.le_of_not_lt hraise)
      simp only [sender, granted, Sender.mk.injEq, true_and, and_true]
      refine ⟨?_, rfl⟩
      refine (List.modify_id h _).symm.trans ?_
      apply Modify.modify_congr (sender_getElem? hs)
      simp [Stream.outgoing, hmax]
  · exact .refl

theorem onMaxStreams_moves (c : Conn) (uni : Bool) (maximum : ℕ) :
    Moves dropped c.sender (c.onMaxStreams uni maximum).2.sender := by
  unfold onMaxStreams
  dsimp only
  split_ifs with hbad huni hraise hraise
  · exact .refl
  all_goals
    apply (Move.maxStreams uni maximum).moves
    simp only [sender, granted] at hraise ⊢
    simp [huni]
    try omega

/-! ## Every step is a run of moves -/

theorem resend_faithful (c : Conn) : Recovery.Faithful c.resend := by
  intro f f' h
  unfold resend at h
  split at h
  · split_ifs at h
    rcases Option.some.inj h with rfl
    exact ⟨rfl, rfl, fun _ => rfl⟩
  · rename_i hkind
    dsimp only at h
    split_ifs at h
    rcases Option.some.inj h with rfl
    exact ⟨rfl, rfl, fun hstream => by simp [hkind] at hstream⟩
  · rcases Option.some.inj h with rfl
    exact ⟨rfl, rfl, fun _ => rfl⟩

theorem flushCrypto_moves (c : Conn) (sp : Space) (offset : ℕ) (data : Bytes) (cap : ℕ)
    (outcome : Recovery.Sealing) (now : ℤ) :
    Moves dropped c.sender (c.flushCrypto sp offset data cap outcome now).sender := by
  apply (Move.pass ?_).moves rfl
  intro hsound
  have hlends := Recovery.allocate_lends hsound.custody cap data
  have hb := hsound.balanced.same hlends.same
  by_cases hlimit : outcome = .limit
  · subst hlimit
    exact hlends.carries hsound
  · have hj := sealPacket_joins hb sp true
      (some ⟨.crypto, 0, offset, 0, (c.recovery.allocate cap data).1, false⟩) now hlimit
    refine (hlends.joins (sealPacket_balanced hb sp true _ outcome now) hj ?_).plain ?_
    · simp
    · simp

/-- A STREAM frame that a flush may not send again. -/
def Dropped (c : Conn) (wire : Wire) (f : RetransFrame) : Prop :=
  c.resend f = none ∨ ¬ wire.Unrefused

theorem flushRetransmits_moves (sp : Space) (wire : Wire)
    (hdropped : ∀ f, f.kind = .stream → c.Dropped wire f → dropped c.sender f) :
    Moves dropped c.sender (c.flushRetransmits sp wire).sender := by
  apply (Move.pass ?_).moves rfl
  intro hsound
  have hpasses := Recovery.flushRetransmits_passes hsound.balanced hsound.custody sp
    c.resend_faithful wire
  exact (hpasses.carries hsound
    (Recovery.flushRetransmits_balanced hsound.balanced sp c.resend wire)).mono hdropped

/-- Every step of a connection is a run of moves of its send side. -/
theorem step_moves {p : Params} {c' : Conn} {op : Op} (hk : c.Kept p)
    (hdropped : ∀ sp wire, op = .flushRetransmits sp wire →
      ∀ f, f.kind = .stream → c.Dropped wire f → dropped c.sender f) (h : c.step op = some c') :
    Moves dropped c.sender c'.sender := by
  cases op <;> simp only [step, Option.some.injEq, Option.ite_none_left_eq_some,
    Option.ite_none_right_eq_some, Option.map_eq_some_iff] at h
  case recovery op =>
    rcases h with ⟨hown, r, hstep, rfl⟩
    apply (Move.pass ?_).moves rfl
    intro hsound
    have hpasses := Recovery.step_own_passes hsound.balanced hsound.custody hown hstep
    exact (hpasses.carries hsound (Recovery.step_balanced hsound.balanced hstep)).mono
      fun _ _ hf => hf.elim
  case flushRetransmits sp wire =>
    rcases h with ⟨_, rfl⟩
    exact flushRetransmits_moves sp wire (hdropped sp wire rfl)
  all_goals subst h
  case crypto sp offset data cap outcome now =>
    exact flushCrypto_moves c sp offset data cap outcome now
  case openStream wire => exact openStream_moves hk wire
  case openUniStream wire => exact openUniStream_moves c wire
  case send h data fin wire => exact send_moves c h data fin wire
  case reset h errCode wire => exact reset_moves c h errCode wire
  case stopSending h errCode wire => exact stopSending_moves c h errCode wire
  case recv h => exact Hears.recv sender_hears .refl h
  case onStream id offset fin data => exact onStream_moves c id offset fin data
  case onResetStream id finalSize => exact Hears.onResetStream sender_hears .refl id finalSize
  case onStopSending id errCode wire => exact onStopSending_moves c id errCode wire
  case onMaxData maximum => exact onMaxData_moves c maximum
  case onMaxStreamData id maximum =>
    exact onMaxStreamData_moves id maximum fun h s hl => hk.routed.lookup hl
  case onMaxStreams uni maximum => exact onMaxStreams_moves c uni maximum
  all_goals exact .refl

end Conn

end Quic
