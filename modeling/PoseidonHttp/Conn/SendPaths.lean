import PoseidonHttp.Conn.DataV
import PoseidonHttp.Lib.Chunks

/-!
# All ways to send a body write the same frames

`headerFrames` and `dataFrames` say which frames a request is. A spec lemma for each
function of the send paths says what it adds to the bytes written and takes from the
windows (`Sender.spend`).

* `same_frames`: with credit for the body and its padding, every path writes the same
  header block and the same DATA frames, and debits the same amount.
* `empty_body_ends_apart`: only a body without a byte tells the paths apart, by where
  END_STREAM goes.
-/

namespace Conn.DataV

open Header (Bytes Field)
open Chunks (chunks)
open Frame (Call flagEndStream uint32 Priority writeDataVPadded writeDataV writeBufSize
  frameHeaderSize)
open SendFlow (acquireSendCredits tryAcquireSendCreditsAll)

/-! ## The frames of a request -/

/-- The pieces as frames, with the last one marked. -/
def markLast (f : Bool → Bytes → Call) : List Bytes → List Call
  | [] => []
  | [c] => [f true c]
  | c :: cs => f false c :: markLast f cs

def dataFrame (id : UInt32) (padLen : UInt8) (endStream : Bool) (body : Bytes) : Call :=
  if 0 < padLen then .dataPadded id endStream body padLen else .data id endStream body

/-- A body with a byte or more. -/
def dataFrames (id : UInt32) (padLen : UInt8) (effective : ℕ) (endStream : Bool) (body : Bytes) :
    List Call :=
  markLast (fun last => dataFrame id padLen (endStream && last)) (chunks (effective - 1) body)

/-- A header block. -/
def headerFrames (id : UInt32) (padLen : UInt8) (maxFrame : ℕ) (endStream : Bool) (block : Bytes) :
    List Call :=
  let budget := maxFrame - padOverhead padLen
  if block.length ≤ budget then [.headers ⟨id, block, endStream, true, none, padLen⟩]
  else .headers ⟨id, block.take budget, endStream, false, none, padLen⟩ ::
    markLast (.continuation id) (chunks (maxFrame - 1) (block.drop budget))

variable {f : Bool → Bytes → Call}

/-- One turn of a loop that takes `size` bytes, or all of them. -/
theorem markLast_chunks {body : Bytes} {size : ℕ} (hne : body ≠ [])
    (hsize : 0 < size) :
    markLast f (chunks (size - 1) body) =
      f (min body.length size = body.length) (body.take (min body.length size)) ::
        markLast f (chunks (size - 1) (body.drop (min body.length size))) := by
  have hs : size - 1 + 1 = size := by omega
  by_cases hle : body.length ≤ size
  · rw [Chunks.chunks_of_le hne (by omega), Nat.min_eq_left hle]
    simp [markLast]
  have hdrop : body.drop size ≠ [] := by
    intro hnil
    have := congrArg List.length hnil
    simp at this
    omega
  rw [Chunks.chunks_of_ne_nil hne, hs, Nat.min_eq_right (by omega)]
  rw [Chunks.chunks_of_ne_nil hdrop, markLast]
  · rw [decide_eq_false (by omega)]
  · simp

/-! ## What a path leaves behind -/

namespace Sender

/-- Frames written, and what they cost on a stream. -/
def spend (s : Sender) (k : ℕ) (cost : ℤ) (frames : List Call) : Sender :=
  { s.modifyStream k fun t => { t with sendWindow := t.sendWindow - cost } with
    peerConnSendWindow := s.peerConnSendWindow - cost
    out := s.out ++ frames.flatMap Call.bytes }

variable {s : Sender} {k : ℕ} {gen : ℕ} {a b : ℤ} {fs gs : List Call}

@[simp] theorem spend_spend : (s.spend k a fs).spend k b gs = s.spend k (a + b) (fs ++ gs) := by
  simp [spend, modifyStream, Int.sub_sub]

theorem write_eq_spend : { s with out := s.out ++ fs.flatMap Call.bytes } = s.spend k 0 fs := by
  simp [spend, modifyStream]

@[simp] theorem stream_spend : (s.spend k a fs).stream k =
    { s.stream k with sendWindow := (s.stream k).sendWindow - a } := by
  simp [spend, modifyStream]

@[simp] theorem ourMaxFrameSize_spend : (s.spend k a fs).ourMaxFrameSize = s.ourMaxFrameSize := rfl

/-- A stream that may send, on an open connection with lawful frame sizes. -/
structure Live (s : Sender) (k gen : ℕ) : Prop where
  isOpen : s.closed = false
  current : (s.stream k).gen = gen
  notReset : (s.stream k).closed = false
  peer : frameSizeFloor ≤ s.peerMaxFrameSize
  ours : frameSizeFloor ≤ s.ourMaxFrameSize
  ceil : s.ourMaxFrameSize < 2 ^ 24

/-- Both windows cover a cost. -/
structure Affords (s : Sender) (k : ℕ) (cost : ℤ) : Prop where
  conn : cost ≤ s.peerConnSendWindow
  connMax : s.peerConnSendWindow ≤ maxFlowWindow
  stream : cost ≤ (s.stream k).sendWindow
  streamMax : (s.stream k).sendWindow ≤ maxFlowWindow

theorem Live.spend (h : s.Live k gen) : (s.spend k a fs).Live k gen :=
  ⟨h.isOpen, by simpa using h.current, by simpa using h.notReset, h.peer, h.ours, h.ceil⟩

theorem Affords.spend (h : s.Affords k (a + b)) (ha : 0 ≤ a) : (s.spend k a fs).Affords k b := by
  rcases h with ⟨hconn, hconnMax, hstream, hstreamMax⟩
  constructor
  · simp only [Sender.spend]
    omega
  · simp only [Sender.spend]
    omega
  · simp only [stream_spend]
    omega
  · simp only [stream_spend]
    omega

theorem Affords.weaken (h : s.Affords k b) (hle : a ≤ b) : s.Affords k a :=
  ⟨hle.trans h.conn, h.connMax, hle.trans h.stream, h.streamMax⟩

theorem maxOutFrameSize_eq (hpeer : frameSizeFloor ≤ s.peerMaxFrameSize)
    (hours : frameSizeFloor ≤ s.ourMaxFrameSize) :
    s.maxOutFrameSize = min s.peerMaxFrameSize s.ourMaxFrameSize := by
  simp only [frameSizeFloor] at hpeer hours
  unfold Sender.maxOutFrameSize
  rw [if_neg]
  omega

theorem padOverhead_le (padLen : UInt8) : padOverhead padLen ≤ 256 := by
  have := padLen.toNat_lt
  unfold padOverhead
  split_ifs <;> omega

/-- A full frame has room for a byte, and fits the framer's limit with its padding. -/
theorem Live.frameSizes (h : s.Live k gen) :
    0 < s.effective ∧ s.effective + padOverhead s.padData ≤ s.ourMaxFrameSize := by
  have hpeer := h.peer
  have hours := h.ours
  have hpad := padOverhead_le s.padData
  simp only [Sender.effective, maxOutFrameSize_eq hpeer hours]
  simp only [frameSizeFloor] at hpeer hours
  split_ifs <;> omega

/-- A debit that the windows cover. -/
theorem Affords.debit (h : s.Affords k a) (ha : 0 ≤ a) : s.debit k a = s.spend k a [] := by
  rcases h with ⟨hconn, hconnMax, hstream, hstreamMax⟩
  have h1 : int32 (s.peerConnSendWindow - a) = s.peerConnSendWindow - a :=
    int32_eq (by omega) (by omega)
  have h2 : int32 ((s.stream k).sendWindow - a) = (s.stream k).sendWindow - a :=
    int32_eq (by omega) (by omega)
  simp [Sender.debit, Sender.spend, modifyStream, h1, h2]

end Sender

open Sender (spend_spend stream_spend)

/-! ## What the pieces of the paths do -/

variable {s : Sender} {k gen : ℕ} {id : UInt32} {body block : Bytes} {endStream : Bool} {v : DataVec}

variable {last : Bool} {out : Bytes} {prio : Option Priority} {β : Type} {padLen : UInt8}
  {M effective fuel : ℕ}

/-- A step that succeeds. -/
theorem run_bind {α : Type} {x : Send α} {f : α → Send β} {a : α} {s s' : Sender}
    (h : x.run s = .ok a s') : (x >>= f).run s = (f a).run s' := by
  simp only [EStateM.run, bind, EStateM.bind] at h ⊢
  rw [h]

theorem run_get_bind {f : Sender → Send β} : (get >>= f).run s = (f s).run s :=
  run_bind rfl

theorem run_modify_bind {g : Sender → Sender} {f : Unit → Send β} :
    (modify g >>= f).run s = (f ()).run (g s) := run_bind rfl

/-- A frame that the framer takes. -/
theorem run_write {w : ℕ → Frame.Write Unit} {c : Call}
    (h : (w s.ourMaxFrameSize).run s.out = .ok () (s.out ++ c.bytes)) :
    (write w).run s = .ok () (s.spend k 0 [c]) := by
  rw [← Sender.write_eq_spend]
  simp only [EStateM.run, write]
  rw [show w s.ourMaxFrameSize s.out = _ from h]
  simp

/-- A write function that is not refused. -/
theorem run_call {c : Call} (h : ∀ e, c.run M out ≠ .error e out) :
    c.run M out = .ok () (out ++ c.bytes) :=
  (Call.run_spec c).resolve_left fun ⟨e, herror⟩ => h e herror

theorem run_write_continuation {fragment : Bytes} (hid : id ≠ 0) (hlen : fragment.length ≤ M)
    (hM : M < 2 ^ 24) :
    (Frame.writeContinuation M id last fragment).run out =
      .ok () (out ++ (Call.continuation id last fragment).bytes) := by
  refine run_call (c := .continuation id last fragment) fun e => ?_
  have hcut : uint32 fragment.length = fragment.length := Nat.mod_eq_of_lt (by omega)
  have hfits : ¬ M < fragment.length := by omega
  simp [Call.run, Call.write, Frame.writeContinuation, Call.run_writeFrame, hid, hcut, hfits]

/-- What a priority adds to a frame. -/
def prioOverhead (prio : Option Priority) : ℕ := if prio.isSome then 5 else 0

theorem run_write_headers {endHeaders : Bool} (hid : id ≠ 0)
    (hlen : block.length + padOverhead padLen + prioOverhead prio ≤ M) (hM : M < 2 ^ 24) :
    (Frame.writeHeaders M ⟨id, block, endStream, endHeaders, prio, padLen⟩).run out =
      .ok () (out ++ (Call.headers ⟨id, block, endStream, endHeaders, prio, padLen⟩).bytes) := by
  refine run_call (c := .headers ⟨id, block, endStream, endHeaders, prio, padLen⟩) fun e => ?_
  -- the total the framer checks is the length of the payload, which fits
  have htotal : block.length + padLen.toNat + (if padLen ≠ 0 then 1 else 0) +
      (if prio.isSome = true then 5 else 0) ≤ M := by
    by_cases hpad : padLen = 0
    · subst hpad
      simpa [padOverhead, prioOverhead] using hlen
    · rw [padOverhead, if_pos (UInt8.pos_iff_ne_zero.mpr hpad)] at hlen
      rw [if_pos hpad]
      simp only [prioOverhead] at hlen
      omega
  generalize htot : block.length + padLen.toNat + (if padLen ≠ 0 then 1 else 0) +
      (if prio.isSome = true then 5 else 0) = total at htotal
  have hcut : uint32 total = total := Nat.mod_eq_of_lt (by omega)
  have hfits : ¬ M < total := by omega
  have hnopanic : frameHeaderSize + total ≤ writeBufSize →
      ¬ writeBufSize < frameHeaderSize + block.length := by omega
  simp only [Call.run, Call.write, Frame.writeHeaders, htot, hcut]
  by_cases hfast : padLen = 0 ∧ prio = none ∧ frameHeaderSize + total ≤ writeBufSize
  · have hno := hnopanic hfast.2.2
    simp [hid, hfits, hfast, hno]
  · simp only [if_neg hfast]
    cases prio <;> by_cases hpad : padLen = 0 <;> simp [hid, hfits, hpad]

/-- The pieces make up the same frame as the bytes they cover. -/
theorem run_write_data {segs : List Bytes} (hid : id ≠ 0) (hsegs : segs.flatten = body)
    (hlen : body.length + padOverhead padLen ≤ M) (hM : M < 2 ^ 24) :
    (if 0 < padLen then writeDataVPadded M id last segs padLen
      else writeDataV M id last segs).run out =
      .ok () (out ++ (dataFrame id padLen last body).bytes) := by
  have hsum : Frame.sumBufs segs = some body.length := by
    rw [← hsegs]
    apply Call.sumBufs_of_lt
    rw [hsegs]
    omega
  unfold dataFrame
  generalize body.length = n at hlen hsum
  subst hsegs
  by_cases hpad : 0 < padLen
  · rw [padOverhead, if_pos hpad] at hlen
    have hint : Frame.int64 (1 + n + padLen.toNat) = 1 + n + padLen.toNat :=
      Int.bmod_eq_of_le (by omega) (by omega)
    have hfits : ¬ (M : ℤ) < 1 + n + padLen.toNat := by omega
    rw [if_pos hpad, if_pos hpad]
    refine run_call (c := .dataVPadded id last segs padLen) fun e => ?_
    simp only [Call.run, Call.write, writeDataVPadded, hsum, hint]
    simp [hid, hfits, Call.run_writeBufs]
  · have hfits : ¬ M < n := by omega
    rw [if_neg hpad, if_neg hpad]
    refine run_call (c := .dataV id last segs) fun e => ?_
    simp only [Call.run, Call.write, writeDataV, hsum]
    simp [hid, hfits, Call.run_writeBufs]

theorem run_emitDataV {n : ℕ} (hlive : s.Live k gen) (hid : id ≠ 0) (hv : v.Before body)
    (hn : n ≤ body.length) (hlen : n + padOverhead padLen ≤ s.ourMaxFrameSize) :
    ∃ v' : DataVec, v'.Before (body.drop n) ∧
      (emitDataV v id n last padLen).run s =
        .ok v' (s.spend k 0 [dataFrame id padLen last (body.take n)]) := by
  rcases hv.next hn with ⟨hsegs, hgot, hv'⟩
  refine ⟨(v.next n).2.2, hv', ?_⟩
  have hfits : (body.take n).length + padOverhead padLen ≤ s.ourMaxFrameSize := by
    rw [List.length_take]
    omega
  have hwrite : (write fun M => if 0 < padLen then writeDataVPadded M id last (v.next n).1 padLen
      else writeDataV M id last (v.next n).1).run s =
        .ok () (s.spend k 0 [dataFrame id padLen last (body.take n)]) :=
    run_write (run_write_data hid hsegs hfits hlive.ceil)
  simp only [emitDataV, hgot, ne_eq, not_true, if_false]
  rw [run_bind hwrite]
  rfl

theorem spend_nil : s.spend k 0 [] = s := by
  simp [← Sender.write_eq_spend]

/-- The loop with the credit taken. -/
theorem run_emitAll (hlive : s.Live k gen) (hid : id ≠ 0) (hv : v.Before body)
    (hfuel : body.length ≤ fuel) (heff : 0 < effective)
    (hlen : effective + padOverhead padLen ≤ s.ourMaxFrameSize) :
    (emitAll id endStream padLen effective fuel v).run s =
      .ok () (s.spend k 0 (dataFrames id padLen effective endStream body)) := by
  induction fuel generalizing v body s with
  | zero =>
    have hnil : body = [] := List.length_eq_zero_iff.mp (by omega)
    subst hnil
    simp [emitAll, hv.rem, dataFrames, markLast, spend_nil]
  | succ fuel ih =>
    by_cases hne : body = []
    · subst hne
      simp [emitAll, hv.rem, dataFrames, markLast, spend_nil]
    -- one frame, and the rest of the body by induction
    have hpos := List.length_pos_iff.mpr hne
    simp only [emitAll, hv.rem, hpos.ne', if_false, dataFrames, markLast_chunks hne heff]
    generalize hn : min body.length effective = n
    have hfits : n + padOverhead padLen ≤ s.ourMaxFrameSize := by omega
    rcases run_emitDataV hlive hid hv (by omega) hfits with ⟨v', hv', hemit⟩
    have hdrop : (body.drop n).length ≤ fuel := by
      rw [List.length_drop]
      omega
    rw [run_bind hemit, ih hlive.spend hv' hdrop hlen]
    simp [dataFrames]

theorem run_checkCredit (hlive : s.Live k gen) : (checkCredit k gen).run s = .ok (s.stream k) s := by
  simp only [checkCredit, run_get_bind, hlive.isOpen, hlive.current, hlive.notReset,
    Bool.false_eq_true, ne_eq, not_true_eq_false, if_false]
  rfl

/-- Credit for a frame that the windows cover. -/
theorem run_acquire {want pad : ℕ} (hlive : s.Live k gen) (hafford : s.Affords k (want + pad))
    (hpos : 0 < want) (hpad : pad ≤ 256) :
    (acquire k gen want pad).run s = .ok want (s.spend k (want + pad) []) := by
  rcases hafford with ⟨hconn, hconnMax, hstream, hstreamMax⟩
  have hpad32 : int32 pad = pad := int32_natCast (by simp only [maxFlowWindow]; omega)
  have hwant32 : int32 want = want := int32_natCast (by omega)
  have hcost : int32 ((want : ℤ) + pad) = want + pad := int32_eq (by omega) (by omega)
  have hcredits : acquireSendCredits want pad (s.stream k).sendWindow s.peerConnSendWindow =
      some ((want : ℤ), (want : ℤ) + pad) := by
    simp only [acquireSendCredits, hpad32, hwant32]
    generalize havail : (if s.peerConnSendWindow < (s.stream k).sendWindow then s.peerConnSendWindow
      else (s.stream k).sendWindow) = avail
    have hle : (want : ℤ) + pad ≤ avail ∧ avail ≤ maxFlowWindow := by
      rw [← havail]
      split_ifs <;> omega
    have hdata : int32 (avail - pad) = avail - pad := int32_eq (by omega) (by omega)
    rw [if_pos (by omega), if_neg (by omega), hcost]
  simp only [acquire, hpos.ne', if_false]
  rw [run_bind (run_checkCredit hlive), run_get_bind, hcredits]
  have hdebit := Sender.Affords.debit ⟨hconn, hconnMax, hstream, hstreamMax⟩ (by omega)
  simp only [run_modify_bind, hdebit]
  rfl

/-- Credit for a whole body. -/
theorem run_tryAcquireAll {want pad : ℕ} (hlive : s.Live k gen) (hafford : s.Affords k (want + pad))
    (hpos : 0 < want) :
    (tryAcquireAll k gen want pad).run s = .ok true (s.spend k (want + pad) []) := by
  have hcost : int32 ((want : ℤ) + pad) = want + pad :=
    int32_eq (by omega) (hafford.conn.trans hafford.connMax)
  have hcredits : tryAcquireSendCreditsAll want pad (s.stream k).sendWindow s.peerConnSendWindow =
      some ((want : ℤ), (want : ℤ) + pad) := by
    have hconn := hafford.conn
    have hstream := hafford.stream
    simp only [tryAcquireSendCreditsAll, hcost]
    rw [if_neg (by omega)]
  simp only [tryAcquireAll, hpos.ne', if_false]
  rw [run_bind (run_checkCredit hlive), run_get_bind, hcredits]
  simp only [run_modify_bind, hafford.debit (by omega)]
  rfl

/-- What a body costs: its bytes, and the padding of its frames. -/
def bodyCost (padLen : UInt8) (effective : ℕ) (body : Bytes) : ℕ :=
  body.length + padOverhead padLen * (chunks (effective - 1) body).length

/-- One frame after another. -/
theorem bodyCost_step {n : ℕ} (hne : body ≠ []) (heff : 0 < effective)
    (hn : min body.length effective = n) :
    bodyCost padLen effective body =
      n + padOverhead padLen + bodyCost padLen effective (body.drop n) := by
  have hs : effective - 1 + 1 = effective := by omega
  have hchunks : (chunks (effective - 1) body).length =
      (chunks (effective - 1) (body.drop n)).length + 1 := by
    rw [Chunks.chunks_of_ne_nil hne, hs, List.length_cons]
    by_cases hle : body.length ≤ effective
    · rw [List.drop_of_length_le hle, List.drop_of_length_le (by omega)]
    · rw [show n = effective by omega]
  unfold bodyCost
  rw [hchunks, List.length_drop, Nat.mul_add]
  omega

/-- The loop that takes credit frame by frame. -/
theorem run_writeDataLoop (hlive : s.Live k gen) (hid : (s.stream k).id ≠ 0)
    (hafford : body ≠ [] → s.Affords k (bodyCost padLen effective body)) (hv : v.Before body)
    (hfuel : body.length ≤ fuel) (heff : 0 < effective)
    (hlen : effective + padOverhead padLen ≤ s.ourMaxFrameSize) :
    (writeDataLoop k gen endStream padLen effective fuel v).run s =
      .ok () (s.spend k (bodyCost padLen effective body)
        (dataFrames (s.stream k).id padLen effective endStream body)) := by
  induction fuel generalizing v body s with
  | zero =>
    have hnil : body = [] := List.length_eq_zero_iff.mp (by omega)
    subst hnil
    simp [writeDataLoop, hv.rem, dataFrames, markLast, bodyCost, spend_nil]
  | succ fuel ih =>
    by_cases hne : body = []
    · subst hne
      simp [writeDataLoop, hv.rem, dataFrames, markLast, bodyCost, spend_nil]
    have hpos := List.length_pos_iff.mpr hne
    have hafford := hafford hne
    simp only [writeDataLoop, hv.rem, hpos.ne', if_false, run_get_bind, hlive.isOpen,
      Bool.false_eq_true, dataFrames, markLast_chunks hne heff]
    generalize hn : min body.length effective = n
    have hnpos : 0 < n := by omega
    rw [bodyCost_step hne heff hn, Nat.cast_add, Nat.cast_add] at hafford ⊢
    have hframe : s.Affords k (n + padOverhead padLen) := hafford.weaken (by omega)
    -- the credit, the frame, and the rest of the body by induction
    have hlive' : (s.spend k (n + padOverhead padLen) []).Live k gen := hlive.spend
    rw [run_bind (run_acquire hlive hframe hnpos (Sender.padOverhead_le padLen))]
    simp only [run_get_bind, hlive'.isOpen, stream_spend, hlive.current, Bool.false_eq_true,
      ne_eq, not_true_eq_false, if_false]
    have hfits : n + padOverhead padLen ≤ s.ourMaxFrameSize := by omega
    rcases run_emitDataV hlive' hid hv (by omega) hfits with ⟨v', hv', hemit⟩
    rw [spend_spend, Int.add_zero] at hemit
    have hdrop : (body.drop n).length ≤ fuel := by
      rw [List.length_drop]
      omega
    rw [run_bind hemit, ih hlive.spend (by simpa using hid) (fun _ => hafford.spend (by omega)) hv'
      hdrop hlen, spend_spend]
    simp [dataFrames]

theorem run_writeContinuations {maxFrame : ℕ} (hceil : s.ourMaxFrameSize < 2 ^ 24) (hid : id ≠ 0)
    (hfuel : block.length ≤ fuel) (hmax : 0 < maxFrame) (hlen : maxFrame ≤ s.ourMaxFrameSize) :
    (writeContinuations id maxFrame fuel block).run s =
      .ok () (s.spend k 0 (markLast (.continuation id) (chunks (maxFrame - 1) block))) := by
  induction fuel generalizing block s with
  | zero =>
    have hnil : block = [] := List.length_eq_zero_iff.mp (by omega)
    subst hnil
    simp [writeContinuations, markLast, spend_nil]
  | succ fuel ih =>
    by_cases hne : block = []
    · subst hne
      simp [writeContinuations, markLast, spend_nil]
    rw [writeContinuations, markLast_chunks hne hmax]
    · generalize hn : min block.length maxFrame = n
      have hfits : (block.take n).length ≤ s.ourMaxFrameSize := by
        rw [List.length_take]
        omega
      have hdrop : (block.drop n).length ≤ fuel := by
        rw [List.length_drop]
        omega
      rw [run_bind (run_write (run_write_continuation hid hfits hceil)),
        ih (by simpa using hceil) hdrop (by simpa using hlen), spend_spend]
      simp
    · exact hne

/-- A header block with a priority or without: the first frame has room for both beside the
block, the rest is cut at the frame size. -/
def blockFrames (id : UInt32) (padLen : UInt8) (prio : Option Priority) (maxFrame : ℕ)
    (endStream : Bool) (block : Bytes) : List Call :=
  let budget := maxFrame - padOverhead padLen - prioOverhead prio
  if block.length ≤ budget then [.headers ⟨id, block, endStream, true, prio, padLen⟩]
  else .headers ⟨id, block.take budget, endStream, false, prio, padLen⟩ ::
    markLast (.continuation id) (chunks (maxFrame - 1) (block.drop budget))

theorem prioOverhead_le (prio : Option Priority) : prioOverhead prio ≤ 5 := by
  unfold prioOverhead
  split_ifs <;> omega

theorem run_writeHeaderBlock_prio (hpeer : frameSizeFloor ≤ s.peerMaxFrameSize)
    (hours : frameSizeFloor ≤ s.ourMaxFrameSize) (hceil : s.ourMaxFrameSize < 2 ^ 24)
    (hid : id ≠ 0) :
    (writeHeaderBlock id block endStream prio).run s =
      .ok () (s.spend k 0 (blockFrames id s.padHeaders prio s.maxOutFrameSize endStream block)) := by
  have hpad := Sender.padOverhead_le s.padHeaders
  have hprio := prioOverhead_le prio
  have hmax := Sender.maxOutFrameSize_eq hpeer hours
  simp only [frameSizeFloor] at hpeer hours
  generalize hbudget : s.maxOutFrameSize - padOverhead s.padHeaders - prioOverhead prio = budget
  have hroom : max 1 (s.maxOutFrameSize - padOverhead s.padHeaders -
      if prio.isSome = true then 5 else 0) = budget := by
    simp only [prioOverhead] at hbudget hprio
    omega
  simp only [writeHeaderBlock, run_get_bind, blockFrames, hroom, hbudget]
  split_ifs
  · exact run_write (run_write_headers hid (by omega) hceil)
  have hfirst : (block.take budget).length + padOverhead s.padHeaders + prioOverhead prio ≤
      s.ourMaxFrameSize := by
    rw [List.length_take]
    omega
  rw [run_bind (run_write (k := k) (run_write_headers hid hfirst hceil)),
    run_writeContinuations (by simpa using hceil) hid (by rw [List.length_drop]; omega) (by omega)
      (by rw [Sender.ourMaxFrameSize_spend]; omega), spend_spend]
  simp

theorem run_writeHeaderBlock (hlive : s.Live k gen) (hid : id ≠ 0) :
    (writeHeaderBlock id block endStream none).run s =
      .ok () (s.spend k 0 (headerFrames id s.padHeaders s.maxOutFrameSize endStream block)) :=
  run_writeHeaderBlock_prio hlive.peer hlive.ours hlive.ceil hid

/-! ## The paths -/

namespace Sender

/-- The stream has its id, and the encoder has seen the fields. -/
def requested (s : Sender) (k : ℕ) (enc : Hpack.Encoder) : Sender :=
  { s.assignStreamIDLocked k with enc }

def headerFrames (s : Sender) (k : ℕ) (endStream : Bool) (block : Bytes) : List Call :=
  DataV.headerFrames (s.stream k).id s.padHeaders s.maxOutFrameSize endStream block

def dataFrames (s : Sender) (k : ℕ) (endStream : Bool) (body : Bytes) : List Call :=
  DataV.dataFrames (s.stream k).id s.padData s.effective endStream body

def bodyCost (s : Sender) (body : Bytes) : ℕ := DataV.bodyCost s.padData s.effective body

/-- A stream that a request may be sent on. -/
structure Ready (s : Sender) (k gen : ℕ) : Prop extends s.Live k gen where
  notPushed : (s.stream k).pushed = false
  notEnded : (s.stream k).localEnded = false
  hasID : ((s.assignStreamIDLocked k).stream k).id ≠ 0

theorem assignStreamIDLocked_of_ne_zero {s : Sender} {k : ℕ} (h : (s.stream k).id ≠ 0) :
    s.assignStreamIDLocked k = s := if_pos h

/-- Assignment gives a stream its id and its window. -/
theorem stream_assignStreamIDLocked (s : Sender) (k : ℕ) :
    ∃ id w, (s.assignStreamIDLocked k).stream k = { s.stream k with id, sendWindow := w } := by
  unfold assignStreamIDLocked modifyStream
  split_ifs
  · exact ⟨_, _, rfl⟩
  · exact ⟨s.nextID, int32 s.initial, by simp⟩

theorem assignStreamIDLocked_same (s : Sender) (k : ℕ) :
    (s.assignStreamIDLocked k).enc = s.enc ∧ (s.assignStreamIDLocked k).padData = s.padData ∧
      (s.assignStreamIDLocked k).effective = s.effective := by
  unfold assignStreamIDLocked
  split_ifs <;> exact ⟨rfl, rfl, rfl⟩

theorem Live.assigned {s : Sender} {k gen : ℕ} (h : s.Live k gen) :
    (s.assignStreamIDLocked k).Live k gen := by
  rcases s.stream_assignStreamIDLocked k with ⟨id, w, hstream⟩
  refine ⟨?_, by simpa [hstream] using h.current, by simpa [hstream] using h.notReset, ?_, ?_, ?_⟩ <;>
    unfold assignStreamIDLocked modifyStream <;> split_ifs
  all_goals first | exact h.isOpen | exact h.peer | exact h.ours | exact h.ceil

/-- A request that may be sent. In `r` the stream has its id, the encoder has seen the fields, and
the windows cover the body. -/
structure Request (s r : Sender) (k gen : ℕ) (fields : List Field) (block body : Bytes) : Prop where
  ready : s.Ready k gen
  encoded : s.enc.encodeBlock fields = some (block, r.enc)
  assigned : s.assignStreamIDLocked k = { r with enc := s.enc }
  affords : body ≠ [] → r.Affords k (r.bodyCost body)

end Sender

variable {fields : List Field} {enc : Hpack.Encoder} {r : Sender}

namespace Sender.Request

section Request

variable (h : s.Request r k gen fields block body)

include h

theorem live : r.Live k gen := by
  have hlive := h.ready.toLive.assigned
  rw [h.assigned] at hlive
  exact { hlive with }

theorem hasID : (r.stream k).id ≠ 0 := by
  have hid := h.ready.hasID
  rwa [h.assigned] at hid

theorem sizes : s.padData = r.padData ∧ s.effective = r.effective := by
  have hsame := (s.assignStreamIDLocked_same k).2
  rw [h.assigned] at hsame
  exact ⟨hsame.1.symm, hsame.2.symm⟩

/-- The stream stays ready until END_STREAM is sent. -/
theorem spend_ready (cost : ℤ) (fs : List Call) : (r.spend k cost fs).Ready k gen := by
  have hid : ((r.spend k cost fs).stream k).id ≠ 0 := by
    rw [stream_spend]
    exact h.hasID
  rcases s.stream_assignStreamIDLocked k with ⟨id, w, hstream⟩
  rw [h.assigned] at hstream
  change r.stream k = _ at hstream
  refine ⟨h.live.spend, ?_, ?_, ?_⟩
  · simpa [hstream] using h.ready.notPushed
  · simpa [hstream] using h.ready.notEnded
  · rwa [assignStreamIDLocked_of_ne_zero hid]

end Request

end Sender.Request

@[simp] theorem Sender.bodyCost_nil : s.bodyCost [] = 0 := by
  simp [Sender.bodyCost, DataV.bodyCost]

theorem run_encodeBlock (henc : s.enc.encodeBlock fields = some (block, enc)) :
    (encodeBlock fields).run s = .ok block { s with enc } := by
  simp only [encodeBlock, run_get_bind, henc]
  rfl

theorem run_emitBatchHeaders (hreq : s.Request r k gen fields block body) :
    (emitBatchHeaders k fields endStream).run s =
      .ok () (r.spend k 0 (r.headerFrames k endStream block)) := by
  have hblock : (encodeBlock fields).run { r with enc := s.enc } = .ok block r :=
    run_encodeBlock hreq.encoded
  simp only [emitBatchHeaders, run_modify_bind, hreq.assigned]
  rw [run_bind hblock]
  exact run_writeHeaderBlock hreq.live hreq.hasID

theorem run_writeHeadersWithPriority (hreq : s.Request r k gen fields block body) :
    (writeHeadersWithPriority k fields endStream none).run s =
      .ok () (r.spend k 0 (r.headerFrames k endStream block)) := by
  simp only [writeHeadersWithPriority, run_get_bind, hreq.ready.isOpen, Bool.false_eq_true, if_false]
  exact run_emitBatchHeaders hreq

theorem run_writeData_empty {M : ℕ} {out : Bytes} (hid : id ≠ 0) :
    (Frame.writeData M id true []).run out = .ok () (out ++ (Call.data id true []).bytes) := by
  simp [Frame.writeData, hid, Call.run_writeFrame, uint32, Call.bytes, Call.header,
    Call.payload, Call.type, Call.flags, Call.streamID]

/-- The frames of a body that follows its headers: a body without a byte is a frame of its own
if it ends the stream. -/
def Sender.bodyFrames (s : Sender) (k : ℕ) (endStream : Bool) (body : Bytes) : List Call :=
  if body = [] then (if endStream then [.data (s.stream k).id true []] else [])
  else s.dataFrames k endStream body

theorem run_writeDataVec (hlive : s.Live k gen) (hid : (s.stream k).id ≠ 0) (hv : v.Before body)
    (hafford : body ≠ [] → s.Affords k (s.bodyCost body)) :
    (writeDataVec k gen v endStream).run s =
      .ok () (s.spend k (s.bodyCost body) (s.bodyFrames k endStream body)) := by
  have hsizes := hlive.frameSizes
  simp only [writeDataVec, run_get_bind, hlive.isOpen, Bool.false_eq_true, if_false, hid,
    hsizes.1.ne', hv.rem, List.length_eq_zero_iff, Sender.bodyFrames]
  by_cases hne : body = []
  · subst hne
    cases endStream with
    | false =>
      rw [Sender.bodyCost_nil]
      exact congrArg _ spend_nil.symm
    | true =>
      simp only [if_true, run_get_bind, hlive.current, ne_eq, not_true_eq_false, if_false,
        Sender.bodyCost_nil]
      exact run_write (run_writeData_empty hid)
  · rw [if_neg hne, if_neg hne]
    exact run_writeDataLoop hlive hid hafford hv le_rfl hsizes.1 hsizes.2

/-- The frames of one call: a body without a byte leaves END_STREAM to the headers. -/
def Sender.fusedFrames (s : Sender) (k : ℕ) (endStream : Bool) (block body : Bytes) : List Call :=
  if body = [] then s.headerFrames k endStream block
  else s.headerFrames k false block ++ s.dataFrames k endStream body

/-- The formula for the number of frames counts them. -/
theorem run_tryAcquireAll_body (hlive : s.Live k gen) (hne : body ≠ [])
    (hafford : s.Affords k (s.bodyCost body)) :
    (tryAcquireAll k gen body.length
      (padOverhead s.padData * frameCount body.length s.effective)).run s =
        .ok true (s.spend k (s.bodyCost body) []) := by
  have heff := hlive.frameSizes.1
  have hcost : s.bodyCost body =
      body.length + padOverhead s.padData * frameCount body.length s.effective := by
    rw [Sender.bodyCost, bodyCost, Chunks.length_chunks, frameCount, Nat.sub_add_cancel heff,
      ← Nat.add_sub_assoc heff]
  rw [hcost] at hafford ⊢
  exact run_tryAcquireAll hlive hafford (List.length_pos_iff.mpr hne)

/-- The frames of a request whose credit is taken. -/
theorem run_frames (hlive : s.Live k gen) (hid : (s.stream k).id ≠ 0) (hv : v.Before body)
    (cost : ℤ) :
    EStateM.run (do
      writeHeaderBlock (s.stream k).id block false none
      let t := (← get).stream k
      if t.gen ≠ gen then throw SendError.staleStream
      emitAll t.id endStream s.padData s.effective body.length v) (s.spend k cost []) =
        .ok () (s.spend k cost (s.headerFrames k false block ++ s.dataFrames k endStream body)) := by
  have hheaders : (writeHeaderBlock (s.stream k).id block false none).run (s.spend k cost []) =
      .ok () (s.spend k cost (s.headerFrames k false block)) := by
    rw [run_writeHeaderBlock hlive.spend hid, spend_spend, Int.add_zero]
    rfl
  rw [run_bind hheaders, run_get_bind]
  simp only [stream_spend, hlive.current, ne_eq, not_true_eq_false, if_false]
  rw [run_emitAll hlive.spend hid hv le_rfl hlive.frameSizes.1 hlive.frameSizes.2,
    spend_spend, Int.add_zero]
  rfl

theorem run_writeHeadersAndDataVec (hreq : s.Request r k gen fields block body)
    (hv : v.Before body) :
    (writeHeadersAndDataVec k gen fields v endStream).run s =
      .ok () (r.spend k (r.bodyCost body) (r.fusedFrames k endStream block body)) := by
  by_cases hne : body = []
  · subst hne
    simp only [writeHeadersAndDataVec, run_get_bind, hreq.ready.isOpen, Bool.false_eq_true, if_false,
      hv.rem, List.length_nil, if_true, Sender.bodyCost_nil, Sender.fusedFrames, Nat.cast_zero]
    exact run_writeHeadersWithPriority hreq
  have hpos := List.length_pos_iff.mpr hne
  have hlive : ({ r with enc := s.enc } : Sender).Live k gen := { hreq.live with }
  have hcredit := run_tryAcquireAll_body hlive hne { hreq.affords hne with }
  have hblock : (encodeBlock fields).run ({ r with enc := s.enc }.spend k (r.bodyCost body) []) =
      .ok block (r.spend k (r.bodyCost body) []) := run_encodeBlock hreq.encoded
  simp only [writeHeadersAndDataVec, run_get_bind, hreq.ready.isOpen, Bool.false_eq_true, if_false,
    hv.rem, hpos.ne', run_modify_bind, hreq.assigned, hlive.frameSizes.1.ne', hreq.sizes.1]
  rw [run_bind hcredit]
  refine (run_bind hblock).trans ?_
  -- the credit is taken and the block encoded: what is left are the frames
  rw [run_get_bind, Sender.fusedFrames, if_neg hne, ← run_frames hreq.live hreq.hasID hv (r.bodyCost body),
    stream_spend]
  rfl

/-- The bytes of an entry. -/
def BatchEntry.content (e : BatchEntry) : Bytes := (e.bodyV.map List.flatten).getD e.body

theorem run_newDataVec {b : Option (List Bytes)} (hlen : (b.getD []).flatten.length < 2 ^ 63) :
    ∃ v : DataVec, v.Before (b.getD []).flatten ∧ ∀ s, (newDataVec b).run s = .ok v s := by
  have hnew : DataVec.new b = some ⟨b, 0, (b.getD []).flatten.length, []⟩ := by
    rw [DataVec.new, Call.sumBufs_of_lt hlen]
    rfl
  refine ⟨_, DataVec.before_new hnew, fun s => ?_⟩
  rw [newDataVec, hnew]
  rfl

theorem run_gate (hready : s.Ready k gen) : (gate k gen).run s = .ok () s := by
  simp only [gate, run_get_bind, hready.current, hready.notPushed, hready.notReset, hready.notEnded,
    Bool.false_eq_true, ne_eq, not_true_eq_false, if_false, Bool.or_self]
  rfl

theorem run_seat (e : BatchEntry) (hlen : e.content.length < 2 ^ 63) :
    ∃ v : DataVec, v.Before e.content ∧ (seat e).run s = .ok v s := by
  unfold seat
  rcases hbody : e.bodyV with _ | bufs
  · simpa [BatchEntry.content, hbody] using DataVec.before_seatSingle e.body
  · simp only [BatchEntry.content, hbody, Option.map_some, Option.getD_some] at hlen ⊢
    rcases run_newDataVec (b := some bufs) hlen with ⟨v, hv, hnew⟩
    exact ⟨v, hv, hnew s⟩

theorem run_sendBatchEntry {e : BatchEntry}
    (hreq : s.Request r e.stream e.gen fields block e.content) (hfields : e.fields = some fields)
    (hlen : e.content.length < 2 ^ 63) :
    (sendBatchEntry e).run s =
      .ok () (r.spend e.stream (r.bodyCost e.content)
        (r.fusedFrames e.stream e.endStream block e.content)) := by
  rcases run_seat e hlen with ⟨v, hv, hseat⟩
  have hlive := hreq.live
  unfold sendBatchEntry
  rw [run_bind hseat, run_bind (run_gate hreq.ready)]
  simp only [run_get_bind, hreq.ready.toLive.frameSizes.1.ne', if_false, hfields]
  rw [run_bind (run_emitBatchHeaders hreq)]
  simp only [run_get_bind, stream_spend, hlive.current, hreq.hasID, ne_eq, not_true_eq_false,
    if_false, hv.rem, List.length_eq_zero_iff, Option.isNone_some, Bool.and_false, Bool.false_eq_true]
  by_cases hne : e.content = []
  · rw [if_pos hne, Sender.fusedFrames, if_pos hne, decide_eq_true hne, Bool.and_true, hne,
      Sender.bodyCost_nil]
    rfl
  rw [if_neg hne, Sender.fusedFrames, if_neg hne, decide_eq_false hne, Bool.and_false]
  have hafford : (r.spend e.stream 0 (r.headerFrames e.stream false block)).Affords e.stream
      (r.bodyCost e.content) :=
    Sender.Affords.spend (by simpa using hreq.affords hne) le_rfl
  have hcredit := run_tryAcquireAll_body hlive.spend hne hafford
  rw [spend_spend, Int.zero_add, List.append_nil] at hcredit
  rw [hreq.sizes.1, hreq.sizes.2]
  simp only [emitBatchBody, hv.rem]
  refine (run_bind hcredit).trans ?_
  refine (run_emitAll hlive.spend hreq.hasID hv le_rfl hlive.frameSizes.1 hlive.frameSizes.2).trans ?_
  rw [spend_spend]
  rfl

/-! ## Every path -/

variable {bufs : Option (List Bytes)}

theorem run_sendHeaders (hreq : s.Request r k gen fields block body) :
    (sendHeaders k gen fields false).run s =
      .ok () (r.spend k 0 (r.headerFrames k false block)) := by
  unfold sendHeaders
  rw [run_bind (run_gate hreq.ready), run_bind (run_writeHeadersWithPriority hreq)]
  rfl

/-- The frames of a request by two calls. -/
def Sender.separateFrames (s : Sender) (k : ℕ) (endStream : Bool) (block body : Bytes) :
    List Call :=
  s.headerFrames k false block ++ s.bodyFrames k endStream body

/-- The state after a request: the frames are out, their cost is debited, and the stream has
ended if it should. -/
def Sender.after (s : Sender) (k : ℕ) (enc : Hpack.Encoder) (endStream : Bool) (body : Bytes)
    (frames : List Call) : Sender :=
  ((s.requested k enc).spend k ((s.requested k enc).bodyCost body) frames).ended k endStream

/-- `SendHeaders`, and then `SendData` or `SendDataV`, by what their cursor stands before. -/
theorem run_separate (hreq : s.Request r k gen fields block body) (hv : v.Before body)
    {seat : Send DataVec} (hseat : ∀ s, seat.run s = .ok v s) :
    EStateM.run (do
      sendHeaders k gen fields false
      gate k gen
      let v ← seat
      writeDataVec k gen v endStream
      modify fun s => s.ended k endStream) s =
        .ok () ((r.spend k (r.bodyCost body) (r.separateFrames k endStream block body)).ended k
          endStream) := by
  have hafford : body ≠ [] →
      (r.spend k 0 (r.headerFrames k false block)).Affords k (r.bodyCost body) :=
    fun hne => Sender.Affords.spend (by simpa using hreq.affords hne) le_rfl
  have hready := hreq.spend_ready 0 (r.headerFrames k false block)
  have hid : ((r.spend k 0 (r.headerFrames k false block)).stream k).id ≠ 0 := by
    simpa using hreq.hasID
  rw [run_bind (run_sendHeaders hreq), run_bind (run_gate hready), run_bind (hseat _),
    run_bind (run_writeDataVec hreq.live.spend hid hv hafford), spend_spend, Int.zero_add]
  have hframes : (r.spend k 0 (r.headerFrames k false block)).bodyFrames k endStream body =
      r.bodyFrames k endStream body := by
    simp only [Sender.bodyFrames, Sender.dataFrames, stream_spend]
    rfl
  rw [hframes]
  rfl

theorem run_sendHeadersAndDataV
    (hreq : s.Request r k gen fields block (bufs.getD []).flatten)
    (hlen : (bufs.getD []).flatten.length < 2 ^ 63) :
    (sendHeadersAndDataV k gen fields bufs endStream).run s =
      .ok () ((r.spend k (r.bodyCost (bufs.getD []).flatten)
        (r.fusedFrames k endStream block (bufs.getD []).flatten)).ended k endStream) := by
  rcases run_newDataVec hlen with ⟨v, hv, hnew⟩
  rw [sendHeadersAndDataV, run_bind (run_gate hreq.ready), run_bind (hnew _),
    run_bind (run_writeHeadersAndDataVec hreq hv)]
  rfl

/-- The part of the body that a DATA frame carries. -/
def dataOf : Call → Bytes
  | .data _ _ body | .dataPadded _ _ body _ => body
  | _ => []

theorem map_markLast {β : Type} {g : Call → β} {h : Bytes → β}
    (hg : ∀ last c, g (f last c) = h c) (cs : List Bytes) : (markLast f cs).map g = cs.map h := by
  fun_induction markLast f cs with
  | case1 => rfl
  | case2 c => simp [hg]
  | case3 c cs hcs ih => simp [hg, ih]

theorem map_markLast_mark {g : Call → Bool} {mark : Bool}
    (hg : ∀ last c, g (f last c) = (mark && last)) {cs : List Bytes} (hne : cs ≠ []) :
    (markLast f cs).map g = List.replicate (cs.length - 1) false ++ [mark] := by
  fun_induction markLast f cs with
  | case1 => exact absurd rfl hne
  | case2 c => simp [hg]
  | case3 c cs hcs ih =>
    have hcs' : cs ≠ [] := fun hnil => hcs hnil
    have hlen : cs.length + 1 - 1 = cs.length - 1 + 1 := by
      have := List.length_pos_iff.mpr hcs'
      omega
    rw [List.map_cons, hg, ih hcs', List.length_cons, hlen, List.replicate_succ, Bool.and_false,
      List.cons_append]

theorem dataOf_dataFrame (padLen : UInt8) (last : Bool) :
    dataOf (dataFrame id padLen last body) = body := by
  unfold dataFrame
  split_ifs <;> rfl

theorem has_endStream_dataFrame (padLen : UInt8) (last : Bool) :
    (dataFrame id padLen last body).flags.has flagEndStream = last := by
  have hall : ∀ last : Bool, Frame.Flags.has (.when last flagEndStream) flagEndStream = last ∧
      Frame.Flags.has (Frame.flagPadded ||| .when last flagEndStream) flagEndStream = last := by
    decide
  unfold dataFrame
  split_ifs
  · exact (hall last).2
  · exact (hall last).1

/-- What the DATA frames of a body are. -/
structure Carries (frames : List Call) (effective : ℕ) (endStream : Bool) (body : Bytes) : Prop where
  payloads : (frames.map dataOf).flatten = body
  sizes : ∀ c ∈ frames, (dataOf c).length ≤ effective
  marks : frames.map (fun c => c.flags.has flagEndStream) =
    List.replicate (frames.length - 1) false ++ [endStream]

theorem carries_dataFrames {padLen : UInt8} {effective : ℕ} (heff : 0 < effective) (hne : body ≠ []) :
    Carries (dataFrames id padLen effective endStream body) effective endStream body := by
  have hdata : (dataFrames id padLen effective endStream body).map dataOf =
      chunks (effective - 1) body := by
    rw [dataFrames, map_markLast (h := fun c => c) (fun last c => dataOf_dataFrame padLen _)]
    simp
  have hcs : chunks (effective - 1) body ≠ [] := by
    rw [Chunks.chunks_of_ne_nil hne]
    exact List.cons_ne_nil _ _
  constructor
  · rw [hdata, Chunks.flatten_chunks]
  · intro c hc
    have hmem : dataOf c ∈ chunks (effective - 1) body := hdata ▸ List.mem_map_of_mem hc
    have hlen := (Chunks.length_of_mem_chunks hmem).2
    omega
  · have hlen : (dataFrames id padLen effective endStream body).length =
        (chunks (effective - 1) body).length := by
      rw [← hdata, List.length_map]
    rw [hlen]
    exact map_markLast_mark (fun last c => has_endStream_dataFrame padLen _) hcs

/-- With credit for the body and its padding every path returns nil. Both two-call paths write
the same frames, the fused call and a batch entry write the same frames, and all debit the same
cost from both windows. Unless the body has no byte, these frames are the same too: the header
block and then the body, cut at the frame size, with END_STREAM on the last frame. -/
theorem same_frames (bufs : Option (List Bytes)) (hready : s.Ready k gen)
    (henc : s.enc.encodeBlock fields = some (block, enc))
    (hafford : (bufs.getD []).flatten ≠ [] → (s.requested k enc).Affords k
      ((s.requested k enc).bodyCost (bufs.getD []).flatten))
    {e : BatchEntry} (hstream : e.stream = k) (hgen : e.gen = gen) (hfields : e.fields = some fields)
    (hcontent : e.content = (bufs.getD []).flatten) :
    let body := (bufs.getD []).flatten
    let r := s.requested k enc
    let separate := s.after k enc e.endStream body (r.separateFrames k e.endStream block body)
    let fused := s.after k enc e.endStream body (r.fusedFrames k e.endStream block body)
    EStateM.run (do
      sendHeaders k gen fields false
      sendDataV k gen bufs e.endStream) s = .ok () separate ∧
    EStateM.run (do
      sendHeaders k gen fields false
      sendData k gen body e.endStream) s = .ok () separate ∧
    (sendHeadersAndDataV k gen fields bufs e.endStream).run s = .ok () fused ∧
    (sendBatch [e]).run s = .ok [none] fused ∧
    (body ≠ [] → fused = separate ∧
      r.separateFrames k e.endStream block body =
        r.headerFrames k false block ++ r.dataFrames k e.endStream body ∧
      Carries (r.dataFrames k e.endStream body) r.effective e.endStream body) := by
  subst hstream hgen
  intro body r separate fused
  have hlen : body.length < 2 ^ 63 := by
    by_cases hne : body = []
    · simp [hne]
    · have hcost := (hafford hne).conn.trans (hafford hne).connMax
      have hle : body.length ≤ (s.requested e.stream enc).bodyCost body := Nat.le_add_right _ _
      change ((s.requested e.stream enc).bodyCost body : ℤ) ≤ 2 ^ 31 - 1 at hcost
      omega
  have hreq : s.Request r e.stream e.gen fields block body := by
    refine ⟨hready, henc, ?_, hafford⟩
    rw [← (s.assignStreamIDLocked_same e.stream).1]
    rfl
  rcases run_newDataVec hlen with ⟨v, hv, hnew⟩
  refine ⟨run_separate hreq hv hnew,
    run_separate hreq (DataVec.before_seatSingle body) fun _ => rfl,
    run_sendHeadersAndDataV hreq hlen, ?_, ?_⟩
  · simp only [fused, r, body, ← hcontent] at hreq hlen ⊢
    simp only [sendBatch, List.cons_ne_nil, if_false, run_get_bind, hreq.ready.isOpen,
      Bool.false_eq_true, sendEntries, run_sendBatchEntry hreq hfields hlen]
    rfl
  intro hne
  have hseparate : r.separateFrames e.stream e.endStream block body =
      r.headerFrames e.stream false block ++ r.dataFrames e.stream e.endStream body := by
    rw [Sender.separateFrames, Sender.bodyFrames, if_neg hne]
  have hfused : r.fusedFrames e.stream e.endStream block body =
      r.separateFrames e.stream e.endStream block body := by
    rw [Sender.fusedFrames, if_neg hne, hseparate]
  refine ⟨congrArg (s.after e.stream enc e.endStream body) hfused, hseparate, ?_⟩
  exact carries_dataFrames hreq.live.frameSizes.1 hne

/-- A new connection, with a padding of two bytes. -/
def freshSender : Sender where
  closed := false
  peerMaxFrameSize := 16384
  ourMaxFrameSize := 16384
  padHeaders := 0
  padData := 2
  enc := .new fun _ => 0
  nextID := 1
  initial := 65535
  peerConnSendWindow := 65535
  stream := fun _ => ⟨0, 0, 0, false, false, false⟩
  out := []

def post : List Field := [⟨Header.ascii ":method", Header.ascii "POST", Header.indexIncremental⟩]

theorem same_frames_freshSender :
    (sendHeadersAndDataV 0 0 post (some [[1], [], [2, 3]]) true).run freshSender =
      EStateM.run (do
        sendHeaders 0 0 post false
        sendData 0 0 [1, 2, 3] true) freshSender := by
  have hready : freshSender.Ready 0 0 := by
    refine ⟨⟨rfl, rfl, rfl, ?_, ?_, ?_⟩, rfl, rfl, ?_⟩ <;> decide
  have henc : freshSender.enc.encodeBlock post = some ([0x83], freshSender.enc) := rfl
  have hcost : (freshSender.requested 0 freshSender.enc).bodyCost [1, 2, 3] = 6 := by
    rw [Sender.bodyCost, bodyCost, Chunks.chunks_of_le (by simp) (by decide)]
    rfl
  have hafford : (freshSender.requested 0 freshSender.enc).Affords 0 6 := by
    constructor <;> decide
  have hcovered : (freshSender.requested 0 freshSender.enc).Affords 0
      ((freshSender.requested 0 freshSender.enc).bodyCost [1, 2, 3]) := by
    rwa [hcost]
  rcases same_frames (some [[1], [], [2, 3]]) hready henc (fun _ => hcovered)
    (e := ⟨0, 0, some post, [], some [[1, 2, 3]], true⟩) rfl rfl rfl rfl
    with ⟨_, hdata, hfused, _, hsame⟩
  rw [hfused]
  exact hdata.symm

/-- What a call that returns nil has written. -/
def written {α : Type} (x : Send α) (s : Sender) : Option Bytes :=
  match x.run s with
  | .ok _ s => some s.out
  | .error .. => none

/-- A body without a byte: the fused call ends the stream with the headers, two calls end it
with an empty DATA frame. -/
theorem empty_body_ends_apart :
    written (sendHeadersAndDataV 0 0 post (some []) true) freshSender =
      some (Call.headers ⟨1, [0x83], true, true, none, 0⟩).bytes ∧
    written (do
      sendHeaders 0 0 post false
      sendDataV 0 0 (some []) true) freshSender =
      some ((Call.headers ⟨1, [0x83], false, true, none, 0⟩).bytes ++ (Call.data 1 true []).bytes) := by
  decide +kernel

end Conn.DataV
