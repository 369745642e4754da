import PoseidonHttp.Conn.SendFlow
import PoseidonHttp.Frame.RoundTrip
import PoseidonHttp.Hpack.Encoder

/-!
# The ways to send a body

A request body goes out by `SendHeaders` and then `SendData` or `SendDataV`, by the fused
`SendHeadersAndDataV`, or as an entry of `SendBatch`. The loops cut it at the frame size
while a cursor (`DataVec`) walks the caller's buffers. The two-write paths take credit for
each frame; the others take it for the whole body, by a formula for the number of frames.

`DataVec.Before.next` says what the cursor does: it hands out the next bytes of the
concatenation, wherever the buffers end.
-/

namespace Conn.DataV

open Header (Bytes Field)
open SendFlow (acquireSendCredits tryAcquireSendCreditsAll)

/-! ## The cursor -/

/-- `dataVec`. -/
structure DataVec where
  /-- `bufs[i:]`; nil in the scalar form. -/
  bufs : Option (List Bytes)
  /-- The offset within `bufs[i]`, or within `single`. -/
  off : ℕ
  /-- Bytes not yet handed out. -/
  rem : ℕ
  single : Bytes
  deriving DecidableEq

namespace DataVec

/-- `newDataVec`; none where the total overflows. -/
def new (bufs : Option (List Bytes)) : Option DataVec :=
  (Frame.sumBufs (bufs.getD [])).map fun total => ⟨bufs, 0, total, []⟩

def seatSingle (p : Bytes) : DataVec := ⟨none, 0, p.length, p⟩

/-- The loop of `next`: the pieces that cover the next `n` bytes, the buffers left, and the
offset in the first of them. -/
def nextFrom : List Bytes → ℕ → ℕ → List Bytes × List Bytes × ℕ
  | [], off, _ => ([], [], off)
  | b :: bs, off, n =>
    if n = 0 then ([], b :: bs, off)
    else if b.length ≤ off then nextFrom bs 0 n
    else
      let take := min (b.length - off) n
      let piece := (b.drop off).take take
      -- a buffer that is used up is left behind in the next turn, unless the loop is over
      if take = n then ([piece], b :: bs, off + take)
      else
        let (pieces, rest, off) := nextFrom bs 0 (n - take)
        (piece :: pieces, rest, off)

/-- The pieces, how many bytes they cover, and the cursor after them. -/
def next (v : DataVec) (n : ℕ) : List Bytes × ℕ × DataVec :=
  match v.bufs with
  | none =>
    let take := min n v.rem
    if take = 0 then ([], take, v)
    else ([(v.single.drop v.off).take take], take,
      { v with off := v.off + take, rem := v.rem - take })
  | some bufs =>
    let (pieces, rest, off) := nextFrom bufs v.off n
    let got := pieces.flatten.length
    (pieces, got, { v with bufs := some rest, off, rem := v.rem - got })

/-- The bytes of these buffers from an offset in the first of them. -/
def bytesFrom : List Bytes → ℕ → Bytes
  | [], _ => []
  | b :: bs, off => b.drop off ++ bs.flatten

/-- The bytes ahead of the cursor. -/
def pending (v : DataVec) : Bytes :=
  match v.bufs with
  | none => v.single.drop v.off
  | some bufs => bytesFrom bufs v.off

/-- The cursor stands before these bytes. -/
structure Before (v : DataVec) (body : Bytes) : Prop where
  pending : v.pending = body
  rem : v.rem = body.length

theorem bytesFrom_zero (bufs : List Bytes) : bytesFrom bufs 0 = bufs.flatten := by
  cases bufs with
  | nil => rfl
  | cons b bs => simp [bytesFrom]

theorem nextFrom_spec (bufs : List Bytes) (off n : ℕ) :
    (nextFrom bufs off n).1.flatten = (bytesFrom bufs off).take n ∧
      bytesFrom (nextFrom bufs off n).2.1 (nextFrom bufs off n).2.2 =
        (bytesFrom bufs off).drop n := by
  fun_induction nextFrom bufs off n with
  | case1 off n => simp [bytesFrom]
  | case2 b bs off => simp
  | case3 b bs off n hn hoff ih =>
    -- this buffer has nothing left
    rw [bytesFrom_zero] at ih
    simpa [bytesFrom, List.drop_of_length_le hoff] using ih
  | case4 b bs off n hn hoff take piece htake =>
    have hle : n ≤ (b.drop off).length := by
      rw [List.length_drop]
      omega
    constructor
    · simp [bytesFrom, piece, htake, List.take_append_of_le_length hle]
    · simp [bytesFrom, htake, List.drop_append_of_le_length hle]
  | case5 b bs off n hn hoff take piece htake pieces rest off' heq ih =>
    have hall : take = (b.drop off).length := by
      rw [List.length_drop]
      omega
    have hpiece : piece = b.drop off := List.take_of_length_le hall.ge
    rw [bytesFrom_zero, heq] at ih
    rw [hall] at ih
    have hle : (b.drop off).length ≤ n := by omega
    constructor
    · rw [bytesFrom, List.take_append, List.take_of_length_le hle, List.flatten_cons, hpiece, ih.1]
    · rw [bytesFrom, List.drop_append, List.drop_of_length_le hle, List.nil_append, ih.2]

theorem before_new {bufs : Option (List Bytes)} {v : DataVec} (h : new bufs = some v) :
    v.Before (bufs.getD []).flatten := by
  simp only [new, Option.map_eq_some_iff] at h
  rcases h with ⟨total, htotal, rfl⟩
  constructor
  · cases bufs with
    | none => rfl
    | some bs => exact bytesFrom_zero bs
  · exact Frame.Call.sumBufs_eq htotal

theorem before_seatSingle (p : Bytes) : (seatSingle p).Before p := ⟨rfl, rfl⟩

/-- `next` hands out the next bytes and moves past them. -/
theorem Before.next {v : DataVec} {body : Bytes} (h : v.Before body) {n : ℕ} (hn : n ≤ body.length) :
    (v.next n).1.flatten = body.take n ∧ (v.next n).2.1 = n ∧
      (v.next n).2.2.Before (body.drop n) := by
  rcases v with ⟨_ | bufs, off, rem, single⟩
  · have hbody : single.drop off = body := h.pending
    have hrem : rem = body.length := h.rem
    subst hrem
    simp only [DataVec.next, Nat.min_eq_left hn, hbody]
    by_cases hzero : n = 0
    · subst hzero
      simpa using h
    · rw [if_neg hzero]
      refine ⟨by simp, rfl, ?_, ?_⟩
      · simp [DataVec.pending, ← hbody]
      · simp
  · have hbody : bytesFrom bufs off = body := h.pending
    have hrem : rem = body.length := h.rem
    have hspec := nextFrom_spec bufs off n
    rw [hbody] at hspec
    have hgot : (nextFrom bufs off n).1.flatten.length = n := by
      rw [hspec.1, List.length_take]
      exact Nat.min_eq_left hn
    refine ⟨hspec.1, hgot, hspec.2, ?_⟩
    simp only [DataVec.next, hgot, List.length_drop, hrem]

end DataVec

/-! ## The connection -/

inductive SendError where
  | connClosed
  | staleStream
  | pushedStreamReadOnly
  | streamClosed
  | vecUnderrun
  | noCredit
  /-- The writer waits for credit. -/
  | parked
  | frame (e : Frame.Error)
  | panic
  deriving DecidableEq

/-- The part of a `Stream` that the send paths read and write. -/
structure Stream where
  id : UInt32
  gen : ℕ
  sendWindow : ℤ
  pushed : Bool
  closed : Bool
  localEnded : Bool
  deriving DecidableEq

/-- The part of a `Conn` that the send paths read and write. The lengths of padding are the
ones `ForHeaders` and `ForData` return, of a strategy with one length. -/
structure Sender where
  closed : Bool
  /-- The peer's `SETTINGS_MAX_FRAME_SIZE`, and our own, which is also the framer's limit. -/
  peerMaxFrameSize : ℕ
  ourMaxFrameSize : ℕ
  padHeaders : UInt8
  padData : UInt8
  enc : Hpack.Encoder
  nextID : UInt32
  /-- The peer's `SETTINGS_INITIAL_WINDOW_SIZE`. -/
  initial : ℕ
  peerConnSendWindow : ℤ
  stream : ℕ → Stream
  /-- The bytes written. -/
  out : Bytes

/-- A write function that may leave a part of its bytes behind when it fails. -/
abbrev Send := EStateM SendError Sender

def frameSizeFloor : ℕ := 16384

/-- What padding adds to a frame. -/
def padOverhead (padLen : UInt8) : ℕ := if 0 < padLen then 1 + padLen.toNat else 0

namespace Sender

def maxOutFrameSize (s : Sender) : ℕ :=
  let maxFrame := min s.peerMaxFrameSize s.ourMaxFrameSize
  if maxFrame = 0 then frameSizeFloor else maxFrame

/-- The largest payload that fits a frame beside its padding (`dataFraming`). -/
def effective (s : Sender) : ℕ :=
  if 0 < padOverhead s.padData ∧ padOverhead s.padData < s.maxOutFrameSize then
    s.maxOutFrameSize - padOverhead s.padData
  else s.maxOutFrameSize

def modifyStream (s : Sender) (k : ℕ) (f : Stream → Stream) : Sender :=
  { s with stream := Function.update s.stream k (f (s.stream k)) }

def assignStreamIDLocked (s : Sender) (k : ℕ) : Sender :=
  if (s.stream k).id ≠ 0 then s
  else
    { s.modifyStream k fun t => { t with id := s.nextID, sendWindow := int32 s.initial } with
      nextID := s.nextID + 2 }

/-- The debit from both windows. -/
def debit (s : Sender) (k : ℕ) (d : ℤ) : Sender :=
  { s.modifyStream k fun t => { t with sendWindow := int32 (t.sendWindow - d) } with
    peerConnSendWindow := int32 (s.peerConnSendWindow - d) }

end Sender

/-- A call of the framer. -/
def write (w : ℕ → Frame.Write Unit) : Send Unit := fun s =>
  match (w s.ourMaxFrameSize).run s.out with
  | .ok _ out => .ok () { s with out }
  | .error e out => .error (.frame e) { s with out }

def encodeBlock (fields : List Field) : Send Bytes := do
  match (← get).enc.encodeBlock fields with
  | none => throw .panic
  | some (block, enc) =>
    modify fun s => { s with enc }
    pure block

/-! ## Headers -/

/-- The loop of `writeHeaderBlock`; every turn takes a byte or more. -/
def writeContinuations (streamID : UInt32) (maxFrame : ℕ) : ℕ → Bytes → Send Unit
  | _, [] => pure ()
  | 0, _ => throw .panic
  | fuel + 1, rest => do
    let n := min rest.length maxFrame
    write fun M => Frame.writeContinuation M streamID (n = rest.length) (rest.take n)
    writeContinuations streamID maxFrame fuel (rest.drop n)

def writeHeaderBlock (streamID : UInt32) (block : Bytes) (endStream : Bool)
    (prio : Option Frame.Priority) : Send Unit := do
  let maxFrame := (← get).maxOutFrameSize
  let padLen := (← get).padHeaders
  -- what is left of the first frame, and 1 if that is nothing
  let budget := max 1 (maxFrame - padOverhead padLen - if prio.isSome then 5 else 0)
  if block.length ≤ budget then
    write fun M => Frame.writeHeaders M ⟨streamID, block, endStream, true, prio, padLen⟩
  else
    write fun M =>
      Frame.writeHeaders M ⟨streamID, block.take budget, endStream, false, prio, padLen⟩
    writeContinuations streamID maxFrame block.length (block.drop budget)

def writeHeadersWithPriority (k : ℕ) (fields : List Field) (endStream : Bool)
    (prio : Option Frame.Priority) : Send Unit := do
  if (← get).closed then throw .connClosed
  modify fun s => s.assignStreamIDLocked k
  let block ← encodeBlock fields
  writeHeaderBlock ((← get).stream k).id block endStream prio

/-! ## Bodies -/

/-- One DATA frame with the next `n` bytes. -/
def emitDataV (v : DataVec) (id : UInt32) (n : ℕ) (last : Bool) (padLen : UInt8) :
    Send DataVec := do
  let (segs, got, v) := v.next n
  if got ≠ n then throw .vecUnderrun
  write fun M =>
    if 0 < padLen then Frame.writeDataVPadded M id last segs padLen
    else Frame.writeDataV M id last segs
  pure v

/-- The checks both ways of taking credit begin with. -/
def checkCredit (k wantGen : ℕ) : Send Stream := do
  if (← get).closed then throw .connClosed
  let t := (← get).stream k
  if t.gen ≠ wantGen then throw .staleStream
  if t.closed then throw .streamClosed
  pure t

/-- Credit for up to `want` bytes, or a wait for it. -/
def acquire (k wantGen want pad : ℕ) : Send ℕ := do
  if want = 0 then return 0
  let t ← checkCredit k wantGen
  match acquireSendCredits want pad t.sendWindow (← get).peerConnSendWindow with
  | none => throw .parked
  | some (n, d) =>
    modify fun s => s.debit k d
    pure n.toNat

/-- Credit for all of `want` bytes, or none. -/
def tryAcquireAll (k wantGen want pad : ℕ) : Send Bool := do
  if want = 0 then return true
  let t ← checkCredit k wantGen
  match tryAcquireSendCreditsAll want pad t.sendWindow (← get).peerConnSendWindow with
  | none => pure false
  | some (_, d) =>
    modify fun s => s.debit k d
    pure true

/-- The loop of `writeDataVec`; every turn sends a byte or more. -/
def writeDataLoop (k wantGen : ℕ) (endStream : Bool) (padLen : UInt8) (effective : ℕ) :
    ℕ → DataVec → Send Unit
  | 0, v => if v.rem = 0 then pure () else throw .panic
  | fuel + 1, v => do
    if v.rem = 0 then return
    if (← get).closed then throw .connClosed
    let n ← acquire k wantGen (min v.rem effective) (padOverhead padLen)
    if (← get).closed then throw .connClosed
    let t := (← get).stream k
    if t.gen ≠ wantGen then throw .staleStream
    let v ← emitDataV v t.id n (endStream && n = v.rem) padLen
    writeDataLoop k wantGen endStream padLen effective fuel v

def writeDataVec (k wantGen : ℕ) (v : DataVec) (endStream : Bool) : Send Unit := do
  if (← get).closed then throw .connClosed
  if ((← get).stream k).id = 0 then throw .streamClosed
  let padLen := (← get).padData
  let effective := (← get).effective
  if effective = 0 then throw .connClosed
  if v.rem = 0 then
    -- an empty frame carries no flow-controlled bytes, and no padding
    if endStream then
      let t := (← get).stream k
      if t.gen ≠ wantGen then throw .staleStream
      write fun M => Frame.writeData M t.id true []
  else writeDataLoop k wantGen endStream padLen effective v.rem v

/-- The loop of the paths that have the credit for all of the body. -/
def emitAll (id : UInt32) (endStream : Bool) (padLen : UInt8) (effective : ℕ) :
    ℕ → DataVec → Send Unit
  | 0, v => if v.rem = 0 then pure () else throw .panic
  | fuel + 1, v => do
    if v.rem = 0 then return
    let n := min v.rem effective
    let v ← emitDataV v id n (endStream && n = v.rem) padLen
    emitAll id endStream padLen effective fuel v

def slowHeadersThenDataVec (k wantGen : ℕ) (fields : List Field) (v : DataVec) (endStream : Bool) :
    Send Unit := do
  writeHeadersWithPriority k fields false none
  writeDataVec k wantGen v endStream

/-- How many frames a body of this length is. -/
def frameCount (rem effective : ℕ) : ℕ := (rem + effective - 1) / effective

def writeHeadersAndDataVec (k wantGen : ℕ) (fields : List Field) (v : DataVec) (endStream : Bool) :
    Send Unit := do
  if (← get).closed then throw .connClosed
  if v.rem = 0 then writeHeadersWithPriority k fields endStream none
  else
    let padLen := (← get).padData
    modify fun s => s.assignStreamIDLocked k
    let effective := (← get).effective
    if effective = 0 then slowHeadersThenDataVec k wantGen fields v endStream
    else
      let ok ← tryAcquireAll k wantGen v.rem (padOverhead padLen * frameCount v.rem effective)
      if ok then
        let block ← encodeBlock fields
        writeHeaderBlock ((← get).stream k).id block false none
        let t := (← get).stream k
        if t.gen ≠ wantGen then throw .staleStream
        emitAll t.id endStream padLen effective v.rem v
      else slowHeadersThenDataVec k wantGen fields v endStream

/-! ## The API -/

/-- The checks at the door of every send. -/
def gate (k wantGen : ℕ) : Send Unit := do
  let t := (← get).stream k
  if t.gen ≠ wantGen then throw .staleStream
  if t.pushed then throw .pushedStreamReadOnly
  if t.closed || t.localEnded then throw .streamClosed

/-- `endLocalAndRetire`, when END_STREAM was sent. -/
def Sender.ended (s : Sender) (k : ℕ) (endStream : Bool) : Sender :=
  if endStream then s.modifyStream k fun t => { t with localEnded := true } else s

def newDataVec (bufs : Option (List Bytes)) : Send DataVec :=
  match DataVec.new bufs with
  | none => throw (.frame .frameTooLarge)
  | some v => pure v

def sendHeaders (k wantGen : ℕ) (fields : List Field) (endStream : Bool) : Send Unit := do
  gate k wantGen
  writeHeadersWithPriority k fields endStream none
  modify fun s => s.ended k endStream

def sendData (k wantGen : ℕ) (p : Bytes) (endStream : Bool) : Send Unit := do
  gate k wantGen
  writeDataVec k wantGen (.seatSingle p) endStream
  modify fun s => s.ended k endStream

def sendDataV (k wantGen : ℕ) (bufs : Option (List Bytes)) (endStream : Bool) : Send Unit := do
  gate k wantGen
  let v ← newDataVec bufs
  writeDataVec k wantGen v endStream
  modify fun s => s.ended k endStream

def sendHeadersAndDataV (k wantGen : ℕ) (fields : List Field) (bufs : Option (List Bytes))
    (endStream : Bool) : Send Unit := do
  gate k wantGen
  let v ← newDataVec bufs
  writeHeadersAndDataVec k wantGen fields v endStream
  modify fun s => s.ended k endStream

structure BatchEntry where
  stream : ℕ
  gen : ℕ
  fields : Option (List Field)
  body : Bytes
  bodyV : Option (List Bytes)
  endStream : Bool

/-- Credit for the whole body, and the body. -/
def emitBatchBody (e : BatchEntry) (v : DataVec) (id : UInt32) (effective : ℕ) (padLen : UInt8) :
    Send Unit := do
  let ok ← tryAcquireAll e.stream e.gen v.rem (padOverhead padLen * frameCount v.rem effective)
  if ok then emitAll id e.endStream padLen effective v.rem v else throw .noCredit

def emitBatchHeaders (k : ℕ) (fields : List Field) (endStream : Bool) : Send Unit := do
  modify fun s => s.assignStreamIDLocked k
  let block ← encodeBlock fields
  writeHeaderBlock ((← get).stream k).id block endStream none

/-- The cursor at the start of the body; `BodyV` comes before `Body`. -/
def seat (e : BatchEntry) : Send DataVec :=
  match e.bodyV with
  | some bufs => newDataVec (some bufs)
  | none => pure (.seatSingle e.body)

def sendBatchEntry (e : BatchEntry) : Send Unit := do
  let v ← seat e
  gate e.stream e.gen
  let padLen := (← get).padData
  let effective := (← get).effective
  if effective = 0 then throw .connClosed
  match e.fields with
  | some fields => emitBatchHeaders e.stream fields (e.endStream && v.rem = 0)
  | none => pure ()
  let t := (← get).stream e.stream
  if t.gen ≠ e.gen then throw .staleStream
  if t.id = 0 then throw .streamClosed
  if v.rem = 0 then
    if e.endStream && e.fields.isNone then write fun M => Frame.writeData M t.id true []
  else emitBatchBody e v t.id effective padLen

def isBatchFatal : SendError → Bool
  | .staleStream | .streamClosed | .pushedStreamReadOnly | .noCredit | .frame .frameTooLarge => false
  | _ => true

/-- The entries one after the other, with the error of each; a fatal one is the error of
those after it too. -/
def sendEntries : List BatchEntry → Sender → List (Option SendError) × Sender
  | [], s => ([], s)
  | e :: es, s =>
    match (sendBatchEntry e).run s with
    | .ok _ s =>
      let (errs, s) := sendEntries es s
      (none :: errs, s)
    | .error err s =>
      if isBatchFatal err then (some err :: es.map fun _ => some err, s)
      else
        let (errs, s) := sendEntries es s
        (some err :: errs, s)

/-- The errors of the entries; the streams of those that went out and ended are retired. -/
def sendBatch (batch : List BatchEntry) : Send (List (Option SendError)) := do
  if batch = [] then return []
  if (← get).closed then throw .connClosed
  let (errs, s) := sendEntries batch (← get)
  set s
  modify fun s => (batch.zip errs).foldl
    (fun s p => s.ended p.1.stream (p.2.isNone && p.1.endStream)) s
  pure errs

end Conn.DataV
