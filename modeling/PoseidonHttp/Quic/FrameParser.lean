import PoseidonHttp.Lib.Cursor
import PoseidonHttp.Quic.AckFrame

/-!
# Parsing the frames of a packet

`quic/frame.go`. `ParseFrames` walks a decrypted payload and calls a handler for every frame in
it. The parser keeps a position and reads at it; reads outside of the payload and a loop that
does not end are outcomes of their own here. A handler is a state with one function for each
method, and an error of the handler ends the parse.
-/

namespace Quic

open Header (Bytes)
open Cursor (Reader Stop refuse size position next tail skip elem)

/-- A call of a method of `FrameHandler`. -/
inductive Call where
  | onPadding (runLen : ℕ)
  | onPing
  | onAck (largestAcked ackDelay firstAckRange : ℕ)
  | onAckRange (gap length : ℕ)
  | onAckECN (ect0 ect1 ce : ℕ)
  | onResetStream (streamID errCode finalSize : ℕ)
  | onStopSending (streamID errCode : ℕ)
  | onCrypto (offset : ℕ) (data : Bytes)
  | onNewToken (token : Bytes)
  | onStream (streamID offset : ℕ) (fin : Bool) (data : Bytes)
  | onMaxData (maximum : ℕ)
  | onMaxStreamData (streamID maximum : ℕ)
  | onMaxStreams (uni : Bool) (maximum : ℕ)
  | onDataBlocked (limit : ℕ)
  | onStreamDataBlocked (streamID limit : ℕ)
  | onStreamsBlocked (uni : Bool) (limit : ℕ)
  | onNewConnectionID (seq retirePriorTo : ℕ) (connID resetToken : Bytes)
  | onRetireConnectionID (seq : ℕ)
  | onPathChallenge (data : Bytes)
  | onPathResponse (data : Bytes)
  | onConnectionClose (app : Bool) (errCode frameType : ℕ) (reason : Bytes)
  | onHandshakeDone
  deriving DecidableEq, Repr

/-- A `FrameHandler` with the state `σ`: what a call does and the error it returns, and
`permitInSpace`, which permits every type where the handler does not implement it. -/
structure FrameHandler (σ : Type) where
  on : σ → Call → σ × Option Error
  permitInSpace : σ → ℕ → Option Error

/-- How a parse ends without a result: with an error, with a read outside of the payload, or
with more rounds of the loop than it was given. -/
inductive Halt where
  | stop (s : Stop Error)
  | endless
  deriving DecidableEq, Repr

/-- A computation that calls a handler with the state `σ`. -/
abbrev Parse (σ : Type) : Type → Type := ExceptT Halt (StateM σ)

variable {σ α : Type}

namespace Parse

def read (r : Except (Stop Error) α) : Parse σ α :=
  match r with
  | .ok x => pure x
  | .error s => throw (.stop s)

def fail (e : Error) : Parse σ α := throw (.stop (.refused e))

/-- `return err` where the handler returned one. -/
def check (err : Option Error) : Parse σ Unit :=
  match err with
  | none => pure ()
  | some e => fail e

end Parse

namespace FrameHandler

variable (h : FrameHandler σ)

def call (c : Call) : Parse σ Unit := do
  let s ← get
  let (s, err) := h.on s c
  set s
  Parse.check err

def permit (typ : ℕ) : Parse σ Unit := do
  let s ← get
  Parse.check (h.permitInSpace s typ)

end FrameHandler

/-! ## Frame types -/

def framePing : ℕ := 0x01
def frameACK : ℕ := 0x02
def frameACKECN : ℕ := 0x03
def frameResetStream : ℕ := 0x04
def frameStopSending : ℕ := 0x05
def frameCrypto : ℕ := 0x06
def frameNewToken : ℕ := 0x07
def frameStreamBase : ℕ := 0x08
def frameStreamMax : ℕ := 0x0f
def frameMaxData : ℕ := 0x10
def frameMaxStreamData : ℕ := 0x11
def frameMaxStreamsBidi : ℕ := 0x12
def frameMaxStreamsUni : ℕ := 0x13
def frameDataBlocked : ℕ := 0x14
def frameStreamDataBlocked : ℕ := 0x15
def frameStreamsBlockedBidi : ℕ := 0x16
def frameStreamsBlockedUni : ℕ := 0x17
def frameNewConnectionID : ℕ := 0x18
def frameRetireConnectionID : ℕ := 0x19
def framePathChallenge : ℕ := 0x1a
def framePathResponse : ℕ := 0x1b
def frameConnectionClose : ℕ := 0x1c
def frameConnectionCloseApp : ℕ := 0x1d
def frameHandshakeDone : ℕ := 0x1e

def streamFin : UInt8 := 0x01
def streamLen : UInt8 := 0x02
def streamOff : UInt8 := 0x04

namespace FrameParser

/-! ## Fields

A field that is not there is refused with the error that the caller returns for it. -/

variable {ε : Type} (e : ε)

def readV : Reader UInt8 ε ℕ := do
  let src ← tail
  let (x, n) := readVarint src
  if n = 0 then refuse e
  else
    skip n
    return x

def readV2 : Reader UInt8 ε (ℕ × ℕ) := do
  let a ← readV e
  let c ← readV e
  return (a, c)

def readV3 : Reader UInt8 ε (ℕ × ℕ × ℕ) := do
  let a ← readV e
  let c ← readV e
  let d ← readV e
  return (a, c, d)

/-- The conversion of an `int` to a word: a negative number wraps. -/
def uint64 (x : ℤ) : ℕ := if 0 ≤ x then x.toNat else (x + u64).toNat

/-- `length` bytes, after the comparison of words that guards them. -/
def readBytes (length : ℕ) : Reader UInt8 ε Bytes := do
  if length > uint64 ((← size) - (← position)) then refuse e
  else next length

/-- A field of a fixed size, after the comparison of signed numbers that guards it. -/
def readFixed (n : ℕ) : Reader UInt8 ε Bytes := do
  if ((← size) : ℤ) - (← position) < n then refuse e
  else next n

/-- The byte at the position. -/
def readByte : Reader UInt8 ε UInt8 := do
  if (← position) ≥ (← size) then refuse e
  else elem

def readVarBytes : Reader UInt8 ε Bytes := do
  let length ← readV e
  readBytes e length

def readLenPrefixed : Reader UInt8 ε (ℕ × Bytes) := do
  let offset ← readV e
  let data ← readVarBytes e
  return (offset, data)

/-- All that is left of the packet. -/
def readRest : Reader UInt8 ε Bytes := do
  let data ← tail
  skip data.length
  return data

/-! ## Frames -/

/-- The fields of a STREAM frame: without a length the data is the rest of the packet. -/
def readStream (typeByte : UInt8) : Reader UInt8 ε (ℕ × ℕ × Bytes) := do
  let id ← readV e
  let offset ← (if typeByte &&& streamOff ≠ 0 then readV e else pure 0)
  let data ← (if typeByte &&& streamLen ≠ 0 then readVarBytes e else readRest)
  return (id, offset, data)

/-- The fields of a NEW_CONNECTION_ID frame. -/
def readNewConnectionID : Reader UInt8 ε (ℕ × ℕ × Bytes × Bytes) := do
  let seq ← readV e
  let retire ← readV e
  if retire > seq then refuse e
  else
    let first ← readByte e
    let cidLen := first.toNat
    if cidLen < 1 ∨ cidLen > 20 ∨ ((← size) : ℤ) - (← position) < cidLen + 16 then
      refuse e
    else
      let cid ← next cidLen
      let token ← next 16
      return (seq, retire, cid, token)

/-- The fields of a CONNECTION_CLOSE frame; that of an application has no frame type. -/
def readConnectionClose (app : Bool) : Reader UInt8 ε (ℕ × ℕ × Bytes) := do
  let errCode ← readV e
  let frameType ← (if app then pure 0 else readV e)
  let reason ← readVarBytes e
  return (errCode, frameType, reason)

/-- A NEW_TOKEN frame must carry a token. -/
def readNewToken : Reader UInt8 ε Bytes := do
  let tok ← readVarBytes e
  if tok.length = 0 then refuse e else return tok

/-- The fields of a frame are read, or the payload is refused; then the handler is called with
them. -/
def report (h : FrameHandler σ) (r : Error → Reader UInt8 Error α) (f : α → Call) (b : Bytes)
    (p : ℕ) : Parse σ ℕ := do
  let (x, np) ← Parse.read (r .frameEncoding b p)
  h.call (f x)
  return np

def parseStream (h : FrameHandler σ) (typeByte : UInt8) : Bytes → ℕ → Parse σ ℕ :=
  report h (readStream · typeByte) fun (id, offset, data) =>
    .onStream id offset (typeByte &&& streamFin != 0) data

/-- The loop of `parseAck`. -/
def parseAckRanges (h : FrameHandler σ) : ℕ → Bytes → ℕ → Parse σ ℕ
  | 0, _, p => return p
  | count + 1, b, p => do
    let p ← report h readV2 (fun (gap, length) => .onAckRange gap length) b p
    parseAckRanges h count b p

/-- The fields of an ACK frame before its ranges. -/
def readAckHead : Reader UInt8 ε (ℕ × ℕ × ℕ × ℕ) := do
  let largest ← readV e
  let delay ← readV e
  let rangeCount ← readV e
  let firstRange ← readV e
  return (largest, delay, rangeCount, firstRange)

def parseAck (h : FrameHandler σ) (ecn : Bool) (b : Bytes) (p : ℕ) : Parse σ ℕ := do
  let ((largest, delay, rangeCount, firstRange), p) ← Parse.read (readAckHead Error.frameEncoding b p)
  h.call (.onAck largest delay firstRange)
  let p ← parseAckRanges h rangeCount b p
  if ecn then report h readV3 (fun (ect0, ect1, ce) => .onAckECN ect0 ect1 ce) b p
  else return p

def parseNewConnectionID (h : FrameHandler σ) : Bytes → ℕ → Parse σ ℕ :=
  report h readNewConnectionID fun (seq, retire, cid, token) =>
    .onNewConnectionID seq retire cid token

def parseConnectionClose (h : FrameHandler σ) (app : Bool) : Bytes → ℕ → Parse σ ℕ :=
  report h (readConnectionClose · app) fun (errCode, frameType, reason) =>
    .onConnectionClose app errCode frameType reason

def parseFrameBody (h : FrameHandler σ) (typ : ℕ) (b : Bytes) (p : ℕ) : Parse σ ℕ :=
  if typ ≥ frameStreamBase ∧ typ ≤ frameStreamMax then parseStream h (UInt8.ofNat typ) b p
  else if typ = framePing then do
    h.call .onPing
    return p
  else if typ = frameHandshakeDone then do
    h.call .onHandshakeDone
    return p
  else if typ = frameACK ∨ typ = frameACKECN then parseAck h (typ == frameACKECN) b p
  else if typ = frameResetStream then
    report h readV3 (fun (id, ec, fs) => .onResetStream id ec fs) b p
  else if typ = frameStopSending then
    report h readV2 (fun (id, ec) => .onStopSending id ec) b p
  else if typ = frameCrypto then
    report h readLenPrefixed (fun (off, data) => .onCrypto off data) b p
  else if typ = frameNewToken then report h readNewToken .onNewToken b p
  else if typ = frameMaxData then report h readV .onMaxData b p
  else if typ = frameMaxStreamData then
    report h readV2 (fun (id, m) => .onMaxStreamData id m) b p
  else if typ = frameMaxStreamsBidi ∨ typ = frameMaxStreamsUni then
    report h readV (.onMaxStreams (typ == frameMaxStreamsUni)) b p
  else if typ = frameDataBlocked then report h readV .onDataBlocked b p
  else if typ = frameStreamDataBlocked then
    report h readV2 (fun (id, l) => .onStreamDataBlocked id l) b p
  else if typ = frameStreamsBlockedBidi ∨ typ = frameStreamsBlockedUni then
    report h readV (.onStreamsBlocked (typ == frameStreamsBlockedUni)) b p
  else if typ = frameNewConnectionID then parseNewConnectionID h b p
  else if typ = frameRetireConnectionID then report h readV .onRetireConnectionID b p
  else if typ = framePathChallenge then report h (readFixed · 8) .onPathChallenge b p
  else if typ = framePathResponse then report h (readFixed · 8) .onPathResponse b p
  else if typ = frameConnectionClose ∨ typ = frameConnectionCloseApp then
    parseConnectionClose h (typ == frameConnectionCloseApp) b p
  else Parse.fail .frameEncoding

/-- The length of the run of zero bytes at `p`. -/
def paddingRun (b : Bytes) (p : ℕ) : ℕ := ((b.drop p).takeWhile (· == 0)).length

/-- The loop of `ParseFrames`, for at most `rounds` frames and runs of padding. -/
def parseLoop (h : FrameHandler σ) (b : Bytes) : ℕ → ℕ → Parse σ Unit
  | 0, _ => throw .endless
  | rounds + 1, p =>
    if p < b.length then do
      let (first, _) ← Parse.read (elem b p)
      if first = 0 then
        let run := paddingRun b p
        h.call (.onPadding run)
        parseLoop h b rounds (p + run)
      else
        let (typ, p) ← Parse.read (readV Error.frameEncoding b p)
        h.permit typ
        let p ← parseFrameBody h typ b p
        parseLoop h b rounds p
    else return ()

/-- `ParseFrames`. Every round consumes a byte, so that there are at most as many rounds as
bytes, and the one that finds the end. -/
def parseFrames (h : FrameHandler σ) (payload : Bytes) : Parse σ Unit :=
  parseLoop h payload (payload.length + 1) 0

end FrameParser

end Quic
