import PoseidonHttp.Frame.Types
import PoseidonHttp.Header
import PoseidonHttp.Lib.BigEndian

/-!
# The HTTP/2 framer

The write functions of `framer.go`, each as a sequence of writes to a transport that
takes every byte, and `ReadFrame` with its dispatch functions. Lengths and sums wrap as
the machine integers of the source do: a payload length is an `int`, and a frame header
holds it as a `uint32`, of which 24 bits go out.
-/

namespace Frame

open Header (Bytes)
open BigEndian (decode encode)

/-! ## Vocabulary -/

/-- The sentinels of `errors.go`, a slice out of bounds, and the end of the input. -/
inductive Error where
  | frameTooLarge
  | invalidStreamID
  | invalidPadding
  | settingsAck
  | priorityWrongLength
  | rstWrongLength
  | pingWrongLength
  | windowWrongLength
  | settingsLength
  | shortRead
  | zeroIncrement
  | protocolError
  | tooManyAltSvc
  | continuationExpected
  | unexpectedContinuation
  | panic
  | eof
  deriving DecidableEq, Repr

abbrev FrameType := UInt8

namespace FrameType

def data : FrameType := 0x0
def headers : FrameType := 0x1
def priority : FrameType := 0x2
def rstStream : FrameType := 0x3
def settings : FrameType := 0x4
def pushPromise : FrameType := 0x5
def ping : FrameType := 0x6
def goAway : FrameType := 0x7
def windowUpdate : FrameType := 0x8
def continuation : FrameType := 0x9
def altSvc : FrameType := 0x0a
def origin : FrameType := 0x0c

end FrameType

abbrev Flags := UInt8

/-- END_STREAM, and ACK on SETTINGS and PING. -/
def flagEndStream : Flags := 0x1
def flagAck : Flags := 0x1
def flagEndHeaders : Flags := 0x4
def flagPadded : Flags := 0x8
def flagPriority : Flags := 0x20

/-- A flag or none. -/
def Flags.when (b : Bool) (f : Flags) : Flags := if b then f else 0

/-- The bits are set. -/
def Flags.has (fs f : Flags) : Bool := fs &&& f != 0

structure FrameHeader where
  /-- A `uint32`. -/
  length : ℕ
  type : FrameType
  flags : Flags := 0
  streamID : UInt32
  deriving DecidableEq, Repr

structure Priority where
  streamDep : UInt32
  exclusive : Bool
  weight : UInt8
  deriving DecidableEq, Repr

structure SettingPair where
  id : UInt16
  value : UInt32
  deriving DecidableEq, Repr

structure AltSvcEntry where
  origin : Bytes
  altValue : Bytes
  deriving DecidableEq, Repr

/-- A fixed-size array. -/
abbrev Octets (n : ℕ) := { b : Bytes // b.length = n }

/-! ## Integers on the wire -/

/-- The reserved bit cleared. -/
def mask31 (v : UInt32) : UInt32 := v &&& 0x7fffffff

def putUint32 (v : UInt32) : Bytes := encode 4 v.toNat

def readUint32 (b : Bytes) : UInt32 := UInt32.ofNat (decode b)

/-- `WriteUint31` and `ReadUint31`. -/
def putUint31 (v : UInt32) : Bytes := putUint32 (mask31 v)

def readUint31 (b : Bytes) : UInt32 := mask31 (readUint32 b)

def frameHeaderSize : ℕ := 9

/-- `WriteFrameHeader`. -/
def FrameHeader.put (h : FrameHeader) : Bytes :=
  encode 3 h.length ++ [h.type, h.flags] ++ putUint31 h.streamID

/-- `ReadFrameHeader`, on nine bytes. -/
def readFrameHeader (b : Bytes) : FrameHeader where
  length := decode (b.take 3)
  type := b.getD 3 0
  flags := b.getD 4 0
  streamID := readUint31 (b.drop 5)

/-- `putPriority`: the exclusive bit is set on top of the masked dependency. -/
def putPriority (p : Priority) : Bytes :=
  putUint32 (mask31 p.streamDep ||| if p.exclusive then 0x80000000 else 0) ++ [p.weight]

/-- `parsePriority`, on five bytes. -/
def parsePriority (b : Bytes) : Priority where
  streamDep := readUint31 (b.take 4)
  exclusive := Flags.has (b.getD 0 0) 0x80
  weight := b.getD 4 0

/-! ## The write side -/

/-- A write function over the bytes written so far. -/
abbrev Write := EStateM Error Bytes

/-- `f.w.Write`. -/
def put (b : Bytes) : Write Unit := modify (· ++ b)

section Write

variable (maxFrameSize : ℕ) (streamID : UInt32)

def writeFrame (h : FrameHeader) (payload : Bytes) : Write Unit := do
  if maxFrameSize < h.length then throw .frameTooLarge
  put h.put
  if payload ≠ [] then put payload

/-- Conversion to `uint32`. -/
def uint32 (n : ℕ) : ℕ := n % 2 ^ 32

def writeData (endStream : Bool) (data : Bytes) : Write Unit := do
  if streamID = 0 then throw .invalidStreamID
  writeFrame maxFrameSize
    ⟨uint32 data.length, FrameType.data, .when endStream flagEndStream, streamID⟩ data

/-- The loop of `sumBufs`: an `int` that turns negative is refused. -/
def sumBufsFrom : ℕ → List Bytes → Option ℕ
  | total, [] => some total
  | total, b :: bs =>
    let total := total + b.length
    if 2 ^ 63 ≤ total then none else sumBufsFrom total bs

def sumBufs (bufs : List Bytes) : Option ℕ := sumBufsFrom 0 bufs

/-- `writeBufs` skips empty buffers. -/
def writeBufs : List Bytes → Write Unit
  | [] => pure ()
  | b :: bs => do
    if b ≠ [] then put b
    writeBufs bs

def writeDataV (endStream : Bool) (bufs : List Bytes) : Write Unit := do
  if streamID = 0 then throw .invalidStreamID
  match sumBufs bufs with
  | none => throw .frameTooLarge
  | some total =>
    if maxFrameSize < total then throw .frameTooLarge
    put (FrameHeader.put
      ⟨uint32 total, FrameType.data, .when endStream flagEndStream, streamID⟩)
    writeBufs bufs

/-- The padding that follows a payload. -/
def zeros (padLen : UInt8) : Bytes := List.replicate padLen.toNat 0

/-- `int` arithmetic. -/
def int64 (x : ℤ) : ℤ := x.bmod (2 ^ 64)

def writeDataVPadded (endStream : Bool) (bufs : List Bytes) (padLen : UInt8) : Write Unit := do
  if streamID = 0 then throw .invalidStreamID
  match sumBufs bufs with
  | none => throw .frameTooLarge
  | some total =>
    let totalLen := int64 (1 + total + padLen.toNat)
    if (maxFrameSize : ℤ) < totalLen then throw .frameTooLarge
    put (FrameHeader.put ⟨(totalLen % 2 ^ 32).toNat, FrameType.data,
      flagPadded ||| .when endStream flagEndStream, streamID⟩)
    put [padLen]
    writeBufs bufs
    if padLen ≠ 0 then put (zeros padLen)

def writeDataPadded (endStream : Bool) (data : Bytes) (padLen : UInt8) : Write Unit := do
  if streamID = 0 then throw .invalidStreamID
  let totalLen := uint32 (1 + data.length + padLen.toNat)
  if maxFrameSize < totalLen then throw .frameTooLarge
  put (FrameHeader.put
    ⟨totalLen, FrameType.data, flagPadded ||| .when endStream flagEndStream, streamID⟩)
  put [padLen]
  put data
  if padLen ≠ 0 then put (zeros padLen)

structure WriteHeadersParams where
  streamID : UInt32
  blockFragment : Bytes
  endStream : Bool
  endHeaders : Bool
  priority : Option Priority
  padLength : UInt8
  deriving DecidableEq

def WriteHeadersParams.flags (p : WriteHeadersParams) : Flags :=
  .when p.endStream flagEndStream ||| .when p.endHeaders flagEndHeaders |||
    .when (p.padLength ≠ 0) flagPadded ||| .when p.priority.isSome flagPriority

/-- The size of `f.writeBuf`. -/
def writeBufSize : ℕ := 256

def writeHeaders (p : WriteHeadersParams) : Write Unit := do
  if p.streamID = 0 then throw .invalidStreamID
  let totalLen := uint32 (p.blockFragment.length + p.padLength.toNat +
    (if p.padLength ≠ 0 then 1 else 0) + (if p.priority.isSome then 5 else 0))
  if maxFrameSize < totalLen then throw .frameTooLarge
  let h : FrameHeader := ⟨totalLen, FrameType.headers, p.flags, p.streamID⟩
  if p.padLength = 0 ∧ p.priority = none ∧ frameHeaderSize + totalLen ≤ writeBufSize then
    -- header and block in one write, through the scratch buffer
    if writeBufSize < frameHeaderSize + p.blockFragment.length then throw .panic
    put (h.put ++ p.blockFragment)
  else
    put h.put
    if p.padLength ≠ 0 then put [p.padLength]
    match p.priority with
    | some prio => put (putPriority prio)
    | none => pure ()
    put p.blockFragment
    if p.padLength ≠ 0 then put (zeros p.padLength)

def writeContinuation (endHeaders : Bool) (blockFragment : Bytes) : Write Unit := do
  if streamID = 0 then throw .invalidStreamID
  writeFrame maxFrameSize ⟨uint32 blockFragment.length, FrameType.continuation,
    .when endHeaders flagEndHeaders, streamID⟩ blockFragment

def writePriority (p : Priority) : Write Unit := do
  if streamID = 0 then throw .invalidStreamID
  writeFrame maxFrameSize ⟨5, FrameType.priority, 0, streamID⟩ (putPriority p)

def writeRSTStream (code : ErrCode) : Write Unit := do
  if streamID = 0 then throw .invalidStreamID
  writeFrame maxFrameSize ⟨4, FrameType.rstStream, 0, streamID⟩ (putUint32 code)

def maxSettingsPairs : ℕ := 16

def SettingPair.put (p : SettingPair) : Bytes := encode 2 p.id.toNat ++ putUint32 p.value

/-- `WriteSettings`; the pairs are `s.Pairs[:s.N]`. -/
def writeSettings (pairs : List SettingPair) : Write Unit := do
  if maxSettingsPairs < pairs.length then throw .settingsLength
  let payload := pairs.flatMap SettingPair.put
  writeFrame maxFrameSize ⟨uint32 payload.length, FrameType.settings, 0, 0⟩ payload

def writeSettingsAck : Write Unit :=
  writeFrame maxFrameSize ⟨0, FrameType.settings, flagAck, 0⟩ []

def writePushPromise (promisedID : UInt32) (blockFragment : Bytes)
    (endHeaders : Bool) (padLen : UInt8) : Write Unit := do
  if streamID = 0 then throw .invalidStreamID
  let totalLen := uint32 (4 + blockFragment.length + padLen.toNat + if padLen ≠ 0 then 1 else 0)
  if maxFrameSize < totalLen then throw .frameTooLarge
  put (FrameHeader.put ⟨totalLen, FrameType.pushPromise,
    .when endHeaders flagEndHeaders ||| .when (padLen ≠ 0) flagPadded, streamID⟩)
  if padLen ≠ 0 then put [padLen]
  put (putUint31 promisedID)
  put blockFragment
  if padLen ≠ 0 then put (zeros padLen)

def writePing (ack : Bool) (data : Octets 8) : Write Unit :=
  writeFrame maxFrameSize ⟨8, FrameType.ping, .when ack flagAck, 0⟩ data.1

def writeGoAway (lastStreamID : UInt32) (code : ErrCode) (debug : Bytes) : Write Unit := do
  let totalLen := uint32 (8 + debug.length)
  if maxFrameSize < totalLen then throw .frameTooLarge
  put (FrameHeader.put ⟨totalLen, FrameType.goAway, 0, 0⟩)
  put (putUint31 lastStreamID ++ putUint32 code)
  if debug ≠ [] then put debug

def writeAltSvc : List AltSvcEntry → Write Unit
  | [] => writeFrame maxFrameSize ⟨0, FrameType.altSvc, 0, mask31 streamID⟩ []
  | [e] => do
    if 0xffff < e.origin.length then throw .frameTooLarge
    let buf := encode 2 e.origin.length ++ e.origin ++ e.altValue
    if maxFrameSize < uint32 buf.length then throw .frameTooLarge
    writeFrame maxFrameSize ⟨uint32 buf.length, FrameType.altSvc, 0, mask31 streamID⟩ buf
  | _ => throw .tooManyAltSvc

def writeWindowUpdate (increment : UInt32) : Write Unit := do
  if mask31 increment = 0 then throw .zeroIncrement
  writeFrame maxFrameSize ⟨4, FrameType.windowUpdate, 0, streamID⟩ (putUint31 (mask31 increment))

end Write

/-! ## The read side -/

/-- A call of a `Handler` method. -/
inductive HandlerCall where
  | onData (h : FrameHeader) (payload : Bytes) (padLen : UInt8)
  | onHeaders (h : FrameHeader) (hb : Bytes) (prio : Option Priority) (padLen : UInt8)
  | onPriority (h : FrameHeader) (p : Priority)
  | onRSTStream (h : FrameHeader) (code : ErrCode)
  | onSettings (h : FrameHeader) (pairs : List SettingPair)
  | onPushPromise (h : FrameHeader) (promisedID : UInt32) (hb : Bytes) (padLen : UInt8)
  | onPing (h : FrameHeader) (opaqueData : Bytes)
  | onGoAway (h : FrameHeader) (lastStreamID : UInt32) (code : ErrCode) (debug : Bytes)
  | onWindowUpdate (h : FrameHeader) (increment : UInt32)
  | onContinuation (h : FrameHeader) (hb : Bytes)
  | onOrigin (h : FrameHeader) (origins : List Bytes)
  | onAltSvc (h : FrameHeader) (entries : List AltSvcEntry)
  deriving DecidableEq

def stripPadding : Bytes → Except Error (Bytes × UInt8)
  | [] => .error .invalidPadding
  | padLen :: raw =>
    if raw.length < padLen.toNat then .error .invalidPadding
    else .ok (raw.take (raw.length - padLen.toNat), padLen)

section Dispatch

variable (fh : FrameHeader) (payload : Bytes)

/-- The payload without its padding, when the flag says that there is some. -/
def unpadded : Except Error (Bytes × UInt8) :=
  if fh.flags.has flagPadded then stripPadding payload else .ok (payload, 0)

def dispatchData : Except Error (List HandlerCall) := do
  if fh.streamID = 0 then throw .invalidStreamID
  let (data, padLen) ← unpadded fh payload
  pure [.onData fh data padLen]

def dispatchHeaders : Except Error (List HandlerCall) := do
  if fh.streamID = 0 then throw .invalidStreamID
  let (body, padLen) ← unpadded fh payload
  if fh.flags.has flagPriority then
    if body.length < 5 then throw .shortRead
    pure [.onHeaders fh (body.drop 5) (some (parsePriority (body.take 5))) padLen]
  else pure [.onHeaders fh body none padLen]

def dispatchPriority : Except Error (List HandlerCall) := do
  if fh.streamID = 0 then throw .invalidStreamID
  if fh.length ≠ 5 then throw .priorityWrongLength
  pure [.onPriority fh (parsePriority (payload.take 5))]

def dispatchRSTStream : Except Error (List HandlerCall) := do
  if fh.streamID = 0 then throw .invalidStreamID
  if fh.length ≠ 4 then throw .rstWrongLength
  pure [.onRSTStream fh (readUint32 (payload.take 4))]

def isDefinedSetting (id : UInt16) : Bool := id ∈ [0x1, 0x2, 0x3, 0x4, 0x5, 0x6, 0x8]

/-- `SettingsParams.set`: the last value of an identifier wins. -/
def setPair : List SettingPair → SettingPair → List SettingPair
  | [], p => [p]
  | q :: qs, p => if q.id = p.id then p :: qs else q :: setPair qs p

/-- The loop of `dispatchSettings`, six bytes a turn. -/
def settingsFrom : List SettingPair → Bytes → List SettingPair
  | pairs, a :: b :: c :: d :: e :: f :: payload =>
    let p : SettingPair := ⟨UInt16.ofNat (decode [a, b]), readUint32 [c, d, e, f]⟩
    settingsFrom (if isDefinedSetting p.id then setPair pairs p else pairs) payload
  | pairs, _ => pairs

def dispatchSettings : Except Error (List HandlerCall) := do
  if fh.streamID ≠ 0 then throw .invalidStreamID
  if fh.flags.has flagAck then
    if fh.length ≠ 0 then throw .settingsAck
    pure [.onSettings fh []]
  else
    if fh.length % 6 ≠ 0 then throw .settingsLength
    pure [.onSettings fh (settingsFrom [] payload)]

def dispatchPushPromise : Except Error (List HandlerCall) := do
  if fh.streamID = 0 then throw .invalidStreamID
  let (body, padLen) ← unpadded fh payload
  if body.length < 4 then throw .shortRead
  pure [.onPushPromise fh (readUint31 (body.take 4)) (body.drop 4) padLen]

def dispatchPing : Except Error (List HandlerCall) := do
  if fh.streamID ≠ 0 then throw .invalidStreamID
  if fh.length ≠ 8 then throw .pingWrongLength
  pure [.onPing fh payload]

def dispatchGoAway : Except Error (List HandlerCall) := do
  if fh.streamID ≠ 0 then throw .invalidStreamID
  if fh.length < 8 then throw .shortRead
  pure [.onGoAway fh (readUint31 (payload.take 4)) (readUint32 ((payload.drop 4).take 4))
    (payload.drop 8)]

def dispatchWindowUpdate : Except Error (List HandlerCall) := do
  if fh.length ≠ 4 then throw .windowWrongLength
  let inc := readUint31 (payload.take 4)
  if inc = 0 then throw .zeroIncrement
  pure [.onWindowUpdate fh inc]

def dispatchContinuation : Except Error (List HandlerCall) := do
  if fh.streamID = 0 then throw .invalidStreamID
  pure [.onContinuation fh payload]

/-- The loop of `dispatchOrigin`; every turn takes two bytes or more. -/
def originsFrom : ℕ → List Bytes → Bytes → Except Error (List Bytes)
  | fuel + 1, origins, a :: b :: payload =>
    let n := decode [a, b]
    if payload.length < n then .error .protocolError
    else originsFrom fuel (origins ++ [payload.take n]) (payload.drop n)
  | _, origins, [] => .ok origins
  | _, _, _ => .error .protocolError

def dispatchOrigin : Except Error (List HandlerCall) := do
  if fh.streamID ≠ 0 then pure []
  else
    let origins ← originsFrom payload.length [] payload
    pure [.onOrigin fh origins]

def dispatchAltSvc : Except Error (List HandlerCall) := do
  if payload = [] then pure [.onAltSvc fh []]
  else if payload.length < 2 then throw .protocolError
  else
    let originLen := decode (payload.take 2)
    if payload.length < 2 + originLen then throw .protocolError
    let origin := (payload.drop 2).take originLen
    -- a combination of stream and origin that is to be ignored
    if fh.streamID = 0 ↔ origin = [] then pure []
    else pure [.onAltSvc fh [⟨origin, payload.drop (2 + originLen)⟩]]

def dispatch : Except Error (List HandlerCall) :=
  if fh.type = FrameType.data then dispatchData fh payload
  else if fh.type = FrameType.headers then dispatchHeaders fh payload
  else if fh.type = FrameType.priority then dispatchPriority fh payload
  else if fh.type = FrameType.rstStream then dispatchRSTStream fh payload
  else if fh.type = FrameType.settings then dispatchSettings fh payload
  else if fh.type = FrameType.pushPromise then dispatchPushPromise fh payload
  else if fh.type = FrameType.ping then dispatchPing fh payload
  else if fh.type = FrameType.goAway then dispatchGoAway fh payload
  else if fh.type = FrameType.windowUpdate then dispatchWindowUpdate fh payload
  else if fh.type = FrameType.continuation then dispatchContinuation fh payload
  else if fh.type = FrameType.origin then dispatchOrigin fh payload
  else if fh.type = FrameType.altSvc then dispatchAltSvc fh payload
  else .ok []

end Dispatch

/-- The read half of `Framer`. -/
structure Reader where
  maxFrameSize : ℕ
  expectContinuation : Bool
  continuationStream : UInt32
  deriving DecidableEq

namespace Reader

def checkFieldBlockContinuity (r : Reader) (fh : FrameHeader) : Option Error :=
  if r.expectContinuation then
    if fh.type ≠ FrameType.continuation ∨ fh.streamID ≠ r.continuationStream then
      some .continuationExpected
    else none
  else if fh.type = FrameType.continuation then some .unexpectedContinuation
  else none

def trackFieldBlock (r : Reader) (fh : FrameHeader) : Reader :=
  if fh.type = FrameType.headers ∨ fh.type = FrameType.pushPromise then
    { r with
      expectContinuation := !fh.flags.has flagEndHeaders
      continuationStream := fh.streamID }
  else if fh.type = FrameType.continuation ∧ fh.flags.has flagEndHeaders then
    { r with expectContinuation := false }
  else r

/-- What `ReadFrame` leaves: the input after it, the handler calls, the error. -/
structure Result where
  reader : Reader
  rest : Bytes
  calls : List HandlerCall
  err : Option Error
  deriving DecidableEq

/-- `ReadFrame` with a handler that returns nil. -/
def readFrame (r : Reader) (input : Bytes) : Result :=
  if input.length < frameHeaderSize then ⟨r, [], [], some .eof⟩
  else
    let fh := readFrameHeader (input.take frameHeaderSize)
    let input := input.drop frameHeaderSize
    if r.maxFrameSize < fh.length then ⟨r, input, [], some .frameTooLarge⟩
    else if input.length < fh.length then ⟨r, [], [], some .eof⟩
    else
      let rest := input.drop fh.length
      match r.checkFieldBlockContinuity fh with
      | some e => ⟨r, rest, [], some e⟩
      | none =>
        match dispatch fh (input.take fh.length) with
        | .error e => ⟨r.trackFieldBlock fh, rest, [], some e⟩
        | .ok calls => ⟨r.trackFieldBlock fh, rest, calls, none⟩

end Reader

end Frame
