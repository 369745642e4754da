import PoseidonHttp.Conn.Events
import PoseidonHttp.Grpc.Framing
import PoseidonHttp.Grpc.Status

/-!
# The receive side of a gRPC call

`Stream` of `stream.go` from the events of its HTTP/2 stream up to `RecvInto`, `Header`, `Trailer`
and `Close`, with the three ways it may keep the response metadata, and the unary `InvokeInto` of
`conn.go` over it.

What the HTTP/2 stream delivers is given as a list. A call that asks for more than there is has
not returned: its result is `none`. The send side is left out; it shares nothing with this but
the pooled buffers.
-/

namespace Grpc

open Header (Bytes Field ascii)
open Conn (StreamEvent)
open Growth (Allocator Arena)

/-- What one `Recv` on the HTTP/2 stream gives. -/
inductive Incoming where
  /-- An event; a DATA payload may lie in a slab. -/
  | event (e : StreamEvent) (slab : Option ℕ)
  | pushPromise
  | failed (err : TransportErr)
  deriving DecidableEq

/-- The errors of a call. -/
inductive Err where
  /-- `io.EOF`: the server completed the call successfully. -/
  | eof
  /-- `ErrStreamClosed`. -/
  | streamClosed
  | framing (e : FramingErr)
  | status (s : Status)
  /-- `ErrBadMethod`. -/
  | badMethod (method : Bytes)
  /-- A refusal of the metadata or of the stream, before anything is received. -/
  | refused (text : Bytes)
  deriving DecidableEq

/-! ## Reading fields -/

/-- `findField`: the value of the first field of that name. -/
def findField (fields : List Field) (name : Bytes) : Option Bytes :=
  (fields.find? fun f => f.name == name).map Field.value

def statusName : Bytes := ascii ":status"

def contentTypeName : Bytes := ascii "content-type"

def grpcStatusName : Bytes := ascii "grpc-status"

def grpcMessageName : Bytes := ascii "grpc-message"

/-- The loop of `pseudoStatus`; anything but a digit makes the status 0. -/
def statusDigits : ℕ → Bytes → ℕ
  | n, [] => n
  | n, c :: cs => if c < 0x30 ∨ 0x39 < c then 0 else statusDigits (n * 10 + (c - 0x30).toNat) cs

def pseudoStatus (fields : List Field) : ℕ :=
  match findField fields statusName with
  | none => 0
  | some v => if v.length ≠ 3 then 0 else statusDigits 0 v

def validContentType (fields : List Field) : Bool :=
  match findField fields contentTypeName with
  | none => false
  | some ct =>
    let base := ascii "application/grpc"
    base.isPrefixOf ct && match ct.drop base.length with
      | [] => true
      | c :: _ => c == 0x2b || c == 0x3b

/-! ## Metadata -/

def maxMetadataFields : ℕ := 1024

/-- A field whose bytes lie in the metadata arena. -/
structure FieldView where
  name : Growth.View
  value : Growth.View
  deriving DecidableEq

/-- The metadata arena of `streamBufs`: the bytes of the fields, and the fields. -/
structure Bufs where
  md : Arena UInt8 := {}
  mdFields : Arena FieldView := {}

/-- A list of fields the stream keeps: memory of its own, or a view into the arena. -/
inductive Metadata where
  | owned (fields : List Field)
  | borrowed (v : Growth.View)
  deriving DecidableEq

/-- A field with the zero indexing mode, as every copy has it. -/
def copied (f : Field) : Field := ⟨f.name, f.value, Header.indexIncremental⟩

/-- `cloneFields`, into fresh memory. -/
def cloneFields (src : List Field) : List Field := (src.take maxMetadataFields).map copied

namespace Bufs

def field (b : Bufs) (v : FieldView) : Field :=
  ⟨b.md.read v.name, b.md.read v.value, Header.indexIncremental⟩

/-- The fields a view shows. -/
def fields (b : Bufs) (v : Growth.View) : List Field := (b.mdFields.read v).map b.field

/-- One turn of the loop of `borrowFields`. -/
def borrowField (a : Allocator) (b : Bufs) (f : Field) : Bufs :=
  let nameOff := b.md.current.length
  let md := b.md.append a f.name
  let valOff := md.current.length
  let md := md.append a f.value
  let endOff := md.current.length
  { md, mdFields := b.mdFields.append a [⟨md.view nameOff valOff, md.view valOff endOff⟩] }

/-- `borrowFields` past its empty case. -/
def borrowFields (a : Allocator) (b : Bufs) (src : List Field) : Bufs × Growth.View :=
  let src := src.take maxMetadataFields
  let n := (src.map fun f => f.name.length + f.value.length).foldl (· + ·) 0
  let b := { md := b.md.reserve a n, mdFields := b.mdFields.reserve a src.length : Bufs }
  let start := b.mdFields.current.length
  let b := src.foldl (borrowField a) b
  (b, b.mdFields.view start b.mdFields.current.length)

/-- The fields of a list the arena holds; one that it does not hold is nil. -/
def views (b : Bufs) : Metadata → List FieldView
  | .owned _ => []
  | .borrowed v => b.mdFields.read v

/-- The arena half of `dupFields`. -/
def dupFields (a : Allocator) (b : Bufs) (src : Metadata) : Bufs × Growth.View :=
  let start := b.mdFields.current.length
  let mdFields := b.mdFields.append a (b.views src)
  ({ b with mdFields }, mdFields.view start mdFields.current.length)

end Bufs

/-! ## The receiver -/

/-- The fields of `Stream` that decide the outcome of the call. -/
structure Receiver where
  dec : Decoder := {}
  /-- The slabs given back. -/
  pool : SlabPool := []
  status : Status := {}
  httpStatus : ℕ := 0
  headersSeen : Bool := false
  done : Bool := false
  err : Option Err := none
  closed : Bool := false
  deriving DecidableEq

namespace Receiver

variable (r : Receiver)

/-- `fail`: the first failure stays. -/
def fail (err : Err) : Receiver × Err :=
  match r.err with
  | some first => (r, first)
  | none => ({ r with err := some err }, err)

/-- The status `finish` derives from the block that should carry `grpc-status`. -/
def finalStatus (httpStatus : ℕ) (fields : List Field) : Status :=
  match findField fields grpcStatusName with
  | some v =>
    let code := parseStatusCode v
    if ¬ (httpStatus ≠ 0 ∧ httpStatus ≠ 200) ∨ code ≠ Code.ok then
      { code, message := ((findField fields grpcMessageName).map decodeMessage).getD [] }
    else
      { code := statusFromHTTP httpStatus
        message := ascii "server returned HTTP status " ++ ascii (toString httpStatus) ++
          ascii " with grpc-status OK" }
  | none =>
    if httpStatus ≠ 0 then
      { code := statusFromHTTP httpStatus
        message := ascii "server returned HTTP status " ++ ascii (toString httpStatus) ++
          ascii " without a grpc-status" }
    else
      { code := .unknown
        message := ascii "server closed the stream without sending grpc-status" }

def finish (fields : List Field) : Receiver :=
  { r with done := true, status := finalStatus r.httpStatus fields }

/-- `onHeaders` with the block it reads; only the first one counts. -/
def onHeaders (live : List Field) (endStream : Bool) : Receiver :=
  if r.headersSeen then r
  else
    let r := { r with headersSeen := true, httpStatus := pseudoStatus live }
    if endStream then r.finish live
    else if r.httpStatus ≠ 200 then r.finish live
    else if validContentType live then r
    else
      { r with
        status :=
          { code := .internal
            message := ascii "server response is missing an application/grpc content-type" }
        done := true }

def onData (payload : Bytes) (slab : Option ℕ) (endStream : Bool) : Receiver :=
  let given := r.dec.give r.pool payload slab true
  let r := { r with dec := given.1, pool := given.2 }
  if endStream then r.finish [] else r

def onReset (code : Frame.ErrCode) : Receiver :=
  { r with
    status :=
      { code := statusFromRST code
        message := ascii "stream reset by peer, HTTP/2 error code " ++ ascii (toString code.toNat) }
    done := true }

/-- `pump`, where `view` is what the handlers see of a block: the block, or a copy. -/
def pump (view : List Field → List Field) (r : Receiver) : Incoming → Receiver × Option Err
  | .failed err => ((r.fail (.status (statusFromTransport err))).1,
      some (r.fail (.status (statusFromTransport err))).2)
  | .event (.interimHeaders _ _) _ | .pushPromise => (r, none)
  | .event (.headers fields endStream) _ => (r.onHeaders (view fields) endStream, none)
  | .event (.data payload endStream) slab => (r.onData payload slab endStream, none)
  | .event (.trailers fields _) _ => (r.finish (view fields), none)
  | .event (.reset code) _ => (r.onReset code, none)

/-- The outcome of a stream that is done. -/
def terminal : Receiver × Err :=
  match r.status.err with
  | some st => (r, .status st)
  | none =>
    if 0 < r.dec.pending then
      r.fail (.status
        { code := .internal
          message := ascii "server closed the stream in the middle of a message" })
    else (r, .eof)

/-- What is known once the stream has failed or is done. -/
def lookEnd {β : Type} (r : Receiver) : Receiver × Option (Except Err β) :=
  match r.err with
  | some e => (r, some (.error e))
  | none => if r.done then (r.terminal.1, some (.error r.terminal.2)) else (r, none)

/-- The turn of `RecvInto` before it pumps; there is no message where `Next` panics. -/
def lookMessage : Receiver × Option (Except Err (Option Bytes)) :=
  match r.dec.next with
  | (d, .error .outOfRange) => ({ r with dec := d }, some (.ok none))
  | (d, .error e) =>
    (({ r with dec := d }.fail (.framing e)).1, some (.error ({ r with dec := d }.fail (.framing e)).2))
  | (d, .ok (some m)) => ({ r with dec := d }, some (.ok (some m)))
  | (d, .ok none) => { r with dec := d }.lookEnd

/-- The turn of `Header` before it pumps. -/
def lookHeader {β : Type} (r : Receiver) (header : β) : Receiver × Option (Except Err β) :=
  if r.headersSeen then (r, some (.ok header)) else r.lookEnd

end Receiver

/-- The loop that `RecvInto` and `Header` share: look at the state, and pump an event where that
does not decide. -/
def pumpUntil {σ β : Type} (pump : σ → Incoming → σ × Option Err)
    (look : σ → σ × Option (Except Err β)) (s : σ) :
    List Incoming → (σ × List Incoming) × Option (Except Err β)
  | [] => (((look s).1, []), (look s).2)
  | x :: xs =>
    match look s with
    | (s, some r) => ((s, x :: xs), some r)
    | (s, none) =>
      match pump s x with
      | (s, some e) => ((s, xs), some (.error e))
      | (s, none) => pumpUntil pump look s xs

/-! ## The stream -/

structure Stream where
  rx : Receiver := {}
  discardMD : Bool := false
  borrowMD : Bool := false
  header : Metadata := .owned []
  trailer : Metadata := .owned []
  bufs : Option Bufs := none

namespace Stream

variable (a : Allocator) (s : Stream)

/-- The fields a list of metadata shows. -/
def fields : Metadata → List Field
  | .owned fields => fields
  | .borrowed v => (s.bufs.map fun b => b.fields v).getD []

/-- `copyFields`. -/
def copyFields (src : List Field) : Stream × Metadata :=
  match s.borrowMD, s.bufs with
  | true, some b =>
    if src = [] then (s, .owned [])
    else ({ s with bufs := some (b.borrowFields a src).1 }, .borrowed (b.borrowFields a src).2)
  | _, _ => (s, .owned (cloneFields src))

/-- `dupFields`, of a list this stream has copied. -/
def dupFields (src : Metadata) : Stream × Metadata :=
  match s.borrowMD, s.bufs with
  | true, some b =>
    ({ s with bufs := some (b.dupFields a src).1 }, .borrowed (b.dupFields a src).2)
  | _, _ => (s, .owned (s.fields src))

/-- The header block is copied, unless it is discarded. -/
def keepHeader (block : List Field) : Stream :=
  if s.discardMD then s else { (s.copyFields a block).1 with header := (s.copyFields a block).2 }

def keepTrailer (block : List Field) : Stream :=
  if s.discardMD then s else { (s.copyFields a block).1 with trailer := (s.copyFields a block).2 }

/-- The second view of the one block of a Trailers-Only response. -/
def dupHeader : Stream :=
  if s.discardMD then s else { (s.dupFields a s.header).1 with trailer := (s.dupFields a s.header).2 }

/-- What is read is the copy, where there is one. -/
def live (block : List Field) (copy : Metadata) : List Field :=
  if s.discardMD then block else s.fields copy

def onHeaders (block : List Field) (endStream : Bool) : Stream :=
  if s.rx.headersSeen then s
  else
    let s := s.keepHeader a block
    let live := s.live block s.header
    let s := if endStream then s.dupHeader a else s
    { s with rx := s.rx.onHeaders live endStream }

def onTrailers (block : List Field) : Stream :=
  let s := s.keepTrailer a block
  { s with rx := s.rx.finish (s.live block s.trailer) }

/-- `pump`: one event, folded into the state. -/
def pump (s : Stream) : Incoming → Stream × Option Err
  | .event (.headers block endStream) _ => (s.onHeaders a block endStream, none)
  | .event (.trailers block _) _ => (s.onTrailers a block, none)
  -- the others carry no block
  | x => ({ s with rx := (s.rx.pump id x).1 }, (s.rx.pump id x).2)

def lookMessage : Stream × Option (Except Err (Option Bytes)) :=
  ({ s with rx := s.rx.lookMessage.1 }, s.rx.lookMessage.2)

def lookHeader : Stream × Option (Except Err (List Field)) :=
  ({ s with rx := (s.rx.lookHeader (s.fields s.header)).1 }, (s.rx.lookHeader (s.fields s.header)).2)

/-- The message is appended to the slice, which is also what an error comes with. A panic returns
nothing. -/
def received (dst : Bytes) : Except Err (Option Bytes) → Option (Bytes × Option Err)
  | .ok none => none
  | .ok (some m) => some (dst ++ m, none)
  | .error e => some (dst, some e)

/-- `RecvInto`, which goes on from `dst[:0]`. -/
def recvInto (dst : Bytes) (xs : List Incoming) :
    (Stream × List Incoming) × Option (Bytes × Option Err) :=
  if s.rx.closed then ((s, xs), received (dst.take 0) (.error .streamClosed))
  else
    ((pumpUntil (pump a) lookMessage s xs).1,
      (pumpUntil (pump a) lookMessage s xs).2.bind (received (dst.take 0)))

/-- `Recv`. -/
def recv (xs : List Incoming) : (Stream × List Incoming) × Option (Bytes × Option Err) :=
  s.recvInto a [] xs

/-- `Header`. -/
def getHeader (xs : List Incoming) : (Stream × List Incoming) × Option (Except Err (List Field)) :=
  if s.rx.closed then ((s, xs), some (.error .streamClosed))
  else pumpUntil (pump a) lookHeader s xs

/-- `Trailer`. -/
def getTrailer : List Field := s.fields s.trailer

/-- `releaseBufs`: borrowed metadata dies with the stream. -/
def releaseBufs : Stream :=
  let released := s.rx.dec.release s.rx.pool
  let s := { s with rx := { s.rx with dec := released.1, pool := released.2 } }
  match s.bufs with
  | none => s
  | some _ =>
    let s := if s.borrowMD then { s with header := .owned [], trailer := .owned [] } else s
    { s with bufs := none, rx := { s.rx with dec := { s.rx.dec with buf := ⟨.own, []⟩, own := [] } } }

def close : Stream :=
  if s.rx.closed then s else releaseBufs { s with rx := { s.rx with closed := true } }

/-! ## A call -/

/-- The stream `openStream` builds; its pooled buffers, if it gets any, are empty and have some
room. -/
def opened (max : ℤ) (discardMD borrowMD : Bool) (room : Option (ℕ × ℕ)) : Stream where
  rx := { dec := { max } }
  discardMD := discardMD
  borrowMD := borrowMD
  bufs := room.map fun (md, mdFields) => { md := { cap := md }, mdFields := { cap := mdFields } }

inductive Call where
  | recvInto (dst : Bytes)
  | recv
  | header
  | close
  deriving DecidableEq

inductive Outcome where
  | received (dst : Bytes) (err : Option Err)
  | header (r : Except Err (List Field))
  | closed
  deriving DecidableEq

/-- One call; `none` where it has not returned, or panics. -/
def call (s : Stream) (xs : List Incoming) : Call → (Stream × List Incoming) × Option Outcome
  | .recvInto dst => ((s.recvInto a dst xs).1, (s.recvInto a dst xs).2.map fun r => .received r.1 r.2)
  | .recv => ((s.recv a xs).1, (s.recv a xs).2.map fun r => .received r.1 r.2)
  | .header => ((s.getHeader a xs).1, (s.getHeader a xs).2.map .header)
  | .close => ((s.close, xs), some .closed)

/-- Calls one after the other, as far as they return. -/
def run (s : Stream) (xs : List Incoming) : List Call → (Stream × List Incoming) × List Outcome
  | [] => ((s, xs), [])
  | c :: cs =>
    match s.call a xs c with
    | (sx, none) => (sx, [])
    | (sx, some o) => ((run sx.1 sx.2 cs).1, o :: (run sx.1 sx.2 cs).2)

end Stream

/-- `InvokeInto`. `refusal` is the error of `validateAllMetadata` or of `openStream`, if one of
them has one. -/
def invokeInto (a : Allocator) (method : Bytes) (refusal : Option Bytes) (max : ℤ)
    (borrowMD : Bool) (room : Option (ℕ × ℕ)) (dst : Bytes) (xs : List Incoming) :
    Option (Bytes × Option Err) :=
  let dst := dst.take 0
  if method.head? ≠ some 0x2f then some (dst, some (.badMethod method))
  else
    match refusal with
    | some text => some (dst, some (.refused text))
    | none =>
      match (Stream.opened max true borrowMD room).recvInto a dst xs with
      | (_, none) => none
      | (_, some (resp, some err)) =>
        if err = .eof then
          some (resp, some (.status
            { code := .internal, message := ascii "unary method returned no message" }))
        else some (resp, some err)
      | (sx, some (resp, none)) =>
        match sx.1.recv a sx.2 with
        | (_, none) => none
        | (_, some (_, none)) =>
          some (resp.take 0, some (.status
            { code := .internal, message := ascii "unary method returned more than one message" }))
        | (_, some (_, some err)) =>
          if err = .eof then some (resp, none) else some (resp.take 0, some err)

end Grpc
