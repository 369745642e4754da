import PoseidonHttp.Quic.AckFrame
import PoseidonHttp.Quic.Recovery
import PoseidonHttp.Quic.RecvStream

/-!
# Streams of a connection

The streams of a `Conn`, the limits on both sides, and what sends and receives on them:
`stream.go`, `send.go`, `recvflow.go`, the accepting of streams in `conn.go` and the stream
handlers of `conn_recv.go`, for a client and for a server, over the packets of `Recovery`.

A `*Stream` is a handle, the place of the stream in the list of all that were ever made: the
application keeps it when the connection has dropped the stream from its routing map. The map
goes from identifiers to handles. What the wire, the clock and the pacer do is given to a call
with a `Wire`. Credit grants and acknowledgments go out in packets that carry no frame to send
again; those are steps of their own.
-/

namespace Quic

open Header (Bytes)
open Recovery (Wire Sealing)

def defaultStreamRecvWindow : ℕ := 256 * 2 ^ 10

def defaultConnRecvWindow : ℕ := 2 ^ 20

def maxStreamsLimit : ℕ := 2 ^ 60

/-- `sdBlocked` is the limit a STREAM_DATA_BLOCKED was last sent for. Two fields only record:
`sentBytes` what was written, and `resetAt` how many frames had been sealed at the reset. -/
structure Stream where
  id : ℕ
  recv : RecvStream
  sendOffset : ℕ
  sendMax : ℕ
  sdBlocked : Option ℕ
  finSent : Bool
  sendReset : Bool
  recvMax : ℕ
  recvHighest : ℕ
  recvReset : Bool
  sentBytes : Bytes
  resetAt : ℕ
  deriving DecidableEq, Repr

/-- A stream as it is opened or accepted. -/
def Stream.new (id sendMax : ℕ) : Stream :=
  ⟨id, .empty, 0, sendMax, none, false, false, defaultStreamRecvWindow, 0, false, [], 0⟩

/-- Both directions have ended. -/
def Stream.terminal (s : Stream) : Bool :=
  (s.finSent || s.sendReset) && (s.recvReset || s.recv.complete)

/-- What the two sides announced in their transport parameters, and the role. -/
structure Params where
  isServer : Bool
  bbr : Bool
  initialMaxData : ℕ
  initialMaxStreamDataBidiLocal : ℕ
  initialMaxStreamDataBidiRemote : ℕ
  initialMaxStreamDataUni : ℕ
  initialMaxStreamsBidi : ℕ
  initialMaxStreamsUni : ℕ
  localMaxStreamsBidi : ℕ
  localMaxStreamsUni : ℕ
  deriving DecidableEq, Repr

/-- A limit the peer has set, in its transport parameters or in a frame. -/
inductive Grant where
  | data (maximum : ℕ)
  | streamData (id maximum : ℕ)
  | streams (uni : Bool) (maximum : ℕ)
  deriving DecidableEq, Repr

/-- The latches `dataBlocked` and `streamsBlocked` hold the limit a frame was last sent for.
Three fields only record: `acceptLog` the identifiers ever put in a queue of accepted streams,
`grants` the limits the peer has set, and `wrapped` that a subtraction of `grantable`
wrapped. -/
structure Conn where
  params : Params
  recovery : Recovery
  streams : List Stream
  routes : ℕ → Option ℕ
  acceptedUni : List ℕ
  acceptedBidi : List ℕ
  acceptLog : List ℕ
  grants : List Grant
  connSent : ℕ
  connMax : ℕ
  dataBlocked : Option ℕ
  connRecvMax : ℕ
  connRecvTotal : ℕ
  connRecvConsumed : ℕ
  openedBidi : ℕ
  openedUni : ℕ
  nextBidiStreamID : ℕ
  maxStreamsBidi : ℕ
  maxStreamsUni : ℕ
  streamsBlocked : Bool → Option ℕ
  dcidLen : ℕ
  established : Bool
  closed : Bool
  wrapped : Bool

namespace Conn

/-- A connection whose peer's transport parameters are known. -/
def new (params : Params) : Conn where
  params := params
  recovery := { Recovery.new params.bbr with handshakeComplete := params.isServer }
  streams := []
  routes := fun _ => none
  acceptedUni := []
  acceptedBidi := []
  acceptLog := []
  grants := [.data params.initialMaxData, .streams false params.initialMaxStreamsBidi,
    .streams true params.initialMaxStreamsUni]
  connSent := 0
  connMax := params.initialMaxData
  dataBlocked := none
  connRecvMax := defaultConnRecvWindow
  connRecvTotal := 0
  connRecvConsumed := 0
  openedBidi := 0
  openedUni := 0
  nextBidiStreamID := if params.isServer then 1 else 0
  maxStreamsBidi := params.initialMaxStreamsBidi
  maxStreamsUni := params.initialMaxStreamsUni
  streamsBlocked := fun _ => none
  dcidLen := 8
  established := params.isServer
  closed := false
  wrapped := false

variable (c : Conn)

/-! ## The routing map -/

def modifyStream (h : ℕ) (f : Stream → Stream) : Conn :=
  { c with streams := c.streams.modify h f }

/-- The stream an identifier is routed to, with its handle. -/
def lookup (id : ℕ) : Option (ℕ × Stream) :=
  (c.routes id).bind fun h => c.streams[h]?.map fun s => (h, s)

/-- The identifier names a stream this endpoint initiates. -/
def ours (id : ℕ) : Bool := decide (id % 2 = 1) == c.params.isServer

/-- The identifier names a unidirectional stream. -/
def isUni (id : ℕ) : Bool := decide (id / 2 % 2 = 1)

/-- The limit that the peer's parameters set for a new stream, by the kind of its identifier. To
the peer its own streams are local; where it alone sends it sets no limit. -/
def initialStreamData (id : ℕ) : ℕ :=
  match isUni id, c.ours id with
  | false, true => c.params.initialMaxStreamDataBidiRemote
  | false, false => c.params.initialMaxStreamDataBidiLocal
  | true, true => c.params.initialMaxStreamDataUni
  | true, false => 0

/-- Make a stream and route its identifier to it. The grant that is recorded is the peer's, and
not the `sendMax` the stream starts with. -/
def addStream (id sendMax : ℕ) : Conn :=
  { c with
    grants := c.grants ++ [.streamData id (c.initialStreamData id)]
    streams := c.streams ++ [Stream.new id sendMax]
    routes := Function.update c.routes id (some c.streams.length) }

/-- `maybeRetire`: the identifier is deleted from the map, whatever it is routed to. -/
def maybeRetire (h : ℕ) : Conn :=
  match c.streams[h]? with
  | none => c
  | some s => if s.terminal then { c with routes := Function.update c.routes s.id none } else c

/-! ## Packets of the application space -/

/-- The error with which the sealing and writing of a packet ends. -/
def sealError : Sealing → Option Error
  | .limit => some .aeadLimit
  | .failed => some .sealFailed
  | .sealed _ written => if written then none else some .writeFailed

/-- `writeAppFrames` and `sealAppToBatch`: a packet whose frame may have to be sent again. A
key at its limit closes the connection. -/
def writeAppFrames (frame : Option RetransFrame) (wire : Wire) : Option Error × Conn :=
  if c.closed then (some .connClosed, c)
  else
    let outcome := wire.outcome (c.recovery.sendPN .app)
    (sealError outcome,
      { c with
        recovery := c.recovery.sealPacket .app true frame outcome wire.now
        closed := decide (outcome = .limit) })

/-- `streamsBlockedNow`: the limit, and whether it blocks. -/
def streamsBlockedNow (uni : Bool) : ℕ × Bool :=
  if uni then (c.maxStreamsUni, decide (c.openedUni ≥ c.maxStreamsUni))
  else (c.maxStreamsBidi, decide (c.openedBidi ≥ c.maxStreamsBidi))

/-- What `flushRetransmits` sends in the place of a queued frame: nothing of a stream that was
reset, and a STREAMS_BLOCKED only while it is true. -/
def resend (f : RetransFrame) : Option RetransFrame :=
  match f.kind with
  | .stream => if (c.lookup f.streamID).any fun hs => hs.2.sendReset then none else some f
  | .streamsBlocked =>
    let (limit, blocked) := c.streamsBlockedNow f.fin
    if blocked then some { f with offset := limit } else none
  | _ => some f

/-- `flushRetransmits`. -/
def flushRetransmits (sp : Space) (wire : Wire) : Conn :=
  { c with recovery := c.recovery.flushRetransmits sp c.resend wire }

/-- `emitStreamsBlocked`: latched only when the frame was written. -/
def emitStreamsBlocked (uni : Bool) (limit : ℕ) (wire : Wire) : Conn :=
  if c.established = false ∨ c.closed then c
  else if c.streamsBlocked uni = some limit then c
  else
    match c.writeAppFrames (some ⟨.streamsBlocked, 0, limit, 0, none, uni⟩) wire with
    | (some _, c) => c
    | (none, c) => { c with streamsBlocked := Function.update c.streamsBlocked uni (some limit) }

/-! ## Opening streams -/

/-- `openStreamLocked`. -/
def openStream (wire : Wire) : Except Error ℕ × Conn :=
  if c.openedBidi ≥ c.maxStreamsBidi then
    (.error .tooManyStreams, c.emitStreamsBlocked false c.maxStreamsBidi wire)
  else
    (.ok c.streams.length,
      { c.addStream c.nextBidiStreamID c.params.initialMaxStreamDataBidiRemote with
        nextBidiStreamID := c.nextBidiStreamID + 4
        openedBidi := c.openedBidi + 1 })

def uniStreamBase : ℕ := if c.params.isServer then 3 else 2

/-- `openUniStreamLocked`. -/
def openUniStream (wire : Wire) : Except Error ℕ × Conn :=
  if c.openedUni ≥ c.maxStreamsUni then
    (.error .tooManyStreams, c.emitStreamsBlocked true c.maxStreamsUni wire)
  else
    (.ok c.streams.length,
      { c.addStream (c.uniStreamBase + c.openedUni * 4) c.params.initialMaxStreamDataUni with
        openedUni := c.openedUni + 1 })

/-! ## Sending -/

inductive BlockKind where
  | none
  | stream
  | conn
  | cong
  | pace
  deriving DecidableEq, Repr

/-- `maxChunk`. -/
def maxChunk (s : Stream) : ℕ :=
  let hdr := 1 + c.dcidLen + 4
  let fh := 1 + varintLen s.id + (if s.sendOffset > 0 then varintLen s.sendOffset else 0) + 2
  max (maxDatagramSize - hdr - fh - 16) 1

/-- A subtraction of words, and whether it wraps. -/
def subWraps (a b : ℕ) : ℕ × Bool := (sub64 a b, decide (a < b))

/-- `grantable`; `paced` is what `pacingCredit` admits. The last result records whether one of
the subtractions that were carried out has wrapped. -/
def grantable (s : Stream) (remaining paced : ℕ) : ℕ × BlockKind × Bool :=
  let (streamCredit, streamWraps) := subWraps s.sendMax s.sendOffset
  let (connCredit, connWraps) := subWraps c.connMax c.connSent
  let (offsetCredit, offsetWraps) := subWraps maxVarint s.sendOffset
  let credit := min (min streamCredit connCredit) offsetCredit
  let wraps := streamWraps || connWraps || offsetWraps
  let r := c.recovery
  if credit = 0 then
    (0, if streamCredit = 0 then .stream else if connCredit = 0 then .conn else .none, wraps)
  else if r.cwnd > 0 then
    if r.bytesInFlight ≥ r.cwnd then (0, .cong, wraps)
    else
      let (avail, availWraps) := subWraps r.cwnd r.bytesInFlight
      let credit := min credit avail
      let wraps := wraps || availWraps
      if paced = 0 then (0, .pace, wraps)
      else (min (min (min credit paced) remaining) (c.maxChunk s), .none, wraps)
  else (min (min credit remaining) (c.maxChunk s), .none, wraps)

/-- The copy of a chunk that `writeStreamFrame` keeps, and the frame that refers to it. -/
def keepChunk (s : Stream) (chunk : Bytes) (fin : Bool) : RetransFrame × Conn :=
  let (data, r) := c.recovery.retransCopy chunk 0
  (⟨.stream, s.id, s.sendOffset, 0, data, fin⟩, { c with recovery := r })

/-- The accounting of `writeStreamFrame` once the packet is sealed. -/
def advance (h : ℕ) (chunk : Bytes) (fin : Bool) : Conn :=
  let c := { c.modifyStream h fun s => { s with
      sendOffset := s.sendOffset + chunk.length
      finSent := s.finSent || fin
      sentBytes := s.sentBytes ++ chunk } with connSent := c.connSent + chunk.length }
  if fin then c.maybeRetire h else c

/-- `writeStreamFrame`. The copy is taken before anything can fail. -/
def writeStreamFrame (h : ℕ) (s : Stream) (chunk : Bytes) (fin : Bool)
    (wire : Wire) : Option Error × Conn :=
  let (frame, c) := c.keepChunk s chunk fin
  match c.writeAppFrames (some frame) wire with
  | (some err, c) => (some err, c)
  | (none, c) => (none, c.advance h chunk fin)

/-- `emitBlocked`: the error of the write is dropped. -/
def emitBlocked (h : ℕ) (s : Stream) (kind : BlockKind) (wire : Wire) : Conn :=
  match kind with
  | .stream =>
    if s.sdBlocked = some s.sendMax then c
    else ((c.modifyStream h fun s => { s with sdBlocked := some s.sendMax }).writeAppFrames
      none wire).2
  | .conn =>
    if c.dataBlocked = some c.connMax then c
    else ({ c with dataBlocked := some c.connMax }.writeAppFrames none wire).2
  | _ => c

/-- Record that a subtraction has wrapped. -/
def noteWraps (wraps : Bool) : Conn := { c with wrapped := c.wrapped || wraps }

/-- A turn of the loop of `sendLocked` with data left: how much is admitted, the error, and
whether the loop goes on. -/
def sendChunk (h : ℕ) (s : Stream) (rest : Bytes) (fin : Bool) (wire : Wire) :
    (ℕ × Option Error × Bool) × Conn :=
  let (n, blocked, wraps) := c.grantable s rest.length (wire.paced (c.recovery.sendPN .app))
  let c := c.noteWraps wraps
  if n = 0 then ((0, none, false), c.emitBlocked h s blocked wire)
  else
    let last := fin && decide (n = rest.length)
    let (err, c) := c.writeStreamFrame h s (rest.take n) last wire
    (if err.isSome then (0, err, false) else (n, none, !last), c)

/-- The loop of `sendLocked` over the data left; `sent` is what was admitted. -/
def sendLoop (h : ℕ) (fin : Bool) (wire : Wire) :
    ℕ → ℕ → Bytes → Conn → ℕ × Option Error × Conn
  | 0, sent, _, c => (sent, none, c)
  | fuel + 1, sent, rest, c =>
    match c.streams[h]? with
    | none => (sent, none, c)
    | some s =>
      if rest.length > 0 then
        match c.sendChunk h s rest fin wire with
        | ((n, _, true), c) => sendLoop h fin wire fuel (sent + n) (rest.drop n) c
        | ((n, err, false), c) => (sent + n, err, c)
      else if fin && !s.finSent then
        let (err, c) := c.writeStreamFrame h s [] true wire
        (sent, err, c)
      else (sent, none, c)

/-- `sendLocked`. Every turn but the last admits a byte. -/
def send (h : ℕ) (data : Bytes) (fin : Bool) (wire : Wire) : ℕ × Option Error × Conn :=
  match c.streams[h]? with
  | none => (0, none, c)
  | some s =>
    if s.sendReset then (0, some .streamReset, c)
    else if s.finSent then (0, some .streamFinished, c)
    else if c.established = false then (0, some .notEstablished, c)
    else sendLoop h fin wire (data.length + 1) 0 data c

@[simp] theorem writeAppFrames_streams (frame : Option RetransFrame)
    (wire : Wire) : (c.writeAppFrames frame wire).2.streams = c.streams := by
  unfold writeAppFrames
  split_ifs <;> rfl

@[simp] theorem maybeRetire_streams (h : ℕ) : (c.maybeRetire h).streams = c.streams := by
  unfold maybeRetire
  split
  · rfl
  · split_ifs <;> rfl

/-- The stream of `h` may still be written to. -/
def Writable (h : ℕ) : Prop :=
  ∀ s, c.streams[h]? = some s → s.sendReset = false ∧ s.finSent = false

theorem Writable.congr {c c' : Conn} {h : ℕ} (hw : c.Writable h) (hs : c'.streams = c.streams) :
    c'.Writable h := by
  intro t ht
  rw [hs] at ht
  exact hw t ht

/-- A frame without FIN leaves the stream writable. -/
theorem writeStreamFrame_writable {c : Conn} {h : ℕ} (s : Stream) (chunk : Bytes)
    (wire : Wire) (hw : c.Writable h) :
    (c.writeStreamFrame h s chunk false wire).2.Writable h := by
  have hstreams : ((c.keepChunk s chunk false).2.writeAppFrames
      (some (c.keepChunk s chunk false).1) wire).2.streams = c.streams :=
    writeAppFrames_streams _ _ wire
  unfold writeStreamFrame
  dsimp only
  split
  · rename_i heq
    rw [heq] at hstreams
    exact hw.congr hstreams
  rename_i c' heq
  rw [heq] at hstreams
  have hw' : c'.Writable h := hw.congr hstreams
  intro t ht
  simp only [advance, modifyStream, Bool.false_eq_true, if_false, List.getElem?_modify_eq,
    Bool.or_false] at ht
  cases hu : c'.streams[h]? with
  | none => simp [hu] at ht
  | some u =>
    rw [hu] at ht
    rcases Option.some.inj ht with rfl
    exact hw' u hu

section

variable {P : Conn → Prop} {h : ℕ} {wire : Wire}
  (hwrapped : ∀ c s remaining paced, P c → c.streams[h]? = some s →
    P (c.noteWraps (c.grantable s remaining paced).2.2))
  (hblocked : ∀ c s kind, P c → c.streams[h]? = some s → P (c.emitBlocked h s kind wire))
  (hwrite : ∀ c s chunk last, P c → c.streams[h]? = some s → s.sendReset = false →
    s.finSent = false →
    (chunk = [] ∨ ∃ remaining paced, chunk.length ≤ (c.grantable s remaining paced).1) →
    P (c.writeStreamFrame h s chunk last wire).2)

include hwrapped hblocked hwrite

/-- A turn keeps what the write and the block keep, and the loop goes on with a stream that may
still be written to. -/
theorem sendChunk_keeps {c : Conn} {s : Stream} (hP : P c) (hw : c.Writable h)
    (hs : c.streams[h]? = some s) (rest : Bytes) (fin : Bool) :
    P (c.sendChunk h s rest fin wire).2 ∧
      ((c.sendChunk h s rest fin wire).1.2.2 = true →
        (c.sendChunk h s rest fin wire).2.Writable h) := by
  have hnoted := hwrapped c s rest.length (wire.paced (c.recovery.sendPN .app)) hP hs
  rcases hw s hs with ⟨hreset, hfin⟩
  unfold sendChunk
  dsimp only
  split_ifs
  · exact ⟨hblocked _ s _ hnoted hs, by simp⟩
  · exact ⟨hwrite _ s _ _ hnoted hs hreset hfin (.inr ⟨_, _, List.length_take_le _ _⟩), by simp⟩
  · refine ⟨hwrite _ s _ _ hnoted hs hreset hfin (.inr ⟨_, _, List.length_take_le _ _⟩), ?_⟩
    intro hmore
    rw [Bool.not_eq_true'] at hmore
    rw [hmore]
    exact writeStreamFrame_writable s _ wire hw

/-- What the turns of the send loop keep, a call of `Send` keeps. A turn writes a chunk that
`grantable` admits, or nothing but the FIN, on a stream that is neither reset nor finished; or
it is blocked. -/
theorem send_keeps {c : Conn} (hP : P c) (data : Bytes) (fin : Bool) :
    P (c.send h data fin wire).2.2 := by
  have hloop : ∀ (fuel sent : ℕ) (rest : Bytes) (c : Conn), P c → c.Writable h →
      P (sendLoop h fin wire fuel sent rest c).2.2 := by
    intro fuel
    induction fuel with
    | zero => exact fun _ _ _ hP _ => hP
    | succ fuel ih =>
      intro sent rest c hP hw
      unfold sendLoop
      split
      · exact hP
      rename_i s hs
      rcases hw s hs with ⟨hreset, hfin⟩
      have hturn := sendChunk_keeps hwrapped hblocked hwrite hP hw hs rest fin
      split_ifs
      · split
        · rename_i heq
          rw [heq] at hturn
          exact ih _ _ _ hturn.1 (hturn.2 rfl)
        · rename_i heq
          rw [heq] at hturn
          exact hturn.1
      · exact hwrite c s [] true hP hs hreset hfin (.inl rfl)
      · exact hP
  unfold send
  split
  · exact hP
  rename_i s hs
  split_ifs with hreset hfin hest
  · exact hP
  · exact hP
  · exact hP
  · apply hloop _ _ _ c hP
    intro t ht
    rw [hs, Option.some.injEq] at ht
    subst ht
    exact ⟨Bool.eq_false_iff.mpr hreset, Bool.eq_false_iff.mpr hfin⟩

end

/-- `resetLocked`. -/
def reset (h errCode : ℕ) (wire : Wire) : Option Error × Conn :=
  match c.streams[h]? with
  | none => (none, c)
  | some s =>
    if s.finSent || s.sendReset then (none, c)
    else if c.established = false then (some .notEstablished, c)
    else
      let c := c.modifyStream h fun s => { s with
        sendReset := true, resetAt := c.recovery.sealedLog.length }
      let c := { c with recovery := c.recovery.scrubResetStreamData s.id }
      match c.writeAppFrames (some ⟨.reset, s.id, s.sendOffset, errCode, none, false⟩) wire with
      | (some err, c) => (some err, c)
      | (none, c) => (none, c.maybeRetire h)

/-- `stopSendingLocked`: the stream is retired before the frame is written. -/
def stopSending (h errCode : ℕ) (wire : Wire) : Option Error × Conn :=
  match c.streams[h]? with
  | none => (none, c)
  | some s =>
    if s.recvReset then (none, c)
    else if c.established = false then (some .notEstablished, c)
    else ((c.modifyStream h fun s => { s with recvReset := true }).maybeRetire h).writeAppFrames
      (some ⟨.stopSending, s.id, 0, errCode, none, false⟩) wire

/-! ## Receiving -/

/-- The grant of `onStreamConsumed` on the stream: nothing once the final size is settled. -/
def grantStream (s : Stream) : Stream :=
  let want := s.recv.base + defaultStreamRecvWindow
  if s.recv.fin = false ∧ s.recvReset = false ∧
      want ≥ s.recvMax + defaultStreamRecvWindow / 2 then { s with recvMax := want } else s

/-- The grant of `onStreamConsumed` on the connection. -/
def grantConn : Conn :=
  let want := c.connRecvConsumed + defaultConnRecvWindow
  if want ≥ c.connRecvMax + defaultConnRecvWindow / 2 then { c with connRecvMax := want } else c

/-- `onStreamConsumed`. -/
def onStreamConsumed (h : ℕ) (n : ℕ) : Conn :=
  let c := { c with connRecvConsumed := c.connRecvConsumed + n }
  if c.connRecvMax = 0 then c else (c.modifyStream h grantStream).grantConn

/-- `recvLocked`. -/
def recv (h : ℕ) : Bytes × Conn :=
  match c.streams[h]? with
  | none => ([], c)
  | some s =>
    let (data, recv) := s.recv.read
    let c := c.modifyStream h fun s => { s with recv := recv }
    (data, if data.length > 0 then c.onStreamConsumed h data.length else c)

def sendOnlyStream (id : ℕ) : Bool := isUni id && c.ours id

def recvOnlyStream (id : ℕ) : Bool := isUni id && !c.ours id

def exceedsUniStreamLimit (id : ℕ) : Bool :=
  c.recvOnlyStream id && decide (id / 4 ≥ c.params.localMaxStreamsUni)

def localStreamNotCreated (id : ℕ) : Bool :=
  c.ours id &&
    if isUni id then decide (id ≥ c.uniStreamBase + c.openedUni * 4)
    else decide (id ≥ c.nextBidiStreamID)

/-- `acceptPeerUniStream`. -/
def acceptPeerUniStream (id : ℕ) : Except Error Conn :=
  if id / 4 ≥ c.params.localMaxStreamsUni then .error .tooManyUniStreams
  else .ok { c.addStream id 0 with
    acceptedUni := c.acceptedUni ++ [c.streams.length]
    acceptLog := c.acceptLog ++ [id] }

/-- `acceptPeerBidiStream`. -/
def acceptPeerBidiStream (id : ℕ) : Except Error Conn :=
  if id / 4 ≥ c.params.localMaxStreamsBidi then .error .tooManyBidiStreams
  else .ok { c.addStream id c.params.initialMaxStreamDataBidiLocal with
    acceptedBidi := c.acceptedBidi ++ [c.streams.length]
    acceptLog := c.acceptLog ++ [id] }

/-- `AcceptUniStream`. -/
def acceptUniStream : Option ℕ × Conn :=
  (c.acceptedUni.head?, { c with acceptedUni := c.acceptedUni.tail })

/-- `AcceptBidiStream`. -/
def acceptBidiStream : Option ℕ × Conn :=
  (c.acceptedBidi.head?, { c with acceptedBidi := c.acceptedBidi.tail })

/-- `chargeRecv`. -/
def chargeRecv (h : ℕ) (s : Stream) (stop : ℕ) : Option Error × Conn :=
  if c.connRecvMax = 0 then (none, c)
  else if stop > s.recvMax then (some .flowControl, c)
  else if stop ≤ s.recvHighest then (none, c)
  else
    let delta := stop - s.recvHighest
    if c.connRecvTotal + delta > c.connRecvMax then (some .flowControl, c)
    else (none, { c.modifyStream h fun s => { s with recvHighest := stop } with
      connRecvTotal := c.connRecvTotal + delta })

/-- The end of `OnStream`, on the stream the frame is for. -/
def receiveOn (h : ℕ) (s : Stream) (offset : ℕ) (fin : Bool) (data : Bytes) : Option Error × Conn :=
  match c.chargeRecv h s ((offset + data.length) % u64) with
  | (some err, c) => (some err, c)
  | (none, c) =>
    let (recv, err) := s.recv.receive offset data fin
    let c := c.modifyStream h fun s => { s with recv := recv }
    match err with
    | some err => (some err, c)
    | none => (none, c.maybeRetire h)

/-- Where `OnStream` takes a frame for an identifier with no record: a stream of the peer is
accepted, one of ours was retired or never opened. -/
def onUnknownStream (id : ℕ) : Except Error (Option Conn) :=
  if c.ours id then
    if c.localStreamNotCreated id then .error .streamState else .ok none
  else if isUni id then (c.acceptPeerUniStream id).map some
  else if c.params.isServer = false then .error .serverBidiStream
  else (c.acceptPeerBidiStream id).map some

/-- `OnStream`. -/
def onStream (id offset : ℕ) (fin : Bool) (data : Bytes) : Option Error × Conn :=
  if c.sendOnlyStream id then (some .streamState, c)
  else
    match c.lookup id with
    | some (h, s) => c.receiveOn h s offset fin data
    | none =>
      match c.onUnknownStream id with
      | .error err => (some err, c)
      | .ok none => (none, c)
      | .ok (some c) =>
        match c.lookup id with
        | some (h, s) => c.receiveOn h s offset fin data
        | none => (none, c)

/-- `OnResetStream`. -/
def onResetStream (id finalSize : ℕ) : Option Error × Conn :=
  if c.sendOnlyStream id then (some .streamState, c)
  else if c.exceedsUniStreamLimit id then (some .tooManyUniStreams, c)
  else
    match c.lookup id with
    | none => (none, c)
    | some (h, s) =>
      if s.recv.complete then (none, c)
      else if s.recv.finalKnown ∧ finalSize ≠ s.recv.finalSize then (some .finalSize, c)
      else if finalSize < s.recv.highest then (some .finalSize, c)
      else
        match c.chargeRecv h s finalSize with
        | (some err, c) => (some err, c)
        | (none, c) =>
          (none, (c.modifyStream h fun s => { s with
            recv := { s.recv with
              finalKnown := true, finalSize := finalSize, highest := max s.recv.highest finalSize }
            recvReset := true }).maybeRetire h)

/-- `OnStopSending`: the error of the reset is dropped. -/
def onStopSending (id errCode : ℕ) (wire : Wire) : Option Error × Conn :=
  if c.recvOnlyStream id then (some .streamState, c)
  else
    match c.lookup id with
    | some (h, _) => (none, (c.reset h errCode wire).2)
    | none => (if c.localStreamNotCreated id then some .streamState else none, c)

/-! ## Limits -/

/-- Record a limit the peer has set. -/
def granted (grant : Grant) : Conn := { c with grants := c.grants ++ [grant] }

/-- `OnMaxData`. -/
def onMaxData (maximum : ℕ) : Conn :=
  let c := c.granted (.data maximum)
  if maximum > c.connMax then { c with connMax := maximum } else c

/-- `OnMaxStreamData`. -/
def onMaxStreamData (id maximum : ℕ) : Option Error × Conn :=
  if c.recvOnlyStream id then (some .streamState, c)
  else
    match c.lookup id with
    | some (h, s) =>
      let c := c.granted (.streamData id maximum)
      (none, if maximum > s.sendMax then c.modifyStream h fun s => { s with sendMax := maximum }
        else c)
    | none => (if c.localStreamNotCreated id then some .streamState else none, c)

/-- `OnMaxStreams`. -/
def onMaxStreams (uni : Bool) (maximum : ℕ) : Option Error × Conn :=
  if maximum > maxStreamsLimit then (some .frameEncoding, c)
  else
    let c := c.granted (.streams uni maximum)
    if uni then
      (none, if maximum > c.maxStreamsUni then { c with maxStreamsUni := maximum } else c)
    else (none, if maximum > c.maxStreamsBidi then { c with maxStreamsBidi := maximum } else c)

/-! ## Steps -/

/-- A step of a connection: a call of the application, a frame that arrives, or what the
connection does on its own. -/
inductive Op where
  | recovery (op : Recovery.Op)
  /-- a packet with new handshake data, whose copy has the capacity `cap` -/
  | crypto (sp : Space) (offset : ℕ) (data : Bytes) (cap : ℕ) (outcome : Sealing) (now : ℤ)
  | flushRetransmits (sp : Space) (wire : Wire)
  | openStream (wire : Wire)
  | openUniStream (wire : Wire)
  | acceptUniStream
  | acceptBidiStream
  | send (h : ℕ) (data : Bytes) (fin : Bool) (wire : Wire)
  | reset (h errCode : ℕ) (wire : Wire)
  | stopSending (h errCode : ℕ) (wire : Wire)
  | recv (h : ℕ)
  | onStream (id offset : ℕ) (fin : Bool) (data : Bytes)
  | onResetStream (id finalSize : ℕ)
  | onStopSending (id errCode : ℕ) (wire : Wire)
  | onMaxData (maximum : ℕ)
  | onMaxStreamData (id maximum : ℕ)
  | onMaxStreams (uni : Bool) (maximum : ℕ)
  | establish
  | close
  | changeConnectionID (len : ℕ)

/-- An error of a frame handler closes the connection. -/
def handled (result : Option Error × Conn) : Conn :=
  { result.2 with closed := result.2.closed || result.1.isSome }

/-- The packet of `flush` with new handshake data. -/
def flushCrypto (sp : Space) (offset : ℕ) (data : Bytes) (cap : ℕ)
    (outcome : Sealing) (now : ℤ) : Conn :=
  let (b, r) := c.recovery.allocate cap data
  { c with recovery := r.sealPacket sp true (some ⟨.crypto, 0, offset, 0, b, false⟩) outcome now }

def step : Op → Option Conn
  | .recovery op =>
    if op.own then (c.recovery.step op).map fun r => { c with recovery := r } else none
  | .crypto sp offset data cap outcome now => some (c.flushCrypto sp offset data cap outcome now)
  | .flushRetransmits sp wire => if c.closed then none else some (c.flushRetransmits sp wire)
  | .openStream wire => some (c.openStream wire).2
  | .openUniStream wire => some (c.openUniStream wire).2
  | .acceptUniStream => some c.acceptUniStream.2
  | .acceptBidiStream => some c.acceptBidiStream.2
  | .send h data fin wire => some (c.send h data fin wire).2.2
  | .reset h errCode wire => some (c.reset h errCode wire).2
  | .stopSending h errCode wire => some (c.stopSending h errCode wire).2
  | .recv h => some (c.recv h).2
  | .onStream id offset fin data => some (handled (c.onStream id offset fin data))
  | .onResetStream id finalSize => some (handled (c.onResetStream id finalSize))
  | .onStopSending id errCode wire => some (handled (c.onStopSending id errCode wire))
  | .onMaxData maximum => some (c.onMaxData maximum)
  | .onMaxStreamData id maximum => some (handled (c.onMaxStreamData id maximum))
  | .onMaxStreams uni maximum => some (handled (c.onMaxStreams uni maximum))
  | .establish => some { c with established := true }
  | .close => some { c with closed := true }
  | .changeConnectionID len => some { c with dcidLen := len }

end Conn

end Quic
