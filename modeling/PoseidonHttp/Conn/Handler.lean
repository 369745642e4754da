import PoseidonHttp.Conn.Events
import PoseidonHttp.Conn.Validate
import PoseidonHttp.Hpack.Decoder

/-!
# From frames to response events

The reader of a connection: the framer's check of field-block continuity, the handlers
of HEADERS, CONTINUATION, DATA and RST_STREAM with the header decoder they share, and
what the reader loop does with their errors. A frame is handled in one step; requests
are opened and their uploads finished in between. The consumer keeps up, so that every
event that is handed over is delivered.

`Phase` is the grammar of a response as an automaton over its events, and `Legal` spells
it out: interim responses, the final header block, DATA and trailers, where only the last
may end the stream, and at most one reset after them.

* `trailers_after_end`: a header block that ends the stream again is delivered.
* `legal_of_orderly`: in every run where no such block is completed, and a RST_STREAM
  can be written whenever one is due, the events of every stream are legal.
-/

namespace Conn.Handler

open Header (Bytes Field)
open Frame (ErrCode)
open Frame.ErrCode (protocolError internalError flowControlError enhanceYourCalm streamClosed)
open Transition

/-! ## Streams -/

/-- The fields of `Stream` that the reader looks at, and the events delivered. -/
structure Stream where
  registered : Bool := false
  reqIsHead : Bool := false
  headersReceived : Bool := false
  interimCount : ℕ := 0
  respStatus : ℕ := 0
  contentLength : ContentLength := {}
  bodyLen : ℕ := 0
  remoteEnded : Bool := false
  localEnded : Bool := false
  closed : Bool := false
  events : List StreamEvent := []
  deriving DecidableEq

namespace Stream

def maxInterimResponses : ℕ := 100

variable (t : Stream)

/-- `deliverEnd` to a consumer that has room. -/
@[simps]
def deliverEnd (e : StreamEvent) (endStream : Bool) : Stream :=
  { t with remoteEnded := t.remoteEnded || endStream, events := t.events ++ [e] }

@[simps]
def endWithReset (code : ErrCode) : Stream :=
  { t with
    events := t.events ++ [.reset code]
    remoteEnded := true
    localEnded := true
    closed := true }

/-- `markStreamDone`: the registry lets go of a stream both sides have ended. -/
def markStreamDone : Stream :=
  if t.localEnded ∧ t.remoteEnded then { t with registered := false } else t

/-- `classifyHeaderBlock`: which event the block becomes. -/
def classifyHeaderBlock (fields : List Field) (endStream : Bool) :
    Stream × Except ErrCode (List Field → Bool → StreamEvent) :=
  if t.headersReceived then
    if endStream then (t, .ok .trailers) else (t, .error protocolError)
  else if isInformationalStatus fields then
    if endStream then (t, .error protocolError)
    else
      let t := { t with interimCount := t.interimCount + 1 }
      if maxInterimResponses < t.interimCount then (t, .error enhanceYourCalm)
      else (t, .ok .interimHeaders)
  else
    ({ t with
      headersReceived := true
      respStatus := numericStatus fields
      contentLength := responseContentLength fields }, .ok .headers)

/-- `checkContentLength`. -/
def checkContentLength : Bool :=
  !t.contentLength.present || !statusCanHaveContent t.respStatus t.reqIsHead ||
    t.contentLength.valid && t.contentLength.declared == t.bodyLen

/-- `emitHeaderBlock` past the decoder: the stream, and the stream error if there is one. -/
def emitHeaderBlock (fields : List Field) (endStream : Bool) : Stream × Option ErrCode :=
  if validateResponseFields t.headersReceived fields then
    match t.classifyHeaderBlock fields endStream with
    | (t, .error code) => (t, some code)
    | (t, .ok event) =>
      if endStream ∧ t.checkContentLength = false then (t, some protocolError)
      else
        let t := t.deliverEnd (event fields endStream) endStream
        (if endStream then t.markStreamDone else t, none)
  else (t, some protocolError)

/-- `OnData` past the flow control. -/
def onData (payload : Bytes) (endStream : Bool) : Stream × Option ErrCode :=
  if t.headersReceived then
    let t := { t with bodyLen := t.bodyLen + payload.length }
    if endStream ∧ t.checkContentLength = false then (t, some protocolError)
    else
      let t := t.deliverEnd (.data payload endStream) endStream
      (if endStream then t.markStreamDone else t, none)
  else (t, some protocolError)

end Stream

/-! ## The connection -/

/-- The frames of a response. Padding and priority are stripped; flags other than the
ones named do not matter. -/
inductive Frame where
  | data (id : ℕ) (payload : Bytes) (endStream : Bool)
  | headers (id : ℕ) (block : Bytes) (endStream endHeaders : Bool)
  | continuation (id : ℕ) (block : Bytes) (endHeaders : Bool)
  | rstStream (id : ℕ) (code : ErrCode)
  deriving DecidableEq

/-- What the flow control says to a DATA frame. -/
inductive Flow where
  | ok
  | streamOverrun
  | connOverrun
  deriving DecidableEq

/-- `StreamError` and `ConnError`. -/
inductive Fault where
  | stream (id : ℕ) (code : ErrCode)
  | conn (code : ErrCode)
  deriving DecidableEq

/-- `connHandler`, the framer's continuity check, the decoder and the registry. -/
structure State where
  stream : ℕ → Stream
  nextID : ℕ
  dec : Hpack.Decoder
  expectContinuation : Bool
  continuationStream : ℕ
  pendingStreamID : ℕ
  pendingBuf : Bytes
  pendingEndStream : Bool
  maxHeaderBytes : ℕ
  /-- The reader loop has returned. -/
  readerGone : Bool

inductive Op where
  /-- `SendHeaders` on a new stream. -/
  | open (reqIsHead : Bool)
  /-- The end of an upload: the flag, and then `markStreamDone`. -/
  | endLocal (id : ℕ)
  | retire (id : ℕ)
  /-- The reader gets a frame; `rstOk` says whether a RST_STREAM can be written. -/
  | frame (f : Frame) (flow : Flow) (rstOk : Bool)
  /-- The framer refuses a frame, or the transport fails. -/
  | readError

/-- `headerDecodeConnError`. -/
def headerDecodeConnError : Hpack.Fault Empty → ErrCode
  | .err .headerListTooLarge => enhanceYourCalm
  | _ => ErrCode.compressionError

/-- The visitor that appends to the scratch slice. -/
def scratch (fields : List Field) (f : Field) : List Field × Option Empty := (fields ++ [f], none)

namespace State

variable (s : State)

@[simps]
def setStream (id : ℕ) (t : Stream) : State :=
  { s with stream := Function.update s.stream id t }

/-- `isIdleStream`, where no stream was promised. -/
def isIdleStream (id : ℕ) : Bool :=
  if id % 2 = 1 then s.nextID ≤ id else 0 < id

def emitHeaderBlock (id : ℕ) (block : Bytes) (endStream : Bool) : State × Option Fault :=
  let r := Hpack.Decoder.decodeBlock scratch s.dec [] block
  let s := { s with dec := r.1.1 }
  match r.2 with
  | some fault => (s, some (.conn (headerDecodeConnError fault)))
  | none =>
    let t := (s.stream id).emitHeaderBlock r.1.2 endStream
    (s.setStream id t.1, t.2.map (.stream id))

/-- `headerBlockForAbsentStream`: decoded for the decoder's sake, and dropped. -/
def headerBlockForAbsentStream (id : ℕ) (block : Bytes) : State × Option Fault :=
  if s.isIdleStream id then (s, some (.conn protocolError))
  else
    let r := Hpack.Decoder.decodeBlock scratch s.dec [] block
    ({ s with dec := r.1.1 }, r.2.map fun fault => .conn (headerDecodeConnError fault))

/-- A completed block, on its stream if there still is one. -/
def headerBlock (id : ℕ) (block : Bytes) (endStream : Bool) : State × Option Fault :=
  if (s.stream id).registered then s.emitHeaderBlock id block endStream
  else s.headerBlockForAbsentStream id block

def onHeaders (id : ℕ) (block : Bytes) (endStream endHeaders : Bool) : State × Option Fault :=
  if endHeaders then s.headerBlock id block endStream
  else
    ({ s with pendingStreamID := id, pendingBuf := block, pendingEndStream := endStream }, none)

def onContinuation (id : ℕ) (block : Bytes) (endHeaders : Bool) : State × Option Fault :=
  if s.pendingStreamID ≠ id then (s, none)
  else
    let s := { s with pendingBuf := s.pendingBuf ++ block }
    if s.maxHeaderBytes < s.pendingBuf.length then (s, some (.conn enhanceYourCalm))
    else if endHeaders then s.headerBlock id s.pendingBuf s.pendingEndStream
    else (s, none)

def onData (id : ℕ) (payload : Bytes) (endStream : Bool) (flow : Flow) : State × Option Fault :=
  let t := s.stream id
  if t.registered then
    -- `accountConnRecvOnly` is called too, but its error is dropped
    if t.remoteEnded then (s, some (.stream id streamClosed))
    else match flow with
      | .connOverrun => (s, some (.conn flowControlError))
      | .streamOverrun => (s, some (.stream id flowControlError))
      | .ok =>
        let r := t.onData payload endStream
        (s.setStream id r.1, r.2.map (.stream id))
  else if s.isIdleStream id then (s, some (.conn protocolError))
  else (s, if flow = .connOverrun then some (.conn flowControlError) else none)

def onRSTStream (id : ℕ) (code : ErrCode) : State × Option Fault :=
  if (s.stream id).registered then
    (s.setStream id ((s.stream id).endWithReset code).markStreamDone, none)
  else (s, if s.isIdleStream id then some (.conn protocolError) else none)

end State

def Frame.id : Frame → ℕ
  | .data id _ _ | .headers id _ _ _ | .continuation id _ _ | .rstStream id _ => id

namespace State

variable (s : State)

def dispatch (f : Frame) (flow : Flow) : State × Option Fault :=
  if f.id = 0 then (s, some (.conn protocolError))
  else match f with
    | .data id payload endStream => s.onData id payload endStream flow
    | .headers id block endStream endHeaders => s.onHeaders id block endStream endHeaders
    | .continuation id block endHeaders => s.onContinuation id block endHeaders
    | .rstStream id code => s.onRSTStream id code

/-- `checkFieldBlockContinuity`. -/
def continues : Frame → Bool
  | .continuation id _ _ => s.expectContinuation && s.continuationStream == id
  | _ => !s.expectContinuation

def trackFieldBlock : Frame → State
  | .headers id _ _ endHeaders =>
    { s with expectContinuation := !endHeaders, continuationStream := id }
  | .continuation _ _ true => { s with expectContinuation := false }
  | _ => s

/-- `ReadFrame`, with the framer's errors as the reader loop maps them. -/
def readFrame (f : Frame) (flow : Flow) : State × Option Fault :=
  if s.continues f then ((s.dispatch f flow).1.trackFieldBlock f, (s.dispatch f flow).2)
  else (s, some (.conn protocolError))

/-- `resetStreamOnError`; the RST_STREAM that is written gives up the slot. -/
def resetStreamOnError (id : ℕ) (code : ErrCode) (rstOk : Bool) : State :=
  let t := s.stream id
  let t := if t.registered then t.endWithReset code else t
  s.setStream id (if rstOk then { t with registered := false } else t)

/-- `shutdownStreams`. -/
def shutdownStreams : State :=
  { s with
    readerGone := true
    stream := fun id =>
      if (s.stream id).registered then
        { s.stream id with events := (s.stream id).events ++ [.reset internalError] }
      else s.stream id }

/-- One turn of `readerLoop`. -/
def readerLoop (f : Frame) (flow : Flow) (rstOk : Bool) : State :=
  match s.readFrame f flow with
  | (s, none) => s
  | (s, some (.stream id code)) => s.resetStreamOnError id code rstOk
  | (s, some (.conn _)) => s.shutdownStreams

def step : Op → Option State
  | .open reqIsHead =>
    some { s.setStream s.nextID { registered := true, reqIsHead := reqIsHead } with
      nextID := (s.nextID + 2) % 2 ^ 32 }
  | .endLocal id => some (s.setStream id { s.stream id with localEnded := true })
  | .retire id => some (s.setStream id (s.stream id).markStreamDone)
  | .frame f flow rstOk => if s.readerGone then none else some (s.readerLoop f flow rstOk)
  | .readError => if s.readerGone then none else some s.shutdownStreams

end State

/-- The reader of a connection that starts with some decoder and a limit on the bytes
of a header block. -/
def system (dec : Hpack.Decoder) (maxHeaderBytes : ℕ) : System State Op where
  init := ⟨fun _ => {}, 1, dec, false, 0, 0, [], false, maxHeaderBytes, false⟩
  step := State.step

/-! ## The grammar of a response -/

/-- Where a response stands after some events. -/
inductive Phase where
  /-- So many interim responses, and no final one. -/
  | interim (n : ℕ)
  | body
  | done
  /-- Cut short, or ended, by a reset. -/
  | finished
  deriving DecidableEq

def Phase.next : Phase → StreamEvent → Option Phase
  | .interim n, .interimHeaders _ false => if n < 100 then some (.interim (n + 1)) else none
  | .interim _, .headers _ endStream => some (if endStream then .done else .body)
  | .body, .data _ endStream => some (if endStream then .done else .body)
  | .body, .trailers _ true => some .done
  | .finished, _ => none
  | _, .reset _ => some .finished
  | _, _ => none

/-- The events read so far lead to the phase. -/
inductive Reads : List StreamEvent → Phase → Prop
  | nil : Reads [] (.interim 0)
  | snoc {es : List StreamEvent} {p q : Phase} {e : StreamEvent} (h : Reads es p)
      (hnext : p.next e = some q) : Reads (es ++ [e]) q

/-- What may follow what: after an event with END_STREAM, only a reset. -/
def MayFollow (a b : StreamEvent) : Prop := a.endStream = true → b.isReset = true

/-- Interim responses, at most a hundred, the final header block, DATA and trailers, of
which only the last ends the stream, and at most one reset; or an initial part of that. -/
structure Response (is hs ds ts rs : List StreamEvent) : Prop where
  interim_le : is.length ≤ 100
  interim : ∀ e ∈ is, ∃ fields, e = .interimHeaders fields false
  head_le : hs.length ≤ 1
  head : ∀ e ∈ hs, ∃ fields endStream, e = .headers fields endStream
  headed : hs = [] → ds = [] ∧ ts = []
  body : ∀ e ∈ ds, ∃ payload endStream, e = .data payload endStream
  trailers_le : ts.length ≤ 1
  trailers : ∀ e ∈ ts, ∃ fields, e = .trailers fields true
  reset_le : rs.length ≤ 1
  reset : ∀ e ∈ rs, ∃ code, e = .reset code
  order : (is ++ hs ++ ds ++ ts ++ rs).Pairwise MayFollow

/-- The events of a stream form a response. -/
def Legal (es : List StreamEvent) : Prop :=
  ∃ is hs ds ts rs, es = is ++ hs ++ ds ++ ts ++ rs ∧ Response is hs ds ts rs

/-- The parts of a response by the phase it is in. -/
def Shape (es : List StreamEvent) : Phase → Prop
  | .interim n => es.length = n ∧ Response es [] [] [] []
  | .body => ∃ is hs ds, es = is ++ hs ++ ds ∧ hs ≠ [] ∧ (∀ e ∈ es, e.endStream = false) ∧
      Response is hs ds [] []
  | .done => ∃ is hs ds ts, es = is ++ hs ++ ds ++ ts ∧ Response is hs ds ts []
  | .finished => Legal es

variable {es is hs ds ts : List StreamEvent} {p q : Phase} {e : StreamEvent}

theorem pairwise_concat (h : es.Pairwise MayFollow)
    (hlast : (∀ a ∈ es, a.endStream = false) ∨ e.isReset = true) :
    (es ++ [e]).Pairwise MayFollow := by
  refine List.pairwise_append.mpr ⟨h, by simp, ?_⟩
  intro a ha b hb hend
  rw [List.mem_singleton.mp hb]
  rcases hlast with hopen | hreset
  · simp [hopen a ha] at hend
  · exact hreset

namespace Response

/-- Interim responses do not end the stream. -/
theorem interim_open {rs : List StreamEvent} (h : Response is hs ds ts rs) :
    ∀ e ∈ is, e.endStream = false := by
  intro e he
  rcases h.interim e he with ⟨fields, rfl⟩
  rfl

/-- A reset may end any response that has none yet. -/
theorem cut (h : Response is hs ds ts []) (code : ErrCode) :
    Response is hs ds ts [.reset code] := by
  have horder := h.order
  rw [List.append_nil] at horder
  exact { h with
    reset_le := by simp
    reset := by simp
    order := pairwise_concat horder (.inr rfl) }

/-- After a body that nothing has ended yet, any event may stand. -/
theorem concat (h : Response is hs ds [] []) (hopen : ∀ e ∈ is ++ hs ++ ds, e.endStream = false)
    (e : StreamEvent) : (is ++ hs ++ ds ++ [e]).Pairwise MayFollow := by
  have horder : (is ++ hs ++ ds).Pairwise MayFollow := by simpa using h.order
  exact pairwise_concat horder (.inl hopen)

theorem add_interim (h : Response is [] [] [] []) (hlt : is.length < 100) (fields : List Field) :
    Response (is ++ [.interimHeaders fields false]) [] [] [] [] := by
  refine { h with interim_le := ?_, interim := ?_, order := ?_ }
  · simpa using Nat.succ_le_of_lt hlt
  · exact List.forall_mem_append.mpr ⟨h.interim, List.forall_mem_singleton.mpr ⟨fields, rfl⟩⟩
  · simpa using h.concat (by simpa using h.interim_open) (.interimHeaders fields false)

theorem add_head (h : Response is [] [] [] []) (fields : List Field) (endStream : Bool) :
    Response is [.headers fields endStream] [] [] [] :=
  { h with
    head_le := by simp
    head := fun e he => ⟨fields, endStream, List.mem_singleton.mp he⟩
    headed := by simp
    order := by simpa using h.concat (by simpa using h.interim_open) (.headers fields endStream) }

theorem add_data (h : Response is hs ds [] []) (hhs : hs ≠ [])
    (hopen : ∀ e ∈ is ++ hs ++ ds, e.endStream = false) (payload : Bytes) (endStream : Bool) :
    Response is hs (ds ++ [.data payload endStream]) [] [] := by
  refine { h with headed := fun hnil => absurd hnil hhs, body := ?_, order := ?_ }
  · exact List.forall_mem_append.mpr
      ⟨h.body, List.forall_mem_singleton.mpr ⟨payload, endStream, rfl⟩⟩
  · simpa using h.concat hopen (.data payload endStream)

theorem add_trailers (h : Response is hs ds [] []) (hhs : hs ≠ [])
    (hopen : ∀ e ∈ is ++ hs ++ ds, e.endStream = false) (fields : List Field) :
    Response is hs ds [.trailers fields true] [] :=
  { h with
    headed := fun hnil => absurd hnil hhs
    trailers_le := by simp
    trailers := by simp
    order := by simpa using h.concat hopen (.trailers fields true) }

end Response

theorem Legal.order (h : Legal es) : es.Pairwise MayFollow := by
  rcases h with ⟨is, hs, ds, ts, rs, rfl, hr⟩
  exact hr.order

theorem Shape.legal (h : Shape es p) : Legal es := by
  cases p with
  | interim n => exact ⟨es, [], [], [], [], by simp, h.2⟩
  | body =>
    rcases h with ⟨is, hs, ds, rfl, _, _, hr⟩
    exact ⟨is, hs, ds, [], [], by simp, hr⟩
  | done =>
    rcases h with ⟨is, hs, ds, ts, rfl, hr⟩
    exact ⟨is, hs, ds, ts, [], by simp, hr⟩
  | finished => exact h

theorem Shape.reset (h : Shape es p) (hp : p ≠ .finished) (code : ErrCode) :
    Legal (es ++ [.reset code]) := by
  cases p with
  | interim n => exact ⟨es, [], [], [], [.reset code], by simp, h.2.cut code⟩
  | body =>
    rcases h with ⟨is, hs, ds, rfl, _, _, hr⟩
    exact ⟨is, hs, ds, [], [.reset code], by simp, hr.cut code⟩
  | done =>
    rcases h with ⟨is, hs, ds, ts, rfl, hr⟩
    exact ⟨is, hs, ds, ts, [.reset code], rfl, hr.cut code⟩
  | finished => exact absurd rfl hp

theorem Shape.next (h : Shape es p) (hnext : p.next e = some q) : Shape (es ++ [e]) q := by
  unfold Phase.next at hnext
  split at hnext <;> try simp only [Transition.guarded] at hnext
  case h_1 n fields =>
    rcases h with ⟨hlen, hr⟩
    rcases hnext with ⟨hlt, rfl⟩
    exact ⟨by simp [hlen], hr.add_interim (hlen ▸ hlt) fields⟩
  case h_2 n fields endStream =>
    rcases h with ⟨_, hr⟩
    cases endStream <;> cases hnext
    · refine ⟨es, [.headers fields false], [], by simp, by simp, ?_, hr.add_head fields false⟩
      exact List.forall_mem_append.mpr ⟨hr.interim_open, List.forall_mem_singleton.mpr rfl⟩
    · exact ⟨es, [.headers fields true], [], [], by simp, hr.add_head fields true⟩
  case h_3 payload endStream =>
    rcases h with ⟨is, hs, ds, rfl, hhs, hopen, hr⟩
    have hadd := hr.add_data hhs hopen payload endStream
    cases endStream <;> cases hnext
    · refine ⟨is, hs, ds ++ [.data payload false], by simp, hhs, ?_, hadd⟩
      exact List.forall_mem_append.mpr ⟨hopen, List.forall_mem_singleton.mpr rfl⟩
    · exact ⟨is, hs, ds ++ [.data payload true], [], by simp, hadd⟩
  case h_4 fields =>
    rcases h with ⟨is, hs, ds, rfl, hhs, hopen, hr⟩
    cases hnext
    exact ⟨is, hs, ds, [.trailers fields true], by simp, hr.add_trailers hhs hopen fields⟩
  case h_6 code hp =>
    cases hnext
    exact h.reset (by simpa using hp) code
  all_goals cases hnext

/-- What the automaton reads is a response. -/
theorem Reads.shape (h : Reads es p) : Shape es p := by
  induction h with
  | nil => exact ⟨rfl, by constructor <;> simp⟩
  | snoc _ hnext ih => exact ih.next hnext

/-! ## One stream -/

namespace Stream

variable {t : Stream} {fields : List Field} {payload : Bytes} {endStream : Bool} {code : ErrCode}

/-- The flags of a stream that frames can still reach, by the phase of its events. -/
def Stands (t : Stream) : Phase → Prop
  | .interim n => t.headersReceived = false ∧ t.remoteEnded = false ∧ n ≤ t.interimCount
  | .body => t.headersReceived = true ∧ t.remoteEnded = false
  | .done => t.headersReceived = true ∧ t.remoteEnded = true
  | .finished => False

def Tracked (t : Stream) : Prop :=
  ∃ p, Reads t.events p ∧ (t.registered = true → t.Stands p)

/-- A reset may be delivered. -/
def Resettable (t : Stream) : Prop := ∃ p, Reads t.events p ∧ p ≠ .finished

theorem Tracked.legal (h : t.Tracked) : Legal t.events := by
  rcases h with ⟨p, hreads, _⟩
  exact hreads.shape.legal

theorem Tracked.resettable (h : t.Tracked) (hreg : t.registered = true) : t.Resettable := by
  rcases h with ⟨p, hreads, hstands⟩
  refine ⟨p, hreads, ?_⟩
  rintro rfl
  exact hstands hreg

theorem Tracked.unregister (h : t.Tracked) : Tracked { t with registered := false } := by
  rcases h with ⟨p, hreads, _⟩
  exact ⟨p, hreads, by simp⟩

theorem Tracked.markStreamDone (h : t.Tracked) : t.markStreamDone.Tracked := by
  unfold Stream.markStreamDone
  split_ifs
  · exact h.unregister
  · exact h

theorem Resettable.reads (h : t.Resettable) : Reads (t.events ++ [.reset code]) .finished := by
  rcases h with ⟨p, hreads, hp⟩
  refine hreads.snoc ?_
  cases p
  case finished => exact absurd rfl hp
  all_goals rfl

/-- The phase the events pass to when one more is delivered. -/
theorem Tracked.deliverEnd {p q : Phase} {e : StreamEvent} (hreads : Reads t.events p)
    (hnext : p.next e = some q) (hstands : (t.deliverEnd e endStream).Stands q) :
    (t.deliverEnd e endStream).Tracked :=
  ⟨q, hreads.snoc hnext, fun _ => hstands⟩

/-- An event is handed over; the registry lets go of a stream that both sides have ended. -/
def handOver (t : Stream) (e : StreamEvent) (endStream : Bool) : Stream :=
  if endStream then (t.deliverEnd e endStream).markStreamDone else t.deliverEnd e endStream

@[simp] theorem events_markStreamDone : t.markStreamDone.events = t.events := by
  unfold Stream.markStreamDone
  split_ifs <;> rfl

theorem Tracked.handOver {e : StreamEvent} (h : (t.deliverEnd e endStream).Tracked) :
    (t.handOver e endStream).Tracked := by
  unfold Stream.handOver
  split_ifs
  · exact h.markStreamDone
  · exact h

/-- What a handler leaves alone until it delivers. -/
structure Same (t t' : Stream) : Prop where
  events : t'.events = t.events
  registered : t'.registered = t.registered
  remoteEnded : t'.remoteEnded = t.remoteEnded

theorem same_classifyHeaderBlock : t.Same (t.classifyHeaderBlock fields endStream).1 := by
  unfold classifyHeaderBlock
  dsimp only
  split_ifs <;> exact ⟨rfl, rfl, rfl⟩

/-- A header block is found at fault, or handed over as what it was classified as. -/
theorem emitHeaderBlock_cases (t : Stream) (fields : List Field) (endStream : Bool) :
    (∃ t' code, t.emitHeaderBlock fields endStream = (t', some code) ∧ t.Same t') ∨
      ∃ t' event, t.emitHeaderBlock fields endStream =
          (t'.handOver (event fields endStream) endStream, none) ∧ t.Same t' ∧
        validateResponseFields t.headersReceived fields = true ∧
        t.classifyHeaderBlock fields endStream = (t', .ok event) := by
  have hsame : t.Same (t.classifyHeaderBlock fields endStream).1 := same_classifyHeaderBlock
  unfold emitHeaderBlock
  by_cases hvalid : validateResponseFields t.headersReceived fields = true
  · rw [if_pos hvalid]
    rcases hclass : t.classifyHeaderBlock fields endStream with ⟨t', code | event⟩ <;>
      rw [hclass] at hsame
    · exact .inl ⟨t', code, rfl, hsame⟩
    · dsimp only
      by_cases hlength : endStream = true ∧ t'.checkContentLength = false
      · rw [if_pos hlength]
        exact .inl ⟨t', _, rfl, hsame⟩
      · rw [if_neg hlength]
        exact .inr ⟨t', event, rfl, hsame, hvalid, rfl⟩
  · rw [if_neg hvalid]
    exact .inl ⟨t, _, rfl, rfl, rfl, rfl⟩

/-- DATA is found at fault, or handed over. -/
theorem onData_cases (t : Stream) (payload : Bytes) (endStream : Bool) :
    (∃ t' code, t.onData payload endStream = (t', some code) ∧ t.Same t') ∨
      t.headersReceived = true ∧ t.onData payload endStream =
        (handOver { t with bodyLen := t.bodyLen + payload.length } (.data payload endStream) endStream,
          none) := by
  unfold onData
  by_cases hreceived : t.headersReceived = true
  · dsimp only
    split_ifs with hlength hended
    · exact .inl ⟨_, _, rfl, rfl, rfl, rfl⟩
    all_goals exact .inr ⟨hreceived, by simp [handOver, hended]⟩
  · rw [if_neg hreceived]
    exact .inl ⟨t, _, rfl, rfl, rfl, rfl⟩

/-- What `classifyHeaderBlock` decides goes with the phase, unless the peer has ended
the stream before. -/
theorem classifyHeaderBlock_spec {t' : Stream} {event : List Field → Bool → StreamEvent} {p : Phase}
    (hstands : t.Stands p) (hend : ¬ (t.remoteEnded = true ∧ endStream = true))
    (h : t.classifyHeaderBlock fields endStream = (t', .ok event)) :
    ∃ q, p.next (event fields endStream) = some q ∧
      (t'.deliverEnd (event fields endStream) endStream).Stands q := by
  unfold classifyHeaderBlock at h
  dsimp only at h
  split_ifs at h with hreceived hended hinformational hended hmany <;> cases h
  · -- trailers, with END_STREAM
    cases p with
    | interim n => simp [hstands.1] at hreceived
    | body => exact ⟨.done, by simp_all [Phase.next], by simp_all [Stands]⟩
    | done => exact absurd ⟨hstands.2, ‹_›⟩ hend
    | finished => exact hstands.elim
  · cases p with
    | interim n =>
      rcases hstands with ⟨hheaders, hremote, hn⟩
      have hlt : n < 100 := by
        simp only [maxInterimResponses] at hmany
        omega
      refine ⟨.interim (n + 1), by simp_all [Phase.next], ?_⟩
      simp_all [Stands]
    | body | done => simp [hstands.1] at hreceived
    | finished => exact hstands.elim
  · cases p with
    | interim n =>
      refine ⟨if endStream then .done else .body, rfl, ?_⟩
      cases endStream <;> simp [Stands, hstands.2.1]
    | body | done => simp [hstands.1] at hreceived
    | finished => exact hstands.elim

/-- The handler delivers, and `G` holds, or it finds a fault, and `F` holds. -/
def Settles (G F : Stream → Prop) (r : Stream × Option ErrCode) : Prop :=
  match r.2 with
  | none => G r.1
  | some _ => F r.1

/-- A stream that a frame was found at fault on. -/
def Faulted (t : Stream) : Prop := t.registered = true ∧ t.Resettable

theorem Tracked.faulted {t' : Stream} (h : t.Tracked) (hreg : t.registered = true)
    (hsame : t.Same t') : t'.Faulted := by
  rcases h.resettable hreg with ⟨p, hreads, hp⟩
  exact ⟨hsame.registered.trans hreg, p, hsame.events ▸ hreads, hp⟩

/-- The events are legal, and while the reader runs their phase is tracked. -/
def Follows (gone : Bool) (t : Stream) : Prop := Legal t.events ∧ (gone = false → t.Tracked)

theorem Tracked.follows (h : t.Tracked) (gone : Bool) : t.Follows gone :=
  ⟨h.legal, fun _ => h⟩

theorem emitHeaderBlock_spec (h : t.Tracked) (hreg : t.registered = true)
    (hend : ¬ (t.remoteEnded = true ∧ endStream = true)) :
    Settles (Follows false) Faulted (t.emitHeaderBlock fields endStream) := by
  rcases emitHeaderBlock_cases t fields endStream with
    ⟨t', code, hr, hsame⟩ | ⟨t', event, hr, hsame, -, hclass⟩ <;> rw [hr]
  · exact h.faulted hreg hsame
  · rcases h with ⟨p, hreads, hstands⟩
    rcases classifyHeaderBlock_spec (hstands hreg) hend hclass with ⟨q, hnext, hstands'⟩
    rw [← hsame.events] at hreads
    exact (Tracked.deliverEnd hreads hnext hstands').handOver.follows false

/-- `OnData` gets here only before the peer has ended the stream. -/
theorem onData_spec (h : t.Tracked) (hreg : t.registered = true) (hend : t.remoteEnded = false) :
    Settles (Follows false) Faulted (t.onData payload endStream) := by
  rcases onData_cases t payload endStream with ⟨t', code, hr, hsame⟩ | ⟨hreceived, hr⟩ <;> rw [hr]
  · exact h.faulted hreg hsame
  rcases h with ⟨p, hreads, hstands⟩
  have hbody : p = .body := by
    cases p <;> simp_all [Stands]
  subst hbody
  have hnext : Phase.body.next (.data payload endStream) =
      some (if endStream then .done else .body) := rfl
  apply Tracked.follows
  apply Tracked.handOver
  apply Tracked.deliverEnd hreads hnext
  cases endStream <;> simp [Stands, hreceived, hend]

end Stream

/-! ## Every run -/

namespace State

variable {s s' : State} {id : ℕ} {block payload : Bytes} {endStream endHeaders : Bool}
  {f : Frame} {flow : Flow} {code : ErrCode}

/-- The frame completes a header block with END_STREAM on a stream the peer has
already ended and the client has not. -/
def EndsAgain (s : State) : Frame → Prop
  | .headers id _ endStream endHeaders =>
    endHeaders = true ∧ endStream = true ∧
      (s.stream id).registered = true ∧ (s.stream id).remoteEnded = true
  | .continuation id _ endHeaders =>
    endHeaders = true ∧ s.pendingStreamID = id ∧ s.pendingEndStream = true ∧
      (s.stream id).registered = true ∧ (s.stream id).remoteEnded = true
  | _ => False

instance (s : State) (f : Frame) : Decidable (s.EndsAgain f) := by
  cases f <;> dsimp only [EndsAgain] <;> infer_instance

/-- No stream is ended twice, and a RST_STREAM can be written. -/
def Orderly (s : State) : Op → Prop
  | .frame f _ rstOk => ¬ s.EndsAgain f ∧ rstOk = true
  | _ => True

instance (s : State) (op : Op) : Decidable (s.Orderly op) := by
  cases op <;> dsimp only [Orderly] <;> infer_instance

/-- What a frame can do to the streams: nothing; a fault, found before its stream is touched; what
its stream's handler makes of it; or a reset. -/
inductive Touches (s : State) (f : Frame) : (ℕ → Stream) → Option Fault → Prop
  | aside {fault : Option Fault} (hfault : ∀ i code, fault ≠ some (.stream i code)) :
    Touches s f s.stream fault
  | fault {code : ErrCode} (hreg : (s.stream f.id).registered = true) :
    Touches s f s.stream (some (.stream f.id code))
  | block {fields : List Field} {endStream : Bool} (hreg : (s.stream f.id).registered = true)
    (hagain : (s.stream f.id).remoteEnded = true ∧ endStream = true → s.EndsAgain f) :
    Touches s f
      (Function.update s.stream f.id ((s.stream f.id).emitHeaderBlock fields endStream).1)
      (((s.stream f.id).emitHeaderBlock fields endStream).2.map (.stream f.id))
  | data {payload : Bytes} {endStream : Bool} (hreg : (s.stream f.id).registered = true)
    (hremote : (s.stream f.id).remoteEnded = false) :
    Touches s f (Function.update s.stream f.id ((s.stream f.id).onData payload endStream).1)
      (((s.stream f.id).onData payload endStream).2.map (.stream f.id))
  | rst {code : ErrCode} (hreg : (s.stream f.id).registered = true) :
    Touches s f (Function.update s.stream f.id ((s.stream f.id).endWithReset code).markStreamDone) none

/-- A completed block, after some more of it was buffered. -/
theorem touches_headerBlock (hs : s'.stream = s.stream)
    (hagain : (s.stream f.id).registered = true → (s.stream f.id).remoteEnded = true ∧ endStream = true →
      s.EndsAgain f) :
    s.Touches f (s'.headerBlock f.id block endStream).1.stream
      (s'.headerBlock f.id block endStream).2 := by
  unfold headerBlock
  split_ifs with hreg
  · unfold emitHeaderBlock
    rw [hs] at hreg
    dsimp only
    split
    · exact hs ▸ .aside (by simp)
    · rw [hs]
      exact .block hreg (hagain hreg)
  · unfold headerBlockForAbsentStream
    split_ifs <;> exact hs ▸ .aside (by simp)

theorem touches_dispatch : s.Touches f (s.dispatch f flow).1.stream (s.dispatch f flow).2 := by
  unfold dispatch
  split_ifs
  · exact .aside (by simp)
  cases f with
  | data id payload endStream =>
    dsimp only [onData]
    split_ifs with hreg hremote hidle
    · exact .fault hreg
    · cases flow with
      | connOverrun => exact .aside (by simp)
      | streamOverrun => exact .fault hreg
      | ok => exact .data hreg (Bool.not_eq_true _ ▸ hremote)
    all_goals exact .aside (by simp)
  | headers id block endStream endHeaders =>
    dsimp only [onHeaders]
    split_ifs with hdone
    · exact touches_headerBlock rfl fun hreg hend => ⟨hdone, hend.2, hreg, hend.1⟩
    · exact .aside (by simp)
  | continuation id block endHeaders =>
    dsimp only [onContinuation]
    split_ifs with hpending hflood hdone
    · exact .aside (by simp)
    · exact .aside (by simp)
    · have hsame : { s with pendingBuf := s.pendingBuf ++ block }.stream = s.stream := rfl
      exact touches_headerBlock hsame
        fun hreg hend => ⟨hdone, not_not.mp hpending, hend.2, hreg, hend.1⟩
    · exact .aside (by simp)
  | rstStream id code =>
    dsimp only [onRSTStream]
    split_ifs with hreg hidle
    · exact .rst hreg
    all_goals exact .aside (by simp)

@[simp] theorem stream_trackFieldBlock : (s.trackFieldBlock f).stream = s.stream := by
  unfold trackFieldBlock
  split <;> rfl

theorem touches_readFrame (s : State) (f : Frame) (flow : Flow) :
    s.Touches f (s.readFrame f flow).1.stream (s.readFrame f flow).2 := by
  unfold readFrame
  split_ifs
  · rw [stream_trackFieldBlock]
    exact touches_dispatch
  · exact .aside (by simp)

/-- What the reader loop does with the error of a frame. -/
def settle (s : State) (rstOk : Bool) : Option Fault → State
  | none => s
  | some (.stream id code) => s.resetStreamOnError id code rstOk
  | some (.conn _) => s.shutdownStreams

theorem readerLoop_eq {rstOk : Bool} :
    s.readerLoop f flow rstOk = (s.readFrame f flow).1.settle rstOk (s.readFrame f flow).2 := by
  unfold readerLoop
  rcases s.readFrame f flow with ⟨s₁, _ | _ | _⟩ <;> rfl

end State

/-- What has to be shown of the handlers of one stream for `G` to hold of every stream in every
run, while the reader runs and after it has gone; `F` holds of a stream that a frame was found at
fault on. In an orderly run no stream is ended twice, and a RST_STREAM can be written. -/
structure StreamRules (orderly : Prop) (G : Bool → Stream → Prop) (F : Stream → Prop) : Prop where
  absent : G false {}
  opened : ∀ gone reqIsHead, G gone { registered := true, reqIsHead := reqIsHead }
  endLocal : ∀ gone t, G gone t → G gone { t with localEnded := true }
  retire : ∀ gone t, G gone t → G gone t.markStreamDone
  block : ∀ t fields endStream, G false t → t.registered = true →
    (orderly → ¬ (t.remoteEnded = true ∧ endStream = true)) →
    Stream.Settles (G false) F (t.emitHeaderBlock fields endStream)
  data : ∀ t payload endStream, G false t → t.registered = true → t.remoteEnded = false →
    Stream.Settles (G false) F (t.onData payload endStream)
  fault : ∀ t, G false t → t.registered = true → F t
  registered : ∀ t, F t → t.registered = true
  rst : ∀ t code, G false t → t.registered = true → G false (t.endWithReset code).markStreamDone
  /-- The reset of a fault; the stream stays registered if it cannot be written. -/
  reset : ∀ t code stays, F t → (orderly → stays = false) →
    G false { t.endWithReset code with registered := stays }
  shutdown : ∀ t, G false t → t.registered = true →
    G true { t with events := t.events ++ [.reset internalError] }
  gone : ∀ t, G false t → G true t

namespace State

variable {orderly : Prop} {G : Bool → Stream → Prop} {F : Stream → Prop} {s s' : State} {id : ℕ}
  {f : Frame} {flow : Flow} {code : ErrCode} {rstOk : Bool}

/-- A property of every stream. -/
def Everywhere (G : Bool → Stream → Prop) (s : State) : Prop :=
  ∀ id, G s.readerGone (s.stream id)

theorem Everywhere.of_running (rules : StreamRules orderly G F) (h : ∀ id, G false (s.stream id)) :
    s.Everywhere G := by
  intro id
  cases s.readerGone
  · exact h id
  · exact rules.gone _ (h id)

theorem Everywhere.setStream (h : s.Everywhere G) {t : Stream} (ht : G s.readerGone t) :
    (s.setStream id t).Everywhere G := by
  intro j
  by_cases hj : j = id
  · subst hj
    simpa using ht
  · simpa [hj] using h j

theorem Everywhere.shutdownStreams (rules : StreamRules orderly G F)
    (h : ∀ id, G false (s.stream id)) : s.shutdownStreams.Everywhere G := by
  intro id
  show G true (if (s.stream id).registered then _ else _)
  split_ifs with hreg
  · exact rules.shutdown _ (h id) hreg
  · exact rules.gone _ (h id)

theorem stream_resetStreamOnError (hreg : (s.stream id).registered = true) :
    (s.resetStreamOnError id code rstOk).stream id =
      { (s.stream id).endWithReset code with registered := !rstOk } := by
  cases rstOk <;> simp [resetStreamOnError, Stream.endWithReset, hreg]

/-- A frame that a stream's handler takes. -/
theorem Everywhere.settle (rules : StreamRules orderly G F) (h : ∀ id, G false (s.stream id))
    (hrst : orderly → rstOk = true) {r : Stream × Option ErrCode} (hr : Stream.Settles (G false) F r)
    (hstream : s'.stream = Function.update s.stream id r.1) :
    (s'.settle rstOk (r.2.map (.stream id))).Everywhere G := by
  refine .of_running rules ?_
  rcases r with ⟨t, _ | code⟩ <;> intro j
  · show G false (s'.stream j)
    by_cases hj : j = id
    · subst hj
      have ht : G false t := hr
      simpa [hstream] using ht
    · simpa [hstream, hj] using h j
  · show G false ((s'.resetStreamOnError id code rstOk).stream j)
    have ht : s'.stream id = t := by simp [hstream]
    by_cases hj : j = id
    · subst hj
      rw [stream_resetStreamOnError (by rw [ht]; exact rules.registered _ hr), ht]
      exact rules.reset _ code (!rstOk) hr fun ho => by simp [hrst ho]
    · simpa [resetStreamOnError, hstream, hj] using h j

theorem Everywhere.readerLoop (rules : StreamRules orderly G F) (h : ∀ id, G false (s.stream id))
    (hrst : orderly → rstOk = true) (hend : orderly → ¬ s.EndsAgain f) :
    (s.readerLoop f flow rstOk).Everywhere G := by
  have htouches := touches_readFrame s f flow
  rw [readerLoop_eq]
  generalize s.readFrame f flow = r at htouches ⊢
  rcases r with ⟨s₁, fault⟩
  generalize hstream : s₁.stream = stream at htouches
  have hsame : s.stream = Function.update s.stream f.id (s.stream f.id) := by simp
  cases htouches with
  | aside hfault =>
    have h₁ : ∀ id, G false (s₁.stream id) := fun j => hstream ▸ h j
    rcases fault with _ | ⟨i, code⟩ | code
    · exact .of_running rules h₁
    · exact absurd rfl (hfault i code)
    · exact Everywhere.shutdownStreams rules h₁
  | fault hreg =>
    exact Everywhere.settle rules h hrst (r := (_, some _)) (rules.fault _ (h _) hreg)
      (hstream.trans hsame)
  | block hreg hagain =>
    exact Everywhere.settle rules h hrst
      (rules.block _ _ _ (h _) hreg fun ho => mt hagain (hend ho)) hstream
  | data hreg hremote =>
    exact Everywhere.settle rules h hrst (rules.data _ _ _ (h _) hreg hremote) hstream
  | rst hreg =>
    exact Everywhere.settle rules h hrst (r := (_, none)) (rules.rst _ _ (h _) hreg) hstream

theorem Everywhere.step (rules : StreamRules orderly G F) (h : s.Everywhere G) {op : Op}
    (hc : orderly → s.Orderly op) (hstep : s.step op = some s') : s'.Everywhere G := by
  cases op with
  | «open» reqIsHead =>
    cases hstep
    exact h.setStream (rules.opened _ reqIsHead)
  | endLocal id =>
    cases hstep
    exact h.setStream (rules.endLocal _ _ (h id))
  | retire id =>
    cases hstep
    exact h.setStream (rules.retire _ _ (h id))
  | frame f flow rstOk =>
    simp only [State.step, Option.ite_none_left_eq_some, Bool.not_eq_true, Option.some.injEq] at hstep
    rcases hstep with ⟨hgone, rfl⟩
    exact Everywhere.readerLoop rules (fun id => hgone ▸ h id) (fun ho => (hc ho).2)
      fun ho => (hc ho).1
  | readError =>
    simp only [State.step, Option.ite_none_left_eq_some, Bool.not_eq_true, Option.some.injEq] at hstep
    rcases hstep with ⟨hgone, rfl⟩
    exact Everywhere.shutdownStreams rules fun id => hgone ▸ h id

end State

/-- What the rules are about holds of every stream of every state reached. -/
theorem StreamRules.reachable {orderly : Prop} {G : Bool → Stream → Prop} {F : Stream → Prop}
    (rules : StreamRules orderly G F) {dec : Hpack.Decoder} {maxHeaderBytes : ℕ} {s : State}
    {cond : State → Op → Prop} (hcond : ∀ s op, cond s op → orderly → s.Orderly op)
    (h : (system dec maxHeaderBytes).ReachableBy cond s) (id : ℕ) :
    G s.readerGone (s.stream id) := by
  have hall : s.Everywhere G := by
    refine h.invariant ?_ ?_
    · exact fun _ => rules.absent
    · intro s op s' hs hc hstep
      exact hs.step rules (hcond s op hc) hstep
  exact hall id

/-! ## Legal responses -/

namespace Stream

theorem Resettable.follows {t t' : Stream} (h : t.Resettable) (code : ErrCode)
    (hevents : t'.events = t.events ++ [.reset code]) (hreg : t'.registered = false) (gone : Bool) :
    t'.Follows gone := by
  refine Tracked.follows ⟨.finished, ?_, by simp [hreg]⟩ gone
  rw [hevents]
  exact h.reads

theorem follows_rules : StreamRules True Follows Faulted where
  absent := Tracked.follows ⟨.interim 0, .nil, by simp⟩ false
  opened gone _ := Tracked.follows ⟨.interim 0, .nil, fun _ => ⟨rfl, rfl, Nat.le_refl _⟩⟩ gone
  endLocal gone t h := by
    refine ⟨h.1, fun hgone => ?_⟩
    rcases h.2 hgone with ⟨p, hreads, hstands⟩
    refine ⟨p, hreads, fun hreg => ?_⟩
    cases p <;> exact hstands hreg
  retire gone t h := by
    refine ⟨?_, fun hgone => (h.2 hgone).markStreamDone⟩
    rw [events_markStreamDone]
    exact h.1
  block _ _ _ h hreg hend := emitHeaderBlock_spec (h.2 rfl) hreg (hend trivial)
  data _ _ _ h hreg hremote := onData_spec (h.2 rfl) hreg hremote
  fault t h hreg := ⟨hreg, (h.2 rfl).resettable hreg⟩
  registered t h := h.1
  rst t code h hreg := by
    -- both sides are ended, so the stream leaves the registry
    refine ((h.2 rfl).resettable hreg).follows code ?_ ?_ false
    · simp
    · simp [Stream.markStreamDone]
  reset t code stays h hstays := by
    refine h.2.follows code rfl ?_ false
    exact hstays trivial
  shutdown t h hreg := by
    have hreads : Reads (t.events ++ [.reset internalError]) .finished :=
      ((h.2 rfl).resettable hreg).reads
    exact ⟨hreads.shape.legal, by simp⟩
  gone t h := ⟨h.1, by simp⟩

end Stream

/-- In every orderly run the events of every stream are those of a legal response. -/
theorem legal_of_orderly {dec : Hpack.Decoder} {maxHeaderBytes : ℕ} {s : State}
    (h : (system dec maxHeaderBytes).ReachableBy State.Orderly s) (id : ℕ) :
    Legal (s.stream id).events :=
  (Stream.follows_rules.reachable (fun _ _ hc _ => hc) h id).1

/-- `:status: 200`. -/
def okBlock : Bytes := [0x88]

/-- `:status: 103`. -/
def earlyHintsBlock : Bytes := [0x08, 0x03, 0x31, 0x30, 0x33]

/-- `x: y`. -/
def trailerBlock : Bytes := [0x00, 0x01, 0x78, 0x01, 0x79]

/-- A response with an interim one before it, its trailers cut over two frames, while
the upload is open; then a late DATA frame. -/
def responseRun : List Op :=
  [.open false, .frame (.headers 1 earlyHintsBlock false true) .ok true,
    .frame (.headers 1 okBlock false true) .ok true, .frame (.data 1 [1, 2] false) .ok true,
    .frame (.headers 1 (trailerBlock.take 2) true false) .ok true,
    .frame (.continuation 1 (trailerBlock.drop 2) true) .ok true,
    .frame (.data 1 [3] false) .ok true]

def xField : Field := ⟨[0x78], [0x79], Header.indexWithout⟩

def statusField (value : Bytes) (indexing : Header.IndexingMode) : Field :=
  ⟨statusName, value, indexing⟩

theorem legal_of_orderly_responseRun :
    ∃ s, (system .new 8388608).run (system .new 8388608).init responseRun = some s ∧
      (s.stream 1).events =
        [.interimHeaders [statusField [0x31, 0x30, 0x33] Header.indexWithout] false,
          .headers [statusField [0x32, 0x30, 0x30] Header.indexIncremental] false,
          .data [1, 2] false, .trailers [xField] true, .reset streamClosed] ∧
      Legal (s.stream 1).events := by
  have hmeets : (system .new 8388608).RunMeets State.Orderly (system .new 8388608).init
      responseRun := by
    decide +kernel
  apply System.exists_run_known responseRun
  · intro s hs
    exact legal_of_orderly (System.reachableBy_run .init hmeets hs) 1
  · decide +kernel

/-- A complete response, and then trailers, while the upload is open. -/
def endedTwiceRun : List Op :=
  [.open false, .frame (.headers 1 okBlock true true) .ok true,
    .frame (.headers 1 trailerBlock true true) .ok true]

/-- The trailers are delivered after the end of the response. -/
theorem trailers_after_end :
    ∃ s, (system .new 8388608).Reachable s ∧
      (s.stream 1).events =
        [.headers [statusField [0x32, 0x30, 0x30] Header.indexIncremental] true,
          .trailers [xField] true] ∧
      ¬ Legal (s.stream 1).events := by
  have hrun : ∃ s, (system .new 8388608).Reachable s ∧ (s.stream 1).events =
      [.headers [statusField [0x32, 0x30, 0x30] Header.indexIncremental] true,
        .trailers [xField] true] := by
    apply System.exists_reachable endedTwiceRun
    decide +kernel
  rcases hrun with ⟨s, hs, hevents⟩
  refine ⟨s, hs, hevents, ?_⟩
  intro hlegal
  have horder := hlegal.order
  rw [hevents] at horder
  simp [MayFollow, StreamEvent.endStream, StreamEvent.isReset] at horder

end Conn.Handler
