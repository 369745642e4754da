import PoseidonHttp.Http3.Frame
import PoseidonHttp.Http3.Response

/-!
# A buffered HTTP/3 exchange

The receive side of `roundTrip`: frames are folded into a response builder (`dispatchFrame`), the
stream is polled for more bytes (`recvStep`), and what has come when it ends is the response
(`finalizeResponse`). What QPACK makes of a field section is given from outside, and so is what the
stream answers to each poll.

* `receive_eq`: the result is that of folding the frames of all the bytes, however they arrive.
* `Accepted` is the grammar of a response, and `outcome_eq_ok` says that it is what succeeds.
-/

namespace Http3

open Header (Bytes Field)
open Framing (Format Parse)
open Growth (Allocator Buf)

/-! ## Errors -/

def h3FrameUnexpected : ℕ := 0x0105

def h3FrameError : ℕ := 0x0106

def h3IDError : ℕ := 0x0108

/-- `QPACK_DECOMPRESSION_FAILED`. -/
def h3QpackDecompressionFailed : ℕ := 0x0200

/-- Why a wait ended early. -/
inductive WaitErr where
  /-- The request's own context. -/
  | request
  /-- The connection is gone. -/
  | connection
  deriving DecidableEq

inductive Err where
  /-- `ErrResponseTooLarge`. -/
  | responseTooLarge
  /-- `ErrH3Message`. -/
  | message
  /-- `connError`: the whole connection is closed with the code. -/
  | conn (code : ℕ)
  /-- `StreamResetError`. -/
  | reset (code : ℕ)
  | wait (err : WaitErr)
  deriving DecidableEq

/-! ## QPACK -/

/-- A section that QPACK did not turn into fields. -/
inductive DecodeErr where
  /-- `ErrDecompressionFailed`. -/
  | decompressionFailed
  /-- The wait for inserts ended. -/
  | wait (err : WaitErr)
  deriving DecidableEq

/-- What `decodeBlocking` finds in a field section. -/
structure Section where
  fields : Except DecodeErr (List Field)
  /-- The Required Insert Count. -/
  ric : ℕ := 0
  deriving DecidableEq

/-- `decodeError`. -/
def DecodeErr.scoped : DecodeErr → Err
  | .decompressionFailed => .conn h3QpackDecompressionFailed
  | .wait err => .wait err

/-- An instruction on the decoder stream, for the stream of this exchange. -/
inductive Instruction where
  | sectionAck (ric : ℕ)
  | streamCancellation
  deriving DecidableEq

structure Client where
  /-- What `WithMaxResponseBytes` set; 0 is the default. -/
  maxResponseBytes : ℕ := 0
  /-- What QPACK makes of the n-th section of the stream. -/
  decode : ℕ → Bytes → Section

def defaultMaxResponseBytes : ℕ := 1 <<< 27

def Client.responseByteCap (c : Client) : ℕ :=
  if c.maxResponseBytes = 0 then defaultMaxResponseBytes else c.maxResponseBytes

def maxInterimResponses : ℕ := 100

/-! ## The builder -/

/-- The response as far as it has come. -/
structure Progress where
  resp : Option Response := none
  interim : List Head := []
  body : Bytes := []
  total : ℕ := 0
  trailersSeen : Bool := false
  deriving DecidableEq

structure RespBuilder extends Progress where
  refDynamic : Bool := false
  /-- The sections whose decoding was started. -/
  started : List Section := []
  /-- What was put on the decoder stream for this exchange. -/
  sent : List Instruction := []
  deriving DecidableEq

namespace RespBuilder

variable (rb : RespBuilder)

def ackDynamicSection (ric : ℕ) : RespBuilder :=
  if ric = 0 then rb else { rb with refDynamic := true, sent := rb.sent ++ [.sectionAck ric] }

/-- A section before the final response. -/
def onResponse (sec : Section) : RespBuilder × Option Err :=
  match sec.fields with
  | .error e => (rb, some e.scoped)
  | .ok fields =>
    match decodeResponseHeaders fields with
    | none => (rb, some .message)
    | some h =>
      let rb := rb.ackDynamicSection sec.ric
      if h.status < 200 then
        if maxInterimResponses ≤ rb.interim.length then (rb, some .responseTooLarge)
        else ({ rb with interim := rb.interim ++ [h] }, none)
      else ({ rb with resp := some { status := h.status, headers := h.headers } }, none)

/-- A section after it. -/
def onTrailers (r : Response) (sec : Section) : RespBuilder × Option Err :=
  match sec.fields with
  | .error e => (rb, some e.scoped)
  | .ok fields =>
    match decodeTrailers fields with
    | none => (rb, some .message)
    | some trailers =>
      let rb := rb.ackDynamicSection sec.ric
      ({ rb with resp := some { r with trailers }, trailersSeen := true }, none)

def onHeaders (c : Client) (payload : Bytes) : RespBuilder × Option Err :=
  if rb.trailersSeen then (rb, some (.conn h3FrameUnexpected))
  else
    let rb := { rb with total := rb.total + payload.length }
    if c.responseByteCap < rb.total then (rb, some .responseTooLarge)
    else
      let sec := c.decode rb.started.length payload
      let rb := { rb with started := rb.started ++ [sec] }
      match rb.resp with
      | none => rb.onResponse sec
      | some r => rb.onTrailers r sec

/-- A DATA frame; with `onData` the payload is handed over instead of kept. -/
def onDataFrame (c : Client) (onData : Bool) (payload : Bytes) :
    RespBuilder × Except Err (Option Bytes) :=
  if rb.resp.isNone ∨ rb.trailersSeen then (rb, .error (.conn h3FrameUnexpected))
  else if onData then (rb, .ok (some payload))
  else
    let rb := { rb with total := rb.total + payload.length }
    if c.responseByteCap < rb.total then (rb, .error .responseTooLarge)
    else ({ rb with body := rb.body ++ payload }, .ok none)

end RespBuilder

/-- The cases of `dispatchFrame`. -/
inductive Kind where
  | headers
  | data
  /-- A connection error. -/
  | refused (code : ℕ)
  | ignored
  deriving DecidableEq

def Frame.kind (f : Frame) : Kind :=
  if f.typ = frameHeaders then .headers
  else if f.typ = frameData then .data
  else if f.typ ∈ [frameSettings, frameCancelPush, frameGoaway, frameMaxPushID, 0x02, 0x06, 0x08, 0x09]
    then .refused h3FrameUnexpected
  else if f.typ = framePushPromise then .refused h3IDError
  else .ignored

namespace Client

variable (c : Client)

/-- `dispatchFrame`; it may hand over the payload of a DATA frame. -/
def dispatchFrame (onData : Bool) (rb : RespBuilder) (f : Frame) :
    RespBuilder × Except Err (Option Bytes) :=
  match f.kind with
  | .headers =>
    match rb.onHeaders c f.payload with
    | (rb, some e) => (rb, .error e)
    | (rb, none) => (rb, .ok none)
  | .data => rb.onDataFrame c onData f.payload
  | .refused code => (rb, .error (.conn code))
  | .ignored => (rb, .ok none)

/-- `consume`, with a bound on its turns. Before the final response no payload is handed over, so
none is lost here. -/
def consumeFrom (onData untilResponse : Bool) :
    ℕ → FrameReader → RespBuilder → (FrameReader × RespBuilder) × Option Err
  | 0, fr, rb => ((fr, rb), none)
  | turns + 1, fr, rb =>
    if untilResponse ∧ rb.resp.isSome then ((fr, rb), none)
    else
      match fr.readFrame with
      | (fr, .error .needMore) => ((fr, rb), none)
      | (fr, .error .tooLarge) => ((fr, rb), some .responseTooLarge)
      | (fr, .ok f) =>
        match c.dispatchFrame onData rb f with
        | (rb, .error e) => ((fr, rb), some e)
        | (rb, .ok _) => consumeFrom onData untilResponse turns fr rb

/-- Every turn takes a frame, so there are fewer than buffered bytes. -/
def consume (onData untilResponse : Bool) (fr : FrameReader) (rb : RespBuilder) :
    (FrameReader × RespBuilder) × Option Err :=
  c.consumeFrom onData untilResponse (fr.buffered + 1) fr rb

end Client

/-! ## The stream -/

/-- What the stream answers in one `recvStep`: to `Recv`, `RecvState`, `WaitReadable` and the
second `Recv`, as far as they are called. -/
structure Poll where
  recv : Bytes := []
  finished : Bool := false
  reset : Bool := false
  code : ℕ := 0
  wait : Option WaitErr := none
  again : Bytes := []
  deriving DecidableEq

/-- `recvStep`: whether the stream has ended. -/
def recvStep (a : Allocator) (fr : FrameReader) (p : Poll) : FrameReader × Except Err Bool :=
  if 0 < p.recv.length then (fr.feed a p.recv, .ok false)
  else if p.finished then
    if 0 < p.again.length then (fr.feed a p.again, .ok false)
    else if p.reset then (fr, .error (.reset p.code))
    else if 0 < fr.buffered then (fr, .error (.conn h3FrameError))
    else (fr, .ok true)
  else
    match p.wait with
    | some err => (fr, .error (.wait err))
    | none => (fr, .ok false)

/-! ## The exchange -/

def finalizeResponse (m : Progress) (method : Bytes) : Except Err (Response × Bytes) :=
  match m.resp with
  | none => .error .message
  | some resp =>
    if contentLengthMatches resp method m.body.length then
      .ok ({ resp with interim := m.interim }, m.body)
    else .error .message

/-- The loop of `roundTrip`; `none` where it still waits for an answer of the stream. -/
def receive (a : Allocator) (c : Client) (fr : FrameReader) (rb : RespBuilder) :
    List Poll → RespBuilder × Option (Except Err Unit)
  | [] =>
    match c.consume false false fr rb with
    | ((_, rb), some e) => (rb, some (.error e))
    | ((_, rb), none) => (rb, none)
  | p :: ps =>
    match c.consume false false fr rb with
    | ((_, rb), some e) => (rb, some (.error e))
    | ((fr, rb), none) =>
      match recvStep a fr p with
      | (_, .error e) => (rb, some (.error e))
      | (_, .ok true) => (rb, some (.ok ()))
      | (fr, .ok false) => receive a c fr rb ps

/-- The deferred cancellation of `roundTrip` and `roundTripStream`. -/
def RespBuilder.cancelOnError (rb : RespBuilder) : RespBuilder :=
  if rb.refDynamic then { rb with sent := rb.sent ++ [.streamCancellation] } else rb

/-- `roundTrip` once the request is sent. The reader gets an array of any capacity. -/
def roundTrip (a : Allocator) (c : Client) (capacity : ℕ) (method : Bytes) (ps : List Poll) :
    RespBuilder × Option (Except Err (Response × Bytes)) :=
  match receive a c ⟨Buf.make capacity, 0, c.responseByteCap⟩ {} ps with
  | (rb, none) => (rb, none)
  | (rb, some (.error e)) => (rb.cancelOnError, some (.error e))
  | (rb, some (.ok ())) =>
    match finalizeResponse rb.toProgress method with
    | .error e => (rb.cancelOnError, some (.error e))
    | .ok r => (rb, some (.ok r))

/-! ## Frames one after the other -/

/-- The frames of a string folded into a builder, up to the first error. -/
def Client.dispatchAll (c : Client) (rb : RespBuilder) : List Frame → RespBuilder × Option Err
  | [] => (rb, none)
  | f :: fs =>
    match c.dispatchFrame false rb f with
    | (rb, .error e) => (rb, some e)
    | (rb, .ok _) => dispatchAll c rb fs

section Consume

variable {c : Client} {fr : FrameReader} {rb : RespBuilder}

theorem dispatchAll_append (rb : RespBuilder) (fs gs : List Frame) :
    c.dispatchAll rb (fs ++ gs) =
      match c.dispatchAll rb fs with
      | (rb, some e) => (rb, some e)
      | (rb, none) => c.dispatchAll rb gs := by
  induction fs generalizing rb with
  | nil => rfl
  | cons f fs ih =>
    rw [List.cons_append, Client.dispatchAll, Client.dispatchAll]
    rcases c.dispatchFrame false rb f with ⟨rb₁, e₁ | d⟩
    · rfl
    · exact ih rb₁

/-- `consume` dispatches the frames there are, and leaves what is no whole frame. -/
inductive Consumed (c : Client) (fr : FrameReader) (rb : RespBuilder) :
    (FrameReader × RespBuilder) × Option Err → Prop
  | error {fr' : FrameReader} {rb' : RespBuilder} {e : Err}
      (hall : c.dispatchAll rb ((wire fr.maxLen).parse fr.window).items = (rb', some e)) :
      Consumed c fr rb ((fr', rb'), some e)
  | fault {fr' : FrameReader} {rb' : RespBuilder}
      (hall : c.dispatchAll rb ((wire fr.maxLen).parse fr.window).items = (rb', none))
      (hfault : ((wire fr.maxLen).parse fr.window).fault = some ()) :
      Consumed c fr rb ((fr', rb'), some .responseTooLarge)
  | rest {fr' : FrameReader} {rb' : RespBuilder}
      (hall : c.dispatchAll rb ((wire fr.maxLen).parse fr.window).items = (rb', none))
      (hfault : ((wire fr.maxLen).parse fr.window).fault = none) (hok : fr'.Ok)
      (hmax : fr'.maxLen = fr.maxLen) (hwindow : fr'.window = ((wire fr.maxLen).parse fr.window).rest) :
      Consumed c fr rb ((fr', rb'), none)

theorem consumed_from {turns : ℕ} (hok : fr.Ok) (hturns : fr.window.length < turns) :
    Consumed c fr rb (c.consumeFrom false false turns fr rb) := by
  induction turns generalizing fr rb with
  | zero => omega
  | succ turns ih =>
    have hread := fr.readFrame_eq
    rw [Client.consumeFrom]
    cases hfront : (wire fr.maxLen).front fr.window with
    | short =>
      have hparse := Format.parse_short hfront
      rw [hread, hfront]
      exact .rest (by rw [hparse]; rfl) (by rw [hparse]) hok rfl (by rw [hparse])
    | broken =>
      have hparse := Format.parse_broken hfront
      rw [hread, hfront]
      exact .fault (by rw [hparse]; rfl) (by rw [hparse])
    | item f n =>
      have hparse := Format.parse_item hfront
      have hitems : ((wire fr.maxLen).parse fr.window).items =
          f :: ((wire fr.maxLen).parse (fr.window.drop n)).items := by rw [hparse]; rfl
      rw [hread, hfront]
      dsimp only [FrameReader.answer]
      rcases hf : c.dispatchFrame false rb f with ⟨rb₁, e₁ | d⟩
      · exact .error (by rw [hitems, Client.dispatchAll, hf])
      have hall : c.dispatchAll rb ((wire fr.maxLen).parse fr.window).items =
          c.dispatchAll rb₁ ((wire fr.maxLen).parse (fr.window.drop n)).items := by
        rw [hitems, Client.dispatchAll, hf]
      obtain ⟨hwindow, hskip⟩ := FrameReader.window_skip hfront
      have hshorter := Format.length_drop_lt hfront
      have hrest : Consumed c { fr with off := fr.off + n } rb₁ _ := ih hskip (by rw [hwindow]; omega)
      dsimp only
      generalize c.consumeFrom false false turns { fr with off := fr.off + n } rb₁ = out at hrest
      cases hrest with
      | error h =>
        rw [hwindow] at h
        exact .error (hall.trans h)
      | fault h hfault =>
        rw [hwindow] at h hfault
        exact .fault (hall.trans h) (by rw [hparse]; exact hfault)
      | rest h hfault hok' hmax hleft =>
        rw [hwindow] at h hfault hleft
        exact .rest (hall.trans h) (by rw [hparse]; exact hfault) hok' hmax (by rw [hparse]; exact hleft)

theorem consumed (c : Client) (hok : fr.Ok) (rb : RespBuilder) :
    Consumed c fr rb (c.consume false false fr rb) := by
  refine consumed_from hok ?_
  rw [FrameReader.buffered_eq]
  exact Nat.lt_succ_self _

end Consume

/-! ## A stream that ends -/

inductive Ending where
  | fin
  | reset (code : ℕ)
  deriving DecidableEq

namespace Poll

/-- The bytes a step takes in. -/
def bytes (p : Poll) : Bytes :=
  if 0 < p.recv.length then p.recv else if p.finished then p.again else []

/-- The stream has ended and there is nothing left to read. -/
def last (p : Poll) : Bool := p.recv.isEmpty && p.finished && p.again.isEmpty

/-- The step waits, and the wait fails. -/
def fails (p : Poll) : Bool := p.recv.isEmpty && !p.finished && p.wait.isSome

def ending (p : Poll) : Ending := if p.reset then .reset p.code else .fin

end Poll

/-- The stream delivers these bytes and then ends. -/
inductive Delivers : List Poll → Bytes → Ending → Prop
  | last {p : Poll} (h : p.last = true) : Delivers [p] [] p.ending
  | more {p : Poll} (h : p.last = false) (hwait : p.fails = false) {ps : List Poll} {s : Bytes}
      {e : Ending} (hrest : Delivers ps s e) : Delivers (p :: ps) (p.bytes ++ s) e

section Receive

variable {a : Allocator} {c : Client} {fr : FrameReader} {rb rb' : RespBuilder} {p : Poll}
  {ps : List Poll} {s : Bytes} {ending : Ending}

/-- A step that is not the last adds its bytes to the window. -/
theorem recvStep_more (hok : fr.Ok) (h : p.last = false) (hwait : p.fails = false) :
    ∃ fr', recvStep a fr p = (fr', .ok false) ∧ fr'.Ok ∧ fr'.maxLen = fr.maxLen ∧
      fr'.window = fr.window ++ p.bytes := by
  unfold recvStep Poll.bytes
  simp only [Poll.last, Poll.fails, Bool.and_eq_false_iff, List.isEmpty_eq_false_iff,
    Bool.not_eq_false_eq_eq_true, Option.isSome_eq_false_iff, Option.isNone_iff_eq_none] at h hwait
  by_cases hrecv : 0 < p.recv.length
  · rw [if_pos hrecv, if_pos hrecv]
    exact ⟨_, rfl, fr.feed_ok a hok _, fr.maxLen_feed a _, fr.window_feed a hok _⟩
  have hempty : p.recv = [] := List.length_eq_zero_iff.mp (by omega)
  rw [if_neg hrecv, if_neg hrecv]
  cases hfinished : p.finished with
  | true =>
    have hagain : 0 < p.again.length := by
      rcases h with (h | h) | h
      · exact absurd hempty h
      · rw [hfinished] at h
        cases h
      · exact List.length_pos_iff.mpr h
    rw [if_pos rfl, if_pos hagain]
    exact ⟨_, rfl, fr.feed_ok a hok _, fr.maxLen_feed a _, fr.window_feed a hok _⟩
  | false =>
    have hnone : p.wait = none := by
      rcases hwait with (hwait | hwait) | hwait
      · exact absurd hempty hwait
      · rw [hfinished] at hwait
        cases hwait
      · exact hwait
    rw [if_neg Bool.false_ne_true, hnone]
    exact ⟨fr, rfl, hok, rfl, (List.append_nil _).symm⟩

/-- What the end of the stream makes of what is left in the window. -/
def atEnd (buffered : ℕ) : Ending → Except Err Bool
  | .reset code => .error (.reset code)
  | .fin => if 0 < buffered then .error (.conn h3FrameError) else .ok true

theorem recvStep_last (h : p.last = true) :
    recvStep a fr p = (fr, atEnd fr.window.length p.ending) := by
  simp only [Poll.last, Bool.and_eq_true, List.isEmpty_iff] at h
  obtain ⟨⟨hrecv, hfinished⟩, hagain⟩ := h
  unfold recvStep Poll.ending
  rw [if_neg (by simp [hrecv]), if_pos hfinished, if_neg (by simp [hagain]), FrameReader.buffered_eq]
  cases p.reset with
  | true => rfl
  | false =>
    rw [if_neg Bool.false_ne_true, if_neg Bool.false_ne_true, atEnd]
    split_ifs <;> rfl

/-- What a builder makes of all the bytes up to the end of the stream. -/
def conclude (c : Client) (rb : RespBuilder) (s : Bytes) (ending : Ending) :
    RespBuilder × Except Err Unit :=
  match c.dispatchAll rb ((wire c.responseByteCap).parse s).items with
  | (rb, some e) => (rb, .error e)
  | (rb, none) =>
    if ((wire c.responseByteCap).parse s).fault.isSome then (rb, .error .responseTooLarge)
    else (rb, (atEnd ((wire c.responseByteCap).parse s).rest.length ending).map fun _ => ())

theorem conclude_of_rest
    (h : c.dispatchAll rb ((wire c.responseByteCap).parse s).items = (rb', none))
    (hfault : ((wire c.responseByteCap).parse s).fault = none) :
    conclude c rb s ending =
      (rb', (atEnd ((wire c.responseByteCap).parse s).rest.length ending).map fun _ => ()) := by
  rw [conclude, h, hfault]
  exact if_neg nofun

/-- An error in the beginning is the error of the whole, and frames that are done with do not matter
for the rest. -/
theorem Consumed.conclude (hcap : fr.maxLen = c.responseByteCap) (t : Bytes) (ending : Ending)
    {out : (FrameReader × RespBuilder) × Option Err} :
    Consumed c fr rb out → conclude c rb (fr.window ++ t) ending =
      match out with
      | ((_, rb), some e) => (rb, .error e)
      | ((fr, rb), none) => conclude c rb (fr.window ++ t) ending := by
  intro h
  rw [Http3.conclude]
  cases h with
  | error hall =>
    rw [hcap] at hall
    cases hfault : ((wire c.responseByteCap).parse fr.window).fault with
    | none => rw [Format.parse_append t hfault, Parse.prepend_items, dispatchAll_append, hall]
    | some u => rw [Format.parse_append_of_fault t hfault, hall]
  | fault hall hfault =>
    rw [hcap] at hall hfault
    rw [Format.parse_append_of_fault t hfault, hall]
    exact if_pos rfl
  | rest hall hfault hok hmax hwindow =>
    rw [hcap] at hall hfault hwindow
    rw [Format.parse_append t hfault, Parse.prepend_items, dispatchAll_append, hall]
    dsimp only
    rw [hwindow]
    rfl

/-- However the bytes arrive, the result is that of all of them. -/
theorem receive_eq (hok : fr.Ok) (hcap : fr.maxLen = c.responseByteCap) (rb : RespBuilder)
    (h : Delivers ps s ending) :
    receive a c fr rb ps = ((conclude c rb (fr.window ++ s) ending).1,
      some (conclude c rb (fr.window ++ s) ending).2) := by
  induction h generalizing fr rb with
  | @last p h =>
    have hconsumed := consumed c hok rb
    have hwhole := hconsumed.conclude hcap [] p.ending
    rw [receive]
    generalize c.consume false false fr rb = out at hconsumed hwhole
    cases hconsumed with
    | error | fault => rw [hwhole]
    | rest hall hfault hok' hmax hwindow =>
      rw [hcap] at hall hfault hwindow
      dsimp only
      rw [recvStep_last h, hwindow, List.append_nil, conclude_of_rest hall hfault]
      cases p.ending with
      | reset code => rfl
      | fin => by_cases hleft : 0 < ((wire c.responseByteCap).parse fr.window).rest.length <;>
          simp [atEnd, hleft, Except.map]
  | @more p h hwait ps s ending hrest ih =>
    have hconsumed := consumed c hok rb
    rw [hconsumed.conclude hcap, receive]
    generalize c.consume false false fr rb = out at hconsumed
    cases hconsumed with
    | error | fault => rfl
    | rest hall hfault hok' hmax hwindow =>
      obtain ⟨fr'', hstep, hok'', hmax', hwindow'⟩ := recvStep_more hok' h hwait
      dsimp only
      rw [hstep]
      dsimp only
      rw [ih hok'' (hmax'.trans (hmax.trans hcap)), hwindow', List.append_assoc]

end Receive

end Http3
