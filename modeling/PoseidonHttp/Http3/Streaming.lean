import PoseidonHttp.Http3.Grammar

/-!
# A streaming HTTP/3 exchange

`stream_body.go`: `roundTripStream` reads up to the final section, and `BodyReader.Next` hands out
the DATA frames one by one, then the trailers or the end. It shares `dispatchFrame` and `recvStep`
with the buffered exchange, but it takes the trailers for the end of the stream and looks at
nothing behind them.

* `trailers_hide_error`: a response that `Do` refuses because of a frame after its trailers is read
  to a clean end by `Next`.
* `streaming_agrees_iff`: the two agree exactly where only unknown frames and FIN follow a response
  with trailers.
-/

namespace Http3

open Header (Bytes Field ascii)
open Framing (Format Parse)
open Growth (Allocator Buf)
open Http3.Client (fixed)
open FrameReader (window_skip)

/-! ## The head -/

/-- The loop of `roundTripStream`: the reader and the builder when the final section has come. -/
def receiveHead (a : Allocator) (c : Client) (fr : FrameReader) (rb : RespBuilder) :
    List Poll → RespBuilder × Option (Except Err (FrameReader × List Poll))
  | [] =>
    match c.consume true true fr rb with
    | ((_, rb), some e) => (rb, some (.error e))
    | ((fr, rb), none) => if rb.resp.isSome then (rb, some (.ok (fr, []))) else (rb, none)
  | p :: ps =>
    match c.consume true true fr rb with
    | ((_, rb), some e) => (rb, some (.error e))
    | ((fr, rb), none) =>
      if rb.resp.isSome then (rb, some (.ok (fr, p :: ps)))
      else
        match recvStep a fr p with
        | (_, .error e) => (rb, some (.error e))
        -- the stream ended without a final response
        | (_, .ok true) => (rb, some (.error .message))
        | (fr, .ok false) => receiveHead a c fr rb ps

/-! ## The body -/

structure BodyReader where
  resp : Response
  fr : FrameReader
  rb : RespBuilder
  /-- The last DATA payload, until `Next` returns it. -/
  pending : Option Bytes := none
  bodyLen : ℕ := 0
  emittedTrailers : Bool := false
  done : Bool := false
  err : Option Err := none
  aborted : Bool := false

/-- `BodyEvent`. -/
inductive BodyEvent where
  | data (payload : Bytes)
  /-- The trailers, with `End`. -/
  | trailers (fields : List Field)
  /-- The end without trailers. -/
  | done
  deriving DecidableEq

/-- One turn of the loop of `Next`, up to where it asks the stream. -/
inductive Turn where
  | event (e : BodyEvent)
  | failed (e : Err)
  | refill
  | again
  deriving DecidableEq

namespace BodyReader

def abort (r : BodyReader) : BodyReader :=
  if r.aborted then r else { r with aborted := true, rb := r.rb.cancelOnError }

def fail (r : BodyReader) (e : Err) : BodyReader := { r with done := true, err := some e }.abort

def finish (r : BodyReader) (method : Bytes) : BodyReader × Option Err :=
  if contentLengthMatches r.resp method r.bodyLen then ({ r with done := true }, none)
  else (r.fail .message, some .message)

/-- `Trailers`; the response of the reader and that of its builder are one object. -/
def trailers (r : BodyReader) : List Field := (r.rb.resp.map Response.trailers).getD []

/-- `stashData`. -/
def stash (r : BodyReader) : Option Bytes → BodyReader
  | none => r
  | some payload => { r with pending := some payload, bodyLen := r.bodyLen + payload.length }

def turn (c : Client) (method : Bytes) (r : BodyReader) : BodyReader × Turn :=
  match r.pending with
  | some payload => ({ r with pending := none }, .event (.data payload))
  | none =>
    if r.rb.trailersSeen ∧ ¬ r.emittedTrailers then
      match { r with emittedTrailers := true }.finish method with
      | (r, some e) => (r, .failed e)
      | (r, none) => (r, .event (.trailers r.trailers))
    else if r.done then
      match r.err with
      | some e => (r, .failed e)
      | none => (r, .event .done)
    else
      match r.fr.readFrame with
      | (fr, .error .needMore) => ({ r with fr }, .refill)
      | (fr, .error .tooLarge) => ({ r with fr }.fail .responseTooLarge, .failed .responseTooLarge)
      | (fr, .ok f) =>
        match c.dispatchFrame true r.rb f with
        | (rb, .error e) => ({ r with fr, rb }.fail e, .failed e)
        | (rb, .ok payload) => ({ r with fr, rb }.stash payload, .again)

/-- `Next`, with a bound on the turns of its loop; `none` where it still waits for an answer of the
stream, or the bound is too low. -/
def next (a : Allocator) (c : Client) (method : Bytes) : ℕ → BodyReader → List Poll →
    (BodyReader × List Poll) × Option (Except Err BodyEvent)
  | 0, r, ps => ((r, ps), none)
  | turns + 1, r, ps =>
    match r.turn c method with
    | (r, .event e) => ((r, ps), some (.ok e))
    | (r, .failed e) => ((r, ps), some (.error e))
    | (r, .again) => next a c method turns r ps
    | (r, .refill) =>
      match ps with
      | [] => ((r, []), none)
      | p :: ps =>
        match recvStep a r.fr p with
        | (fr, .error e) => (({ r with fr }.fail e, ps), some (.error e))
        | (fr, .ok false) => next a c method turns { r with fr } ps
        | (fr, .ok true) =>
          match { r with fr }.finish method with
          | (r, some e) => ((r, ps), some (.error e))
          | (r, none) => ((r, ps), some (.ok .done))

/-- `Close`. -/
def close (r : BodyReader) : BodyReader :=
  if r.done ∧ r.err.isNone then r else { r with done := true }.abort

end BodyReader

/-- `roundTripStream` once the request is sent: the head and its reader. -/
def roundTripStream (a : Allocator) (c : Client) (ps : List Poll) :
    RespBuilder × Option (Except Err (BodyReader × List Poll)) :=
  match receiveHead a c ⟨Buf.make 0, 0, c.responseByteCap⟩ {} ps with
  | (rb, none) => (rb, none)
  | (rb, some (.error e)) => (rb.cancelOnError, some (.error e))
  | (rb, some (.ok (fr, ps))) =>
    match rb.resp with
    | none => (rb, none)
    | some resp => (rb, some (.ok (⟨{ resp with interim := rb.interim }, fr, rb, none, 0, false, false,
        none, false⟩, ps)))

/-- `Next` until it reports the end or an error: the chunks, and the trailers or the error. -/
inductive Reads (a : Allocator) (c : Client) (method : Bytes) :
    BodyReader → List Poll → List Bytes → Except Err (List Field) → Prop
  | data {r r' : BodyReader} {ps ps' : List Poll} {turns : ℕ} {d : Bytes} {ds : List Bytes}
      {result : Except Err (List Field)}
      (h : r.next a c method turns ps = ((r', ps'), some (.ok (.data d))))
      (hrest : Reads a c method r' ps' ds result) : Reads a c method r ps (d :: ds) result
  | trailers {r : BodyReader} {ps : List Poll} {turns : ℕ} {out : BodyReader × List Poll}
      {fields : List Field} (h : r.next a c method turns ps = (out, some (.ok (.trailers fields)))) :
      Reads a c method r ps [] (.ok fields)
  | done {r : BodyReader} {ps : List Poll} {turns : ℕ} {out : BodyReader × List Poll}
      (h : r.next a c method turns ps = (out, some (.ok .done))) : Reads a c method r ps [] (.ok [])
  | failed {r : BodyReader} {ps : List Poll} {turns : ℕ} {out : BodyReader × List Poll} {e : Err}
      (h : r.next a c method turns ps = (out, some (.error e))) : Reads a c method r ps [] (.error e)

/-- `DoStream`, and then `Next` until it reports the end or an error: the response and the chunks. -/
inductive Streams (a : Allocator) (c : Client) (method : Bytes) (ps : List Poll) :
    Except Err (Response × Bytes) → Prop
  | refused {e : Err} (h : (roundTripStream a c ps).2 = some (.error e)) :
      Streams a c method ps (.error e)
  | failed {r : BodyReader} {ps' : List Poll} {ds : List Bytes} {e : Err}
      (h : (roundTripStream a c ps).2 = some (.ok (r, ps')))
      (hreads : Reads a c method r ps' ds (.error e)) : Streams a c method ps (.error e)
  | ended {r : BodyReader} {ps' : List Poll} {ds : List Bytes} {trailers : List Field}
      (h : (roundTripStream a c ps).2 = some (.ok (r, ps')))
      (hreads : Reads a c method r ps' ds (.ok trailers)) :
      Streams a c method ps (.ok ({ r.resp with trailers }, ds.flatten))

/-! ## What the bytes amount to -/

namespace Progress

variable (cap : ℕ) (qpack : Bytes → Option (List Field))

/-- One frame, on the streaming path: DATA is handed over and not counted. -/
def takeStreamed (n : Progress) (f : Frame) : Except Err (Progress × Option Bytes) :=
  if f.kind = .data then
    if n.resp.isNone ∨ n.trailersSeen then .error (.conn h3FrameUnexpected)
    else .ok (n, some f.payload)
  else
    match n.take cap qpack f with
    | .error e => .error e
    | .ok n => .ok (n, none)

end Progress

/-- How the reading of a stream ends when its frames are done with. -/
def closing (p : Parse UInt8 Frame Unit) (ending : Ending) : Except Err Bool :=
  if p.fault.isSome then .error .responseTooLarge else atEnd p.rest.length ending

/-- The frames of a stream, up to the first trailers. -/
def streamed (cap : ℕ) (qpack : Bytes → Option (List Field)) (method : Bytes) (tail : Except Err Bool) :
    Progress → Bytes → List Frame → Except Err (Response × Bytes)
  | n, body, [] =>
    match tail with
    | .error e => .error e
    | .ok _ => finalizeResponse { n with body } method
  | n, body, f :: fs =>
    match n.takeStreamed cap qpack f with
    | .error e => .error e
    | .ok (n, d) =>
      if n.trailersSeen then finalizeResponse { n with body := body ++ d.getD [] } method
      else streamed cap qpack method tail n (body ++ d.getD []) fs

/-- The bytes of a stream. -/
def streamedBytes (cap : ℕ) (qpack : Bytes → Option (List Field)) (method : Bytes) (n : Progress)
    (body : Bytes) (s : Bytes) (ending : Ending) : Except Err (Response × Bytes) :=
  streamed cap qpack method (closing ((wire cap).parse s) ending) n body ((wire cap).parse s).items

section Streamed

variable {cap : ℕ} {qpack : Bytes → Option (List Field)} {method s t body : Bytes} {n n' : Progress}
  {f : Frame} {k : ℕ} {ending : Ending} {e : Err} {d : Option Bytes}

theorem streamedBytes_item (h : (wire cap).front s = .item f k) (t : Bytes) :
    streamedBytes cap qpack method n body (s ++ t) ending =
      match n.takeStreamed cap qpack f with
      | .error e => .error e
      | .ok (n, d) =>
        if n.trailersSeen then finalizeResponse { n with body := body ++ d.getD [] } method
        else streamedBytes cap qpack method n (body ++ d.getD []) (s.drop k ++ t) ending := by
  have hparse := Format.parse_item ((wire cap).item_append t h)
  rw [List.drop_append_of_le_length ((wire cap).size_le h)] at hparse
  rw [streamedBytes, hparse, Parse.prepend_items, List.singleton_append]
  rfl

theorem streamedBytes_broken (h : (wire cap).front s = .broken ()) (t : Bytes) :
    streamedBytes cap qpack method n body (s ++ t) ending = .error .responseTooLarge := by
  rw [streamedBytes, Format.parse_broken ((wire cap).broken_append t h)]
  rfl

theorem streamedBytes_short (h : (wire cap).front s = .short) :
    streamedBytes cap qpack method n body s ending =
      match atEnd s.length ending with
      | .error e => .error e
      | .ok _ => finalizeResponse { n with body } method := by
  rw [streamedBytes, Format.parse_short h]
  rfl

variable {maxResponseBytes : ℕ} {ric : Bytes → ℕ}

/-- The frames of a streaming exchange act on the response as `takeStreamed` says. -/
theorem takeStreamed_eq (rb : RespBuilder) (f : Frame) :
    rb.toProgress.takeStreamed (fixed maxResponseBytes qpack ric).responseByteCap qpack f =
      match (fixed maxResponseBytes qpack ric).dispatchFrame true rb f with
      | (rb, .ok d) => .ok (rb.toProgress, d)
      | (_, .error e) => .error e := by
  rw [Progress.takeStreamed, take_eq maxResponseBytes qpack ric, Client.dispatchFrame,
    Client.dispatchFrame]
  cases hkind : f.kind with
  | data =>
    rw [if_pos rfl]
    dsimp only [RespBuilder.onDataFrame]
    by_cases hplace : rb.resp.isNone = true ∨ rb.trailersSeen = true
    · rw [if_pos hplace, if_pos hplace]
    · rw [if_neg hplace, if_neg hplace, if_pos rfl]
  | headers =>
    rcases rb.onHeaders (fixed maxResponseBytes qpack ric) f.payload with ⟨rb', _ | e⟩
    · rfl
    · rfl
  | refused | ignored => rfl

end Streamed

/-! ## The reader follows the bytes -/

/-- The client dispatches frames as a fixed QPACK makes it. -/
def Follows (c : Client) (qpack : Bytes → Option (List Field)) : Prop :=
  ∀ (rb : RespBuilder) (f : Frame), rb.toProgress.takeStreamed c.responseByteCap qpack f =
    match c.dispatchFrame true rb f with
    | (rb, .ok d) => .ok (rb.toProgress, d)
    | (_, .error e) => .error e

/-- A reader in the middle of the body, of which it has seen `body`. -/
structure Reading (c : Client) (r : BodyReader) (body : Bytes) : Prop where
  pending : r.pending = none
  done : r.done = false
  seen : r.rb.trailersSeen = false
  ok : r.fr.Ok
  maxLen : r.fr.maxLen = c.responseByteCap
  bodyLen : r.bodyLen = body.length
  resp : ∃ resp, r.rb.resp = some resp ∧ resp.trailers = [] ∧
    r.resp = { resp with interim := r.rb.interim }
  emitted : r.emittedTrailers = false

/-- The response of a reader that came to an end. -/
def BodyReader.settle (r : BodyReader) (body : Bytes) (ds : List Bytes) :
    Except Err (List Field) → Except Err (Response × Bytes)
  | .error e => .error e
  | .ok trailers => .ok ({ r.resp with trailers }, body ++ ds.flatten)

section Reader

variable {a : Allocator} {c : Client} {qpack : Bytes → Option (List Field)} {method s body : Bytes}
  {r r' : BodyReader} {rb rb' : RespBuilder} {f : Frame} {k : ℕ} {ending : Ending} {e : Err}
  {ps : List Poll} {p : Poll} {ds : List Bytes} {result : Except Err (List Field)} {n' : Progress}
  {d : Option Bytes}

/-- The next frame: it is refused, and the bytes with it, or the bytes from there on are left. -/
theorem Follows.front (hc : Follows c qpack) {fr : FrameReader} (hmax : fr.maxLen = c.responseByteCap)
    (hfront : (wire c.responseByteCap).front fr.window = .item f k) (rb : RespBuilder) (method : Bytes) :
    (∃ rb' e, c.dispatchFrame true rb f = (rb', .error e) ∧ ∀ body t ending,
      streamedBytes c.responseByteCap qpack method rb.toProgress body (fr.window ++ t) ending =
        .error e) ∨
    ∃ rb' d, c.dispatchFrame true rb f = (rb', .ok d) ∧
      rb.toProgress.takeStreamed c.responseByteCap qpack f = .ok (rb'.toProgress, d) ∧
      ∀ body t ending,
        streamedBytes c.responseByteCap qpack method rb.toProgress body (fr.window ++ t) ending =
          if rb'.trailersSeen then
            finalizeResponse { rb'.toProgress with body := body ++ d.getD [] } method
          else streamedBytes c.responseByteCap qpack method rb'.toProgress (body ++ d.getD [])
            (FrameReader.window { fr with off := fr.off + k } ++ t) ending := by
  have hwindow := (window_skip (by rw [hmax]; exact hfront)).1
  have htake := hc rb f
  rcases hout : c.dispatchFrame true rb f with ⟨rb', e | d⟩
  · rw [hout] at htake
    refine .inl ⟨rb', e, rfl, ?_⟩
    intro body t ending
    rw [streamedBytes_item hfront, htake]
  · rw [hout] at htake
    refine .inr ⟨rb', d, rfl, htake, ?_⟩
    intro body t ending
    rw [streamedBytes_item hfront, htake, hwindow]

/-- A turn that only moves the reader on. -/
theorem Reads.of_next {ps' : List Poll}
    (hnext : ∀ turns, r.next a c method (turns + 1) ps = r'.next a c method turns ps')
    (hrest : Reads a c method r' ps' ds result) : Reads a c method r ps ds result := by
  cases hrest with
  | data hone hrest => exact .data ((hnext _).trans hone) hrest
  | trailers hone => exact .trailers ((hnext _).trans hone)
  | done hone => exact .done ((hnext _).trans hone)
  | failed hone => exact .failed ((hnext _).trans hone)

theorem Reads.again (h : r.turn c method = (r', .again)) (hrest : Reads a c method r' ps ds result) :
    Reads a c method r ps ds result := by
  refine .of_next ?_ hrest
  intro turns
  rw [BodyReader.next, h]

theorem Reads.chunk {x : Bytes} (h : r.turn c method = (r', .again)) (hx : r'.pending = some x)
    (hrest : Reads a c method { r' with pending := none } ps ds result) :
    Reads a c method r ps (x :: ds) result := by
  -- one turn to stash the payload, and one to return it
  have hnext : r.next a c method 2 ps = (({ r' with pending := none }, ps), some (.ok (.data x))) := by
    rw [BodyReader.next, h]
    dsimp only
    rw [BodyReader.next, BodyReader.turn, hx]
  exact .data hnext hrest

theorem Reads.refill {fr : FrameReader} (h : r.turn c method = (r', .refill))
    (hstep : recvStep a r'.fr p = (fr, .ok false))
    (hrest : Reads a c method { r' with fr } ps ds result) :
    Reads a c method r (p :: ps) ds result := by
  refine .of_next ?_ hrest
  intro turns
  rw [BodyReader.next, h]
  dsimp only
  rw [hstep]

theorem Reads.of_failed (h : r.turn c method = (r', .failed e)) :
    Reads a c method r ps [] (.error e) :=
  have hnext : r.next a c method 1 ps = ((r', ps), some (.error e)) := by rw [BodyReader.next, h]
  .failed hnext

/-- In the middle of the body a turn reads a frame. -/
theorem Reading.turn_eq (h : Reading c r body) (method : Bytes) :
    r.turn c method =
      match r.fr.readFrame with
      | (fr, .error .needMore) => ({ r with fr }, .refill)
      | (fr, .error .tooLarge) => ({ r with fr }.fail .responseTooLarge, .failed .responseTooLarge)
      | (fr, .ok f) =>
        match c.dispatchFrame true r.rb f with
        | (rb, .error e) => ({ r with fr, rb }.fail e, .failed e)
        | (rb, .ok payload) => ({ r with fr, rb }.stash payload, .again) := by
  rw [BodyReader.turn, h.pending]
  rw [if_neg (by simp [h.seen]), if_neg (by simp [h.done])]

variable {n : Progress} {resp : Response}

/-- What a frame that is taken can be. -/
theorem takeStreamed_eq_ok {cap : ℕ} (h : n.takeStreamed cap qpack f = .ok (n', d)) :
    (n.resp.isSome = true ∧ n' = n) ∨ (n' = n ∧ d = none) ∨
      (d = none ∧ n.trailersSeen = false ∧
        { n with total := n.total + f.payload.length }.takeSection qpack f.payload = .ok n') := by
  unfold Progress.takeStreamed at h
  split_ifs at h with hkind hplace
  · rw [not_or, Option.isNone_iff_eq_none] at hplace
    exact .inl ⟨Option.isSome_iff_ne_none.mpr hplace.1, (Prod.mk.inj (Except.ok.inj h)).1.symm⟩
  split at h
  · cases h
  · rename_i htake
    obtain ⟨rfl, rfl⟩ := Prod.mk.inj (Except.ok.inj h)
    cases hk : f.kind with
    | data => exact absurd hk hkind
    | refused code =>
      rw [Progress.take, hk] at htake
      cases htake
    | ignored =>
      rw [Progress.take, hk] at htake
      exact .inr (.inl ⟨(Except.ok.inj htake).symm, rfl⟩)
    | headers =>
      obtain ⟨hseen, -, hsection⟩ := (take_headers_eq_ok hk).mp htake
      exact .inr (.inr ⟨rfl, hseen, hsection⟩)

/-- A frame of the body leaves the response as it is, or it is the trailers. -/
theorem takeStreamed_body {cap : ℕ} (hresp : n.resp = some resp)
    (h : n.takeStreamed cap qpack f = .ok (n', d)) :
    n' = n ∨ d = none ∧ ∃ total trailers,
      n' = { n with total, resp := some { resp with trailers }, trailersSeen := true } := by
  rcases takeStreamed_eq_ok h with ⟨-, hsame⟩ | ⟨hsame, -⟩ | ⟨hd, -, hsection⟩
  · exact .inl hsame
  · exact .inl hsame
  · obtain ⟨trailers, -, rfl⟩ := (takeSection_trailers (by exact hresp)).mp hsection
    exact .inr ⟨hd, _, trailers, rfl⟩

/-- A frame before the body brings no payload and no trailers. -/
theorem takeStreamed_head {cap : ℕ} (hresp : n.resp = none)
    (hseen : n.trailersSeen = false) (h : n.takeStreamed cap qpack f = .ok (n', d)) :
    d = none ∧ n'.trailersSeen = false ∧ ∀ resp, n'.resp = some resp → resp.trailers = [] := by
  rcases takeStreamed_eq_ok h with ⟨hsome, -⟩ | ⟨rfl, hd⟩ | ⟨hd, -, hsection⟩
  · rw [hresp] at hsome
    cases hsome
  · refine ⟨hd, hseen, ?_⟩
    intro resp hr
    rw [hresp] at hr
    cases hr
  · obtain ⟨head, -, ⟨-, rfl⟩ | ⟨-, -, rfl⟩⟩ := (takeSection_response (by exact hresp)).mp hsection
    · refine ⟨hd, hseen, ?_⟩
      intro resp hr
      obtain rfl := Option.some.inj hr
      rfl
    · refine ⟨hd, hseen, ?_⟩
      intro resp hr
      rw [hresp] at hr
      cases hr

/-- The end of a response, as the reader and as the buffered exchange check it. -/
theorem finish_settles (method : Bytes) {trailers : List Field}
    (hn : n.resp = some { resp with trailers }) (hr : r.resp = { resp with interim := n.interim })
    (hlen : r.bodyLen = body.length) :
    (r.finish method = ({ r with done := true }, none) ∧
      finalizeResponse { n with body } method = r.settle body [] (.ok trailers)) ∨
    (r.finish method = (r.fail .message, some .message) ∧
      finalizeResponse { n with body } method = .error .message) := by
  have hsame : contentLengthMatches { resp with trailers } method body.length =
      contentLengthMatches r.resp method r.bodyLen := by
    rw [hr, hlen]
    rfl
  rw [finalizeResponse, BodyReader.finish, BodyReader.settle, List.flatten_nil, List.append_nil]
  rw [hn]
  dsimp only
  rw [hsame]
  split_ifs
  · exact .inl ⟨rfl, by rw [hr]⟩
  · exact .inr ⟨rfl, rfl⟩

/-- After the trailers `Next` ends, with them or with the failed check of the length. -/
theorem Reads.of_trailers (a : Allocator) (c : Client) (method : Bytes) (ps : List Poll)
    {trailers : List Field} (hpending : r.pending = none)
    (hseen : r.rb.trailersSeen = true) (hemitted : r.emittedTrailers = false)
    (hn : r.rb.resp = some { resp with trailers }) (hr : r.resp = { resp with interim := r.rb.interim })
    (hlen : r.bodyLen = body.length) :
    ∃ result, Reads a c method r ps [] result ∧
      finalizeResponse { r.rb.toProgress with body } method = r.settle body [] result := by
  have hturn : r.turn c method =
      match BodyReader.finish { r with emittedTrailers := true } method with
      | (r, some e) => (r, .failed e)
      | (r, none) => (r, .event (.trailers r.trailers)) := by
    rw [BodyReader.turn, hpending]
    rw [if_pos ⟨hseen, by simp [hemitted]⟩]
  rcases finish_settles (r := { r with emittedTrailers := true }) method hn hr hlen with
    ⟨hfinish, hfinal⟩ | ⟨hfinish, hfinal⟩
  · rw [hfinish] at hturn
    have htrailers : BodyReader.trailers { r with emittedTrailers := true, done := true } = trailers := by
      rw [BodyReader.trailers]
      rw [hn]
      rfl
    have hnext : r.next a c method 1 ps =
        (({ r with emittedTrailers := true, done := true }, ps), some (.ok (.trailers trailers))) := by
      rw [BodyReader.next, hturn, ← htrailers]
    exact ⟨.ok trailers, .trailers hnext, hfinal⟩
  · rw [hfinish] at hturn
    exact ⟨.error .message, .of_failed hturn, hfinal⟩

/-- The reader comes to an end, with what the bytes amount to. -/
def Settles (a : Allocator) (c : Client) (qpack : Bytes → Option (List Field)) (method : Bytes)
    (ps : List Poll) (s : Bytes) (ending : Ending) (r : BodyReader) (body : Bytes) : Prop :=
  ∃ ds result, Reads a c method r ps ds result ∧
    streamedBytes c.responseByteCap qpack method r.rb.toProgress body (r.fr.window ++ s) ending =
      r.settle body ds result

/-- The reader goes through the frames that are there, up to where it asks the stream. -/
theorem settles_of_short (hc : Follows c qpack)
    (hshort : ∀ r body, Reading c r body → (wire c.responseByteCap).front r.fr.window = .short →
      Settles a c qpack method ps s ending r body)
    (h : Reading c r body) : Settles a c qpack method ps s ending r body := by
  induction hlen : r.fr.window.length using Nat.strong_induction_on generalizing r body with
  | _ size ih =>
    have hread := r.fr.readFrame_eq
    have hturn := h.turn_eq method
    rw [hread, h.maxLen] at hturn
    cases hfront : (wire c.responseByteCap).front r.fr.window with
    | short => exact hshort r body h hfront
    | broken u =>
      rw [hfront] at hturn
      exact ⟨[], .error .responseTooLarge, .of_failed hturn, streamedBytes_broken hfront s⟩
    | item f k =>
      rw [hfront] at hturn
      dsimp only [FrameReader.answer] at hturn
      obtain ⟨hwindow, hok⟩ := window_skip (by rw [h.maxLen]; exact hfront)
      have hless := Format.length_drop_lt hfront
      rw [hlen, ← hwindow] at hless
      obtain ⟨resp, hresp, hnone, hhead⟩ := h.resp
      rcases hc.front h.maxLen hfront r.rb method with
        ⟨rb', e, hdispatch, hbytes⟩ | ⟨rb', d, hdispatch, htake, hbytes⟩
      · rw [hdispatch] at hturn
        exact ⟨[], .error e, .of_failed hturn, hbytes body s ending⟩
      rw [hdispatch] at hturn
      have hitem := hbytes body s ending
      rcases takeStreamed_body hresp htake with hsame | ⟨rfl, total, trailers, hlast⟩
      · have hreading : Reading c
            { r with fr := { r.fr with off := r.fr.off + k }, rb := rb' } body :=
          { h with ok := hok, seen := hsame ▸ h.seen, resp := hsame ▸ h.resp }
        rw [if_neg (by rw [hreading.seen]; exact Bool.false_ne_true)] at hitem
        cases d with
        | none =>
          obtain ⟨ds, result, hreads, hsettle⟩ := ih _ hless hreading rfl
          rw [Option.getD_none, List.append_nil] at hitem
          exact ⟨ds, result, .again hturn hreads, hitem.trans hsettle⟩
        | some x =>
          have hreading : Reading c
              { r with
                fr := { r.fr with off := r.fr.off + k }, rb := rb', pending := none,
                bodyLen := r.bodyLen + x.length } (body ++ x) :=
            { hreading with pending := rfl, bodyLen := by rw [List.length_append, ← h.bodyLen] }
          obtain ⟨ds, result, hreads, hsettle⟩ := ih _ hless hreading rfl
          refine ⟨x :: ds, result, .chunk hturn rfl hreads, ?_⟩
          rw [hitem, Option.getD_some, hsettle]
          cases result with
          | error e => rfl
          | ok trailers =>
            rw [BodyReader.settle, BodyReader.settle, List.flatten_cons, List.append_assoc]
      · have hinterim : rb'.interim = r.rb.interim := by rw [hlast]
        have hseen : rb'.trailersSeen = true := by rw [hlast]
        rw [if_pos hseen, Option.getD_none, List.append_nil] at hitem
        have hresp' : rb'.resp = some { resp with trailers } := by rw [hlast]
        have hhead' : r.resp = { resp with interim := rb'.interim } := by rw [hinterim, hhead]
        obtain ⟨result, hreads, hsettle⟩ := Reads.of_trailers a c method ps
          (r := { r with fr := { r.fr with off := r.fr.off + k }, rb := rb' })
          h.pending hseen h.emitted hresp' hhead' h.bodyLen
        exact ⟨[], result, .again hturn hreads, hitem.trans hsettle⟩

theorem atEnd_eq_ok {buffered : ℕ} {ended : Bool} (h : atEnd buffered ending = .ok ended) :
    ended = true := by
  cases ending with
  | reset code => cases h
  | fin =>
    rw [atEnd] at h
    split_ifs at h
    exact (Except.ok.inj h).symm

/-- The end of the stream, in the middle of the body and with no whole frame left. -/
theorem settles_last (h : Reading c r body) (hlast : p.last = true)
    (hfront : (wire c.responseByteCap).front r.fr.window = .short) :
    Settles a c qpack method [p] [] p.ending r body := by
  have hturn := h.turn_eq method
  rw [r.fr.readFrame_eq, h.maxLen, hfront] at hturn
  have hnext (turns : ℕ) : r.next a c method (turns + 1) [p] =
      match recvStep a r.fr p with
      | (fr, .error e) => ((BodyReader.fail { r with fr } e, []), some (.error e))
      | (fr, .ok false) => BodyReader.next a c method turns { r with fr } []
      | (fr, .ok true) =>
        match BodyReader.finish { r with fr } method with
        | (r, some e) => ((r, []), some (.error e))
        | (r, none) => ((r, []), some (.ok .done)) := by
    rw [BodyReader.next, hturn]
    rfl
  obtain ⟨resp, hresp, hnone, hhead⟩ := h.resp
  have hbytes : streamedBytes c.responseByteCap qpack method r.rb.toProgress body
      (r.fr.window ++ []) p.ending = _ := streamedBytes_short (by rw [List.append_nil]; exact hfront)
  rw [List.append_nil] at hbytes
  unfold Settles
  rw [List.append_nil, hbytes]
  have hone := hnext 0
  rw [recvStep_last hlast] at hone
  cases hend : atEnd r.fr.window.length p.ending with
  | error e =>
    rw [hend] at hone
    exact ⟨[], .error e, .failed hone, rfl⟩
  | ok ended =>
    obtain rfl := atEnd_eq_ok hend
    rw [hend] at hone
    have hresp' : r.rb.resp = some { resp with trailers := [] } := by rw [hresp, ← hnone]
    dsimp only at hone
    rcases finish_settles method hresp' hhead h.bodyLen with ⟨hfinish, hfinal⟩ | ⟨hfinish, hfinal⟩
    · rw [hfinish] at hone
      exact ⟨[], .ok [], .done hone, hfinal⟩
    · rw [hfinish] at hone
      exact ⟨[], .error .message, .failed hone, hfinal⟩

/-- However the bytes arrive, the reader comes to the end they amount to. -/
theorem settles (hc : Follows c qpack) (hd : Delivers ps s ending) (h : Reading c r body) :
    Settles a c qpack method ps s ending r body := by
  induction hd generalizing r body with
  | @last p hlast =>
    refine settles_of_short hc ?_ h
    intro r body h hfront
    exact settles_last h hlast hfront
  | @more p hmore hwait ps s ending hrest ih =>
    refine settles_of_short hc ?_ h
    intro r body h hfront
    have hturn := h.turn_eq method
    rw [r.fr.readFrame_eq, h.maxLen, hfront] at hturn
    obtain ⟨fr, hstep, hok, hmax, hwindow⟩ := recvStep_more h.ok hmore hwait
    have hreading : Reading c { r with fr } body := { h with ok := hok, maxLen := hmax.trans h.maxLen }
    obtain ⟨ds, result, hreads, hsettle⟩ := ih hreading
    refine ⟨ds, result, .refill hturn hstep hreads, ?_⟩
    rw [← List.append_assoc, ← hwindow]
    exact hsettle

end Reader

/-! ## The head follows them too -/

/-- The builder has no trailers yet. -/
def Open (rb : RespBuilder) : Prop :=
  rb.trailersSeen = false ∧ ∀ resp, rb.resp = some resp → resp.trailers = []

/-- `consume` up to the final section: what it makes of the frames there are. -/
inductive Headed (c : Client) (qpack : Bytes → Option (List Field)) (method : Bytes)
    (fr : FrameReader) (rb : RespBuilder) : (FrameReader × RespBuilder) × Option Err → Prop
  | error {fr' : FrameReader} {rb' : RespBuilder} {e : Err}
      (hbytes : ∀ t ending, streamedBytes c.responseByteCap qpack method rb.toProgress []
        (fr.window ++ t) ending = .error e) : Headed c qpack method fr rb ((fr', rb'), some e)
  | rest {fr' : FrameReader} {rb' : RespBuilder} (hopen : Open rb') (hok : fr'.Ok)
      (hmax : fr'.maxLen = c.responseByteCap)
      (hstop : rb'.resp = none → (wire c.responseByteCap).front fr'.window = .short)
      (hbytes : ∀ t ending, streamedBytes c.responseByteCap qpack method rb.toProgress []
          (fr.window ++ t) ending =
        streamedBytes c.responseByteCap qpack method rb'.toProgress [] (fr'.window ++ t) ending) :
      Headed c qpack method fr rb ((fr', rb'), none)

section Head

variable {a : Allocator} {c : Client} {qpack : Bytes → Option (List Field)} {method s : Bytes}
  {fr : FrameReader} {rb : RespBuilder} {ps : List Poll} {ending : Ending}

theorem headed_from (hc : Follows c qpack) {turns : ℕ} (hok : fr.Ok)
    (hmax : fr.maxLen = c.responseByteCap) (hopen : Open rb) (hturns : fr.window.length < turns) :
    Headed c qpack method fr rb (c.consumeFrom true true turns fr rb) := by
  induction turns generalizing fr rb with
  | zero => omega
  | succ turns ih =>
    rw [Client.consumeFrom]
    by_cases hsome : rb.resp.isSome = true
    · rw [if_pos ⟨rfl, hsome⟩]
      refine .rest hopen hok hmax ?_ fun _ _ => rfl
      intro hnone
      rw [hnone] at hsome
      cases hsome
    · rw [if_neg fun h => hsome h.2]
      have hresp : rb.resp = none := by simpa using hsome
      rw [fr.readFrame_eq, hmax]
      cases hfront : (wire c.responseByteCap).front fr.window with
      | short => exact .rest hopen hok hmax (fun _ => hfront) fun _ _ => rfl
      | broken u => exact .error fun t _ => streamedBytes_broken hfront t
      | item f n =>
        dsimp only [FrameReader.answer]
        obtain ⟨hwindow, hskip⟩ := window_skip (by rw [hmax]; exact hfront)
        have hless := Format.length_drop_lt hfront
        rcases hc.front hmax hfront rb method with
          ⟨rb', e, hdispatch, hbytes⟩ | ⟨rb', d, hdispatch, htake, hbytes⟩
        · rw [hdispatch]
          exact .error (hbytes [])
        obtain ⟨rfl, hseen, hopen'⟩ := takeStreamed_head hresp hopen.1 htake
        rw [hdispatch]
        dsimp only
        have hgo (t : Bytes) (ending : Ending) :
            streamedBytes c.responseByteCap qpack method rb.toProgress [] (fr.window ++ t) ending =
              streamedBytes c.responseByteCap qpack method rb'.toProgress []
                (FrameReader.window { fr with off := fr.off + n } ++ t) ending := by
          rw [hbytes, if_neg (by rw [hseen]; exact Bool.false_ne_true)]
          rfl
        have hrest : Headed c qpack method { fr with off := fr.off + n } rb' _ :=
          ih hskip hmax ⟨hseen, hopen'⟩ (by rw [hwindow]; omega)
        generalize c.consumeFrom true true turns { fr with off := fr.off + n } rb' = out at hrest ⊢
        cases hrest with
        | error hbytes => exact .error fun t ending => (hgo t ending).trans (hbytes t ending)
        | rest hopen hok hmax hstop hbytes =>
          exact .rest hopen hok hmax hstop fun t ending => (hgo t ending).trans (hbytes t ending)

theorem headed (hc : Follows c qpack) (hok : fr.Ok) (hmax : fr.maxLen = c.responseByteCap)
    (hopen : Open rb) : Headed c qpack method fr rb (c.consume true true fr rb) := by
  refine headed_from hc hok hmax hopen ?_
  rw [FrameReader.buffered_eq]
  exact Nat.lt_succ_self _

/-- The head: an error that is that of all the bytes, or a reader in front of the rest of them. -/
inductive Opened (c : Client) (qpack : Bytes → Option (List Field)) (method : Bytes)
    (n : Progress) (s : Bytes) (ending : Ending) :
    RespBuilder × Option (Except Err (FrameReader × List Poll)) → Prop
  | error {rb : RespBuilder} {e : Err}
      (hbytes : streamedBytes c.responseByteCap qpack method n [] s ending = .error e) :
      Opened c qpack method n s ending (rb, some (.error e))
  | head {rb : RespBuilder} {fr : FrameReader} {ps : List Poll} {resp : Response} {t : Bytes}
      (hopen : Open rb) (hresp : rb.resp = some resp) (hok : fr.Ok) (hmax : fr.maxLen = c.responseByteCap)
      (hdelivers : Delivers ps t ending)
      (hbytes : streamedBytes c.responseByteCap qpack method n [] s ending =
        streamedBytes c.responseByteCap qpack method rb.toProgress [] (fr.window ++ t) ending) :
      Opened c qpack method n s ending (rb, some (.ok (fr, ps)))

theorem opened (hc : Follows c qpack) (hd : Delivers ps s ending) (hok : fr.Ok)
    (hmax : fr.maxLen = c.responseByteCap) (hopen : Open rb) :
    Opened c qpack method rb.toProgress (fr.window ++ s) ending (receiveHead a c fr rb ps) := by
  induction hd generalizing fr rb with
  | @last p hlast =>
    have hhead : Headed c qpack method fr rb _ := headed hc hok hmax hopen
    rw [receiveHead]
    generalize c.consume true true fr rb = out at hhead
    cases hhead with
    | error hbytes => exact .error (hbytes [] p.ending)
    | @rest fr' rb' hopen' hok' hmax' hstop hbytes =>
      dsimp only
      cases hresp : rb'.resp with
      | some resp =>
        exact .head hopen' hresp hok' hmax' (.last hlast) (hbytes [] p.ending)
      | none =>
        rw [recvStep_last hlast]
        have hend := (hbytes [] p.ending).trans
          (streamedBytes_short (by rw [List.append_nil]; exact hstop hresp))
        rw [List.append_nil fr'.window] at hend
        cases hlast : atEnd fr'.window.length p.ending with
        | error e =>
          rw [hlast] at hend
          exact .error hend
        | ok ended =>
          obtain rfl := atEnd_eq_ok hlast
          rw [hlast] at hend
          -- no final response at the end of the stream
          have hnone : finalizeResponse { rb'.toProgress with body := [] } method = .error .message := by
            rw [finalizeResponse]
            rw [hresp]
          exact .error (hend.trans hnone)
  | @more p hmore hwait ps s ending hrest ih =>
    have hhead : Headed c qpack method fr rb _ := headed hc hok hmax hopen
    rw [receiveHead]
    generalize c.consume true true fr rb = out at hhead
    cases hhead with
    | error hbytes => exact .error (hbytes _ ending)
    | @rest fr' rb' hopen' hok' hmax' hstop hbytes =>
      dsimp only
      cases hresp : rb'.resp with
      | some resp =>
        exact .head hopen' hresp hok' hmax' (.more hmore hwait hrest) (hbytes _ ending)
      | none =>
        obtain ⟨fr'', hstep, hok'', hmax'', hwindow⟩ := recvStep_more hok' hmore hwait
        rw [hstep]
        have hnext := ih hok'' (hmax''.trans hmax') hopen'
        have hsame := hbytes (p.bytes ++ s) ending
        rw [← List.append_assoc fr'.window, ← hwindow] at hsame
        dsimp only
        generalize receiveHead a c fr'' rb' ps = out at hnext
        cases hnext with
        | error hbytes' => exact .error (hsame.trans hbytes')
        | head hopen₁ hresp₁ hok₁ hmax₁ hdelivers hbytes' =>
          exact .head hopen₁ hresp₁ hok₁ hmax₁ hdelivers (hsame.trans hbytes')

/-- However the bytes arrive, `DoStream` and `Next` come to the end they amount to. -/
theorem streams (hc : Follows c qpack) (hd : Delivers ps s ending) :
    Streams a c method ps (streamedBytes c.responseByteCap qpack method {} [] s ending) := by
  have hstart : FrameReader.Ok ⟨Buf.make 0, 0, c.responseByteCap⟩ := Nat.le_refl 0
  have hempty : Open {} := ⟨rfl, nofun⟩
  have hopened : Opened c qpack method {} ([] ++ s) ending
      (receiveHead a c ⟨Buf.make 0, 0, c.responseByteCap⟩ {} ps) := opened hc hd hstart rfl hempty
  rw [List.nil_append] at hopened
  generalize hout : receiveHead a c ⟨Buf.make 0, 0, c.responseByteCap⟩ {} ps = out at hopened
  cases hopened with
  | error hbytes =>
    rw [hbytes]
    exact .refused (by rw [roundTripStream, hout])
  | @head rb fr ps' resp t hopen hresp hok hmax hdelivers hbytes =>
    have htrip : (roundTripStream a c ps).2 = some (.ok (⟨{ resp with interim := rb.interim }, fr, rb,
        none, 0, false, false, none, false⟩, ps')) := by
      rw [roundTripStream, hout]
      dsimp only
      rw [hresp]
    have hreading : Reading c ⟨{ resp with interim := rb.interim }, fr, rb, none, 0, false, false, none,
        false⟩ [] :=
      ⟨rfl, rfl, hopen.1, hok, hmax, rfl, ⟨resp, hresp, hopen.2 resp hresp, rfl⟩, rfl⟩
    obtain ⟨ds, result, hreads, hsettle⟩ : Settles a c qpack method ps' t ending _ [] :=
      settles hc hdelivers hreading
    rw [hbytes, hsettle]
    cases result with
    | error e => exact .failed htrip hreads
    | ok trailers => exact .ended htrip hreads

end Head


/-! ## One result -/

section Unique

variable {a : Allocator} {c : Client} {method : Bytes} {r : BodyReader} {ps : List Poll}
  {out : BodyReader × List Poll} {e : Except Err BodyEvent} {turns : ℕ}

/-- More turns than `Next` needs do not matter. -/
theorem next_more (h : r.next a c method turns ps = (out, some e)) (more : ℕ) :
    r.next a c method (turns + more) ps = (out, some e) := by
  induction turns generalizing r ps with
  | zero =>
    cases (Prod.mk.inj h).2
  | succ turns ih =>
    rw [Nat.succ_add, BodyReader.next]
    rw [BodyReader.next] at h
    rcases hturn : r.turn c method with ⟨r', turn⟩
    rw [hturn] at h
    cases turn with
    | event | failed => exact h
    | again => exact ih h
    | refill =>
      cases ps with
      | nil => exact h
      | cons p ps =>
        dsimp only at h ⊢
        rcases hstep : recvStep a r'.fr p with ⟨fr, e | _ | _⟩
        · rw [hstep] at h
          exact h
        · rw [hstep] at h
          exact ih h
        · rw [hstep] at h
          exact h

theorem next_unique {out' : BodyReader × List Poll} {e' : Except Err BodyEvent} {turns' : ℕ}
    (h : r.next a c method turns ps = (out, some e))
    (h' : r.next a c method turns' ps = (out', some e')) : out = out' ∧ e = e' := by
  have hsame := (next_more h turns').symm.trans (Nat.add_comm turns' turns ▸ next_more h' turns)
  obtain ⟨hout, he⟩ := Prod.mk.inj hsame
  exact ⟨hout, Option.some.inj he⟩

/-- What the first call reports. -/
theorem Reads.first {ds : List Bytes} {result : Except Err (List Field)}
    (h : Reads a c method r ps ds result) :
    ∃ turns out e, r.next a c method turns ps = (out, some e) ∧
      match e with
      | .ok (.data d) => ∃ ds', ds = d :: ds' ∧ Reads a c method out.1 out.2 ds' result
      | .ok (.trailers fields) => ds = [] ∧ result = .ok fields
      | .ok .done => ds = [] ∧ result = .ok []
      | .error e => ds = [] ∧ result = .error e := by
  cases h with
  | data hone hrest => exact ⟨_, _, _, hone, _, rfl, hrest⟩
  | trailers hone | done hone | failed hone => exact ⟨_, _, _, hone, rfl, rfl⟩

theorem Reads.unique {ds ds' : List Bytes} {result result' : Except Err (List Field)}
    (h : Reads a c method r ps ds result) (h' : Reads a c method r ps ds' result') :
    ds = ds' ∧ result = result' := by
  induction h generalizing ds' with
  | data hone hrest ih =>
    obtain ⟨_, out, e, hone', hthen⟩ := h'.first
    obtain ⟨rfl, rfl⟩ := next_unique hone hone'
    obtain ⟨ds', rfl, hrest'⟩ := hthen
    obtain ⟨rfl, rfl⟩ := ih hrest'
    exact ⟨rfl, rfl⟩
  | trailers hone | done hone | failed hone =>
    obtain ⟨_, out, e, hone', hthen⟩ := h'.first
    obtain ⟨rfl, rfl⟩ := next_unique hone hone'
    exact ⟨hthen.1.symm, hthen.2.symm⟩

/-- What `DoStream` returns decides what follows. -/
theorem Streams.first {result : Except Err (Response × Bytes)} (h : Streams a c method ps result) :
    ∃ opened, (roundTripStream a c ps).2 = some opened ∧
      match opened with
      | .error e => result = .error e
      | .ok (r, ps') => ∃ ds res, Reads a c method r ps' ds res ∧ result = r.settle [] ds res := by
  cases h with
  | refused htrip => exact ⟨_, htrip, rfl⟩
  | failed htrip hreads | ended htrip hreads => exact ⟨_, htrip, _, _, hreads, rfl⟩

theorem Streams.unique {result result' : Except Err (Response × Bytes)}
    (h : Streams a c method ps result) (h' : Streams a c method ps result') : result = result' := by
  obtain ⟨opened, htrip, hthen⟩ := h.first
  obtain ⟨opened', htrip', hthen'⟩ := h'.first
  obtain rfl := Option.some.inj (htrip.symm.trans htrip')
  rcases opened with e | ⟨r, ps'⟩
  · exact hthen.trans hthen'.symm
  · obtain ⟨ds, res, hreads, rfl⟩ := hthen
    obtain ⟨ds', res', hreads', rfl⟩ := hthen'
    obtain ⟨rfl, rfl⟩ := hreads.unique hreads'
    rfl

end Unique

/-! ## Against the buffered exchange -/

/-- The streaming progress against the buffered one: the same, but DATA is neither kept nor counted. -/
structure Mirrors (n m : Progress) : Prop where
  resp : n.resp = m.resp
  interim : n.interim = m.interim
  seen : n.trailersSeen = m.trailersSeen
  total : n.total ≤ m.total

section Mirror

variable {cap : ℕ} {qpack : Bytes → Option (List Field)} {method : Bytes} {n m m' : Progress}
  {f : Frame} {fs : List Frame} {x : Response × Bytes}

theorem Mirrors.finalize (h : Mirrors n m) :
    finalizeResponse { n with body := m.body } method = finalizeResponse m method := by
  rw [finalizeResponse, finalizeResponse]
  rw [h.resp, h.interim]

/-- A section does the same to both. -/
theorem Mirrors.takeSection (h : Mirrors n m) (payload : Bytes) :
    (∃ e, n.takeSection qpack payload = .error e ∧ m.takeSection qpack payload = .error e) ∨
      ∃ n' m', n.takeSection qpack payload = .ok n' ∧ m.takeSection qpack payload = .ok m' ∧
        Mirrors n' m' ∧ m'.body = m.body ∧ m'.total = m.total := by
  rw [Progress.takeSection, Progress.takeSection, h.resp]
  cases hq : qpack payload with
  | none => exact .inl ⟨_, rfl, rfl⟩
  | some fields =>
    cases hresp : m.resp with
    | none =>
      dsimp only [Progress.takeResponse]
      rw [h.interim]
      cases decodeResponseHeaders fields with
      | none => exact .inl ⟨_, rfl, rfl⟩
      | some head =>
        dsimp only
        split_ifs
        · exact .inr ⟨_, _, rfl, rfl, ⟨rfl, rfl, h.seen, h.total⟩, rfl, rfl⟩
        · exact .inl ⟨_, rfl, rfl⟩
        · exact .inr ⟨_, _, rfl, rfl, ⟨h.resp, rfl, h.seen, h.total⟩, rfl, rfl⟩
    | some r =>
      dsimp only [Progress.takeTrailers]
      cases decodeTrailers fields with
      | none => exact .inl ⟨_, rfl, rfl⟩
      | some trailers => exact .inr ⟨_, _, rfl, rfl, ⟨rfl, h.interim, rfl, h.total⟩, rfl, rfl⟩

/-- What a frame adds to the total. -/
def Frame.size (f : Frame) : ℕ := payloadSize (messageFrames [f])

theorem payloadSize_messageFrames_cons (f : Frame) (fs : List Frame) :
    payloadSize (messageFrames (f :: fs)) = f.size + payloadSize (messageFrames fs) := by
  rw [Frame.size, ← payloadSize_append, messageFrames, messageFrames, messageFrames,
    ← List.filter_append, List.singleton_append]

theorem size_of_counts (h : f.counts = true) : f.size = f.payload.length := by
  simp [Frame.size, messageFrames, h, payloadSize]

/-- A frame within the limit does the same to both. -/
theorem Mirrors.take (h : Mirrors n m) (qpack : Bytes → Option (List Field))
    (hcap : m.total + f.size ≤ cap) :
    (∃ e, n.takeStreamed cap qpack f = .error e ∧ m.take cap qpack f = .error e) ∨
      ∃ n' d m', n.takeStreamed cap qpack f = .ok (n', d) ∧ m.take cap qpack f = .ok m' ∧
        Mirrors n' m' ∧ m'.body = m.body ++ d.getD [] ∧ m'.total ≤ m.total + f.size := by
  have htotal := h.total
  rw [Progress.takeStreamed, Progress.take, Progress.take]
  cases hkind : f.kind with
  | refused code => exact .inl ⟨_, rfl, rfl⟩
  | ignored =>
    exact .inr ⟨n, none, m, rfl, rfl, h, (List.append_nil _).symm, Nat.le_add_right _ _⟩
  | data =>
    have hsize := size_of_counts (counts_iff.mpr (.inr hkind))
    rw [if_pos rfl]
    rw [h.resp, h.seen]
    dsimp only
    split_ifs
    · exact .inl ⟨_, rfl, rfl⟩
    · omega
    · exact .inr ⟨n, some f.payload, _, rfl, rfl, ⟨h.resp, h.interim, h.seen, by dsimp only; omega⟩, rfl,
        by dsimp only; omega⟩
  | headers =>
    have hsize := size_of_counts (counts_iff.mpr (.inl hkind))
    have hdata : Kind.headers ≠ Kind.data := by decide
    rw [if_neg hdata]
    dsimp only
    by_cases hseen : m.trailersSeen = true
    · rw [if_pos hseen, if_pos (h.seen.trans hseen)]
      exact .inl ⟨_, rfl, rfl⟩
    rw [if_neg hseen, if_neg (by rw [h.seen]; exact hseen), if_neg (by omega), if_neg (by omega)]
    have hadd : Mirrors { n with total := n.total + f.payload.length }
        { m with total := m.total + f.payload.length } :=
      ⟨h.resp, h.interim, h.seen, by dsimp only; omega⟩
    rcases hadd.takeSection f.payload with ⟨e, hn, hm⟩ | ⟨n', m', hn, hm, hmirror, hbody, hsum⟩
    · rw [hn, hm]
      exact .inl ⟨e, rfl, rfl⟩
    · rw [hn, hm]
      refine .inr ⟨n', none, m', rfl, rfl, hmirror, ?_, ?_⟩
      · rw [hbody, Option.getD_none, List.append_nil]
      · rw [hsum, hsize]

/-- After the trailers only unknown frames are taken. -/
theorem takeAll_seen (hseen : m.trailersSeen = true) :
    m.takeAll cap qpack fs = .ok m' ↔ m' = m ∧ ∀ f ∈ fs, f.kind = .ignored := by
  have hcounts : ∀ f ∈ messageFrames fs, f.counts = true := fun f hf => (List.mem_filter.mp hf).2
  rw [takeAll_eq_ok, takeAll_closed hseen hcounts, messageFrames, List.filter_eq_nil_iff]
  constructor
  · rintro ⟨hallowed, hnone, hm⟩
    refine ⟨hm, ?_⟩
    intro f hf
    cases hkind : f.kind with
    | ignored => rfl
    | refused code => exact absurd hkind (hallowed f hf code)
    | headers => exact absurd (counts_iff.mpr (.inl hkind)) (hnone f hf)
    | data => exact absurd (counts_iff.mpr (.inr hkind)) (hnone f hf)
  · rintro ⟨hm, hall⟩
    refine ⟨?_, ?_, hm⟩
    · intro f hf code hkind
      rw [hall f hf] at hkind
      cases hkind
    · intro f hf
      rw [counts_iff, hall f hf]
      simp

/-- A response that ends in trailers, whatever follows it, or one that has none and ends with the
stream. -/
def Concludes (cap : ℕ) (qpack : Bytes → Option (List Field)) (method : Bytes) (tail : Except Err Bool)
    (m : Progress) (fs : List Frame) (x : Response × Bytes) : Prop :=
  ∃ pre post m', fs = pre ++ post ∧ m.takeAll cap qpack pre = .ok m' ∧
    finalizeResponse m' method = .ok x ∧
    (m'.trailersSeen = true ∨ post = [] ∧ m'.trailersSeen = false ∧ tail.isOk = true)

variable {tail : Except Err Bool}

theorem concludes_nil (hseen : m.trailersSeen = false) :
    Concludes cap qpack method tail m [] x ↔
      tail.isOk = true ∧ finalizeResponse m method = .ok x := by
  constructor
  · rintro ⟨pre, post, m', hfs, hall, hfinal, hend⟩
    obtain ⟨rfl, rfl⟩ := List.append_eq_nil_iff.mp hfs.symm
    obtain rfl := Except.ok.inj hall
    rcases hend with hend | ⟨-, -, hend⟩
    · rw [hseen] at hend
      cases hend
    · exact ⟨hend, hfinal⟩
  · rintro ⟨hend, hfinal⟩
    exact ⟨[], [], m, rfl, rfl, hfinal, .inr ⟨rfl, hseen, hend⟩⟩

/-- The empty beginning is no response with trailers. -/
theorem concludes_cons (hseen : m.trailersSeen = false) :
    Concludes cap qpack method tail m (f :: fs) x ↔
      ∃ m₁, m.take cap qpack f = .ok m₁ ∧ Concludes cap qpack method tail m₁ fs x := by
  constructor
  · rintro ⟨pre, post, m', hfs, hall, hfinal, hend⟩
    cases pre with
    | nil =>
      obtain rfl := Except.ok.inj hall
      rcases hend with hend | ⟨rfl, -⟩
      · rw [hseen] at hend
        cases hend
      · cases hfs
    | cons g pre =>
      obtain ⟨rfl, rfl⟩ := List.cons.inj hfs
      obtain ⟨m₁, hf, hrest⟩ := takeAll_cons_eq_ok.mp hall
      exact ⟨m₁, hf, pre, post, m', rfl, hrest, hfinal, hend⟩
  · rintro ⟨m₁, hf, pre, post, m', rfl, hrest, hfinal, hend⟩
    exact ⟨f :: pre, post, m', rfl, takeAll_cons_eq_ok.mpr ⟨m₁, hf, hrest⟩, hfinal, hend⟩

theorem concludes_seen (hseen : m.trailersSeen = true) :
    Concludes cap qpack method tail m fs x ↔ finalizeResponse m method = .ok x := by
  constructor
  · rintro ⟨pre, post, m', -, hall, hfinal, -⟩
    obtain ⟨rfl, -⟩ := (takeAll_seen hseen).mp hall
    exact hfinal
  · intro hfinal
    exact ⟨[], fs, m, rfl, rfl, hfinal, .inl hseen⟩

/-- The streaming exchange succeeds with such a response. -/
theorem streamed_eq_ok (h : Mirrors n m) (hseen : m.trailersSeen = false)
    (hcap : m.total + payloadSize (messageFrames fs) ≤ cap) :
    streamed cap qpack method tail n m.body fs = .ok x ↔ Concludes cap qpack method tail m fs x := by
  induction fs generalizing n m with
  | nil =>
    rw [concludes_nil hseen, ← h.finalize]
    cases tail with
    | error e => exact ⟨nofun, fun h => nomatch h.1⟩
    | ok b => exact (and_iff_right rfl).symm
  | cons f fs ih =>
    rw [payloadSize_messageFrames_cons] at hcap
    have hone : m.total + f.size ≤ cap := by omega
    rw [concludes_cons hseen, streamed]
    rcases h.take qpack hone with ⟨e, hn, hm⟩ | ⟨n', d, m₁, hn, hm, hmirror, hbody, hsum⟩
    · rw [hn, hm]
      exact ⟨nofun, fun ⟨_, h, _⟩ => nomatch h⟩
    have hthen : (∃ m₂, m.take cap qpack f = .ok m₂ ∧ Concludes cap qpack method tail m₂ fs x) ↔
        Concludes cap qpack method tail m₁ fs x := by
      simp [hm]
    rw [hthen, hn]
    dsimp only
    rw [← hbody]
    by_cases hlast : m₁.trailersSeen = true
    · rw [if_pos (hmirror.seen.trans hlast), hmirror.finalize, concludes_seen hlast]
    · rw [if_neg (by rw [hmirror.seen]; exact hlast),
        ih hmirror (Bool.not_eq_true _ ▸ hlast) (by omega)]

/-- The number of HEADERS frames. -/
def sectionCount (fs : List Frame) : ℕ := fs.countP fun f => f.kind == .headers

theorem sectionCount_messageFrames (fs : List Frame) :
    sectionCount (messageFrames fs) = sectionCount fs := by
  rw [sectionCount, messageFrames, List.countP_filter]
  refine List.countP_congr ?_
  intro f _
  simp only [Bool.and_eq_true, beq_iff_eq, and_iff_left_iff_imp]
  exact fun hkind => counts_iff.mpr (.inl hkind)

theorem sectionCount_interims {heads : List Head} (h : List.Forall₂ (IsResponse qpack) fs heads) :
    sectionCount fs = heads.length := by
  induction h with
  | nil => rfl
  | cons hfirst _ ih =>
    rw [sectionCount, List.countP_cons_of_pos (by simp [hfirst.1]), ← sectionCount, ih, List.length_cons]

/-- The trailers have been seen when there is a section more than the interim ones and the final. -/
theorem seen_iff {r : Response} {body : Bytes} (hall : Progress.takeAll cap qpack {} fs = .ok m')
    (hfinal : finalizeResponse m' method = .ok (r, body)) :
    m'.trailersSeen = true ↔ sectionCount fs = r.interim.length + 2 := by
  obtain ⟨r₀, hr₀, -, rfl, -⟩ := finalizeResponse_eq_ok.mp hfinal
  have hs := (stage_takeAll (fun f hf => (List.mem_filter.mp hf).2) (takeAll_eq_ok.mp hall).2).1
  rw [← sectionCount_messageFrames, messageFrames]
  generalize List.filter Frame.counts fs = gs at hs ⊢
  cases hs with
  | before => cases hr₀
  | @behind interims data _ _ _ _ _ _ hinterims _ _ hlast _ hdata htrailer =>
    have hnone : sectionCount data = 0 := List.countP_eq_zero.mpr fun f hf => by simp [hdata f hf]
    have hsome := sectionCount_interims hinterims
    rw [sectionCount] at hnone hsome
    rcases htrailer with ⟨rfl, -⟩ | ⟨f, rfl, hkind, -⟩
    · simp [sectionCount, hsome, hnone, hlast.1]
    · simp [sectionCount, hsome, hnone, hlast.1, hkind]

end Mirror

/-! ## Where the two agree -/

/-- Behind a response that ends in trailers there are only whole frames of unknown types, and FIN. -/
def QuietTail (cap : ℕ) (qpack : Bytes → Option (List Field)) (method s : Bytes) (ending : Ending) : Prop :=
  ∀ pre post r body, ((wire cap).parse s).items = pre ++ post → Allowed pre →
    IsMessage cap qpack (messageFrames pre) r body → LengthDeclared r.status r.headers method body.length →
    sectionCount pre = r.interim.length + 2 →
    (∀ f ∈ post, f.kind = .ignored) ∧ ((wire cap).parse s).fault = none ∧
      ((wire cap).parse s).rest = [] ∧ ending = .fin

section Agreement

variable {maxResponseBytes cap : ℕ} {qpack : Bytes → Option (List Field)} {ric : Bytes → ℕ}
  {method s : Bytes} {ending : Ending} {x : Response × Bytes}

theorem closing_isOk {q : Parse UInt8 Frame Unit} :
    (closing q ending).isOk = true ↔ q.fault = none ∧ q.rest = [] ∧ ending = .fin := by
  rw [closing]
  cases q.fault with
  | some u => simp [Except.isOk, Except.toBool]
  | none =>
    cases ending with
    | reset code => simp [atEnd, Except.isOk, Except.toBool]
    | fin =>
      cases q.rest with
      | nil | cons => simp [atEnd, Except.isOk, Except.toBool]

/-- `Do` succeeds when all frames are taken and the stream ends well behind them. -/
theorem outcome_iff {c : Client} (hc : c = .fixed maxResponseBytes qpack ric) :
    outcome c method s ending = .ok x ↔
      ∃ m', Progress.takeAll c.responseByteCap qpack {} ((wire c.responseByteCap).parse s).items =
          .ok m' ∧
        finalizeResponse m' method = .ok x ∧
        (closing ((wire c.responseByteCap).parse s) ending).isOk = true := by
  have htake := takeAll_eq maxResponseBytes qpack ric {} ((wire c.responseByteCap).parse s).items
  rw [← hc] at htake
  generalize hq : (wire c.responseByteCap).parse s = q at htake ⊢
  rw [outcome, conclude, hq, closing]
  rcases hall : c.dispatchAll {} q.items with ⟨rb, _ | e⟩
  · rw [htake, hall, settled]
    cases q.fault with
    | some u => simp [Except.isOk, Except.toBool]
    | none =>
      cases hend : atEnd q.rest.length ending with
      | error | ok => simp [Except.isOk, Except.toBool, Except.map]
  · rw [htake, hall, settled]
    simp

/-- Where they agree, and where not, in terms of the frames. -/
theorem streamed_iff_outcome_iff {fs : List Frame} {tail : Except Err Bool}
    (hcap : payloadSize (messageFrames fs) ≤ cap) :
    (∀ x, streamed cap qpack method tail {} [] fs = .ok x ↔
        ∃ m', Progress.takeAll cap qpack {} fs = .ok m' ∧ finalizeResponse m' method = .ok x ∧
          tail.isOk = true) ↔
      ∀ pre post m' x, fs = pre ++ post → Progress.takeAll cap qpack {} pre = .ok m' →
        finalizeResponse m' method = .ok x → m'.trailersSeen = true →
        (∀ f ∈ post, f.kind = .ignored) ∧ tail.isOk = true := by
  have hempty : Mirrors {} {} := ⟨rfl, rfl, rfl, Nat.le_refl _⟩
  have hstreamed (x : Response × Bytes) : streamed cap qpack method tail {} [] fs = .ok x ↔ _ :=
    streamed_eq_ok hempty rfl (by simpa using hcap)
  constructor
  · intro hagree pre post m' x hfs hall hfinal hseen
    -- the streaming exchange ends at these trailers, so `Do` succeeds too and takes what follows
    have hout : streamed cap qpack method tail {} [] fs = .ok x :=
      (hstreamed x).mpr ⟨pre, post, m', hfs, hall, hfinal, .inl hseen⟩
    obtain ⟨m'', hwhole, -, htail⟩ := (hagree x).mp hout
    rw [hfs, takeAll_append_eq_ok] at hwhole
    obtain ⟨m₁, hpre, hpost⟩ := hwhole
    obtain rfl := Except.ok.inj (hpre.symm.trans hall)
    exact ⟨((takeAll_seen hseen).mp hpost).2, htail⟩
  · intro hquiet x
    refine (hstreamed x).trans ⟨?_, ?_⟩
    · rintro ⟨pre, post, m', hfs, hall, hfinal, hseen | ⟨rfl, -, htail⟩⟩
      · obtain ⟨hpost, htail⟩ := hquiet pre post m' x hfs hall hfinal hseen
        refine ⟨m', ?_, hfinal, htail⟩
        rw [hfs, takeAll_append_eq_ok]
        exact ⟨m', hall, (takeAll_seen hseen).mpr ⟨rfl, hpost⟩⟩
      · rw [List.append_nil] at hfs
        exact ⟨m', hfs ▸ hall, hfinal, htail⟩
    · rintro ⟨m', hall, hfinal, htail⟩
      refine ⟨fs, [], m', (List.append_nil _).symm, hall, hfinal, ?_⟩
      cases hseen : m'.trailersSeen with
      | true => exact .inl rfl
      | false => exact .inr ⟨rfl, rfl, htail⟩

theorem quietTail_iff :
    QuietTail cap qpack method s ending ↔
      ∀ pre post m' x, ((wire cap).parse s).items = pre ++ post →
        Progress.takeAll cap qpack {} pre = .ok m' → finalizeResponse m' method = .ok x →
        m'.trailersSeen = true →
        (∀ f ∈ post, f.kind = .ignored) ∧ (closing ((wire cap).parse s) ending).isOk = true := by
  constructor
  · rintro h pre post m' ⟨r, body⟩ hitems hall hfinal hseen
    obtain ⟨hallowed, hmessage, hlength⟩ := takeAll_isMessage.mp ⟨m', hall, hfinal⟩
    obtain ⟨hpost, hend⟩ := h pre post r body hitems hallowed hmessage hlength
      ((seen_iff hall hfinal).mp hseen)
    exact ⟨hpost, closing_isOk.mpr hend⟩
  · intro h pre post r body hitems hallowed hmessage hlength hcount
    obtain ⟨m', hall, hfinal⟩ := takeAll_isMessage.mpr ⟨hallowed, hmessage, hlength⟩
    obtain ⟨hpost, hend⟩ := h pre post m' (r, body) hitems hall hfinal
      ((seen_iff hall hfinal).mpr hcount)
    exact ⟨hpost, closing_isOk.mp hend⟩

end Agreement

/-- With every total within the limit, the streaming exchange comes to one result, and that agrees
with the buffered one exactly when nothing that counts follows a response with trailers. -/
theorem streaming_agrees_iff (maxResponseBytes : ℕ) (qpack : Bytes → Option (List Field))
    (ric : Bytes → ℕ) (method s : Bytes) (ending : Ending)
    (hcap : payloadSize (messageFrames
      ((wire (fixed maxResponseBytes qpack ric).responseByteCap).parse s).items) ≤
        (fixed maxResponseBytes qpack ric).responseByteCap)
    (a a' : Allocator) (capacity : ℕ) {ps ps' : List Poll} (hd : Delivers ps s ending)
    (hd' : Delivers ps' s ending) :
    ∃ result, (∀ result', Streams a' (fixed maxResponseBytes qpack ric) method ps' result' ↔
        result' = result) ∧
      ((∀ x, result = .ok x ↔
          (roundTrip a (fixed maxResponseBytes qpack ric) capacity method ps).2 = some (.ok x)) ↔
        QuietTail (fixed maxResponseBytes qpack ric).responseByteCap qpack method s ending) := by
  generalize hc : fixed maxResponseBytes qpack ric = c at hcap ⊢
  have hstreams : Streams a' c method ps'
      (streamedBytes c.responseByteCap qpack method {} [] s ending) :=
    streams (hc ▸ takeStreamed_eq) hd'
  refine ⟨streamedBytes c.responseByteCap qpack method {} [] s ending, ?_, ?_⟩
  · intro result'
    constructor
    · intro h
      exact h.unique hstreams
    · rintro rfl
      exact hstreams
  · rw [quietTail_iff, ← streamed_iff_outcome_iff hcap]
    refine forall_congr' ?_
    intro x
    rw [roundTrip_eq hd, Option.some.injEq, outcome_iff hc.symm, streamedBytes]

/-- A section for the status 200, and a trailer section. -/
def trailedSection (payload : Bytes) : Option (List Field) :=
  if payload = [1] then some [⟨statusName, ascii "200", Header.indexIncremental⟩]
  else if payload = [2] then some [⟨ascii "x", ascii "y", Header.indexIncremental⟩]
  else none

/-- Trailers and an unknown frame behind them, in two ways to arrive. -/
theorem streaming_agrees_iff_unknown :
    ∃ result, (∀ result', Streams Growth.doubling (fixed 0 trailedSection fun _ => 0) (ascii "GET")
        [{ recv := [1, 1, 1, 1, 1] }, { recv := [2, 0x21, 0] }, { finished := true }] result' ↔
          result' = result) ∧
      ((∀ x, result = .ok x ↔
          (roundTrip Growth.doubling (fixed 0 trailedSection fun _ => 0) 0 (ascii "GET")
            [{ recv := [1, 1, 1, 1, 1, 2, 0x21, 0] }, { finished := true }]).2 = some (.ok x)) ↔
        QuietTail (fixed 0 trailedSection fun _ => 0).responseByteCap trailedSection (ascii "GET")
          [1, 1, 1, 1, 1, 2, 0x21, 0] .fin) :=
  streaming_agrees_iff 0 trailedSection (fun _ => 0) (ascii "GET") [1, 1, 1, 1, 1, 2, 0x21, 0] .fin
    (by decide +kernel) Growth.doubling Growth.doubling 0 (.more rfl rfl (.last rfl))
    (.more rfl rfl (.more rfl rfl (.last rfl)))

/-- DATA behind the trailers: `Do` fails, and `Next` reports a clean end. -/
theorem trailers_hide_error :
    (roundTrip Growth.doubling (fixed 0 trailedSection fun _ => 0) 0 (ascii "GET")
        [{ recv := [1, 1, 1, 1, 1, 2, 0, 1, 5] }, { finished := true }]).2 =
      some (.error (.conn h3FrameUnexpected)) ∧
    Streams Growth.doubling (fixed 0 trailedSection fun _ => 0) (ascii "GET")
      [{ recv := [1, 1, 1, 1, 1, 2, 0, 1, 5] }, { finished := true }]
      (.ok ({ status := 200, headers := [], trailers :=
        [⟨ascii "x", ascii "y", Header.indexIncremental⟩] }, [])) := by
  have hd : Delivers [{ recv := [1, 1, 1, 1, 1, 2, 0, 1, 5] }, { finished := true }]
      [1, 1, 1, 1, 1, 2, 0, 1, 5] .fin := .more rfl rfl (.last rfl)
  constructor
  · rfl
  · exact streams takeStreamed_eq hd

end Http3
