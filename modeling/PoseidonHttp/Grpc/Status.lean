import PoseidonHttp.Frame.Types
import PoseidonHttp.Header

/-!
# gRPC status

`status.go`: the outcome of a call and the sources it is read from, which are the `grpc-status` and
`grpc-message` fields, the HTTP status, the code of a reset and a failure of the transport. Texts
are the bytes of the source's strings.
-/

namespace Grpc

open Header (Bytes)
open Frame (ErrCode)

/-- A status code is any 32-bit word; the named ones are those the client itself reports. -/
abbrev Code := UInt32

namespace Code

def ok : Code := 0

def canceled : Code := 1

def unknown : Code := 2

def deadlineExceeded : Code := 4

def permissionDenied : Code := 7

def resourceExhausted : Code := 8

def unimplemented : Code := 12

def internal : Code := 13

def unavailable : Code := 14

def unauthenticated : Code := 16

end Code

/-- What `errors.Is` can tell about an error of the transport. -/
inductive TransportCause where
  | contextCanceled
  | contextDeadlineExceeded
  | other
  deriving DecidableEq

structure TransportErr where
  cause : TransportCause
  text : Bytes
  deriving DecidableEq

structure Status where
  code : Code := .ok
  message : Bytes := []
  cause : Option TransportErr := none
  deriving DecidableEq

/-- `Status.Err`: `none` where the code is OK. -/
def Status.err (s : Status) : Option Status := if s.code = Code.ok then none else some s

def statusFromHTTP (httpStatus : ℕ) : Code :=
  match httpStatus with
  | 400 => .internal
  | 401 => .unauthenticated
  | 403 => .permissionDenied
  | 404 => .unimplemented
  | 429 | 502 | 503 | 504 => .unavailable
  | _ => .unknown

def statusFromRST (code : ErrCode) : Code :=
  if code = ErrCode.refusedStream then .unavailable
  else if code = ErrCode.cancel then .canceled
  else if code = ErrCode.enhanceYourCalm then .resourceExhausted
  else if code = ErrCode.inadequateSecurity then .permissionDenied
  else .internal

def statusFromTransport (err : TransportErr) : Status :=
  match err.cause with
  | .contextCanceled => ⟨.canceled, err.text, some err⟩
  | .contextDeadlineExceeded => ⟨.deadlineExceeded, err.text, some err⟩
  | .other => ⟨.unavailable, err.text, some err⟩

/-- The loop of `strconv.ParseUint` in base 10 for 32 bits. -/
def parseUint32From : ℕ → Bytes → Option ℕ
  | n, [] => some n
  | n, c :: cs =>
    if c < 0x30 ∨ 0x39 < c then none
    else
      let n := n * 10 + (c - 0x30).toNat
      if 2 ^ 32 ≤ n then none else parseUint32From n cs

def parseUint32 (v : Bytes) : Option ℕ := if v = [] then none else parseUint32From 0 v

def parseStatusCode (v : Bytes) : Code :=
  match parseUint32 v with
  | none => .unknown
  | some n => UInt32.ofNat n

def controlByte (c : UInt8) : Bool := c < 0x20 || c == 0x7f

def hasControlByte (v : Bytes) : Bool := v.any controlByte

def unhex (c : UInt8) : Option UInt8 :=
  if 0x30 ≤ c ∧ c ≤ 0x39 then some (c - 0x30)
  else if 0x61 ≤ c ∧ c ≤ 0x66 then some (c - 0x61 + 10)
  else if 0x41 ≤ c ∧ c ≤ 0x46 then some (c - 0x41 + 10)
  else none

/-- `WriteByte`, unless the byte is a control. -/
def writePrintable (c : UInt8) (rest : Bytes) : Bytes := if controlByte c then rest else c :: rest

/-- The loop of `decodeMessage`: an escape that is none stands for itself. -/
def decodeEscapes : Bytes → Bytes
  | 0x25 :: h :: l :: rest =>
    match unhex h, unhex l with
    | some hi, some lo => writePrintable (hi <<< 4 ||| lo) (decodeEscapes rest)
    | _, _ => writePrintable 0x25 (decodeEscapes (h :: l :: rest))
  | c :: rest => writePrintable c (decodeEscapes rest)
  | [] => []

def decodeMessage (v : Bytes) : Bytes :=
  if !v.contains 0x25 && !hasControlByte v then v else decodeEscapes v

/-- No table maps anything to OK: success is only ever what the server said. -/
theorem statusFromHTTP_ne_ok (httpStatus : ℕ) : statusFromHTTP httpStatus ≠ Code.ok := by
  unfold statusFromHTTP
  split <;> decide

theorem statusFromRST_ne_ok (code : ErrCode) : statusFromRST code ≠ Code.ok := by
  unfold statusFromRST
  split_ifs <;> decide

end Grpc
