import PoseidonHttp.Header

/-!
# Vocabulary of the QUIC transport

Offsets, packet numbers and limits are 64-bit words, here naturals; a sum that the source
takes in a word is reduced by `u64`. The errors are the sentinels of `errors.go` that the
modelled functions return, and the errors of a cipher and of a socket they pass on.
-/

namespace Quic

/-- The number of 64-bit words. -/
def u64 : ℕ := 2 ^ 64

/-- `bytesx.MaxVarint`. -/
def maxVarint : ℕ := 2 ^ 62 - 1

inductive Error where
  | frameEncoding
  | streamFinished
  | streamReset
  | streamState
  | tooManyStreams
  | flowControl
  | finalSize
  | tooManyUniStreams
  | tooManyBidiStreams
  | serverBidiStream
  | protocolViolation
  | notEstablished
  | connClosed
  | aeadLimit
  | sealFailed
  | writeFailed
  | packetEncoding
  | cryptoSample
  | cryptoDecrypt
  deriving DecidableEq, Repr

end Quic
