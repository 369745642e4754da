import Mathlib.Data.UInt

/-!
# HTTP/2 error codes

The codes of `frame/errors.go` that the connection layer raises.
-/

namespace Frame

/-- An error code is any 32-bit word. -/
abbrev ErrCode := UInt32

namespace ErrCode

def noError : ErrCode := 0x0

def protocolError : ErrCode := 0x1

def internalError : ErrCode := 0x2

def flowControlError : ErrCode := 0x3

def streamClosed : ErrCode := 0x5

def refusedStream : ErrCode := 0x7

def cancel : ErrCode := 0x8

def compressionError : ErrCode := 0x9

def enhanceYourCalm : ErrCode := 0xb

def inadequateSecurity : ErrCode := 0xc

end ErrCode

end Frame
