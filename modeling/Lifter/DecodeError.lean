/-
  Lifter.DecodeError — why an instruction could not be decoded.

  A byte source refuses a request with a cause of its own; a source or a receiver of
  records may also break down in the middle of a call, which is reported as a fault at
  the offset that was asked for. Every cause has the offset at which it was found.
-/

import Lifter.Text.Numeral

namespace Lifter

/-- Why a byte source refused a request. -/
inductive SourceError where
  | outOfRange (offset : UInt64) (size : Nat)
  | message (text : String)
  deriving DecidableEq, Repr

def SourceError.explain : SourceError → String
  | .outOfRange offset size => s!"{size} bytes at {Text.hex offset} are outside the image"
  | .message text => text

/-- What a host callback leaves behind when it breaks down. -/
inductive Fault where
  | text (message : String)
  | unnamed
  deriving DecidableEq, Repr

def Fault.message : Fault → String
  | .text message => message
  | .unnamed => "non-string panic payload"

inductive DecodeError where
  | byteSource (address : UInt64) (size : Nat) (cause : SourceError)
  | noMatch (address : UInt64)
  | outOfSpace (address : UInt64) (space : String)
  | misaligned (address : UInt64) (alignment : Nat)
  | invalidOperand (address : UInt64) (field : String) (value : UInt64)
  | callbackFault (address : UInt64) (message : String)
  deriving DecidableEq, Repr

namespace DecodeError

def address : DecodeError → UInt64
  | .byteSource a _ _ => a
  | .noMatch a => a
  | .outOfSpace a _ => a
  | .misaligned a _ => a
  | .invalidOperand a _ _ => a
  | .callbackFault a _ => a

def message : DecodeError → String
  | .byteSource a size cause => s!"Byte source failed for {size} bytes at {Text.hex a}: {cause.explain}"
  | .noMatch a => s!"No instruction matches at {Text.hex a}"
  | .outOfSpace a space => s!"Offset {Text.hex a} is outside the {space} space"
  | .misaligned a alignment => s!"Address {Text.hex a} is not aligned to {alignment} bytes"
  | .invalidOperand a field value =>
    s!"Operand '{field}' has reserved value {Text.hex value} at {Text.hex a}"
  | .callbackFault a message => s!"Callback fault at {Text.hex a}: {message}"

end DecodeError

end Lifter
