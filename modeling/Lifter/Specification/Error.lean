/-
  Lifter.Specification.Error — why a processor description is refused.

  The first fault in reading order is reported, with the element and the value that
  show it. What is wrong inside one instruction has causes of its own.
-/

import Lifter.Text.Numeral

namespace Lifter

/-- What a repeated name is declared as. -/
inductive DeclarationKind where
  | space
  | register
  | table
  | contextField
  | operandField
  deriving DecidableEq, Repr

def DeclarationKind.label : DeclarationKind → String
  | .space => "address space"
  | .register => "register"
  | .table => "register table"
  | .contextField => "context field"
  | .operandField => "operand field"

inductive InstructionError where
  | maskTooWide (mask : UInt64) (length : Nat)
  | matchOutsideMask (bits mask : UInt64)
  | fieldTooWide (field : String) (length : Nat)
  | unclosedPlaceholder (operands : String)
  | unknownPlaceholder (field : String)
  | notWritable (expression : String)
  | sizeMissing (expression : String)
  | badValue (expression : String)
  | badSize (expression : String)
  | negativeTemporary (expression : String)
  | unknownSpace (space : String)
  | unknownOperand (expression : String)
  deriving DecidableEq, Repr

def InstructionError.message : InstructionError → String
  | .maskTooWide mask length => s!"mask {Text.hex mask} is wider than {length} bytes"
  | .matchOutsideMask bits mask => s!"match {Text.hex bits} has bits outside mask {Text.hex mask}"
  | .fieldTooWide field length => s!"field '{field}' does not fit in {length} bytes"
  | .unclosedPlaceholder operands => s!"unclosed '\x7b' in operands \"{operands}\""
  | .unknownPlaceholder field => s!"operands refer to unknown field '{field}'"
  | .notWritable expression => s!"'{expression}' cannot be an output"
  | .sizeMissing expression => s!"'{expression}' needs an explicit :size"
  | .badValue expression => s!"bad value in '{expression}'"
  | .badSize expression => s!"bad size in '{expression}'"
  | .negativeTemporary expression => s!"negative temporary offset in '{expression}'"
  | .unknownSpace space => s!"unknown address space '{space}'"
  | .unknownOperand expression => s!"'{expression}' is neither an operand field nor a register"

inductive SpecificationError where
  | missingRoot (tag : String)
  | missingElement (parent child : String)
  | missingAttribute (element key : String)
  | invalidAttribute (element key value : String)
  | duplicate (kind : DeclarationKind) (name : String)
  | unknownSpace (name : String)
  | unknownTable (name : String)
  | unknownContextField (name : String)
  | badInstruction (mnemonic : String) (cause : InstructionError)
  deriving DecidableEq, Repr

def SpecificationError.message : SpecificationError → String
  | .missingRoot tag => s!"Specification has no <{tag}> root element"
  | .missingElement parent child => s!"<{parent}> is missing a <{child}> element"
  | .missingAttribute element key => s!"<{element}> is missing required attribute '{key}'"
  | .invalidAttribute element key value => s!"<{element}> has invalid {key}=\"{value}\""
  | .duplicate kind name => s!"Duplicate {kind.label} '{name}'"
  | .unknownSpace name => s!"Unknown address space '{name}'"
  | .unknownTable name => s!"Unknown register table '{name}'"
  | .unknownContextField name => s!"Unknown context field '{name}'"
  | .badInstruction mnemonic cause => s!"Instruction '{mnemonic}': {cause.message}"

end Lifter
