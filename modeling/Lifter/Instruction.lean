/-
  Lifter.Instruction — an encoding found in memory.

  From the word that matched and the place where it lies follow the storage of every
  operand, the micro-operations and the printed text. A register field whose value is
  reserved, or lies past its table, has no storage and no text.
-/

import Lifter.DecodeError
import Lifter.Language

namespace Lifter

structure Instruction where
  encoding : Encoding
  word : UInt64
  start : UInt64
  deriving DecidableEq, Repr

/-- A micro-operation with the storage of its operands. -/
structure ResolvedOp where
  opcode : Opcode
  output : Option Storage
  inputs : List Storage
  deriving DecidableEq, Repr

namespace Instruction

def length (i : Instruction) : Nat := i.encoding.length

/-- The register that a field with this table selects. -/
def register (i : Instruction) (f : OperandField) (table : RegisterTable) : Except DecodeError Register :=
  let value := f.extract i.word
  match table.entries[value.toNat]? with
  | some (some r) => .ok r
  | _ => .error (.invalidOperand i.start f.name value)

/-- The offset to which a field of this scale points. -/
def relativeTarget (i : Instruction) (l : Language) (f : OperandField) (scale : Int) : UInt64 :=
  l.codeSpace.wrap (i.start + UInt64.ofInt (scale * signed f.width (f.extract i.word)))

def absoluteTarget (i : Instruction) (l : Language) (f : OperandField) : UInt64 :=
  l.codeSpace.wrap (f.extract i.word)

/-- The offset behind the instruction. -/
def nextOffset (i : Instruction) (l : Language) : UInt64 :=
  l.codeSpace.wrap (i.start + UInt64.ofNat i.length)

/-! ## Micro-operations -/

/-- An immediate as a constant of `size` bytes. -/
def immediate (i : Instruction) (f : OperandField) (isSigned : Bool) (size : Nat) : UInt64 :=
  let bits := f.extract i.word
  (if isSigned then UInt64.ofInt (signed f.width bits) else bits) &&& lowMask (8 * size)

def fieldStorage (i : Instruction) (l : Language) (f : OperandField) : Except DecodeError Storage :=
  match f.kind with
  | .register table => (i.register f table).map (·.storage)
  | .immediate isSigned size => .ok ⟨l.constantSpace, i.immediate f isSigned size, size⟩
  | .relative scale => .ok ⟨l.codeSpace, i.relativeTarget l f scale, l.codeSpace.addressSize⟩
  | .absolute => .ok ⟨l.codeSpace, i.absoluteTarget l f, l.codeSpace.addressSize⟩

def storage (i : Instruction) (l : Language) : OperandTemplate → Except DecodeError Storage
  | .field f => i.fieldStorage l f
  | .register r => .ok r.storage
  | .constant value size => .ok ⟨l.constantSpace, value, size⟩
  | .temporary offset size => .ok ⟨l.uniqueSpace, offset, size⟩
  | .spaceNumber s => .ok ⟨l.constantSpace, UInt64.ofNat s.id.index, 8⟩
  | .start => .ok ⟨l.constantSpace, i.start, l.codeSpace.addressSize⟩
  | .next => .ok ⟨l.constantSpace, i.nextOffset l, l.codeSpace.addressSize⟩

/-- The output comes before the inputs, which go from left to right. -/
def resolve (i : Instruction) (l : Language) (op : OpTemplate) : Except DecodeError ResolvedOp := do
  let output ← op.output.mapM (i.storage l)
  let inputs ← op.inputs.mapM (i.storage l)
  return ⟨op.opcode, output, inputs⟩

/-- The micro-operations in execution order. -/
def semantics (i : Instruction) (l : Language) : Except DecodeError (List ResolvedOp) :=
  i.encoding.ops.mapM (i.resolve l)

/-! ## Text -/

/-- A number in hexadecimal, behind a minus sign if it is negative. -/
def signedText (n : Int) : String :=
  if n < 0 then "-" ++ Text.hexNat n.natAbs else Text.hexNat n.toNat

def fieldText (i : Instruction) (l : Language) (f : OperandField) : Except DecodeError String :=
  match f.kind with
  | .register table => (i.register f table).map (·.name)
  | .immediate true _ => .ok (signedText (signed f.width (f.extract i.word)))
  | .immediate false _ => .ok (Text.hex (f.extract i.word))
  | .relative scale => .ok (Text.hex (i.relativeTarget l f scale))
  | .absolute => .ok (Text.hex (i.absoluteTarget l f))

def fragmentText (i : Instruction) (l : Language) : Fragment → Except DecodeError String
  | .literal text => .ok text
  | .field f => i.fieldText l f

/-- The text of the operands. -/
def operandText (i : Instruction) (l : Language) : Except DecodeError String :=
  (i.encoding.operands.mapM (i.fragmentText l)).map String.join

end Instruction

end Lifter
