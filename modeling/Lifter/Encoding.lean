/-
  Lifter.Encoding — how one instruction is written in bits, printed and explained.

  An encoding is a length of one to eight bytes, a mask and the bits under it, the
  context it needs, its operand fields, the text of its operands and its
  micro-operations. Text and operations are templates: their fields, registers and
  spaces are the ones of the processor, looked up when the description is read.
-/

import Lifter.Address
import Lifter.Opcode

namespace Lifter

def maxInstructionSize : Nat := 8

structure Register where
  name : String
  storage : Storage
  deriving DecidableEq, Repr

/-- The registers that the values of an operand field select; a value may be reserved. -/
structure RegisterTable where
  name : String
  entries : List (Option Register)
  deriving DecidableEq, Repr

/-! ## Operand fields -/

inductive FieldKind where
  | register (table : RegisterTable)
  | immediate (isSigned : Bool) (size : Nat)
  /-- A distance from the instruction, in units of `scale` bytes. -/
  | relative (scale : Int)
  | absolute
  deriving DecidableEq, Repr

structure OperandField where
  name : String
  lsb : Nat
  width : Nat
  kind : FieldKind
  deriving DecidableEq, Repr

def OperandField.extract (f : OperandField) (word : UInt64) : UInt64 :=
  (word >>> UInt64.ofNat f.lsb) &&& lowMask f.width

def OperandField.isRegister (f : OperandField) : Bool :=
  match f.kind with
  | .register _ => true
  | _ => false

/-! ## Templates -/

/-- An input or output of a micro-operation, before the instruction is known. -/
inductive OperandTemplate where
  | field (f : OperandField)
  | register (r : Register)
  | constant (value : UInt64) (size : Nat)
  | temporary (offset : UInt64) (size : Nat)
  | spaceNumber (s : Space)
  | start
  | next
  deriving DecidableEq, Repr

/-- What a micro-operation can be given as its output. -/
def OperandTemplate.isWritable : OperandTemplate → Bool
  | .register _ | .temporary _ _ => true
  | .field f => f.isRegister
  | _ => false

structure OpTemplate where
  opcode : Opcode
  output : Option OperandTemplate
  inputs : List OperandTemplate
  deriving DecidableEq, Repr

/-- A part of an operand text. -/
inductive Fragment where
  | literal (text : String)
  | field (f : OperandField)
  deriving DecidableEq, Repr

/-- A context field and the value it has to have. -/
structure Constraint where
  field : String
  value : UInt32
  deriving DecidableEq, Repr

structure Encoding where
  mnemonic : String
  length : Nat
  mask : UInt64
  bits : UInt64
  constraints : List Constraint
  fields : List OperandField
  operands : List Fragment
  ops : List OpTemplate
  deriving DecidableEq, Repr

def Encoding.fits (e : Encoding) (word : UInt64) : Bool := word &&& e.mask == e.bits

end Lifter
