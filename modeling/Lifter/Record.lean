/-
  Lifter.Record — what a decoder hands to its host, and copies of it.

  A micro-operation and a line of assembly text are handed over with the addresses and
  varnodes themselves. A record is a copy that names spaces by name. A recorder keeps
  the records it is given, in order, until they are taken out.
-/

import Lifter.Address
import Lifter.Opcode

namespace Lifter

structure MicroOp where
  address : Address
  opcode : Opcode
  output : Option Varnode
  inputs : List Varnode
  deriving DecidableEq

structure AssemblyLine where
  address : Address
  mnemonic : String
  operands : String
  deriving DecidableEq

/-! ## Records -/

structure VarnodeRecord where
  space : String
  offset : UInt64
  size : Nat
  deriving DecidableEq, Repr

def Varnode.record (v : Varnode) : VarnodeRecord := ⟨v.address.space.name, v.address.offset, v.size⟩

def VarnodeRecord.text (v : VarnodeRecord) : String :=
  "(" ++ v.space ++ ", " ++ Text.hex v.offset ++ ", " ++ toString v.size ++ ")"

structure OpRecord where
  address : UInt64
  opcode : Opcode
  output : Option VarnodeRecord
  inputs : List VarnodeRecord
  deriving DecidableEq, Repr

def MicroOp.record (op : MicroOp) : OpRecord :=
  ⟨op.address.offset, op.opcode, op.output.map (·.record), op.inputs.map (·.record)⟩

def OpRecord.text (op : OpRecord) : String :=
  let output :=
    match op.output with
    | none => ""
    | some v => v.text ++ " = "
  let inputs :=
    match op.inputs with
    | [] => ""
    | vs => " " ++ ", ".intercalate (vs.map (·.text))
  output ++ op.opcode.name ++ inputs

structure LineRecord where
  space : String
  address : UInt64
  mnemonic : String
  operands : String
  deriving DecidableEq, Repr

def AssemblyLine.record (line : AssemblyLine) : LineRecord :=
  ⟨line.address.space.name, line.address.offset, line.mnemonic, line.operands⟩

def LineRecord.text (line : LineRecord) : String :=
  if line.operands.isEmpty then line.mnemonic else line.mnemonic ++ " " ++ line.operands

/-! ## Recorders -/

structure Recorder (α : Type) where
  records : List α
  deriving DecidableEq, Repr

namespace Recorder

variable {α : Type}

def empty : Recorder α := ⟨[]⟩

def size (r : Recorder α) : Nat := r.records.length

def isEmpty (r : Recorder α) : Bool := r.records.isEmpty

def last? (r : Recorder α) : Option α := r.records.getLast?

def push (r : Recorder α) (a : α) : Recorder α := ⟨r.records ++ [a]⟩

/-- All records, and the recorder without them. -/
def take (r : Recorder α) : List α × Recorder α := (r.records, empty)

end Recorder

end Lifter
