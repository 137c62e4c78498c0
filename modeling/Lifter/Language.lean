/-
  Lifter.Language — a processor: its spaces, registers, context fields and encodings.

  Space 0 holds the constants; code lies in a space of kind processor, temporaries in
  the space called `unique`. Registers may share storage; a name is that of the first
  register with exactly the storage asked for.
-/

import Lifter.Context
import Lifter.RegisterStore

namespace Lifter

structure Language where
  name : String
  bigEndian : Bool
  /-- Bytes; every instruction starts at a multiple. -/
  alignment : Nat
  spaces : List Space
  constantSpace : Space
  codeSpace : Space
  uniqueSpace : Space
  registerStore : RegisterStore
  tables : List RegisterTable
  contextFields : List ContextField
  /-- Shortest first, in the order of the description within a length. -/
  encodings : List Encoding

namespace Language

def space? (l : Language) (name : String) : Option Space := l.spaces.find? (·.name == name)

def registers (l : Language) : List Register := l.registerStore.registers

def register? (l : Language) (name : String) : Option Register := l.registerStore.register? name

/-- The name of the register that is exactly this storage. -/
def registerName? (l : Language) (s : Storage) : Option String :=
  (l.registers.find? (·.storage.same s)).map (·.name)

/-- The code address of `offset`. -/
def codeAddress (l : Language) (offset : UInt64) : Address := l.codeSpace.address offset

def display (l : Language) : String :=
  let order := if l.bigEndian then "big" else "little"
  let count := l.encodings.length
  s!"{l.name} ({order}-endian, {count} encodings)"

end Language

end Lifter
