/-
  Lifter.Image.Pe.Debug — where a file keeps what debuggers need.

  The debug directory begins with a record of 28 bytes. The record gives the kind, the
  size and the place in the file of its data; those that name the file with the symbols
  have a form of their own. The size that the file gives the directory plays no part,
  and neither do records behind the first.
-/

import Lifter.Image.Pe.Section

namespace Lifter.Pe.Debug

structure Entry where
  kind : Nat
  size : Nat
  /-- Where the data lie in the file. -/
  offset : Nat
  deriving DecidableEq, Repr

def read? (file : List UInt8) (offset : Nat) : Option Entry := do
  let record ← Binary.slice? file offset 28
  let field (place : Nat) : Nat := Binary.firstNatural false 4 (record.drop place)
  return ⟨field 12, field 16, field 24⟩

/-- The kind of record whose data name the file with the symbols. -/
def symbolFile : Nat := 2

/-- The signatures of the two forms in which a record names the file with the symbols. -/
def symbolFileSignatures : List Nat := [0x53445352, 0x3031424e]

/-- The data of a record that names the file with the symbols can be read; they are as long as the
    longer form's head, and behind a signature of either form they lie in the file. -/
def Entry.isReadable (file : List UInt8) (e : Entry) : Bool :=
  e.kind != symbolFile ||
    24 ≤ e.size && (natural? file e.offset 4).any fun signature =>
      !symbolFileSignatures.contains signature || (Binary.slice? file e.offset e.size).isSome

/-- The directory at an address can be read. -/
def isReadable (file : List UInt8) (m : Mapping) (address : Nat) : Bool :=
  ((m.offset? address).bind (read? file)).any (·.isReadable file)

end Lifter.Pe.Debug
