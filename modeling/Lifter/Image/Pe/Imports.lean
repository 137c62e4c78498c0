/-
  Lifter.Image.Pe.Imports — the libraries that a file takes functions from.

  The import directory is a list of entries, one for each library. An entry names the
  library and two lists of words that end with zero: what is imported, and the
  addresses that the loader fills in. An import is a number, or the place of a name
  with a hint in front of it.
-/

import Lifter.Image.Pe.Section

namespace Lifter.Pe.Imports

structure Entry where
  /-- The list of what is imported. -/
  lookup : Nat
  name : Nat
  addresses : Nat
  deriving DecidableEq, Repr

/-- The entries up to one that has no name or no addresses. -/
def entries? (bytes : List UInt8) : Option (List Entry) :=
  if 20 ≤ bytes.length then
    let field (offset : Nat) : Nat := Binary.firstNatural false 4 (bytes.drop offset)
    if field 12 = 0 ∨ field 16 = 0 then some []
    else (entries? (bytes.drop 20)).map (⟨field 0, field 12, field 16⟩ :: ·)
  else none
termination_by bytes.length
decreasing_by simp only [List.length_drop]; omega

/-- The import is by number. -/
def isOrdinal (wordSize word : Nat) : Bool := word.testBit (8 * wordSize - 1)

/-- The import is by number, or its name can be read; a name that is not mapped is passed over. -/
def importReadable (file : List UInt8) (m : Mapping) (wordSize word : Nat) : Bool :=
  isOrdinal wordSize word ||
    (m.offset? (word &&& 0x7fffffff)).all fun offset =>
      (natural? file offset 2).isSome && (Binary.string? file (offset + 2)).isSome

def wordsAt? (file : List UInt8) (wordSize offset : Nat) : Option (List Nat) :=
  Binary.naturalsUntilZero? false wordSize (file.drop offset)

/-- The library's name, what is imported and the addresses can be read. If it is not mapped what is
    imported, the addresses say so. -/
def entryReadable (file : List UInt8) (m : Mapping) (wordSize : Nat) (e : Entry) : Bool :=
  Option.isSome do
    let _ ← Binary.string? file (← m.offset? e.name)
    let addresses ← m.offset? e.addresses
    let imports ← wordsAt? file wordSize ((m.offset? e.lookup).getD addresses)
    if !imports.all (importReadable file m wordSize) then none
    wordsAt? file wordSize addresses

/-- The directory at an address can be read. -/
def isReadable (file : List UInt8) (m : Mapping) (wordSize address : Nat) : Bool :=
  match m.offset? address with
  | none => false
  | some offset => (entries? (file.drop offset)).any (·.all (entryReadable file m wordSize))

end Lifter.Pe.Imports
