/-
  Lifter.Image.Pe.OptionalHeader — the header that program files have.

  It gives the image base and the entry point, how contents are aligned in the file,
  and the data directories, of which there are at most sixteen. PE32 and PE32+ files
  differ in the size of an address.
-/

import Lifter.Image.Pe.Section

namespace Lifter.Pe

/-- A run of addresses, or of bytes of the file. -/
structure Directory where
  address : Nat
  size : Nat
  deriving DecidableEq, Repr

structure OptionalHeader where
  /-- Addresses take eight bytes. -/
  wide : Bool
  base : UInt64
  /-- The entry point, relative to the base. -/
  entry : UInt32
  fileAlignment : Nat
  directories : List Directory
  deriving Repr

def directories : List Nat → List Directory
  | address :: size :: rest => ⟨address, size⟩ :: directories rest
  | _ => []

namespace OptionalHeader

def addressSize (h : OptionalHeader) : Nat := if h.wide then 8 else 4

/-- The directory with a number; one that is all zero is not there. -/
def directory? (h : OptionalHeader) (number : Nat) : Option Directory :=
  h.directories[number]?.filter fun d => d.address != 0 || d.size != 0

/-- Reads the header, of which `count` and the directories behind it have the given places. -/
def read? (file : List UInt8) (base : Nat) (wide : Bool) (imageBase : Nat × Nat) (count : Nat) :
    Option OptionalHeader := do
  let entry ← half? file (base + 16)
  let imageBase ← Binary.number? false file (base + imageBase.1) imageBase.2
  let fileAlignment ← natural? file (base + 36) 4
  let number ← natural? file (base + count) 4
  if 16 < number then none
  let table ← Binary.slice? file (base + count + 4) (8 * number)
  return ⟨wide, imageBase, entry, fileAlignment, Pe.directories (Binary.naturals false table)⟩

def ofBytes? (file : List UInt8) (base : Nat) : Option OptionalHeader := do
  match ← natural? file base 2 with
  | 0x10b => read? file base false (28, 4) 92
  | 0x20b => read? file base true (24, 8) 108
  | _ => none

end OptionalHeader

end Lifter.Pe
