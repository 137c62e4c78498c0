/-
  Lifter.Image.Elf.ProgramHeader — which parts of a file are loaded, and where.

  The program headers are read for the addresses they give to places in the file: the
  tables of the dynamic section are named by address.
-/

import Lifter.Image.Elf.Layout

namespace Lifter.Elf

structure ProgramHeader where
  /-- The kind of the part. -/
  type : Nat
  offset : Nat
  address : Nat
  fileSize : Nat
  memorySize : Nat
  deriving DecidableEq, Repr

namespace ProgramHeader

def isLoaded (h : ProgramHeader) : Bool := h.type == 1

/-- The part is the dynamic section. -/
def isDynamic (h : ProgramHeader) : Bool := h.type == 2

def holds (h : ProgramHeader) (address : Nat) : Bool :=
  h.isLoaded && h.address ≤ address && address < h.address + h.memorySize

end ProgramHeader

namespace Layout

def programHeader? (l : Layout) (file : List UInt8) (base : Nat) : Option ProgramHeader := do
  let _ ← Binary.slice? file base l.programHeaderSize
  let type ← l.natural? file base (0, 4) (0, 4)
  let offset ← l.natural? file base (4, 4) (8, 8)
  let address ← l.natural? file base (8, 4) (16, 8)
  let fileSize ← l.natural? file base (16, 4) (32, 8)
  let memorySize ← l.natural? file base (20, 4) (40, 8)
  return ⟨type, offset, address, fileSize, memorySize⟩

/-- `count` headers from `base`. -/
def programHeaders? (l : Layout) (file : List UInt8) (base : Nat) :
    (count : Nat) → Option (List ProgramHeader)
  | 0 => some []
  | count + 1 => do
    let header ← l.programHeader? file base
    let others ← l.programHeaders? file (base + l.programHeaderSize) count
    return header :: others

end Layout

/-- Where the file holds what is loaded at an address. -/
def fileOffset? (headers : List ProgramHeader) (address : Nat) : Option Nat := do
  let h ← headers.find? (·.holds address)
  let offset := h.offset + (address - h.address)
  if offset < UInt64.size then some offset else none

end Lifter.Elf
