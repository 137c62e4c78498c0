/-
  Lifter.Image.Elf.Section — the section headers and the string tables they name.

  The section table is missing if its offset is zero; its length stands in the first
  header if the file header gives none. Names come from a string table, an offset into
  which may fall in the middle of a name; one that falls nowhere gives the empty name.
-/

import Lifter.Image.Elf.Layout

namespace Lifter.Elf

structure Section where
  name : String
  /-- The section type. -/
  type : Nat
  flags : UInt64
  address : UInt64
  /-- Where the contents lie in the file. -/
  offset : UInt64
  size : UInt64
  deriving DecidableEq, Repr

namespace Section

/-- The section takes up memory. -/
def isAllocated (s : Section) : Bool := s.flags &&& 2 != 0

/-- The section has no bytes in the file. -/
def isZeroFill (s : Section) : Bool := s.type == 8

def isExecutable (s : Section) : Bool := s.isAllocated && s.flags &&& 4 != 0

/-- What the section has in the file lies there, and its addresses do not wrap. -/
def isSound (s : Section) (file : List UInt8) : Bool :=
  s.isZeroFill || s.size == 0 ||
    (s.offset.toNat + s.size.toNat ≤ file.length && s.address.toNat + s.size.toNat < UInt64.size)

end Section

/-! ## Headers -/

/-- A header before its name is looked up. -/
structure Header where
  nameOffset : Nat
  /-- The number of the section that this one refers to. -/
  link : Nat
  entrySize : Nat
  content : Section

namespace Layout

def sectionHeader? (l : Layout) (file : List UInt8) (base : Nat) : Option Header := do
  let _ ← Binary.slice? file base l.sectionHeaderSize
  let nameOffset ← l.natural? file base (0, 4) (0, 4)
  let type ← l.natural? file base (4, 4) (4, 4)
  let flags ← l.number? file base (8, 4) (8, 8)
  let address ← l.number? file base (12, 4) (16, 8)
  let offset ← l.number? file base (16, 4) (24, 8)
  let size ← l.number? file base (20, 4) (32, 8)
  let link ← l.natural? file base (24, 4) (40, 4)
  let entrySize ← l.natural? file base (36, 4) (56, 8)
  return ⟨nameOffset, link, entrySize, ⟨"", type, flags, address, offset, size⟩⟩

/-- `count` headers from `base`. -/
def sectionHeaders? (l : Layout) (file : List UInt8) (base : Nat) : (count : Nat) → Option (List Header)
  | 0 => some []
  | count + 1 => do
    let header ← l.sectionHeader? file base
    let others ← l.sectionHeaders? file (base + l.sectionHeaderSize) count
    return header :: others

def sectionTable? (l : Layout) (file : List UInt8) (base count : Nat) : Option (List Header) :=
  if base = 0 then some []
  else do
    let first ← l.sectionHeader? file base
    let count := if count = 0 then first.content.size.toNat else count
    if file.length / l.sectionHeaderSize < count then none
    else l.sectionHeaders? file base (max count 1)

end Layout

/-! ## Strings -/

/-- The number of the string table's section, if it stands in the first header. -/
def extendedIndex : Nat := 0xffff

/-- A string table; a missing section makes an empty one. -/
def stringTable? (file : List UInt8) (headers : List Header) (index : Nat) : Option (List UInt8) :=
  let index := if index = extendedIndex then (headers.head?.map (·.link)).getD index else index
  match headers[index]? with
  | none => some []
  | some h => do
    if !h.content.isSound file then none
    let table ← Binary.slice? file h.content.offset.toNat h.content.size.toNat
    let _ ← Binary.utf8? table
    return table

/-- The name at an offset, empty if no name of the table goes on from there. -/
def nameAt (table : List UInt8) (offset : Nat) : String :=
  (Binary.utf8? (Binary.untilZero table offset)).getD ""

end Lifter.Elf
