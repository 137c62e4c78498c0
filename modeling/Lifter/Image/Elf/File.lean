/-
  Lifter.Image.Elf.File — the entry point and the sections of an ELF file.

  A file is read as a whole or not at all: the tables that its headers name have to lie
  in it, also those that no image needs. These are the program headers, the dynamic
  section with its tables, the symbols with their names, the relocations and the
  versions of symbols.
-/

import Lifter.Image.Elf.Dynamic
import Lifter.Image.Elf.Section

namespace Lifter.Elf

structure File where
  entry : UInt64
  sections : List Section
  deriving DecidableEq, Repr

/-- The first dynamic section, if there is one, is readable. -/
def Layout.dynamicReadable (l : Layout) (file : List UInt8) (machine : Nat) (headers : List ProgramHeader) :
    Bool :=
  match headers.find? (·.isDynamic) with
  | none => true
  | some h => (Dynamic.ofHeader? l file headers h).any (·.isReadable l file machine)

/-- The last symbol table, if there is one, lies in the file, and so do the names of its symbols. -/
def Layout.symbolsReadable (l : Layout) (file : List UInt8) (headers : List Header) : Bool :=
  match headers.reverse.find? (·.content.type == 2) with
  | none => true
  | some h =>
    let count := h.content.size.toNat / h.entrySize
    (Binary.slice? file h.content.offset.toNat (count * l.symbolSize)).isSome &&
      (stringTable? file headers h.link).isSome

/-- The sections of relocations, with addends and without, lie in the file. -/
def relocationsReadable (file : List UInt8) (headers : List Header) : Bool :=
  (headers.filter fun h => h.content.type == 4 || h.content.type == 9).all (·.content.isSound file)

/-- The types of the sections that hold symbol versions: used, defined and needed ones. -/
def versionTypes : List Nat := [0x6fffffff, 0x6ffffffd, 0x6ffffffe]

/-- The first section of each kind of symbol versions lies in the file. -/
def versionsReadable (file : List UInt8) (headers : List Header) : Bool :=
  versionTypes.all fun type =>
    (headers.find? (·.content.type == type)).all fun h =>
      (Binary.slice? file h.content.offset.toNat h.content.size.toNat).isSome

/-- The entry point and the sections of a file that starts with the magic number. -/
def File.ofBytes? (file : List UInt8) : Option File := do
  let l ← Layout.ofIdent? file
  let _ ← Binary.slice? file 0 l.headerSize
  let machine ← l.natural? file 0 (18, 2) (18, 2)
  let entry ← l.number? file 0 (24, 4) (24, 8)
  let programTable ← l.natural? file 0 (28, 4) (32, 8)
  let sectionTable ← l.natural? file 0 (32, 4) (40, 8)
  let programCount ← l.natural? file 0 (44, 2) (56, 2)
  let sectionCount ← l.natural? file 0 (48, 2) (60, 2)
  let namesIndex ← l.natural? file 0 (50, 2) (62, 2)
  let programHeaders ← l.programHeaders? file programTable programCount
  let headers ← l.sectionTable? file sectionTable sectionCount
  let table ← stringTable? file headers namesIndex
  if !(l.symbolsReadable file headers && l.dynamicReadable file machine programHeaders &&
      relocationsReadable file headers && versionsReadable file headers) then none
  return ⟨entry, headers.map fun h => { h.content with name := nameAt table h.nameOffset }⟩

end Lifter.Elf
