/-
  Lifter.Image.Pe.File — the base, the entry point and the sections of a PE file.

  A file is read as a whole or not at all: what its data directories name has to be
  readable too, although no image needs it. Exports are the exception; those that cannot
  be read are left out.
-/

import Lifter.Image.Pe.Certificates
import Lifter.Image.Pe.Debug
import Lifter.Image.Pe.Imports
import Lifter.Image.Pe.RichHeader
import Lifter.Image.Pe.ThreadStorage

namespace Lifter.Pe

structure File where
  base : UInt64
  /-- The entry point, relative to the base. -/
  entry : UInt32
  sections : List Section
  deriving DecidableEq, Repr

def magic : List UInt8 := [0x4d, 0x5a]

/-- What stands in front of the PE header. -/
def stubStart : Nat := 0x40

/-- The machine for which functions are listed with how to unwind them. -/
def unwindingMachine : Nat := 0x8664

/-- The list of functions is made of records of 12 bytes and mapped at a word of the file. -/
def functionsReadable (m : Mapping) (d : Directory) : Bool :=
  d.size % 12 == 0 && (m.offset? d.address).any (· % 4 == 0)

/-- What the data directories name can be read. -/
def OptionalHeader.directoriesReadable (h : OptionalHeader) (file : List UInt8) (sections : List Section)
    (machine : Nat) : Bool :=
  let m : Mapping := ⟨sections, h.fileAlignment⟩
  (h.directory? 1).all (fun d => Imports.isReadable file m h.addressSize d.address) &&
    (h.directory? 3).all (fun d => machine != unwindingMachine || functionsReadable m d) &&
    (h.directory? 4).all (fun d => Certificates.isReadable file d.address d.size) &&
    (h.directory? 6).all (fun d => Debug.isReadable file m d.address) &&
    (h.directory? 9).all (fun d => ThreadStorage.isReadable file h m d.address)

/-- The headers of a file that starts with the magic number. -/
def File.ofBytes? (file : List UInt8) : Option File := do
  let header ← natural? file 0x3c 4
  if (← Binary.slice? file header 4) != [0x50, 0x45, 0, 0] then none
  if header ≤ stubStart then none
  if !RichHeader.isReadable (← Binary.slice? file stubStart (header - stubStart)) then none
  let coff := header + 4
  let _ ← Binary.slice? file coff 20
  let machine ← natural? file coff 2
  let count ← natural? file (coff + 2) 2
  let symbols ← natural? file (coff + 8) 4
  let symbolCount ← natural? file (coff + 12) 4
  let optionalSize ← natural? file (coff + 16) 2
  let optional ← if optionalSize = 0 then some none else (OptionalHeader.ofBytes? file (coff + 20)).map some
  if file.length / 40 < count then none
  let sections ← sections? file (symbols + 18 * symbolCount) (coff + 20 + optionalSize) count
  match optional with
  | none => return ⟨0, 0, sections⟩
  | some h => if h.directoriesReadable file sections machine then some ⟨h.base, h.entry, sections⟩ else none

end Lifter.Pe
