/-
  Lifter.Image.Pe.Section — the section table and the addresses it maps.

  A section's name is eight bytes, padded with zeros. A name that starts with a slash
  stands in the file's string table, at the decimal offset behind the slash or, behind
  two slashes, at an offset in base 64.
-/

import Lifter.Image.Binary
import Lifter.Text.Numeral

namespace Lifter.Pe

structure Section where
  name : String
  virtualSize : UInt32
  virtualAddress : UInt32
  rawSize : UInt32
  /-- Where the contents lie in the file. -/
  rawOffset : UInt32
  characteristics : UInt32
  deriving DecidableEq, Repr

def Section.isExecutable (s : Section) : Bool := s.characteristics &&& 0x20000000 != 0

/-! ## Numbers -/

def natural? (file : List UInt8) (offset size : Nat) : Option Nat := Binary.natural? false file offset size

def half? (file : List UInt8) (offset : Nat) : Option UInt32 :=
  (Binary.number? false file offset 4).map (·.toUInt32)

/-! ## Names -/

/-- The value of a digit in base 64: letters, lower case letters, digits, plus and slash. -/
def base64Digit? (byte : UInt8) : Option Nat :=
  let c := byte.toNat
  if 0x41 ≤ c ∧ c ≤ 0x5a then some (c - 0x41)
  else if 0x61 ≤ c ∧ c ≤ 0x7a then some (c - 0x61 + 26)
  else if 0x30 ≤ c ∧ c ≤ 0x39 then some (c - 0x30 + 52)
  else if c = 0x2b then some 62
  else if c = 0x2f then some 63
  else none

/-- A number in base 64, most significant digit first; no digits make zero. -/
def readBase64 (digits : List UInt8) : Option Nat :=
  digits.foldlM (fun n byte => (base64Digit? byte).map (64 * n + ·)) 0

/-- The offset in the string table that a name in a section header gives, if it gives one. -/
def nameOffset? : List UInt8 → Option (Option Nat)
  | 0x2f :: 0x2f :: digits => (readBase64 digits).map some
  | 0x2f :: digits => do
    let text ← Binary.utf8? digits
    return some (← (Text.readUnsigned 10 text.toList).toOption).toNat
  | _ => some none

/-- The name in a section header; names of the string table start at `strings`. -/
def name? (file : List UInt8) (strings base : Nat) : Option String := do
  let short := Binary.untilZero (← Binary.slice? file base 8) 0
  match ← nameOffset? short with
  | some offset => Binary.string? file (strings + offset)
  | none => return (Binary.utf8? short).getD ""

/-! ## The table -/

def section? (file : List UInt8) (strings base : Nat) : Option Section := do
  let _ ← Binary.slice? file base 40
  let name ← name? file strings base
  let virtualSize ← half? file (base + 8)
  let virtualAddress ← half? file (base + 12)
  let rawSize ← half? file (base + 16)
  let rawOffset ← half? file (base + 20)
  let characteristics ← half? file (base + 36)
  return ⟨name, virtualSize, virtualAddress, rawSize, rawOffset, characteristics⟩

/-- `count` sections from `base`. -/
def sections? (file : List UInt8) (strings base : Nat) : (count : Nat) → Option (List Section)
  | 0 => some []
  | count + 1 => do
    let s ← section? file strings base
    let others ← sections? file strings (base + 40) count
    return s :: others

/-! ## Addresses -/

def roundDown (unit n : Nat) : Nat := n / unit * unit

def roundUp (unit n : Nat) : Nat := roundDown unit (n + unit - 1)

/-- Contents are mapped from the start of a disk sector, wherever the header says they begin. -/
def Section.sectorStart (s : Section) : Nat := roundDown 512 s.rawOffset.toNat

/-- How many bytes of the file are mapped: up to the next unit of the file, and no more pages than
    the section has in the file or in memory. A section that has none in the file covers its size in
    memory. -/
def Section.mappedSize (s : Section) (fileAlignment : Nat) : Nat :=
  let inFile := roundUp fileAlignment (s.rawOffset.toNat + s.rawSize.toNat) - s.sectorStart
  let size := min inFile (roundUp 4096 s.rawSize.toNat)
  if s.rawSize = 0 then s.virtualSize.toNat
  else if s.virtualSize = 0 then size
  else min size (roundUp 4096 s.virtualSize.toNat)

/-- What the loader knows of a file's layout in memory. -/
structure Mapping where
  sections : List Section
  fileAlignment : Nat
  deriving Repr

def isPowerOfTwo (n : Nat) : Bool := n != 0 && n &&& (n - 1) == 0

/-- Where the file holds what is mapped at an address, relative to the image base. Nothing is mapped
    if the file alignment is no power of two. -/
def Mapping.offset? (m : Mapping) (address : Nat) : Option Nat :=
  if isPowerOfTwo m.fileAlignment then
    (m.sections.find? fun s =>
      s.virtualAddress.toNat ≤ address &&
        address < s.virtualAddress.toNat + s.mappedSize m.fileAlignment).map fun s =>
      address - s.virtualAddress.toNat + s.sectorStart
  else none

end Lifter.Pe
