/-
  Lifter.Image.Load — the segments that a program file maps.

  An ELF file maps its allocated sections that are not empty, each where it says. A PE
  file maps all its sections behind the image base, each with the size it has in
  memory: longer contents are cut, shorter ones filled up with zeros. A section has to
  lie in the file, may not claim more than 2^30 bytes that the file does not hold, and
  has to end by the last 64-bit address.
-/

import Lifter.Image.Elf.File
import Lifter.Image.Pe.File
import Lifter.Image.Segmented

namespace Lifter

inductive ImageError where
  | parse
  | unsupported
  | truncated (name : String)
  | tooLarge (name : String) (size : UInt64)
  | addressOverflow (name : String)
  deriving DecidableEq, Repr

def ImageError.message : ImageError → String
  | .parse => "Failed to parse binary format: the headers are malformed"
  | .unsupported => "Unsupported file format: expected ELF or PE"
  | .truncated name => s!"Section '{name}' extends past the end of the file"
  | .tooLarge name size => s!"Section '{name}' is too large ({Text.hex size} bytes)"
  | .addressOverflow name => s!"Section '{name}' wraps past the end of the address range"

namespace SegmentedImage

def maxSegmentSize : Nat := 0x40000000

/-- The number of bytes to make up, if it is not too large. -/
def zeroFillSize (name : String) (size : UInt64) : Except ImageError Nat :=
  if size.toNat ≤ maxSegmentSize then .ok size.toNat else .error (.tooLarge name size)

def fileContents (name : String) (file : List UInt8) (offset size : UInt64) : Except ImageError (List UInt8) :=
  match Binary.slice? file offset.toNat size.toNat with
  | none => .error (.truncated name)
  | some bytes => .ok bytes

/-! ## ELF -/

/-- The bytes of a section and the zeros behind them. -/
def elfContents (file : List UInt8) (s : Elf.Section) : Except ImageError (List UInt8 × Nat) :=
  if s.isZeroFill then (zeroFillSize s.name s.size).map ([], ·)
  else (fileContents s.name file s.offset s.size).map (·, 0)

def elfSegment (file : List UInt8) (s : Elf.Section) : Except ImageError Segment := do
  let (bytes, zeros) ← elfContents file s
  if UInt64.size ≤ s.address.toNat + s.size.toNat then .error (.addressOverflow s.name)
  return ⟨s.name, s.address, bytes, zeros, s.isExecutable⟩

def ofElf (file : List UInt8) (elf : Elf.File) : Except ImageError SegmentedImage := do
  let segments ← (elf.sections.filter fun s => s.isAllocated && s.size != 0).mapM (elfSegment file)
  return ⟨segments, some elf.entry⟩

/-! ## PE -/

/-- The bytes of a section and the zeros behind them, at its size in memory if it has one. -/
def peContents (file : List UInt8) (s : Pe.Section) : Except ImageError (List UInt8 × Nat) := do
  let bytes ← fileContents s.name file s.rawOffset.toUInt64 s.rawSize.toUInt64
  if s.virtualSize = 0 then return (bytes, 0)
  let size ← zeroFillSize s.name s.virtualSize.toUInt64
  return (bytes.take size, size - bytes.length)

def peSegment (file : List UInt8) (base : UInt64) (s : Pe.Section) : Except ImageError Segment := do
  let (bytes, zeros) ← peContents file s
  if UInt64.size ≤ base.toNat + s.virtualAddress.toNat + (bytes.length + zeros) then
    .error (.addressOverflow s.name)
  return ⟨s.name, base + s.virtualAddress.toUInt64, bytes, zeros, s.isExecutable⟩

def ofPe (file : List UInt8) (pe : Pe.File) : Except ImageError SegmentedImage := do
  let segments ← pe.sections.mapM (peSegment file pe.base)
  if UInt64.size ≤ pe.base.toNat + pe.entry.toNat then .error (.addressOverflow "entry")
  return ⟨segments, some (pe.base + pe.entry.toUInt64)⟩

/-- The image of a program file, told by its magic number. -/
def ofFile (file : List UInt8) : Except ImageError SegmentedImage :=
  if file.length < 16 then .error .parse
  else if Elf.magic.isPrefixOf file then
    match Elf.File.ofBytes? file with
    | none => .error .parse
    | some elf => ofElf file elf
  else if Pe.magic.isPrefixOf file then
    match Pe.File.ofBytes? file with
    | none => .error .parse
    | some pe => ofPe file pe
  else .error .unsupported

end SegmentedImage

end Lifter
