/-
  Lifter.Image.Elf.Layout — how an ELF file writes its records.

  Files of 32 and 64 bits and of both byte orders are read. The two widths keep the
  same fields in records of different sizes.
-/

import Lifter.Image.Binary

namespace Lifter.Elf

def magic : List UInt8 := [0x7f, 0x45, 0x4c, 0x46]

/-- Word size and byte order. -/
structure Layout where
  wide : Bool
  bigEndian : Bool
  deriving DecidableEq, Repr

namespace Layout

def ofIdent? (file : List UInt8) : Option Layout :=
  match file[4]?, file[5]? with
  | some width, some order =>
    if (width = 1 ∨ width = 2) ∧ (order = 1 ∨ order = 2) then some ⟨width == 2, order == 2⟩ else none
  | _, _ => none

/-! ## Sizes -/

def wordSize (l : Layout) : Nat := if l.wide then 8 else 4

def headerSize (l : Layout) : Nat := if l.wide then 64 else 52

def programHeaderSize (l : Layout) : Nat := if l.wide then 56 else 32

def sectionHeaderSize (l : Layout) : Nat := if l.wide then 64 else 40

def symbolSize (l : Layout) : Nat := if l.wide then 24 else 16

/-- A relocation is an address, a word of information and, in one of its two forms, an addend. -/
def relocationSize (l : Layout) (withAddend : Bool) : Nat :=
  if withAddend then 3 * l.wordSize else 2 * l.wordSize

/-! ## Fields -/

/-- Reads a number that is at `narrow` in a 32-bit record and at `wide` in a 64-bit one, where its
    place and size are given. -/
def number? (l : Layout) (file : List UInt8) (base : Nat) (narrow wide : Nat × Nat) : Option UInt64 :=
  let place := if l.wide then wide else narrow
  Binary.number? l.bigEndian file (base + place.1) place.2

def natural? (l : Layout) (file : List UInt8) (base : Nat) (narrow wide : Nat × Nat) : Option Nat :=
  (l.number? file base narrow wide).map (·.toNat)

end Layout

end Lifter.Elf
