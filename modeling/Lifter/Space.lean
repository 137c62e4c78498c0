/-
  Lifter.Space — address spaces.

  A space is a named, linear run of byte offsets. Its width in bytes fixes the
  highest offset, and every offset can be wrapped to that width. Spaces are numbered
  in the order in which a processor description declares them; space 0 holds the
  constants, whose offsets are the values themselves.
-/

import Lifter.Bits
import Lifter.Text.Case

namespace Lifter

inductive SpaceKind where
  | constant
  | processor
  | spacebase
  | internal
  | fspec
  | iop
  | join
  deriving DecidableEq, Repr

namespace SpaceKind

def name : SpaceKind → String
  | .constant => "constant"
  | .processor => "processor"
  | .spacebase => "spacebase"
  | .internal => "internal"
  | .fspec => "fspec"
  | .iop => "iop"
  | .join => "join"

/-- Every kind, in numeric order from 0. -/
def all : List SpaceKind := [.constant, .processor, .spacebase, .internal, .fspec, .iop, .join]

def number (k : SpaceKind) : Nat := all.idxOf k

def ofNumber? (n : Nat) : Option SpaceKind := all[n]?

/-- Names are read without regard to case; three kinds have a second name. -/
def ofName? (s : String) : Option SpaceKind :=
  match Text.lower s with
  | "constant" | "const" => some .constant
  | "processor" | "ram" => some .processor
  | "spacebase" => some .spacebase
  | "internal" | "unique" => some .internal
  | "fspec" => some .fspec
  | "iop" => some .iop
  | "join" => some .join
  | _ => none

/-- The character that stands for a space of this kind. -/
def shortcut : SpaceKind → Char
  | .constant => '#'
  | .processor => '*'
  | .spacebase => 's'
  | .internal => 'u'
  | .fspec => 'f'
  | .iop => 'i'
  | .join => 'j'

theorem ofNumber?_number (k : SpaceKind) : ofNumber? k.number = some k := by cases k <;> decide

end SpaceKind

/-- The position of a space in its processor's list. -/
structure SpaceId where
  index : Nat
  deriving DecidableEq, Repr

structure Space where
  id : SpaceId
  name : String
  kind : SpaceKind
  /-- Bytes in an offset. -/
  addressSize : Nat
  /-- Bytes in an addressable unit. -/
  wordSize : Nat
  bigEndian : Bool
  deriving DecidableEq, Repr

namespace Space

def isConstant (s : Space) : Bool := s.kind == .constant

/-- The largest offset: all bits of the address size, of which at most eight bytes count. -/
def highest (s : Space) : UInt64 := lowMask (8 * s.addressSize)

def wrap (s : Space) (offset : UInt64) : UInt64 := offset &&& s.highest

theorem wrap_le_highest (s : Space) (offset : UInt64) : s.wrap offset ≤ s.highest := and_lowMask_le _ _

theorem wrap_of_le {s : Space} {offset : UInt64} (h : offset ≤ s.highest) : s.wrap offset = offset :=
  and_lowMask_of_le h

/-- How many offsets there are; a wrapped offset is a remainder by this. -/
def extent (s : Space) : Nat := capacity (min (8 * s.addressSize) 64)

theorem toNat_highest (s : Space) : s.highest.toNat = s.extent - 1 := toNat_lowMask _

theorem extent_pos (s : Space) : 0 < s.extent := capacity_pos _

theorem extent_dvd (s : Space) : s.extent ∣ UInt64.size := Nat.pow_dvd_pow 2 (Nat.min_le_right _ 64)

theorem toNat_wrap (s : Space) (offset : UInt64) : (s.wrap offset).toNat = offset.toNat % s.extent :=
  toNat_and_lowMask _ _

/-- Steps wrap once, however far they go. -/
theorem toNat_wrap_add (s : Space) (offset : UInt64) (k : Nat) :
    (s.wrap (offset + UInt64.ofNat k)).toNat = (offset.toNat + k) % s.extent := by
  rw [toNat_wrap, toNat_add_ofNat, Nat.mod_mod_of_dvd _ s.extent_dvd]

end Space

end Lifter
