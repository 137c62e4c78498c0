/-
  Lifter.Address — places in a space, and the storage found there.

  An address is an offset that its space can hold; building one wraps the offset, and
  stepping forward wraps again. A `Storage` names a run of bytes as a processor
  description declares it, its offset not yet wrapped; a `Varnode` is the run at an
  address. Two spaces of one processor are the same if they have the same number, so
  addresses are compared by space number and offset.
-/

import Lifter.Space
import Lifter.Text.Numeral
import Lifter.Text.Quoted

namespace Lifter

structure Address where
  space : Space
  offset : UInt64
  offset_le : offset ≤ space.highest
  deriving DecidableEq

namespace Space

/-- The address of `offset` in `s`, wrapped to its width. -/
def address (s : Space) (offset : UInt64) : Address := ⟨s, s.wrap offset, s.wrap_le_highest offset⟩

end Space

namespace Address

/-- The address `delta` bytes further on, wrapping within the space. -/
def advance (a : Address) (delta : UInt64) : Address := a.space.address (a.offset + delta)

def same (a b : Address) : Bool := a.space.id == b.space.id && a.offset == b.offset

/-- `size` bytes from `a` lie inside `otherSize` bytes from `b`; the ends do not wrap. -/
def containedBy (a : Address) (size : UInt64) (b : Address) (otherSize : UInt64) : Bool :=
  a.space.id == b.space.id && b.offset ≤ a.offset &&
    a.offset.toNat + size.toNat ≤ b.offset.toNat + otherSize.toNat

/-- The position of the byte `skip` bytes after `a` in the `size` bytes from `b`, counted in 64
    bits; constants have no bytes in common. -/
def overlap (a : Address) (skip : UInt64) (b : Address) (size : UInt64) : Option UInt64 :=
  if a.space.id == b.space.id && !a.space.isConstant then
    let distance := a.offset + skip - b.offset
    if distance < size then some distance else none
  else none

/-- `a` holds the high part of a value and `low` the rest: the two runs meet, in the order in
    which the space keeps the bytes of a number. -/
def isContiguous (a : Address) (size : UInt64) (low : Address) (lowSize : UInt64) : Bool :=
  a.space.id == low.space.id &&
    if a.space.bigEndian then a.offset + size == low.offset else low.offset + lowSize == a.offset

/-- The space's name and the offset in as many digits as its width has. -/
def text (a : Address) : String :=
  a.space.name ++ ":" ++ Text.hexColumn (2 * a.space.addressSize) a.offset

def debugText (a : Address) : String :=
  "Address \x7b space: " ++ Text.quoted a.space.name ++ ", offset: " ++ Text.hex a.offset ++ " \x7d"

@[simp] theorem offset_address (s : Space) (offset : UInt64) : (s.address offset).offset = s.wrap offset := rfl

@[simp] theorem space_address (s : Space) (offset : UInt64) : (s.address offset).space = s := rfl

/-- An address is that of its own offset. -/
theorem address_offset (a : Address) : a.space.address a.offset = a := by
  cases a with
  | mk space offset h => simp [Space.address, Space.wrap_of_le h]

end Address

/-- A run of bytes as declared. -/
structure Storage where
  space : Space
  offset : UInt64
  size : Nat
  deriving DecidableEq, Repr

/-- A run of bytes at an address. -/
structure Varnode where
  address : Address
  size : Nat
  deriving DecidableEq

namespace Storage

def same (a b : Storage) : Bool :=
  a.space.id == b.space.id && a.offset == b.offset && a.size == b.size

def varnode (s : Storage) : Varnode := ⟨s.space.address s.offset, s.size⟩

end Storage

namespace Varnode

def storage (v : Varnode) : Storage := ⟨v.address.space, v.address.offset, v.size⟩

def same (v w : Varnode) : Bool := v.address.same w.address && v.size == w.size

def text (v : Varnode) : String := "[" ++ v.address.text ++ "]#" ++ toString v.size

def debugText (v : Varnode) : String :=
  "(" ++ v.address.space.name ++ ", " ++ Text.hex v.address.offset ++ ", " ++ toString v.size ++ ")"

end Varnode

end Lifter
