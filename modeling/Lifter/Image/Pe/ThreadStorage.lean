/-
  Lifter.Image.Pe.ThreadStorage — the storage that each thread gets.

  The directory gives the first and last address of the initial contents, the address of
  the storage's number and that of a list of functions to call. These addresses are
  absolute, and none may lie in front of the image base.
-/

import Lifter.Image.Pe.OptionalHeader

namespace Lifter.Pe.ThreadStorage

/-- Where the file holds what is mapped at an absolute address. -/
def offset? (h : OptionalHeader) (m : Mapping) (address : Nat) : Option Nat :=
  if address < h.base.toNat then none else m.offset? (address - h.base.toNat)

/-- The initial contents, if there are any, can be read. -/
def contentsReadable (file : List UInt8) (h : OptionalHeader) (m : Mapping) (first last : Nat) : Bool :=
  first == 0 || last == 0 ||
    first ≤ last && (offset? h m first).any fun offset => (Binary.slice? file offset (last - first)).isSome

/-- The functions to call, if there are any, are listed up to a zero and all mapped. -/
def callbacksReadable (file : List UInt8) (h : OptionalHeader) (m : Mapping) (list : Nat) : Bool :=
  list == 0 ||
    (offset? h m list).any fun offset =>
      (Binary.naturalsUntilZero? false h.addressSize (file.drop offset)).any
        (·.all fun callback => (offset? h m callback).isSome)

/-- The directory at an address, relative to the image base, can be read. -/
def isReadable (file : List UInt8) (h : OptionalHeader) (m : Mapping) (address : Nat) : Bool :=
  Option.isSome do
    let offset ← m.offset? address
    let _ ← Binary.slice? file offset (4 * h.addressSize + 8)
    let field (number : Nat) : Option Nat := natural? file (offset + number * h.addressSize) h.addressSize
    let first ← field 0
    let last ← field 1
    let index ← field 2
    let list ← field 3
    if contentsReadable file h m first last && (index == 0 || h.base.toNat ≤ index) &&
        callbacksReadable file h m list then some () else none

end Lifter.Pe.ThreadStorage
