/-
  Lifter.Image.Flat — one run of bytes at a base address.

  A request is answered if all of it lies in the run. Addresses do not wrap inside a
  request.
-/

import Lifter.ByteSource

namespace Lifter

structure FlatImage where
  base : UInt64
  bytes : List UInt8
  deriving DecidableEq, Repr

namespace FlatImage

/-- One past the last address. -/
def stop (image : FlatImage) : UInt64 := image.base + UInt64.ofNat image.bytes.length

def read (image : FlatImage) (offset : UInt64) (n : Nat) : Except SourceError (Bytes n) :=
  let skipped := (offset - image.base).toNat
  if h : image.base ≤ offset ∧ skipped + n ≤ image.bytes.length then
    .ok ⟨(image.bytes.drop skipped).take n, by simp only [List.length_take, List.length_drop]; omega⟩
  else .error (.outOfRange offset n)

def rebase (image : FlatImage) (delta : Int64) : FlatImage :=
  { image with base := image.base + delta.toUInt64 }

instance : ByteSource FlatImage where
  fill := ByteSource.ofRead read
  rebase := rebase

end FlatImage

end Lifter
