/-
  Lifter.Image.Binary — numbers, tables and strings in a file.

  Everything is found by its offset, and nothing is found past the end of the file.
-/

import Lifter.Bits

namespace Lifter.Binary

def slice? (file : List UInt8) (offset size : Nat) : Option (List UInt8) :=
  if offset + size ≤ file.length then some ((file.drop offset).take size) else none

/-- An unsigned number of at most eight bytes. -/
def number? (bigEndian : Bool) (file : List UInt8) (offset size : Nat) : Option UInt64 :=
  (slice? file offset size).map (word bigEndian)

def natural? (bigEndian : Bool) (file : List UInt8) (offset size : Nat) : Option Nat :=
  (number? bigEndian file offset size).map (·.toNat)

/-! ## Strings -/

def utf8? (bytes : List UInt8) : Option String := String.fromUTF8? ⟨bytes.toArray⟩

/-- The bytes from `offset` up to a zero byte. -/
def untilZero (table : List UInt8) (offset : Nat) : List UInt8 :=
  (table.drop offset).takeWhile (· != 0)

/-- The text from `offset` up to a zero byte or to the end of the file, where it may also begin. -/
def string? (file : List UInt8) (offset : Nat) : Option String :=
  if offset ≤ file.length then utf8? (untilZero file offset) else none

/-! ## Runs of numbers -/

/-- The number that the first `size` bytes make. -/
def firstNatural (bigEndian : Bool) (size : Nat) (bytes : List UInt8) : Nat :=
  (word bigEndian (bytes.take size)).toNat

/-- The numbers of four bytes each, without what is left at the end. -/
def naturals (bigEndian : Bool) : List UInt8 → List Nat
  | a :: b :: c :: d :: rest => (word bigEndian [a, b, c, d]).toNat :: naturals bigEndian rest
  | _ => []

/-- The numbers of `size` bytes each up to one that is zero, if there is one. -/
def naturalsUntilZero? (bigEndian : Bool) (size : Nat) (bytes : List UInt8) : Option (List Nat) :=
  if 0 < size ∧ size ≤ bytes.length then
    match firstNatural bigEndian size bytes with
    | 0 => some []
    | n => (naturalsUntilZero? bigEndian size (bytes.drop size)).map (n :: ·)
  else none
termination_by bytes.length
decreasing_by simp only [List.length_drop]; omega

end Lifter.Binary
