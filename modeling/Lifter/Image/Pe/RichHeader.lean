/-
  Lifter.Image.Pe.RichHeader — the record of tools between the two headers of a file.

  Linkers may leave a record in front of the PE header. It ends with the word `Rich` and
  a key; in front of these are words under the key, that is, combined with it by
  exclusive or, the first of which is `DanS`. Behind that come words of zero, which
  read like the key, and then the data.
-/

import Lifter.Image.Binary

namespace Lifter.Pe.RichHeader

/-- The word that ends the record. -/
def endMark : Nat := 0x68636952

/-- The word that begins the record, under the key. -/
def startMark : Nat := 0x536e6144

/-- The position of the word that ends the record, and the key behind it. -/
def findEnd? : List UInt8 → Option (Nat × Nat)
  | [] => none
  | b :: rest =>
    if 7 ≤ rest.length ∧ Binary.firstNatural false 4 (b :: rest) = endMark then
      some (0, Binary.firstNatural false 4 (rest.drop 3))
    else (findEnd? rest).map fun found => (found.1 + 1, found.2)

/-- The position of the word that begins the record. -/
def findStart? (key : Nat) : List UInt8 → Option Nat
  | [] => none
  | b :: rest =>
    if 3 ≤ rest.length ∧ Binary.firstNatural false 4 (b :: rest) ^^^ key = startMark then some 0
    else (findStart? key rest).map (· + 1)

/-- There is no record, or it begins in front of its end and is made of words. -/
def isReadable (stub : List UInt8) : Bool :=
  match findEnd? stub with
  | none => true
  | some (last, key) =>
    match findStart? key (stub.take last) with
    | none => false
    | some first => first + 4 < last && (last - first) % 4 == 0

end Lifter.Pe.RichHeader
