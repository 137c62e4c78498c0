/-
  Lifter.Image.Pe.Certificates — the signatures that are attached to a file.

  They are found by their place in the file, not by an address. Each begins with its
  size, a revision and a kind, and the next one starts at a multiple of eight.
-/

import Lifter.Image.Pe.Section

namespace Lifter.Pe.Certificates

/-- The size of what stands in front of a signature, which its own size includes. -/
def headerSize : Nat := 8

/-- Where the next signature starts, behind one that can be read. -/
def next? (file : List UInt8) (offset : Nat) : Option Nat := do
  let size ← natural? file offset 4
  let revision ← natural? file (offset + 4) 2
  let kind ← natural? file (offset + 6) 2
  let body := size - headerSize
  let _ ← Binary.slice? file (offset + headerSize) body
  if (revision = 0x100 ∨ revision = 0x200) ∧ 1 ≤ kind ∧ kind ≤ 4 then
    some (roundUp 8 (offset + headerSize + body))
  else none

/-- At most `count` signatures from `offset` on reach `last`. -/
def reach (file : List UInt8) (last : Nat) : (count : Nat) → (offset : Nat) → Bool
  | 0, offset => last ≤ offset
  | count + 1, offset => last ≤ offset || (next? file offset).any (reach file last count)

/-- The signatures lie in the file. Each takes eight bytes or more, which bounds their number. -/
def isReadable (file : List UInt8) (offset size : Nat) : Bool :=
  offset + size ≤ file.length && reach file (offset + size) size offset

end Lifter.Pe.Certificates
