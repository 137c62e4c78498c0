/-
  Lifter.Image.Elf.Dynamic — the dynamic section and the tables it names.

  The dynamic section is a list of tagged values. Of the tables that it names, the
  strings, the three kinds of relocations and the symbols have to lie in the file. No
  value gives the number of symbols: a hash table tells it, and a relocation may refer
  to a symbol past that number.
-/

import Lifter.Image.Elf.ProgramHeader

namespace Lifter.Elf

structure DynamicEntry where
  tag : Nat
  value : Nat
  deriving DecidableEq, Repr

structure Dynamic where
  programHeaders : List ProgramHeader
  entries : List DynamicEntry
  deriving Repr

/-- At most `count` entries, up to one with the tag zero. -/
def Layout.dynamicEntries (l : Layout) : (count : Nat) → List UInt8 → List DynamicEntry
  | 0, _ => []
  | count + 1, bytes =>
    match Binary.firstNatural l.bigEndian l.wordSize bytes with
    | 0 => []
    | tag =>
      ⟨tag, Binary.firstNatural l.bigEndian l.wordSize (bytes.drop l.wordSize)⟩
        :: l.dynamicEntries count (bytes.drop (2 * l.wordSize))

namespace Dynamic

/-- The value with a tag, of several the last. -/
def value? (d : Dynamic) (tag : Nat) : Option Nat :=
  (d.entries.reverse.find? (·.tag == tag)).map (·.value)

def size (d : Dynamic) (tag : Nat) : Nat := (d.value? tag).getD 0

/-- Where the file holds what a value's address names. -/
def place? (d : Dynamic) (tag : Nat) : Option Nat :=
  (d.value? tag).bind (fileOffset? d.programHeaders)

def offset (d : Dynamic) (tag : Nat) : Nat := (d.place? tag).getD 0

/-- The dynamic section of a file; the one without entries if it takes no bytes there. -/
def ofHeader? (l : Layout) (file : List UInt8) (headers : List ProgramHeader) (h : ProgramHeader) :
    Option Dynamic := do
  let bytes ← if h.fileSize = 0 then some [] else Binary.slice? file h.offset h.fileSize
  return ⟨headers, l.dynamicEntries (h.fileSize / (2 * l.wordSize)) bytes⟩

end Dynamic

/-! ## Relocations -/

/-- The symbols that `count` relocations refer to. -/
def Layout.relocationSymbols (l : Layout) (withAddend : Bool) : (count : Nat) → List UInt8 → List Nat
  | 0, _ => []
  | count + 1, bytes =>
    let info := Binary.firstNatural l.bigEndian l.wordSize (bytes.drop l.wordSize)
    info >>> (if l.wide then 32 else 8)
      :: l.relocationSymbols withAddend count (bytes.drop (l.relocationSize withAddend))

/-- The symbols that a table of relocations refers to. -/
def Layout.relocations? (l : Layout) (file : List UInt8) (offset size : Nat) (withAddend : Bool) :
    Option (List Nat) := do
  let bytes ← if size = 0 then some [] else Binary.slice? file offset size
  return l.relocationSymbols withAddend (size / l.relocationSize withAddend) bytes

/-- The tags of a table of relocations with addends. -/
def addendTable : Nat := 7

/-- The symbols that the relocations refer to: those with addends, those without, and those of the
    jump slots, which say themselves of which form they are. -/
def Dynamic.relocations? (d : Dynamic) (l : Layout) (file : List UInt8) : Option (List Nat) := do
  let withAddend ← l.relocations? file (d.offset addendTable) (d.size 8) true
  let without ← l.relocations? file (d.offset 17) (d.size 18) false
  let slots ← l.relocations? file (d.offset 23) (d.size 2) (d.size 20 == addendTable)
  return withAddend ++ without ++ slots

/-! ## Symbols -/

/-- How many numbers there are up to the first odd one, which counts. -/
def countToOdd? : List Nat → Option Nat
  | [] => none
  | n :: rest => if n % 2 = 1 then some 1 else (countToOdd? rest).map (· + 1)

/-- The number of symbols by the table of chained hashes. Its buckets give the first symbol of each
    chain, and an odd hash ends a chain; the symbols end with the chain that starts last. -/
def Layout.symbolsOfChains? (l : Layout) (file : List UInt8) (offset : Nat) : Option Nat := do
  let buckets ← Binary.natural? l.bigEndian file offset 4
  let first ← Binary.natural? l.bigEndian file (offset + 4) 4
  let filter ← Binary.natural? l.bigEndian file (offset + 8) 4
  if buckets = 0 ∨ first = 0 ∨ filter = 0 then none
  let start := offset + 16 + filter * l.wordSize
  let starts ← Binary.slice? file start (4 * buckets)
  let last := (Binary.naturals l.bigEndian starts).foldl max 0
  if last < first then return 0
  let chain := file.drop (start + 4 * buckets + 4 * (last - first))
  let length ← countToOdd? (Binary.naturals l.bigEndian chain)
  return last + length

/-- The machines whose plain hash table is made of words. -/
def hashesInWords (machine : Nat) : Bool := machine == 41 || machine == 22

/-- The number of symbols by the plain hash table, which has one chain link for each. -/
def Layout.symbolsOfLinks? (l : Layout) (file : List UInt8) (machine offset : Nat) : Option Nat :=
  Binary.natural? l.bigEndian file (offset + 4) (if hashesInWords machine && l.wide then 8 else 4)

def Dynamic.hashedSymbols? (d : Dynamic) (l : Layout) (file : List UInt8) (machine : Nat) : Option Nat :=
  match d.place? 0x6ffffef5, d.place? 4 with
  | some offset, _ => l.symbolsOfChains? file offset
  | none, some offset => l.symbolsOfLinks? file machine offset
  | none, none => some 0

/-! ## The whole section -/

/-- The tables that the dynamic section names lie in the file, and its strings are text. -/
def Dynamic.isReadable (d : Dynamic) (l : Layout) (file : List UInt8) (machine : Nat) : Bool :=
  Option.isSome do
    let _ ← Binary.utf8? (← Binary.slice? file (d.offset 5) (d.size 10))
    let referred := (← d.relocations? l file).foldl max 0
    let hashed ← d.hashedSymbols? l file machine
    let count := if referred = 0 then hashed else max hashed (referred + 1)
    Binary.slice? file (d.offset 6) (count * l.symbolSize)

end Lifter.Elf
