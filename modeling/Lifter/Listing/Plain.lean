/-
  Lifter.Listing.Plain — a listing for reading.

  A title and an empty line, then a line for each entry: its address, the assembly text
  in a column of 24 characters and the bytes, or the reason of a failure. Each
  micro-operation has a line of its own below its instruction, twelve spaces in.
-/

import Lifter.Listing.Basic

namespace Lifter.Listing

def addressColumn (a : UInt64) : String := "0x" ++ Text.hexColumn 8 a ++ ": "

def entryLines : ListingEntry → List String
  | .decoded insn =>
    (addressColumn insn.address ++ Text.padRight 24 insn.line.text ++ " ; " ++ Text.hexBytes insn.bytes) ::
      insn.ops.map (String.ofList (List.replicate 12 ' ') ++ ·.text)
  | .failed address error => [addressColumn address ++ "<invalid> ; " ++ error]

def plain (l : Listing) : String :=
  "Listing for " ++ l.language ++ " (" ++ l.space ++ "):\n\n" ++
    String.join ((l.entries.flatMap entryLines).map (· ++ "\n"))

end Lifter.Listing
