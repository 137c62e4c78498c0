/-
  Lifter.Listing.Lines — a listing as one JSON value a line.

  Every entry is an object of its own in the compact form, with its type and the
  processor's name. The members of all objects are in alphabetical order. Every line is
  ended by a line feed, and nothing in an object is one.
-/

import Lifter.Json
import Lifter.Listing.Basic

namespace Lifter.Listing

def varnodeLine (v : VarnodeRecord) : Json :=
  .object [("offset", .number v.offset.toNat), ("size", .number v.size), ("space", .text v.space)]

def opLine (op : OpRecord) : Json :=
  let output :=
    match op.output with
    | none => .null
    | some v => varnodeLine v
  .object
    [("address", .number op.address.toNat),
     ("inputs", .array (op.inputs.map varnodeLine)),
     ("opcode", .text op.opcode.name),
     ("output", output)]

def entryLine (language : String) : ListingEntry → Json
  | .decoded insn =>
    .object
      [("address", .text (Text.hex insn.address)),
       ("bytes", .text (Text.hexBytes insn.bytes)),
       ("language", .text language),
       ("length", .number insn.length),
       ("mnemonic", .text insn.line.mnemonic),
       ("operands", .text insn.line.operands),
       ("pcode", .array (insn.ops.map opLine)),
       ("type", .text "instruction")]
  | .failed address error =>
    .object
      [("address", .text (Text.hex address)),
       ("error", .text error),
       ("language", .text language),
       ("type", .text "failure")]

def lines (l : Listing) : String :=
  String.ofList (l.entries.flatMap fun entry => (entryLine l.language entry).compact ++ ['\n'])

end Lifter.Listing
