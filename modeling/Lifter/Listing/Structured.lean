/-
  Lifter.Listing.Structured — a listing as one JSON value.

  The decoded instructions and the failures form two arrays, each in the order of the
  listing. An instruction without micro-operations has no member for them. The value is
  written in the pretty form.
-/

import Lifter.Json
import Lifter.Listing.Basic

namespace Lifter.Listing

def varnodeJson (v : VarnodeRecord) : Json :=
  .object [("space", .text v.space), ("offset", .number v.offset.toNat), ("size", .number v.size)]

def opJson (op : OpRecord) : Json :=
  .object
    [("address", .number op.address.toNat),
     ("opcode", .text op.opcode.name),
     ("output", (op.output.map varnodeJson).getD .null),
     ("inputs", .array (op.inputs.map varnodeJson))]

def instructionJson (insn : DecodedInstruction) : Json :=
  let ops := if insn.ops.isEmpty then [] else [("pcode", Json.array (insn.ops.map opJson))]
  .object
    ([("address", .text (Text.hex insn.address)),
      ("length", .number insn.length),
      ("mnemonic", .text insn.line.mnemonic),
      ("operands", .text insn.line.operands),
      ("bytes", .text (Text.hexBytes insn.bytes))] ++ ops)

def failureJson (address : UInt64) (error : String) : Json :=
  .object [("address", .text (Text.hex address)), ("error", .text error)]

def instructions (entries : List ListingEntry) : List Json :=
  entries.filterMap fun
    | .decoded insn => some (instructionJson insn)
    | .failed _ _ => none

def failures (entries : List ListingEntry) : List Json :=
  entries.filterMap fun
    | .decoded _ => none
    | .failed address error => some (failureJson address error)

def json (l : Listing) : Json :=
  .object
    [("language", .text l.language),
     ("space", .text l.space),
     ("instructions", .array (instructions l.entries)),
     ("failures", .array (failures l.entries))]

def structured (l : Listing) : String := String.ofList l.json.pretty

end Lifter.Listing
