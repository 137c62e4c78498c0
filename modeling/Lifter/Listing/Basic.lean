/-
  Lifter.Listing.Basic — the result of going through a program.

  An entry is a decoded instruction or an address at which decoding failed, with the
  reason.
-/

import Lifter.Record

namespace Lifter

structure DecodedInstruction where
  address : UInt64
  length : Nat
  bytes : List UInt8
  line : LineRecord
  /-- Empty unless micro-operations were asked for. -/
  ops : List OpRecord
  deriving DecidableEq, Repr

inductive ListingEntry where
  | decoded (insn : DecodedInstruction)
  | failed (address : UInt64) (error : String)
  deriving DecidableEq, Repr

namespace ListingEntry

def address : ListingEntry → UInt64
  | .decoded insn => insn.address
  | .failed address _ => address

def isDecoded : ListingEntry → Bool
  | .decoded _ => true
  | .failed _ _ => false

end ListingEntry

structure Listing where
  /-- The processor's name. -/
  language : String
  /-- The code space's name. -/
  space : String
  entries : List ListingEntry
  deriving DecidableEq, Repr

def Listing.decodedCount (l : Listing) : Nat := l.entries.countP (·.isDecoded)

end Lifter
