/-
  Lifter.Specification.Number — the numbers of a processor description.

  White space around a number and underscores in it do not count. An integer may have
  a minus sign, behind which white space does not count either, and is less than 2^63
  in size.
-/

import Lifter.Bits
import Lifter.Text.Blank
import Lifter.Text.Numeral

namespace Lifter.Specification

def number? (cs : List Char) : Option UInt64 :=
  (Text.readNumber ((Text.trim cs).filter (· != '_'))).toOption

/-- A number with its sign apart. -/
def magnitude? (cs : List Char) : Option Nat :=
  (number? cs).bind fun n => if n.toNat < capacity 63 then some n.toNat else none

def integer? (cs : List Char) : Option Int :=
  match Text.trim cs with
  | '-' :: rest => (magnitude? rest).map fun n => -(n : Int)
  | _ => (magnitude? cs).map fun n => (n : Int)

end Lifter.Specification
