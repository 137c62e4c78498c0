/-
  Lifter.Text.Case — reading names without regard to case.

  Every name this library knows is written in ASCII, so only those characters
  matter whose upper (or lower) case form is wholly ASCII. Besides the letters
  themselves these are the dotless i, the long s, the sharp s and the Latin
  ligatures on one side and the Kelvin sign on the other; all other characters are
  left alone, and no name holds one.
-/

namespace Lifter.Text

/-- The ASCII upper case form of one character outside ASCII, if it has one. -/
def upperForm? (c : Char) : Option (List Char) :=
  match c.toNat with
  | 0x00DF => some ['S', 'S']
  | 0x0131 => some ['I']
  | 0x017F => some ['S']
  | 0xFB00 => some ['F', 'F']
  | 0xFB01 => some ['F', 'I']
  | 0xFB02 => some ['F', 'L']
  | 0xFB03 => some ['F', 'F', 'I']
  | 0xFB04 => some ['F', 'F', 'L']
  | 0xFB05 => some ['S', 'T']
  | 0xFB06 => some ['S', 'T']
  | _ => none

def upper (s : String) : String :=
  String.ofList (s.toList.flatMap fun c => (upperForm? c).getD [c.toUpper])

def lower (s : String) : String :=
  String.ofList (s.toList.map fun c => if c.toNat = 0x212A then 'k' else c.toLower)

end Lifter.Text
