/-
  Lifter.Xml.CharData — references, line ends and attribute values.

  Raw text is a list of pieces: characters that stand there and characters given by a
  reference. In an attribute value, white space that stands there becomes a space, a
  carriage return and line feed together becoming one. In content the two, or a lone
  carriage return, become a line feed. A character given by a reference is never
  changed; and a carriage return stays one if a reference comes next, or if it follows
  a reference and ends the text.
-/

import Lifter.Text.Numeral
import Lifter.Xml.Char

namespace Lifter.Xml

inductive Piece where
  | literal (c : Char)
  | referred (c : Char)
  deriving DecidableEq, Repr

/-! ## References -/

/-- The character with number `n`, the replacement character if there is none; characters that no
    document may hold are refused. -/
def charOf? (n : Nat) : Option Char :=
  if n < UInt32.size then
    let c := if n.isValidChar then Char.ofNat n else Char.ofNat 0xFFFD
    if isAllowed c then some c else none
  else none

def charRef? (radix : Nat) (digits : List Char) : Option Char :=
  if digits.isEmpty then none
  else
    (digits.foldlM (fun value c => (Text.digit? radix c).map (radix * value + ·)) 0).bind charOf?

/-- What stands between `&` and `;`. -/
def reference? : List Char → Option Char
  | '#' :: 'x' :: digits => charRef? 16 digits
  | '#' :: digits => charRef? 10 digits
  | ['q', 'u', 'o', 't'] => some '"'
  | ['a', 'm', 'p'] => some '&'
  | ['a', 'p', 'o', 's'] => some '\''
  | ['l', 't'] => some '<'
  | ['g', 't'] => some '>'
  | _ => none

/-- Splits raw text into pieces; `open?` holds the characters since an unclosed `&`, last first. -/
def piecesFrom : Option (List Char) → List Char → Option (List Piece)
  | none, [] => some []
  | some _, [] => none
  | none, c :: cs =>
    if c = '&' then piecesFrom (some []) cs else (piecesFrom none cs).map (.literal c :: ·)
  | some name, c :: cs =>
    if c = ';' then
      match reference? name.reverse with
      | some d => (piecesFrom none cs).map (.referred d :: ·)
      | none => none
    else piecesFrom (some (c :: name)) cs

def pieces? (cs : List Char) : Option (List Piece) := piecesFrom none cs

/-! ## Normal forms -/

/-- Line ends of content; `behind` says that a reference comes right before. -/
def lineEnds (behind : Bool) : List Piece → List Char
  | [] => []
  | .referred c :: ps => c :: lineEnds true ps
  | .literal '\r' :: .literal '\n' :: ps => '\n' :: lineEnds false ps
  | .literal '\r' :: .referred c :: ps => '\r' :: c :: lineEnds true ps
  | [.literal '\r'] => if behind then ['\r'] else ['\n']
  | .literal '\r' :: .literal c :: ps => '\n' :: lineEnds false (.literal c :: ps)
  | .literal c :: ps => c :: lineEnds false ps

def spaces : List Piece → List Char
  | [] => []
  | .referred c :: ps => c :: spaces ps
  | .literal '\r' :: .literal '\n' :: ps => ' ' :: spaces ps
  | .literal c :: ps => (if isSpace c then ' ' else c) :: spaces ps

/-- The text of content between two tags. -/
def content? (cs : List Char) : Option (List Char) := (pieces? cs).map (lineEnds false)

/-- The text of a section in which nothing is markup. -/
def verbatim (cs : List Char) : List Char := lineEnds false (cs.map .literal)

def attributeValue? (cs : List Char) : Option (List Char) := (pieces? cs).map spaces

end Lifter.Xml
