/-
  Lifter.Text.Quoted — a text in double quotes.

  A quote and a backslash stand behind a backslash; NUL, tab, line feed and carriage
  return have a letter of their own; any other character that is not shown is written
  by its code point in braces.
-/

import Lifter.Text.Numeral
import Lifter.Text.Shown

namespace Lifter.Text

def quotedChar (c : Char) : List Char :=
  match c with
  | '\x00' => ['\\', '0']
  | '\t' => ['\\', 't']
  | '\n' => ['\\', 'n']
  | '\r' => ['\\', 'r']
  | '"' => ['\\', '"']
  | '\\' => ['\\', '\\']
  | c => if isShown c then [c] else ['\\', 'u', '\x7b'] ++ hexDigits c.toNat ++ ['\x7d']

def quoted (s : String) : String :=
  String.ofList ('"' :: (s.toList.flatMap quotedChar ++ ['"']))

end Lifter.Text
